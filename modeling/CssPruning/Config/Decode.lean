import CssPruning.Config.Source

/-!
# Understanding configurations

The fields of a configuration are understood in the order in which they are
given.  Fields that nobody knows are skipped, and a field must not come twice.  In
place of the fields by name there may be an array of their values in order.

Lengths are the only numbers of a configuration; every length that is accepted is
finite and not negative (`isValid_ofLength`).
-/

set_option autoImplicit false

namespace CssPruning.Config

variable {α : Type} (src : Source α)

/-! ## Scalars -/

/-- A flag. -/
def flag (a : α) : Except Fault Bool :=
  match src.view a with
  | .scalar (.bool b) _ => .ok b
  | .scalar _ kind => Fault.unexpected kind "a boolean"
  | .sequence .. => Fault.unexpected "sequence" "a boolean"
  | .fields .. => Fault.unexpected "map" "a boolean"
  | .broken flaw => .error (.text flaw)

/-- The double nearest to an integer. -/
def floatOfInt (n : Int) : Float :=
  let x := Decimal.nearest n.natAbs 0
  if n < 0 then -x else x

/-- The length that a scalar is. -/
def lengthOfScalar : Json → Except Fault Length
  | .integer n => usable (Length.ofPx? (floatOfInt n))
  | .float x => usable (Length.ofPx? x)
  | .string s => usable (Length.parse s)
  | _ => .error (.mismatch .noLength)
where
  /-- The length, or what is wrong with it. -/
  usable (r : Except Error Length) : Except Fault Length :=
    r.mapError fun e => .mismatch (.badLength e)

/-- A length: pixels, or a text with a unit.  The whole value is read before it is
understood. -/
def length (a : α) : Except Fault Length :=
  match src.wantFlaw a with
  | some flaw => .error (.text flaw)
  | none =>
    match src.view a with
    | .scalar v _ => lengthOfScalar v
    | .sequence .. | .fields .. => .error (.mismatch .noLength)
    | .broken flaw => .error (.text flaw)

/-! ## Fields -/

/-- A field that has not come before. -/
def once {β : Type} (name : String) (before : Option β) (value : Except Fault β) :
    Except Fault (Option β) :=
  match before with
  | some _ => .error (.mismatch (.duplicateField name))
  | none => some <$> value

/-- A field that nobody knows. -/
def skip {β : Type} (a : α) (b : β) : Except Fault β :=
  match src.skipFlaw a with
  | some flaw => .error (.text flaw)
  | none => .ok b

/-- The end of an array or an object, if that is what comes. -/
def close {β : Type} (stop : Option Json.Flaw) (b : β) : Except Fault β :=
  match stop with
  | some flaw => .error (.text flaw)
  | none => .ok b

/-- A field that must be there. -/
def required {β : Type} (name : String) : Option β → Except Fault β
  | some b => .ok b
  | none => .error (.mismatch (.missingField name))

/-- The element at a place of an array, or what stands for it if the array is too
short. -/
def element {β : Type} (items : List α) (stop : Option Json.Flaw) (i : Nat)
    (value : α → Except Fault β) (missing : Except Fault β) : Except Fault β :=
  match items[i]? with
  | some a => value a
  | none => (close stop ()).bind fun _ => missing

/-- The end of an array of fields. -/
def closeFields {β : Type} (items : List α) (stop : Option Json.Flaw) (fields : Nat) (b : β) :
    Except Fault β :=
  if items.length ≤ fields then close stop b
  else
    match src.surplus items.length with
    | some fault => .error fault
    | none => .ok b

/-! ## Targets -/

/-- The fields of a target that have come so far. -/
structure TargetDraft where
  medium : Option Medium
  width : Option Length
  height : Option Length

/-- One more field of a target. -/
def TargetDraft.add (d : TargetDraft) (entry : Option String × α) : Except Fault TargetDraft :=
  match entry with
  | (none, _) => .error (.text .malformed)
  | (some name, a) =>
    if name = "type" then do
      return { d with medium := ← once name d.medium (src.medium a) }
    else if name = "width" then do
      return { d with width := ← once name d.width (length src a) }
    else if name = "height" then do
      return { d with height := ← once name d.height (length src a) }
    else skip src a d

/-- The target of some fields. -/
def TargetDraft.finish (d : TargetDraft) : Except Fault Target := do
  let width ← required "width" d.width
  let height ← required "height" d.height
  return ⟨d.medium.getD .screen, width, height⟩

/-- A target given as an array. -/
def targetOfItems (items : List α) (stop : Option Json.Flaw) : Except Fault Target := do
  let medium ← element items stop 0 src.medium (.ok .screen)
  let width ← element items stop 1 (length src) (.error (.mismatch (.tooFew 1)))
  let height ← element items stop 2 (length src) (.error (.mismatch (.tooFew 2)))
  closeFields src items stop 3 ⟨medium, width, height⟩

/-- A target. -/
def target (a : α) : Except Fault Target :=
  match src.view a with
  | .sequence items stop => targetOfItems src items stop
  | .fields entries stop => do
    let draft ← entries.foldlM (TargetDraft.add src) ⟨none, none, none⟩
    close stop () >>= fun _ => draft.finish
  | .scalar _ kind => Fault.unexpected kind "struct MatchConfig"
  | .broken flaw => .error (.text flaw)

/-- An array of targets. -/
def targets (a : α) : Except Fault (List Target) :=
  match src.view a with
  | .sequence items stop => do
    let ts ← items.mapM (target src)
    close stop ts
  | .scalar _ kind => Fault.unexpected kind "a sequence"
  | .fields .. => Fault.unexpected "map" "a sequence"
  | .broken flaw => .error (.text flaw)

/-! ## Pipelines -/

/-- The fields of a pipeline that have come so far. -/
structure PipelineDraft where
  targets : Option (List Target)
  keepLarger : Option Bool
  requireRendered : Option Bool
  stripComments : Option Bool

/-- One more field of a pipeline. -/
def PipelineDraft.add (d : PipelineDraft) (entry : Option String × α) :
    Except Fault PipelineDraft :=
  match entry with
  | (none, _) => .error (.text .malformed)
  | (some name, a) =>
    if name = "match_configs" then do
      return { d with targets := ← once name d.targets (Config.targets src a) }
    else if name = "keep_larger_media_queries" then do
      return { d with keepLarger := ← once name d.keepLarger (flag src a) }
    else if name = "require_rendered_fonts" then do
      return { d with requireRendered := ← once name d.requireRendered (flag src a) }
    else if name = "strip_comments" then do
      return { d with stripComments := ← once name d.stripComments (flag src a) }
    else skip src a d

/-- The pipeline of some fields; the others are as usual. -/
def PipelineDraft.finish (d : PipelineDraft) : Pipeline :=
  ⟨d.targets.getD Pipeline.standardTargets, d.keepLarger.getD false,
    d.requireRendered.getD false, d.stripComments.getD true⟩

/-- A pipeline given as an array. -/
def pipelineOfItems (items : List α) (stop : Option Json.Flaw) : Except Fault Pipeline := do
  let ts ← element items stop 0 (targets src) (.ok Pipeline.standardTargets)
  let keepLarger ← element items stop 1 (flag src) (.ok false)
  let requireRendered ← element items stop 2 (flag src) (.ok false)
  let stripComments ← element items stop 3 (flag src) (.ok true)
  closeFields src items stop 4 ⟨ts, keepLarger, requireRendered, stripComments⟩

/-- A pipeline. -/
def pipeline (a : α) : Except Fault Pipeline :=
  match src.view a with
  | .sequence items stop => pipelineOfItems src items stop
  | .fields entries stop => do
    let draft ← entries.foldlM (PipelineDraft.add src) ⟨none, none, none, none⟩
    close stop draft.finish
  | .scalar _ kind => Fault.unexpected kind "struct PruneConfig"
  | .broken flaw => .error (.text flaw)

/-! ## Accepted lengths -/

theorem isValid_ofPx? {x : Float} {l : Length} (h : Length.ofPx? x = .ok l) :
    Length.isValid l.px = true := by
  unfold Length.ofPx? at h
  split at h <;> simp_all
  subst h
  assumption

theorem isValid_parse {s : String} {l : Length} (h : Length.parse s = .ok l) :
    Length.isValid l.px = true := by
  unfold Length.parse at h
  split at h
  · split at h <;> simp_all
    subst h
    assumption
  · simp at h

theorem isValid_ofScalar {v : Json} {l : Length} (h : lengthOfScalar v = .ok l) :
    Length.isValid l.px = true := by
  have key {r : Except Error Length} (h : lengthOfScalar.usable r = .ok l) : r = .ok l := by
    cases r with
    | ok a => exact congrArg Except.ok (Except.ok.inj h)
    | error e => exact nomatch (h : Except.error _ = Except.ok l)
  unfold lengthOfScalar at h
  split at h
  · exact isValid_ofPx? (key h)
  · exact isValid_ofPx? (key h)
  · exact isValid_parse (key h)
  · simp at h

theorem isValid_ofLength {a : α} {l : Length} (h : length src a = .ok l) :
    Length.isValid l.px = true := by
  unfold length at h
  split at h
  · simp at h
  · split at h
    · exact isValid_ofScalar h
    all_goals simp at h

end CssPruning.Config
