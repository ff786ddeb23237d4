import CssPruning.Json.Token

/-!
# Reading JSON text as far as it goes

A JSON text is read into a tree that also says where the text stops being one:
an array or an object that is not closed carries its flaw, a value that is not
there is a broken one.  Whoever takes a value out of the tree in the order of the
text meets first what stands first, be it a flaw of the text or a value of the
wrong shape.

The reader is a machine over the tokens: the arrays and objects that are open,
innermost first, and what may come next.
-/

set_option autoImplicit false

namespace CssPruning.Json

/-- Where an object goes no further. -/
inductive ObjectStop where
  /-- behind an entry, where a comma or the end of the object has to stand -/
  | entry (flaw : Flaw)
  /-- where a name has to stand -/
  | name (stop : Stop)
  deriving DecidableEq, Repr, Inhabited

namespace ObjectStop

/-- The flaw for who wants another entry. -/
def wanted : ObjectStop → Flaw
  | entry flaw => flaw
  | name stop => stop.wanted

/-- The flaw for who skips the object. -/
def skipped : ObjectStop → Flaw
  | entry flaw => flaw
  | name stop => stop.skipped

end ObjectStop

/-- A JSON text as far as it goes. -/
inductive Reading where
  /-- a word or a number; `none` for a number out of range -/
  | scalar (value : Option Json)
  /-- a string; `none` for one with half of a surrogate pair -/
  | string (text : Option String)
  | array (items : List Reading) (stop : Option Flaw)
  | object (entries : List (Option String × Reading)) (stop : Option ObjectStop)
  /-- no value -/
  | broken (stop : Stop)
  deriving Inhabited

namespace Reading

/-! ## The machine -/

/-- An array or an object that is open, its contents last first. -/
inductive Frame where
  | array (items : List Reading)
  | object (entries : List (Option String × Reading)) (key : Option String)

/-- What may come next. -/
inductive Expectation where
  | value
  | valueOrClose
  | separator
  | key
  | keyOrClose
  | colon

/-- A value put into a frame. -/
def Frame.push (r : Reading) : Frame → Frame
  | .array items => .array (r :: items)
  | .object entries key => .object ((key, r) :: entries) key

/-- The array or object of a frame. -/
def Frame.close : Frame → Reading
  | .array items => .array items.reverse none
  | .object entries _ => .object entries.reverse none

/-- The whole reading when nothing follows a value inside of some frames. -/
def finish (frames : List Frame) (r : Reading) : Reading :=
  frames.foldl (fun r f => (f.push r).close) r

/-- The whole reading when the text stops behind a value. -/
def haltBehind (flaw : Flaw) : List Frame → Reading
  | [] => .broken (.of flaw)
  | .array items :: frames => finish frames (.array items.reverse (some flaw))
  | .object entries _ :: frames => finish frames (.object entries.reverse (some (.entry flaw)))

/-- The whole reading when the text stops where a name has to stand. -/
def haltAtName (stop : Stop) : List Frame → Reading
  | .object entries _ :: frames => finish frames (.object entries.reverse (some (.name stop)))
  | frames => finish frames (.broken stop)

/-- A text as far as it goes, and whether anything follows its value. -/
abbrev Outcome := Reading × Bool

/-- The outcome for the tokens still to come. -/
def build (frames : List Frame) (expected : Expectation) : List Token → Outcome
  | [] =>
    match expected with
    | .value | .valueOrClose | .colon => (finish frames (.broken (.of .cutShort)), false)
    | .key | .keyOrClose => (haltAtName (.of .cutShort) frames, false)
    | .separator => (haltBehind .cutShort frames, false)
  | t :: ts =>
    let place (frames : List Frame) (r : Reading) : Outcome :=
      match frames with
      | [] => (r, !ts.isEmpty)
      | f :: fs => build (f.push r :: fs) .separator ts
    match expected, t, frames with
    | .valueOrClose, .closeArray, f :: fs => place fs f.close
    | .value, .scalar v, _ | .valueOrClose, .scalar v, _ => place frames (.scalar v)
    | .value, .string s, _ | .valueOrClose, .string s, _ => place frames (.string s)
    | .value, .openArray, _ | .valueOrClose, .openArray, _ =>
      build (.array [] :: frames) .valueOrClose ts
    | .value, .openObject, _ | .valueOrClose, .openObject, _ =>
      build (.object [] none :: frames) .keyOrClose ts
    | .value, .fault _ stop, _ | .valueOrClose, .fault _ stop, _ =>
      (finish frames (.broken stop), false)
    | .value, _, _ | .valueOrClose, _, _ => (finish frames (.broken (.of .malformed)), false)
    | .separator, .comma, .array _ :: _ => build frames .value ts
    | .separator, .comma, .object .. :: _ => build frames .key ts
    | .separator, .closeArray, .array items :: fs => place fs (.array items.reverse none)
    | .separator, .closeObject, .object entries _ :: fs =>
      place fs (.object entries.reverse none)
    | .separator, _, _ => (haltBehind .malformed frames, false)
    | .keyOrClose, .closeObject, f :: fs => place fs f.close
    | .key, .string s, .object entries _ :: fs | .keyOrClose, .string s, .object entries _ :: fs =>
      build (.object entries s :: fs) .colon ts
    | .key, .fault true stop, _ | .keyOrClose, .fault true stop, _ =>
      (haltAtName stop frames, false)
    | .key, _, _ | .keyOrClose, _, _ => (haltAtName (.of .malformed) frames, false)
    | .colon, .colon, _ => build frames .value ts
    | .colon, _, _ => (finish frames (.broken (.of .malformed)), false)

/-- A JSON text as far as it goes, and whether anything follows its value. -/
def ofText (text : String) : Outcome := build [] .value (Token.list text.toList)

/-! ## Flaws of a value as a whole -/

/-- Containers inside containers are read to this depth. -/
def maxDepth : Nat := 127

mutual

/-- The first flaw that who skips a value minds. -/
def skipFlaw : Reading → Option Flaw
  | scalar _ | string _ => none
  | array items stop => (itemsSkipFlaw items).or stop
  | object entries stop => (entriesSkipFlaw entries).or (stop.map ObjectStop.skipped)
  | broken stop => some stop.skipped
termination_by structural r => r

/-- The first flaw among items that who skips them minds. -/
def itemsSkipFlaw : List Reading → Option Flaw
  | [] => none
  | r :: rs => (skipFlaw r).or (itemsSkipFlaw rs)
termination_by structural rs => rs

/-- The first flaw among entries that who skips them minds. -/
def entriesSkipFlaw : List (Option String × Reading) → Option Flaw
  | [] => none
  | e :: es => (entrySkipFlaw e).or (entriesSkipFlaw es)
termination_by structural es => es

/-- The first flaw of an entry that who skips it minds. -/
def entrySkipFlaw : Option String × Reading → Option Flaw
  | (_, r) => skipFlaw r
termination_by structural e => e

end

mutual

/-- The first flaw of a value at some depth, for who wants all of it. -/
def wantFlaw (depth : Nat) : Reading → Option Flaw
  | scalar none | string none => some .malformed
  | scalar (some _) | string (some _) => none
  | array items stop =>
    if maxDepth ≤ depth then some .malformed
    else (itemsWantFlaw (depth + 1) items).or stop
  | object entries stop =>
    if maxDepth ≤ depth then some .malformed
    else (entriesWantFlaw (depth + 1) entries).or (stop.map ObjectStop.wanted)
  | broken stop => some stop.wanted
termination_by structural r => r

/-- The first flaw among items, for who wants all of them. -/
def itemsWantFlaw (depth : Nat) : List Reading → Option Flaw
  | [] => none
  | r :: rs => (wantFlaw depth r).or (itemsWantFlaw depth rs)
termination_by structural rs => rs

/-- The first flaw among entries, for who wants all of them. -/
def entriesWantFlaw (depth : Nat) : List (Option String × Reading) → Option Flaw
  | [] => none
  | e :: es => (entryWantFlaw depth e).or (entriesWantFlaw depth es)
termination_by structural es => es

/-- The first flaw of an entry, for who wants it. -/
def entryWantFlaw (depth : Nat) : Option String × Reading → Option Flaw
  | (none, _) => some .malformed
  | (some _, r) => wantFlaw depth r
termination_by structural e => e

end

/-! ## Values as readings, and back -/

mutual

/-- The value that a reading is, if it is one. -/
def value? : Reading → Option Json
  | scalar v => v
  | string s => s.map .string
  | array items none => (values? items).map .array
  | object entries none => (valueEntries? entries).map .object
  | array _ (some _) | object _ (some _) | broken _ => none
termination_by structural r => r

/-- The values that readings are, if all are. -/
def values? : List Reading → Option (List Json)
  | [] => some []
  | r :: rs => do return (← value? r) :: (← values? rs)
termination_by structural rs => rs

/-- The entries that readings are, if all are. -/
def valueEntries? : List (Option String × Reading) → Option (List (String × Json))
  | [] => some []
  | e :: es => do return (← valueEntry? e) :: (← valueEntries? es)
termination_by structural es => es

/-- The entry that a reading is, if it is one. -/
def valueEntry? : Option String × Reading → Option (String × Json)
  | (k, r) => do return ((← k), (← value? r))
termination_by structural e => e

end

mutual

/-- A value as a text would give it. -/
def ofValue : Json → Reading
  | .string s => string (some s)
  | .array items => array (ofValues items) none
  | .object entries => object (ofEntries entries) none
  | v => scalar (some v)
termination_by structural j => j

/-- Values as a text would give them. -/
def ofValues : List Json → List Reading
  | [] => []
  | j :: js => ofValue j :: ofValues js
termination_by structural js => js

/-- Entries as a text would give them. -/
def ofEntries : List (String × Json) → List (Option String × Reading)
  | [] => []
  | e :: es => ofEntry e :: ofEntries es
termination_by structural es => es

/-- An entry as a text would give it. -/
def ofEntry : String × Json → Option String × Reading
  | (k, j) => (some k, ofValue j)
termination_by structural e => e

end

end Reading

/-- The value of a JSON text, if it is one. -/
def parse? (text : String) : Option Json :=
  match Reading.ofText text with
  | (r, false) => r.value?
  | (_, true) => none

end CssPruning.Json
