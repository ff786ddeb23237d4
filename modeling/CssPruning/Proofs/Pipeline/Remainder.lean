import CssPruning.Pipeline
import CssPruning.Proofs.Sheet.Survival

/-!
# What the two stages leave of a sheet

Preformatting takes media rules away, postformatting gathers the names in use
from what is left, takes font faces away and then comments at the root.  All in
all the at-rules that are taken away are those that one condition on the sheet
as it was picks out (`Doomed`), although the second half of the condition speaks
of names that are only gathered between the stages.
-/

set_option autoImplicit false

namespace CssPruning

namespace Pipeline

/-- An at-rule that one of the stages takes away. -/
def Doomed (targets : List Target) (used : Font.NameSet) (vs : Font.Variables) (r : AtRule) :
    Prop :=
  Media.Unneeded targets r ∨ Font.Useless used vs r

/-- What is left of a sheet after both stages: all of it but the doomed at-rules,
and the comments at the root if these are to go. -/
structure Remainder (targets : List Target) (used : Font.NameSet) (vs : Font.Variables)
    (strip : Bool) (before after : Sheet) : Prop where
  /-- nothing else is lost or changed, and all keeps its order -/
  onlyDoomed : ∃ left, Node.Deleted (Doomed targets used vs) before left ∧
    after = if strip then left.filter (fun n => !n.isComment) else left
  /-- every media rule with a prelude is relevant for a target -/
  media : ∀ r ∈ Node.allAtRules after, r.isMedia = true →
    ∀ prelude, r.preludeText = some prelude →
      ∃ t ∈ targets, Media.relevantText (AtRule.canonicalPrelude prelude) t = true
  /-- every font face has a source, and the families that it declares are in use -/
  faces : ∀ r ∈ Node.allAtRules after, r.isFontFace = true →
    (∃ d ∈ r.declarations, d.propertyName = "src") ∧
      ∀ d ∈ r.declarations, d.propertyName = "font-family" →
        ∃ name, (Font.names vs d.value).head? = some name ∧ Text.lower name ∈ used
  /-- a declaration outside of doomed at-rules stays inside of the same containers -/
  declarations : ∀ (p : Place) (d : Declaration), before = p.fill (.declaration d) →
    (∀ r ∈ p.around (.declaration d), ¬ Doomed targets used vs r) →
      ∃ p' : Place, after = p'.fill (.declaration d) ∧ p'.containers = p.containers
  /-- and so does a style rule, with what is left inside of it -/
  rules : ∀ (p : Place) (selector : String) (children : List Node),
    before = p.fill (.rule selector children) →
    (∀ r ∈ p.around (.rule selector children), ¬ Doomed targets used vs r) →
      ∃ (p' : Place) (left : List Node), Node.Deleted (Doomed targets used vs) children left ∧
        after = p'.fill (.rule selector left) ∧ p'.containers = p.containers

/-! ## One test for both stages -/

/-- The test of both stages at once. -/
def spares (targets : List Target) (used : Font.NameSet) (vs : Font.Variables) (r : AtRule) :
    Bool :=
  Media.survives targets r && Font.survives used vs r

section

variable {targets : List Target} {used : Font.NameSet} {vs : Font.Variables}

theorem spares_iff {r : AtRule} : spares targets used vs r = true ↔ ¬ Doomed targets used vs r := by
  rw [spares, Bool.and_eq_true, Media.survives_iff, Font.survives_iff, Doomed, not_or]

theorem spares_withKept (keep : AtRule → Bool) (r : AtRule) :
    spares targets used vs (r.withKept keep) = spares targets used vs r := by
  simp [spares]

/-- The pass over font faces after the pass over media rules is one pass. -/
theorem allKept_survives_allKept_survives (s : Sheet) :
    Node.allKept (Font.survives used vs) (Node.allKept (Media.survives targets) s) =
      Node.allKept (spares targets used vs) s := by
  apply Node.allKept_allKept
  intro name prelude children
  exact Font.survives_withKept (Media.survives targets) ⟨name, prelude, some children⟩

/-- The root's comments may be stripped or not; what is no comment keeps its place. -/
theorem exists_fill_of_kept {strip : Bool} {before : Sheet} {p : Place} {n n' : Node}
    (hbefore : before = p.fill n) (haround : ∀ r ∈ p.around n, ¬ Doomed targets used vs r)
    (hkept : Node.kept (spares targets used vs) n = some n') (hn' : n'.isComment = false) :
    ∃ p' : Place, (if strip then Sheet.stripComments (Node.allKept (spares targets used vs) before)
      else Node.allKept (spares targets used vs) before) = p'.fill n' ∧
        p'.containers = p.containers := by
  have hfill : Node.allKept (spares targets used vs) before =
      (p.left (spares targets used vs)).fill n' := by
    rw [hbefore]
    exact Place.allKept_fill (fun r hr => spares_iff.2 (haround r hr)) hkept
  rw [hfill]
  cases strip with
  | false => exact ⟨_, rfl, Place.containers_left _ p⟩
  | true =>
    refine ⟨(p.left (spares targets used vs)).uncommented, ?_, ?_⟩
    · exact Place.stripComments_fill hn'
    · rw [Place.containers_uncommented, Place.containers_left]

/-- What the one test leaves, with or without the comments at the root. -/
theorem remainder_allKept (strip : Bool) (s : Sheet) :
    Remainder targets used vs strip s
      (if strip then Sheet.stripComments (Node.allKept (spares targets used vs) s)
        else Node.allKept (spares targets used vs) s) := by
  have hrules : ∀ r ∈ Node.allAtRules
      (if strip then Sheet.stripComments (Node.allKept (spares targets used vs) s)
        else Node.allKept (spares targets used vs) s), spares targets used vs r = true := by
    intro r hr
    have hmem : r ∈ Node.allAtRules (Node.allKept (spares targets used vs) s) := by
      cases strip with
      | false => exact hr
      | true => exact Sheet.allAtRules_stripComments _ ▸ hr
    obtain ⟨r₀, hr₀, rfl⟩ := Node.mem_allAtRules_allKept hmem
    rwa [spares_withKept]
  constructor
  case onlyDoomed =>
    exact ⟨_, Node.deleted_allKept (fun r => spares_iff) s, rfl⟩
  case media =>
    intro r hr hmedia prelude hprelude
    have hsurvives := (Bool.and_eq_true_iff.1 (hrules r hr)).1
    exact Media.exists_relevant_of_survives hsurvives hmedia hprelude
  case faces =>
    intro r hr hface
    have hsurvives := (Bool.and_eq_true_iff.1 (hrules r hr)).2
    rw [Font.survives_iff_of_isFontFace hface, Font.isUsed_iff, Font.hasSource_iff] at hsurvives
    exact ⟨hsurvives.2, hsurvives.1⟩
  case declarations =>
    intro p d hbefore haround
    exact exists_fill_of_kept hbefore haround rfl rfl
  case rules =>
    intro p selector children hbefore haround
    obtain ⟨p', hfill, hcontainers⟩ := exists_fill_of_kept hbefore haround rfl rfl
    exact ⟨p', _, Node.deleted_allKept (fun r => spares_iff) children, hfill, hcontainers⟩

end

/-- What both stages leave of any sheet, whatever the run is to do and whatever a
probe has seen. -/
theorem remainder_postformat_preformat (p : Pipeline) (s : Sheet)
    (signals : Option Probe.Signals) :
    Remainder (Target.effective p.targets p.keepLarger)
      (p.postformat (p.preformat s).sheet signals).report.used
      (Font.usage .empty (p.preformat s).sheet).known
      p.stripComments s (p.postformat (p.preformat s).sheet signals).sheet := by
  have hpre : (p.preformat s).sheet =
      Node.allKept (Media.survives (Target.effective p.targets p.keepLarger)) s :=
    Node.sheet_prune _ s
  have hpost : (p.postformat (p.preformat s).sheet signals).sheet =
      if p.stripComments then
        Sheet.stripComments (Node.allKept
          (spares (Target.effective p.targets p.keepLarger)
            (p.postformat (p.preformat s).sheet signals).report.used
            (Font.usage .empty (p.preformat s).sheet).known) s)
      else
        Node.allKept
          (spares (Target.effective p.targets p.keepLarger)
            (p.postformat (p.preformat s).sheet signals).report.used
            (Font.usage .empty (p.preformat s).sheet).known) s := by
    rw [← allKept_survives_allKept_survives, ← hpre, ← Node.sheet_prune]
    rfl
  rw [hpost]
  exact remainder_allKept p.stripComments s

end Pipeline

end CssPruning
