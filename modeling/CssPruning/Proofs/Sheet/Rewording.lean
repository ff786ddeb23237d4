import CssPruning.Proofs.Sheet.Positions
import CssPruning.Proofs.Sheet.RoundTrip
import CssPruning.Proofs.Sheet.Verdicts

/-!
# Passes over reworded sheets

A rewording changes the texts of a sheet and keeps its shape.  A pass whose test does
not tell an at-rule from the reworded one gives the same answers on the reworded sheet
(`Node.allVerdicts_allReword`), and takes at-rules away at the same positions
(`Node.allRejected_allReword`).
-/

set_option autoImplicit false

namespace CssPruning

/-- The at-rule with new texts for it and for what is inside of it. -/
def AtRule.reword (f : Node.Rewording) (r : AtRule) : AtRule :=
  ⟨f.name r.name, f.prelude r.prelude, r.block.map (Node.allReword f)⟩

/-- The verdict on a reworded at-rule. -/
def Verdict.reword (f : Node.Rewording) (v : Verdict) : Verdict := ⟨v.rule.reword f, v.kept⟩

namespace Node

variable {f : Rewording} {keep keep' : AtRule → Bool}
  (h : ∀ r : AtRule, keep' (r.reword f) = keep r)

include h in
/-- A test that answers alike on reworded at-rules gives the same verdicts on them. -/
theorem allVerdicts_allReword (ns : List Node) :
    allVerdicts keep' (allReword f ns) = (allVerdicts keep ns).map (Verdict.reword f) := by
  induction ns using rowInduction with
  | nil => rfl
  | rule selector children ns ihc ih =>
    rw [allReword, reword, allVerdicts, allVerdicts, List.map_append, ih]
    exact congrArg (· ++ _) ihc
  | statement name prelude ns ih =>
    have hrule : keep' ⟨f.name name, f.prelude prelude, none⟩ = keep ⟨name, prelude, none⟩ :=
      h ⟨name, prelude, none⟩
    rw [allReword, reword, allVerdicts, allVerdicts, List.map_append, ih, verdicts, verdicts, hrule]
    rfl
  | block name prelude children ns ihc ih =>
    have hrule : keep' ⟨f.name name, f.prelude prelude, some (allReword f children)⟩ =
        keep ⟨name, prelude, some children⟩ := h ⟨name, prelude, some children⟩
    rw [allReword, reword, allVerdicts, allVerdicts, List.map_append, ih, verdicts, verdicts, hrule,
      ihc]
    split <;> rfl
  | declaration d ns ih => exact ih
  | comment text ns ih => exact ih
  | raw text ns ih => exact ih

include h in
/-- It takes at-rules away at the same positions. -/
theorem allRejected_allReword (index : Nat) (ns : List Node) :
    allRejected keep' index (allReword f ns) = allRejected keep index ns := by
  induction ns using rowInduction generalizing index with
  | nil => rfl
  | rule selector children ns ihc ih =>
    rw [allReword, reword, allRejected, allRejected, rejected, rejected, ihc, ih]
  | statement name prelude ns ih =>
    have hrule : keep' ⟨f.name name, f.prelude prelude, none⟩ = keep ⟨name, prelude, none⟩ :=
      h ⟨name, prelude, none⟩
    rw [allReword, reword, allRejected, allRejected, rejected, rejected, hrule, ih]
  | block name prelude children ns ihc ih =>
    have hrule : keep' ⟨f.name name, f.prelude prelude, some (allReword f children)⟩ =
        keep ⟨name, prelude, some children⟩ := h ⟨name, prelude, some children⟩
    rw [allReword, reword, allRejected, allRejected, rejected, rejected, hrule, ihc, ih]
  | declaration d ns ih => exact ih (index + 1)
  | comment text ns ih => exact ih (index + 1)
  | raw text ns ih => exact ih (index + 1)

end Node

end CssPruning
