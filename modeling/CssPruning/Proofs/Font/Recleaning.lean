import CssPruning.Proofs.Font.Usage
import CssPruning.Proofs.Sheet.Survival
import CssPruning.Proofs.Sheet.Verdicts

/-!
# Cleaning a sheet of its font faces twice

What a sheet asks for is gathered from all of it, before any face goes.  A face
that goes may hold a variable, or ask for a family from inside of a rule, and a
face that stayed may have relied on that.  So a second cleanup can find more to
remove than the first.

It finds nothing exactly if what is left still asks for every family that it
declares (`Justified`), which is so whenever the faces that went held no
declaration that counts (`removeUnusedFaces_cleaned_iff`).
-/

set_option autoImplicit false

namespace CssPruning

/-! ## Declarations that go -/

namespace Node

mutual

/-- The declarations of a node that are inside of at-rules that a test rejects,
each with whether a style rule is around it. -/
def lost (keep : AtRule → Bool) (underRule : Bool) : Node → List (Declaration × Bool)
  | rule _ children => allLost keep true children
  | atRule _ _ none => []
  | atRule name prelude (some children) =>
    if keep ⟨name, prelude, some children⟩ then allLost keep underRule children
    else allDeclarations underRule children
  | declaration _ | comment _ | raw _ => []
termination_by structural n => n

/-- The declarations of some nodes in a row that are inside of rejected at-rules. -/
def allLost (keep : AtRule → Bool) (underRule : Bool) : List Node → List (Declaration × Bool)
  | [] => []
  | n :: ns => lost keep underRule n ++ allLost keep underRule ns
termination_by structural ns => ns

end

end Node

namespace Font

namespace Usage

/-- The declaration counts when usage is gathered: it gives a variable, or it
stands under a style rule and asks for families. -/
def Counts (d : Declaration) (underRule : Bool) : Prop :=
  d.isCustom = true ∨
    underRule = true ∧ (d.propertyName = "font-family" ∨ d.propertyName = "font")

theorem step_of_not_counts {d : Declaration} {underRule : Bool} (h : ¬ Counts d underRule)
    (u : Usage) : u.step d underRule = u := by
  obtain ⟨hcustom, hasks⟩ := not_or.1 h
  rw [step, if_neg hcustom]
  cases underRule with
  | false => rfl
  | true =>
    have hasked : asked u.known d = [] := by
      unfold asked
      split
      · rename_i hd
        exact absurd ⟨rfl, .inl hd⟩ hasks
      · rename_i hd
        exact absurd ⟨rfl, .inr hd⟩ hasks
      · rfl
    rw [if_pos rfl, hasked]
    rfl

theorem run_of_not_counts {ds : List (Declaration × Bool)} (h : ∀ x ∈ ds, ¬ Counts x.1 x.2)
    (u : Usage) : u.run ds = u := by
  induction ds with
  | nil => rfl
  | cons x ds ih =>
    rw [List.forall_mem_cons] at h
    have hcons : u.run (x :: ds) = (u.step x.1 x.2).run ds := rfl
    rw [hcons, step_of_not_counts h.1, ih h.2]

/-- What goes without counting is not missed. -/
theorem run_allDeclarations_allKept {keep : AtRule → Bool} {ns : List Node} {underRule : Bool}
    (h : ∀ x ∈ Node.allLost keep underRule ns, ¬ Counts x.1 x.2) (u : Usage) :
    u.run (Node.allDeclarations underRule (Node.allKept keep ns)) =
      u.run (Node.allDeclarations underRule ns) := by
  induction ns using Node.rowInduction generalizing underRule u with
  | nil => rfl
  | rule selector children ns ihc ih =>
    simp only [Node.allLost, Node.lost, List.forall_mem_append] at h
    simp only [Node.allKept, Node.kept, Option.toList_some, List.singleton_append,
      Node.allDeclarations, Node.declarations, run_append, ihc h.1, ih h.2]
  | statement name prelude ns ih =>
    simp only [Node.allLost, Node.lost, List.nil_append] at h
    have hkept : Node.allDeclarations underRule (Node.kept keep (.atRule name prelude none)).toList
        = [] := by
      rw [Node.kept]
      split <;> rfl
    rw [Node.allKept, Node.allDeclarations_append, hkept, List.nil_append, ih h]
    rfl
  | block name prelude children ns ihc ih =>
    simp only [Node.allLost, Node.lost, List.forall_mem_append] at h
    obtain ⟨hlost, hns⟩ := h
    simp only [Node.allKept, Node.kept]
    split
    · rename_i hk
      rw [if_pos hk] at hlost
      simp only [Option.toList_some, List.singleton_append, Node.allDeclarations,
        Node.declarations, run_append, ihc hlost, ih hns]
    · rename_i hk
      rw [if_neg hk] at hlost
      simp only [Option.toList_none, List.nil_append, Node.allDeclarations, Node.declarations,
        run_append, run_of_not_counts hlost, ih hns]
  | declaration d ns ih =>
    simp only [Node.allLost, Node.lost, List.nil_append] at h
    simp only [Node.allKept, Node.kept, Option.toList_some, List.singleton_append,
      Node.allDeclarations, run_append, ih h]
  | comment text ns ih => exact ih h u
  | raw text ns ih => exact ih h u

end Usage

/-! ## Faces that nothing asks for -/

variable {used : NameSet} {vs : Variables}

theorem droppedFace_of_survives {r : AtRule} (hr : survives used vs r = true)
    (hface : r.isFontFace = true) : droppedFace used vs r = none := by
  rw [survives, hface, Bool.not_true, Bool.false_or, Option.isNone_iff_eq_none] at hr
  rw [droppedFace, hr]
  rfl

/-- A pass over faces that all survive changes nothing and drops nothing. -/
theorem pruneFaces_of_forall {sheet : Sheet}
    (h : ∀ r ∈ Node.allAtRules sheet, survives used vs r = true) :
    (pruneFaces used vs sheet).sheet = sheet ∧ (pruneFaces used vs sheet).report.dropped = [] := by
  simp only [pruneFaces, Node.sheet_prune_eq, FaceReport.ofVerdicts]
  refine ⟨Node.allKept_eq_self h, ?_⟩
  rw [Node.allVerdicts_of_forall h, List.filterMap_eq_nil_iff]
  intro r hr
  rw [List.map_map, List.mem_filter, List.mem_map] at hr
  obtain ⟨⟨r', hr', rfl⟩, hface⟩ := hr
  exact droppedFace_of_survives (h r' hr') hface

/-- In a sheet that a pass leaves alone all at-rules survive the pass. -/
theorem survives_of_pruneFaces_eq {sheet : Sheet} (h : (pruneFaces used vs sheet).sheet = sheet)
    {r : AtRule} (hr : r ∈ Node.allAtRules sheet) : survives used vs r = true := by
  have hkept : Node.allKept (survives used vs) sheet = sheet := by
    rw [← Node.sheet_prune]
    exact h
  rw [← hkept] at hr
  exact Node.keep_of_mem_allAtRules_allKept (survives_withKept _) hr

/-! ## Two cleanups -/

/-- The sheet after a cleanup with no variables known beforehand. -/
def cleaned (sheet : Sheet) : Sheet := (removeUnusedFaces .empty sheet).2.sheet

/-- The declarations inside of the faces that a cleanup removes. -/
def lostDeclarations (sheet : Sheet) : List (Declaration × Bool) :=
  Node.allLost (survives (usage .empty sheet).used (usage .empty sheet).known) false sheet

/-- The sheet itself asks for every family that a face in it declares. -/
def Justified (sheet : Sheet) : Prop :=
  ∀ r ∈ Node.allAtRules sheet, r.isFontFace = true →
    ∀ d ∈ r.declarations, d.propertyName = "font-family" →
      ∃ name, (names (usage .empty sheet).known d.value).head? = some name ∧
        Text.lower name ∈ (usage .empty sheet).used

theorem cleaned_eq (sheet : Sheet) :
    cleaned sheet =
      Node.allKept (survives (usage .empty sheet).used (usage .empty sheet).known) sheet :=
  Node.sheet_prune _ sheet

theorem survives_of_mem_cleaned {sheet : Sheet} {r : AtRule}
    (hr : r ∈ Node.allAtRules (cleaned sheet)) :
    survives (usage .empty sheet).used (usage .empty sheet).known r = true := by
  rw [cleaned_eq] at hr
  exact Node.keep_of_mem_allAtRules_allKept (survives_withKept _) hr

/-- The faces of a sheet with sources survive as far as the sheet asks for them. -/
theorem survives_of_justified {sheet : Sheet} (h : Justified sheet)
    (hsource : ∀ r ∈ Node.allAtRules sheet, r.isFontFace = true → hasSource r = true)
    {r : AtRule} (hr : r ∈ Node.allAtRules sheet) :
    survives (usage .empty sheet).used (usage .empty sheet).known r = true := by
  cases hface : r.isFontFace with
  | false => exact survives_of_not_isFontFace hface
  | true =>
    rw [survives_iff_of_isFontFace hface, isUsed_iff]
    exact ⟨h r hr hface, hsource r hr hface⟩

/-- After a cleanup another one removes nothing, and leaves the sheet as it is,
exactly if what is left asks for all that it declares.  It does so if no face that
went held a declaration that counts. -/
theorem removeUnusedFaces_cleaned_iff (sheet : Sheet) :
    ((removeUnusedFaces .empty (cleaned sheet)).2.sheet = cleaned sheet ∧
        (removeUnusedFaces .empty (cleaned sheet)).2.report.dropped = [] ↔
      Justified (cleaned sheet)) ∧
    ((∀ x ∈ lostDeclarations sheet, ¬ Usage.Counts x.1 x.2) → Justified (cleaned sheet)) := by
  have hfirst : ∀ r ∈ Node.allAtRules (cleaned sheet), r.isFontFace = true →
      isUsed (usage .empty sheet).used (usage .empty sheet).known r = true ∧
        hasSource r = true := by
    intro r hr hface
    rw [← survives_iff_of_isFontFace hface]
    exact survives_of_mem_cleaned hr
  constructor
  · constructor
    · rintro ⟨hsheet, -⟩ r hr hface
      have hr' := survives_of_pruneFaces_eq hsheet hr
      rw [survives_iff_of_isFontFace hface, isUsed_iff] at hr'
      exact hr'.1
    · intro h
      apply pruneFaces_of_forall
      intro r hr
      exact survives_of_justified h (fun r hr hface => (hfirst r hr hface).2) hr
  · intro hlost r hr hface
    have husage : usage .empty (cleaned sheet) = usage .empty sheet := by
      rw [cleaned_eq]
      exact Usage.run_allDeclarations_allKept hlost _
    rw [husage]
    exact isUsed_iff.1 (hfirst r hr hface).1

/-- A face without a source that gives a variable, and one that is in use because of
that. -/
def variableInFace : Sheet :=
  [.atRule "font-face" none (some [.declaration ⟨"--brand", [.ident "Acme"], false⟩]),
    .atRule "font-face" none (some [.declaration ⟨"font-family", [.ident "Acme"], false⟩,
      .declaration ⟨"src", [.url "acme.woff"], false⟩]),
    .rule "p" [.declaration ⟨"font-family", [.function "var" [.ident "--brand"]], false⟩]]

/-- The second cleanup removes the face that the first has left. -/
theorem removeUnusedFaces_cleaned_variableInFace :
    (removeUnusedFaces .empty variableInFace).2.report.dropped = [⟨none, .noSource⟩] ∧
      (removeUnusedFaces .empty (cleaned variableInFace)).2.report.dropped =
        [⟨some "acme", .unused⟩] ∧
      ¬ ((removeUnusedFaces .empty (cleaned variableInFace)).2.sheet = cleaned variableInFace ∧
        (removeUnusedFaces .empty (cleaned variableInFace)).2.report.dropped = []) := by
  have hsecond : (removeUnusedFaces .empty (cleaned variableInFace)).2.report.dropped =
      [⟨some "acme", .unused⟩] := by
    decide +kernel
  refine ⟨by decide +kernel, hsecond, ?_⟩
  rintro ⟨-, hdropped⟩
  rw [hdropped] at hsecond
  cases hsecond

end Font

end CssPruning
