import CssPruning.Proofs.Sheet.Positions
import CssPruning.Proofs.Sheet.Tour
import CssPruning.Proofs.Sheet.Verdicts

/-!
# What a judge with a state is asked

A pass goes through a sheet as a walker that passes over the at-rules that its judge
rejects.  So a judge, whatever it remembers, is asked once about each at-rule that
no rejected one is around, in the order of the text and as it stands in the sheet
(`Sheet.Judged`); each answer is the one that it gives in the state that the one
before has left (`Answers`); and the sheet loses the rejected at-rules with all that
is in them and nothing else.
-/

set_option autoImplicit false

namespace CssPruning

/-! ## Judgements -/

/-- A question to a judge and the answer, with the position of the at-rule. -/
structure Judgement extends Verdict where
  position : List Nat

/-- The positions of the rejected at-rules. -/
def Judgement.rejected (js : List Judgement) : List (List Nat) :=
  (js.filter fun j => !j.kept).map (·.position)

/-- A judge gives these answers one after the other, from a state on, and is left in
another one. -/
def Answers {σ : Type} (judge : AtRule → σ → Bool × σ) : σ → List Verdict → σ → Prop
  | s, [], t => t = s
  | s, v :: vs, t => (judge v.rule s).1 = v.kept ∧ Answers judge (judge v.rule s).2 vs t

theorem Answers.append {σ : Type} {judge : AtRule → σ → Bool × σ} {s t u : σ}
    {vs ws : List Verdict} (h : Answers judge s vs t) (h' : Answers judge t ws u) :
    Answers judge s (vs ++ ws) u := by
  induction vs generalizing s with
  | nil =>
    obtain rfl : t = s := h
    exact h'
  | cons v vs ih => exact ⟨h.1, ih h.2⟩

/-- The judgements of a pass over a sheet, and what it leaves. -/
structure Sheet.Judged (before : Sheet) (js : List Judgement) (after : Sheet) : Prop where
  /-- the judge is asked in the order of the text, once about each at-rule -/
  inOrder : (js.map (·.position)).Pairwise (· < ·)
  /-- it is asked about each at-rule as it stands in the sheet, unless a rejected one
  is around, and about nothing else -/
  mem_iff : ∀ position r, (∃ kept, ⟨⟨r, kept⟩, position⟩ ∈ js) ↔
    before.at? position = some r.toNode ∧
      ∀ outer ∈ Judgement.rejected js, ¬ IsAround outer position
  /-- the rejected at-rules go with all that is in them, and nothing else does -/
  left : after = before.withoutAt (Judgement.rejected js)

/-! ## Judgements on a tour -/

namespace Step

/-- The verdict by which an at-rule is entered to go on there, or passed over. -/
def verdict? (hook : Hook) : Option Verdict :=
  hook.entered.map fun r => ⟨r, !hook.passesOver⟩

/-- The verdicts on the way of some steps. -/
def verdicts (steps : List Step) : List Verdict := steps.filterMap fun step => verdict? step.hook

/-- The judgements on the way of some steps. -/
def judgements (steps : List Step) : List Judgement :=
  steps.filterMap fun step => (verdict? step.hook).map (⟨·, step.position⟩)

theorem verdicts_map_under (index : Nat) (steps : List Step) :
    verdicts (steps.map (under index)) = verdicts steps := by
  rw [verdicts, List.filterMap_map]
  rfl

theorem verdicts_append (steps steps' : List Step) :
    verdicts (steps ++ steps') = verdicts steps ++ verdicts steps' := List.filterMap_append

theorem verdicts_between {enter leave : Hook} {within : Parent} (h : enter.Encloses leave within)
    (inner : List Step) :
    verdicts (between enter leave inner) = (verdict? enter).toList ++ verdicts inner := by
  have hleave : verdict? leave = none := by cases h <;> rfl
  rw [verdicts, between, List.filterMap_cons, List.filterMap_append, List.filterMap_cons, hleave]
  cases verdict? enter <;> simp [verdicts]

theorem map_toVerdict_judgements (steps : List Step) :
    (judgements steps).map (·.toVerdict) = verdicts steps := by
  rw [judgements, List.map_filterMap, verdicts]
  congr 1
  funext step
  cases verdict? step.hook <;> rfl

theorem map_position_judgements_sublist (steps : List Step) :
    ((judgements steps).map (·.position)).Sublist (opened steps) := by
  induction steps with
  | nil => exact .slnil
  | cons step steps ih =>
    obtain ⟨position, hook⟩ := step
    cases hook with
    | enterAtRule r passed => exact ih.cons_cons position
    | leaveRule _ _ | leaveAtRule _ => exact ih
    | _ => exact ih.cons position

theorem rejected_judgements (steps : List Step) :
    Judgement.rejected (judgements steps) = passedOver steps := by
  induction steps with
  | nil => rfl
  | cons step steps ih =>
    obtain ⟨position, hook⟩ := step
    rw [Judgement.rejected] at ih ⊢
    cases hook with
    | enterAtRule r passed =>
      cases passed
      · exact ih
      · exact congrArg (position :: ·) ih
    | _ => exact ih

end Step

/-- The step by which an at-rule is come to for the first time enters it. -/
theorem Hook.exists_eq_enterAtRule {hook : Hook} {r : AtRule} (h : hook.node = r.toNode)
    (hopens : hook.opens = true) : ∃ passed, hook = .enterAtRule r passed := by
  cases hook with
  | enterAtRule r' passed =>
    obtain ⟨name, prelude, block⟩ := r
    obtain ⟨name', prelude', block'⟩ := r'
    obtain ⟨rfl, rfl, rfl⟩ := Node.atRule.inj h
    exact ⟨passed, rfl⟩
  | leaveAtRule r' => cases hopens
  | _ => cases h

/-- The judgements on a tour are about the at-rules that it comes to. -/
theorem Sheet.Tour.judged {sheet after : Sheet} {steps : List Step} (h : sheet.Tour steps)
    (hafter : after = sheet.withoutAt (Step.passedOver steps)) :
    sheet.Judged (Step.judgements steps) after := by
  have hmem : ∀ position r kept, ⟨⟨r, kept⟩, position⟩ ∈ Step.judgements steps ↔
      ⟨position, .enterAtRule r (!kept)⟩ ∈ steps := by
    intro position r kept
    rw [Step.judgements, List.mem_filterMap]
    constructor
    · rintro ⟨⟨position', hook⟩, hstep, heq⟩
      cases hook with
      | enterAtRule r' passed =>
        obtain ⟨⟨rfl, rfl⟩, rfl⟩ : (r' = r ∧ (!passed) = kept) ∧ position' = position := by
          simpa [Step.verdict?, Hook.entered, Hook.passesOver] using heq
        rwa [Bool.not_not]
      | _ => cases heq
    · intro hstep
      refine ⟨_, hstep, ?_⟩
      simp [Step.verdict?, Hook.entered, Hook.passesOver]
  constructor
  case inOrder => exact h.inOrder.sublist (Step.map_position_judgements_sublist steps)
  case mem_iff =>
    intro position r
    rw [Step.rejected_judgements]
    constructor
    · rintro ⟨kept, hj⟩
      have hstep := (hmem position r kept).1 hj
      have hopened : position ∈ Step.opened steps :=
        List.mem_map_of_mem (List.mem_filter.2 ⟨hstep, rfl⟩)
      exact ⟨h.stands _ hstep, ((h.mem_opened_iff position).1 hopened).2⟩
    · rintro ⟨hr, hout⟩
      have hraw : ∀ text, r.toNode ≠ .raw text := by
        intro text heq
        cases heq
      have hopened : position ∈ Step.opened steps :=
        (h.mem_opened_iff position).2 ⟨⟨_, hr, hraw⟩, hout⟩
      obtain ⟨⟨position, hook⟩, hstep, rfl⟩ := List.mem_map.1 hopened
      obtain ⟨hstep, hopens⟩ := List.mem_filter.1 hstep
      have hnode : hook.node = r.toNode := Option.some.inj ((h.stands _ hstep).symm.trans hr)
      obtain ⟨passed, rfl⟩ := Hook.exists_eq_enterAtRule hnode hopens
      refine ⟨!passed, (hmem position r _).2 ?_⟩
      rwa [Bool.not_not]
  case left =>
    rw [Step.rejected_judgements]
    exact hafter

/-! ## Passes -/

namespace Node

section

variable {σ : Type} {judge : AtRule → σ → Bool × σ}

/-- The steps of a pass through a node, from a state of the judge on. -/
structure OwnPass (judge : AtRule → σ → Bool × σ) (parent : Parent) (n : Node) (s : σ)
    (own : List Step) : Prop where
  tour : OwnTour parent n own
  answers : Answers judge s (Step.verdicts own) (retainWith judge n s).2
  left : ∀ gone, (∀ position, gone position = true ↔ position ∈ Step.passedOver own) →
    remains gone n = (retainWith judge n s).1

/-- The steps of a pass through some nodes behind others in a row. -/
structure RowPass (judge : AtRule → σ → Bool × σ) (parent : Parent) (before ns : List Node)
    (s : σ) (steps : List Step) : Prop where
  tour : RowTour parent before ns steps
  answers : Answers judge s (Step.verdicts steps) (retainAllWith judge ns s).2
  left : ∀ gone, Marks gone before.length (Step.passedOver steps) →
    without gone before.length ns = (retainAllWith judge ns s).1

theorem RowPass.nil (parent : Parent) (before : List Node) (s : σ) :
    RowPass judge parent before [] s [] :=
  ⟨.nil parent before, rfl, fun _ _ => rfl⟩

theorem RowPass.cons {parent : Parent} {before ns : List Node} {n : Node} {s : σ}
    {own steps : List Step} (hown : OwnPass judge parent n s own)
    (hrest : RowPass judge parent (before ++ [n]) ns (retainWith judge n s).2 steps) :
    RowPass judge parent before (n :: ns) s (own.map (Step.under before.length) ++ steps) := by
  have hlength : (before ++ [n]).length = before.length + 1 := List.length_append
  constructor
  case tour => exact .cons hown.tour hrest.tour
  case answers =>
    rw [Step.verdicts_append, Step.verdicts_map_under]
    exact hown.answers.append hrest.answers
  case left =>
    intro gone hmarks
    rw [Step.passedOver, Step.positions_append, Step.positions_map_under] at hmarks
    have hrow : InRow (before.length + 1) (Step.passedOver steps) :=
      hlength ▸ hrest.tour.inRow.sublist (Step.passedOver_sublist_opened steps)
    have hwithout := hrest.left gone (hlength ▸ hmarks.rest)
    rw [hlength] at hwithout
    rw [without_cons, hown.left _ (hmarks.first hrow), hwithout]
    rfl

/-- A row is judged by itself, and with it the rule or at-rule that it is inside of. -/
theorem RowPass.marks {within : Parent} {ns : List Node} {s : σ} {inner : List Step}
    (h : RowPass judge within [] ns s inner) {gone : List Nat → Bool}
    (hgone : ∀ position, gone position = true ↔ position ∈ Step.passedOver inner) :
    gone [] = false ∧ without gone 0 ns = (retainAllWith judge ns s).1 := by
  have hrow : InRow 0 (Step.passedOver inner) :=
    h.tour.inRow.sublist (Step.passedOver_sublist_opened inner)
  obtain ⟨hstays, hmarks⟩ := hrow.marks hgone
  exact ⟨hstays, h.left gone hmarks⟩

/-- About a rule nothing is asked; it stays with what is left inside. -/
theorem RowPass.rule {parent : Parent} {selector : String} {children : List Node} {s : σ}
    {inner : List Step} (h : RowPass judge (.rule selector children) [] children s inner) :
    OwnPass judge parent (.rule selector children) s
      (Step.between (.enterRule selector children) (.leaveRule selector children) inner) := by
  have hencloses := Hook.Encloses.rule selector children
  constructor
  case tour => exact .container hencloses rfl h.tour
  case answers =>
    rw [Step.verdicts_between hencloses]
    exact h.answers
  case left =>
    intro gone hgone
    rw [Step.passedOver_between_of_neg hencloses rfl] at hgone
    obtain ⟨hstays, hinside⟩ := h.marks hgone
    rw [remains, hstays, inside, hinside]
    rfl

/-- An accepted at-rule stays with what is left inside of its block. -/
theorem RowPass.block {parent : Parent} {name : String} {prelude : Option String}
    {children : List Node} {s : σ} {inner : List Step}
    (hkeep : (judge ⟨name, prelude, some children⟩ s).1 = true)
    (h : RowPass judge (.atRule ⟨name, prelude, some children⟩) [] children
      (judge ⟨name, prelude, some children⟩ s).2 inner) :
    OwnPass judge parent (atRule name prelude (some children)) s
      (Step.between (.enterAtRule ⟨name, prelude, some children⟩ false)
        (.leaveAtRule ⟨name, prelude, some children⟩) inner) := by
  have hencloses := Hook.Encloses.atRule ⟨name, prelude, some children⟩ false
  have hretain : retainWith judge (atRule name prelude (some children)) s =
      (some (atRule name prelude (some (retainAllWith judge children
        (judge ⟨name, prelude, some children⟩ s).2).1)),
        (retainAllWith judge children (judge ⟨name, prelude, some children⟩ s).2).2) := by
    simp only [retainWith, hkeep, if_true]
  constructor
  case tour => exact .container hencloses rfl h.tour
  case answers =>
    rw [Step.verdicts_between hencloses, hretain]
    exact ⟨hkeep, h.answers⟩
  case left =>
    intro gone hgone
    rw [Step.passedOver_between_of_neg hencloses rfl] at hgone
    obtain ⟨hstays, hinside⟩ := h.marks hgone
    rw [remains, hstays, inside, hinside, hretain]
    rfl

/-- An accepted at-rule without a block stays. -/
theorem OwnPass.statement {parent : Parent} {name : String} {prelude : Option String} {s : σ}
    (hkeep : (judge ⟨name, prelude, none⟩ s).1 = true) :
    OwnPass judge parent (atRule name prelude none) s
      (Step.between (.enterAtRule ⟨name, prelude, none⟩ false)
        (.leaveAtRule ⟨name, prelude, none⟩) []) := by
  have hencloses := Hook.Encloses.atRule ⟨name, prelude, none⟩ false
  have hretain : retainWith judge (atRule name prelude none) s =
      (some (atRule name prelude none), (judge ⟨name, prelude, none⟩ s).2) := by
    simp only [retainWith, hkeep, if_true]
  constructor
  case tour => exact .container hencloses rfl (.nil _ [])
  case answers =>
    rw [Step.verdicts_between hencloses, hretain]
    exact ⟨hkeep, rfl⟩
  case left =>
    intro gone hgone
    rw [Step.passedOver_between_of_neg hencloses rfl] at hgone
    have hstays : ¬ gone [] = true := by rw [hgone]; exact List.not_mem_nil
    rw [remains, if_neg hstays, hretain]
    rfl

/-- A rejected at-rule goes, and nothing is asked about what is inside of it. -/
theorem OwnPass.rejected {parent : Parent} {r : AtRule} {s : σ}
    (hkeep : (judge r s).1 = false) :
    OwnPass judge parent r.toNode s
      (Step.between (.enterAtRule r true) (.leaveAtRule r) []) := by
  have hencloses := Hook.Encloses.atRule r true
  have hretain : retainWith judge r.toNode s = (none, (judge r s).2) := by
    obtain ⟨name, prelude, block⟩ := r
    cases block <;> simp [AtRule.toNode, retainWith, hkeep]
  constructor
  case tour => exact .passedOver hencloses rfl
  case answers =>
    rw [Step.verdicts_between hencloses, hretain]
    exact ⟨hkeep, rfl⟩
  case left =>
    intro gone hgone
    rw [Step.passedOver_between_of_pos hencloses rfl] at hgone
    have hgoes : gone [] = true := by rw [hgone]; exact List.mem_singleton_self []
    rw [remains, if_pos hgoes, hretain]

/-- About a declaration or comment nothing is asked, and it stays. -/
theorem OwnPass.report {parent : Parent} {hook : Hook} (h : hook.IsUnder parent) (s : σ) :
    OwnPass judge parent hook.node s [⟨[], hook⟩] := by
  constructor
  case tour => exact .report h
  case answers => cases h <;> rfl
  case left =>
    intro gone hgone
    have hstays : ¬ gone [] = true := by
      rw [hgone]
      cases h <;> exact List.not_mem_nil
    rw [remains, if_neg hstays]
    cases h <;> rfl

theorem OwnPass.raw (parent : Parent) (text : String) (s : σ) :
    OwnPass judge parent (.raw text) s [] := by
  constructor
  case tour => exact .raw parent text
  case answers => rfl
  case left =>
    intro gone hgone
    have hstays : ¬ gone [] = true := by rw [hgone]; exact List.not_mem_nil
    rw [remains, if_neg hstays]
    rfl

/-- Every pass through a row has its steps. -/
theorem exists_rowPass (judge : AtRule → σ → Bool × σ) (parent : Parent) (before ns : List Node)
    (s : σ) : ∃ steps, RowPass judge parent before ns s steps := by
  induction ns using rowInduction generalizing parent before s with
  | nil => exact ⟨[], .nil parent before s⟩
  | rule selector children ns ihc ih =>
    obtain ⟨inner, hinner⟩ := ihc (.rule selector children) [] s
    obtain ⟨steps, hsteps⟩ := ih parent (before ++ [rule selector children]) _
    exact ⟨_, .cons hinner.rule hsteps⟩
  | statement name prelude ns ih =>
    obtain ⟨steps, hsteps⟩ := ih parent (before ++ [atRule name prelude none]) _
    cases hkeep : (judge ⟨name, prelude, none⟩ s).1 with
    | true => exact ⟨_, .cons (.statement hkeep) hsteps⟩
    | false => exact ⟨_, .cons (.rejected hkeep) hsteps⟩
  | block name prelude children ns ihc ih =>
    obtain ⟨inner, hinner⟩ := ihc (.atRule ⟨name, prelude, some children⟩) [] _
    obtain ⟨steps, hsteps⟩ := ih parent (before ++ [atRule name prelude (some children)]) _
    cases hkeep : (judge ⟨name, prelude, some children⟩ s).1 with
    | true => exact ⟨_, .cons (hinner.block hkeep) hsteps⟩
    | false => exact ⟨_, .cons (.rejected hkeep) hsteps⟩
  | declaration d ns ih =>
    obtain ⟨steps, hsteps⟩ := ih parent (before ++ [declaration d]) _
    exact ⟨_, .cons (.report (.declaration d) s) hsteps⟩
  | comment text ns ih =>
    obtain ⟨steps, hsteps⟩ := ih parent (before ++ [comment text]) _
    exact ⟨_, .cons (.report (.comment text) s) hsteps⟩
  | raw text ns ih =>
    obtain ⟨steps, hsteps⟩ := ih parent (before ++ [raw text]) _
    exact ⟨_, .cons (.raw parent text s) hsteps⟩

/-- The judgements of a pass through a whole sheet. -/
theorem RowPass.judged {sheet : Sheet} {s : σ} {steps : List Step}
    (h : RowPass judge .root [] sheet s steps) :
    sheet.Judged (Step.judgements steps) (sheet.retainWith judge s).1 := by
  apply h.tour.tour.judged
  have hwithout := h.left (Step.passedOver steps).contains fun i position _ =>
    List.contains_iff_mem
  exact hwithout.symm

end

end Node

/-- Verdicts that are written down, the last one in front, are written down once each. -/
theorem Answers.eq_reverse_append {keep : AtRule → Bool} {log log' vs : List Verdict}
    (h : Answers (fun r log => (keep r, ⟨r, keep r⟩ :: log)) log vs log') :
    log' = vs.reverse ++ log := by
  induction vs generalizing log with
  | nil => exact h
  | cons v vs ih =>
    obtain ⟨hkept, h⟩ := h
    have hv : (⟨v.rule, keep v.rule⟩ : Verdict) = v := congrArg (Verdict.mk v.rule) hkept
    rw [ih h, List.reverse_cons, List.append_assoc]
    exact congrArg (fun v => vs.reverse ++ v :: log) hv

/-- A pass with a test has its verdicts in the order of the text. -/
theorem Sheet.exists_judged_allKept (keep : AtRule → Bool) (sheet : Sheet) :
    ∃ js : List Judgement, sheet.Judged js (Node.allKept keep sheet) ∧
      js.map (·.toVerdict) = Node.allVerdicts keep sheet := by
  have hprune := Node.sheet_prune_eq keep sheet
  obtain ⟨steps, hsteps⟩ :=
    Node.exists_rowPass (fun r log => (keep r, (⟨r, keep r⟩ : Verdict) :: log)) .root [] sheet []
  refine ⟨Step.judgements steps, ?_, ?_⟩
  · have hleft : Node.allKept keep sheet = (sheet.prune keep).sheet :=
      (congrArg Pruned.sheet hprune).symm
    rw [hleft]
    exact hsteps.judged
  · have hlog := hsteps.answers.eq_reverse_append
    rw [List.append_nil] at hlog
    have hverdicts : Node.allVerdicts keep sheet = (sheet.prune keep).verdicts :=
      (congrArg Pruned.verdicts hprune).symm
    rw [Step.map_toVerdict_judgements, ← List.reverse_reverse (Step.verdicts steps), ← hlog,
      hverdicts]
    rfl

/-- A list with an entry for each rejected at-rule is as long as that of their
positions. -/
theorem Judgement.length_eq_of_map_eq {α β : Type} {js : List Judgement} {entries : List α}
    {f : α → β} {g : Judgement → β} (h : entries.map f = (js.filter fun j => !j.kept).map g) :
    entries.length = (rejected js).length := by
  have hlength := congrArg List.length h
  rw [List.length_map, List.length_map] at hlength
  rw [hlength, rejected, List.length_map]

/-- A pass with any judge, whatever it remembers from one question to the next. -/
theorem Sheet.retainWith_judged {σ : Type} (judge : AtRule → σ → Bool × σ) (sheet : Sheet)
    (s : σ) :
    ∃ js : List Judgement, sheet.Judged js (sheet.retainWith judge s).1 ∧
      Answers judge s (js.map (·.toVerdict)) (sheet.retainWith judge s).2 := by
  obtain ⟨steps, hsteps⟩ := Node.exists_rowPass judge .root [] sheet s
  refine ⟨Step.judgements steps, hsteps.judged, ?_⟩
  rw [Step.map_toVerdict_judgements]
  exact hsteps.answers

end CssPruning
