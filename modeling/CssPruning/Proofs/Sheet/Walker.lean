import CssPruning.Proofs.Sheet.Judging
import Mathlib.Data.List.Sort

/-!
# A walker's calls are a tour

A walker is a visitor with one rule for going on: it does so inside of every rule,
and inside of the at-rules that it does not choose to pass over.  Whatever its hooks
do, they are called along a tour of the sheet (`Sheet.visit_tours`), each in the state
that the one before has left (`Walker.Performs`).  The walk that lists its steps is
one of these (`Sheet.walk_eq_visit`).

What is passed over is all that tours of a sheet can differ in.  So a walker that
passes over nothing enters the at-rules that a judge is asked about who accepts them
all.
-/

set_option autoImplicit false

namespace CssPruning

/-- A visitor that goes on inside of rules and of some at-rules: what it does at each
call, and which at-rules it passes over. -/
structure Walker (σ : Type) where
  act : Hook → σ → σ
  passesOver : AtRule → σ → Bool

namespace Walker

variable {σ : Type}

/-- The walker as a visitor. -/
def visitor (w : Walker σ) : Visitor σ where
  rule selector children inside s :=
    w.act (.leaveRule selector children) (inside (w.act (.enterRule selector children) s))
  atRule r inside s :=
    let passed := w.passesOver r s
    let s := w.act (.enterAtRule r passed) s
    w.act (.leaveAtRule r) (if passed then s else inside s)
  declaration d parent := w.act (.declaration d parent)
  comment text parent := w.act (.comment text parent)

/-- The walker makes these calls one after the other, from a state on, and is left in
another one. -/
def Performs (w : Walker σ) : σ → List Hook → σ → Prop
  | s, [], t => t = s
  | s, hook :: hooks, t =>
    (∀ r passed, hook = .enterAtRule r passed → passed = w.passesOver r s) ∧
      w.Performs (w.act hook s) hooks t

theorem Performs.append {w : Walker σ} {s t u : σ} {hooks hooks' : List Hook}
    (h : w.Performs s hooks t) (h' : w.Performs t hooks' u) :
    w.Performs s (hooks ++ hooks') u := by
  induction hooks generalizing s with
  | nil =>
    obtain rfl : t = s := h
    exact h'
  | cons hook hooks ih => exact ⟨h.1, ih h.2⟩

end Walker

/-! ## The calls through a row -/

section

variable {σ : Type} {w : Walker σ}

/-- A node is entered, gone through and left. -/
theorem Walker.performs_between {enter leave : Hook} {within : Parent} {s t : σ}
    {inner : List Step} (h : enter.Encloses leave within)
    (hover : ∀ r passed, enter = .enterAtRule r passed → passed = w.passesOver r s)
    (hinner : w.Performs (w.act enter s) (inner.map (·.hook)) t) :
    w.Performs s ((Step.between enter leave inner).map (·.hook)) (w.act leave t) := by
  have hleave : ∀ r passed, leave ≠ .enterAtRule r passed := by cases h <;> nofun
  rw [Step.between, List.map_cons, List.map_append]
  exact ⟨hover, hinner.append ⟨fun r passed heq => absurd heq (hleave r passed), rfl⟩⟩

namespace Node

/-- The calls of a walker through a node. -/
structure OwnCalls (w : Walker σ) (parent : Parent) (n : Node) (s : σ) (own : List Step) :
    Prop where
  tour : OwnTour parent n own
  performs : w.Performs s (own.map (·.hook)) (visit w.visitor parent n s)

/-- The calls of a walker through some nodes behind others in a row. -/
structure RowCalls (w : Walker σ) (parent : Parent) (before ns : List Node) (s : σ)
    (steps : List Step) : Prop where
  tour : RowTour parent before ns steps
  performs : w.Performs s (steps.map (·.hook)) (visitAll w.visitor parent ns s)

theorem RowCalls.nil (parent : Parent) (before : List Node) (s : σ) :
    RowCalls w parent before [] s [] :=
  ⟨.nil parent before, rfl⟩

theorem RowCalls.cons {parent : Parent} {before ns : List Node} {n : Node} {s : σ}
    {own steps : List Step} (hown : OwnCalls w parent n s own)
    (hrest : RowCalls w parent (before ++ [n]) ns (visit w.visitor parent n s) steps) :
    RowCalls w parent before (n :: ns) s (own.map (Step.under before.length) ++ steps) := by
  constructor
  case tour => exact .cons hown.tour hrest.tour
  case performs =>
    rw [List.map_append, Step.map_hook_map_under]
    exact hown.performs.append hrest.performs

theorem OwnCalls.rule {parent : Parent} {selector : String} {children : List Node} {s : σ}
    {inner : List Step}
    (h : RowCalls w (.rule selector children) [] children
      (w.act (.enterRule selector children) s) inner) :
    OwnCalls w parent (.rule selector children) s
      (Step.between (.enterRule selector children) (.leaveRule selector children) inner) := by
  have hencloses := Hook.Encloses.rule selector children
  constructor
  case tour => exact .container hencloses rfl h.tour
  case performs => exact Walker.performs_between hencloses nofun h.performs

/-- An at-rule is passed over, or the calls go on inside of its block, if it has one. -/
theorem OwnCalls.atRule {parent : Parent} {r : AtRule} {s : σ} {inner : List Step}
    (h : RowCalls w (.atRule r) [] r.toNode.children
      (w.act (.enterAtRule r false) s) inner) :
    OwnCalls w parent r.toNode s
      (Step.between (.enterAtRule r (w.passesOver r s)) (.leaveAtRule r)
        (if w.passesOver r s then [] else inner)) := by
  have hencloses := Hook.Encloses.atRule r (w.passesOver r s)
  have hvisit : visit w.visitor parent r.toNode s = w.act (.leaveAtRule r)
      (if w.passesOver r s then w.act (.enterAtRule r (w.passesOver r s)) s
        else visitAll w.visitor (.atRule r) r.toNode.children
          (w.act (.enterAtRule r (w.passesOver r s)) s)) := by
    obtain ⟨name, prelude, block⟩ := r
    cases block <;> rfl
  have hover : ∀ r' passed, Hook.enterAtRule r (w.passesOver r s) = .enterAtRule r' passed →
      passed = w.passesOver r' s := by
    intro r' passed heq
    obtain ⟨rfl, rfl⟩ := Hook.enterAtRule.inj heq
    rfl
  cases hpass : w.passesOver r s with
  | true =>
    rw [hpass] at hencloses hvisit hover
    constructor
    case tour => exact .passedOver hencloses rfl
    case performs =>
      rw [hvisit]
      exact Walker.performs_between hencloses hover rfl
  | false =>
    rw [hpass] at hencloses hvisit hover
    constructor
    case tour => exact .container hencloses rfl h.tour
    case performs =>
      rw [hvisit]
      exact Walker.performs_between hencloses hover h.performs

theorem OwnCalls.report {parent : Parent} {hook : Hook} (h : hook.IsUnder parent) (s : σ) :
    OwnCalls w parent hook.node s [⟨[], hook⟩] := by
  constructor
  case tour => exact .report h
  case performs => cases h <;> exact ⟨nofun, rfl⟩

theorem OwnCalls.raw (parent : Parent) (text : String) (s : σ) :
    OwnCalls w parent (.raw text) s [] :=
  ⟨.raw parent text, rfl⟩

/-- Every walker's calls through a row are those of a tour. -/
theorem exists_rowCalls (w : Walker σ) (parent : Parent) (before ns : List Node) (s : σ) :
    ∃ steps, RowCalls w parent before ns s steps := by
  induction ns using rowInduction generalizing parent before s with
  | nil => exact ⟨[], .nil parent before s⟩
  | rule selector children ns ihc ih =>
    obtain ⟨inner, hinner⟩ := ihc (.rule selector children) [] _
    obtain ⟨steps, hsteps⟩ := ih parent (before ++ [rule selector children]) _
    exact ⟨_, .cons (.rule hinner) hsteps⟩
  | statement name prelude ns ih =>
    obtain ⟨steps, hsteps⟩ := ih parent (before ++ [atRule name prelude none]) _
    exact ⟨_, .cons (.atRule (.nil (.atRule ⟨name, prelude, none⟩) [] _)) hsteps⟩
  | block name prelude children ns ihc ih =>
    obtain ⟨inner, hinner⟩ := ihc (.atRule ⟨name, prelude, some children⟩) [] _
    obtain ⟨steps, hsteps⟩ := ih parent (before ++ [atRule name prelude (some children)]) _
    exact ⟨_, .cons (.atRule hinner) hsteps⟩
  | declaration d ns ih =>
    obtain ⟨steps, hsteps⟩ := ih parent (before ++ [declaration d]) _
    exact ⟨_, .cons (.report (.declaration d) s) hsteps⟩
  | comment text ns ih =>
    obtain ⟨steps, hsteps⟩ := ih parent (before ++ [comment text]) _
    exact ⟨_, .cons (.report (.comment text) s) hsteps⟩
  | raw text ns ih =>
    obtain ⟨steps, hsteps⟩ := ih parent (before ++ [raw text]) _
    exact ⟨_, .cons (.raw parent text s) hsteps⟩

end Node

end

/-! ## The at-rules that are entered -/

/-- The at-rule that the node is. -/
def Node.atRule? : Node → Option AtRule
  | .atRule name prelude block => some ⟨name, prelude, block⟩
  | _ => none

/-- An at-rule is entered when its position is come to. -/
theorem Step.filterMap_entered {sheet : Sheet} {steps : List Step}
    (h : ∀ step ∈ steps, sheet.at? step.position = some step.hook.node) :
    steps.filterMap (·.hook.entered) =
      (opened steps).filterMap fun position => (sheet.at? position).bind Node.atRule? := by
  induction steps with
  | nil => rfl
  | cons step steps ih =>
    rw [List.forall_mem_cons] at h
    obtain ⟨position, hook⟩ := step
    cases hopens : hook.opens with
    | true =>
      have hentered : hook.entered = hook.node.atRule? := by cases hook <;> first | rfl | cases hopens
      rw [opened, positions_cons_of_pos hopens, List.filterMap_cons, List.filterMap_cons, h.1,
        Option.bind_some, hentered, ih h.2]
      rfl
    | false =>
      have hentered : hook.entered = none := by cases hook <;> first | rfl | cases hopens
      rw [opened, positions_cons_of_neg hopens, List.filterMap_cons, hentered]
      exact ih h.2

/-- Tours that pass over the same at-rules enter the same ones. -/
theorem Sheet.Tour.filterMap_entered_eq {sheet : Sheet} {steps steps' : List Step}
    (h : sheet.Tour steps) (h' : sheet.Tour steps')
    (hover : Step.passedOver steps = Step.passedOver steps') :
    steps.filterMap (·.hook.entered) = steps'.filterMap (·.hook.entered) := by
  have hopened : Step.opened steps = Step.opened steps' := by
    refine h.inOrder.eq_of_mem_iff h'.inOrder fun position => ?_
    rw [h.mem_opened_iff, h'.mem_opened_iff, hover]
  rw [Step.filterMap_entered h.stands, Step.filterMap_entered h'.stands, hopened]

/-- A judge who accepts every at-rule ends up with what all of them together have
made of its state. -/
theorem Answers.eq_foldl {σ : Type} {note : AtRule → σ → σ} {s t : σ} {steps : List Step}
    (h : Answers (fun r s => (true, note r s)) s (Step.verdicts steps) t) :
    Step.passedOver steps = [] ∧
      t = (steps.filterMap (·.hook.entered)).foldl (fun s r => note r s) s := by
  induction steps generalizing s with
  | nil => exact ⟨rfl, h⟩
  | cons step steps ih =>
    obtain ⟨position, hook⟩ := step
    cases hook with
    | enterAtRule r passed =>
      obtain ⟨hkept, h⟩ := h
      obtain rfl : passed = false := by simpa [Hook.passesOver] using hkept.symm
      exact ih h
    | _ => exact ih h

/-! ## The walk that lists its steps -/

/-- The container that a parent is. -/
def Parent.container : Parent → Container
  | .root => .root
  | .rule selector _ => .rule selector
  | .atRule r => .atRule r.name

/-- The call as it is listed. -/
def Hook.visit : Hook → Visit
  | enterRule selector _ => .enterRule selector
  | leaveRule _ _ => .leaveRule
  | enterAtRule r _ => .enterAtRule r.name
  | leaveAtRule _ => .leaveAtRule
  | declaration d parent => .declaration d parent.container
  | comment text parent => .comment text parent.container

/-- The walker that lists its calls. -/
def Walker.recorder (skip : AtRule → Bool) : Walker (List Visit) where
  act hook visits := visits ++ [hook.visit]
  passesOver r _ := skip r

theorem Node.visitAll_recorder (skip : AtRule → Bool) (parent : Parent) (ns : List Node)
    (visits : List Visit) :
    visitAll (Walker.recorder skip).visitor parent ns visits =
      visits ++ walkAll skip parent.container ns := by
  induction ns using rowInduction generalizing parent visits with
  | nil => exact (List.append_nil visits).symm
  | rule selector children ns ihc ih =>
    have hnode : visit (Walker.recorder skip).visitor parent (.rule selector children) visits =
        visitAll (Walker.recorder skip).visitor (.rule selector children) children
          (visits ++ [.enterRule selector]) ++ [.leaveRule] := rfl
    rw [visitAll_cons, hnode, ihc, ih, walkAll, walk]
    simp [Parent.container]
  | statement name prelude ns ih =>
    have hnode : visit (Walker.recorder skip).visitor parent (.atRule name prelude none) visits =
        visits ++ [.enterAtRule name] ++ [.leaveAtRule] := by
      cases hskip : skip ⟨name, prelude, none⟩ <;>
        simp [visit, Walker.visitor, Walker.recorder, Hook.visit, hskip]
    rw [visitAll_cons, hnode, ih, walkAll, walk]
    simp
  | block name prelude children ns ihc ih =>
    have hnode : visit (Walker.recorder skip).visitor parent
          (.atRule name prelude (some children)) visits =
        (if skip ⟨name, prelude, some children⟩ then visits ++ [.enterAtRule name]
          else visitAll (Walker.recorder skip).visitor (.atRule ⟨name, prelude, some children⟩)
            children (visits ++ [.enterAtRule name])) ++ [.leaveAtRule] := rfl
    rw [visitAll_cons, hnode, ihc, ih, walkAll, walk]
    split <;> simp [Parent.container]
  | declaration d ns ih =>
    have hnode : visit (Walker.recorder skip).visitor parent (.declaration d) visits =
        visits ++ [.declaration d parent.container] := rfl
    rw [visitAll_cons, hnode, ih, List.append_assoc]
    rfl
  | comment text ns ih =>
    have hnode : visit (Walker.recorder skip).visitor parent (.comment text) visits =
        visits ++ [.comment text parent.container] := rfl
    rw [visitAll_cons, hnode, ih, List.append_assoc]
    rfl
  | raw text ns ih => exact ih parent visits

/-- The walk is what the walker that lists its calls has in the end. -/
theorem Sheet.walk_eq_visit (skip : AtRule → Bool) (sheet : Sheet) :
    sheet.walk skip = sheet.visit (Walker.recorder skip).visitor [] :=
  (Node.visitAll_recorder skip .root sheet []).symm

/-- What the walker that lists its calls has in the end are its calls. -/
theorem Walker.Performs.recorded {skip : AtRule → Bool} {visits visits' : List Visit}
    {hooks : List Hook} (h : (Walker.recorder skip).Performs visits hooks visits') :
    visits' = visits ++ hooks.map Hook.visit ∧
      ∀ r passed, .enterAtRule r passed ∈ hooks → passed = skip r := by
  induction hooks generalizing visits with
  | nil => exact ⟨h.trans (List.append_nil visits).symm, fun _ _ => nofun⟩
  | cons hook hooks ih =>
    obtain ⟨hhook, h⟩ := h
    obtain ⟨hvisits, hover⟩ := ih h
    refine ⟨?_, fun r passed hmem => ?_⟩
    · rw [hvisits, List.map_cons, Walker.recorder, List.append_assoc]
      rfl
    · rcases List.mem_cons.1 hmem with heq | hmem
      · exact hhook r passed heq.symm
      · exact hover r passed hmem

/-! ## All walkers -/

/-- Whatever a walker does at its calls and whatever it passes over, its calls are
those of a tour of the sheet.  Without passing over anything it enters the at-rules
that a judge who accepts all of them is asked about.  The walk lists the calls of the
walker that passes over certain at-rules. -/
theorem Sheet.visit_tours (sheet : Sheet) :
    (∀ {σ : Type} (w : Walker σ) (s : σ), ∃ steps, sheet.Tour steps ∧
      w.Performs s (steps.map (·.hook)) (sheet.visit w.visitor s) ∧
      (Step.passedOver steps = [] → ∀ {τ : Type} (note : AtRule → τ → τ) (t : τ),
        (sheet.retainWith (fun r t => (true, note r t)) t).2 =
          (steps.filterMap (·.hook.entered)).foldl (fun t r => note r t) t)) ∧
    ∀ skip, ∃ steps, sheet.Tour steps ∧
      (∀ r passed, .enterAtRule r passed ∈ steps.map (·.hook) → passed = skip r) ∧
      sheet.walk skip = steps.map (·.hook.visit) := by
  constructor
  · intro σ w s
    obtain ⟨steps, hsteps⟩ := Node.exists_rowCalls w .root [] sheet s
    refine ⟨steps, hsteps.tour.tour, hsteps.performs, fun hover τ note t => ?_⟩
    obtain ⟨steps', hsteps'⟩ :=
      Node.exists_rowPass (fun r t => (true, note r t)) .root [] sheet t
    obtain ⟨hover', hfold⟩ := hsteps'.answers.eq_foldl
    rw [hsteps.tour.tour.filterMap_entered_eq hsteps'.tour.tour (hover.trans hover'.symm)]
    exact hfold
  · intro skip
    obtain ⟨steps, hsteps⟩ := Node.exists_rowCalls (Walker.recorder skip) .root [] sheet []
    obtain ⟨hvisits, hover⟩ := hsteps.performs.recorded
    refine ⟨steps, hsteps.tour.tour, hover, ?_⟩
    rw [Sheet.walk_eq_visit, Sheet.visit, hvisits, List.map_map]
    rfl

end CssPruning
