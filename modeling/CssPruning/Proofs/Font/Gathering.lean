import CssPruning.Font.Collector
import CssPruning.Proofs.Font.Insertion
import CssPruning.Proofs.Sheet.Flattening

/-!
# Usage as a fold

The visitor that gathers the usage of a sheet counts the style rules around it, and
comes out of every node with the count that it went in with.  So all that it does is
to go once, from first to last, through the declarations of the sheet in a row
(`visitAll_collector`), and what it has in the end is a fold over them.

A fold looks at nothing that is still to come.  What is in it at the end has been
added by one of the steps, in the state that the steps before it have left
(`foldl_gain_iff`); so a name is in use because of one declaration and of the
variables before it, and a reference stands for what was recorded before it.
-/

set_option autoImplicit false

namespace CssPruning.Font

/-! ## The visitor as a fold -/

namespace Collector

/-- With another usage in the same place. -/
def withUsage (c : Collector) (u : Usage) : Collector := { u with ruleDepth := c.ruleDepth }

/-- A style rule is around. -/
def underRule (c : Collector) : Bool := 0 < c.ruleDepth

theorem meet_eq (d : Declaration) (c : Collector) :
    meet d c = c.withUsage (c.toUsage.step d c.underRule) := by
  rw [meet, Usage.step]
  split
  · rfl
  · by_cases hdepth : c.ruleDepth = 0
    · have hunder : c.underRule = false := by simp [underRule, hdepth]
      rw [if_pos hdepth, hunder]
      rfl
    · have hunder : c.underRule = true := by simp [underRule, Nat.pos_iff_ne_zero, hdepth]
      rw [if_neg hdepth, hunder]
      rfl

/-- Out of a rule the visitor comes with the count of rules that it went in with. -/
theorem inRule_eq {inside : Collector → Collector} {ds : List (Declaration × Bool)}
    (h : ∀ c, c.underRule = true → inside c = c.withUsage (c.toUsage.run ds)) (c : Collector) :
    inRule inside c = c.withUsage (c.toUsage.run ds) := by
  rw [inRule, h _ (decide_eq_true (Nat.succ_pos c.ruleDepth))]
  rfl

end Collector

/-- The visit to a row is a run through its declarations. -/
theorem visitAll_collector (parent : Parent) (ns : List Node) (c : Collector) :
    Node.visitAll Collector.visitor parent ns c =
      c.withUsage (c.toUsage.run (Node.allDeclarations c.underRule ns)) := by
  induction ns using Node.rowInduction generalizing parent c with
  | nil => rfl
  | rule selector children ns ihc ih =>
    have hnode : Node.visit Collector.visitor parent (.rule selector children) c =
        c.withUsage (c.toUsage.run (Node.allDeclarations true children)) :=
      Collector.inRule_eq (fun c' hunder => by rw [← hunder]; exact ihc _ c') c
    rw [Node.visitAll_cons, hnode, ih, Node.allDeclarations, Usage.run_append]
    rfl
  | block name prelude children ns ihc ih =>
    have hnode : Node.visit Collector.visitor parent (.atRule name prelude (some children)) c =
        c.withUsage (c.toUsage.run (Node.allDeclarations c.underRule children)) := ihc _ c
    rw [Node.visitAll_cons, hnode, ih, Node.allDeclarations, Usage.run_append]
    rfl
  | declaration d ns ih =>
    have hnode : Node.visit Collector.visitor parent (.declaration d) c =
        c.withUsage (c.toUsage.step d c.underRule) := Collector.meet_eq d c
    rw [Node.visitAll_cons, hnode, ih]
    rfl
  | statement name prelude ns ih => exact ih parent c
  | comment text ns ih => exact ih parent c
  | raw text ns ih => exact ih parent c

theorem collect_eq_usage (vs : Variables) (sheet : Sheet) : collect vs sheet = usage vs sheet :=
  congrArg Collector.toUsage (visitAll_collector .root sheet _)

/-! ## What has been gained -/

/-- What holds after a fold and did not before has been brought about by one step, in
the state that those before it have left. -/
theorem foldl_gain_iff {σ α : Type} {step : σ → α → σ} {holds : σ → Prop}
    {gains : σ → α → Prop} (h : ∀ s a, holds (step s a) ↔ holds s ∨ gains s a) (s : σ)
    (as : List α) :
    holds (as.foldl step s) ↔ holds s ∨
      ∃ before a after, as = before ++ a :: after ∧ gains (before.foldl step s) a := by
  induction as generalizing s with
  | nil =>
    refine (or_iff_left ?_).symm
    rintro ⟨before, a, after, has, -⟩
    exact absurd has.symm (List.append_ne_nil_of_right_ne_nil before (List.cons_ne_nil a after))
  | cons b as ih =>
    rw [List.foldl_cons, ih, h, or_assoc]
    refine or_congr_right ⟨?_, ?_⟩
    · rintro (hgain | ⟨before, a, after, rfl, hgain⟩)
      · exact ⟨[], b, as, rfl, hgain⟩
      · exact ⟨b :: before, a, after, rfl, hgain⟩
    · rintro ⟨before, a, after, has, hgain⟩
      cases before with
      | nil =>
        obtain ⟨rfl, rfl⟩ := List.cons.inj has
        exact .inl hgain
      | cons b' before =>
        obtain ⟨rfl, rfl⟩ := List.cons.inj has
        exact .inr ⟨before, a, after, rfl, hgain⟩

/-- The variables recorded after some declarations, by those among them that give one. -/
def recorded (vs : Variables) (ds : List (Declaration × Bool)) : Variables :=
  (ds.filter (·.1.isCustom)).foldl (fun vs d => record vs d.1) vs

theorem recorded_append (vs : Variables) (ds es : List (Declaration × Bool)) :
    recorded vs (ds ++ es) = recorded (recorded vs ds) es := by
  rw [recorded, List.filter_append, List.foldl_append]
  rfl

namespace Usage

theorem known_step (u : Usage) (d : Declaration × Bool) :
    (u.step d.1 d.2).known = recorded u.known [d] := by
  unfold step
  cases hcustom : d.1.isCustom
  · simp [recorded, hcustom]
    split <;> rfl
  · simp [recorded, hcustom]

/-- What is recorded depends on nothing but the variables given. -/
theorem known_run (u : Usage) (ds : List (Declaration × Bool)) :
    (u.run ds).known = recorded u.known ds := by
  induction ds generalizing u with
  | nil => rfl
  | cons d ds ih =>
    have hrun : u.run (d :: ds) = (u.step d.1 d.2).run ds := rfl
    rw [hrun, ih, known_step, ← recorded_append, List.singleton_append]

/-- A declaration outside of rules that gives no variable makes no difference. -/
theorem run_filter (u : Usage) (ds : List (Declaration × Bool)) :
    u.run (ds.filter fun d => d.2 || d.1.isCustom) = u.run ds := by
  induction ds generalizing u with
  | nil => rfl
  | cons d ds ih =>
    have hrun : u.run (d :: ds) = (u.step d.1 d.2).run ds := rfl
    rw [List.filter_cons, hrun]
    split
    · exact ih _
    · rename_i hd
      rw [Bool.not_eq_true, Bool.or_eq_false_iff] at hd
      have hstep : u.step d.1 d.2 = u := by
        rw [step, hd.1, hd.2]
        rfl
      rw [ih, hstep]

/-- A name is in use after a run if it was before it, or if a declaration under a rule
asks for it with the variables that have been recorded before. -/
theorem mem_used_run_iff (u : Usage) (ds : List (Declaration × Bool)) (x : String) :
    x ∈ (u.run ds).used ↔ x ∈ u.used ∨ ∃ before d after, ds = before ++ (d, true) :: after ∧
      d.isCustom = false ∧ x ∈ (asked (recorded u.known before) d).map Text.lower := by
  have hstep : ∀ (u : Usage) (d : Declaration × Bool), x ∈ (u.step d.1 d.2).used ↔ x ∈ u.used ∨
      d.2 = true ∧ d.1.isCustom = false ∧ x ∈ (asked u.known d.1).map Text.lower := by
    intro u d
    unfold step
    cases d.1.isCustom <;> cases d.2 <;> simp
  refine (@foldl_gain_iff _ _ _ (fun u : Usage => x ∈ u.used) _ hstep u ds).trans
    (or_congr_right ⟨?_, ?_⟩)
  · rintro ⟨before, ⟨d, b⟩, after, hds, rfl, hcustom, hx⟩
    exact ⟨before, d, after, hds, hcustom, by rwa [← known_run]⟩
  · rintro ⟨before, d, after, hds, hcustom, hx⟩
    exact ⟨before, (d, true), after, hds, rfl, hcustom, by rwa [← known_run] at hx⟩

/-- What a run adds to the names in use does not depend on those that are. -/
theorem mem_used_run_iff_of_empty (u : Usage) (ds : List (Declaration × Bool)) (x : String) :
    x ∈ (u.run ds).used ↔ x ∈ u.used ∨ x ∈ (run ⟨u.known, []⟩ ds).used := by
  rw [mem_used_run_iff u, mem_used_run_iff ⟨u.known, []⟩, or_iff_right List.not_mem_nil]

end Usage

/-- A variable stands for what it stood for at the start and for the names of all values
that it has been given, with what each of them could refer to. -/
theorem mem_recorded_iff (vs : Variables) (ds : List (Declaration × Bool)) (name x : String) :
    x ∈ ((recorded vs ds).get name).getD [] ↔ x ∈ (vs.get name).getD [] ∨
      ∃ before d after, ds = before ++ d :: after ∧ d.1.isCustom = true ∧ d.1.property = name ∧
        x ≠ "" ∧ x ∈ names (recorded vs before) d.1.value := by
  have hstep : ∀ (u : Usage) (d : Declaration × Bool),
      x ∈ ((u.step d.1 d.2).known.get name).getD [] ↔ x ∈ (u.known.get name).getD [] ∨
        d.1.isCustom = true ∧ d.1.property = name ∧ x ≠ "" ∧ x ∈ names u.known d.1.value := by
    intro u d
    rw [Usage.known_step]
    cases hcustom : d.1.isCustom with
    | false => simp [recorded, hcustom]
    | true =>
      have hrecorded : recorded u.known [d] = record u.known d.1 := by simp [recorded, hcustom]
      rw [hrecorded, record, Variables.get_record]
      by_cases hname : name = d.1.property
      · rw [if_pos hname, hname, Option.getD_some, Variables.mem_extend]
        simp [and_comm]
      · rw [if_neg hname]
        simp [Ne.symm hname]
  have hgain := @foldl_gain_iff _ _ _ (fun u : Usage => x ∈ (u.known.get name).getD []) _ hstep
    ⟨vs, []⟩ ds
  have hknown (es : List (Declaration × Bool)) :
      (es.foldl (fun u d => u.step d.1 d.2) (⟨vs, []⟩ : Usage)).known = recorded vs es :=
    Usage.known_run ⟨vs, []⟩ es
  simpa only [hknown] using hgain

/-- A reference stands for what the variable does. -/
theorem componentNames_reference (vs : Variables) {word : String} (h : isReference word = true)
    (function : String) :
    componentNames vs (.function function [.ident word]) = (vs.get word).getD [] := by
  simp [componentNames, namesFrom, joinWords, h]

/-! ## Usage of sheets -/

/-- A usage is gathered from declarations in a row. -/
structure Usage.Gathers (u : Usage) (vs : Variables) (ds : List (Declaration × Bool)) : Prop where
  /-- it is a fold over them -/
  eq_run : u = Usage.run ⟨vs, []⟩ ds
  /-- those that are not under a rule and give no variable make no difference -/
  eq_run_filter : u = Usage.run ⟨vs, []⟩ (ds.filter fun d => d.2 || d.1.isCustom)
  /-- the variables are those known beforehand and those given -/
  known : u.known = recorded vs ds
  /-- the names in use are asked for by declarations under a rule, each with the
  variables recorded before it -/
  mem_used_iff : ∀ x, x ∈ u.used ↔ ∃ before d after, ds = before ++ (d, true) :: after ∧
    d.isCustom = false ∧ x ∈ (Usage.asked (recorded vs before) d).map Text.lower

theorem Usage.gathers_run (vs : Variables) (ds : List (Declaration × Bool)) :
    (Usage.run ⟨vs, []⟩ ds).Gathers vs ds where
  eq_run := rfl
  eq_run_filter := (Usage.run_filter ⟨vs, []⟩ ds).symm
  known := Usage.known_run ⟨vs, []⟩ ds
  mem_used_iff x := (Usage.mem_used_run_iff ⟨vs, []⟩ ds x).trans (or_iff_right List.not_mem_nil)

/-- The usage of a sheet is gathered from its declarations in the order of the text, by
the visitor that counts rules as by the run through the row.  So what is in front of a
sheet counts for it by the variables that it gives and by nothing else, and a reference
stands for what has been given before it. -/
theorem usage_gathers (vs : Variables) :
    (∀ sheet : Sheet, collect vs sheet = usage vs sheet ∧ (∃ ds, sheet.Flattened ds) ∧
      ∀ ds, sheet.Flattened ds → (usage vs sheet).Gathers vs (ds.map (·.pair))) ∧
    (∀ front back : Sheet,
      (usage vs (front ++ back)).known = (usage (usage vs front).known back).known ∧
      ∀ x, x ∈ (usage vs (front ++ back)).used ↔
        x ∈ (usage vs front).used ∨ x ∈ (usage (usage vs front).known back).used) ∧
    ∀ (before : List (Declaration × Bool)) (function word x : String), isReference word = true →
      (x ∈ componentNames (recorded vs before) (.function function [.ident word]) ↔
        x ∈ (vs.get word).getD [] ∨
          ∃ earlier d later, before = earlier ++ d :: later ∧ d.1.isCustom = true ∧
            d.1.property = word ∧ x ≠ "" ∧ x ∈ names (recorded vs earlier) d.1.value) := by
  refine ⟨fun sheet => ?_, fun front back => ?_, fun before function word x hword => ?_⟩
  · obtain ⟨ds, hds, hpairs⟩ := sheet.exists_flattened
    refine ⟨collect_eq_usage vs sheet, ⟨ds, hds⟩, fun ds' hds' => ?_⟩
    rw [hds'.eq hds, hpairs]
    exact Usage.gathers_run vs sheet.declarations
  · have hrun : usage vs (front ++ back) = (usage vs front).run back.declarations := by
      rw [usage, Sheet.declarations, Node.allDeclarations_append, Usage.run_append]
      rfl
    rw [hrun]
    refine ⟨?_, Usage.mem_used_run_iff_of_empty _ _⟩
    exact (Usage.known_run _ _).trans (Usage.known_run ⟨(usage vs front).known, []⟩ _).symm
  · rw [componentNames_reference _ hword, mem_recorded_iff]

end CssPruning.Font
