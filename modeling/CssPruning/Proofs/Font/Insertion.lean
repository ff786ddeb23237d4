import CssPruning.Proofs.Font.Table
import CssPruning.Proofs.Font.Usage
import CssPruning.Proofs.Sheet.Forest

/-!
# A node more hides no font

A node that is put into a sheet may give a variable, and every reference behind
it, and every variable that is given by such a reference, then stands for more.
It never stands for less: what is recorded and what is in use only grow along a
run (`Usage.within_run`), and grow with what there was before it
(`Usage.Within.run`).  So a sheet with one more node, of any kind and at any place,
asks for all that it asks for without (`usage_vacant_within`).
-/

set_option autoImplicit false

namespace CssPruning

/-! ## A place with nothing at it -/

namespace Place

/-- The sheet with some nodes in a row at the place. -/
def fillAll : Place → List Node → Sheet
  | root before after, ns => before ++ ns ++ after
  | inRule outer selector before after, ns => outer.fill (.rule selector (before ++ ns ++ after))
  | inAtRule outer name prelude before after, ns =>
    outer.fill (.atRule name prelude (some (before ++ ns ++ after)))

/-- The sheet with no node at the place. -/
def vacant (p : Place) : Sheet := p.fillAll []

theorem fillAll_singleton (p : Place) (n : Node) : p.fillAll [n] = p.fill n := by
  cases p with
  | root before after => rw [fillAll, fill, List.append_assoc, List.singleton_append]
  | inRule outer selector before after =>
    rw [fillAll, fill, List.append_assoc, List.singleton_append]
  | inAtRule outer name prelude before after =>
    rw [fillAll, fill, List.append_assoc, List.singleton_append]

/-- Whatever stands at a place, what is declared elsewhere is declared before it and
behind it. -/
theorem exists_allDeclarations_fillAll (p : Place) (underRule : Bool) :
    ∃ pre post inner, ∀ ns, Node.allDeclarations underRule (p.fillAll ns) =
      pre ++ Node.allDeclarations inner ns ++ post := by
  induction p with
  | root before after =>
    refine ⟨Node.allDeclarations underRule before, Node.allDeclarations underRule after,
      underRule, fun ns => ?_⟩
    rw [fillAll, Node.allDeclarations_append, Node.allDeclarations_append]
  | inRule outer selector before after ih =>
    obtain ⟨pre, post, inner, ih⟩ := ih
    refine ⟨pre ++ Node.allDeclarations true before, Node.allDeclarations true after ++ post, true,
      fun ns => ?_⟩
    rw [fillAll, ← fillAll_singleton, ih, Node.allDeclarations, Node.declarations,
      Node.allDeclarations, Node.allDeclarations_append, Node.allDeclarations_append]
    simp only [List.append_assoc, List.nil_append]
  | inAtRule outer name prelude before after ih =>
    obtain ⟨pre, post, inner, ih⟩ := ih
    refine ⟨pre ++ Node.allDeclarations inner before, Node.allDeclarations inner after ++ post,
      inner, fun ns => ?_⟩
    rw [fillAll, ← fillAll_singleton, ih, Node.allDeclarations, Node.declarations,
      Node.allDeclarations, Node.allDeclarations_append, Node.allDeclarations_append]
    simp only [List.append_assoc, List.nil_append]

end Place

namespace Font

/-! ## More variables -/

namespace Variables

/-- Every variable of the one is a variable of the other, and stands for no less. -/
def Within (vs vs' : Variables) : Prop :=
  ∀ name xs, vs.get name = some xs → ∃ ys, vs'.get name = some ys ∧ ∀ x ∈ xs, x ∈ ys

theorem Within.refl (vs : Variables) : vs.Within vs := fun _ xs h => ⟨xs, h, fun _ hx => hx⟩

theorem Within.trans {vs vs' vs'' : Variables} (h : vs.Within vs') (h' : vs'.Within vs'') :
    vs.Within vs'' := by
  intro name xs hxs
  obtain ⟨ys, hys, hle⟩ := h name xs hxs
  obtain ⟨zs, hzs, hle'⟩ := h' name ys hys
  exact ⟨zs, hzs, fun x hx => hle' x (hle x hx)⟩

/-- To give a variable takes none away. -/
theorem within_record (vs : Variables) (name : String) (values : List String) :
    vs.Within (vs.record name values) := by
  intro n xs hxs
  rw [get_record]
  by_cases hn : n = name
  · subst hn
    rw [if_pos rfl, hxs]
    exact ⟨_, rfl, fun x hx => mem_extend.2 (.inl hx)⟩
  · rw [if_neg hn]
    exact ⟨xs, hxs, fun _ hx => hx⟩

/-- What a variable stands for if it has been given, and nothing otherwise, is no
less with more variables. -/
theorem Within.getD {vs vs' : Variables} (h : vs.Within vs') {name x : String}
    (hx : x ∈ (vs.get name).getD []) : x ∈ (vs'.get name).getD [] := by
  cases hxs : vs.get name with
  | none =>
    rw [hxs] at hx
    cases hx
  | some xs =>
    obtain ⟨ys, hys, hle⟩ := h name xs hxs
    rw [hxs] at hx
    rw [hys]
    exact hle x hx

/-- A variable given some of the values where there were fewer variables stands for no
more. -/
theorem Within.record {vs vs' : Variables} (h : vs.Within vs') (name : String)
    {values values' : List String} (hvalues : ∀ x ∈ values, x ∈ values') :
    (vs.record name values).Within (vs'.record name values') := by
  intro n xs hxs
  rw [get_record] at hxs ⊢
  by_cases hn : n = name
  · rw [if_pos hn] at hxs ⊢
    obtain rfl := Option.some.inj hxs
    refine ⟨_, rfl, fun x hx => ?_⟩
    rw [mem_extend] at hx ⊢
    exact hx.imp h.getD fun hx => ⟨hvalues x hx.1, hx.2⟩
  · rw [if_neg hn] at hxs ⊢
    exact h n xs hxs

end Variables

mutual

/-- A component names no less with more variables. -/
theorem componentNames_mono {vs vs' : Variables} (h : vs.Within vs') {x : String} :
    ∀ c, x ∈ componentNames vs c → x ∈ componentNames vs' c
  | .ident word, hx => by
    rw [componentNames] at hx ⊢
    split
    · rename_i hword
      rw [if_pos hword] at hx
      exact h.getD hx
    · rename_i hword
      rwa [if_neg hword] at hx
  | .function _ arguments, hx => namesFrom_mono h arguments [] hx
  | .parentheses contents, hx => namesFrom_mono h contents [] hx
  | .string _, hx | .number _, hx | .dimension _ _, hx | .percentage _, hx | .hash _, hx
  | .url _, hx | .operator _, hx | .blank, hx | .raw _, hx => hx
termination_by structural c => c

/-- A value names no less with more variables. -/
theorem namesFrom_mono {vs vs' : Variables} (h : vs.Within vs') {x : String} :
    ∀ (v : List Component) (words : List String),
      x ∈ namesFrom vs words v → x ∈ namesFrom vs' words v
  | [], _, hx => hx
  | c :: v, words, hx => by
    have hnext (words : List String) (hx : x ∈ namesFrom vs words v) := namesFrom_mono h v words hx
    have hparts (hx : x ∈ joinWords words ++ componentNames vs c ++ namesFrom vs [] v) :
        x ∈ joinWords words ++ componentNames vs' c ++ namesFrom vs' [] v := by
      rw [List.mem_append, List.mem_append] at hx ⊢
      exact hx.imp (Or.imp_right (componentNames_mono h c)) (hnext [])
    cases c with
    | blank => exact hnext words hx
    | ident word =>
      rw [namesFrom] at hx ⊢
      split
      · rename_i hword
        rw [if_pos hword] at hx
        exact hparts hx
      · rename_i hword
        rw [if_neg hword] at hx
        exact hnext _ hx
    | _ => exact hparts hx
termination_by structural v => v

end

/-! ## More declarations -/

namespace Usage

/-- The one has recorded no more than the other, and has no more names in use. -/
structure Within (u u' : Usage) : Prop where
  known : u.known.Within u'.known
  used : ∀ x ∈ u.used, x ∈ u'.used

theorem Within.trans {u u' u'' : Usage} (h : u.Within u') (h' : u'.Within u'') : u.Within u'' :=
  ⟨h.known.trans h'.known, fun x hx => h'.used x (h.used x hx)⟩

/-- A declaration asks for no less with more variables. -/
theorem asked_mono {vs vs' : Variables} (h : vs.Within vs') {d : Declaration} {x : String}
    (hx : x ∈ asked vs d) : x ∈ asked vs' d := by
  unfold asked at hx ⊢
  split at hx
  · exact namesFrom_mono h d.value [] hx
  · split at hx
    · exact componentNames_mono h _ hx
    · cases hx
  · cases hx

/-- One more declaration takes nothing away. -/
theorem within_step (u : Usage) (d : Declaration) (underRule : Bool) :
    u.Within (u.step d underRule) := by
  refine ⟨?_, fun x hx => mem_used_step hx d underRule⟩
  rw [step]
  split
  · exact u.known.within_record _ _
  · split <;> exact .refl _

/-- The same declaration adds no less where there was more. -/
theorem Within.step {u u' : Usage} (h : u.Within u') (d : Declaration) (underRule : Bool) :
    (u.step d underRule).Within (u'.step d underRule) := by
  rw [Usage.step, Usage.step]
  split
  · exact ⟨h.known.record _ fun _ hx => namesFrom_mono h.known d.value [] hx, h.used⟩
  · split
    · refine ⟨h.known, fun x hx => ?_⟩
      rw [NameSet.mem_addAll, List.mem_map] at hx ⊢
      refine hx.imp (h.used x) ?_
      rintro ⟨name, hname, rfl⟩
      exact ⟨name, asked_mono h.known hname, rfl⟩
    · exact h

/-- A run takes nothing away. -/
theorem within_run (u : Usage) (ds : List (Declaration × Bool)) : u.Within (u.run ds) := by
  induction ds generalizing u with
  | nil => exact ⟨.refl _, fun _ hx => hx⟩
  | cons d ds ih => exact (within_step u d.1 d.2).trans (ih _)

/-- The same run adds no less where there was more. -/
theorem Within.run {u u' : Usage} (h : u.Within u') (ds : List (Declaration × Bool)) :
    (u.run ds).Within (u'.run ds) := by
  induction ds generalizing u u' with
  | nil => exact h
  | cons d ds ih => exact ih (h.step d.1 d.2)

end Usage

/-- With one more node at any place, a sheet records all that it records without, and
asks for all that it asks for. -/
theorem usage_vacant_within (vs : Variables) (p : Place) (n : Node) :
    (usage vs p.vacant).Within (usage vs (p.fill n)) := by
  obtain ⟨pre, post, inner, hfillAll⟩ := p.exists_allDeclarations_fillAll false
  rw [Place.vacant, ← Place.fillAll_singleton, usage, usage, Sheet.declarations,
    Sheet.declarations, hfillAll, hfillAll, Usage.run_append, Usage.run_append, Usage.run_append,
    Usage.run_append]
  exact (Usage.within_run _ _).run post

end Font

end CssPruning
