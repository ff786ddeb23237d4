import CssPruning.Font.Usage

/-!
# The names in use, declaration by declaration

One more declaration takes no name away (`Usage.mem_used_step`), so neither does
a run; and a run has every name that some declaration asks for with whatever
variables there are.
-/

set_option autoImplicit false

namespace CssPruning.Font.Usage

variable {u : Usage} {x : String}

theorem run_append (u : Usage) (ds es : List (Declaration × Bool)) :
    u.run (ds ++ es) = (u.run ds).run es :=
  List.foldl_append

/-- One more declaration takes no name away. -/
theorem mem_used_step (hx : x ∈ u.used) (d : Declaration) (underRule : Bool) :
    x ∈ (u.step d underRule).used := by
  unfold step
  split
  · exact hx
  · split
    · exact NameSet.mem_addAll.2 (.inl hx)
    · exact hx

/-- No run takes a name away. -/
theorem mem_used_run (hx : x ∈ u.used) (ds : List (Declaration × Bool)) :
    x ∈ (u.run ds).used := by
  induction ds generalizing u with
  | nil => exact hx
  | cons d ds ih => exact ih (mem_used_step hx d.1 d.2)

/-- A declaration of families is none of a variable. -/
theorem isCustom_eq_false_of_propertyName {d : Declaration}
    (h : d.propertyName = "font-family") : d.isCustom = false := by
  cases hc : d.isCustom with
  | false => rfl
  | true =>
    rw [Declaration.propertyName, if_pos hc] at h
    rw [Declaration.isCustom, h] at hc
    exact absurd hc (by decide)

/-- What a declaration of families under a rule names is in use after it. -/
theorem lower_mem_used_step {d : Declaration} {name : String}
    (hd : d.propertyName = "font-family") (hname : name ∈ names u.known d.value) :
    Text.lower name ∈ (u.step d true).used := by
  rw [step, isCustom_eq_false_of_propertyName hd, if_neg (by decide), if_pos rfl,
    NameSet.mem_addAll, asked, hd]
  exact .inr (List.mem_map_of_mem hname)

/-- What a declaration of families under a rule names whatever the variables are is
in use in the end. -/
theorem lower_mem_used_run {ds : List (Declaration × Bool)} {d : Declaration} {name : String}
    (hmem : (d, true) ∈ ds) (hd : d.propertyName = "font-family")
    (hname : ∀ vs, name ∈ names vs d.value) : Text.lower name ∈ (u.run ds).used := by
  induction ds generalizing u with
  | nil => cases hmem
  | cons e ds ih =>
    rcases List.mem_cons.1 hmem with rfl | hmem
    · exact mem_used_run (lower_mem_used_step hd (hname u.known)) ds
    · exact ih hmem

end CssPruning.Font.Usage
