import CssPruning.Proofs.Token.Fronts
import CssPruning.Proofs.Value.Simple

/-!
# Legible values

A component stands in front of a text if its own text is the first tree there and is
read as the component (`Component.StandsBefore`).  A value is legible if each of its
components stands in front of what is written behind it, and if no blank at the ends of
the text is trimmed away (`Value.Legible`).  What is asked of a component is asked of
its text and of what follows it only, and a legible value is read back as it was written
(`Legible.survives`).
-/

set_option autoImplicit false

namespace CssPruning

open TokenTree Sheet

namespace Component

/-- The first tree of the text of the component and of what is written behind it is the
text of the component, and is read as the component. -/
def StandsBefore (spaced : Bool) (c : Component) (ds : List Char) : Prop :=
  ∃ t ∈ (forest (text spaced c ++ ds)).head?, t.source = text spaced c ∧ ofTree t = .ok (some c)

/-- Each component stands in front of the texts of those behind it. -/
def AllStand (spaced : Bool) : Value → Prop
  | [] => True
  | c :: v =>
    let after := endsInSpace spaced (text spaced c)
    c.StandsBefore spaced (texts after v) ∧ AllStand after v

theorem StandsBefore.exists_forest_eq {spaced : Bool} {c : Component} {ds : List Char}
    (h : c.StandsBefore spaced ds) : ∃ t ts, forest (text spaced c ++ ds) = t :: ts ∧
      t.source = text spaced c ∧ ofTree t = .ok (some c) := by
  obtain ⟨t, hhead, hsource, hread⟩ := h
  obtain ⟨ts, hforest⟩ := List.head?_eq_some_iff.1 hhead
  exact ⟨t, ts, hforest, hsource, hread⟩

theorem StandsBefore.text_ne_nil {spaced : Bool} {c : Component} {ds : List Char}
    (h : c.StandsBefore spaced ds) : text spaced c ≠ [] := by
  obtain ⟨t, hhead, hsource, -⟩ := h
  rw [← hsource]
  exact source_ne_nil_of_mem_forest (List.mem_of_mem_head? hhead)

/-- Components that stand in front of each other are read one by one. -/
theorem AllStand.ofForest_eq {spaced : Bool} {v : Value} (h : AllStand spaced v) :
    ofForest (forest (texts spaced v)) = .ok v := by
  induction v generalizing spaced with
  | nil =>
    rw [texts, forest, tokenize, tokenizeFrom_nil]
    rfl
  | cons c v ih =>
    obtain ⟨hc, hv⟩ := h
    obtain ⟨t, ts, hforest, hsource, hread⟩ := hc.exists_forest_eq
    have htail : ofForest ts = .ok v := by
      rw [← hsource] at hforest
      rw [← ofForest_mapAll_eq_ok_iff Lexeme.token_bare Lexeme.source_bare,
        ← mapAll_bare_tail hforest, ofForest_mapAll_eq_ok_iff Lexeme.token_bare Lexeme.source_bare,
        hsource]
      exact ih hv
    change ofForest (forest (text spaced c ++ texts _ v)) = _
    rw [hforest]
    exact ofForest_cons_eq_ok hread htail

/-- A blank at the end is written. -/
theorem AllStand.getLast?_texts {spaced : Bool} {v : Value} (h : AllStand spaced v)
    (hv : v.getLast? = some blank) : (texts spaced v).getLast? = some ' ' := by
  induction v generalizing spaced with
  | nil => cases hv
  | cons c v ih =>
    cases v with
    | nil =>
      obtain rfl : c = blank := by simpa using hv
      have hne := h.1.text_ne_nil
      cases spaced with
      | true => exact absurd rfl hne
      | false => rfl
    | cons d v =>
      rw [List.getLast?_cons_cons] at hv
      rw [texts, List.getLast?_append, ih h.2 hv]
      rfl

end Component

namespace Value

open Component Text

/-- The text of the value neither starts nor ends with a blank, and every component
stands in front of what is written behind it. -/
structure Legible (v : Value) : Prop where
  flush : Flush (texts false v)
  stand : AllStand false v

/-- The text of the value is read as the value. -/
def Survives (v : Value) : Prop := Value.parse v.write = .ok v

theorem Legible.endsInParts {v : Value} (h : v.Legible) : EndsInParts v := by
  constructor
  · cases v with
    | nil => rfl
    | cons c v =>
      have hflush := h.flush.1
      cases c with
      | blank => cases hflush
      | _ => rfl
  · have hflush := h.flush.2
    cases hv : v.getLast? with
    | none => rfl
    | some c =>
      cases c with
      | blank =>
        rw [h.stand.getLast?_texts hv] at hflush
        cases hflush
      | _ => rfl

/-- A legible value is read back as it was written. -/
theorem Legible.survives {v : Value} (h : v.Legible) : v.Survives := by
  have hchars : v.chars = texts false v := Text.trim_eq_self h.flush
  rw [Survives, parse_eq_ok_iff, write, String.toList_ofList, hchars, read, h.stand.ofForest_eq]
  exact congrArg Except.ok (trim_eq_self h.endsInParts)

end Value

end CssPruning
