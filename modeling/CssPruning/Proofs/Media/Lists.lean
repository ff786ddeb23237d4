import CssPruning.Proofs.Media.KeepBias
import CssPruning.Proofs.Media.Layout

/-!
# Lists of queries put together

A comma divides a list of media queries, wherever it stands: the queries of `a,b` are
those of `a` and those of `b` (`parseList_append_comma`).  A list is read as a whole or
not at all, and the first part that is no query is at fault; so the fault of `a,b` is
that of `a`, or that of `b` if `a` has none.  To match a list is to match one of its
queries, so that a comma is an `or` for matching and for relevance, as far as both
sides can be read (`comma_is_or`).
-/

set_option autoImplicit false

namespace CssPruning.Media

/-- The queries of two texts with a comma between them. -/
theorem parseList_append_comma (a b : String) :
    parseList (a ++ "," ++ b) = do
      let queries ← parseList a
      let more ← parseList b
      return queries ++ more := by
  have htext : (a ++ "," ++ b).toList = a.toList ++ ',' :: b.toList := by
    rw [String.toList_append, String.toList_append, List.append_assoc]
    rfl
  unfold parseList
  rw [htext, parts_append, List.mapM_append]

variable (a b : String) (t : Target)

theorem matchesText_append_comma :
    matchesText (a ++ "," ++ b) t = do
      let matched ← matchesText a t
      let matchedToo ← matchesText b t
      return matched || matchedToo := by
  unfold matchesText
  rw [parseList_append_comma]
  cases parseList a with
  | error e => rfl
  | ok queries =>
    cases parseList b with
    | error e => rfl
    | ok more => exact congrArg Except.ok List.any_append

theorem relevantText_append_comma_iff :
    relevantText (a ++ "," ++ b) t = true ↔
      (∃ queries, parseList a = .ok queries) ∧ (∃ queries, parseList b = .ok queries) ∧
        (relevantText a t = true ∨ relevantText b t = true) := by
  unfold relevantText
  rw [parseList_append_comma]
  cases parseList a with
  | error e => simp [bind, Except.bind]
  | ok queries =>
    cases parseList b with
    | error e => simp [bind, Except.bind]
    | ok more => simp [bind, Except.bind, pure, Except.pure, List.any_append]

/-- A comma is an `or`, if both sides can be read; if not, the first fault is that of the
whole, and the whole is irrelevant. -/
theorem comma_is_or :
    (parseList (a ++ "," ++ b) = do
      let queries ← parseList a
      let more ← parseList b
      return queries ++ more) ∧
    (∀ t, matchesText (a ++ "," ++ b) t = do
      let matched ← matchesText a t
      let matchedToo ← matchesText b t
      return matched || matchedToo) ∧
    (∀ t, relevantText (a ++ "," ++ b) t = true ↔
      (∃ queries, parseList a = .ok queries) ∧ (∃ queries, parseList b = .ok queries) ∧
        (relevantText a t = true ∨ relevantText b t = true)) :=
  ⟨parseList_append_comma a b, matchesText_append_comma a b, relevantText_append_comma_iff a b⟩

end CssPruning.Media
