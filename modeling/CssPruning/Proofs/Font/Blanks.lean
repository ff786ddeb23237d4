import Mathlib.Logic.Relation
import CssPruning.Proofs.Font.Names

/-!
# Names on the two sides of a separator, and blanks

What a value names falls apart at each separator (`names_append_separator`), and no blank
makes a difference, whether it stands between the components of the value or inside of one
of them, at any depth (`BlankAdded`).  A blank inside of a function is one among its
arguments, and the function is a separator; so the second is an induction on where the
blank stands that uses the first.
-/

set_option autoImplicit false

namespace CssPruning

/-- The second value is the first with one more blank, in it or inside of one of its
functions or parentheses, at any depth. -/
inductive Value.BlankAdded : Value → Value → Prop where
  | here (before after : Value) : BlankAdded (before ++ after) (before ++ .blank :: after)
  | inFunction {v w : Value} (before after : Value) (name : String) : BlankAdded v w →
      BlankAdded (before ++ .function name v :: after) (before ++ .function name w :: after)
  | inParentheses {v w : Value} (before after : Value) : BlankAdded v w →
      BlankAdded (before ++ .parentheses v :: after) (before ++ .parentheses w :: after)

namespace Font

open Value (BlankAdded)

/-- A value names what is named in front of a separator, by the separator and behind it. -/
theorem names_append_separator (vs : Variables) {c : Component} (h : isSeparator c = true)
    (v w : Value) : names vs (v ++ c :: w) = names vs v ++ componentNames vs c ++ names vs w :=
  namesFrom_append_cons h [] v w

theorem names_append_blank (vs : Variables) (v w : Value) :
    names vs (v ++ .blank :: w) = names vs (v ++ w) := by
  rw [names, ← namesFrom_filter_blank, List.filter_append, List.filter_cons_of_neg (by decide),
    ← List.filter_append, namesFrom_filter_blank, names]

/-- One more blank makes no difference to the names. -/
theorem names_of_blankAdded (vs : Variables) {v w : Value} (h : BlankAdded v w) :
    names vs v = names vs w := by
  induction h with
  | here before after => exact (names_append_blank vs before after).symm
  | @inFunction v w before after name _ ih =>
    have hinner : componentNames vs (.function name v) = componentNames vs (.function name w) := ih
    rw [names_append_separator vs rfl, names_append_separator vs rfl, hinner]
  | @inParentheses v w before after _ ih =>
    have hinner : componentNames vs (.parentheses v) = componentNames vs (.parentheses w) := ih
    rw [names_append_separator vs rfl, names_append_separator vs rfl, hinner]

/-- A component that is no blank, and no word but a reference, parts the names of a value
into those in front of it, its own and those behind it.  Blanks added and deleted anywhere
leave the names as they are, with their order and repetitions. -/
theorem names_part_and_ignore_blanks (vs : Variables) :
    (∀ (v w : Value) (c : Component), c.isBlank = false →
      (∀ word, c = .ident word → isReference word = true) →
        names vs (v ++ [c] ++ w) = names vs v ++ componentNames vs c ++ names vs w) ∧
      ∀ v w : Value, Relation.EqvGen BlankAdded v w → names vs v = names vs w := by
  constructor
  · intro v w c hblank hword
    have hc : isSeparator c = true := by
      cases c with
      | blank => cases hblank
      | ident word => exact hword word rfl
      | _ => rfl
    rw [List.append_assoc, List.singleton_append, names_append_separator vs hc]
  · intro v w h
    induction h with
    | rel v w h => exact names_of_blankAdded vs h
    | refl v => rfl
    | symm v w _ ih => exact ih.symm
    | trans v w u _ _ ihv ihw => exact ihv.trans ihw

/-- In `a b,var(--x)` the comma parts the names, and a blank inside of the function counts
as little as one behind it. -/
theorem names_referenceBehindComma :
    let vs := Variables.empty.record "--x" ["c", "d"]
    names vs ([.ident "a", .blank, .ident "b"] ++ [.comma] ++ [.function "var" [.ident "--x"]]) =
        names vs [.ident "a", .blank, .ident "b"] ++ componentNames vs .comma ++
          names vs [.function "var" [.ident "--x"]] ∧
      names vs [.function "var" [.blank, .ident "--x"]] =
        names vs [.function "var" [.ident "--x"], .blank] := by
  intro vs
  obtain ⟨hparts, hblanks⟩ := names_part_and_ignore_blanks vs
  refine ⟨hparts _ _ _ rfl fun _ => Component.noConfusion, hblanks _ _ ?_⟩
  have hinside : BlankAdded [.function "var" [.ident "--x"]]
      [.function "var" [.blank, .ident "--x"]] := .inFunction [] [] "var" (.here [] _)
  exact .trans _ _ _ (.symm _ _ (.rel _ _ hinside)) (.rel _ _ (.here [_] []))

end Font

end CssPruning
