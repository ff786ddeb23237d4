import CssPruning.Value.Basic

/-!
# Taking the mark of importance off a value

The last component has to be the word.  In front of it the last component that is no blank
is looked for from the end, and it has to be the exclamation mark.  The value is cut
there, and then loses the blanks at its end one by one.
-/

set_option autoImplicit false

namespace CssPruning.Value

/-- The place of the last entry that passes a test. -/
def lastPlace {α : Type} (p : α → Bool) : List α → Option Nat
  | [] => none
  | x :: xs =>
    match lastPlace p xs with
    | some i => some (i + 1)
    | none => if p x then some 0 else none

/-- The value after its blanks at the end have been taken off, the last one first. -/
def popBlanks (v : Value) : Value :=
  match h : v.getLast? with
  | some .blank =>
    have : 0 < v.length := List.length_pos_of_mem (List.mem_of_getLast? h)
    popBlanks v.dropLast
  | _ => v
termination_by v.length
decreasing_by
  rw [List.length_dropLast]
  omega

/-- Takes the mark of importance off a value, and tells whether it was there. -/
def stripImportant (v : Value) : Bool × Value :=
  match v.getLast? with
  | some (.ident name) =>
    if Text.sameAscii name "important" then
      match lastPlace (fun c => !c.isBlank) v.dropLast with
      | some i =>
        match v[i]? with
        | some (.raw "!") => (true, popBlanks (v.take i))
        | _ => (false, v)
      | none => (false, v)
    else (false, v)
  | _ => (false, v)

end CssPruning.Value
