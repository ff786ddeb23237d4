import CssPruning.Proofs.Fallible
import CssPruning.Proofs.Token.Cursor
import CssPruning.Value.Reader

/-!
# The loop that reads a value

The components of a value are read one by one from a cursor, those inside of a function
or a parenthesis by the same loop from the cursor inside of it.  What this loop finds is
what the trees that it passes spell (`Cursor.Level.components_eq`), and nothing is left of a
function or a parenthesis behind what the loop reads in it (`Cursor.nested_components`).
-/

set_option autoImplicit false

namespace CssPruning

open TokenTree

namespace Cursor

variable {c e f : Cursor}

/-- The components inside of a block whose inside begins at a cursor, which has to be closed, and
the cursor behind the closing bracket. -/
def enclosed (opener : Lexeme) (d : c.Ahead) (inner : Except Fault (Value × d.1.Onward)) :
    Except Fault (Value × c.Ahead) := do
  let ((v, closed), e) ← nested .round inner
  if !closed then throw ⟨.unclosedParenthesisInValue, opener.start⟩
  return (v.trim, d.andThen e)

/-- One turn of the loop that reads a value; `inner` reads what is in a block. -/
def componentTurn (inside : Option Bracket) (c : Cursor)
    (inner : (d : c.Ahead) → Except Fault (Value × d.1.Onward)) :
    Except Fault (Turn c Unit (Option Component)) :=
  match c.next inside with
  | none => .ok (.returns ())
  | some (l, d) =>
    match l.token with
    | .function name => do
      let (arguments, e) ← enclosed l d (inner d)
      return .goesOn (some (.call name arguments)) e
    | .opening .round => do
      let (contents, e) ← enclosed l d (inner d)
      return .goesOn (some (.parentheses contents)) e
    | .opening b => do
      let (_, e) ← skipBlock b d.1
      return .goesOn (some (.raw (String.ofList (c.upTo (d.andThen e).toOnward)))) (d.andThen e)
    | _ => do
      let found ← Component.ofLexeme l
      return .goesOn found d

/-- The components from a cursor on, blanks at the ends included, and the cursor behind them. -/
def components (inside : Option Bracket) (c : Cursor) : Except Fault (Value × c.Onward) :=
  match componentTurn inside c fun d => components (some .round) d.1 with
  | .error f => .error f
  | .ok (.returns ()) => .ok ([], c.here)
  | .ok (.goesOn found d) => do
    let (v, e) ← components inside d.1
    return (found.toList ++ v, d.toOnward.andThen e)
termination_by c.ahead.length
decreasing_by all_goals exact d.2.length_lt

/-! ## The loop and the trees -/

section

variable {inside : Option Bracket} {l : Lexeme} {ts us : List TokenTree}

/-- The loop adds what a turn has found to what it finds from the cursor ahead on. -/
theorem endingAt_components (inside : Option Bracket) (c : Cursor) :
    endingAt (components inside c) =
      afterTurn (fun found v => found.toList ++ v) (fun _ => ([], c))
        (fun d => endingAt (components inside d))
        (componentTurn inside c fun d => components (some .round) d.1) := by
  rw [components]
  cases componentTurn inside c fun d => components (some .round) d.1 with
  | error fault => rfl
  | ok turn =>
    cases turn with
    | returns => rfl
    | goesOn found d =>
      dsimp only [afterTurn]
      cases components inside d.1 <;> rfl

theorem endingAt_components_of_goesOn {found : Option Component} {d : c.Ahead}
    (h : componentTurn inside c (fun d => components (some .round) d.1) =
      .ok (.goesOn found d)) :
    endingAt (components inside c) =
      (fun r => (found.toList ++ r.1, r.2)) <$> endingAt (components inside d.1) := by
  rw [endingAt_components, h]
  rfl

/-- A turn at a lexeme that opens nothing. -/
theorem componentTurn_of_leaf {d : c.Ahead} (h : c.next inside = some (l, d))
    (hopens : l.token.opens = none) (inner : (d : c.Ahead) → Except Fault (Value × d.1.Onward)) :
    componentTurn inside c inner = (fun found => .goesOn found d) <$> Component.ofLexeme l := by
  unfold componentTurn
  rw [h]
  dsimp only
  split
  · rename_i htoken
    rw [htoken] at hopens
    cases hopens
  · rename_i htoken
    rw [htoken] at hopens
    cases hopens
  · rename_i htoken
    rw [htoken] at hopens
    cases hopens
  · rfl

/-- A turn at a lexeme that opens a block which is read inside, where the inside is read as its
trees. -/
theorem endingAt_components_of_enclosed {d : c.Ahead} (make : Value → Component)
    (hturn : componentTurn inside c (fun d => components (some .round) d.1) = (do
      let (v, e) ← enclosed l d (components (some .round) d.1)
      return .goesOn (some (make v)) e))
    (htree : Component.ofTree (block l us (e.close .round).1) = (do
      let v ← Component.ofForest us
      if (e.close .round).1.isNone then throw ⟨.unclosedParenthesisInValue, l.start⟩
      return some (make v.trim)))
    (hend : e.next (some .round) = none)
    (hinner : endingAt (components (some .round) d.1) = (·, e) <$> Component.ofForest us)
    (hrest : endingAt (components inside (e.close .round).2.1) =
      (·, f) <$> Component.ofForest ts) :
    endingAt (components inside c) =
      (·, f) <$> Component.ofForest (block l us (e.close .round).1 :: ts) := by
  rw [Component.ofForest, htree]
  cases hus : Component.ofForest us with
  | error fault =>
    rw [hus] at hinner
    cases hcomponents : components (some .round) d.1 with
    | error fault' =>
      rw [hcomponents] at hinner hturn
      cases hinner
      rw [endingAt_components, hturn]
      rfl
    | ok r =>
      rw [hcomponents] at hinner
      cases hinner
  | ok v =>
    rw [hus] at hinner
    cases hcomponents : components (some .round) d.1 with
    | error fault' =>
      rw [hcomponents] at hinner
      cases hinner
    | ok r =>
      obtain ⟨v, e', hreach⟩ := r
      rw [hcomponents] at hinner hturn
      cases hinner
      rw [enclosed, nested_ok hend] at hturn
      dsimp only [bind, Except.bind, Onward.close] at hturn ⊢
      cases hcloser : (e'.close .round).1 with
      | none =>
        rw [hcloser] at hturn
        rw [endingAt_components, hturn]
        rfl
      | some closer =>
        rw [hcloser] at hturn
        rw [endingAt_components_of_goesOn hturn]
        change (fun r => (_, r.2)) <$> endingAt (components inside (e'.close .round).2.1) = _
        rw [hrest]
        cases Component.ofForest ts <;> rfl

/-- A turn at a lexeme that opens a block which is kept as it stands. -/
theorem endingAt_components_of_raw {d : c.Ahead} {t : TokenTree}
    (hturn : componentTurn inside c (fun d => components (some .round) d.1) =
      .ok (.goesOn (some (.raw (String.ofList t.source))) d))
    (htree : Component.ofTree t = .ok (some (.raw (String.ofList t.source)))) (hd : d.1 = e)
    (hrest : endingAt (components inside e) = (·, f) <$> Component.ofForest ts) :
    endingAt (components inside c) = (·, f) <$> Component.ofForest (t :: ts) := by
  subst hd
  rw [endingAt_components_of_goesOn hturn, hrest, Component.ofForest, htree]
  cases Component.ofForest ts <;> rfl

/-- The loop finds what the trees that it passes spell, or their first fault. -/
theorem Level.components_eq (h : Level inside c ts e) :
    endingAt (components inside c) = (·, e) <$> Component.ofForest ts := by
  induction h with
  | done h =>
    rw [components, componentTurn, h]
    rfl
  | @leaf inside c e l d ts h hopens _ ih =>
    have hturn := componentTurn_of_leaf h hopens fun d => components (some .round) d.1
    rw [Component.ofForest, Component.ofTree]
    cases hfound : Component.ofLexeme l with
    | error f =>
      rw [hfound] at hturn
      rw [endingAt_components, hturn]
      rfl
    | ok found =>
      rw [hfound] at hturn
      rw [endingAt_components_of_goesOn hturn, ih]
      cases Component.ofForest ts <;> rfl
  | @block inside c e f l d b us ts h hopens hinner _ ihc ih =>
    cases htoken : l.token with
    | function name =>
      obtain rfl : Bracket.round = b := by
        rw [htoken] at hopens
        exact Option.some.inj hopens
      refine endingAt_components_of_enclosed (.call name) ?_ ?_ hinner.next_eq_none ihc ih
      · rw [componentTurn, h]
        simp only [htoken]
      · rw [Component.ofTree]
        simp only [htoken]
    | opening b' =>
      obtain rfl : b' = b := by
        rw [htoken] at hopens
        exact Option.some.inj hopens
      obtain ⟨-, hbehind, hsource⟩ := Level.skip_close h hinner
      cases b' with
      | round =>
        refine endingAt_components_of_enclosed .parentheses ?_ ?_ hinner.next_eq_none ihc ih
        · rw [componentTurn, h]
          simp only [htoken]
        · rw [Component.ofTree]
          simp only [htoken]
      | _ =>
        refine endingAt_components_of_raw ?_ ?_ hbehind ih
        · rw [componentTurn, h]
          simp only [htoken, skipBlock_eq]
          dsimp only [bind, Except.bind]
          rw [hsource]
          rfl
        · rw [Component.ofTree]
          simp only [htoken]
    | _ =>
      rw [htoken] at hopens
      cases hopens

/-- The loop returns where its block or the text ends. -/
theorem next_eq_none_of_components {v : Value} {r : c.Onward}
    (h : components inside c = .ok (v, r)) : r.1.next inside = none := by
  obtain ⟨ts, e, hlevel⟩ := exists_level inside c
  have hloop := hlevel.components_eq
  rw [h] at hloop
  obtain ⟨w, -, hend⟩ := map_eq_ok hloop.symm
  obtain ⟨-, rfl⟩ := Prod.mk.inj hend
  exact hlevel.next_eq_none

/-- Nothing is left over of a block behind the components that the loop reads in it. -/
theorem nested_components (b : Bracket) (c : Cursor) : nested b (components (some b) c) =
    (fun r => ((r.1, (r.2.close b).1.isSome), (r.2.close b).2)) <$> components (some b) c :=
  nested_eq fun _ _ => next_eq_none_of_components

end

end Cursor

/-- The loop reads a value as it is read from the forest of its text. -/
theorem Value.trim_components_eq (cs : List Char) :
    (fun r => Value.trim r.1) <$> Cursor.components none ⟨0, cs⟩ = Value.read cs := by
  obtain ⟨ts, e, h⟩ := Cursor.exists_level none ⟨0, cs⟩
  have hloop := h.components_eq
  rw [Value.read, Cursor.forest_eq h]
  cases hread : Component.ofForest ts <;> cases hcomponents : Cursor.components none ⟨0, cs⟩ <;>
    rw [hread, hcomponents] at hloop <;> cases hloop <;> rfl

end CssPruning
