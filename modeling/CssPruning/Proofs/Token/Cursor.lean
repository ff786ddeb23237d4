import CssPruning.Error
import CssPruning.Proofs.Token.Fronts

/-!
# Cursors

A cursor is a place in a text with what stands from there on.  The loops that read a
text share one: each turn takes the lexeme at the cursor, which passes at least one
character (`Cursor.lexeme?`), and a loop inside of a block ends in front of the bracket
that closes the block (`Cursor.next`).  What a loop leaves of its block is looked at when
it returns (`Cursor.nested`); it is nothing if the loop returns where the block ends
(`Cursor.nested_eq`).

What a loop does from a cursor is told by its turns (`Cursor.Trail`): there are finitely
many, each of which begins further on than those in front of it, and the answer of the
loop is what they find (`Cursor.advances`).

`Cursor.Level` is what a loop passes, as trees.  There is one run of trees from every
cursor (`Cursor.exists_level`), and from the start of a text it is the forest of the
text (`Cursor.forest_eq`).
-/

set_option autoImplicit false

namespace CssPruning

open Token TokenTree

/-- A place in a text, and what stands from there on. -/
structure Cursor where
  place : Nat
  ahead : List Char
  deriving DecidableEq, Repr

namespace Cursor

variable {c d e : Cursor}

/-! ## Before and behind -/

/-- The one cursor is the other, or some characters in front of it. -/
def Reaches (c d : Cursor) : Prop :=
  ∃ cs, c.ahead = cs ++ d.ahead ∧ d.place = c.place + cs.length

/-- The one cursor is at least one character in front of the other. -/
def Passes (c d : Cursor) : Prop :=
  ∃ cs, cs ≠ [] ∧ c.ahead = cs ++ d.ahead ∧ d.place = c.place + cs.length

theorem Reaches.refl (c : Cursor) : c.Reaches c := ⟨[], rfl, rfl⟩

theorem Reaches.trans (h : c.Reaches d) (h' : d.Reaches e) : c.Reaches e := by
  obtain ⟨cs, hcs, hplace⟩ := h
  obtain ⟨ds, hds, hplace'⟩ := h'
  refine ⟨cs ++ ds, ?_, ?_⟩
  · rw [hcs, hds, List.append_assoc]
  · rw [hplace', hplace, List.length_append, Nat.add_assoc]

theorem Passes.reaches (h : c.Passes d) : c.Reaches d :=
  let ⟨cs, _, hcs, hplace⟩ := h
  ⟨cs, hcs, hplace⟩

theorem Passes.trans_reaches (h : c.Passes d) (h' : d.Reaches e) : c.Passes e := by
  obtain ⟨cs, hne, hcs, hplace⟩ := h
  obtain ⟨ds, hds, hplace'⟩ := h'
  refine ⟨cs ++ ds, by simp [hne], ?_, ?_⟩
  · rw [hcs, hds, List.append_assoc]
  · rw [hplace', hplace, List.length_append, Nat.add_assoc]

theorem Reaches.length_le (h : c.Reaches d) : d.ahead.length ≤ c.ahead.length := by
  obtain ⟨cs, hcs, -⟩ := h
  rw [hcs, List.length_append]
  exact Nat.le_add_left _ _

theorem Passes.length_lt (h : c.Passes d) : d.ahead.length < c.ahead.length := by
  obtain ⟨cs, hne, hcs, -⟩ := h
  have := List.length_pos_iff.2 hne
  rw [hcs, List.length_append]
  omega

/-- A cursor that a loop may end at. -/
abbrev Onward (c : Cursor) := {d : Cursor // c.Reaches d}

/-- A cursor that a loop may go on from. -/
abbrev Ahead (c : Cursor) := {d : Cursor // c.Passes d}

/-- The cursor itself: nothing is passed. -/
def here (c : Cursor) : c.Onward := ⟨c, .refl c⟩

namespace Ahead

def toOnward (d : c.Ahead) : c.Onward := ⟨d.1, d.2.reaches⟩

/-- Further on from a cursor ahead. -/
def andThen (d : c.Ahead) (e : d.1.Onward) : c.Ahead := ⟨e.1, d.2.trans_reaches e.2⟩

end Ahead

/-- Further on from a cursor that is reached. -/
def Onward.andThen (d : c.Onward) (e : d.1.Onward) : c.Onward := ⟨e.1, d.2.trans e.2⟩

/-! ## Lexemes -/

/-- The lexeme at a cursor and the cursor behind it, unless the text ends. -/
def lexeme? (c : Cursor) : Option (Lexeme × c.Ahead) :=
  match h : c.ahead with
  | [] => none
  | a :: cs =>
    let s := Token.next a cs
    some (⟨s.value, s.source, c.place⟩, ⟨⟨c.place + s.source.length, s.rest⟩, s.source,
      source_next_ne_nil a cs, h.trans (next_splits a cs).symm, rfl⟩)

/-- The lexeme at a cursor inside of a block, unless it closes the block or the text ends;
outside of blocks there is nothing to close. -/
def next (inside : Option Bracket) (c : Cursor) : Option (Lexeme × c.Ahead) :=
  c.lexeme?.filter fun x => inside.all fun b => x.1.token != .closing b

/-- The bracket at a cursor that closes a block, and the cursor behind it, if it is there. -/
def close (b : Bracket) (c : Cursor) : Option Lexeme × c.Onward :=
  match c.lexeme? with
  | some (l, d) => if l.token = .closing b then (some l, d.toOnward) else (none, c.here)
  | none => (none, c.here)

/-- The bracket behind what a loop has passed, if it closes the block, and the cursor behind it. -/
def Onward.close (b : Bracket) (d : c.Onward) : Option Lexeme × c.Onward :=
  ((d.1.close b).1, d.andThen (d.1.close b).2)

/-- The end of a block whose inside begins at a cursor: what is in it is passed over, blocks
included. -/
def skip (b : Bracket) (c : Cursor) : c.Onward :=
  match c.next (some b) with
  | none => c.here
  | some (l, d) =>
    match l.token.opens with
    | none => d.toOnward.andThen (skip b d.1)
    | some b' =>
      let e := d.andThen ((skip b' d.1).close b').2
      e.toOnward.andThen (skip b e.1)
termination_by c.ahead.length
decreasing_by
  · exact d.2.length_lt
  · exact d.2.length_lt
  · exact (d.andThen _).2.length_lt

/-- The lexeme at a cursor or behind the blanks and comments there, unless the block that the cursor
is inside of or the text ends before. -/
def leftover (inside : Option Bracket) (c : Cursor) : Option Lexeme :=
  match c.next inside with
  | none => none
  | some (l, d) =>
    match l.token with
    | .blank | .comment _ => leftover inside d.1
    | _ => some l
termination_by c.ahead.length
decreasing_by all_goals exact d.2.length_lt

/-- A block whose inside has been read: what has been read, whether a bracket closes the block, and
the cursor behind it.  Nothing but blanks and comments may be left over, or the fault names the
token; from where the reader has stopped, the block is passed over up to its end.  The block is
closed if that moves the cursor. -/
def nested {α : Type} (b : Bracket) (x : Except Fault (α × c.Onward)) :
    Except Fault ((α × Bool) × c.Onward) := do
  let (a, e) ← x
  match e.1.leftover (some b) with
  | some l =>
    throw ⟨.unexpectedInput ("UnexpectedToken(" ++ reprStr l.token ++ ")"), e.1.place⟩
  | none =>
    let (_, f) := (e.andThen (skip b e.1)).close b
    return ((a, f.1.place != e.1.place), f)

/-- A block whose inside begins at a cursor, passed over by a reader that finds nothing: whether a
bracket closes the block, and the cursor behind it. -/
def skipBlock (b : Bracket) (c : Cursor) : Except Fault (Bool × c.Onward) := do
  let (((), closed), e) ← nested b (.ok ((), skip b c))
  return (closed, e)

/-- What a turn of a loop does: the loop returns, or goes on with what the turn has found from a
cursor ahead. -/
inductive Turn (c : Cursor) (ρ σ : Type) where
  | returns (result : ρ)
  | goesOn (found : σ) (d : c.Ahead)

/-- What a loop answers after a turn: what the last turn returns, or what the loop answers from the
cursor ahead, with what the turn has found put in front of it. -/
def afterTurn {ε α ρ σ : Type} (put : σ → α → α) (last : ρ → α × Cursor)
    (loop : Cursor → Except ε (α × Cursor)) : Except ε (Turn c ρ σ) → Except ε (α × Cursor)
  | .error fault => .error fault
  | .ok (.returns result) => .ok (last result)
  | .ok (.goesOn found d) => (fun r => (put found r.1, r.2)) <$> loop d.1

section

variable {ε α σ : Type} {ρ : Cursor → Type} {turn : (c : Cursor) → Except ε (Turn c (ρ c) σ)}
  {ds : List Cursor} {founds : List σ} {outcome : Except ε ((e : Cursor) × ρ e)}

/-- The cursors that a loop takes its turns at, from one on, what the turns find, and what the last
turn returns or fails with. -/
inductive Trail (turn : (c : Cursor) → Except ε (Turn c (ρ c) σ)) :
    Cursor → List Cursor → List σ → Except ε ((e : Cursor) × ρ e) → Prop where
  | fails {c : Cursor} {fault : ε} : turn c = .error fault → Trail turn c [c] [] (.error fault)
  | returns {c : Cursor} {result : ρ c} :
      turn c = .ok (.returns result) → Trail turn c [c] [] (.ok ⟨c, result⟩)
  | goesOn {c : Cursor} {found : σ} {d : c.Ahead} {ds : List Cursor} {founds : List σ}
      {outcome : Except ε ((e : Cursor) × ρ e)} :
      turn c = .ok (.goesOn found d) → Trail turn d.1 ds founds outcome →
      Trail turn c (c :: ds) (found :: founds) outcome

theorem Trail.reaches_of_mem (h : Trail turn c ds founds outcome) (hd : d ∈ ds) : c.Reaches d := by
  induction h with
  | fails | returns =>
    rw [List.mem_singleton.1 hd]
    exact .refl _
  | @goesOn c _ d' _ _ _ _ _ ih =>
    obtain rfl | hd := List.mem_cons.1 hd
    · exact .refl _
    · exact d'.2.reaches.trans (ih hd)

/-- Each turn passes at least one character in front of the turns behind it. -/
theorem Trail.pairwise_passes (h : Trail turn c ds founds outcome) : ds.Pairwise Passes := by
  induction h with
  | fails | returns => exact List.pairwise_singleton _ _
  | @goesOn c _ d _ _ _ _ hrest ih =>
    exact .cons (fun _ he => d.2.trans_reaches (hrest.reaches_of_mem he)) ih

/-- A loop takes one turn for each character at most, and the last one. -/
theorem Trail.length_le (h : Trail turn c ds founds outcome) : ds.length ≤ c.ahead.length + 1 := by
  induction h with
  | fails | returns => exact Nat.le_add_left _ _
  | @goesOn c _ d _ _ _ _ _ ih =>
    have := d.2.length_lt
    rw [List.length_cons]
    omega

theorem exists_trail (turn : (c : Cursor) → Except ε (Turn c (ρ c) σ)) (c : Cursor) :
    ∃ ds founds outcome, Trail turn c ds founds outcome := by
  induction hn : c.ahead.length using Nat.strongRecOn generalizing c with
  | ind n ih =>
    subst hn
    cases hturn : turn c with
    | error fault => exact ⟨_, _, _, .fails hturn⟩
    | ok t =>
      cases t with
      | returns result => exact ⟨_, _, _, .returns hturn⟩
      | goesOn found d =>
        obtain ⟨ds, founds, outcome, hrest⟩ := ih _ d.2.length_lt d.1 rfl
        exact ⟨_, _, _, .goesOn hturn hrest⟩

variable {put : σ → α → α} {last : (c : Cursor) → ρ c → α × Cursor}
  {loop : Cursor → Except ε (α × Cursor)}

/-- A loop answers what its last turn returns, with what the turns have found in front. -/
theorem Trail.loop_eq (hloop : ∀ c, loop c = afterTurn put (last c) loop (turn c))
    (h : Trail turn c ds founds outcome) : loop c =
      (fun r => (founds.foldr put (last r.1 r.2).1, (last r.1 r.2).2)) <$> outcome := by
  induction h with
  | fails hturn | returns hturn =>
    rw [hloop, hturn]
    rfl
  | goesOn hturn _ ih =>
    rw [hloop, hturn, afterTurn, ih, ← comp_map]
    rfl

/-- What a loop answers from a cursor is found in finitely many turns, each of which passes at least
one character or is the last. -/
def Advances (turn : (c : Cursor) → Except ε (Turn c (ρ c) σ)) (put : σ → α → α)
    (last : (c : Cursor) → ρ c → α × Cursor) (loop : Cursor → Except ε (α × Cursor))
    (c : Cursor) : Prop :=
  ∃ ds founds outcome, Trail turn c ds founds outcome ∧ ds.Pairwise Passes ∧
    ds.length ≤ c.ahead.length + 1 ∧ loop c =
      (fun r => (founds.foldr put (last r.1 r.2).1, (last r.1 r.2).2)) <$> outcome

theorem advances (hloop : ∀ c, loop c = afterTurn put (last c) loop (turn c)) (c : Cursor) :
    Advances turn put last loop c :=
  let ⟨ds, founds, outcome, h⟩ := exists_trail turn c
  ⟨ds, founds, outcome, h, h.pairwise_passes, h.length_le, h.loop_eq hloop⟩

end

/-- A result with the cursor that it was reached at, which is not compared with the one that the
loop began at. -/
def endingAt {ε α : Type} (x : Except ε (α × c.Onward)) : Except ε (α × Cursor) :=
  (fun r => (r.1, r.2.1)) <$> x

/-- The text between a cursor and one that it reaches. -/
def upTo (c : Cursor) (d : c.Onward) : List Char := c.ahead.take (d.1.place - c.place)

theorem upTo_eq {d : c.Onward} {cs : List Char} (h : c.ahead = cs ++ d.1.ahead) :
    c.upTo d = cs := by
  obtain ⟨ds, hds, hplace⟩ := d.2
  have hsame : cs = ds := List.append_cancel_right (h.symm.trans hds)
  rw [upTo, hplace, Nat.add_sub_cancel_left, ← hsame, h, List.take_left]

/-- The lexemes from a cursor on. -/
def lexemes (c : Cursor) : List Lexeme := tokenizeFrom c.place c.ahead

theorem lexeme?_eq_none_iff : c.lexeme? = none ↔ c.ahead = [] := by
  unfold lexeme?
  split
  · rename_i h
    exact iff_of_true rfl h
  · rename_i h
    exact iff_of_false (by simp) (by simp [h])

theorem lexemes_of_lexeme? {l : Lexeme} {d : c.Ahead} (h : c.lexeme? = some (l, d)) :
    c.lexemes = l :: d.1.lexemes ∧ c.ahead = l.source ++ d.1.ahead ∧
      d.1.place = c.place + l.source.length ∧ l.start = c.place := by
  obtain ⟨place, ahead⟩ := c
  cases ahead with
  | nil => cases h
  | cons a cs =>
    obtain ⟨rfl, rfl⟩ := Prod.mk.inj (Option.some.inj h)
    exact ⟨tokenizeFrom_cons place a cs, (next_splits a cs).symm, rfl, rfl⟩

theorem next_eq_some_iff {inside : Option Bracket} {l : Lexeme} {d : c.Ahead} :
    c.next inside = some (l, d) ↔
      c.lexeme? = some (l, d) ∧ ∀ b ∈ inside, l.token ≠ .closing b := by
  rw [next, Option.filter_eq_some_iff]
  simp [Option.all_eq_true]

/-! ## Levels -/

/-- The trees that a loop passes from a cursor on, outside of blocks or inside of one with a given
bracket, and the cursor that it ends at. -/
inductive Level : Option Bracket → Cursor → List TokenTree → Cursor → Prop where
  | done {inside : Option Bracket} {c : Cursor} : c.next inside = none → Level inside c [] c
  | leaf {inside : Option Bracket} {c e : Cursor} {l : Lexeme} {d : c.Ahead}
      {ts : List TokenTree} :
      c.next inside = some (l, d) → l.token.opens = none → Level inside d.1 ts e →
      Level inside c (leaf l :: ts) e
  | block {inside : Option Bracket} {c e f : Cursor} {l : Lexeme} {d : c.Ahead} {b : Bracket}
      {us ts : List TokenTree} :
      c.next inside = some (l, d) → l.token.opens = some b → Level (some b) d.1 us e →
      Level inside (e.close b).2.1 ts f →
      Level inside c (block l us (e.close b).1 :: ts) f

section

variable {inside : Option Bracket} {ts : List TokenTree}

/-- A loop ends where its block or the text does. -/
theorem Level.next_eq_none (h : Level inside c ts e) : e.next inside = none := by
  induction h with
  | done h => exact h
  | leaf _ _ _ ih => exact ih
  | block _ _ _ _ _ ih => exact ih

theorem source_close (b : Bracket) (c : Cursor) :
    c.ahead = (c.close b).1.toList.flatMap Lexeme.source ++ (c.close b).2.1.ahead := by
  unfold close
  split
  · rename_i l d h
    split
    · rw [Option.toList_some, List.flatMap_singleton]
      exact (lexemes_of_lexeme? h).2.1
    · rfl
  · rfl

/-- A block is made of its bracket, of what is inside and of the closing bracket, if it is there. -/
theorem ahead_eq_block {l : Lexeme} {d : c.Ahead} {b : Bracket} {us : List TokenTree}
    (h : c.next inside = some (l, d)) (hinner : d.1.ahead = us.flatMap source ++ e.ahead) :
    c.ahead = (block l us (e.close b).1).source ++ (e.close b).2.1.ahead := by
  obtain ⟨-, hsource, -⟩ := lexemes_of_lexeme? (next_eq_some_iff.1 h).1
  rw [hsource, hinner, source_close b e, source_block, List.append_assoc, List.append_assoc]

/-- The trees are made of the text that is passed. -/
theorem Level.ahead_eq (h : Level inside c ts e) : c.ahead = ts.flatMap source ++ e.ahead := by
  induction h with
  | done => rfl
  | leaf h _ _ ih =>
    obtain ⟨-, hsource, -⟩ := lexemes_of_lexeme? (next_eq_some_iff.1 h).1
    rw [hsource, ih]
    simp [source, TokenTree.lexemes]
  | block h _ _ _ ihc ih => rw [ahead_eq_block h ihc, ih, List.flatMap_cons, List.append_assoc]

theorem Level.reaches (h : Level inside c ts e) : c.Reaches e := by
  induction h with
  | done => exact .refl _
  | @leaf _ _ _ _ d _ _ _ _ ih => exact d.2.reaches.trans ih
  | @block _ _ e _ _ d b _ _ _ _ _ _ ihc ih =>
    exact d.2.reaches.trans (ihc.trans ((e.close b).2.2.trans ih))

/-- There is a level from every cursor. -/
theorem exists_level (inside : Option Bracket) (c : Cursor) : ∃ ts e, Level inside c ts e := by
  induction hn : c.ahead.length using Nat.strongRecOn generalizing inside c with
  | ind n ih =>
    subst hn
    cases h : c.next inside with
    | none => exact ⟨[], c, .done h⟩
    | some x =>
      obtain ⟨l, d⟩ := x
      have hd := d.2.length_lt
      cases hopens : l.token.opens with
      | none =>
        obtain ⟨ts, e, hrest⟩ := ih _ hd inside d.1 rfl
        exact ⟨_, e, .leaf h hopens hrest⟩
      | some b =>
        obtain ⟨us, e, hinner⟩ := ih _ hd (some b) d.1 rfl
        have he := hinner.reaches.length_le
        have hclose := (e.close b).2.2.length_le
        obtain ⟨ts, f, hrest⟩ := ih _ (by omega) inside (e.close b).2.1 rfl
        exact ⟨_, f, .block h hopens hinner hrest⟩

/-- A block that is passed over ends where its level does. -/
theorem Level.skip_eq {b : Bracket} (h : Level (some b) c ts e) : (skip b c).1 = e := by
  generalize hinside : some b = inside at h
  induction h generalizing b with
  | done h =>
    subst hinside
    rw [skip, h]
    rfl
  | leaf h hopens _ ih =>
    subst hinside
    rw [skip, h]
    simp only [hopens]
    exact ih rfl
  | @block inside c e f l d b' us ts h hopens _ _ ihc ih =>
    subst hinside
    rw [skip, h]
    simp only [hopens]
    change (skip b ((skip b' d.1).1.close b').2.1).1 = f
    rw [ihc rfl]
    exact ih rfl

/-! ## Blocks -/

theorem leftover_of_next_eq_none (h : c.next inside = none) : c.leftover inside = none := by
  rw [leftover, h]

theorem skip_of_next_eq_none {b : Bracket} (h : c.next (some b) = none) : skip b c = c.here := by
  rw [skip, h]

/-- At the end of a block the cursor moves if a bracket closes the block. -/
theorem place_close_bne (b : Bracket) (c : Cursor) :
    ((c.close b).2.1.place != c.place) = (c.close b).1.isSome := by
  unfold close
  split
  · rename_i l d h
    split
    · obtain ⟨cs, hne, -, hplace⟩ := d.2
      have := List.length_pos_iff.2 hne
      have hmoves : d.1.place ≠ c.place := by omega
      exact bne_iff_ne.2 hmoves
    · exact bne_self_eq_false c.place
  · exact bne_self_eq_false c.place

/-- A reader that stops where the block ends leaves nothing over; the block is closed by the bracket
there. -/
theorem nested_ok {α : Type} {b : Bracket} {d : c.Onward} (h : d.1.next (some b) = none) (a : α) :
    nested b (.ok (a, d)) = .ok ((a, (d.close b).1.isSome), (d.close b).2) := by
  rw [nested]
  dsimp only [bind, Except.bind]
  rw [leftover_of_next_eq_none h, skip_of_next_eq_none h]
  change Except.ok ((a, (d.1.close b).2.1.place != d.1.place), (d.close b).2) = _
  rw [place_close_bne]
  rfl

/-- The check finds nothing, and is done without, where a reader always stops at the end of the
block. -/
theorem nested_eq {α : Type} {b : Bracket} {x : Except Fault (α × c.Onward)}
    (h : ∀ a d, x = .ok (a, d) → d.1.next (some b) = none) :
    nested b x = (fun r => ((r.1, (r.2.close b).1.isSome), (r.2.close b).2)) <$> x := by
  cases x with
  | error fault => rfl
  | ok r => exact nested_ok (h r.1 r.2 rfl) r.1

/-- A block is passed over up to its end. -/
theorem next_skip (b : Bracket) (c : Cursor) : (skip b c).1.next (some b) = none := by
  obtain ⟨ts, e, h⟩ := exists_level (some b) c
  rw [h.skip_eq]
  exact h.next_eq_none

theorem skipBlock_eq (b : Bracket) (c : Cursor) :
    skipBlock b c = .ok (((skip b c).close b).1.isSome, ((skip b c).close b).2) := by
  rw [skipBlock, nested_ok (next_skip b c)]
  rfl

/-- Behind a block that is passed over the loop goes on where its level does, and the block is the
text in between. -/
theorem Level.skip_close {b : Bracket} {l : Lexeme} {d : c.Ahead} {us : List TokenTree}
    (h : c.next inside = some (l, d)) (hinner : Level (some b) d.1 us e) :
    let f := d.andThen ((skip b d.1).close b).2
    ((skip b d.1).close b).1 = (e.close b).1 ∧ f.1 = (e.close b).2.1 ∧
      c.upTo f.toOnward = (TokenTree.block l us (e.close b).1).source := by
  have hclose : ((skip b d.1).close b).2.1 = (e.close b).2.1 := by
    rw [← hinner.skip_eq]
    rfl
  refine ⟨?_, hclose, upTo_eq ?_⟩
  · rw [← hinner.skip_eq]
    rfl
  · rw [ahead_eq_block h hinner.ahead_eq, ← hclose]
    rfl

/-! ## Levels and forests -/

/-- Where a block ends, it is put in front of the level around it. -/
theorem group_close {b : Bracket} (hend : e.next (some b) = none) (opener : Lexeme)
    (before done : List TokenTree) (frames : List Frame) :
    group (⟨opener, b, before⟩ :: frames) done e.lexemes =
      group frames (block opener done.reverse (e.close b).1 :: before) (e.close b).2.1.lexemes := by
  rw [next, Option.filter_eq_none_iff] at hend
  unfold close
  split
  · rename_i l d h
    have hcloses : l.token = .closing b := by simpa using hend (l, d) h
    rw [if_pos hcloses, (lexemes_of_lexeme? h).1, group_closing hcloses]
    rfl
  · rename_i h
    have hlexemes : e.lexemes = [] := by
      rw [lexemes, lexeme?_eq_none_iff.1 h, tokenizeFrom_nil]
    have hhere : e.here.1.lexemes = [] := hlexemes
    rw [hlexemes, hhere, group, group, unwind]

/-- The trees of a level are what grouping its lexemes adds to the innermost open block. -/
theorem Level.group_eq (h : Level inside c ts e) {frames : List Frame}
    (hframes : frames.head?.map Frame.bracket = inside) (done : List TokenTree) :
    group frames done c.lexemes = group frames (ts.reverse ++ done) e.lexemes := by
  induction h generalizing frames done with
  | done => rfl
  | @leaf inside c e l d ts h hopens _ ih =>
    obtain ⟨hlexeme, hcloses⟩ := next_eq_some_iff.1 h
    have hframe : ∀ f ∈ frames.head?, l.token ≠ .closing f.bracket :=
      fun f hf => hcloses f.bracket (hframes ▸ Option.mem_map_of_mem _ hf)
    rw [(lexemes_of_lexeme? hlexeme).1, group_leaf hopens hframe, ih hframes, List.reverse_cons,
      List.append_assoc, List.singleton_append]
  | @block inside c e f l d b us ts h hopens hinner _ ihc ih =>
    obtain ⟨hlexeme, -⟩ := next_eq_some_iff.1 h
    rw [(lexemes_of_lexeme? hlexeme).1, group_opening hopens, ihc rfl, List.append_nil,
      group_close hinner.next_eq_none, List.reverse_reverse, ih hframes, List.reverse_cons,
      List.append_assoc, List.singleton_append]

theorem forest_eq {cs : List Char} (h : Level none ⟨0, cs⟩ ts e) : forest cs = ts := by
  have hend : e.lexemes = [] := by
    have hnext := h.next_eq_none
    rw [next, Option.filter_eq_none_iff] at hnext
    have : e.lexeme? = none := by
      cases hl : e.lexeme? with
      | none => rfl
      | some x => exact absurd rfl (hnext x hl)
    rw [Cursor.lexemes, lexeme?_eq_none_iff.1 this, tokenizeFrom_nil]
  have hgroup : group [] [] (lexemes ⟨0, cs⟩) = group [] (ts.reverse ++ []) e.lexemes :=
    h.group_eq rfl []
  rw [hend, List.append_nil, group, unwind, List.reverse_reverse] at hgroup
  exact hgroup

end

end Cursor

end CssPruning
