import CssPruning.Proofs.Token.Places

/-!
# Trees that are whole

A tree is whole if every block in it is closed (`Whole`).  The lexemes of whole
trees group to the same trees again wherever they stand, as long as none of them
closes the block around (`group_allLexemes`), and a forest that ends in a leaf is
whole (`whole_of_forest_eq_append_leaf`).
-/

set_option autoImplicit false

namespace CssPruning

namespace TokenTree

/-! ## Whole trees -/

/-- The tree is a leaf that closes a bracket. -/
def Closes (b : Bracket) : TokenTree → Prop
  | leaf l => l.token = .closing b
  | block .. => False

mutual

/-- Every block of the tree is closed, and every leaf opens none. -/
def Whole : TokenTree → Prop
  | leaf l => l.token.opens = none
  | block opener contents closer =>
    ∃ b l, opener.token.opens = some b ∧ AllWhole b contents ∧
      closer = some l ∧ l.token = .closing b
termination_by structural t => t

/-- The trees are whole, and can be inside of some bracket: none closes it. -/
def AllWhole (b : Bracket) : List TokenTree → Prop
  | [] => True
  | t :: ts => Whole t ∧ ¬ Closes b t ∧ AllWhole b ts
termination_by structural ts => ts

end

theorem allWhole_iff {b : Bracket} {ts : List TokenTree} :
    AllWhole b ts ↔ ∀ t ∈ ts, Whole t ∧ ¬ Closes b t := by
  induction ts with
  | nil => simp [AllWhole]
  | cons t ts ih => simp [AllWhole, ih, and_assoc]

theorem allWhole_append {b : Bracket} {ts us : List TokenTree} :
    AllWhole b (ts ++ us) ↔ AllWhole b ts ∧ AllWhole b us := by
  simp only [allWhole_iff, List.forall_mem_append]

section

variable {frames : List Frame} {done : List TokenTree} {l : Lexeme} {ls : List Lexeme}

theorem group_opening {b : Bracket} (h : l.token.opens = some b) :
    group frames done (l :: ls) = group (⟨l, b, done⟩ :: frames) [] ls := by
  cases frames <;> simp only [group, h]

theorem group_leaf (h : l.token.opens = none)
    (hframes : ∀ f ∈ frames.head?, l.token ≠ .closing f.bracket) :
    group frames done (l :: ls) = group frames (leaf l :: done) ls := by
  cases frames with
  | nil => simp only [group, h]
  | cons f fs => simp only [group, h, if_neg (hframes f rfl)]

theorem group_closing {f : Frame} (h : l.token = .closing f.bracket) :
    group (f :: frames) done (l :: ls) =
      group frames (block f.opener done.reverse (some l) :: f.before) ls := by
  have hopens : l.token.opens = none := by
    rw [h]
    rfl
  simp only [group, hopens, if_pos h]

end

/-- Whether trees are whole is a matter of their tokens. -/
theorem allWhole_mapAll_iff {f : Lexeme → Lexeme} (hf : ∀ l, (f l).token = l.token) {b : Bracket}
    {ts : List TokenTree} : AllWhole b (mapAll f ts) ↔ AllWhole b ts := by
  induction ts using forestInduction generalizing b with
  | nil => exact Iff.rfl
  | leaf l ts ih => rw [mapAll, AllWhole, AllWhole, ih, map, Whole, Whole, Closes, Closes, hf]
  | block opener contents closer ts ihc ih =>
    have hcloser (c : Bracket) : (∃ l, closer.map f = some l ∧ l.token = .closing c) ↔
        ∃ l, closer = some l ∧ l.token = .closing c := by
      cases closer <;> simp [hf]
    simp only [mapAll, AllWhole, map, Whole, Closes, ih, ihc, hf, exists_and_left, hcloser]

theorem allWhole_allMoved {b : Bracket} {k : Nat} {ts : List TokenTree} (h : AllWhole b ts) :
    AllWhole b (allMoved k ts) := by
  rw [allMoved_eq_mapAll]
  exact (allWhole_mapAll_iff (Lexeme.token_moved k)).2 h

/-- Whole trees are grouped again from their lexemes, in a block that none of them
closes, or in none. -/
theorem group_allLexemes {b : Bracket} {ts : List TokenTree} (h : AllWhole b ts)
    {frames : List Frame} (hframes : ∀ f ∈ frames.head?, f.bracket = b) (done : List TokenTree)
    (ls : List Lexeme) :
    group frames done (allLexemes ts ++ ls) = group frames (ts.reverse ++ done) ls := by
  induction ts using forestInduction generalizing b frames done ls with
  | nil => rfl
  | leaf l ts ih =>
    rw [AllWhole] at h
    obtain ⟨hwhole, hcloses, h⟩ := h
    rw [Whole] at hwhole
    have hstays : ∀ f ∈ frames.head?, l.token ≠ .closing f.bracket := by
      intro f hf
      rw [hframes f hf]
      exact hcloses
    rw [allLexemes, lexemes, List.singleton_append, List.cons_append, group_leaf hwhole hstays,
      ih h hframes, List.reverse_cons, List.append_assoc, List.singleton_append]
  | block opener contents closer ts ihc ih =>
    rw [AllWhole, Whole] at h
    obtain ⟨⟨c, l, hopens, hcontents, rfl, hl⟩, -, h⟩ := h
    have hlexemes : allLexemes (block opener contents (some l) :: ts) ++ ls =
        opener :: (allLexemes contents ++ (l :: (allLexemes ts ++ ls))) := by
      simp [allLexemes, lexemes]
    rw [hlexemes, group_opening hopens, ihc hcontents (by simp), List.append_nil, group_closing hl,
      List.reverse_reverse, ih h hframes, List.reverse_cons, List.append_assoc,
      List.singleton_append]

/-- Whole trees are grouped again from their lexemes. -/
theorem group_nil_allLexemes {b : Bracket} {ts : List TokenTree} (h : AllWhole b ts) :
    group [] [] (allLexemes ts) = ts := by
  have hgroup : group [] [] (allLexemes ts ++ []) = group [] (ts.reverse ++ []) [] :=
    group_allLexemes h (by simp) [] []
  simpa [group, unwind] using hgroup

/-! ## The first tree of a whole forest -/

theorem allLexemes_eq_nil_iff {ts : List TokenTree} : allLexemes ts = [] ↔ ts = [] := by
  cases ts with
  | nil => simp [allLexemes]
  | cons t ts => cases t <;> simp [allLexemes, lexemes]

section

variable {ts : List TokenTree} {l : Lexeme} {ls : List Lexeme} (hwhole : ∀ t ∈ ts, Whole t)
  (h : allLexemes ts = l :: ls)

include hwhole h

/-- A lexeme that opens nothing is a tree. -/
theorem exists_eq_leaf_cons (hl : l.token.opens = none) :
    ∃ us, ts = leaf l :: us ∧ allLexemes us = ls := by
  cases ts with
  | nil => cases h
  | cons t ts =>
    rw [List.forall_mem_cons] at hwhole
    cases t with
    | leaf m =>
      obtain ⟨rfl, htail⟩ := List.cons.inj h
      exact ⟨ts, rfl, htail⟩
    | block opener contents closer =>
      obtain ⟨rfl, -⟩ := List.cons.inj h
      obtain ⟨b, -, hopens, -⟩ := hwhole.1
      rw [hl] at hopens
      cases hopens

/-- A lexeme that opens a bracket is in front of a block. -/
theorem exists_eq_block_cons {b : Bracket} (hl : l.token.opens = some b) :
    ∃ contents closer us, ts = block l contents (some closer) :: us ∧ AllWhole b contents ∧
      closer.token = .closing b ∧ allLexemes contents ++ closer :: allLexemes us = ls := by
  cases ts with
  | nil => cases h
  | cons t ts =>
    rw [List.forall_mem_cons] at hwhole
    cases t with
    | leaf m =>
      obtain ⟨rfl, -⟩ := List.cons.inj h
      have hopens := hwhole.1
      rw [Whole, hl] at hopens
      cases hopens
    | block opener contents closer =>
      obtain ⟨rfl, htail⟩ := List.cons.inj h
      obtain ⟨c, m, hopens, hcontents, rfl, hm⟩ := hwhole.1
      obtain rfl : b = c := Option.some.inj (hl.symm.trans hopens)
      refine ⟨contents, m, ts, rfl, hcontents, hm, ?_⟩
      rw [← htail]
      simp

end

/-! ## Forests that end in a leaf -/

/-- What grouping has when it is inside of some frames: whole trees so far, and
none that closes the frame it is in. -/
def Good : List Frame → List TokenTree → Prop
  | [], done => ∀ t ∈ done, Whole t
  | f :: fs, done =>
    AllWhole f.bracket done.reverse ∧ f.opener.token.opens = some f.bracket ∧ Good fs f.before

/-- A forest in which all is whole, or which the text ends in a block of. -/
def Finished (ts : List TokenTree) : Prop :=
  (∀ t ∈ ts, Whole t) ∨ ∃ us opener contents, ts = us ++ [block opener contents none]

theorem finished_unwind {frames : List Frame} {done : List TokenTree} (h : Good frames done) :
    Finished (unwind frames done) := by
  cases frames with
  | nil =>
    left
    intro t ht
    exact h t (List.mem_reverse.1 ht)
  | cons f fs =>
    right
    -- the block that is open stays last, or inside of the last one
    have hlast : ∀ (fs : List Frame) (before : List TokenTree) (o : Lexeme) (c : List TokenTree),
        ∃ us opener contents, unwind fs (block o c none :: before) =
          us ++ [block opener contents none] := by
      intro fs
      induction fs with
      | nil => exact fun before o c => ⟨before.reverse, o, c, by simp [unwind]⟩
      | cons g gs ih => exact fun before o c => ih _ _ _
    exact hlast fs f.before f.opener done.reverse

/-- One more leaf that does not close the frame. -/
theorem Good.leaf {frames : List Frame} {done : List TokenTree} {l : Lexeme}
    (h : Good frames done) (hl : l.token.opens = none)
    (hframes : ∀ f ∈ frames.head?, l.token ≠ .closing f.bracket) :
    Good frames (leaf l :: done) := by
  cases frames with
  | nil =>
    intro t ht
    rcases List.mem_cons.1 ht with rfl | ht
    · rw [Whole]
      exact hl
    · exact h t ht
  | cons f fs =>
    refine ⟨?_, h.2⟩
    rw [List.reverse_cons, allWhole_append, AllWhole, Whole]
    exact ⟨h.1, hl, hframes f rfl, trivial⟩

/-- The frame is closed. -/
theorem Good.close {f : Frame} {frames : List Frame} {done : List TokenTree} {l : Lexeme}
    (h : Good (f :: frames) done) (hl : l.token = .closing f.bracket) :
    Good frames (block f.opener done.reverse (some l) :: f.before) := by
  obtain ⟨hdone, hopens, h⟩ := h
  have hwhole : Whole (block f.opener done.reverse (some l)) := by
    rw [Whole]
    exact ⟨f.bracket, l, hopens, hdone, rfl, hl⟩
  cases frames with
  | nil =>
    intro t ht
    rcases List.mem_cons.1 ht with rfl | ht
    · exact hwhole
    · exact h t ht
  | cons g gs =>
    refine ⟨?_, h.2⟩
    rw [List.reverse_cons, allWhole_append, AllWhole]
    exact ⟨h.1, hwhole, id, trivial⟩

/-- Grouping ends with some open blocks and the trees of the innermost level. -/
theorem exists_unwind_of_good {frames : List Frame} {done : List TokenTree}
    (h : Good frames done) (ls : List Lexeme) :
    ∃ frames' done', Good frames' done' ∧ group frames done ls = unwind frames' done' := by
  fun_induction group frames done ls with
  | case1 frames done => exact ⟨frames, done, h, rfl⟩
  | case2 frames done l ls b hopens ih => exact ih ⟨trivial, hopens, h⟩
  | case3 done l ls hopens f fs hl ih => exact ih (h.close hl)
  | case4 done l ls hopens f fs hl ih =>
    apply ih
    apply h.leaf hopens
    intro g hg
    rw [List.head?_cons, Option.mem_some_iff] at hg
    rw [← hg]
    exact hl
  | case5 done l ls hopens ih => exact ih (h.leaf hopens (by simp))

theorem finished_group {frames : List Frame} {done : List TokenTree} (h : Good frames done)
    (ls : List Lexeme) : Finished (group frames done ls) := by
  obtain ⟨frames', done', hgood, hunwind⟩ := exists_unwind_of_good h ls
  rw [hunwind]
  exact finished_unwind hgood

/-- A forest that ends in a leaf is whole. -/
theorem whole_of_forest_eq_append_leaf {cs : List Char} {ts : List TokenTree} {l : Lexeme}
    (h : forest cs = ts ++ [leaf l]) : ∀ t ∈ ts, Whole t := by
  have hgood : Good [] [] := by
    intro t ht
    cases ht
  rcases finished_group hgood (tokenize cs) with hwhole | ⟨us, opener, contents, hopen⟩
  · intro t ht
    apply hwhole
    rw [← forest, h]
    exact List.mem_append_left _ ht
  · rw [← forest, h] at hopen
    have := (List.append_inj' hopen rfl).2
    cases this

end TokenTree

end CssPruning
