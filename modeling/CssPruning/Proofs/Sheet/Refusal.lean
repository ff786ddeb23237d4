import CssPruning.Proofs.Token.Unterminated
import CssPruning.Proofs.Value.Forest

/-!
# Unterminated texts are refused

A tree is shut if it looks closed to the reader (`isShut`).  All trees of a sheet
that was read are shut, statements and values alike (`Reads.isShut`), and the last
tree of an unterminated text is open.  So the text is refused, unless that tree is
open and shut at once: a string whose closing quote is escaped, right before the
end, ends with the quote it starts with (`EndsBehindQuote`).

A value has another such tree.  A block in square or curly brackets is kept as it
stands, whether it is closed or not (`EndsInKeptBlock`).  These two are all that
lets an unterminated value pass (`refused_of_unterminated`).
-/

set_option autoImplicit false

namespace CssPruning

open TokenTree Sheet

/-- The tree looks closed: a comment or a string by the ends of its source, and a
block by its closing bracket. -/
def TokenTree.isShut : TokenTree → Bool
  | leaf l =>
    match l.token with
    | .comment _ => l.commentCloses
    | .string _ => l.stringCloses
    | _ => true
  | block _ _ closer => closer.isSome

/-! ## What is read is shut -/

theorem isShut_leaf {l : Lexeme} (hcomment : ∀ text, l.token ≠ .comment text)
    (hstring : ∀ text, l.token ≠ .string text) : (leaf l).isShut = true := by
  rw [isShut]
  split
  · exact absurd ‹_› (hcomment _)
  · exact absurd ‹_› (hstring _)
  · rfl

/-- All trees of a statement's text are shut. -/
theorem isShut_of_ofTrees {ts : List TokenTree} {phrase : Phrase}
    (h : Phrase.ofTrees ts = .ok phrase) : ∀ t ∈ ts, t.isShut = true := by
  fun_induction Phrase.ofTrees ts generalizing phrase with
  | case1 => exact List.forall_mem_nil _
  | case2 l ts htoken ih =>
    exact List.forall_mem_cons.2 ⟨isShut_leaf (by simp [htoken]) (by simp [htoken]), ih h⟩
  | case3 l ts text htoken hcloses ih =>
    refine List.forall_mem_cons.2 ⟨?_, ih h⟩
    rw [isShut, htoken]
    exact hcloses
  | case4 => cases h
  | case5 => cases h
  | case6 l ts text htoken hcloses ih =>
    obtain ⟨p, hp, -⟩ := map_eq_ok h
    refine List.forall_mem_cons.2 ⟨?_, ih hp⟩
    rw [isShut, htoken]
    exact hcloses
  | case7 => cases h
  | case8 l ts htoken ih =>
    obtain ⟨p, hp, -⟩ := map_eq_ok h
    exact List.forall_mem_cons.2 ⟨isShut_leaf (by simp [htoken]) (by simp [htoken]), ih hp⟩
  | case9 l ts _ hcomment _ hstring _ ih =>
    obtain ⟨p, hp, -⟩ := map_eq_ok h
    exact List.forall_mem_cons.2 ⟨isShut_leaf hcomment hstring, ih hp⟩
  | case10 opener contents closer ts hcloser ih =>
    obtain ⟨p, hp, -⟩ := map_eq_ok h
    exact List.forall_mem_cons.2 ⟨hcloser, ih hp⟩
  | case11 => cases h

/-- All trees of a statement that ends without a block are shut. -/
theorem isShut_of_close {p : Pending} {node : Option Node} (h : p.close = .ok node) :
    ∀ t ∈ p.trees, t.isShut = true := by
  obtain ⟨phrase, hphrase, -⟩ := bind_eq_ok h
  intro t ht
  exact isShut_of_ofTrees hphrase t (List.mem_reverse.2 ht)

theorem isShut_of_isGap {l : Lexeme} (h : isGap l.token = true) : (leaf l).isShut = true := by
  apply isShut_leaf
  · intro text htoken
    rw [htoken] at h
    cases h
  · intro text htoken
    rw [htoken] at h
    cases h

/-- All trees that spell nodes are shut, and so are those of the statement that has
begun before them. -/
theorem Sheet.Reads.isShut {pending : Option Pending} {ts : List TokenTree} {ns : List Node}
    (h : Reads pending ts ns) :
    (∀ t ∈ ts, t.isShut = true) ∧ ∀ p ∈ pending, ∀ t ∈ p.trees, t.isShut = true := by
  induction h with
  | done => simp
  | finish hclose =>
    refine ⟨List.forall_mem_nil _, ?_⟩
    rintro p ⟨⟩
    exact isShut_of_close hclose
  | gap hgap _ ih => exact ⟨List.forall_mem_cons.2 ⟨isShut_of_isGap hgap, ih.1⟩, ih.2⟩
  | @comment l text ts ns htoken hcloses _ ih =>
    refine ⟨List.forall_mem_cons.2 ⟨?_, ih.1⟩, ih.2⟩
    rw [TokenTree.isShut, htoken]
    exact hcloses
  | atRule htoken _ ih =>
    exact ⟨List.forall_mem_cons.2 ⟨isShut_leaf (by simp [htoken]) (by simp [htoken]), ih.1⟩, by simp⟩
  | plain _ _ ih =>
    -- the lexeme is the first tree of the statement that it begins
    have hl := ih.2 _ rfl _ (List.mem_singleton_self _)
    exact ⟨List.forall_mem_cons.2 ⟨hl, ih.1⟩, by simp⟩
  | stop htoken hclose _ ih =>
    refine ⟨List.forall_mem_cons.2
      ⟨isShut_leaf (by simp [htoken]) (by simp [htoken]), ih.1⟩, ?_⟩
    rintro p ⟨⟩
    exact isShut_of_close hclose
  | more _ _ ih =>
    obtain ⟨hl, htrees⟩ := List.forall_mem_cons.1 (ih.2 _ rfl)
    refine ⟨List.forall_mem_cons.2 ⟨hl, ih.1⟩, ?_⟩
    rintro p ⟨⟩
    exact htrees
  | block _ hphrase _ _ _ ih =>
    refine ⟨List.forall_mem_cons.2 ⟨rfl, ih.1⟩, ?_⟩
    rintro p ⟨⟩ t ht
    exact isShut_of_ofTrees hphrase t (List.mem_reverse.2 ht)
  | brackets _ _ ih =>
    obtain ⟨hblock, htrees⟩ := List.forall_mem_cons.1 (ih.2 _ rfl)
    refine ⟨List.forall_mem_cons.2 ⟨hblock, ih.1⟩, ?_⟩
    rintro p ⟨⟩
    exact htrees

/-! ## Ends that look closed -/

/-- The text ends with a string that is open, behind a quote like the one that the
string starts with. -/
def EndsBehindQuote (cs : List Char) : Prop :=
  ∃ ts l text, forest cs = ts ++ [leaf l] ∧ l.token = .string text ∧ l.Open ∧
    l.stringCloses = true

/-- The text ends inside of a block in square or curly brackets. -/
def EndsInKeptBlock (cs : List Char) : Prop :=
  ∃ ts opener contents b, forest cs = ts ++ [block opener contents none] ∧
    opener.token = .opening b ∧ b ≠ .round

/-- Only a string that ends behind a quote is open and shut. -/
theorem endsBehindQuote_of_isShut {cs : List Char} {ts : List TokenTree} {t : TokenTree}
    (hforest : forest cs = ts ++ [t]) (hopen : t.Open) (hshut : t.isShut = true) :
    EndsBehindQuote cs := by
  cases t with
  | block opener contents closer =>
    rw [hopen.2] at hshut
    cases hshut
  | leaf l =>
    cases htoken : l.token with
    | string text =>
      rw [isShut, htoken] at hshut
      exact ⟨ts, l, text, hforest, htoken, hopen, hshut⟩
    | comment text =>
      rw [isShut, htoken] at hshut
      rw [Lexeme.commentCloses_of_open hopen htoken] at hshut
      cases hshut
    | _ =>
      rw [TokenTree.Open, Lexeme.Open, htoken] at hopen
      cases hopen

/-! ## Values -/

namespace Component

/-- A value cannot be read exactly if something in it cannot. -/
theorem exists_error_ofForest_append_iff {ts us : List TokenTree} :
    (∃ f, ofForest (ts ++ us) = .error f) ↔
      (∃ f, ofForest ts = .error f) ∨ ∃ f, ofForest us = .error f := by
  rw [ofForest_append]
  cases ofForest ts with
  | error f => exact ⟨fun _ => .inl ⟨f, rfl⟩, fun _ => ⟨f, rfl⟩⟩
  | ok v =>
    cases ofForest us with
    | error f => exact ⟨fun _ => .inr ⟨f, rfl⟩, fun _ => ⟨f, rfl⟩⟩
    | ok w => simp [bind, Except.bind, pure, Except.pure]

theorem exists_error_ofForest_singleton_iff {t : TokenTree} :
    (∃ f, ofForest [t] = .error f) ↔ ∃ f, ofTree t = .error f := by
  rw [ofForest]
  cases ofTree t with
  | error f => exact ⟨fun _ => ⟨f, rfl⟩, fun _ => ⟨f, rfl⟩⟩
  | ok c => simp [ofForest, bind, Except.bind, pure, Except.pure]

/-- A block that is not closed is refused exactly if it is a function's or a
parenthesis. -/
theorem exists_error_ofTree_block_iff {opener : Lexeme} {contents : List TokenTree}
    (hopens : opener.token.opens.isSome = true) :
    (∃ f, ofTree (block opener contents none) = .error f) ↔
      ¬ ∃ b, opener.token = .opening b ∧ b ≠ .round := by
  rw [ofTree]
  cases htoken : opener.token with
  | function name =>
    cases ofForest contents with
    | error f => simp [bind, Except.bind]
    | ok v => simp [bind, Except.bind, throw, throwThe, MonadExceptOf.throw]
  | opening b =>
    cases b with
    | round =>
      cases ofForest contents with
      | error f => simp [bind, Except.bind]
      | ok v => simp [bind, Except.bind, throw, throwThe, MonadExceptOf.throw]
    | square => simp
    | curly => simp
  | _ =>
    rw [htoken] at hopens
    cases hopens

/-- The last tree of an unterminated text is refused in a value exactly if it does
not look closed and is no block that is kept. -/
theorem exists_error_ofTree_iff {cs : List Char} {ts : List TokenTree} {t : TokenTree}
    (hforest : forest cs = ts ++ [t]) (hopen : t.Open) :
    (∃ f, ofTree t = .error f) ↔ ¬ (EndsBehindQuote cs ∨ EndsInKeptBlock cs) := by
  -- there is one last tree
  have hlast : ∀ {us : List TokenTree} {u : TokenTree}, forest cs = us ++ [u] → t = u := by
    intro us u h
    exact (List.cons.inj (List.append_inj' (hforest.symm.trans h) rfl).2).1
  rw [not_or]
  cases t with
  | block opener contents closer =>
    obtain ⟨hopens, rfl⟩ := hopen
    rw [exists_error_ofTree_block_iff hopens]
    constructor
    · intro hkept
      refine ⟨?_, ?_⟩
      · rintro ⟨us, l, text, h, -⟩
        cases hlast h
      · rintro ⟨us, opener', contents', b, h, htoken, hb⟩
        cases hlast h
        exact hkept ⟨b, htoken, hb⟩
    · rintro ⟨-, hkept⟩ ⟨b, htoken, hb⟩
      exact hkept ⟨ts, opener, contents, b, hforest, htoken, hb⟩
  | leaf l =>
    have hblock : ¬ EndsInKeptBlock cs := by
      rintro ⟨us, opener', contents', b, h, -⟩
      cases hlast h
    cases htoken : l.token with
    | string text =>
      have hquote : EndsBehindQuote cs ↔ l.stringCloses = true := by
        constructor
        · rintro ⟨us, l', text', h, -, -, hcloses⟩
          cases hlast h
          exact hcloses
        · exact fun hcloses => ⟨ts, l, text, hforest, htoken, hopen, hcloses⟩
      rw [hquote, ofTree, ofLexeme, htoken]
      cases l.stringCloses with
      | false => simpa using hblock
      | true => simp
    | comment text =>
      have hcloses := Lexeme.commentCloses_of_open hopen htoken
      have hquote : ¬ EndsBehindQuote cs := by
        rintro ⟨us, l', text', h, htoken', -⟩
        cases hlast h
        rw [htoken] at htoken'
        cases htoken'
      rw [ofTree, ofLexeme, htoken]
      simp [hcloses, hquote, hblock]
    | _ =>
      rw [TokenTree.Open, Lexeme.Open, htoken] at hopen
      cases hopen

end Component

/-! ## Texts -/

/-- A caller sees a parse error exactly for a text with a fault. -/
theorem exists_error_mapError_iff {α : Type} {x : Except Fault α} {cs : List Char} :
    (∃ message place, x.mapError (Error.ofFault cs) = .error (.parse message place)) ↔
      ∃ f, x = .error f := by
  cases x with
  | error f => exact ⟨fun _ => ⟨f, rfl⟩, fun _ => ⟨_, _, rfl⟩⟩
  | ok a =>
    constructor
    · rintro ⟨message, place, h⟩
      cases h
    · rintro ⟨f, h⟩
      cases h

theorem Value.exists_error_read_iff {cs : List Char} :
    (∃ f, Value.read cs = .error f) ↔ ∃ f, Component.ofForest (forest cs) = .error f := by
  rw [Value.read]
  cases Component.ofForest (forest cs) with
  | error f => exact ⟨fun _ => ⟨f, rfl⟩, fun _ => ⟨f, rfl⟩⟩
  | ok v =>
    constructor
    · rintro ⟨f, h⟩
      cases h
    · rintro ⟨f, h⟩
      cases h

/-- An unterminated text is refused as a sheet, unless it ends behind a quote like
the one that the open string starts with.  As a value it is refused unless it ends
so, or inside of a block that is kept as it stands; and then it is refused exactly
if something before that is. -/
theorem refused_of_unterminated {text : String} (h : Unterminated text.toList) :
    ((∃ message place, Sheet.parse text = .error (.parse message place)) ∨
      EndsBehindQuote text.toList) ∧
    ((∃ message place, Value.parse text = .error (.parse message place)) ↔
      ¬ (EndsBehindQuote text.toList ∨ EndsInKeptBlock text.toList) ∨
        ∃ f, Component.ofForest (forest text.toList).dropLast = .error f) := by
  obtain ⟨ts, t, hforest, hopen⟩ := exists_open_of_unterminated h
  constructor
  · rw [Sheet.parse, exists_error_mapError_iff]
    cases hread : Sheet.read text.toList with
    | error f => exact .inl ⟨f, rfl⟩
    | ok s =>
      right
      rw [Sheet.read, readTrees_eq_ok_iff, hforest] at hread
      exact endsBehindQuote_of_isShut hforest hopen (hread.isShut.1 t (by simp))
  · rw [Value.parse, exists_error_mapError_iff, Value.exists_error_read_iff, hforest, List.dropLast_concat,
      Component.exists_error_ofForest_append_iff, Component.exists_error_ofForest_singleton_iff,
      Component.exists_error_ofTree_iff hforest hopen, or_comm]

/-- In `p{a:"b` a block and a string are open, and it is refused as a sheet and as a
value. -/
theorem refused_openString_openBlock :
    Unterminated (String.ofList ['p', '\x7b', 'a', ':', '"', 'b']).toList ∧
      (∃ message place, Sheet.parse (String.ofList ['p', '\x7b', 'a', ':', '"', 'b']) =
        .error (.parse message place)) := by
  have hopen : Unterminated (String.ofList ['p', '\x7b', 'a', ':', '"', 'b']).toList := by
    rw [String.toList_ofList]
    exact .inl (by with_unfolding_all rfl)
  refine ⟨hopen, (refused_of_unterminated hopen).1.resolve_right ?_⟩
  -- the last tree is the block
  rintro ⟨ts, l, text, hforest, -⟩
  have hends : ((forest ['p', '\x7b', 'a', ':', '"', 'b']).getLast?.map fun
      | leaf _ => false
      | block _ _ _ => true) = some true := by with_unfolding_all rfl
  rw [String.toList_ofList] at hforest
  rw [hforest, List.getLast?_concat] at hends
  cases hends

/-- The closing quote of `"a\"` is escaped, and the bracket of `[a` is not closed, but
the one is read as a sheet and the other as a value. -/
theorem escapedQuote_openBracket_not_refused :
    Unterminated ['"', 'a', '\\', '"'] ∧
      Sheet.read ['"', 'a', '\\', '"'] = .ok [.raw (String.ofList ['"', 'a', '\\', '"'])] ∧
      Unterminated ['[', 'a'] ∧
      Value.read ['[', 'a'] = .ok [.raw (String.ofList ['[', 'a'])] := by
  refine ⟨.inr ?_, by with_unfolding_all rfl, .inl (by with_unfolding_all rfl),
    by with_unfolding_all rfl⟩
  refine ⟨⟨.string (String.ofList ['a', '"']), ['"', 'a', '\\', '"'], 0⟩, by with_unfolding_all rfl,
    '"', ['a', '\\', '"'], rfl, ?_⟩
  have hescape : Token.RunsOut '"' ['\\', '"'] :=
    .escape (List.cons_ne_nil _ _) rfl (by with_unfolding_all exact .nil)
  exact .char (by decide) rfl (by decide) hescape

end CssPruning
