import CssPruning.Proofs.Token.Grouping

/-!
# Pieces of text

A `Piece` is a text with its trees: whatever text of some kind follows it, the
lexemes of the piece are those of its trees.  Pieces in a row are a piece
(`Piece.append`), and so are pieces before and inside of curly brackets
(`Piece.curly`).

A text is a piece in front of every stop if it is closed (`isClosed`), which
means that the text does not swallow a semicolon behind it and that no curly
bracket closes in it without having been opened.
-/

set_option autoImplicit false

namespace CssPruning

open Token TokenTree

/-- A text and its trees, which are there whatever text of some kind follows. -/
structure Piece (follows : List Char → Prop) (cs : List Char) (ts : List TokenTree) : Prop where
  /-- the text can stand inside of curly brackets -/
  whole : AllWhole .curly ts
  tokens : ∀ start ds, follows ds → tokenizeFrom start (cs ++ ds) =
    allLexemes (allMoved start ts) ++ tokenizeFrom (start + cs.length) ds

/-- Whatever follows. -/
def Anything (_ : List Char) : Prop := True

/-! ## Lexemes of their own -/

/-- A character that starts no longer mark: it is a token on its own, whatever
follows it. -/
def isLone (c : Char) : Bool :=
  !(['"', '\'', '#', '@', '/', '<', '~', '|', '^', '$', '*'].contains c)

theorem mark_of_isLone {c : Char} (hc : isLone c = true) (cs : List Char) :
    mark c cs = ⟨single c, [c], cs⟩ := by
  have hne : ∀ d, isLone d = false → c ≠ d := by
    rintro d hd rfl
    rw [hc] at hd
    cases hd
  fun_cases mark c cs with
  | case1 _ _ h => simp [hne '"' rfl, hne '\'' rfl] at h
  | case2 _ _ _ h => simp [hne '#' rfl] at h
  | case3 _ _ _ _ h => simp [hne '@' rfl] at h
  | case4 => exact absurd rfl (hne '/' rfl)
  | case5 => exact absurd rfl (hne '<' rfl)
  | case6 _ _ h =>
    simp [hne '~' rfl, hne '|' rfl, hne '^' rfl, hne '$' rfl, hne '*' rfl] at h
  | case7 => rfl
  | case8 => rfl

/-- A stop is a lexeme of its own. -/
theorem next_of_isStop {c : Char} (hc : isStop c = true) (cs : List Char) :
    next c cs = ⟨single c, [c], cs⟩ := by
  have hlone : isLone c = true := by
    rcases eq_of_isStop hc with rfl | rfl | rfl <;> rfl
  have hnumber : startsNumber (c :: cs) = false := by
    rcases eq_of_isStop hc with rfl | rfl | rfl <;> rfl
  have harrow : ['-', '-', '>'].isPrefixOf (c :: cs) = false := by
    rcases eq_of_isStop hc with rfl | rfl | rfl <;> rfl
  have hname : startsName (c :: cs) = false := startsName_of_stopped (by simpa [Stopped] using hc)
  simp only [next, isSpace_stop hc, hnumber, harrow, hname, Bool.false_eq_true, if_false,
    mark_of_isLone hlone]

theorem tokenizeFrom_of_isStop {c : Char} (hc : isStop c = true) (start : Nat) (cs : List Char) :
    tokenizeFrom start (c :: cs) = ⟨single c, [c], start⟩ :: tokenizeFrom (start + 1) cs := by
  rw [tokenizeFrom_cons, next_of_isStop hc]
  rfl

theorem commentBody_append {text : List Char} (h : ¬ ['*', '/'] <:+: text) (ds : List Char) :
    commentBody (text ++ '*' :: '/' :: ds) = ⟨text, text ++ ['*', '/'], ds⟩ := by
  induction text with
  | nil => rfl
  | cons c text ih =>
    have htext : ¬ ['*', '/'] <:+: text := fun hinfix =>
      h (List.IsInfix.trans hinfix (List.suffix_cons c text).isInfix)
    rw [List.cons_append, commentBody, ih htext]
    · rfl
    · rintro rest rfl hrest
      -- a slash behind the star would be a closing mark of the text
      cases text with
      | nil => cases hrest
      | cons d text =>
        obtain ⟨rfl, -⟩ := List.cons.inj hrest
        exact h ⟨[], text, rfl⟩

namespace Piece

variable {follows follows' : List Char → Prop} {cs cs' : List Char} {ts ts' : List TokenTree}

/-- The forest of a text that nothing follows. -/
theorem forest_eq (h : Piece follows cs ts) (hnil : follows []) : forest cs = ts := by
  have htokens := h.tokens 0 [] hnil
  rw [List.append_nil, tokenizeFrom_nil, allMoved_zero] at htokens
  rw [forest, tokenize, htokens, List.append_nil, group_nil_allLexemes h.whole]

theorem nil : Piece follows [] [] :=
  ⟨trivial, fun _ _ _ => rfl⟩

/-- A piece in front of fewer texts. -/
theorem mono (h : Piece follows cs ts) (hfollows : ∀ ds, follows' ds → follows ds) :
    Piece follows' cs ts :=
  ⟨h.whole, fun start ds hds => h.tokens start ds (hfollows ds hds)⟩

/-- The source of the trees is the text. -/
theorem flatMap_source (h : Piece follows cs ts) (hnil : follows []) : ts.flatMap source = cs := by
  rw [← h.forest_eq hnil, source_forest]

/-- One piece and then another. -/
theorem append (h : Piece follows cs ts) (h' : Piece follows' cs' ts')
    (hfollows : ∀ ds, follows' ds → follows (cs' ++ ds)) :
    Piece follows' (cs ++ cs') (ts ++ allMoved cs.length ts') := by
  constructor
  case whole => exact allWhole_append.2 ⟨h.whole, allWhole_allMoved h'.whole⟩
  case tokens =>
    intro start ds hds
    rw [List.append_assoc, h.tokens start _ (hfollows ds hds), h'.tokens _ ds hds,
      allMoved_append, allMoved_allMoved, allLexemes_append, List.append_assoc, List.length_append,
      Nat.add_assoc]

/-- A semicolon. -/
theorem semicolon : Piece Anything [';'] [leaf (semicolonAt 0)] := by
  constructor
  case whole => exact ⟨rfl, by simp [Closes, semicolonAt], trivial⟩
  case tokens =>
    intro start ds _
    rw [List.singleton_append, tokenizeFrom_of_isStop rfl]
    rfl

/-- A comment that ends at its first closing mark. -/
theorem comment {text : List Char} (h : ¬ ['*', '/'] <:+: text) :
    Piece Anything ('/' :: '*' :: text ++ ['*', '/'])
      [leaf ⟨.comment (String.ofList text), '/' :: '*' :: text ++ ['*', '/'], 0⟩] := by
  constructor
  case whole => exact ⟨rfl, by simp [Closes], trivial⟩
  case tokens =>
    intro start ds _
    have hnext : next '/' ('*' :: (text ++ '*' :: '/' :: ds)) =
        ⟨.comment (String.ofList text), '/' :: '*' :: text ++ ['*', '/'], ds⟩ := by
      have hmark : next '/' ('*' :: (text ++ '*' :: '/' :: ds)) =
          ((commentBody (text ++ '*' :: '/' :: ds)).map
            fun text => Token.comment (String.ofList text)).behind ['/', '*'] := rfl
      rw [hmark, commentBody_append h]
      rfl
    have htext : '/' :: '*' :: text ++ ['*', '/'] ++ ds = '/' :: '*' :: (text ++ '*' :: '/' :: ds) := by
      simp
    rw [htext, tokenizeFrom_cons, hnext]
    rfl

/-- A text in front of a block in curly brackets with a text in it. -/
theorem curly (h : Piece Stopped cs ts) (h' : Piece Stopped cs' ts') :
    Piece Anything (cs ++ '\x7b' :: cs' ++ ['\x7d'])
      (ts ++ [block ⟨.opening .curly, ['\x7b'], cs.length⟩ (allMoved (cs.length + 1) ts')
        (some ⟨.closing .curly, ['\x7d'], cs.length + 1 + cs'.length⟩)]) := by
  constructor
  case whole =>
    refine allWhole_append.2 ⟨h.whole, ?_, id, trivial⟩
    exact ⟨.curly, _, rfl, allWhole_allMoved h'.whole, rfl, rfl⟩
  case tokens =>
    intro start ds _
    have hsplit : cs ++ '\x7b' :: cs' ++ ['\x7d'] ++ ds = cs ++ ('\x7b' :: (cs' ++ ('\x7d' :: ds))) := by
      simp
    have houter := h.tokens start ('\x7b' :: (cs' ++ ('\x7d' :: ds))) rfl
    have hinner := h'.tokens (start + cs.length + 1) ('\x7d' :: ds) rfl
    rw [hsplit, houter, tokenizeFrom_of_isStop rfl, hinner, tokenizeFrom_of_isStop rfl]
    have hend : start + cs.length + 1 + cs'.length + 1 =
        start + (cs ++ '\x7b' :: cs' ++ ['\x7d']).length := by
      simp only [List.length_append, List.length_cons, List.length_nil]
      omega
    rw [hend]
    simp [allMoved, moved, allLexemes, lexemes, Lexeme.moved, single, Nat.add_assoc]

end Piece

/-! ## Closed texts -/

/-- The tree is a curly bracket that closes nothing. -/
def isStray : TokenTree → Bool
  | leaf l => l.token == .closing .curly
  | block .. => false

/-- A semicolon behind the text is a tree of its own, and no curly bracket closes
in the text without having been opened there. -/
def isClosed (cs : List Char) : Bool :=
  match (forest (cs ++ [';'])).reverse with
  | leaf l :: ts => l == semicolonAt cs.length && ts.all fun t => !isStray t
  | _ => false

/-- A text is a piece in front of every stop if it is one in front of a semicolon
and no curly bracket closes too much in it. -/
theorem Piece.of_forest {cs : List Char} {ts : List TokenTree}
    (hforest : forest (cs ++ [';']) = ts ++ [leaf (semicolonAt cs.length)])
    (hstray : ∀ t ∈ ts, isStray t = false) : Piece Stopped cs ts := by
  constructor
  case whole =>
    rw [allWhole_iff]
    intro t ht
    refine ⟨whole_of_forest_eq_append_leaf hforest t ht, ?_⟩
    have := hstray t ht
    cases t with
    | leaf l => simpa [isStray, Closes] using this
    | block => exact id
  case tokens =>
    intro start ds hds
    have hlexemes := lexemes_forest (cs ++ [';'])
    rw [hforest, allLexemes_append, tokenize] at hlexemes
    rw [allLexemes_allMoved]
    refine tokenizeFrom_append (show isStop ';' = true from rfl) ?_ hds
    have hmoved := tokenizeFrom_add start 0 (cs ++ [';'])
    rw [← hlexemes, List.map_append, Nat.add_zero] at hmoved
    exact hmoved

/-- A closed text is a piece in front of every stop. -/
theorem exists_piece_of_isClosed {cs : List Char} (h : isClosed cs = true) :
    ∃ ts, forest (cs ++ [';']) = ts ++ [leaf (semicolonAt cs.length)] ∧ Piece Stopped cs ts := by
  unfold isClosed at h
  split at h
  · rename_i l us hforest
    rw [Bool.and_eq_true, beq_iff_eq, List.all_eq_true] at h
    obtain ⟨rfl, hstray⟩ := h
    have hts : forest (cs ++ [';']) = us.reverse ++ [leaf (semicolonAt cs.length)] := by
      rw [← List.reverse_reverse (forest _), hforest, List.reverse_cons]
    refine ⟨us.reverse, hts, Piece.of_forest hts ?_⟩
    intro t ht
    simpa using hstray t (List.mem_reverse.1 ht)
  · cases h

/-- A piece in front of every stop has a semicolon behind it for itself. -/
theorem Piece.forest_semicolon {cs : List Char} {ts : List TokenTree} (h : Piece Stopped cs ts) :
    forest (cs ++ [';']) = ts ++ [leaf (semicolonAt cs.length)] :=
  (h.append Piece.semicolon fun _ _ => rfl).forest_eq trivial

/-- A piece in front of every stop is a closed text. -/
theorem Piece.isClosed {cs : List Char} {ts : List TokenTree} (h : Piece Stopped cs ts) :
    isClosed cs = true := by
  rw [CssPruning.isClosed, h.forest_semicolon, List.reverse_concat]
  simp only [beq_self_eq_true, Bool.true_and, List.all_eq_true, Bool.not_eq_true']
  intro t ht
  have hcloses := (allWhole_iff.1 h.whole t (List.mem_reverse.1 ht)).2
  cases t with
  | leaf l => simpa [isStray, Closes] using hcloses
  | block => rfl

end CssPruning
