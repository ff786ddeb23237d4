import CssPruning.Proofs.Sheet.Simple
import CssPruning.Proofs.Value.Uncommented

/-!
# The value of a declaration

The value of a declaration is read from the statement's text, which leaves out the
comments outside of brackets and puts the rest together, and not from the trees of
the statement.  So what a declaration says of a text is what the text says on its own
without these comments (`Sheet.exists_value_of_parse`): they are cut out, and do not
part what they stand between.

That the sheet was read says much about the text of the value: every block in it is
closed there, and the closing bracket behind it is the one that the sheet puts there
(`forest_ruleText`).
-/

set_option autoImplicit false

namespace CssPruning

open Token TokenTree Sheet

/-! ## Texts in a block -/

/-- The first closing bracket behind a text without one is at the end. -/
theorem eq_tokenizeFrom_of_closing {start : Nat} {cs : List Char} {ls ls' : List Lexeme}
    {l : Lexeme} (hcs : '\x7d' ∉ cs) (h : tokenizeFrom start (cs ++ ['\x7d']) = ls ++ l :: ls')
    (hl : l.token = .closing .curly) : ls = tokenizeFrom start cs ∧ ls' = [] := by
  have hmem : l ∈ tokenizeFrom start (cs ++ ['\x7d']) := by rw [h]; simp
  have hsource : l.source = ['\x7d'] := source_eq_of_mem_tokenizeFrom hmem hl
  have hchars := flatMap_source_tokenizeFrom start (cs ++ ['\x7d'])
  rw [h, List.flatMap_append, List.flatMap_cons, hsource, List.singleton_append] at hchars
  obtain ⟨hfront, hback⟩ : ls.flatMap Lexeme.source = cs ∧ ls'.flatMap Lexeme.source = [] := by
    rcases List.append_eq_append_iff.1 hchars with ⟨ds, hds, hback⟩ | ⟨ds, hds, hback⟩
    · cases ds with
      | nil => exact ⟨by simpa using hds.symm, (List.cons.inj hback).2⟩
      | cons d ds =>
        obtain ⟨rfl, -⟩ := List.cons.inj hback
        exact absurd (by rw [hds]; simp) hcs
    · cases ds with
      | nil => exact ⟨by simpa using hds, ((List.cons.inj hback).2).symm⟩
      | cons d ds => simp at hback
  have hnil : ls' = [] := by
    rw [List.flatMap_eq_nil_iff] at hback
    rw [List.eq_nil_iff_forall_not_mem]
    intro m hm
    have hm' : m ∈ tokenizeFrom start (cs ++ ['\x7d']) := by
      rw [h]
      exact List.mem_append_right _ (List.mem_cons_of_mem _ hm)
    exact source_ne_nil_of_mem_tokenizeFrom hm' (hback m hm)
  refine ⟨?_, hnil⟩
  have hstart := start_eq_of_tokenizeFrom h
  rw [hfront] at hstart
  obtain ⟨token, source, place⟩ := l
  obtain rfl : token = single '\x7d' := hl
  obtain rfl : source = ['\x7d'] := hsource
  obtain rfl : place = start + cs.length := hstart
  rw [hnil] at h
  have happend : tokenizeFrom start (cs ++ []) = ls ++ tokenizeFrom (start + cs.length) [] :=
    tokenizeFrom_append rfl h rfl
  rw [List.append_nil, tokenizeFrom_nil, List.append_nil] at happend
  exact happend.symm

/-- Whole trees of lexemes of a text, wherever it starts, are the trees of the text. -/
theorem eq_allMoved_forest {b : Bracket} {start : Nat} {cs : List Char} {ts : List TokenTree}
    (hwhole : AllWhole b ts) (h : allLexemes ts = tokenizeFrom start cs) :
    ts = allMoved start (forest cs) ∧ AllWhole b (forest cs) := by
  have hlexemes : tokenizeFrom start cs = (tokenize cs).map (Lexeme.moved start) :=
    tokenizeFrom_add start 0 cs
  have hts : ts = mapAll (Lexeme.moved start) (forest cs) := by
    rw [← group_nil_allLexemes hwhole, h, hlexemes]
    exact group_map (Lexeme.token_moved start) [] [] (tokenize cs)
  refine ⟨by rw [hts, allMoved_eq_mapAll], ?_⟩
  rwa [hts, allWhole_mapAll_iff (Lexeme.token_moved start)] at hwhole

/-- A forest that spells nodes is whole. -/
theorem whole_of_reads {cs : List Char} {ns : List Node} (h : Reads none (forest cs) ns) :
    ∀ t ∈ forest cs, Whole t := by
  have hgood : Good [] [] := List.forall_mem_nil _
  rcases finished_group hgood (tokenize cs) with hwhole | ⟨us, opener, contents, hopen⟩
  · exact hwhole
  · -- the last block would not be shut
    have hmem : block opener contents none ∈ forest cs := by
      rw [forest, hopen]
      exact List.mem_append_right _ (List.mem_singleton_self _)
    have hshut := h.isShut.1 _ hmem
    cases hshut

/-- The token of a single character is read from that character of the text. -/
theorem source_eq_of_mem_forest (c : Char) {cs : List Char} {t : TokenTree} {l : Lexeme}
    (ht : t ∈ forest cs) (hl : l ∈ t.lexemes) (htoken : l.token = single c) :
    l.source = [c] ∧ c ∈ cs := by
  have hmem : l ∈ tokenize cs := by
    rw [← lexemes_forest, allLexemes_eq_flatMap]
    exact List.mem_flatMap_of_mem ht hl
  have hsource : l.source = [c] := source_eq_of_mem_tokenizeFrom hmem htoken
  refine ⟨hsource, ?_⟩
  rw [← flatMap_source_tokenize cs]
  exact List.mem_flatMap_of_mem hmem (by simp [hsource])

/-- No tree of a text without semicolons and opening brackets ends a statement. -/
theorem goesOn_of_mem_forest {cs : List Char} {t : TokenTree} (hsemicolon : ';' ∉ cs)
    (hopening : '\x7b' ∉ cs) (ht : t ∈ forest cs) : GoesOn t := by
  cases t with
  | leaf l =>
    exact fun htoken =>
      hsemicolon (source_eq_of_mem_forest ';' ht (List.mem_singleton_self l) htoken).2
  | block opener contents closer =>
    exact fun htoken =>
      hopening (source_eq_of_mem_forest '\x7b' ht List.mem_cons_self htoken).2

/-! ## A rule with one declaration -/

/-- A rule with one declaration in its block, for which the text of a value is given. -/
def ruleText (selector property cs : List Char) : List Char :=
  selector ++ '\x7b' :: (property ++ ':' :: (cs ++ ['\x7d']))

section

variable {selector property cs : List Char} (hselector : isWord selector = true)
  (hproperty : isWord property = true)

include hselector hproperty

theorem tokenize_ruleText : tokenize (ruleText selector property cs) =
    ⟨.ident (String.ofList selector), selector, 0⟩ ::
    ⟨.opening .curly, ['\x7b'], selector.length⟩ ::
    ⟨.ident (String.ofList property), property, selector.length + 1⟩ ::
    ⟨.colon, [':'], selector.length + 1 + property.length⟩ ::
    tokenizeFrom (selector.length + 1 + property.length + 1) (cs ++ ['\x7d']) := by
  have hfront := (Piece.word hselector).tokens 0 ('\x7b' :: (property ++ ':' :: (cs ++ ['\x7d'])))
    (breaks_cons (by decide) _)
  have hname := (Piece.word hproperty).tokens (selector.length + 1) (':' :: (cs ++ ['\x7d']))
    (breaks_cons (by decide) _)
  have hcolon := (Piece.mark (c := ':') (by decide)).tokens
    (selector.length + 1 + property.length) (cs ++ ['\x7d']) trivial
  rw [List.singleton_append] at hcolon
  rw [tokenize, ruleText, hfront, Nat.zero_add, tokenizeFrom_of_isStop rfl, hname, hcolon]
  rfl

/-- The forest of the rule is the selector and a block around the trees of the value. -/
theorem forest_ruleText (hcs : '\x7d' ∉ cs)
    (hwhole : ∀ t ∈ forest (ruleText selector property cs), Whole t) :
    AllWhole .curly (forest cs) ∧ ∃ closer, forest (ruleText selector property cs) =
      [leaf ⟨.ident (String.ofList selector), selector, 0⟩,
        block ⟨.opening .curly, ['\x7b'], selector.length⟩
          (leaf ⟨.ident (String.ofList property), property, selector.length + 1⟩ ::
            leaf ⟨.colon, [':'], selector.length + 1 + property.length⟩ ::
            allMoved (selector.length + 1 + property.length + 1) (forest cs)) (some closer)] := by
  have hlexemes := lexemes_forest (ruleText selector property cs)
  rw [tokenize_ruleText hselector hproperty] at hlexemes
  generalize selector.length + 1 + property.length = k at hlexemes ⊢
  obtain ⟨us, hforest, hlexemes⟩ := exists_eq_leaf_cons hwhole hlexemes rfl
  rw [hforest, List.forall_mem_cons] at hwhole
  obtain ⟨contents, closer, vs, rfl, hcontents, hcloser, hlexemes⟩ :=
    exists_eq_block_cons hwhole.2 hlexemes rfl
  -- the name and the colon are in the block, for they close nothing
  obtain ⟨ls, hls⟩ : ∃ ls, allLexemes contents =
      ⟨.ident (String.ofList property), property, selector.length + 1⟩ ::
      ⟨.colon, [':'], k⟩ :: ls := by
    cases hc : allLexemes contents with
    | nil =>
      rw [hc, List.nil_append, List.cons.injEq] at hlexemes
      rw [hlexemes.1] at hcloser
      cases hcloser
    | cons m ms =>
      rw [hc, List.cons_append, List.cons.injEq] at hlexemes
      cases ms with
      | nil =>
        rw [List.nil_append, List.cons.injEq] at hlexemes
        rw [hlexemes.2.1] at hcloser
        cases hcloser
      | cons m' ms =>
        rw [List.cons_append, List.cons.injEq] at hlexemes
        exact ⟨ms, by rw [hlexemes.1, hlexemes.2.1]⟩
  rw [hls, List.cons_append, List.cons_append, List.cons.injEq, List.cons.injEq] at hlexemes
  obtain ⟨hvalue, hvs⟩ := eq_tokenizeFrom_of_closing hcs hlexemes.2.2.symm hcloser
  have hinner : ∀ t ∈ contents, Whole t := fun t ht => (allWhole_iff.1 hcontents t ht).1
  obtain ⟨us, rfl, hus⟩ := exists_eq_leaf_cons hinner hls rfl
  obtain ⟨us, rfl, rfl⟩ := exists_eq_leaf_cons (List.forall_mem_cons.1 hinner).2 hus rfl
  obtain ⟨hus, hvalueWhole⟩ := eq_allMoved_forest hcontents.2.2.2.2 hvalue
  refine ⟨hvalueWhole, closer, ?_⟩
  rw [hforest, allLexemes_eq_nil_iff.1 hvs, hus]

end

/-- The value of a declaration without a mark of importance. -/
theorem declaration_read_eq_ok {property cs : List Char} {start : Nat} {d : Declaration}
    (hproperty : isWord property = true) (hcs : '!' ∉ cs)
    (h : Declaration.read property cs start = .ok d) :
    ∃ v, Value.read cs = .ok v ∧ d = ⟨String.ofList property, v, false⟩ := by
  unfold Declaration.read at h
  split at h
  · cases h
  · rename_i v hv
    have hbang : Component.raw "!" ∉ v := fun hraw =>
      hcs (Value.mem_of_raw_mem_read hv hraw (by decide))
    rw [Value.beforeImportant_eq_none hbang] at h
    cases h
    exact ⟨v, hv, by rw [Text.trim_eq_self (flush_of_isWord hproperty)]⟩

/-- A statement of a word, a colon and the trees of a text is read as a declaration, the
value of which is read from the text without its comments. -/
theorem close_wordColon {cs : List Char} {k : Nat} {l l' : Lexeme} {name : String}
    {start : Nat} {node : Option Node} (hcs : '!' ∉ cs) (hwhole : AllWhole .curly (forest cs))
    (hl : l.token = .ident name) (hproperty : isWord l.source = true) (hcolon : l'.token = .colon)
    (h : (Pending.mk (.plain start)
      (leaf l :: leaf l' :: allMoved k (forest cs)).reverse).close = .ok node) :
    ∃ v, node = some (.declaration ⟨String.ofList l.source, v, false⟩) ∧
      Value.read (withoutComments cs) = .ok v := by
  obtain ⟨phrase, hphrase⟩ : ∃ phrase, Phrase.ofTrees (allMoved k (forest cs)) = .ok phrase := by
    obtain ⟨p, hp, -⟩ := bind_eq_ok h
    rw [List.reverse_reverse, Phrase.ofTrees, hl] at hp
    obtain ⟨q, hq, -⟩ := map_eq_ok hp
    rw [Phrase.ofTrees, hcolon] at hq
    obtain ⟨phrase, hphrase, -⟩ := map_eq_ok hq
    exact ⟨phrase, hphrase⟩
  have htext : phrase.text = withoutComments cs := by
    rw [text_of_ofTrees hphrase, flatMap_source_uncommented_allMoved]
    · rfl
    · exact fun t ht => (allWhole_iff.1 (allWhole_allMoved hwhole) t ht).2
    · intro l hl htoken
      obtain ⟨t, ht, hmoved⟩ := mem_allMoved_iff.1 hl
      cases t with
      | leaf l =>
        cases hmoved
        exact (source_eq_of_mem_forest ':' ht (List.mem_singleton_self l) htoken).1
      | block => cases hmoved
  rw [Node.close_declaration start (Node.ofTrees_word_colon hl hcolon hphrase) hproperty,
    htext] at h
  obtain ⟨d, hd, rfl⟩ := map_eq_ok h
  have hbang : '!' ∉ withoutComments cs := fun hmem => hcs (mem_of_mem_withoutComments hmem)
  obtain ⟨v, hv, rfl⟩ := declaration_read_eq_ok hproperty hbang hd
  exact ⟨v, rfl, hv⟩

theorem goesOn_moved {k : Nat} {t : TokenTree} (h : GoesOn t) : GoesOn (moved k t) := by
  cases t <;> exact h

theorem isShut_moved (k : Nat) (t : TokenTree) : (moved k t).isShut = t.isShut := by
  cases t with
  | leaf l => rfl
  | block opener contents closer => cases closer <;> rfl

/-- What is read from a word, a colon and the trees of a text: a declaration, the value
of which is that of the text without its comments. -/
theorem exists_value_of_reads {cs : List Char} {k : Nat} {l l' : Lexeme} {name : String}
    {ns : List Node} (hsemicolon : ';' ∉ cs) (hopening : '\x7b' ∉ cs) (hbang : '!' ∉ cs)
    (hwhole : AllWhole .curly (forest cs)) (hl : l.token = .ident name)
    (hproperty : isWord l.source = true) (hcolon : l'.token = .colon)
    (h : Reads none (leaf l :: leaf l' :: allMoved k (forest cs)) ns) :
    ∃ v, ns = [.declaration ⟨String.ofList l.source, v, false⟩] ∧
      Value.read (withoutComments cs) = .ok v := by
  have hgoes : ∀ t ∈ leaf l' :: allMoved k (forest cs), GoesOn t := by
    refine List.forall_mem_cons.2 ⟨?_, fun t ht => ?_⟩
    · rw [GoesOn, hcolon]
      exact Token.noConfusion
    · obtain ⟨t', ht', rfl⟩ := mem_allMoved_iff.1 ht
      exact goesOn_moved (goesOn_of_mem_forest hsemicolon hopening ht')
  cases h with
  | plain _ h =>
    obtain ⟨node, hclose, rfl⟩ := Reads.close_of_goesOn hgoes h
    rw [← List.reverse_cons] at hclose
    obtain ⟨v, rfl, hv⟩ := close_wordColon hbang hwhole hl hproperty hcolon hclose
    exact ⟨v, rfl, hv⟩
  | gap hgap => rw [hl] at hgap; cases hgap
  | comment htoken => rw [hl] at htoken; cases htoken
  | atRule htoken => rw [hl] at htoken; cases htoken

/-- What is read from a rule with one declaration. -/
theorem exists_value_of_read {selector property cs : List Char} {ns : List Node}
    (hselector : isWord selector = true) (hproperty : isWord property = true)
    (hcs : ∀ c ∈ [';', '\x7b', '\x7d', '!'], c ∉ cs)
    (h : Sheet.read (ruleText selector property cs) = .ok ns) :
    AllWhole .curly (forest cs) ∧ (∀ t ∈ forest cs, t.isShut = true) ∧
      ∃ v, ns = [.rule (String.ofList selector)
        [.declaration ⟨String.ofList property, v, false⟩]] ∧
        Value.read (withoutComments cs) = .ok v := by
  simp only [List.forall_mem_cons] at hcs
  obtain ⟨hsemicolon, hopening, hclosing, hbang, -⟩ := hcs
  rw [Sheet.read, readTrees_eq_ok_iff] at h
  obtain ⟨hwhole, closer, hforest⟩ :=
    forest_ruleText hselector hproperty hclosing (whole_of_reads h)
  rw [hforest] at h
  -- the selector begins a statement, and the block ends it
  cases h with
  | plain _ h =>
    cases h with
    | brackets hne => exact absurd rfl hne
    | block _ hphrase hcontents hrest =>
      cases hrest
      refine ⟨hwhole, ?_, ?_⟩
      · intro t ht
        rw [← isShut_moved (selector.length + 1 + property.length + 1) t]
        refine hcontents.isShut.1 _ (List.mem_cons_of_mem _ (List.mem_cons_of_mem _ ?_))
        exact mem_allMoved_iff.2 ⟨t, ht, rfl⟩
      · obtain ⟨v, rfl, hv⟩ := exists_value_of_reads hsemicolon hopening hbang hwhole rfl hproperty
          rfl hcontents
        obtain rfl := Except.ok.inj hphrase
        have htext : (Phrase.behind selector ⟨[], none⟩).text = selector := List.append_nil _
        refine ⟨v, ?_, hv⟩
        simp only [pendingAt, Option.getD_some, Pending.withBlock, htext,
          Text.trim_eq_self (flush_of_isWord hselector)]
  | gap hgap => cases hgap
  | comment htoken => cases htoken
  | atRule htoken => cases htoken

/-- A rule with a text as the value of its one declaration is read as such, and the value
is that of the text without the comments outside of its brackets.  That is the value of
the text itself if the comments keep no lexemes apart, which the lexemes right in front
of them tell. -/
theorem Sheet.exists_value_of_parse {text : String} {s : Sheet}
    (htext : ∀ c ∈ [';', '\x7b', '\x7d', '!'], c ∉ text.toList)
    (h : Sheet.parse ("p\x7bx:" ++ text ++ "\x7d") = .ok s) :
    ∃ v, s = [.rule "p" [.declaration ⟨"x", v, false⟩]] ∧
      Value.parse (String.ofList (withoutComments text.toList)) = .ok v ∧
      (KeepsLexemes text.toList ↔ Unjoined (forest text.toList)) ∧
      (KeepsLexemes text.toList → Value.parse text = .ok v) := by
  have hrule : ("p\x7bx:" ++ text ++ "\x7d").toList = ruleText ['p'] ['x'] text.toList := by
    rw [String.toList_append, String.toList_append]
    rfl
  rw [Sheet.parse_eq_ok_iff, hrule] at h
  obtain ⟨hwhole, hshut, v, hs, hv⟩ := exists_value_of_read rfl rfl htext h
  have hbang : '!' ∉ text.toList := htext '!' (by simp)
  refine ⟨v, hs, ?_, ?_, ?_⟩
  · rwa [Value.parse_eq_ok_iff, String.toList_ofList]
  · exact keepsLexemes_iff (fun t ht => (allWhole_iff.1 hwhole t ht).1) hbang
  · intro hkeeps
    rw [Value.parse_eq_ok_iff]
    exact Value.read_withoutComments hshut hwhole hkeeps hv

/-- A comment in front of a comma, or in brackets, keeps nothing apart. -/
theorem Sheet.exists_value_of_parse_beforeComma :
    (∀ c ∈ [';', '\x7b', '\x7d', '!'], c ∉ "a/**/,b(c/**/d)".toList) ∧
      ∃ v, Sheet.parse ("p\x7bx:" ++ "a/**/,b(c/**/d)" ++ "\x7d") =
          .ok [.rule "p" [.declaration ⟨"x", v, false⟩]] ∧
        Value.parse "a/**/,b(c/**/d)" = .ok v := by
  have htext : ∀ c ∈ [';', '\x7b', '\x7d', '!'], c ∉ "a/**/,b(c/**/d)".toList := by simp
  obtain ⟨s, hs⟩ := Sheet.exists_parse_eq_ok
    (show (Sheet.parse ("p\x7bx:" ++ "a/**/,b(c/**/d)" ++ "\x7d")).isOk = true by decide +kernel)
  obtain ⟨v, rfl, -, -, hv⟩ := Sheet.exists_value_of_parse htext hs
  exact ⟨htext, v, hs, hv (by decide +kernel)⟩

/-- The comment of `a/**/b` keeps two names apart in a value, and none in the value of a
declaration. -/
theorem Sheet.parse_joins_behindComment :
    (∀ c ∈ [';', '\x7b', '\x7d', '!', '\\'], c ∉ "a/**/b".toList) ∧
      Value.parse "a/**/b" = .ok [.ident "a", .ident "b"] ∧
      Sheet.parse ("p\x7bx:" ++ "a/**/b" ++ "\x7d") =
        .ok [.rule "p" [.declaration ⟨"x", [.ident "ab"], false⟩]] := by
  have htokens : tokenize "a/**/b".toList = [⟨.ident "a", ['a'], 0⟩,
      ⟨.comment "", ['/', '*', '*', '/'], 1⟩, ⟨.ident "b", ['b'], 5⟩] := by decide +kernel
  have hjoined : tokenize (withoutComments "a/**/b".toList) = [⟨.ident "ab", ['a', 'b'], 0⟩] := by
    decide +kernel
  have hrule : ("p\x7bx:" ++ "a/**/b" ++ "\x7d").toList =
      ruleText ['p'] ['x'] "a/**/b".toList := by decide +kernel
  refine ⟨by simp, ?_, ?_⟩
  · rw [Value.parse_eq_ok_iff, Value.read, forest, htokens]
    rfl
  · obtain ⟨s, hs⟩ := Sheet.exists_parse_eq_ok
      (show (Sheet.parse ("p\x7bx:" ++ "a/**/b" ++ "\x7d")).isOk = true by decide +kernel)
    rw [hs]
    rw [Sheet.parse_eq_ok_iff, hrule] at hs
    obtain ⟨-, -, v, rfl, hv⟩ := exists_value_of_read rfl rfl (by simp) hs
    rw [Value.read, forest, hjoined] at hv
    cases hv
    rfl

end CssPruning
