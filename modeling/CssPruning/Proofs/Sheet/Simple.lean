import CssPruning.Proofs.Sheet.RoundTrip
import CssPruning.Proofs.Value.Simple

/-!
# Simple sheets are read as they were written

A sheet is simple if it has no raw texts, and its preludes are names with single
spaces between them, its at-rules have names, its declarations have words and simple
values, and its comments have no closing mark in them (`Sheet.Simple`).  The nodes of
such a sheet are legible (`Node.Simple.legible`), and their texts change in no way
when they are written.  So a simple sheet is read from its text as it is
(`Sheet.parse_write_of_simple`).

A declaration is the node that is read twice, as a statement and then, behind its
colon, as a value.
-/

set_option autoImplicit false

namespace CssPruning

open Token TokenTree Sheet Text

/-! ## Trees that end no statement -/

namespace Sheet

theorem goesOn_of_inner {t : TokenTree} (h : Inner t) : GoesOn t := by
  cases h with
  | leaf hpart _ =>
    intro htoken
    rw [htoken] at hpart
    cases hpart
  | function hopener _ _ =>
    intro htoken
    rw [hopener] at htoken
    cases htoken

/-- The trees of a statement, in front of what ends it. -/
theorem Reads.of_goesOn {opening : Opening} {trees ts us : List TokenTree} {ns : List Node}
    (hts : ∀ t ∈ ts, GoesOn t) (h : Reads (some ⟨opening, ts.reverse ++ trees⟩) us ns) :
    Reads (some ⟨opening, trees⟩) (ts ++ us) ns := by
  rw [← readTrees_eq_ok_iff, readTrees_append_of_goesOn hts]
  exact h.readTrees_eq

/-- A statement that nothing ends but the end of the text. -/
theorem Reads.close_of_goesOn {opening : Opening} {trees ts : List TokenTree} {ns : List Node}
    (hts : ∀ t ∈ ts, GoesOn t) (h : Reads (some ⟨opening, trees⟩) ts ns) :
    ∃ node, (Pending.mk opening (ts.reverse ++ trees)).close = .ok node ∧ ns = node.toList := by
  induction ts generalizing trees with
  | nil =>
    cases h with
    | finish hclose => exact ⟨_, hclose, rfl⟩
  | cons t ts ih =>
    rw [List.forall_mem_cons] at hts
    rw [List.reverse_cons, List.append_assoc, List.singleton_append]
    cases h with
    | stop htoken => exact absurd htoken hts.1
    | more _ h => exact ih hts.2 h
    | block hopener => exact absurd hopener hts.1
    | brackets _ h => exact ih hts.2 h

/-- A plain statement, from its first tree on. -/
theorem Reads.of_plain {l : Lexeme} {ts us : List TokenTree} {ns : List Node}
    (hl : beginsPlain l.token = true) (hts : ∀ t ∈ ts, GoesOn t)
    (h : Reads (some ⟨.plain l.start, (leaf l :: ts).reverse⟩) us ns) :
    Reads none (leaf l :: ts ++ us) ns := by
  rw [List.reverse_cons] at h
  exact .plain hl (Reads.of_goesOn hts h)

/-- A statement that spells one node, with its semicolon. -/
theorem Reads.of_close {p : Pending} {l : Lexeme} {n : Node} (hl : l.token = .semicolon)
    (h : p.close = .ok (some n)) : Reads (some p) [leaf l] [n] := by
  have hstop := Reads.stop hl h Reads.done
  rwa [Option.toList_some, List.append_nil] at hstop

/-- A statement that ends in an empty block. -/
theorem Reads.of_emptyBlock {p : Pending} {opener closer : Lexeme} {phrase : Phrase}
    (hopener : opener.token = .opening .curly) (h : Phrase.ofTrees p.trees.reverse = .ok phrase) :
    Reads (some p) [.block opener [] (some closer)] [Pending.withBlock p.opening phrase []] := by
  have hpending : pendingAt (some p) opener = p := rfl
  rw [← hpending] at h ⊢
  exact .block hopener h .done .done

/-- A piece that spells one node with a semicolon behind it is closed, and is read as
the node. -/
theorem read_semicolon {cs : List Char} {ts : List TokenTree} {n : Node}
    (hpiece : Piece Stopped cs ts) (h : Reads none (ts ++ [leaf (semicolonAt cs.length)]) [n]) :
    isClosed cs = true ∧ read (cs ++ [';']) = .ok [n] := by
  refine ⟨hpiece.isClosed, ?_⟩
  rw [read, hpiece.forest_semicolon, readTrees_eq_ok_iff]
  exact h

/-- A piece that spells one node with an empty block behind it is closed, and is read
as the node. -/
theorem read_emptyBlock {cs : List Char} {ts : List TokenTree} {n : Node}
    (hpiece : Piece Stopped cs ts)
    (h : ∀ opener closer : Lexeme, opener.token = .opening .curly →
      Reads none (ts ++ [block opener [] (some closer)]) [n]) :
    isClosed cs = true ∧ read (cs ++ ['\x7b', '\x7d']) = .ok [n] := by
  have hnil : Piece Stopped [] [] := Piece.nil
  have hforest := (hpiece.curly hnil).forest_eq trivial
  have htext : cs ++ '\x7b' :: [] ++ ['\x7d'] = cs ++ ['\x7b', '\x7d'] := by simp
  rw [htext] at hforest
  refine ⟨hpiece.isClosed, ?_⟩
  rw [read, hforest, readTrees_eq_ok_iff]
  exact h _ _ rfl

end Sheet

/-! ## Names in a row -/

/-- One or more names with single spaces between them. -/
def Text.IsNames (s : String) : Prop :=
  ∃ ws : List (List Char), ws ≠ [] ∧ (∀ w ∈ ws, isSimpleName w = true) ∧
    s.toList = [' '].intercalate ws

theorem Text.IsWord.of_isSimpleName {w : List Char} (h : isSimpleName w = true) : IsWord w := by
  have hword := isWord_of_isSimpleName h
  exact ⟨isWord_ne_nil hword, fun c hc => isBlank_of_isWordChar (isWordChar_of_mem_word hword c hc)⟩

/-- Names in a row are a piece that begins with the first of them. -/
theorem exists_piece_names {ws : List (List Char)} (hne : ws ≠ [])
    (h : ∀ w ∈ ws, isSimpleName w = true) :
    ∃ l ts, Piece Breaks ([' '].intercalate ws) (leaf l :: ts) ∧ beginsPlain l.token = true ∧
      AllInner (leaf l :: ts) := by
  induction ws with
  | nil => exact absurd rfl hne
  | cons w ws ih =>
    rw [List.forall_mem_cons] at h
    have hword := Piece.word (isWord_of_isSimpleName h.1)
    have hinner : Inner (leaf ⟨.ident (String.ofList w), w, 0⟩) :=
      .of_leaf rfl fun _ => Token.noConfusion
    cases ws with
    | nil =>
      have hone : [' '].intercalate [w] = w := by simp [List.intercalate]
      rw [hone]
      exact ⟨_, _, hword, rfl, List.forall_mem_singleton.2 hinner⟩
    | cons v ws =>
      have hspace : [' '].intercalate (w :: v :: ws) = w ++ [' '] ++ [' '].intercalate (v :: ws) := by
        simp [List.intercalate]
      obtain ⟨l, ts, hpiece, -, hts⟩ := ih (List.cons_ne_nil _ _) h.2
      have hrest := flush_intercalate fun w hw => IsWord.of_isSimpleName (h.2 w hw)
      have hfront := hword.append Piece.space fun ds _ => breaks_cons (by decide) ds
      have hblank : Inner (leaf ⟨.blank, [' '], 0⟩) :=
        .of_leaf rfl fun _ => Token.noConfusion
      rw [hspace]
      refine ⟨_, _, hfront.append hpiece fun ds _ =>
        solid_append hrest.1 (hrest.2 (List.cons_ne_nil _ _)) ds, rfl, ?_⟩
      refine List.forall_mem_cons.2 ⟨hinner, ?_⟩
      exact allInner_append.2
        ⟨AllInner.allMoved (List.forall_mem_singleton.2 hblank) _, hts.allMoved _⟩

namespace Text.IsNames

variable {s : String}

theorem flush (h : IsNames s) : Flush s.toList ∧ s.toList ≠ [] := by
  obtain ⟨ws, hne, hws, hs⟩ := h
  rw [hs]
  have hwords := flush_intercalate fun w hw => IsWord.of_isSimpleName (hws w hw)
  exact ⟨hwords.1, hwords.2 hne⟩

theorem exists_piece (h : IsNames s) :
    ∃ l ts, Piece Breaks s.toList (leaf l :: ts) ∧ beginsPlain l.token = true ∧
      AllInner (leaf l :: ts) := by
  obtain ⟨ws, hne, hws, hs⟩ := h
  rw [hs]
  exact exists_piece_names hne hws

theorem collapse_eq (h : IsNames s) : collapse s.toList = s.toList := by
  obtain ⟨ws, -, hws, hs⟩ := h
  rw [hs, collapse_intercalate fun w hw => IsWord.of_isSimpleName (hws w hw)]

theorem canonicalPrelude_eq (h : IsNames s) : AtRule.canonicalPrelude s = s := by
  rw [AtRule.canonicalPrelude, h.collapse_eq, String.ofList_toList]

end Text.IsNames

/-! ## Simple nodes -/

/-- What the node itself says is simple, whatever is in its block. -/
def Node.Simple : Node → Prop
  | .rule selector _ => Text.IsNames selector
  | .atRule name prelude _ => isSimpleName name.toList = true ∧ ∀ p ∈ prelude, Text.IsNames p
  | .declaration d => isWord d.property.toList = true ∧ d.value.Simple
  | .comment text => ¬ ['*', '/'] <:+: text.toList
  | .raw _ => False

/-- All nodes of the sheet are simple, at any depth. -/
def Sheet.Simple (s : Sheet) : Prop := ∀ n ∈ Node.allSubnodes s, n.Simple

namespace Node

/-! ## Rules and at-rules -/

theorem legible_rule {selector : String} {children : List Node} (h : Text.IsNames selector) :
    (rule selector children).Legible := by
  obtain ⟨l, ts, hpiece, hl, hinner⟩ := h.exists_piece
  have htrim : (rule selector children).leadChars = selector.toList := trim_eq_self h.flush.1
  have hphrase := hinner.ofTrees
  rw [hpiece.flatMap_source fun _ hc => nomatch hc] at hphrase
  have hnode : Pending.withBlock (.plain l.start) ⟨selector.toList, none⟩ [] = rule selector [] := by
    rw [Pending.withBlock, Phrase.text, trim_eq_self h.flush.1, String.ofList_toList]
  change isClosed (rule selector children).leadChars = true ∧
    Sheet.read ((rule selector children).leadChars ++ ['\x7b', '\x7d']) = .ok [rule selector []]
  rw [htrim, ← hnode]
  refine read_emptyBlock (hpiece.mono fun _ => Stopped.breaks) fun opener closer hopener => ?_
  refine Reads.of_plain hl (fun t ht => goesOn_of_inner (hinner t (List.mem_cons_of_mem _ ht))) ?_
  refine Reads.of_emptyBlock hopener ?_
  rw [List.reverse_reverse]
  exact hphrase

/-- The text of an at-rule's head is the name and, if there is a prelude, a space and
the prelude. -/
theorem headChars_eq {name : String} {prelude : Option String}
    (h : ∀ p ∈ prelude, Text.IsNames p) (block : Option (List Node)) :
    (AtRule.mk name prelude block).headChars =
      '@' :: name.toList ++ (match prelude with | some p => ' ' :: p.toList | none => []) := by
  cases prelude with
  | none => rfl
  | some p =>
    have hp := h p rfl
    have htrim : Text.trimmed p = p := by
      rw [Text.trimmed, trim_eq_self hp.flush.1, String.ofList_toList]
    have hne : p ≠ "" := fun hnil => hp.flush.2 (by rw [hnil]; rfl)
    have htext : (AtRule.mk name (some p) block).preludeText = some p := by
      simp [AtRule.preludeText, htrim, hne]
    rw [AtRule.headChars, htext]
    simp only [hp.collapse_eq]

/-- The head of an at-rule is a name, and trees that are read as its prelude. -/
theorem exists_piece_head {name : String} {prelude : Option String}
    (hname : isSimpleName name.toList = true) (h : ∀ p ∈ prelude, Text.IsNames p) :
    ∃ l ts phrase, Piece Breaks (AtRule.mk name prelude none).headChars (leaf l :: ts) ∧
      l.token = .atKeyword name ∧ AllInner ts ∧ Phrase.ofTrees ts = .ok phrase ∧
      Pending.prelude phrase = prelude := by
  have hat := Piece.atKeyword hname
  rw [String.ofList_toList] at hat
  rw [headChars_eq h]
  cases prelude with
  | none =>
    rw [List.append_nil]
    exact ⟨_, [], _, hat, rfl, List.forall_mem_nil _, rfl, rfl⟩
  | some p =>
    have hp := h p rfl
    obtain ⟨l, ts, hpiece, -, hinner⟩ := hp.exists_piece
    have hrest := Piece.space.append hpiece fun ds _ => solid_append hp.flush.1 hp.flush.2 ds
    have hhead := hat.append hrest fun ds _ => breaks_cons (by decide) _
    have hall : AllInner ([leaf ⟨.blank, [' '], 0⟩] ++ allMoved [' '].length (leaf l :: ts)) := by
      refine allInner_append.2 ⟨List.forall_mem_singleton.2 ?_, hinner.allMoved _⟩
      exact .of_leaf rfl fun _ => Token.noConfusion
    have hphrase := hall.ofTrees
    rw [hrest.flatMap_source fun _ hc => nomatch hc] at hphrase
    have hprelude : Pending.prelude ⟨' ' :: p.toList, none⟩ = some p := by
      have htrim : trim (' ' :: p.toList) = p.toList := by
        rw [trim_cons_space, trim_eq_self hp.flush.1]
      rw [Pending.prelude, Phrase.text]
      simp [htrim, hp.flush.2]
    exact ⟨_, _, _, hhead, rfl, hall.allMoved _, ofTrees_allMoved _ hphrase, hprelude⟩

theorem map_canonicalPrelude {prelude : Option String} (h : ∀ p ∈ prelude, Text.IsNames p) :
    prelude.map AtRule.canonicalPrelude = prelude := by
  cases prelude with
  | none => rfl
  | some p => rw [Option.map_some, (h p rfl).canonicalPrelude_eq]

theorem legible_atRule {name : String} {prelude : Option String} {block : Option (List Node)}
    (hname : isSimpleName name.toList = true) (h : ∀ p ∈ prelude, Text.IsNames p) :
    (atRule name prelude block).Legible := by
  obtain ⟨l, ts, phrase, hpiece, hl, hinner, hphrase, hprelude⟩ := exists_piece_head hname h
  have hstopped := hpiece.mono fun _ => Stopped.breaks
  have hgoes : ∀ t ∈ ts, GoesOn t := fun t ht => goesOn_of_inner (hinner t ht)
  have hphrase' : Phrase.ofTrees (ts.reverse ++ []).reverse = .ok phrase := by
    rw [List.append_nil, List.reverse_reverse]
    exact hphrase
  cases block with
  | none =>
    have hclose : (Pending.mk (.atRule name) (ts.reverse ++ [])).close =
        .ok (some (atRule name prelude none)) := by
      rw [Pending.close, hphrase', ← hprelude]
      rfl
    have hcanonical : (atRule name prelude none).emptied.canonical = atRule name prelude none := by
      simp [emptied, canonical, reword, asWritten, map_canonicalPrelude h]
    rw [Legible, hcanonical]
    · exact read_semicolon hstopped (.atRule hl (Reads.of_goesOn hgoes (Reads.of_close rfl hclose)))
    · exact fun _ => Node.noConfusion
  | some children =>
    have hcanonical : (atRule name prelude (some children)).emptied.canonical =
        Pending.withBlock (.atRule name) phrase [] := by
      simp [emptied, canonical, reword, allReword, asWritten, map_canonicalPrelude h,
        Pending.withBlock, hprelude]
    rw [Legible, hcanonical]
    · refine read_emptyBlock hstopped fun opener closer hopener => ?_
      exact .atRule hl (Reads.of_goesOn hgoes (Reads.of_emptyBlock hopener hphrase'))
    · exact fun _ => Node.noConfusion

/-! ## Declarations -/

/-- A word, a colon and the trees of a value are cut at the colon. -/
theorem ofTrees_word_colon {l l' : Lexeme} {name : String} {us : List TokenTree}
    {phrase : Phrase} (hl : l.token = .ident name) (hcolon : l'.token = .colon)
    (h : Phrase.ofTrees us = .ok phrase) :
    Phrase.ofTrees (leaf l :: leaf l' :: us) = .ok ⟨l.source, some phrase.text⟩ := by
  have hbehind : Phrase.ofTrees (leaf l' :: us) = .ok ⟨[], some phrase.text⟩ := by
    rw [Phrase.ofTrees, hcolon]
    simp only [h]
    rfl
  have hword : Phrase.behind l.source ⟨[], some phrase.text⟩ = ⟨l.source, some phrase.text⟩ := by
    rw [Phrase.behind, List.append_nil]
  rw [Phrase.ofTrees, hl]
  simp only [hbehind, ← hword]
  rfl

/-- A statement with a word in front of its colon is a declaration. -/
theorem close_declaration (start : Nat) {ts : List TokenTree} {property value : List Char}
    (hphrase : Phrase.ofTrees ts = .ok ⟨property, some value⟩) (hproperty : isWord property = true) :
    (Pending.mk (.plain start) ts.reverse).close =
      (fun d => some (.declaration d)) <$> Declaration.read property value start := by
  obtain ⟨c, rest, rfl⟩ := List.exists_cons_of_ne_nil (isWord_ne_nil hproperty)
  have hc : isBlank c = false :=
    isBlank_of_isWordChar (isWordChar_of_mem_word hproperty c List.mem_cons_self)
  rw [Pending.close, List.reverse_reverse, hphrase]
  simp only [bind, Except.bind, Phrase.text, List.cons_append, isEmpty_trim_cons hc,
    Bool.false_eq_true, if_false]
  cases Declaration.read (c :: rest) value start <;> rfl

/-- Behind the colon of a simple declaration stands a text that spells a value, and is
read as the declaration's own. -/
theorem exists_spells_value {d : Declaration} (hproperty : isWord d.property.toList = true)
    (h : d.value.Simple) :
    ∃ cs v, d.chars = d.property.toList ++ ([':'] ++ cs) ∧ SpellsValue Breaks cs v ∧
      ∀ start, Declaration.read d.property.toList cs start = .ok d := by
  obtain ⟨property, value, important⟩ := d
  obtain ⟨cs, htext, hspells, hflush, -⟩ := h.exists_spells
  have hends := h.endsInParts
  have hchars : value.chars = cs := by rw [Value.chars, htext, trim_eq_self hflush]
  have htrim : trim property.toList = property.toList := trim_eq_self (flush_of_isWord hproperty)
  cases important with
  | false =>
    refine ⟨cs, value, by simp [Declaration.chars, hchars], hspells, fun start => ?_⟩
    rw [Declaration.read, hspells.read_eq, Value.trim_eq_self hends]
    simp only [htrim, String.ofList_toList, h.beforeImportant_eq_none]
  | true =>
    have hword : isWord "important".toList = true := by decide
    have hmark := (hspells.append SpellsValue.bang fun ds _ => breaks_cons (by decide) ds).append
      (SpellsValue.ident hword) fun _ _ => trivial
    have hends' : Value.EndsInParts (value ++ [.raw "!"] ++ [.ident "important"]) := by
      constructor
      · cases value with
        | nil => rfl
        | cons c v => exact hends.1
      · rw [List.getLast?_concat]
        rfl
    refine ⟨_, _, by simp [Declaration.chars, hchars], hmark, fun start => ?_⟩
    rw [Declaration.read, hmark.read_eq, String.ofList_toList, Value.trim_eq_self hends']
    simp only [htrim, String.ofList_toList, Value.beforeImportant_append hends.2]

theorem legible_declaration {d : Declaration} (hproperty : isWord d.property.toList = true)
    (h : d.value.Simple) : (declaration d).Legible := by
  obtain ⟨cs, v, htext, ⟨us, hpiece, hinner, -⟩, hread⟩ := exists_spells_value hproperty h
  -- the trees are the property, the colon, and those of the value
  have hcolon := (Piece.mark (c := ':') (by decide)).append hpiece fun _ _ => trivial
  have hwhole := (Piece.word hproperty).append hcolon fun ds _ => breaks_cons (by decide) _
  rw [← htext, allMoved_append, allMoved_allMoved] at hwhole
  have hinner' : AllInner (allMoved (d.property.toList.length + [':'].length) us) :=
    hinner.allMoved _
  have hvalue : Phrase.ofTrees (allMoved (d.property.toList.length + [':'].length) us) =
      .ok ⟨cs, none⟩ := by
    rw [← hpiece.flatMap_source fun _ hc => nomatch hc]
    exact ofTrees_allMoved _ hinner.ofTrees
  generalize allMoved (d.property.toList.length + [':'].length) us = us' at hwhole hinner' hvalue
  have hphrase : Phrase.ofTrees (leaf ⟨.ident (String.ofList d.property.toList),
      d.property.toList, 0⟩ :: leaf ⟨.colon, [':'], d.property.toList.length⟩ :: us') =
      .ok ⟨d.property.toList, some cs⟩ := ofTrees_word_colon rfl rfl hvalue
  have hclose := close_declaration 0 hphrase hproperty
  rw [hread 0] at hclose
  have hreads := Reads.of_plain rfl (List.forall_mem_cons.2
    ⟨Token.noConfusion, fun t ht => goesOn_of_inner (hinner' t ht)⟩)
    (Reads.of_close (l := semicolonAt d.chars.length) rfl hclose)
  change isClosed d.chars = true ∧ Sheet.read (d.chars ++ [';']) = .ok [declaration d]
  exact read_semicolon (hwhole.mono fun _ => Stopped.breaks) hreads

/-- A simple node is legible. -/
theorem Simple.legible {n : Node} (h : n.Simple) : n.Legible := by
  cases n with
  | rule selector children => exact legible_rule h
  | atRule name prelude block => exact legible_atRule h.1 h.2
  | declaration d => exact legible_declaration h.1 h.2
  | comment text => exact h
  | raw text => exact h.elim

/-! ## Rows of simple nodes -/

/-- Simple nodes are written as they stand. -/
theorem allReword_asWritten {ns : List Node} (h : ∀ n ∈ allSubnodes ns, n.Simple) :
    allReword asWritten ns = ns := by
  induction ns using rowInduction with
  | nil => rfl
  | rule selector children ns ihc ih =>
    simp only [allSubnodes, subnodes, List.cons_append, List.forall_mem_cons,
      List.forall_mem_append] at h
    rw [allReword, reword, ihc h.2.1, ih h.2.2]
    rfl
  | statement name prelude ns ih =>
    simp only [allSubnodes, subnodes, List.singleton_append, List.forall_mem_cons] at h
    have hprelude : asWritten.prelude prelude = prelude := map_canonicalPrelude h.1.2
    rw [allReword, reword, hprelude, ih h.2]
    rfl
  | block name prelude children ns ihc ih =>
    simp only [allSubnodes, subnodes, List.cons_append, List.forall_mem_cons,
      List.forall_mem_append] at h
    have hprelude : asWritten.prelude prelude = prelude := map_canonicalPrelude h.1.2
    rw [allReword, reword, hprelude, ihc h.2.1, ih h.2.2]
    rfl
  | declaration d ns ih | comment text ns ih | raw text ns ih =>
    simp only [allSubnodes, subnodes, List.singleton_append, List.forall_mem_cons] at h
    rw [allReword, reword, ih h.2]
    rfl

theorem Simple.isRaw_eq_false {n : Node} (h : n.Simple) : n.isRaw = false := by
  cases n with
  | raw text => exact h.elim
  | _ => rfl

/-- Where there is no raw text, none stands in front of a sibling. -/
theorem allFollowedRaws_eq_zero {ns : List Node} (h : ∀ n ∈ allSubnodes ns, n.isRaw = false) :
    allFollowedRaws ns = 0 := by
  induction ns using rowInduction with
  | nil => rfl
  | rule selector children ns ihc ih =>
    simp only [allSubnodes, subnodes, List.cons_append, List.forall_mem_cons,
      List.forall_mem_append] at h
    simp [allFollowedRaws, followedRaws, isRaw, ihc h.2.1, ih h.2.2]
  | block name prelude children ns ihc ih =>
    simp only [allSubnodes, subnodes, List.cons_append, List.forall_mem_cons,
      List.forall_mem_append] at h
    simp [allFollowedRaws, followedRaws, isRaw, ihc h.2.1, ih h.2.2]
  | raw text ns ih =>
    simp only [allSubnodes, subnodes, List.singleton_append, List.forall_mem_cons] at h
    cases h.1
  | statement name prelude ns ih | declaration d ns ih | comment text ns ih =>
    simp only [allSubnodes, subnodes, List.singleton_append, List.forall_mem_cons] at h
    simp [allFollowedRaws, followedRaws, isRaw, ih h.2]

end Node

/-! ## Simple sheets -/

/-- A simple sheet is read from its text as it is. -/
theorem Sheet.parse_write_of_simple {s : Sheet} (h : Simple s) : parse s.write = .ok s := by
  have hspells : Spells (Node.allSeparated s) (Node.allReword Node.asWritten s) :=
    Node.spells_separated fun n hn => (h n hn).legible
  have hraws := Node.allFollowedRaws_eq_zero fun n hn => (h n hn).isRaw_eq_false
  rw [Node.allSeparated_eq_allChars hraws, Node.allReword_asWritten h] at hspells
  rw [parse_eq_ok_iff, write, String.toList_ofList]
  exact hspells.read_eq

/-- The sheet of `@media print{p a{--x:f("}\"", g()),1 b!important;c:}}/*}*/@import x;`. -/
def Sheet.nested : Sheet :=
  [.atRule "media" (some "print") (some
    [.rule "p a" [
      .declaration ⟨"--x", [.function "f" [.string "\x7d\"", .comma, .blank, .function "g" []]] ++
        [.comma] ++ ([.number "1"] ++ [.blank] ++ [.ident "b"]), true⟩,
      .declaration ⟨"c", [], false⟩]]),
    .comment "\x7d", .atRule "import" (some "x") none]

theorem Sheet.parse_write_nested : Simple nested ∧ parse nested.write = .ok nested := by
  have hg : Value.Simple [.function "g" []] := .function (by decide) (by with_unfolding_all rfl) .empty
  have hstring : Value.Simple [.string "\x7d\""] := .string (by decide)
  have hf : Value.Simple [.function "f" [.string "\x7d\"", .comma, .blank, .function "g" []]] :=
    .function (by decide) (by with_unfolding_all rfl)
      (.append hstring (List.cons_ne_nil _ _) .commaBlank hg (List.cons_ne_nil _ _))
  have hb : Value.Simple ([.number "1"] ++ [.blank] ++ [.ident "b"]) :=
    .append (.number (by decide) (by decide)) (List.cons_ne_nil _ _) .blank (.ident (by decide))
      (List.cons_ne_nil _ _)
  have hx : Value.Simple _ := .append hf (List.cons_ne_nil _ _) .comma hb (List.cons_ne_nil _ _)
  have hprint : IsNames "print" := ⟨[['p', 'r', 'i', 'n', 't']], by simp, by decide, by decide⟩
  have hpa : IsNames "p a" := ⟨[['p'], ['a']], by simp, by decide, by decide⟩
  have hname : IsNames "x" := ⟨[['x']], by simp, by decide, by decide⟩
  have hsimple : Simple nested := by
    intro n hn
    simp only [nested, Node.allSubnodes, Node.subnodes, List.cons_append, List.nil_append,
      List.append_nil, List.mem_cons, List.not_mem_nil, or_false] at hn
    rcases hn with rfl | rfl | rfl | rfl | rfl | rfl
    · exact ⟨by decide, fun p hp => by cases hp; exact hprint⟩
    · exact hpa
    · exact ⟨by decide, hx⟩
    · exact ⟨by decide, .empty⟩
    · exact fun hmark => absurd hmark.length_le (by decide)
    · exact ⟨by decide, fun p hp => by cases hp; exact hname⟩
  exact ⟨hsimple, parse_write_of_simple hsimple⟩

end CssPruning
