import CssPruning.Proofs.Value.Legible
import CssPruning.Proofs.Value.Weight

/-!
# Values that survive being written

A text that is written for the value that it is read as has nothing to spare: no tree of
it weighs less than what is written for it (`bounded_of_mem_forest`), so that no blank and
no comment of it was left out (`eq_of_writes`), and tree by tree the source is what was
written (`allStand_of_writes`).  So a value is read back as it was written exactly if it
is legible (`Value.survives_iff_legible`).
-/

set_option autoImplicit false

namespace CssPruning

open Token TokenTree Sheet

/-- Only the last lexeme of a text can be one behind which the text has ended. -/
theorem spelled_of_mem_front {start : Nat} {cs : List Char} {ls ls' : List Lexeme}
    (h : tokenizeFrom start cs = ls ++ ls') (hne : ls' ≠ []) : ∀ l ∈ ls, l.Spelled False := by
  intro l hl
  obtain ⟨front, behind, rfl⟩ := List.append_of_mem hl
  rw [List.append_assoc, List.cons_append] at h
  have hspelled := spelled_of_tokenizeFrom h
  rwa [eq_false (by simp [hne] : ¬ behind ++ ls' = [])] at hspelled

theorem tokenize_of_forest_eq_concat {cs : List Char} {ts : List TokenTree} {t : TokenTree}
    (h : forest cs = ts ++ [t]) : tokenize cs = allLexemes ts ++ t.lexemes := by
  rw [← lexemes_forest, h, allLexemes_append, allLexemes, allLexemes, List.append_nil]

namespace Component

/-- All trees of a text but the last weigh no less than what is written for them. -/
theorem bounded_of_mem_front {cs : List Char} {ts : List TokenTree} {t : TokenTree}
    (h : forest cs = ts ++ [t]) : ∀ u ∈ ts, Bounded u := by
  intro u hu
  have hwhole : Whole u := by
    apply whole_of_mem_dropLast_forest cs
    rw [h, List.dropLast_concat]
    exact hu
  obtain ⟨b, hb⟩ := hwhole.exists_allWhole
  have hlexemes := tokenize_of_forest_eq_concat h
  have hne : t.lexemes ≠ [] := by cases t <;> exact List.cons_ne_nil _ _
  refine bounded_of_allWhole hb ?_ u (List.mem_singleton_self u)
  intro l hl
  refine spelled_of_mem_front hlexemes hne l ?_
  rw [allLexemes, allLexemes, List.append_nil] at hl
  rw [allLexemes_eq_flatMap]
  exact List.mem_flatMap_of_mem hu hl

/-- A block that is not closed is kept as it stands or refused. -/
theorem bounded_open (opener : Lexeme) (contents : List TokenTree) :
    Bounded (block opener contents none) := by
  intro c hread hplain
  rw [ofTree] at hread
  split at hread
  · obtain ⟨arguments, -, hread⟩ := bind_eq_ok hread
    cases hread
  · obtain ⟨inner, -, hread⟩ := bind_eq_ok hread
    cases hread
  · cases hread
    rw [Option.toList_some, load_cons, load_nil, add_zero, text, String.toList_ofList]

/-- The last tree of a text weighs no less than what is written for it, unless it is a
lexeme that the text ends before the end of. -/
theorem bounded_or_exists_leaf {cs : List Char} {ts : List TokenTree} {t : TokenTree}
    (h : forest cs = ts ++ [t]) : Bounded t ∨ ∃ l, t = leaf l ∧ l.Spelled True := by
  have hlexemes := tokenize_of_forest_eq_concat h
  cases t with
  | leaf l =>
    right
    have hspelled : l.Spelled ([] = []) := spelled_of_tokenizeFrom hlexemes
    exact ⟨l, rfl, by rwa [eq_self] at hspelled⟩
  | block opener contents closer =>
    left
    rcases finished_group (show Good [] [] from List.forall_mem_nil _) (tokenize cs) with
      hwhole | ⟨us, opener', contents', hopen⟩
    · obtain ⟨b, l, hopens, hcontents, rfl, hl⟩ : Whole (block opener contents closer) := by
        apply hwhole
        rw [← forest, h]
        exact List.mem_append_right _ (List.mem_singleton_self _)
      rw [lexemes, Option.toList_some, ← List.cons_append, ← List.append_assoc] at hlexemes
      have hfront := spelled_of_mem_front hlexemes (List.cons_ne_nil l [])
      rw [List.forall_mem_append, List.forall_mem_cons] at hfront
      refine bounded_block hfront.2.1 ?_ (bounded_of_allWhole hcontents hfront.2.2)
      intro hround
      have hspelled : l.Spelled ([] = []) := spelled_of_tokenizeFrom hlexemes
      rw [Lexeme.Spelled, hl, Option.some.inj (hopens.symm.trans hround)] at hspelled
      exact hspelled
    · rw [← forest, h] at hopen
      cases (List.append_inj' hopen rfl).2
      exact bounded_open opener contents

/-- A component that is no blank is not trimmed away behind others. -/
theorem exists_trim_append_eq {c : Component} (hc : c.isBlank = false) (v : Value) :
    ∃ v', Value.trim (v ++ [c]) = v' ++ [c] := by
  have hend : Value.dropEndBlanks (v ++ [c]) = v ++ [c] := by
    apply Value.dropEndBlanks_eq_self
    rwa [List.getLast?_concat]
  rw [Value.trim, hend]
  cases v with
  | nil =>
    refine ⟨[], ?_⟩
    cases c <;> first | rfl | cases hc
  | cons d v =>
    cases d with
    | blank => exact ⟨v, rfl⟩
    | _ => exact ⟨_ :: v, rfl⟩

theorem text_of_ne_blank {c : Component} (hc : c.isBlank = false) (spaced : Bool) :
    text spaced c = text false c := by
  cases c <;> first | rfl | cases hc

/-- A text that is written for a value whose last component is without blanks at its ends
ends with the text of the component. -/
theorem suffix_trim_texts {c : Component} (hc : c.isBlank = false)
    (hflush : Text.Flush (text false c)) (hne : text false c ≠ []) (v : Value) :
    text false c <:+ Text.trim (texts false (Value.trim (v ++ [c]))) := by
  obtain ⟨v', hv'⟩ := exists_trim_append_eq hc v
  obtain ⟨front, hfront⟩ := Text.exists_trim_append_eq hflush hne (texts false v')
  rw [hv', texts_append, texts, texts, List.append_nil,
    text_of_ne_blank hc (endsInSpace _ _), hfront]
  exact List.suffix_append _ _

/-- The last tree of the text of its value weighs no less than what is written for it. -/
theorem bounded_last {cs : List Char} {ts : List TokenTree} {t : TokenTree} {w : Value}
    (h : forest cs = ts ++ [t]) (hread : ofForest (forest cs) = .ok w)
    (hwrite : Text.trim (texts false w.trim) = cs) : Bounded t := by
  rcases bounded_or_exists_leaf h with hbounded | ⟨l, rfl, hspelled⟩
  · exact hbounded
  · refine bounded_leaf_iff.2 fun c hc hplain => ?_
    refine (outweighs_ofLexeme hspelled hc hplain).resolve_right ?_
    rintro ⟨-, hflush, hapart⟩
    have hblank : c.isBlank = false := by
      cases c with
      | blank => cases hflush.1
      | _ => rfl
    have hne : text false c ≠ [] := by
      intro hnil
      rw [hnil] at hapart
      exact hapart _ (List.nil_suffix) (List.suffix_refl l.source)
    rw [h, ofForest_append] at hread
    obtain ⟨v, -, hread⟩ := bind_eq_ok hread
    have hlast : ofForest [leaf l] = .ok [c] := ofForest_cons_eq_ok (c := some c) hc rfl
    rw [hlast] at hread
    cases hread
    refine hapart cs ?_ ?_
    · rw [← hwrite]
      exact suffix_trim_texts hblank hflush hne v
    · refine ⟨ts.flatMap source, ?_⟩
      rw [← source_forest cs, h, List.flatMap_append, List.flatMap_singleton]
      exact congrArg _ (List.append_nil _).symm

/-- No tree of the text of its value weighs less than what is written for it. -/
theorem bounded_of_mem_forest {cs : List Char} {w : Value} (hread : ofForest (forest cs) = .ok w)
    (hwrite : Text.trim (texts false w.trim) = cs) : ∀ t ∈ forest cs, Bounded t := by
  rcases List.eq_nil_or_concat (forest cs) with hnil | ⟨ts, t, hforest⟩
  · rw [hnil]
    exact List.forall_mem_nil _
  · rw [List.concat_eq_append] at hforest
    rw [hforest, List.forall_mem_append, List.forall_mem_singleton]
    exact ⟨bounded_of_mem_front hforest, bounded_last hforest hread hwrite⟩

/-! ## Nothing is left out -/

theorem load_reverse (v : Value) : load v.reverse = load v := by
  rw [load, List.map_reverse, List.sum_reverse]
  rfl

theorem weight_blank_pos : 0 < weight (text false blank) := weight_pos (List.cons_ne_nil _ _)

theorem dropWhile_eq_self_of_load (v : Value) (h : load (v.dropWhile isBlank) = load v) :
    v.dropWhile isBlank = v := by
  cases v with
  | nil => rfl
  | cons c v =>
    cases c with
    | blank =>
      have hle : load (v.dropWhile isBlank) ≤ load v := load_le_of_sublist (List.dropWhile_sublist _)
      rw [List.dropWhile_cons_of_pos rfl, load_cons] at h
      exact absurd (h ▸ hle) (not_le_of_gt (lt_add_of_pos_left _ weight_blank_pos))
    | _ => rfl

/-- A blank that is trimmed away is missing in the load. -/
theorem trim_eq_self_of_load {v : Value} (h : load v.trim = load v) : v.trim = v := by
  have hend : v.dropEndBlanks = v := by
    have hload : load (v.reverse.dropWhile isBlank) = load v.reverse := by
      apply le_antisymm (load_le_of_sublist (List.dropWhile_sublist _))
      rw [load_reverse v, ← h, ← load_reverse (v.reverse.dropWhile isBlank)]
      exact load_le_of_sublist (Value.trim_sublist_dropEndBlanks v)
    rw [Value.dropEndBlanks, dropWhile_eq_self_of_load _ hload, List.reverse_reverse]
  rw [Value.trim, hend] at h ⊢
  cases v with
  | nil => rfl
  | cons c v =>
    cases c with
    | blank =>
      rw [load_cons] at h
      exact absurd h (lt_add_of_pos_left _ weight_blank_pos).ne
    | _ => rfl

/-- If a text is written for the value that it is read as, no blank and no comment of it
is left out. -/
theorem eq_of_writes {cs : List Char} {w : Value} (hread : ofForest (forest cs) = .ok w)
    (hwrite : Text.trim (texts false w.trim) = cs) (hplain : allPlainDigits w.trim = true) :
    w.trim = w ∧ texts false w.trim = cs := by
  have hload : load w ≤ weight cs := by
    have h := load_le_of_bounded (bounded_of_mem_forest hread hwrite) hread
      (allPlainDigits_of_trim hplain)
    rwa [source_forest] at h
  have htrim : load w.trim ≤ load w := load_le_of_sublist w.trim_sublist
  have htexts : weight (texts false w.trim) ≤ load w.trim := weight_texts_le false w.trim
  have hcs : weight cs ≤ weight (texts false w.trim) := by
    rw [← hwrite]
    exact weight_le_of_sublist (Text.trim_sublist _)
  refine ⟨trim_eq_self_of_load (le_antisymm htrim (hload.trans (hcs.trans htexts))), ?_⟩
  have hweight : weight cs = weight (texts false w.trim) :=
    le_antisymm hcs (htexts.trans (htrim.trans hload))
  have hsublist : cs.Sublist (texts false w.trim) := by
    rw [← hwrite]
    exact Text.trim_sublist _
  exact (hsublist.eq_of_length (length_eq_of_weight_eq hweight)).symm

/-! ## Tree by tree -/

/-- If the texts that are written for trees make up the sources of these trees and each
source weighs no less than its text, they are the same. -/
theorem source_eq_of_writes {t : TokenTree} {ts : List TokenTree} {c : Option Component}
    {spaced : Bool} {v : Value} (hne : t.source ≠ []) (ht : Bounded t) (hts : ∀ t ∈ ts, Bounded t)
    (hc : ofTree t = .ok c) (hv : ofForest ts = .ok v) (hplain : allPlainDigits (c.toList ++ v) = true)
    (hwrite : t.source ++ ts.flatMap source = texts spaced (c.toList ++ v)) :
    ∃ d, c = some d ∧ t.source = text spaced d ∧
      ts.flatMap source = texts (endsInSpace spaced (text spaced d)) v := by
  rw [allPlainDigits_iff, List.forall_mem_append, ← allPlainDigits_iff, ← allPlainDigits_iff]
    at hplain
  have hhead := ht c hc hplain.1
  have htail := load_le_of_bounded hts hv hplain.2
  have hweight := congrArg weight hwrite
  rw [weight_append] at hweight
  cases c with
  | none =>
    have hle : weight (texts spaced v) ≤ weight (ts.flatMap source) :=
      (weight_texts_le spaced v).trans htail
    exact absurd hweight (hle.trans_lt (lt_add_of_pos_left _ (weight_pos hne))).ne'
  | some d =>
    rw [Option.toList_some, List.singleton_append, texts, weight_append] at hweight
    rw [Option.toList_some, load_cons, load_nil, add_zero] at hhead
    have hd : weight (text spaced d) ≤ weight t.source := (weight_text_le spaced d).trans hhead
    have hrest := (weight_texts_le (endsInSpace spaced (text spaced d)) v).trans htail
    have hlength := length_eq_of_weight_eq ((add_eq_add_iff_eq_and_eq hd hrest).1 hweight.symm).1
    exact ⟨d, rfl, List.append_inj hwrite hlength.symm⟩

/-- Components that are read from what was written for them stand in front of each
other. -/
theorem allStand_of_writes {cs : List Char} {ts : List TokenTree} {spaced : Bool} {v : Value}
    (hts : mapAll Lexeme.bare (forest cs) = mapAll Lexeme.bare ts) (hbounded : ∀ t ∈ ts, Bounded t)
    (hread : ofForest ts = .ok v) (hplain : allPlainDigits v = true)
    (hwrite : cs = texts spaced v) : AllStand spaced v := by
  induction ts generalizing cs spaced v with
  | nil =>
    cases hread
    trivial
  | cons t ts ih =>
    obtain ⟨u, us, hforest, hu, hus⟩ : ∃ u us, forest cs = u :: us ∧
        map Lexeme.bare u = map Lexeme.bare t ∧ mapAll Lexeme.bare us = mapAll Lexeme.bare ts := by
      rw [mapAll_eq_map, mapAll_eq_map, List.map_cons] at hts
      simpa only [mapAll_eq_map] using List.map_eq_cons_iff.1 hts
    have hsource : u.source = t.source := by
      rw [← source_map Lexeme.source_bare u, hu, source_map Lexeme.source_bare t]
    have hsources : cs = t.source ++ ts.flatMap source := by
      rw [← source_forest cs, ← flatMap_source_mapAll Lexeme.source_bare (forest cs), hts,
        flatMap_source_mapAll Lexeme.source_bare, List.flatMap_cons]
    have hmem : u ∈ forest cs := by
      rw [hforest]
      exact List.mem_cons_self
    have hne : t.source ≠ [] := by
      rw [← hsource]
      exact source_ne_nil_of_mem_forest hmem
    rw [ofForest] at hread
    obtain ⟨c, hc, hread⟩ := bind_eq_ok hread
    obtain ⟨w, hw, hread⟩ := bind_eq_ok hread
    cases hread
    rw [List.forall_mem_cons] at hbounded
    obtain ⟨d, rfl, htext, htexts⟩ := source_eq_of_writes hne hbounded.1 hbounded.2 hc hw hplain
      (hsources.symm.trans hwrite)
    have hd : ofTree u = .ok (some d) := by
      rw [← ofTree_map_eq_ok_iff Lexeme.token_bare Lexeme.source_bare, hu,
        ofTree_map_eq_ok_iff Lexeme.token_bare Lexeme.source_bare]
      exact hc
    constructor
    · refine ⟨u, ?_, hsource.trans htext, hd⟩
      change u ∈ (forest (texts spaced (d :: w))).head?
      rw [show texts spaced (d :: w) = cs from hwrite.symm, hforest]
      rfl
    · have htail : mapAll Lexeme.bare (forest (ts.flatMap source)) = mapAll Lexeme.bare ts := by
        rw [← hus]
        apply mapAll_bare_tail
        rw [hsource, ← hsources, hforest]
      rw [htexts] at htail
      refine ih htail hbounded.2 hw ?_ rfl
      rw [Option.toList_some, allPlainDigits_iff] at hplain
      exact allPlainDigits_iff.2 fun e he => hplain e (List.mem_cons_of_mem _ he)

end Component

namespace Value

open Component

/-- A value that is read back as it was written is legible, if its digits are plain. -/
theorem Survives.legible {v : Value} (h : v.Survives) (hplain : allPlainDigits v = true) :
    v.Legible := by
  rw [Survives, parse_eq_ok_iff, write, String.toList_ofList] at h
  obtain ⟨w, hread, rfl⟩ := map_eq_ok h
  have hbounded := bounded_of_mem_forest hread rfl
  obtain ⟨htrim, hwrite⟩ := eq_of_writes hread rfl hplain
  rw [htrim] at hbounded hread hplain hwrite ⊢
  constructor
  case flush =>
    rw [hwrite]
    exact Text.flush_trim _
  case stand => exact allStand_of_writes rfl hbounded hread hplain hwrite.symm

theorem Simple.allPlainDigits {v : Value} (h : v.Simple) : allPlainDigits v = true := by
  induction h with
  | empty | ident | number | string => rfl
  | function _ _ _ ih =>
    rw [allPlainDigits_iff, List.forall_mem_singleton, hasPlainDigits]
    exact ih
  | append _ _ hsep _ _ ihv ihw =>
    rw [allPlainDigits_iff] at ihv ihw ⊢
    rw [List.forall_mem_append, List.forall_mem_append]
    refine ⟨⟨ihv, ?_⟩, ihw⟩
    rw [← allPlainDigits_iff]
    cases hsep <;> rfl

/-- Simple values are legible. -/
theorem Simple.legible {v : Value} (h : v.Simple) : v.Legible := by
  obtain ⟨cs, htexts, hspells, hflush, -⟩ := h.exists_spells
  have hchars : v.chars = cs := by rw [chars, htexts, Text.trim_eq_self hflush]
  have hsurvives : v.Survives := by
    rw [Survives, parse_eq_ok_iff, write, String.toList_ofList, hchars, hspells.read_eq,
      trim_eq_self h.endsInParts]
  exact hsurvives.legible h.allPlainDigits

/-- A legible value is read back as it was written, and no other value is, as long as no
unit was kept among the digits of a dimension. -/
theorem survives_iff_legible (v : Value) : (v.Legible → v.Survives) ∧
    (allPlainDigits v = true → (v.Survives ↔ v.Legible)) :=
  ⟨Legible.survives, fun hplain => ⟨fun h => h.legible hplain, Legible.survives⟩⟩

/-- An address is written without the quotes that it was read from. -/
theorem not_survives_blankInUrl : Value.parse "url(\"a b\")" = .ok [.url "a b"] ∧
    Value.write [.url "a b"] = "url(a b)" ∧ (∃ e, Value.parse "url(a b)" = .error e) ∧
      ¬ Survives [.url "a b"] := by
  have htokens : tokenize "url(\"a b\")".toList = [⟨.function "url", ['u', 'r', 'l', '('], 0⟩,
      ⟨.string "a b", ['"', 'a', ' ', 'b', '"'], 4⟩, ⟨.closing .round, [')'], 9⟩] := by
    decide +kernel
  have hforest : ofForest (forest "url(\"a b\")".toList) = .ok [call "url" [.string "a b"]] := by
    rw [forest, htokens]
    rfl
  have hread : Value.parse "url(\"a b\")" = .ok [.url "a b"] := by
    have hcall : call "url" [.string "a b"] = .url "a b" := if_pos (beq_self_eq_true _)
    rw [parse_eq_ok_iff, Value.read, hforest, hcall]
    rfl
  have hwrite : Value.write [.url "a b"] = "url(a b)" := by decide +kernel
  have htokens' : tokenize "url(a b)".toList =
      [⟨.badUrl, ['u', 'r', 'l', '(', 'a', ' ', 'b', ')'], 0⟩] := by decide +kernel
  obtain ⟨e, he⟩ : ∃ e, Value.parse "url(a b)" = .error e := by
    rw [Value.parse, Value.read, forest, htokens']
    exact ⟨_, rfl⟩
  refine ⟨hread, hwrite, ⟨e, he⟩, ?_⟩
  rw [Survives, hwrite, he]
  intro h
  cases h

end Value

end CssPruning
