import Mathlib.Algebra.Order.BigOperators.Group.List
import CssPruning.Proofs.Text.Lower
import CssPruning.Proofs.Token.Fronts
import CssPruning.Proofs.Token.Weight
import CssPruning.Proofs.Value.Simple

/-!
# The weight of what is written

What is written for a tree weighs no more than the source of the tree, if the text goes
on behind it (`bounded_of_allWhole`).  Dimensions apart whose digits have an escape in
them, this is so for each kind of component: escapes, quotes, blanks and comments only
ever weigh something in the source.  At the end of a text there may be a string or an
address that is not closed, and the closing character is written all the same; but then
the text cannot end with what is written (`Outweighs`).
-/

set_option autoImplicit false

namespace CssPruning

open Token TokenTree Sheet Text

namespace Component

/-! ## Values -/

/-- Neither a backslash nor a NUL stands in the text: no escape, and nothing that is read
as another character. -/
def isPlain (s : String) : Bool := s.toList.all fun c => c != '\\' && c != '\x00'

mutual

/-- The digits of a dimension are plain, at every depth.  If the unit is written with an
escape the digits are not, for then they have the unit in them. -/
def hasPlainDigits : Component → Bool
  | dimension digits _ => isPlain digits
  | function _ arguments => allPlainDigits arguments
  | parentheses contents => allPlainDigits contents
  | _ => true
termination_by structural c => c

/-- The digits of all dimensions are plain. -/
def allPlainDigits : List Component → Bool
  | [] => true
  | c :: cs => hasPlainDigits c && allPlainDigits cs
termination_by structural cs => cs

end

theorem allPlainDigits_iff {v : Value} :
    allPlainDigits v = true ↔ ∀ c ∈ v, hasPlainDigits c = true := by
  induction v with
  | nil => simp [allPlainDigits]
  | cons c v ih => simp [allPlainDigits, ih]

/-- The weights of the components' texts on their own, taken together. -/
def load (v : Value) : ℕ ×ₗ ℕ := (v.map fun c => weight (text false c)).sum

theorem load_nil : load [] = 0 := rfl

theorem load_cons (c : Component) (v : Value) : load (c :: v) = weight (text false c) + load v :=
  List.sum_cons

theorem load_append (v w : Value) : load (v ++ w) = load v + load w := by
  rw [load, List.map_append, List.sum_append]
  rfl

theorem load_le_of_sublist {v w : Value} (h : v.Sublist w) : load v ≤ load w := by
  apply (h.map _).sum_le_sum
  intro x hx
  obtain ⟨c, -, rfl⟩ := List.mem_map.1 hx
  exact weight_nonneg _

/-- A blank that is left out weighs nothing. -/
theorem weight_text_le (spaced : Bool) (c : Component) :
    weight (text spaced c) ≤ weight (text false c) := by
  cases c with
  | blank =>
    apply weight_le_of_sublist
    cases spaced
    · exact List.Sublist.refl _
    · exact List.nil_sublist _
  | _ => exact le_rfl

theorem weight_texts_le (spaced : Bool) (v : Value) : weight (texts spaced v) ≤ load v := by
  induction v generalizing spaced with
  | nil => exact le_rfl
  | cons c v ih =>
    rw [texts, weight_append, load_cons]
    exact add_le_add (weight_text_le spaced c) (ih _)

theorem weight_trim_texts_le (v : Value) : weight (Text.trim (texts false v)) ≤ load v :=
  (weight_le_of_sublist (Text.trim_sublist _)).trans (weight_texts_le false v)

/-! ## Lexemes -/

/-- No text ends with both. -/
def Apart (cs ds : List Char) : Prop := ∀ whole, cs <:+ whole → ¬ ds <:+ whole

/-- What is written for the component weighs no more than the source.  Only where the text
has ended is a closing character written that was not there, but then no text ends with
both what is written and the source. -/
def Outweighs (source : List Char) (ended : Prop) (c : Component) : Prop :=
  weight (text false c) ≤ weight source ∨
    ended ∧ Flush (text false c) ∧ Apart (text false c) source

theorem getLast?_flatMap_escaped {cs : List Char} {c : Char} (h : cs.getLast? = some c) :
    (cs.flatMap escaped).getLast? = some c := by
  obtain ⟨front, rfl⟩ := List.getLast?_eq_some_iff.1 h
  have hc : (escaped c).getLast? = some c := by
    rw [escaped]
    split <;> rfl
  rw [List.flatMap_append, List.flatMap_singleton, List.getLast?_append, hc]
  rfl

theorem apart_of_getLast? {cs ds : List Char} {c : Char} (hcs : cs.getLast? = some c)
    (hne : ds ≠ []) (hds : ds.getLast? ≠ some c) : Apart cs ds := by
  rintro whole ⟨front, rfl⟩ ⟨front', heq⟩
  have hlast := congrArg List.getLast? heq
  rw [List.getLast?_append_of_ne_nil _ hne, List.getLast?_append, hcs] at hlast
  exact hds hlast

/-- A closing character behind the one that the source ends with, which stands behind a
backslash there. -/
theorem apart_of_decodes {closing : Char} (hclosing : closing = '"' ∨ closing = ')')
    {body text written : List Char} (h : Decodes closing body text)
    (hbody : body.getLast? = some closing)
    (hwritten : text.getLast? = some closing → written.getLast? = some closing)
    (lead front : List Char) : Apart (lead ++ (written ++ [closing])) (front ++ body) := by
  obtain ⟨⟨before, rfl⟩, htext⟩ := h.eq_concat_of_getLast? hclosing hbody
  obtain ⟨rest, rfl⟩ := List.getLast?_eq_some_iff.1 (hwritten htext)
  intro whole hsuffix hsuffix'
  have hend : [closing, closing] <:+ whole := by
    refine List.IsSuffix.trans ⟨lead ++ rest, ?_⟩ hsuffix
    simp
  have hend' : ['\\', closing] <:+ whole := by
    refine List.IsSuffix.trans ⟨front ++ before, ?_⟩ hsuffix'
    simp
  have heq := (List.suffix_of_suffix_length_le hend hend' le_rfl).eq_of_length rfl
  rcases hclosing with rfl | rfl <;> simp at heq

/-- Plain digits stand in front of the unit. -/
theorem digitsBefore_append {source : List Char} {unit : String} {ended : Prop}
    (h : SpelledAs source ended (.dimension unit))
    (hplain : isPlain (digitsBefore unit source) = true) :
    (digitsBefore unit source).toList ++ unit.toList = source := by
  obtain ⟨digits, cs, rfl, hdecodes⟩ := h
  rw [digitsBefore] at hplain ⊢
  split
  · rename_i hsuffix
    obtain ⟨front, hfront⟩ := List.reverse_prefix.1 (List.isPrefixOf_iff_prefix.1 hsuffix)
    rw [← hfront, String.toList_ofList, List.length_append, ← String.length_toList,
      Nat.add_sub_cancel, List.take_left]
  · rename_i hsuffix
    rw [if_neg hsuffix] at hplain
    have hcs : ∀ c ∈ cs, c ≠ '\\' ∧ c ≠ '\x00' := by
      intro c hc
      simpa using List.all_eq_true.1 hplain c (by simp [hc])
    have hunit : unit.toList = cs :=
      hdecodes.eq_of_not_mem (fun h => (hcs _ h).1 rfl) (fun h => (hcs _ h).2 rfl)
    rw [hunit] at hsuffix
    exact absurd (by simp) hsuffix

theorem outweighs_string {source : List Char} {s : String} {ended : Prop}
    (h : SpelledAs source ended (.string s)) (hlength : 2 ≤ source.length)
    (hends : source.head? = source.getLast?) : Outweighs source ended (string s) := by
  obtain ⟨quote, body, close, rfl, hquote, hdecodes, hclose⟩ := h
  have htext : text false (string s) = ['"'] ++ (s.toList.flatMap escaped ++ ['"']) := rfl
  rw [Outweighs, htext]
  rcases hquote with rfl | rfl
  · rcases hclose with rfl | ⟨rfl, hended⟩
    · left
      rw [weight_append, weight_append, weight_cons '"' (body ++ ['"']), weight_append]
      exact add_le_add le_rfl (add_le_add hdecodes.weight_escaped_le le_rfl)
    · right
      rw [List.append_nil] at hlength hends ⊢
      have hbody : body.getLast? = some '"' := by
        cases hlast : body.getLast? with
        | none =>
          rw [List.getLast?_eq_none_iff.1 hlast] at hlength
          exact absurd hlength (by decide)
        | some c =>
          rw [List.getLast?_cons, hlast] at hends
          exact hends.symm
      refine ⟨hended, ⟨rfl, ?_⟩, ?_⟩
      · rw [← List.append_assoc, List.getLast?_concat]
        rfl
      · exact apart_of_decodes (.inl rfl) hdecodes hbody getLast?_flatMap_escaped _ ['"']
  · -- single quotes have mass
    refine .inl (weight_lt_of_mass_lt ?_).le
    have hwritten : mass (['"'] ++ (s.toList.flatMap escaped ++ ['"'])) = mass s.toList := by
      rw [mass_append, mass_append, mass_flatMap_escaped]
      exact Nat.zero_add _
    have hsource : mass ('\'' :: (body ++ close)) = 1 + (mass body + mass close) := by
      rw [← mass_append]
      exact mass_append ['\''] _
    have hmass := hdecodes.mass_le
    omega

theorem weight_of_sameAscii_url {name : String} (h : Text.sameAscii name "url" = true) :
    weight "url".toList ≤ weight name.toList := by
  have hlower : name.toList.map Char.toLower = "url".toList := map_toLower_of_sameAscii h
  apply weight_le_of_forall_heavy
  · intro c hc
    have hmem : c.toLower ∈ "url".toList := by
      rw [← hlower]
      exact List.mem_map_of_mem hc
    rw [← Bool.not_eq_false, isHeavy_eq_false_iff]
    rintro (rfl | rfl | rfl) <;> revert hmem <;> decide
  · rw [← hlower, List.length_map]

/-- A parenthesis at the end of an address that is open belongs to the address. -/
theorem getLast?_of_address {front gap body gap' : List Char} (hgap : ∀ c ∈ gap, isSpace c = true)
    (hgap' : ∀ c ∈ gap', isSpace c = true)
    (h : (front ++ '(' :: (gap ++ (body ++ gap'))).getLast? = some ')') :
    gap' = [] ∧ body.getLast? = some ')' := by
  have hspace {cs : List Char} (hcs : ∀ c ∈ cs, isSpace c = true) : cs.getLast? ≠ some ')' :=
    fun hlast => absurd (hcs _ (List.mem_of_mem_getLast? hlast)) (by decide)
  simp only [List.getLast?_append, List.getLast?_cons] at h
  cases hlast' : gap'.getLast? with
  | some c =>
    rw [hlast'] at h
    exact absurd (hlast'.trans (by simpa using h)) (hspace hgap')
  | none =>
    refine ⟨List.getLast?_eq_none_iff.1 hlast', ?_⟩
    cases hbody : body.getLast? with
    | some c => simpa [hlast', hbody] using h
    | none =>
      cases hlast : gap.getLast? with
      | some c =>
        rw [hlast', hbody, hlast] at h
        exact absurd (hlast.trans (by simpa using h)) (hspace hgap)
      | none => simp [hlast', hbody, hlast] at h

theorem outweighs_url {source : List Char} {address : String} {ended : Prop}
    (h : SpelledAs source ended (.url address)) : Outweighs source ended (url address) := by
  obtain ⟨cs, name, gap, body, gap', close, rfl, hname, hurl, hgap, hdecodes, hgap', hclose⟩ := h
  have htext : text false (url address) = "url".toList ++ '(' :: (address.toList ++ [')']) :=
    List.append_assoc _ _ _
  have hword : weight "url".toList ≤ weight cs := by
    refine (weight_of_sameAscii_url hurl).trans ?_
    rw [String.toList_ofList]
    exact hname.weight_le
  rw [Outweighs, htext]
  rcases hclose with rfl | ⟨rfl, hended⟩
  · left
    have hpart : (cs ++ '(' :: (body ++ [')'])).Sublist
        (cs ++ '(' :: (gap ++ (body ++ gap' ++ [')']))) := by
      refine List.Sublist.append_left (List.Sublist.cons_cons _ ?_) cs
      refine List.Sublist.trans ?_ (List.sublist_append_right gap _)
      exact (List.sublist_append_left body gap').append_right _
    refine le_trans ?_ (weight_le_of_sublist hpart)
    rw [weight_append, weight_cons, weight_append, weight_append cs, weight_cons _ (body ++ [')']),
      weight_append body]
    exact add_le_add hword (add_le_add le_rfl (add_le_add hdecodes.weight_le le_rfl))
  · right
    have hflush : Flush ("url".toList ++ '(' :: (address.toList ++ [')'])) := by
      refine ⟨rfl, ?_⟩
      rw [← List.cons_append, ← List.append_assoc, List.getLast?_concat]
      rfl
    refine ⟨hended, hflush, ?_⟩
    rw [List.append_nil]
    by_cases hlast : (cs ++ '(' :: (gap ++ (body ++ gap'))).getLast? = some ')'
    · obtain ⟨rfl, hbody⟩ := getLast?_of_address hgap hgap' hlast
      have hapart := apart_of_decodes (.inr rfl) hdecodes hbody id ("url".toList ++ ['('])
        (cs ++ '(' :: gap)
      simpa using hapart
    · refine apart_of_getLast? ?_ (by simp) hlast
      rw [← List.cons_append, ← List.append_assoc, List.getLast?_concat]

theorem outweighs_of_eq {source : List Char} {ended : Prop} {c : Component}
    (h : text false c = source) : Outweighs source ended c := .inl (by rw [h])

/-- What is written for a lexeme weighs no more than its source, as long as the text has
not ended. -/
theorem outweighs_ofLexeme {l : Lexeme} {ended : Prop} {c : Component} (h : l.Spelled ended)
    (hread : ofLexeme l = .ok (some c)) (hplain : hasPlainDigits c = true) :
    Outweighs l.source ended c := by
  rw [Lexeme.Spelled] at h
  rw [ofLexeme] at hread
  cases htoken : l.token with
  | blank =>
    rw [htoken] at h hread
    cases hread
    obtain ⟨d, ds, hsource⟩ := List.exists_cons_of_ne_nil h.1
    have hd : d ∈ l.source := by simp [hsource]
    exact .inl (weight_le_of_mem hd (isHeavy_of_isSpace (h.2 d hd)) le_rfl
      (List.length_pos_of_mem hd))
  | comment s =>
    rw [htoken] at hread
    simp only at hread
    split at hread <;> cases hread
  | ident name =>
    rw [htoken] at h hread
    cases hread
    exact .inl h.weight_le
  | string s =>
    rw [htoken] at h hread
    simp only at hread
    split at hread
    · rename_i hcloses
      cases hread
      rw [Lexeme.stringCloses, Bool.and_eq_true, decide_eq_true_eq, beq_iff_eq] at hcloses
      exact outweighs_string h hcloses.1 hcloses.2
    · cases hread
  | percentage =>
    rw [htoken] at h hread
    cases hread
    obtain ⟨front, hfront⟩ := List.getLast?_eq_some_iff.1 h
    refine outweighs_of_eq ?_
    rw [text, String.toList_ofList, hfront, List.dropLast_concat]
  | dimension unit =>
    rw [htoken] at h hread
    cases hread
    exact outweighs_of_eq (digitsBefore_append h hplain)
  | hash name =>
    rw [htoken] at h hread
    cases hread
    obtain ⟨cs, hsource, hdecodes⟩ := h
    left
    rw [text, hsource, weight_cons, weight_cons _ cs]
    exact add_le_add le_rfl hdecodes.weight_le
  | url address =>
    rw [htoken] at h hread
    cases hread
    exact outweighs_url h
  | colon | comma =>
    rw [htoken] at h hread
    cases hread
    exact outweighs_of_eq h.symm
  | delim d =>
    rw [htoken] at h hread
    cases hread
    have hsource : l.source = [d] := h
    refine outweighs_of_eq ?_
    split
    · rw [text, String.toList_ofList, hsource]
    · rw [text, String.toList_ofList]
  | _ =>
    rw [htoken] at hread
    first
    | cases hread; exact outweighs_of_eq (String.toList_ofList)
    | cases hread

/-! ## Trees -/

/-- What is written for the tree weighs no more than its source. -/
def Bounded (t : TokenTree) : Prop :=
  ∀ c, ofTree t = .ok c → allPlainDigits c.toList = true → load c.toList ≤ weight t.source

theorem load_le_of_bounded {ts : List TokenTree} {v : Value} (hts : ∀ t ∈ ts, Bounded t)
    (hread : ofForest ts = .ok v) (hplain : allPlainDigits v = true) :
    load v ≤ weight (ts.flatMap source) := by
  induction ts generalizing v with
  | nil =>
    cases hread
    exact le_rfl
  | cons t ts ih =>
    rw [List.forall_mem_cons] at hts
    rw [ofForest] at hread
    obtain ⟨c, hc, hread⟩ := bind_eq_ok hread
    obtain ⟨w, hw, hread⟩ := bind_eq_ok hread
    cases hread
    rw [allPlainDigits_iff, List.forall_mem_append, ← allPlainDigits_iff, ← allPlainDigits_iff]
      at hplain
    rw [load_append, List.flatMap_cons, weight_append]
    exact add_le_add (hts.1 c hc hplain.1) (ih hts.2 hw hplain.2)

theorem bounded_leaf_iff {l : Lexeme} : Bounded (leaf l) ↔ ∀ c, ofLexeme l = .ok (some c) →
    hasPlainDigits c = true → weight (text false c) ≤ weight l.source := by
  have hsource : (leaf l).source = l.source := List.append_nil _
  have hload (c : Component) : load [c] = weight (text false c) := add_zero _
  constructor
  · intro h c hread hplain
    rw [← hload, ← hsource]
    exact h (some c) hread (allPlainDigits_iff.2 (List.forall_mem_singleton.2 hplain))
  · intro h c hread hplain
    cases c with
    | none => exact weight_nonneg _
    | some c =>
      rw [Option.toList_some, hload, hsource]
      exact h c hread (allPlainDigits_iff.1 hplain c (List.mem_singleton_self c))

theorem bounded_leaf {l : Lexeme} (h : l.Spelled False) : Bounded (leaf l) :=
  bounded_leaf_iff.2 fun _ hread hplain =>
    (outweighs_ofLexeme h hread hplain).resolve_right fun hended => hended.1

theorem hasPlainDigits_call (name : String) (arguments : Value) :
    hasPlainDigits (call name arguments) = allPlainDigits arguments := by
  unfold call
  split
  · split <;> rfl
  · rfl

/-- A function or an address weighs no more than its name, the parentheses and what
stands between them. -/
theorem weight_call_le (name : String) (arguments : Value) :
    weight (text false (call name arguments)) ≤
      weight (name.toList ++ ['(']) + (load arguments + weight [')']) := by
  have hfunction : weight (text false (function name arguments)) ≤
      weight (name.toList ++ ['(']) + (load arguments + weight [')']) := by
    have htext : text false (function name arguments) =
        (name.toList ++ ['(']) ++ (Text.trim (texts false arguments) ++ [')']) := by
      rw [text]
      simp
    rw [htext, weight_append, weight_append (Text.trim _)]
    exact add_le_add le_rfl (add_le_add (weight_trim_texts_le arguments) le_rfl)
  unfold call
  split
  · rename_i address
    split
    · rename_i hurl
      have htext : text false (url address) = ("url".toList ++ ['(']) ++ (address.toList ++ [')']) := by
        rw [text]
        simp
      have haddress : address.toList.Sublist (text false (string address)) := by
        rw [text]
        exact ((sublist_flatMap_escaped _).cons _).trans (List.sublist_append_left _ _)
      rw [htext, weight_append, weight_append, weight_append, weight_append name.toList, load_cons,
        load_nil, add_zero]
      exact add_le_add (add_le_add (weight_of_sameAscii_url hurl) le_rfl)
        (add_le_add (weight_le_of_sublist haddress) le_rfl)
    · exact hfunction
  · exact hfunction

theorem weight_parentheses_le (contents : Value) : weight (text false (parentheses contents)) ≤
    weight ['('] + (load contents + weight [')']) := by
  have htext : text false (parentheses contents) =
      ['('] ++ (Text.trim (texts false contents) ++ [')']) := by
    rw [text]
    simp
  rw [htext, weight_append, weight_append (Text.trim _)]
  exact add_le_add le_rfl (add_le_add (weight_trim_texts_le contents) le_rfl)

/-- Only blanks are trimmed away. -/
theorem mem_trim_or_eq_blank {v : Value} {c : Component} (h : c ∈ v) : c ∈ v.trim ∨ c = blank := by
  have hblank : isBlank c = true → c = blank := by
    cases c <;> first | exact fun _ => rfl | exact nofun
  have hend : c ∈ v.dropEndBlanks ∨ c = blank := by
    rw [← List.mem_reverse, ← List.takeWhile_append_dropWhile (p := isBlank) (l := v.reverse),
      List.mem_append] at h
    rcases h with hdropped | hkept
    · exact .inr (hblank (List.all_eq_true.1 List.all_takeWhile c hdropped))
    · exact .inl (List.mem_reverse.2 hkept)
  rw [Value.trim]
  rcases hend with hmem | hblank
  · split
    · rename_i rest hrest
      rw [hrest] at hmem
      exact (List.mem_cons.1 hmem).symm
    · exact .inl hmem
  · exact .inr hblank

theorem allPlainDigits_of_trim {v : Value} (h : allPlainDigits v.trim = true) :
    allPlainDigits v = true := by
  rw [allPlainDigits_iff] at h ⊢
  intro c hc
  rcases mem_trim_or_eq_blank hc with hmem | rfl
  · exact h c hmem
  · rfl

theorem load_trim_le_of_bounded {ts : List TokenTree} {v : Value} (hts : ∀ t ∈ ts, Bounded t)
    (hread : ofForest ts = .ok v) (hplain : allPlainDigits v.trim = true) :
    load v.trim ≤ weight (ts.flatMap source) :=
  (load_le_of_sublist v.trim_sublist).trans
    (load_le_of_bounded hts hread (allPlainDigits_of_trim hplain))

/-- A block weighs no less than what is written for it, if each of the trees in it does. -/
theorem bounded_block {opener l : Lexeme} {contents : List TokenTree} (hopener : opener.Spelled False)
    (hl : opener.token.opens = some .round → l.source = [')'])
    (hcontents : ∀ t ∈ contents, Bounded t) : Bounded (block opener contents (some l)) := by
  intro c hread hplain
  have hsource : weight (block opener contents (some l)).source =
      weight opener.source + (weight (contents.flatMap source) + weight l.source) := by
    rw [source_block, Option.toList_some, List.flatMap_singleton, weight_append, weight_append]
  rw [ofTree] at hread
  split at hread
  · rename_i name htoken
    rw [Lexeme.Spelled, htoken] at hopener
    rw [htoken] at hl
    obtain ⟨cs, hcs, hdecodes⟩ := hopener
    obtain ⟨arguments, harguments, hread⟩ := bind_eq_ok hread
    cases hread
    rw [Option.toList_some, allPlainDigits, allPlainDigits, Bool.and_true, hasPlainDigits_call]
      at hplain
    have hload := load_trim_le_of_bounded hcontents harguments hplain
    rw [hsource, hcs, hl rfl, Option.toList_some, load_cons, load_nil, add_zero]
    refine (weight_call_le name arguments.trim).trans (add_le_add ?_ (add_le_add hload le_rfl))
    rw [weight_append, weight_append]
    exact add_le_add hdecodes.weight_le le_rfl
  · rename_i htoken
    rw [Lexeme.Spelled, htoken] at hopener
    rw [htoken] at hl
    have hround : opener.source = ['('] := hopener
    obtain ⟨inner, hinner, hread⟩ := bind_eq_ok hread
    cases hread
    rw [Option.toList_some, allPlainDigits, allPlainDigits, Bool.and_true, hasPlainDigits] at hplain
    have hload := load_trim_le_of_bounded hcontents hinner hplain
    rw [hsource, hround, hl rfl, Option.toList_some, load_cons, load_nil, add_zero]
    exact (weight_parentheses_le inner.trim).trans (add_le_add le_rfl (add_le_add hload le_rfl))
  · cases hread
    rw [Option.toList_some, load_cons, load_nil, add_zero, text, String.toList_ofList]

/-- Whole trees in which the text has not ended weigh no less than what is written for
them. -/
theorem bounded_of_allWhole {b : Bracket} {ts : List TokenTree} (hwhole : AllWhole b ts)
    (hspelled : ∀ l ∈ allLexemes ts, l.Spelled False) : ∀ t ∈ ts, Bounded t := by
  induction ts using forestInduction generalizing b with
  | nil => exact List.forall_mem_nil _
  | leaf l ts ih =>
    rw [allLexemes, List.forall_mem_append] at hspelled
    refine List.forall_mem_cons.2 ⟨?_, ih hwhole.2.2 hspelled.2⟩
    exact bounded_leaf (hspelled.1 l (List.mem_singleton_self l))
  | block opener contents closer ts ihc ih =>
    obtain ⟨⟨b, l, hopens, hcontents, rfl, hl⟩, -, hts⟩ := hwhole
    rw [allLexemes, lexemes, List.forall_mem_append, List.forall_mem_cons, List.forall_mem_append]
      at hspelled
    obtain ⟨⟨hopener, hinner, hcloser⟩, hspelled⟩ := hspelled
    refine List.forall_mem_cons.2 ⟨bounded_block hopener ?_ (ihc hcontents hinner), ih hts hspelled⟩
    intro hround
    have hlspelled := hcloser l (by simp)
    rw [Lexeme.Spelled, hl, Option.some.inj (hopens.symm.trans hround)] at hlspelled
    exact hlspelled

end Component

end CssPruning
