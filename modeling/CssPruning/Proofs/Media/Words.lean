import CssPruning.Media.Parser
import CssPruning.Proofs.Text.Lower
import CssPruning.Proofs.Token.Word

/-!
# Words of media queries

The words of a query are its type, which may have a keyword in front, and the `and`
behind it.  They are recognized without backing up over more than the type: the type
is the longest name that leaves the end of the text or an `and` behind it.  Here is
what each recognizer finds, said by how the text is put together (`IsType`, `Joint`),
and that it finds something whenever the text is put together so.
-/

set_option autoImplicit false

namespace CssPruning.Media

open Text

/-! ## Characters -/

/-- Nothing but blanks. -/
def Blanks (cs : List Char) : Prop := ∀ c ∈ cs, isBlank c = true

instance (cs : List Char) : Decidable (Blanks cs) := List.decidableBAll _ cs

theorem blanks_nil : Blanks [] := List.forall_mem_nil _

theorem isWordChar_iff {c : Char} : isWordChar c = true ↔
    c.isAlpha = true ∨ c.isDigit = true ∨ c ∈ ['_', '\u017F', '\u212A', '-'] := by
  simp only [isWordChar, isWordStart, Bool.or_eq_true, beq_iff_eq, List.mem_cons, List.not_mem_nil,
    or_false]
  tauto

theorem isBlank_of_isWordChar {c : Char} (h : isWordChar c = true) : isBlank c = false := by
  rcases isWordChar_iff.1 h with h | h | h
  · have := Token.toNat_of_isAlpha h
    simp only [isBlank, Bool.or_eq_false_iff, Bool.and_eq_false_iff, decide_eq_false_iff_not,
      beq_eq_false_iff_ne]
    omega
  · have := Token.toNat_of_isDigit h
    simp only [isBlank, Bool.or_eq_false_iff, Bool.and_eq_false_iff, decide_eq_false_iff_not,
      beq_eq_false_iff_ne]
    omega
  · have hnone : ['_', '\u017F', '\u212A', '-'].any isBlank = false := by decide
    rw [List.any_eq_false] at hnone
    simpa using hnone c h

theorem isWordChar_of_isWordStart {c : Char} (h : isWordStart c = true) : isWordChar c = true := by
  rw [isWordChar, h]
  rfl

/-- A small letter is made of a letter. -/
theorem isWordStart_of_toLower {c : Char} (h : c.toLower.isAlpha = true) :
    isWordStart c = true := by
  rw [isAlpha_toLower] at h
  rw [isWordStart, h]
  rfl

theorem isWordStart_toLower (c : Char) : isWordStart c.toLower = isWordStart c := by
  rw [isWordStart, isWordStart, isAlpha_toLower, toLower_beq rfl, toLower_beq rfl, toLower_beq rfl]

theorem isWordChar_toLower (c : Char) : isWordChar c.toLower = isWordChar c := by
  rw [isWordChar, isWordChar, isWordStart_toLower, isDigit_toLower, toLower_beq rfl]

/-! ## Blanks in front -/

theorem trimStart_blanks_append {bs : List Char} (h : Blanks bs) (cs : List Char) :
    trimStart (bs ++ cs) = trimStart cs := by
  rw [trimStart, trimStart, List.dropWhile_append, List.dropWhile_eq_nil_iff.2 h]
  rfl

theorem exists_blanks_trimStart (cs : List Char) : ∃ bs, Blanks bs ∧ cs = bs ++ trimStart cs :=
  ⟨cs.takeWhile isBlank, fun _ hc => List.mem_takeWhile_imp hc,
    (List.takeWhile_append_dropWhile ..).symm⟩

theorem any_head?_trimStart (cs : List Char) : (trimStart cs).head?.any isBlank = false :=
  any_head?_dropWhile_isBlank cs

/-! ## Keywords -/

/-- A keyword in whatever letters. -/
def IsKeyword (small : String) (cs : List Char) : Prop := cs.map Char.toLower = small.toList

instance (small : String) (cs : List Char) : Decidable (IsKeyword small cs) :=
  inferInstanceAs (Decidable (_ = _))

theorem afterKeyword_eq_some_iff {ks cs rest : List Char} :
    afterKeyword ks cs = some rest ↔ ∃ word, cs = word ++ rest ∧ word.map Char.toLower = ks := by
  induction ks generalizing cs with
  | nil =>
    rw [afterKeyword, Option.some.injEq]
    constructor
    · rintro rfl
      exact ⟨[], rfl, rfl⟩
    · rintro ⟨word, rfl, hword⟩
      rw [List.map_eq_nil_iff.1 hword, List.nil_append]
  | cons k ks ih =>
    cases cs with
    | nil =>
      refine iff_of_false (by simp [afterKeyword]) ?_
      rintro ⟨word, hcs, hword⟩
      rw [(List.append_eq_nil_iff.1 hcs.symm).1] at hword
      cases hword
    | cons c cs =>
      rw [afterKeyword]
      constructor
      · intro h
        split at h
        · rename_i hc
          obtain ⟨word, rfl, rfl⟩ := ih.1 h
          exact ⟨c :: word, rfl, by rw [List.map_cons, eq_of_beq hc]⟩
        · cases h
      · rintro ⟨word, hcs, hword⟩
        cases word with
        | nil => cases hword
        | cons d word =>
          obtain ⟨rfl, rfl⟩ := List.cons.inj hcs
          obtain ⟨rfl, rfl⟩ := List.cons.inj hword
          rw [if_pos (beq_self_eq_true _)]
          exact ih.2 ⟨word, rfl, rfl⟩

/-! ## The joint between a type or a condition and what follows -/

/-- An `and`, with blanks around it or without. -/
def Joint (cs : List Char) : Prop :=
  ∃ before word behind, cs = before ++ word ++ behind ∧ Blanks before ∧ IsKeyword "and" word ∧
    Blanks behind

theorem any_head?_of_isKeyword_and {word : List Char} (h : IsKeyword "and" word)
    (cs : List Char) : (word ++ cs).head?.any isBlank = false := by
  cases word with
  | nil => cases h
  | cons c word =>
    have hc : c.toLower = 'a' := (List.cons.inj h).1
    have hstart : isWordStart c = true := isWordStart_of_toLower (by rw [hc]; rfl)
    exact isBlank_of_isWordChar (isWordChar_of_isWordStart hstart)

theorem trimStart_joint_append {before word : List Char} (hbefore : Blanks before)
    (hword : IsKeyword "and" word) (cs : List Char) :
    trimStart (before ++ word ++ cs) = word ++ cs := by
  rw [List.append_assoc, trimStart_blanks_append hbefore]
  exact dropWhile_isBlank (any_head?_of_isKeyword_and hword cs)

/-- What stands behind a joint that is as long as can be, in one line. -/
def Behind (cs more : List Char) : Prop :=
  (∃ joint, Joint joint ∧ cs = joint ++ more) ∧ more.head?.any isBlank = false ∧ '\n' ∉ more

theorem tail_eq_some_none_iff {cs : List Char} : tail cs = some none ↔ cs = [] := by
  unfold tail
  cases cs with
  | nil => exact iff_of_true rfl rfl
  | cons c cs =>
    refine iff_of_false ?_ (List.cons_ne_nil _ _)
    rw [if_neg (by simp)]
    split
    · dsimp only
      split <;> simp
    · simp

theorem tail_eq_some_some_iff {cs more : List Char} :
    tail cs = some (some more) ↔ Behind cs more := by
  constructor
  · intro h
    unfold tail at h
    split at h
    · cases h
    · split at h
      · rename_i rest hrest
        obtain ⟨word, hword, hand⟩ := afterKeyword_eq_some_iff.1 hrest
        obtain ⟨before, hbefore, hcs⟩ := exists_blanks_trimStart cs
        obtain ⟨behind, hbehind, hmore⟩ := exists_blanks_trimStart rest
        dsimp only at h
        split at h
        · cases h
        · rename_i hline
          obtain rfl := Option.some.inj (Option.some.inj h)
          refine ⟨⟨before ++ word ++ behind, ⟨before, word, behind, rfl, hbefore, hand, hbehind⟩,
            ?_⟩, any_head?_trimStart rest, by simpa using hline⟩
          rw [List.append_assoc, List.append_assoc, ← hmore, ← hword, ← hcs]
      · cases h
  · rintro ⟨⟨_, ⟨before, word, behind, rfl, hbefore, hand, hbehind⟩, rfl⟩, hhead, hline⟩
    have hne : (before ++ word ++ behind ++ more).isEmpty = false := by
      cases word with
      | nil => cases hand
      | cons c word => simp
    have hrest : afterKeyword ['a', 'n', 'd'] (trimStart (before ++ word ++ behind ++ more)) =
        some (behind ++ more) := by
      rw [List.append_assoc, trimStart_joint_append hbefore hand]
      exact afterKeyword_eq_some_iff.2 ⟨word, rfl, hand⟩
    rw [tail, hne, if_neg (by decide), hrest]
    dsimp only
    rw [trimStart_blanks_append hbehind, trimStart, dropWhile_isBlank hhead, if_neg (by simpa using hline)]

/-- Behind a joint stands what is left of a text of one line without the blanks in front. -/
theorem tail_joint_append {joint more : List Char} (hjoint : Joint joint) (hline : '\n' ∉ more) :
    tail (joint ++ more) = some (some (trimStart more)) := by
  obtain ⟨before, word, behind, rfl, hbefore, hand, hbehind⟩ := hjoint
  obtain ⟨bs, hbs, hmore⟩ := exists_blanks_trimStart more
  refine tail_eq_some_some_iff.2 ⟨⟨before ++ word ++ (behind ++ bs), ?_, ?_⟩,
    any_head?_trimStart more, ?_⟩
  · refine ⟨before, word, behind ++ bs, rfl, hbefore, hand, ?_⟩
    exact List.forall_mem_append.2 ⟨hbehind, hbs⟩
  · rw [List.append_assoc, List.append_assoc, List.append_assoc, List.append_assoc,
      List.append_assoc, ← hmore]
  · intro hmem
    exact hline (hmore ▸ List.mem_append_right _ hmem)

/-! ## Names and types -/

/-- A name: a letter or an underscore, and then letters, underscores, digits and hyphens. -/
def IsName (cs : List Char) : Prop :=
  cs.head?.any isWordStart = true ∧ ∀ c ∈ cs, isWordChar c = true

instance (cs : List Char) : Decidable (IsName cs) :=
  @instDecidableAnd _ _ inferInstance (List.decidableBAll _ cs)

/-- A keyword that may stand in front of a type. -/
def IsPrefixWord (word : List Char) : Prop := IsKeyword "only" word ∨ IsKeyword "not" word

/-- A type with a keyword in front of it, or without. -/
def IsType (cs : List Char) : Prop :=
  IsName cs ∨ ∃ word gap name, cs = word ++ gap ++ name ∧ IsPrefixWord word ∧ Blanks gap ∧
    gap ≠ [] ∧ IsName name

theorem shorten_eq_some {name rest n : List Char} {more : Option (List Char)}
    (h : shorten name rest = some (n, more)) :
    n ≠ [] ∧ ∃ left, name.reverse = n ++ left ∧ tail (left ++ rest) = some more := by
  induction name generalizing rest with
  | nil => cases h
  | cons c name ih =>
    rw [shorten] at h
    split at h
    · rename_i more' htail
      cases h
      exact ⟨by simp, [], by rw [List.append_nil], htail⟩
    · obtain ⟨hn, left, hname, htail⟩ := ih h
      refine ⟨hn, left ++ [c], ?_, ?_⟩
      · rw [List.reverse_cons, hname, List.append_assoc]
      · rwa [List.append_assoc, List.singleton_append]

/-- Some name is found if there is one. -/
theorem isSome_shorten {name rest n left : List Char} (hn : n ≠ []) (hname : name.reverse = n ++ left)
    (htail : (tail (left ++ rest)).isSome = true) : (shorten name rest).isSome = true := by
  induction name generalizing rest left with
  | nil =>
    rw [List.reverse_nil] at hname
    exact absurd (List.append_eq_nil_iff.1 hname.symm).1 hn
  | cons c name ih =>
    rw [shorten]
    split
    · rfl
    · rename_i hno
      cases hleft : left.reverse with
      | nil =>
        rw [List.reverse_eq_nil_iff.1 hleft, List.nil_append, hno] at htail
        cases htail
      | cons d left' =>
        have hleft' : left = left'.reverse ++ [d] := by
          rw [← List.reverse_reverse left, hleft, List.reverse_cons]
        rw [hleft', List.reverse_cons, ← List.append_assoc] at hname
        obtain ⟨hname', hcd⟩ := List.append_inj' hname rfl
        obtain ⟨rfl, -⟩ := List.cons.inj hcd
        refine ih hname' ?_
        rwa [hleft', List.append_assoc, List.singleton_append] at htail

theorem IsName.ne_nil {cs : List Char} (h : IsName cs) : cs ≠ [] := by
  rintro rfl
  cases h.1

theorem IsName.trimStart_append {name : List Char} (h : IsName name) (cs : List Char) :
    trimStart (name ++ cs) = name ++ cs := by
  refine dropWhile_isBlank ?_
  cases name with
  | nil => exact absurd rfl h.ne_nil
  | cons c name => exact isBlank_of_isWordChar (h.2 c List.mem_cons_self)

theorem IsName.any_head?_append {name : List Char} (h : IsName name) (cs : List Char) :
    (name ++ cs).head?.any isWordStart = true := by
  rw [List.head?_append_of_ne_nil _ h.ne_nil]
  exact h.1

/-- A type without a keyword, as it is found. -/
theorem typed_eq_some {negated : Bool} {cs : List Char} {o : Outline}
    (h : typed negated cs = some o) :
    o.first = [] ∧ ∃ gap name rest, cs = gap ++ name ++ rest ∧ Blanks gap ∧ IsName name ∧
      tail rest = some o.more ∧ o.mediaType = lowerAscii (String.ofList name) := by
  unfold typed at h
  dsimp only at h
  split at h
  case isFalse => cases h
  case isTrue hstart =>
    obtain ⟨⟨name, more⟩, hshorten, rfl⟩ := Option.map_eq_some_iff.1 h
    obtain ⟨hne, left, hrun, htail⟩ := shorten_eq_some hshorten
    obtain ⟨gap, hgap, hcs⟩ := exists_blanks_trimStart cs
    rw [List.reverse_reverse] at hrun
    have hword : trimStart cs = name ++ (left ++ (trimStart cs).dropWhile isWordChar) := by
      rw [← List.append_assoc, ← hrun, List.takeWhile_append_dropWhile]
    refine ⟨rfl, gap, name, left ++ (trimStart cs).dropWhile isWordChar, ?_, hgap, ⟨?_, ?_⟩, htail,
      rfl⟩
    · rw [List.append_assoc, ← hword, ← hcs]
    · rwa [hword, List.head?_append_of_ne_nil _ hne] at hstart
    · intro c hc
      exact List.mem_takeWhile_imp (hrun ▸ List.mem_append_left _ hc)

/-- A type without a keyword is found if there is one. -/
theorem isSome_typed (negated : Bool) {gap name rest : List Char} (hgap : Blanks gap)
    (hname : IsName name) (htail : (tail rest).isSome = true) :
    (typed negated (gap ++ name ++ rest)).isSome = true := by
  have hstart : trimStart (gap ++ name ++ rest) = name ++ rest := by
    rw [List.append_assoc, trimStart_blanks_append hgap, hname.trimStart_append]
  rw [typed, hstart]
  dsimp only
  rw [if_pos (hname.any_head?_append rest), Option.isSome_map,
    List.takeWhile_append_of_pos hname.2, List.dropWhile_append_of_pos hname.2]
  apply isSome_shorten hname.ne_nil (List.reverse_reverse _)
  rwa [List.takeWhile_append_dropWhile]

/-- A name with nothing behind it is a type with nothing behind it. -/
theorem more_of_typed_name {negated : Bool} {gap name : List Char} {o : Outline}
    (hgap : Blanks gap) (hname : ∀ c ∈ name, isWordChar c = true)
    (h : typed negated (gap ++ name) = some o) : o.more = none := by
  have hstart : trimStart (gap ++ name) = name := by
    rw [trimStart_blanks_append hgap]
    cases name with
    | nil => rfl
    | cons c name =>
      exact dropWhile_isBlank (isBlank_of_isWordChar (hname c List.mem_cons_self))
  have hdrop : name.dropWhile isWordChar = [] := List.dropWhile_eq_nil_iff.2 hname
  rw [typed, hstart] at h
  dsimp only at h
  split at h
  case isFalse => cases h
  case isTrue hhead =>
    obtain ⟨⟨n, more⟩, hshorten, rfl⟩ := Option.map_eq_some_iff.1 h
    rw [hdrop] at hshorten
    cases hrev : (name.takeWhile isWordChar).reverse with
    | nil =>
      rw [hrev] at hshorten
      cases hshorten
    | cons c cs =>
      rw [hrev, shorten, tail_eq_some_none_iff.2 rfl] at hshorten
      cases hshorten
      rfl

/-! ## Keywords in front of types -/

theorem withKeyword_eq_some {cs : List Char} {o : Outline} (h : withKeyword cs = some o) :
    ∃ word rest negated, cs = word ++ rest ∧ IsPrefixWord word ∧ typed negated rest = some o := by
  unfold withKeyword at h
  split at h
  · rename_i rest honly
    obtain ⟨word, rfl, hword⟩ := afterKeyword_eq_some_iff.1 honly
    exact ⟨word, rest, false, rfl, .inl hword, h⟩
  · obtain ⟨rest, hnot, htyped⟩ := Option.bind_eq_some_iff.1 h
    obtain ⟨word, rfl, hword⟩ := afterKeyword_eq_some_iff.1 hnot
    exact ⟨word, rest, true, rfl, .inr hword, htyped⟩

theorem withKeyword_only_append {word : List Char} (h : IsKeyword "only" word)
    (rest : List Char) : withKeyword (word ++ rest) = typed false rest := by
  have honly : afterKeyword ['o', 'n', 'l', 'y'] (word ++ rest) = some rest :=
    afterKeyword_eq_some_iff.2 ⟨word, rfl, h⟩
  rw [withKeyword, honly]

theorem withKeyword_not_append {word : List Char} (h : IsKeyword "not" word)
    (rest : List Char) : withKeyword (word ++ rest) = typed true rest := by
  have hnot : afterKeyword ['n', 'o', 't'] (word ++ rest) = some rest :=
    afterKeyword_eq_some_iff.2 ⟨word, rfl, h⟩
  have honly : afterKeyword ['o', 'n', 'l', 'y'] (word ++ rest) = none := by
    cases word with
    | nil => cases h
    | cons c word =>
      have hc : c.toLower = 'n' := (List.cons.inj h).1
      rw [List.cons_append, afterKeyword, hc]
      rfl
  rw [withKeyword, honly, hnot]
  rfl

theorem withKeyword_append {word : List Char} (h : IsPrefixWord word) (rest : List Char) :
    ∃ negated, withKeyword (word ++ rest) = typed negated rest := by
  rcases h with h | h
  · exact ⟨false, withKeyword_only_append h rest⟩
  · exact ⟨true, withKeyword_not_append h rest⟩

/-- A keyword right in front of a name goes on as a name. -/
theorem IsPrefixWord.isName_append {word name : List Char} (h : IsPrefixWord word)
    (hname : ∀ c ∈ name, isWordChar c = true) : IsName (word ++ name) := by
  have hletters : ∀ c ∈ word, isWordStart c = true := by
    have hsmall : ∀ c ∈ word, c.toLower ∈ "only".toList ∨ c.toLower ∈ "not".toList := by
      intro c hc
      rcases h with h | h
      · exact .inl (h ▸ List.mem_map_of_mem hc)
      · exact .inr (h ▸ List.mem_map_of_mem hc)
    have halpha : ∀ d, d ∈ "only".toList ∨ d ∈ "not".toList → d.isAlpha = true := by
      intro d hd
      rcases hd with hd | hd
      · exact List.all_eq_true.1 (show "only".toList.all Char.isAlpha = true by decide) d hd
      · exact List.all_eq_true.1 (show "not".toList.all Char.isAlpha = true by decide) d hd
    exact fun c hc => isWordStart_of_toLower (halpha _ (hsmall c hc))
  cases word with
  | nil => rcases h with h | h <;> cases h
  | cons c word =>
    refine ⟨hletters c List.mem_cons_self, ?_⟩
    intro d hd
    rcases List.mem_append.1 hd with hd | hd
    · exact isWordChar_of_isWordStart (hletters d hd)
    · exact hname d hd

/-! ## Types -/

/-- What is read as a type, with a keyword if that can be. -/
def withType (cs : List Char) : Option Outline := (withKeyword cs).or (typed false cs)

theorem outline_eq (cs : List Char) : outline cs = (withType cs).or (untyped cs) :=
  Option.or_assoc.symm

theorem withType_eq_some {cs : List Char} {o : Outline} (hcs : cs.head?.any isBlank = false)
    (h : withType cs = some o) :
    o.first = [] ∧ ∃ type rest, cs = type ++ rest ∧ IsType type ∧ tail rest = some o.more := by
  rcases Option.or_eq_some_iff.1 h with h | ⟨-, h⟩
  · obtain ⟨word, rest, negated, rfl, hword, h⟩ := withKeyword_eq_some h
    obtain ⟨hfirst, gap, name, rest, rfl, hgap, hname, htail, -⟩ := typed_eq_some h
    refine ⟨hfirst, word ++ gap ++ name, rest, by simp only [List.append_assoc], ?_, htail⟩
    by_cases hne : gap = []
    · rw [hne, List.append_nil]
      exact .inl (hword.isName_append hname.2)
    · exact .inr ⟨word, gap, name, rfl, hword, hgap, hne, hname⟩
  · obtain ⟨hfirst, gap, name, rest, rfl, hgap, hname, htail, -⟩ := typed_eq_some h
    -- the text does not start with a blank
    cases gap with
    | nil => exact ⟨hfirst, name, rest, rfl, .inl hname, htail⟩
    | cons c gap =>
      rw [List.cons_append, List.cons_append, List.head?_cons, Option.any_some,
        hgap c List.mem_cons_self] at hcs
      cases hcs

/-- A type is found if there is one. -/
theorem isSome_withType {type rest : List Char} (h : IsType type)
    (htail : (tail rest).isSome = true) : (withType (type ++ rest)).isSome = true := by
  rw [withType, Option.isSome_or, Bool.or_eq_true]
  rcases h with h | ⟨word, gap, name, rfl, hword, hgap, -, hname⟩
  · exact .inr (isSome_typed false blanks_nil h htail)
  · obtain ⟨negated, hkeyword⟩ := withKeyword_append hword (gap ++ name ++ rest)
    left
    rw [List.append_assoc word, List.append_assoc word, hkeyword]
    exact isSome_typed negated hgap hname htail

/-- A type with nothing behind it is found as one. -/
theorem more_of_withType {type : List Char} {o : Outline} (h : IsType type)
    (ho : withType type = some o) : o.more = none := by
  rcases h with h | ⟨word, gap, name, rfl, hword, hgap, -, hname⟩
  · rcases Option.or_eq_some_iff.1 ho with ho | ⟨-, ho⟩
    · obtain ⟨word, rest, negated, rfl, -, ho⟩ := withKeyword_eq_some ho
      rw [← List.nil_append rest] at ho
      exact more_of_typed_name blanks_nil (fun c hc => h.2 c (List.mem_append_right _ hc)) ho
    · rw [← List.nil_append type] at ho
      exact more_of_typed_name blanks_nil h.2 ho
  · obtain ⟨negated, hkeyword⟩ := withKeyword_append hword (gap ++ name)
    have hsome : (typed negated (gap ++ name ++ [])).isSome = true :=
      isSome_typed negated hgap hname rfl
    rw [List.append_nil] at hsome
    obtain ⟨o', ho'⟩ := Option.isSome_iff_exists.1 hsome
    rw [withType, List.append_assoc, hkeyword, ho', Option.some_or] at ho
    obtain rfl := Option.some.inj ho
    exact more_of_typed_name hgap hname.2 ho'

theorem IsType.ne_nil {type : List Char} (h : IsType type) : type ≠ [] := by
  rcases h with h | ⟨word, gap, name, rfl, -, -, -, hname⟩
  · exact h.ne_nil
  · have := hname.ne_nil
    simp [this]

/-- No parenthesis stands in a type. -/
theorem not_mem_of_isType {type : List Char} (h : IsType type) : '(' ∉ type := by
  have hword : ∀ cs : List Char, (∀ c ∈ cs, isWordChar c = true) → '(' ∉ cs := by
    intro cs hcs hmem
    exact absurd (hcs _ hmem) (by decide)
  rcases h with h | ⟨word, gap, name, rfl, hkeyword, hgap, -, hname⟩
  · exact hword _ h.2
  · have hfront : ∀ c ∈ word ++ [], isWordChar c = true :=
      (hkeyword.isName_append (List.forall_mem_nil _)).2
    rw [List.append_nil] at hfront
    rw [List.mem_append, List.mem_append, not_or, not_or]
    refine ⟨⟨hword _ hfront, fun hmem => absurd (hgap _ hmem) (by decide)⟩, hword _ hname.2⟩

/-- Nothing stands in a joint but blanks and the letters of `and`. -/
theorem not_mem_of_joint {cs : List Char} {c : Char} (h : Joint cs) (hblank : isBlank c = false)
    (hand : c.toLower ∉ "and".toList) : c ∉ cs := by
  obtain ⟨before, word, behind, rfl, hbefore, hword, hbehind⟩ := h
  have hblanks : ∀ bs, Blanks bs → c ∉ bs := by
    intro bs hbs hmem
    rw [hbs c hmem] at hblank
    cases hblank
  rw [List.mem_append, List.mem_append, not_or, not_or]
  exact ⟨⟨hblanks _ hbefore, fun hmem => hand (hword ▸ List.mem_map_of_mem hmem)⟩,
    hblanks _ hbehind⟩

end CssPruning.Media
