import CssPruning.Media.Relevance
import CssPruning.Proofs.Media.Parentheses

/-!
# The letter case of media queries

A query is read without regard to the case of its letters, but its values are kept as
they are written, and so is a part that cannot be read.  What is looked at later, the
number and the unit of a value and the name of an orientation, is read without regard
to letter case again.

So the text in small letters is read as the queries with their values in small letters
(`parseList_lowerAscii`), each function of the reader and of the judges with its own
share of that; and no target tells a query from its copy with small values.  A place
that looked at a letter as it stands would have no such lemma.
-/

set_option autoImplicit false

namespace CssPruning

open Text

/-! ## Decimals -/

namespace Decimal

theorem map_toLower_of_digits {ds : List Char} (h : ∀ d ∈ ds, d.isDigit = true) :
    ds.map Char.toLower = ds :=
  (List.map_congr_left fun d hd => toLower_of_isDigit (h d hd)).trans (List.map_id ds)

theorem takeWhile_isDigit_map_toLower (cs : List Char) :
    (cs.map Char.toLower).takeWhile Char.isDigit = cs.takeWhile Char.isDigit := by
  rw [takeWhile_map_toLower isDigit_toLower]
  exact map_toLower_of_digits fun d hd => List.mem_takeWhile_imp hd

theorem splitSign_cons (c : Char) (cs : List Char) :
    splitSign (c :: cs) =
      if c == '-' then (true, cs) else if c == '+' then (false, cs) else (false, c :: cs) := by
  by_cases hminus : c = '-'
  · rw [hminus]
    rfl
  · by_cases hplus : c = '+'
    · rw [hplus]
      rfl
    · rw [beq_false_of_ne hminus, beq_false_of_ne hplus]
      unfold splitSign
      split <;> simp_all

theorem splitSign_map_toLower (cs : List Char) :
    splitSign (cs.map Char.toLower) =
      ((splitSign cs).1, (splitSign cs).2.map Char.toLower) := by
  cases cs with
  | nil => rfl
  | cons c cs =>
    rw [List.map_cons, splitSign_cons, splitSign_cons, toLower_beq rfl, toLower_beq rfl]
    split
    · rfl
    · split <;> rfl

/-- The letter in front of an exponent is read in either case. -/
theorem exponentLetter_toLower (c : Char) :
    (c.toLower == 'e' || c.toLower == 'E') = (c == 'e' || c == 'E') := by
  by_cases h : c.val ≥ 'A'.val ∧ c.val ≤ 'Z'.val
  · have hlower := toNat_toLower h
    have hle : c.toNat ≤ 90 := h.2
    have hge : 65 ≤ c.toNat := h.1
    rw [Bool.eq_iff_iff, Bool.or_eq_true, Bool.or_eq_true, beq_iff_eq, beq_iff_eq, beq_iff_eq,
      beq_iff_eq, ← Char.toNat_inj, ← Char.toNat_inj, ← Char.toNat_inj, ← Char.toNat_inj, hlower]
    change c.toNat + 32 = 101 ∨ c.toNat + 32 = 69 ↔ c.toNat = 101 ∨ c.toNat = 69
    omega
  · rw [toLower_of_not h]

theorem exponentOf_map_toLower (cs : List Char) :
    exponentOf (cs.map Char.toLower) = exponentOf cs := by
  cases cs with
  | nil => rfl
  | cons e cs =>
    have hall (ds : List Char) : (ds.map Char.toLower).all Char.isDigit = ds.all Char.isDigit := by
      rw [List.all_map, show Char.isDigit ∘ Char.toLower = Char.isDigit from funext isDigit_toLower]
    rw [List.map_cons, exponentOf, exponentOf, exponentLetter_toLower, splitSign_map_toLower]
    dsimp only
    rw [hall, List.isEmpty_map]
    split
    · split
      · rfl
      · rename_i hdigits
        rw [Bool.or_eq_true, not_or, Bool.not_eq_true', Bool.not_eq_false] at hdigits
        rw [map_toLower_of_digits (List.all_eq_true.1 hdigits.2)]
    · rfl

theorem wordValue_map_toLower (cs : List Char) :
    wordValue (cs.map Char.toLower) = wordValue cs := by
  rw [wordValue, wordValue, map_toLower_map_toLower]

/-- The digits behind a point, and what follows them. -/
def fraction : List Char → List Char × List Char
  | '.' :: r => (r.takeWhile Char.isDigit, r.dropWhile Char.isDigit)
  | r => ([], r)

theorem fraction_cons (c : Char) (cs : List Char) :
    fraction (c :: cs) =
      if c == '.' then (cs.takeWhile Char.isDigit, cs.dropWhile Char.isDigit)
      else ([], c :: cs) := by
  by_cases hpoint : c = '.'
  · rw [hpoint]
    rfl
  · rw [beq_false_of_ne hpoint]
    unfold fraction
    split <;> simp_all

theorem fraction_map_toLower (cs : List Char) :
    fraction (cs.map Char.toLower) = ((fraction cs).1, (fraction cs).2.map Char.toLower) := by
  cases cs with
  | nil => rfl
  | cons c cs =>
    rw [List.map_cons, fraction_cons, fraction_cons, toLower_beq rfl]
    split
    · rw [takeWhile_isDigit_map_toLower, dropWhile_map_toLower isDigit_toLower]
    · rfl

theorem magnitude_eq (cs : List Char) : magnitude cs =
    let whole := cs.takeWhile Char.isDigit
    let (part, rest) := fraction (cs.dropWhile Char.isDigit)
    if whole.isEmpty && part.isEmpty then wordValue cs
    else (exponentOf rest).map fun e => nearest (ofDigits (whole ++ part)) (e - part.length) := rfl

theorem magnitude_map_toLower (cs : List Char) :
    magnitude (cs.map Char.toLower) = magnitude cs := by
  rw [magnitude_eq, magnitude_eq, dropWhile_map_toLower isDigit_toLower, fraction_map_toLower,
    takeWhile_isDigit_map_toLower]
  dsimp only
  rw [wordValue_map_toLower, exponentOf_map_toLower]

theorem read_map_toLower (cs : List Char) : read (cs.map Char.toLower) = read cs := by
  rw [read, read, splitSign_map_toLower]
  dsimp only
  rw [magnitude_map_toLower]

end Decimal

namespace Media

/-! ## Values -/

theorem isNumeral_toLower (c : Char) : isNumeral c.toLower = isNumeral c := by
  rw [isNumeral, isNumeral, isDigit_toLower, toLower_beq rfl, toLower_beq rfl, toLower_beq rfl]

theorem lengthPx_lowerAscii (text : String) : lengthPx (lowerAscii text) = lengthPx text := by
  unfold lengthPx
  rw [toList_lowerAscii, trim_map_toLower]
  dsimp only
  rw [takeWhile_map_toLower isNumeral_toLower, dropWhile_map_toLower isNumeral_toLower,
    Decimal.read_map_toLower, trim_map_toLower, ← lowerAscii_ofList, lowerAscii_lowerAscii]

theorem ratio_lowerAscii (text : String) : ratio (lowerAscii text) = ratio text := by
  unfold ratio
  rw [toList_lowerAscii]
  dsimp only
  rw [takeWhile_bne_map_toLower rfl, dropWhile_bne_map_toLower rfl]
  cases text.toList.dropWhile (· != '/') with
  | nil => simp only [List.map_nil, trim_map_toLower, Decimal.read_map_toLower]
  | cons c den => simp only [List.map_cons, trim_map_toLower, Decimal.read_map_toLower]

/-! ## Conditions and queries with small values -/

/-- The condition with its value in small letters. -/
def Condition.small (c : Condition) : Condition := { c with value := c.value.map lowerAscii }

theorem Condition.holdsFor_small (c : Condition) (value : String) (a : Answer) :
    c.small.holdsFor (lowerAscii value) a = c.holdsFor value a := by
  cases a with
  | length x => rw [holdsFor, holdsFor, lengthPx_lowerAscii]; rfl
  | ratio x => rw [holdsFor, holdsFor, ratio_lowerAscii]; rfl
  | orientation name =>
    have htrim : lowerAscii (trimmed (lowerAscii value)) = lowerAscii (trimmed value) := by
      rw [trimmed, toList_lowerAscii, trim_map_toLower, ← lowerAscii_ofList, lowerAscii_lowerAscii,
        trimmed]
    rw [holdsFor, holdsFor, sameAscii, htrim]
    rfl

theorem Condition.holds_small (c : Condition) (t : Target) : c.small.holds t = c.holds t := by
  obtain ⟨bound, feature, value⟩ := c
  unfold holds small
  dsimp only
  cases answer feature t with
  | none => rfl
  | some a =>
    cases value with
    | none => rfl
    | some value => exact holdsFor_small ⟨bound, feature, some value⟩ value a

namespace Query

/-- The query with its values in small letters. -/
def small (q : Query) : Query := { q with conditions := q.conditions.map Condition.small }

theorem matchesTarget_small (q : Query) (t : Target) :
    q.small.matchesTarget t = q.matchesTarget t := by
  have hall : (q.conditions.map Condition.small).all (·.holds t) =
      q.conditions.all (·.holds t) := by
    rw [List.all_map]
    exact congrArg q.conditions.all (funext fun c => c.holds_small t)
  rw [matchesTarget, matchesTarget, small, hall]
  rfl

theorem chainRelevant_map_small (cs : List Condition) (negated : Bool) (t : Target) :
    chainRelevant (cs.map Condition.small) negated t = chainRelevant cs negated t := by
  have hconsidered : (cs.map Condition.small).filter (fun c => !c.isDensity) =
      (cs.filter fun c => !c.isDensity).map Condition.small := by
    rw [List.filter_map]
    rfl
  rw [chainRelevant, chainRelevant, hconsidered, List.isEmpty_map]
  split
  · rfl
  · exact congrArg (· != negated) (matchesTarget_small (ofConditions _) t)

theorem conditionRelevant_small (q : Query) (t : Target) (c : Condition) :
    q.small.conditionRelevant t c.small = q.conditionRelevant t c := by
  have hone : (ofConditions [c.small]).matchesTarget t = (ofConditions [c]).matchesTarget t :=
    matchesTarget_small (ofConditions [c]) t
  have hchain : chainRelevant q.small.conditions q.inverse t =
      chainRelevant q.conditions q.inverse t := chainRelevant_map_small q.conditions q.inverse t
  have hlength : q.small.conditions.length = q.conditions.length := List.length_map _
  have hinverse : q.small.inverse = q.inverse := rfl
  have hbound : c.small.bound = c.bound := rfl
  rw [conditionRelevant, conditionRelevant, hinverse, hbound, hone, hlength, hchain]

theorem relevant_small (q : Query) (t : Target) : q.small.relevant t = q.relevant t := by
  have hany : (q.conditions.map Condition.small).any (q.small.conditionRelevant t) =
      q.conditions.any (q.conditionRelevant t) := by
    rw [List.any_map]
    exact congrArg q.conditions.any (funext fun c => q.conditionRelevant_small t c)
  have hempty : (q.conditions.map Condition.small).isEmpty = q.conditions.isEmpty :=
    List.isEmpty_map
  have hconditions : q.small.conditions = q.conditions.map Condition.small := rfl
  have hinverse : q.small.inverse = q.inverse := rfl
  have htype : q.small.mediaType = q.mediaType := rfl
  rw [relevant, relevant, hconditions, hempty, hany, hinverse, htype]

end Query

/-! ## Readings of the text in small letters -/

/-- The part at fault in small letters. -/
def QueryError.small (e : QueryError) : QueryError := ⟨lowerAscii e.query⟩

/-- A reading with its value changed, or with the part at fault in small letters. -/
def smallReading {α : Type} (small : α → α) : Except QueryError α → Except QueryError α
  | .ok a => .ok (small a)
  | .error e => .error e.small

/-- Parts are read one by one. -/
theorem mapM_map_toLower {α : Type} {read : List Char → Except QueryError α} {small : α → α}
    (h : ∀ cs, read (cs.map Char.toLower) = smallReading small (read cs))
    (parts : List (List Char)) :
    (parts.map fun part => part.map Char.toLower).mapM read =
      smallReading (List.map small) (parts.mapM read) := by
  induction parts with
  | nil => rfl
  | cons part parts ih =>
    rw [List.map_cons, List.mapM_cons, List.mapM_cons, h, ih]
    cases read part with
    | error e => rfl
    | ok a =>
      cases parts.mapM read with
      | error e => rfl
      | ok as => rfl

/-! ## Reading -/

theorem afterKeyword_map_toLower (ks cs : List Char) :
    afterKeyword ks (cs.map Char.toLower) = (afterKeyword ks cs).map (List.map Char.toLower) := by
  induction ks generalizing cs with
  | nil => rfl
  | cons k ks ih =>
    cases cs with
    | nil => rfl
    | cons c cs =>
      rw [List.map_cons, afterKeyword, afterKeyword, toLower_toLower, ih]
      split <;> rfl

theorem tail_map_toLower (cs : List Char) :
    tail (cs.map Char.toLower) = (tail cs).map (Option.map (List.map Char.toLower)) := by
  rw [tail, tail, List.isEmpty_map, trimStart_map_toLower, afterKeyword_map_toLower]
  split
  · rfl
  · cases afterKeyword ['a', 'n', 'd'] (trimStart cs) with
    | none => rfl
    | some rest =>
      dsimp only [Option.map_some]
      rw [trimStart_map_toLower, contains_map_toLower rfl]
      split <;> rfl

theorem shorten_map_toLower (name rest : List Char) :
    shorten (name.map Char.toLower) (rest.map Char.toLower) =
      (shorten name rest).map fun (n, more) =>
        (n.map Char.toLower, more.map (List.map Char.toLower)) := by
  induction name generalizing rest with
  | nil => rfl
  | cons c name ih =>
    rw [List.map_cons, shorten, shorten, tail_map_toLower]
    cases tail rest with
    | none => exact ih (c :: rest)
    | some more =>
      rw [Option.map_some, Option.map_some, ← List.map_cons, ← List.map_reverse]

/-- The outline with the texts that are read later in small letters. -/
def Outline.small (o : Outline) : Outline :=
  { o with
    first := o.first.map Char.toLower
    more := o.more.map (List.map Char.toLower) }

theorem typed_map_toLower (negated : Bool) (cs : List Char) :
    typed negated (cs.map Char.toLower) = (typed negated cs).map Outline.small := by
  rw [typed, typed, trimStart_map_toLower]
  dsimp only
  rw [any_head?_map_toLower isWordStart_toLower, takeWhile_map_toLower isWordChar_toLower,
    dropWhile_map_toLower isWordChar_toLower, ← List.map_reverse, shorten_map_toLower]
  split
  · cases shorten ((trimStart cs).takeWhile isWordChar).reverse
      ((trimStart cs).dropWhile isWordChar) with
    | none => rfl
    | some found =>
      obtain ⟨name, more⟩ := found
      dsimp only [Option.map_some, Outline.small]
      rw [← lowerAscii_ofList, lowerAscii_lowerAscii]
      rfl
  · rfl

theorem withKeyword_map_toLower (cs : List Char) :
    withKeyword (cs.map Char.toLower) = (withKeyword cs).map Outline.small := by
  rw [withKeyword, withKeyword, afterKeyword_map_toLower, afterKeyword_map_toLower]
  cases afterKeyword ['o', 'n', 'l', 'y'] cs with
  | some rest => exact typed_map_toLower false rest
  | none =>
    cases afterKeyword ['n', 'o', 't'] cs with
    | some rest => exact typed_map_toLower true rest
    | none => rfl

/-- A parenthesis is there if something stands in front of the first closing one. -/
theorem untyped_cons (c : Char) (cs : List Char) : untyped (c :: cs) =
    if c == '(' && !(cs.takeWhile (· != ')')).isEmpty && !(cs.dropWhile (· != ')')).isEmpty then
      (tail (cs.dropWhile (· != ')')).tail).map fun more =>
        ⟨false, "all", '(' :: cs.takeWhile (· != ')') ++ [')'], more⟩
    else none := by
  by_cases hopen : c = '('
  · subst hopen
    cases hinner : cs.takeWhile (· != ')') with
    | nil => simp [untyped, hinner]
    | cons d inner =>
      cases hrest : cs.dropWhile (· != ')') with
      | nil => simp [untyped, hrest]
      | cons e rest =>
        -- a text is only split in front of a closing parenthesis
        obtain rfl := eq_of_dropWhile_bne hrest
        simp [untyped, hinner, hrest]
  · rw [beq_false_of_ne hopen]
    unfold untyped
    split
    · rename_i heq
      exact absurd (List.cons.inj heq).1 hopen
    · rfl

theorem untyped_map_toLower (cs : List Char) :
    untyped (cs.map Char.toLower) = (untyped cs).map Outline.small := by
  cases cs with
  | nil => rfl
  | cons c cs =>
    rw [List.map_cons, untyped_cons, untyped_cons, toLower_beq rfl,
      takeWhile_bne_map_toLower rfl, dropWhile_bne_map_toLower rfl, List.isEmpty_map,
      List.isEmpty_map, ← List.map_tail, tail_map_toLower]
    split
    · cases tail (cs.dropWhile (· != ')')).tail with
      | none => rfl
      | some more => simp [Outline.small]
    · rfl

theorem outline_map_toLower (cs : List Char) :
    outline (cs.map Char.toLower) = (outline cs).map Outline.small := by
  rw [outline, outline, withKeyword_map_toLower, typed_map_toLower, untyped_map_toLower,
    ← Option.map_or, ← Option.map_or]

theorem parentheses_map_toLower (opened : Option (List Char)) (cs : List Char) :
    parentheses (opened.map (List.map Char.toLower)) (cs.map Char.toLower) =
      (parentheses opened cs).map (List.map Char.toLower) := by
  induction cs generalizing opened with
  | nil => rfl
  | cons c cs ih =>
    cases opened with
    | none =>
      rw [Option.map_none, List.map_cons, parentheses, parentheses, toLower_beq rfl, ← ih]
      split <;> rfl
    | some inner =>
      rw [Option.map_some, List.map_cons, parentheses, parentheses, toLower_beq rfl,
        List.isEmpty_map]
      split
      · split
        · exact ih none
        · rw [← List.map_reverse, List.map_cons, ← ih]
          rfl
      · exact ih (some (c :: inner))

theorem conditionValue_map_toLower (cs : List Char) :
    conditionValue (cs.map Char.toLower) =
      (conditionValue cs).map (Option.map lowerAscii) := by
  cases cs with
  | nil => rfl
  | cons c cs =>
    rw [List.map_cons, conditionValue_cons, conditionValue_cons, toLower_beq rfl, List.isEmpty_map,
      trim_map_toLower, List.isEmpty_map, ← lowerAscii_ofList]
    split
    · split <;> rfl
    · rfl

theorem condition?_map_toLower (inner : List Char) :
    condition? (inner.map Char.toLower) = (condition? inner).map Condition.small := by
  have hstart (c : Char) : (isWordStart c.toLower || c.toLower == '-') =
      (isWordStart c || c == '-') := by
    rw [isWordStart_toLower, toLower_beq rfl]
  rw [condition?, condition?, trimStart_map_toLower]
  dsimp only
  rw [any_head?_map_toLower hstart, takeWhile_map_toLower isWordChar_toLower,
    dropWhile_map_toLower isWordChar_toLower, trimStart_map_toLower, map_toLower_map_toLower,
    conditionValue_map_toLower]
  split
  · cases conditionValue (trimStart ((trimStart inner).dropWhile isWordChar)) with
    | none => rfl
    | some value =>
      dsimp only [Option.map_some]
      split <;> rfl
  · rfl

theorem condition_map_toLower (inner : List Char) :
    condition (inner.map Char.toLower) = smallReading Condition.small (condition inner) := by
  rw [condition, condition, condition?_map_toLower]
  cases condition? inner with
  | some c => rfl
  | none =>
    have hpart : '(' :: inner.map Char.toLower ++ [')'] =
        ('(' :: inner ++ [')']).map Char.toLower := by
      rw [List.map_append]
      rfl
    rw [Option.map_none, smallReading, QueryError.small, lowerAscii_ofList, ← hpart]

theorem conditions_small (o : Outline) :
    conditions o.small =
      (conditions o).map (smallReading (List.map Condition.small)) := by
  obtain ⟨negated, mediaType, first, more⟩ := o
  have hmore : ((more.map (List.map Char.toLower)).any fun more => (trim more).isEmpty) =
      more.any fun more => (trim more).isEmpty := by
    cases more with
    | none => rfl
    | some more =>
      rw [Option.map_some, Option.any_some, trim_map_toLower, List.isEmpty_map]
      rfl
  have htext : trim (first.map Char.toLower ++ (more.map (List.map Char.toLower)).getD []) =
      (trim (first ++ more.getD [])).map Char.toLower := by
    rw [← trim_map_toLower, List.map_append]
    cases more <;> rfl
  have hparentheses (cs : List Char) : parentheses none (cs.map Char.toLower) =
      (parentheses none cs).map (List.map Char.toLower) := parentheses_map_toLower none cs
  rw [conditions, conditions, Outline.small]
  dsimp only
  rw [hmore, htext, List.isEmpty_map, hparentheses]
  split
  · rfl
  · split
    · rfl
    · cases parentheses none (trim (first ++ more.getD [])) with
      | nil => rfl
      | cons inner inners => exact congrArg some (mapM_map_toLower condition_map_toLower _)

theorem query_map_toLower (cs : List Char) :
    query (cs.map Char.toLower) = smallReading Query.small (query cs) := by
  have hunreadable :
      (Except.error ⟨String.ofList (cs.map Char.toLower)⟩ : Except QueryError Query) =
      smallReading Query.small (.error ⟨String.ofList cs⟩) := by
    rw [smallReading, QueryError.small, lowerAscii_ofList]
  rw [query, query, outline_map_toLower]
  cases outline cs with
  | none => exact hunreadable
  | some o =>
    dsimp only [Option.map_some]
    rw [conditions_small]
    cases conditions o with
    | none => exact hunreadable
    | some reading =>
      cases reading <;> rfl

theorem parts_map_toLower (cs : List Char) :
    parts (cs.map Char.toLower) = (parts cs).map (List.map Char.toLower) := by
  induction cs with
  | nil => rfl
  | cons c cs ih =>
    rw [List.map_cons, parts, parts, toLower_beq rfl, ih]
    split
    · rfl
    · cases parts cs <;> rfl

/-- A list in small letters is read as the queries with small values. -/
theorem parseList_lowerAscii (text : String) :
    parseList (lowerAscii text) = smallReading (List.map Query.small) (parseList text) := by
  rw [parseList, parseList, toList_lowerAscii, parts_map_toLower]
  refine mapM_map_toLower (fun cs => ?_) _
  rw [trim_map_toLower, query_map_toLower]

theorem isOk_parseList_lowerAscii (text : String) :
    (parseList (lowerAscii text)).isOk = (parseList text).isOk := by
  rw [parseList_lowerAscii]
  cases parseList text <;> rfl

theorem matchesText_lowerAscii (text : String) (t : Target) :
    matchesText (lowerAscii text) t = smallReading id (matchesText text t) := by
  rw [matchesText, matchesText, parseList_lowerAscii]
  cases parseList text with
  | error e => rfl
  | ok qs =>
    refine congrArg Except.ok (List.any_map.trans ?_)
    exact congrArg qs.any (funext fun q => q.matchesTarget_small t)

theorem toOption_matchesText_lowerAscii (text : String) (t : Target) :
    (matchesText (lowerAscii text) t).toOption = (matchesText text t).toOption := by
  rw [matchesText_lowerAscii]
  cases matchesText text t <;> rfl

theorem relevantText_lowerAscii (text : String) (t : Target) :
    relevantText (lowerAscii text) t = relevantText text t := by
  rw [relevantText, relevantText, parseList_lowerAscii]
  cases parseList text with
  | error e => rfl
  | ok qs =>
    refine List.any_map.trans ?_
    exact congrArg qs.any (funext fun q => q.relevant_small t)

end Media

end CssPruning
