import CssPruning.Proofs.Fallible
import CssPruning.Proofs.Media.Layout

/-!
# Printed media queries read again

A query that was read is in a settled form: its words are in small letters, the bounds
are taken off the features, the values are trimmed (`Query.Settled`).  The text that is
printed for it is a layout of some words (`Query.Settled.exists_laidOut`), so it is read
again as one query, and so is a list of them.

These words are the query's own unless it is printed without a keyword and its type is
made of a keyword and another type (`Query.Misread`): `only notx` is read as the type
`notx`, printed as `notx`, and that is read as the type `x` negated.
-/

set_option autoImplicit false

namespace CssPruning.Media

open Text

/-! ## Small letters -/

theorem IsName.map_toLower {name : List Char} (h : IsName name) :
    IsName (name.map Char.toLower) := by
  refine ⟨?_, List.forall_mem_map.2 fun c hc => (isWordChar_toLower c).trans (h.2 c hc)⟩
  cases name with
  | nil => cases h.1
  | cons c name => exact (isWordStart_toLower c).trans h.1

theorem IsFeatureName.map_toLower {name : List Char} (h : IsFeatureName name) :
    IsFeatureName (name.map Char.toLower) := by
  obtain ⟨hhead, hchars, hmin, hmax⟩ := h
  refine ⟨?_, List.forall_mem_map.2 fun c hc => (isWordChar_toLower c).trans (hchars c hc), ?_, ?_⟩
  · cases name with
    | nil => cases hhead
    | cons c name =>
      rcases Bool.or_eq_true_iff.1 hhead with hc | hc
      · exact Bool.or_eq_true_iff.2 (.inl ((isWordStart_toLower _).trans hc))
      · obtain rfl := eq_of_beq hc
        rfl
  · rwa [IsKeyword, map_toLower_map_toLower]
  · rwa [IsKeyword, map_toLower_map_toLower]

/-! ## Settled conditions -/

/-- The name of a feature as it is printed: with the bound in front of it. -/
def Condition.name (c : Condition) : List Char := c.bound.elim [] Bound.mark ++ c.feature.toList

/-- The bound and what is left of a name are the name. -/
theorem mark_append_splitBound (name : List Char) :
    (splitBound name).1.elim [] Bound.mark ++ (splitBound name).2 = name := by
  unfold splitBound
  split <;> rfl

/-- A condition as reading leaves it. -/
structure Condition.Settled (c : Condition) : Prop where
  isFeatureName : IsFeatureName c.name
  small : c.name.map Char.toLower = c.name
  split : splitBound c.name = (c.bound, c.feature.toList)
  isValue : ∀ text, c.value = some text → IsValue text.toList

/-- The value of a condition has no line feed. -/
def Condition.OneLine (c : Condition) : Prop := ∀ text, c.value = some text → '\n' ∉ text.toList

/-- The value that is read is the trimmed text behind the colon, if there is any. -/
theorem exists_eq_of_conditionValue {rest : List Char} {value : Option String} {text : String}
    (h : conditionValue rest = some value) (hvalue : value = some text) :
    ∃ behind, rest = ':' :: behind ∧ text.toList = trim behind ∧ trim behind ≠ [] := by
  subst hvalue
  unfold conditionValue at h
  split at h
  · cases h
  · cases h
  · rename_i behind _
    dsimp only at h
    split at h
    · cases h
    · rename_i hne
      obtain rfl := Option.some.inj (Option.some.inj h)
      exact ⟨behind, rfl, String.toList_ofList, by simpa using hne⟩
  · cases h

/-- What is read from a parenthesis is settled, and as long as it is in one line, so is the
value. -/
theorem settled_of_condition {inner : List Char} {c : Condition} (h : condition inner = .ok c)
    (hclosing : ')' ∉ inner) (hcomma : ',' ∉ inner) :
    c.Settled ∧ ('\n' ∉ inner → c.OneLine) := by
  have hsome : condition? inner = some c := by
    rw [condition] at h
    split at h
    · rename_i c' hc
      rw [hc, Except.ok.inj h]
    · cases h
  obtain ⟨before, name, gap, rest, rfl, hbefore, hname, hgap, hrest⟩ :=
    isSome_condition?_iff.1 (Option.isSome_of_eq_some hsome)
  rw [condition?_feature hbefore hname hgap (head?_behind_feature hrest)] at hsome
  obtain ⟨value, hvalue, rfl⟩ := Option.map_eq_some_iff.1 hsome
  have hprinted : (Condition.mk (splitBound (name.map Char.toLower)).1
      (String.ofList (splitBound (name.map Char.toLower)).2) value).name =
        name.map Char.toLower := by
    rw [Condition.name, String.toList_ofList]
    exact mark_append_splitBound _
  -- nothing stands in the value that does not stand in the parenthesis
  have hmem {text : String} {d : Char} (htext : value = some text) (hd : d ∈ text.toList) :
      d ∈ before ++ name ++ gap ++ rest := by
    obtain ⟨behind, rfl, htrim, -⟩ := exists_eq_of_conditionValue hvalue htext
    rw [htrim] at hd
    exact List.mem_append_right _ (List.mem_cons_of_mem _ (mem_of_mem_trim hd))
  refine ⟨⟨?_, ?_, ?_, ?_⟩, fun hline text htext hd => hline (hmem htext hd)⟩
  · rw [hprinted]
    exact hname.map_toLower
  · rw [hprinted, map_toLower_map_toLower]
  · rw [hprinted, String.toList_ofList]
  · intro text htext
    obtain ⟨behind, -, htrim, hne⟩ := exists_eq_of_conditionValue hvalue htext
    exact ⟨htrim ▸ hne, htrim ▸ flush_trim behind, fun hd => hclosing (hmem htext hd),
      fun hd => hcomma (hmem htext hd)⟩

/-- A settled condition as a feature. -/
def Condition.Settled.wording {c : Condition} (h : c.Settled) : FeatureWording where
  name := c.name
  value := c.value.map String.toList
  isFeatureName := h.isFeatureName
  isValue := by
    intro _ hvalue
    obtain ⟨text, htext, rfl⟩ := Option.map_eq_some_iff.1 hvalue
    exact h.isValue text htext

/-- The feature makes the condition. -/
theorem Condition.Settled.condition_wording {c : Condition} (h : c.Settled) :
    h.wording.condition = c := by
  have hvalue : (c.value.map String.toList).map String.ofList = c.value := by
    cases c.value with
    | none => rfl
    | some text => exact congrArg some (String.ofList_toList)
  have hsplit := h.split
  rw [splitBound_eq] at hsplit
  rw [FeatureWording.condition, Condition.Settled.wording]
  dsimp only
  rw [h.small, hvalue]
  -- each branch takes the bound off that the name is printed with
  split at hsplit
  · obtain ⟨hbound, hfeature⟩ := Prod.mk.inj hsplit
    rw [if_pos ‹_›, hbound, hfeature, String.ofList_toList]
  · split at hsplit
    · obtain ⟨hbound, hfeature⟩ := Prod.mk.inj hsplit
      rw [if_neg ‹_›, if_pos ‹_›, hbound, hfeature, String.ofList_toList]
    · obtain ⟨hbound, hfeature⟩ := Prod.mk.inj hsplit
      rw [if_neg ‹_›, if_neg ‹_›, hbound, hfeature, String.ofList_toList]

/-- What is printed for a condition: the feature in a parenthesis, with a colon and a space in
front of a value. -/
theorem Condition.toList_text (c : Condition) : c.text.toList =
    enclosed (c.name ++ (c.value.elim [] fun text => ':' :: ' ' :: text.toList)) := by
  rw [Condition.text, Condition.name, enclosed]
  cases c.bound <;> cases c.value <;> simp [Bound.mark]

theorem Condition.Settled.laidOut {c : Condition} (h : c.Settled) :
    h.wording.LaidOut c.text.toList := by
  refine ⟨[], [], c.value.elim [] fun text => ':' :: ' ' :: text.toList, ?_, blanks_nil,
    blanks_nil, ?_⟩
  · rw [c.toList_text, List.nil_append, List.append_nil]
    rfl
  · rw [Condition.Settled.wording]
    dsimp only
    cases c.value with
    | none => rfl
    | some text => exact ⟨[' '], [], by simp, by decide, blanks_nil⟩

/-- A settled condition is printed in one line if its value has no line feed. -/
theorem Condition.Settled.lineFeed_not_mem {c : Condition} (h : c.Settled) (hline : c.OneLine) :
    '\n' ∉ c.text.toList := by
  have hname := not_mem_of_isFeatureName h.isFeatureName (c := '\n') rfl
  rw [c.toList_text]
  cases hvalue : c.value with
  | none => simp [enclosed, hname]
  | some text => simp [enclosed, hname, hline text hvalue]

/-! ## Settled queries -/

/-- A query as reading leaves it.  Only the first condition, and that without a type in front
of it, has seen text of more than one line. -/
structure Query.Settled (q : Query) : Prop where
  isName : IsName q.mediaType.toList
  small : lowerAscii q.mediaType = q.mediaType
  conditions : ∀ c ∈ q.conditions, c.Settled
  typedOneLine : q.negated = true ∨ q.mediaType ≠ "all" → ∀ c ∈ q.conditions, c.OneLine
  moreOneLine : ∀ c ∈ q.conditions.tail, c.OneLine

/-- A query that is read has an outline with its type, and the parentheses of the outline are
read as its conditions. -/
theorem exists_outline_of_query {cs : List Char} {q : Query} (h : query cs = .ok q) :
    ∃ o, outline cs = some o ∧ o.negated = q.negated ∧ o.mediaType = q.mediaType ∧
      (parentheses none (o.first ++ o.more.getD [])).mapM condition = .ok q.conditions := by
  rw [query] at h
  cases ho : outline cs with
  | none =>
    rw [ho] at h
    cases h
  | some o =>
    rw [ho] at h
    dsimp only at h
    cases hconds : conditions o with
    | none =>
      rw [hconds] at h
      cases h
    | some conds =>
      rw [hconds] at h
      cases conds with
      | error e => cases h
      | ok conds =>
        obtain rfl := Except.ok.inj h
        refine ⟨o, rfl, rfl, rfl, ?_⟩
        rw [conditions] at hconds
        split at hconds
        · cases hconds
        · dsimp only at hconds
          split at hconds
          · rename_i hempty
            rw [parentheses_of_blanks (isEmpty_trim_iff.1 hempty)]
            exact Option.some.inj hconds
          · rw [parentheses_trim] at hconds
            split at hconds
            · cases hconds
            · exact Option.some.inj hconds

/-- A parenthesis of a text stands in the text, and no other is closed in it. -/
theorem exists_append_of_mem_parentheses {cs inner : List Char} (h : inner ∈ parentheses none cs) :
    Closed inner ∧ ∃ front rest, cs = front ++ (enclosed inner ++ rest) := by
  rcases trailing_or_exists_enclosed cs with htrailing | ⟨gap, first, rest, rfl, hgap, hclosed⟩
  · rw [parentheses_trailing htrailing] at h
    cases h
  · rw [parentheses_gap_append hgap, parentheses_enclosed_append hclosed, List.mem_cons] at h
    rcases h with rfl | h
    · exact ⟨hclosed, gap, rest, rfl⟩
    · obtain ⟨hclosed', front, rest', rfl⟩ := exists_append_of_mem_parentheses h
      exact ⟨hclosed', gap ++ (enclosed first ++ front), rest', by simp⟩
termination_by cs.length
decreasing_by subst_vars; simp [enclosed]; omega

theorem mem_of_mem_parentheses {cs inner : List Char} {d : Char}
    (h : inner ∈ parentheses none cs) (hd : d ∈ inner) : d ∈ cs := by
  obtain ⟨-, front, rest, rfl⟩ := exists_append_of_mem_parentheses h
  simp [enclosed, hd]

/-- Conditions that are read from the parentheses of a text without commas are settled. -/
theorem settled_of_mapM_condition {cs : List Char} {conds : List Condition}
    (h : (parentheses none cs).mapM condition = .ok conds) (hcomma : ',' ∉ cs) :
    ∀ c ∈ conds, c.Settled ∧ ('\n' ∉ cs → c.OneLine) := by
  intro c hc
  obtain ⟨inner, hinner, hcondition⟩ := exists_of_mem_mapM h hc
  obtain ⟨hsettled, hline⟩ := settled_of_condition hcondition
    (exists_append_of_mem_parentheses hinner).1.2 fun hmem => hcomma (mem_of_mem_parentheses hinner hmem)
  exact ⟨hsettled, fun hlines => hline fun hmem => hlines (mem_of_mem_parentheses hinner hmem)⟩

theorem exists_name_of_withType {cs : List Char} {o : Outline} (h : withType cs = some o) :
    ∃ name, IsName name ∧ o.mediaType = lowerAscii (String.ofList name) := by
  rcases Option.or_eq_some_iff.1 h with h | ⟨-, h⟩
  · obtain ⟨word, rest, negated, rfl, -, h⟩ := withKeyword_eq_some h
    obtain ⟨-, -, name, -, -, -, hname, -, htype⟩ := typed_eq_some h
    exact ⟨name, hname, htype⟩
  · obtain ⟨-, -, name, -, -, -, hname, -, htype⟩ := typed_eq_some h
    exact ⟨name, hname, htype⟩

/-- What stands behind a joint in a proper tail is a part of it, and in one line. -/
theorem mem_of_mem_tail {cs : List Char} {more : Option (List Char)} {d : Char}
    (h : tail cs = some more) (hd : d ∈ more.getD []) : d ∈ cs ∧ d ≠ '\n' := by
  cases more with
  | none => cases hd
  | some more =>
    obtain ⟨⟨joint, -, rfl⟩, -, hline⟩ := tail_eq_some_some_iff.1 h
    exact ⟨List.mem_append_right _ hd, fun hfeed => hline (hfeed ▸ hd)⟩

theorem small_of_eq_lowerAscii {type : String} {name : List Char} (hname : IsName name)
    (h : type = lowerAscii (String.ofList name)) :
    IsName type.toList ∧ lowerAscii type = type := by
  have hlist : type.toList = name.map Char.toLower := by
    rw [h, toList_lowerAscii, String.toList_ofList]
  refine ⟨hlist ▸ hname.map_toLower, ?_⟩
  rw [← String.toList_inj, toList_lowerAscii, hlist, map_toLower_map_toLower]

/-- What is read is settled. -/
theorem settled_of_query {cs : List Char} {q : Query} (hcs : Flush cs) (hcomma : ',' ∉ cs)
    (h : query cs = .ok q) : q.Settled := by
  obtain ⟨o, ho, hnegated, htype, hconds⟩ := exists_outline_of_query h
  rw [outline_eq] at ho
  rcases Option.or_eq_some_iff.1 ho with ho | ⟨-, ho⟩
  · -- with a type, all conditions stand behind a joint
    obtain ⟨name, hname, hlower⟩ := exists_name_of_withType ho
    obtain ⟨hfirst, type, rest, rfl, -, htail⟩ := withType_eq_some hcs.1 ho
    obtain ⟨hisName, hsmall⟩ := small_of_eq_lowerAscii hname (htype ▸ hlower)
    rw [hfirst, List.nil_append] at hconds
    have hsettled := settled_of_mapM_condition hconds fun hmem =>
      hcomma (List.mem_append_right _ (mem_of_mem_tail htail hmem).1)
    have hline : ∀ c ∈ q.conditions, c.OneLine := fun c hc =>
      (hsettled c hc).2 fun hmem => (mem_of_mem_tail htail hmem).2 rfl
    exact ⟨hisName, hsmall, fun c hc => (hsettled c hc).1, fun _ => hline,
      fun c hc => hline c (List.mem_of_mem_tail hc)⟩
  · -- without one, the first condition stands in front of it
    obtain ⟨inner, rest, rfl, hclosed⟩ := untyped_eq_some ho
    rw [untyped_enclosed_append hclosed] at ho
    obtain ⟨more, htail, rfl⟩ := Option.map_eq_some_iff.1 ho
    dsimp only at hnegated htype hconds
    have hall := settled_of_mapM_condition hconds fun hmem => by
      rcases List.mem_append.1 hmem with hmem | hmem
      · exact hcomma (List.mem_append_left _ hmem)
      · exact hcomma (List.mem_append_right _ (mem_of_mem_tail htail hmem).1)
    rw [parentheses_enclosed_append hclosed] at hconds
    obtain ⟨c, cs, -, hmore, hcons⟩ := exists_of_mapM_cons hconds
    have htailLine : ∀ c ∈ q.conditions.tail, c.OneLine := by
      rw [hcons, List.tail_cons]
      have hsettled := settled_of_mapM_condition hmore fun hmem =>
        hcomma (List.mem_append_right _ (mem_of_mem_tail htail hmem).1)
      exact fun c hc => (hsettled c hc).2 fun hmem => (mem_of_mem_tail htail hmem).2 rfl
    refine ⟨by rw [← htype]; decide, by rw [← htype]; decide +kernel, fun c hc => (hall c hc).1, ?_,
      htailLine⟩
    rintro (hneg | hne)
    · rw [← hnegated] at hneg
      cases hneg
    · exact absurd htype.symm hne

/-! ## Printed queries -/

/-- The conditions of a query as they stand behind its type or its first condition. -/
def joined (cs : List Condition) : List Char := cs.flatMap fun c => " and ".toList ++ c.text.toList

theorem joined_cons (c : Condition) (cs : List Condition) :
    joined (c :: cs) = " and ".toList ++ (c.text.toList ++ joined cs) := by
  rw [joined, List.flatMap_cons, List.append_assoc]
  rfl

theorem intercalate_and (first : List Char) (cs : List Condition) :
    " and ".toList.intercalate (first :: cs.map fun c => c.text.toList) = first ++ joined cs := by
  induction cs generalizing first with
  | nil =>
    rw [List.map_nil, List.intercalate_singleton]
    exact (List.append_nil first).symm
  | cons c cs ih =>
    rw [List.map_cons, List.intercalate_cons_cons, ih, joined_cons, List.append_assoc]

/-- The text of a query: with its type, unless it is any and conditions follow. -/
theorem Query.toList_text (q : Query) : q.text.toList =
    if q.negated || q.mediaType != "all" || q.conditions.isEmpty then
      (if q.negated then "not ".toList else []) ++ q.mediaType.toList ++ joined q.conditions
    else " and ".toList.intercalate (q.conditions.map fun c => c.text.toList) := by
  rw [Query.text, String.toList_intercalate]
  split
  · rw [List.singleton_append, List.map_cons, List.map_map, String.toList_append]
    refine (intercalate_and _ _).trans ?_
    cases q.negated <;> rfl
  · rw [List.nil_append, List.map_map]
    rfl

theorem lineFeed_not_mem_joined {cs : List Condition} (h : ∀ c ∈ cs, c.Settled)
    (hline : ∀ c ∈ cs, c.OneLine) : '\n' ∉ joined cs := by
  rw [joined, List.mem_flatMap]
  rintro ⟨c, hc, hmem⟩
  rcases List.mem_append.1 hmem with hmem | hmem
  · exact absurd hmem (by decide)
  · exact (h c hc).lineFeed_not_mem (hline c hc) hmem

/-- Settled conditions are laid out behind their joints. -/
theorem exists_rowLaidOut {cs : List Condition} (h : ∀ c ∈ cs, c.Settled) :
    ∃ fs : List FeatureWording, fs.map FeatureWording.condition = cs ∧ RowLaidOut fs (joined cs) := by
  induction cs with
  | nil => exact ⟨[], rfl, .nil⟩
  | cons c cs ih =>
    rw [List.forall_mem_cons] at h
    obtain ⟨fs, rfl, hrow⟩ := ih h.2
    refine ⟨h.1.wording :: fs, by rw [List.map_cons, h.1.condition_wording], ?_⟩
    rw [joined_cons]
    exact .cons ⟨[' '], "and".toList, [' '], by decide, by decide, by decide, by decide⟩
      h.1.laidOut hrow

/-- Settled conditions are laid out behind a type: the blank in front of the first `and` is the
one that ends the type. -/
theorem exists_laidOut_type {t : TypeWording} {front : List Char} {cs : List Condition}
    (ht : t.LaidOut front) (h : ∀ c ∈ cs, c.Settled) (hline : ∀ c ∈ cs, c.OneLine) :
    ∃ fs : List FeatureWording, fs.map FeatureWording.condition = cs ∧
      (Wording.typed t fs).LaidOut (front ++ joined cs) := by
  have hfeed := lineFeed_not_mem_joined h hline
  cases cs with
  | nil => exact ⟨[], rfl, (List.append_nil front).symm ▸ .type ht⟩
  | cons c cs =>
    rw [List.forall_mem_cons] at h
    obtain ⟨fs, rfl, hrow⟩ := exists_rowLaidOut h.2
    refine ⟨h.1.wording :: fs, by rw [List.map_cons, h.1.condition_wording], ?_⟩
    have hrow' : RowLaidOut (h.1.wording :: fs)
        ("and ".toList ++ (c.text.toList ++ joined (fs.map FeatureWording.condition))) :=
      .cons ⟨[], "and".toList, [' '], by decide, by decide, by decide, by decide⟩ h.1.laidOut hrow
    have htext : joined (c :: fs.map FeatureWording.condition) =
        [' '] ++ ("and ".toList ++ (c.text.toList ++ joined (fs.map FeatureWording.condition))) :=
      joined_cons _ _
    rw [htext] at hfeed ⊢
    exact .typeAnd ht (by decide) (List.cons_ne_nil _ _) hrow'
      fun hmem => hfeed (List.mem_append_right _ hmem)

/-- A query whose type is printed without a keyword in front of it and starts with one. -/
def Query.Misread (q : Query) : Prop := q.negated = false ∧ Prefixed q.mediaType.toList

/-- The type that a query is printed with is the layout of a type, and it is the query's own
unless it is misread. -/
theorem exists_typeWording (q : Query) (hname : IsName q.mediaType.toList)
    (hsmall : lowerAscii q.mediaType = q.mediaType) : ∃ t : TypeWording,
      t.LaidOut ((if q.negated then "not ".toList else []) ++ q.mediaType.toList) ∧
      ((t.keyword == some .not) = q.negated ∧ lowerAscii (String.ofList t.name) = q.mediaType ↔
        ¬ q.Misread) := by
  have hown : lowerAscii (String.ofList q.mediaType.toList) = q.mediaType := by
    rw [String.ofList_toList, hsmall]
  cases hnegated : q.negated with
  | true =>
    refine ⟨⟨some .not, q.mediaType.toList, hname, nofun⟩,
      ⟨"not".toList, [' '], rfl, by decide, by decide⟩, iff_of_true ⟨rfl, hown⟩ ?_⟩
    rintro ⟨hfalse, -⟩
    rw [hnegated] at hfalse
    cases hfalse
  | false =>
    by_cases hprefixed : Prefixed q.mediaType.toList
    · -- the keyword is taken off, and a shorter type is left
      obtain ⟨word, rest, htext, hword, hrest⟩ := hprefixed
      obtain ⟨keyword, hkeyword⟩ : ∃ keyword : Keyword, IsKeyword keyword.word word :=
        hword.elim (fun hword => ⟨.only, hword⟩) fun hword => ⟨.not, hword⟩
      refine ⟨⟨some keyword, rest, hrest, nofun⟩,
        ⟨word, [], by simpa using htext, hkeyword, blanks_nil⟩,
        iff_of_false ?_ fun hmis => hmis ⟨hnegated, word, rest, htext, hword, hrest⟩⟩
      rintro ⟨-, htype⟩
      have hlength := congrArg (fun type : String => type.toList.length) htype
      simp only [htext, toList_lowerAscii, String.toList_ofList, List.length_map,
        List.length_append] at hlength
      exact hword.isName.ne_nil (List.eq_nil_of_length_eq_zero (by omega))
    · exact ⟨⟨none, q.mediaType.toList, hname, fun _ => hprefixed⟩, List.nil_append _,
        iff_of_true ⟨rfl, hown⟩ fun hmis => hprefixed hmis.2⟩

/-- The text that is printed for a settled query is the layout of some words, and these are its
own unless it is misread. -/
theorem Query.Settled.exists_laidOut {q : Query} (h : q.Settled) :
    ∃ w : Wording, w.LaidOut q.text.toList ∧ (w.query = q ↔ ¬ q.Misread) := by
  rw [Query.toList_text]
  split
  · rename_i hprinted
    have hline : ∀ c ∈ q.conditions, c.OneLine := by
      by_cases htyped : q.negated = true ∨ q.mediaType ≠ "all"
      · exact h.typedOneLine htyped
      · have hempty : q.conditions = [] := by simpa [not_or.1 htyped] using hprinted
        rw [hempty]
        exact List.forall_mem_nil _
    obtain ⟨t, ht, hown⟩ := exists_typeWording q h.isName h.small
    obtain ⟨fs, hfs, hlaid⟩ := exists_laidOut_type ht h.conditions hline
    refine ⟨.typed t fs, hlaid, ?_⟩
    rw [← hown, Wording.query, hfs]
    cases q
    simp only [Query.mk.injEq, and_true]
  · -- no type is printed, so there is a first condition
    rename_i hprinted
    obtain ⟨hnegated, htype, hne⟩ : q.negated = false ∧ q.mediaType = "all" ∧ q.conditions ≠ [] := by
      simpa [and_assoc] using hprinted
    obtain ⟨c, cs, hconds⟩ := List.exists_cons_of_ne_nil hne
    have hsettled := h.conditions
    have hline := h.moreOneLine
    rw [hconds, List.forall_mem_cons] at hsettled
    rw [hconds, List.tail_cons] at hline
    obtain ⟨fs, hfs, hrow⟩ := exists_rowLaidOut hsettled.2
    rw [hconds, List.map_cons, intercalate_and]
    refine ⟨.untyped hsettled.1.wording fs, .untyped hsettled.1.laidOut hrow
      (lineFeed_not_mem_joined hsettled.2 hline), iff_of_true ?_ fun hmis => ?_⟩
    · rw [Wording.query, List.map_cons, hsettled.1.condition_wording, hfs, ← hnegated, ← htype,
        ← hconds]
    · exact absurd (htype ▸ hmis.2 : Prefixed "all".toList).startsWith (by decide)

/-! ## Printed lists -/

theorem comma_not_mem_of_mem_parts {cs part : List Char} (h : part ∈ parts cs) : ',' ∉ part := by
  induction cs generalizing part with
  | nil =>
    obtain rfl := List.mem_singleton.1 h
    exact List.not_mem_nil
  | cons c cs ih =>
    by_cases hc : c = ','
    · subst hc
      rw [parts, if_pos (beq_self_eq_true _)] at h
      rcases List.mem_cons.1 h with rfl | h
      · exact List.not_mem_nil
      · exact ih h
    · obtain ⟨p, ps, hparts⟩ := List.exists_cons_of_ne_nil (parts_ne_nil cs)
      rw [parts_cons hc hparts] at h
      rw [hparts] at ih
      rcases List.mem_cons.1 h with rfl | h
      · rw [List.mem_cons, not_or]
        exact ⟨Ne.symm hc, ih List.mem_cons_self⟩
      · exact ih (List.mem_cons_of_mem _ h)

/-- The queries of a list that was read are settled. -/
theorem settled_of_parseList {text : String} {qs : List Query} (h : parseList text = .ok qs) :
    ∀ q ∈ qs, q.Settled := by
  intro q hq
  obtain ⟨part, hpart, hquery⟩ := exists_of_mem_mapM h hq
  exact settled_of_query (flush_trim part)
    (fun hmem => comma_not_mem_of_mem_parts hpart (mem_of_mem_trim hmem)) hquery

/-- A list has at least one query, as it has at least one part. -/
theorem ne_nil_of_parseList {text : String} {qs : List Query} (h : parseList text = .ok qs) :
    qs ≠ [] := by
  rintro rfl
  obtain ⟨part, ps, hparts⟩ := List.exists_cons_of_ne_nil (parts_ne_nil text.toList)
  rw [parseList, hparts] at h
  obtain ⟨q, qs, -, -, hcons⟩ := exists_of_mapM_cons h
  cases hcons

/-- A printed query behind blanks, as part of a list, is read as the words that it lays out. -/
theorem Query.Settled.exists_query_eq {q : Query} (h : q.Settled) : ∃ q' : Query,
    (∀ before, Blanks before → query (trim (before ++ q.text.toList)) = .ok q') ∧
      (q' = q ↔ ¬ q.Misread) := by
  obtain ⟨w, hlaid, hown⟩ := h.exists_laidOut
  obtain ⟨hflush, hne, -⟩ := hlaid.flush
  refine ⟨w.query, fun before hbefore => ?_, hown⟩
  have htrim := trim_blanks_append hbefore blanks_nil hflush hne
  rw [List.append_nil] at htrim
  rw [htrim, hlaid.query_eq]

/-- The parts of a printed list are its members, with a blank in front of all but the first. -/
theorem parts_intercalate (before : List Char) {first : List Char} {texts : List (List Char)}
    (hbefore : ',' ∉ before) (h : ∀ cs ∈ first :: texts, ',' ∉ cs) :
    parts (before ++ ", ".toList.intercalate (first :: texts)) =
      (before ++ first) :: texts.map (' ' :: ·) := by
  induction texts generalizing before first with
  | nil =>
    rw [List.intercalate_singleton]
    refine parts_eq_singleton ?_
    simp [hbefore, h first List.mem_cons_self]
  | cons second texts ih =>
    have hfront : ',' ∉ before ++ first := by simp [hbefore, h first List.mem_cons_self]
    have htext : before ++ ", ".toList.intercalate (first :: second :: texts) =
        (before ++ first) ++ ',' :: ([' '] ++ ", ".toList.intercalate (second :: texts)) := by
      rw [List.intercalate_cons_cons, ← List.append_assoc, ← List.append_assoc]
      exact List.append_assoc _ _ _
    rw [htext, parts_append_comma hfront,
      ih [' '] (by decide) fun cs hcs => h cs (List.mem_cons_of_mem _ hcs)]
    rfl

/-- Printed queries behind a blank are read one by one. -/
theorem exists_mapM_query {qs : List Query} (h : ∀ q ∈ qs, q.Settled) : ∃ qs' : List Query,
      ((qs.map fun q => ' ' :: q.text.toList).mapM fun part => query (trim part)) = .ok qs' ∧
        (qs' = qs ↔ ∀ q ∈ qs, ¬ q.Misread) := by
  induction qs with
  | nil => exact ⟨[], rfl, iff_of_true rfl (List.forall_mem_nil _)⟩
  | cons q qs ih =>
    rw [List.forall_mem_cons] at h
    obtain ⟨q', hread, hown⟩ := h.1.exists_query_eq
    obtain ⟨qs', hreads, howns⟩ := ih h.2
    refine ⟨q' :: qs', ?_, ?_⟩
    · have hblank : query (trim (' ' :: q.text.toList)) = .ok q' := hread [' '] (by decide)
      rw [List.map_cons, List.mapM_cons, hblank, hreads]
      rfl
    · rw [List.cons.injEq, List.forall_mem_cons, hown, howns]

/-- What is printed for a list that was read is read again, and as the same list if and only if
none of its queries has a type that is printed with a keyword at its start. -/
theorem parseList_texts {text : String} {qs : List Query} (h : parseList text = .ok qs) :
    ∃ qs', parseList (", ".intercalate (qs.map Query.text)) = .ok qs' ∧
      (qs' = qs ↔ ∀ q ∈ qs, ¬ q.Misread) := by
  have hsettled := settled_of_parseList h
  obtain ⟨q, qs, rfl⟩ := List.exists_cons_of_ne_nil (ne_nil_of_parseList h)
  have hcomma : ∀ cs ∈ (q :: qs).map fun q => q.text.toList, ',' ∉ cs := by
    intro cs hcs
    obtain ⟨q', hq', rfl⟩ := List.mem_map.1 hcs
    obtain ⟨w, hlaid, -⟩ := (hsettled q' hq').exists_laidOut
    exact hlaid.flush.2.2
  have hparts := parts_intercalate [] List.not_mem_nil hcomma
  rw [List.forall_mem_cons] at hsettled
  obtain ⟨q', hread, hown⟩ := hsettled.1.exists_query_eq
  obtain ⟨qs', hreads, howns⟩ := exists_mapM_query hsettled.2
  refine ⟨q' :: qs', ?_, ?_⟩
  · have htexts : (", ".intercalate ((q :: qs).map Query.text)).toList =
        [] ++ ", ".toList.intercalate (q.text.toList :: qs.map fun q => q.text.toList) := by
      rw [String.toList_intercalate, List.map_map]
      rfl
    rw [parseList, htexts, hparts, List.mapM_cons, hread [] blanks_nil, List.map_map]
    exact congrArg (fun rest => do return q' :: (← rest)) hreads
  · rw [List.cons.injEq, List.forall_mem_cons, hown, howns]

/-- Keywords, large letters and blanks are lost in print, and the list is read as the same. -/
theorem parseList_texts_screenOrPrint :
    parseList "ONLY Screen and (MIN-Width:2px),NOTprint, (a : b)AND(c)" =
        .ok [⟨false, "screen", [⟨some .min, "width", some "2px"⟩]⟩, ⟨true, "print", []⟩,
          ⟨false, "all", [⟨none, "a", some "b"⟩, ⟨none, "c", none⟩]⟩] ∧
      parseList "screen and (min-width: 2px), not print, (a: b) and (c)" =
        parseList "ONLY Screen and (MIN-Width:2px),NOTprint, (a : b)AND(c)" := by
  have hread : parseList "ONLY Screen and (MIN-Width:2px),NOTprint, (a : b)AND(c)" =
      .ok [⟨false, "screen", [⟨some .min, "width", some "2px"⟩]⟩, ⟨true, "print", []⟩,
        ⟨false, "all", [⟨none, "a", some "b"⟩, ⟨none, "c", none⟩]⟩] := by decide +kernel
  refine ⟨hread, ?_⟩
  obtain ⟨qs', hprinted, hown⟩ := parseList_texts hread
  have htexts : ", ".intercalate (List.map Query.text
      [⟨false, "screen", [⟨some .min, "width", some "2px"⟩]⟩, ⟨true, "print", []⟩,
        ⟨false, "all", [⟨none, "a", some "b"⟩, ⟨none, "c", none⟩]⟩]) =
      "screen and (min-width: 2px), not print, (a: b) and (c)" := by decide +kernel
  have hnone : ∀ q ∈ [(⟨false, "screen", [⟨some .min, "width", some "2px"⟩]⟩ : Query),
      ⟨true, "print", []⟩, ⟨false, "all", [⟨none, "a", some "b"⟩, ⟨none, "c", none⟩]⟩],
      ¬ q.Misread := by
    have hscreen : ¬ Prefixed "screen".toList := fun h => absurd h.startsWith (by decide)
    have hall : ¬ Prefixed "all".toList := fun h => absurd h.startsWith (by decide)
    simp only [List.forall_mem_cons]
    exact ⟨fun h => hscreen h.2, fun h : Query.Misread _ => Bool.noConfusion h.1,
      fun h => hall h.2, List.forall_mem_nil _⟩
  rw [← htexts, hprinted, hread, hown.2 hnone]

/-- A type behind a keyword may start with a keyword: without the first it is read as the
second one and a shorter type. -/
theorem parseList_texts_notx :
    parseList "only notx" = .ok [⟨false, "notx", []⟩] ∧
      parseList (", ".intercalate ([(⟨false, "notx", []⟩ : Query)].map Query.text)) =
        .ok [⟨true, "x", []⟩] := by
  decide +kernel

end CssPruning.Media
