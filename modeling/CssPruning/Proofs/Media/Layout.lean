import CssPruning.Proofs.Media.Grammar

/-!
# Layouts of media queries

A query may be laid out in many ways: in large and small letters, with more blanks or
fewer.  Here a query is given by its words (`Wording`), a layout is a relation between
the words and a text (`Wording.LaidOut`), and every layout is read as the one query
that the words make (`parseList_of_laidOut`).

Two facts carry this.  The longest name that leaves the end of the text or an `and`
behind it is the whole of a type, because a blank follows the type
(`typed_name_append`); and a keyword is not found in front of a type unless the type
goes on as another one behind it (`withType_name_append`).
-/

set_option autoImplicit false

namespace CssPruning.Media

open Text

/-! ## Types as they are found -/

/-- The whole name is taken if it leaves a proper tail. -/
theorem shorten_reverse {name rest : List Char} {more : Option (List Char)} (hname : name ≠ [])
    (htail : tail rest = some more) : shorten name.reverse rest = some (name, more) := by
  cases hrev : name.reverse with
  | nil => exact absurd (List.reverse_eq_nil_iff.1 hrev) hname
  | cons c front =>
    rw [shorten, htail, ← hrev, List.reverse_reverse]

/-- A name that ends where its characters do is found whole. -/
theorem typed_name_append (negated : Bool) {gap name rest : List Char}
    {more : Option (List Char)} (hgap : Blanks gap) (hname : IsName name)
    (hend : rest.head?.any isWordChar = false) (htail : tail rest = some more) :
    typed negated (gap ++ (name ++ rest)) =
      some ⟨negated, lowerAscii (String.ofList name), [], more⟩ := by
  obtain ⟨htake, hdrop⟩ := takeWhile_isWordChar_append hname.2 hend
  rw [typed, trimStart_blanks_append hgap, hname.trimStart_append]
  dsimp only
  rw [if_pos (hname.any_head?_append rest), htake, hdrop, shorten_reverse hname.ne_nil htail]
  rfl

/-- No type is found where no name starts. -/
theorem typed_eq_none (negated : Bool) {cs : List Char}
    (h : (trimStart cs).head?.any isWordStart = false) : typed negated cs = none := by
  rw [typed]
  dsimp only
  rw [h]
  rfl

/-- What may follow a type: nothing, or a joint that starts with a blank and a parenthesis
behind it, in one line from there on. -/
inductive Follows : List Char → Option (List Char) → Prop where
  | nil : Follows [] none
  | joint {joint row : List Char} : Joint joint → joint.head?.any isBlank = true → '\n' ∉ row →
      Follows (joint ++ '(' :: row) (some ('(' :: row))

theorem Follows.tail_eq {rest : List Char} {more : Option (List Char)} (h : Follows rest more) :
    tail rest = some more := by
  cases h with
  | nil => exact tail_eq_some_none_iff.2 rfl
  | @joint joint row hjoint _ hline =>
    rw [tail_joint_append hjoint (by simpa using hline)]
    exact congrArg (some <| some ·) (dropWhile_isBlank rfl)

/-- A name ends where a tail follows it. -/
theorem Follows.any_head? {rest : List Char} {more : Option (List Char)} (h : Follows rest more) :
    rest.head?.any isWordChar = false := by
  cases h with
  | nil => rfl
  | @joint joint row _ hblank _ =>
    cases joint with
    | nil => cases hblank
    | cons c joint =>
      rw [List.cons_append, List.head?_cons, Option.any_some, Bool.eq_false_iff]
      intro hc
      rw [List.head?_cons, Option.any_some, isBlank_of_isWordChar hc] at hblank
      cases hblank

/-- There are three letters in a joint. -/
theorem countP_isWordStart_joint {joint : List Char} (h : Joint joint) :
    joint.countP isWordStart = 3 := by
  obtain ⟨before, word, behind, rfl, hbefore, hword, hbehind⟩ := h
  have hblanks : ∀ bs, Blanks bs → bs.countP isWordStart = 0 := by
    intro bs hbs
    rw [List.countP_eq_zero]
    intro c hc hstart
    have hblank := hbs c hc
    rw [isBlank_of_isWordChar (isWordChar_of_isWordStart hstart)] at hblank
    cases hblank
  have hletters : word.countP isWordStart = 3 := by
    have hlength : word.length = 3 := by rw [← List.length_map Char.toLower, hword]; rfl
    rw [← hlength, List.countP_eq_length]
    intro c hc
    have hsmall : c.toLower ∈ "and".toList := hword ▸ List.mem_map_of_mem hc
    refine isWordStart_of_toLower ?_
    exact List.all_eq_true.1 (show "and".toList.all Char.isAlpha = true by decide) _ hsmall
  rw [List.countP_append, List.countP_append, hblanks _ hbefore, hblanks _ hbehind, hletters]

/-- The `and` of a joint is no type: there is no other `and` between it and the
parenthesis. -/
theorem typed_follows (negated : Bool) {rest : List Char} {more : Option (List Char)}
    (h : Follows rest more) : typed negated rest = none := by
  cases h with
  | nil => exact typed_eq_none negated rfl
  | @joint joint row hjoint _ _ =>
    rw [Option.eq_none_iff_forall_ne_some]
    intro o ho
    obtain ⟨-, gap, name, rest, htext, hgap, hname, htail, -⟩ := typed_eq_some ho
    have hfront : '(' ∉ gap ++ name := by
      rw [List.mem_append, not_or]
      exact ⟨fun hmem => absurd (hgap _ hmem) (by decide),
        fun hmem => absurd (hname.2 _ hmem) (by decide)⟩
    cases hmore : o.more with
    | none =>
      rw [hmore] at htail
      rw [tail_eq_some_none_iff.1 htail, List.append_nil] at htext
      exact hfront (htext ▸ List.mem_append_right _ List.mem_cons_self)
    | some more =>
      rw [hmore] at htail
      obtain ⟨⟨joint', hjoint', rfl⟩, -, -⟩ := tail_eq_some_some_iff.1 htail
      have hparen : '(' ∉ gap ++ name ++ joint' := by
        rw [List.mem_append, not_or]
        exact ⟨hfront, not_mem_of_joint hjoint' (by decide) (by decide)⟩
      -- what is in front of the parenthesis is taken apart in two ways
      have hle : gap ++ name ++ joint' <+: joint := by
        rw [← List.append_assoc] at htext
        rcases List.append_eq_append_iff.1 htext with ⟨as, has, -⟩ | ⟨bs, hbs, -⟩
        · cases as with
          | nil => exact ⟨[], by rw [has, List.append_nil, List.append_nil]⟩
          | cons c as =>
            rw [has] at htext hparen
            rw [List.append_assoc, List.append_cancel_left_eq, List.cons_append] at htext
            obtain ⟨rfl, -⟩ := List.cons.inj htext
            exact absurd (List.mem_append_right _ List.mem_cons_self) hparen
        · exact ⟨bs, hbs.symm⟩
      have hcount := hle.sublist.countP_le (p := isWordStart)
      have hone : 1 ≤ name.countP isWordStart := by
        cases name with
        | nil => cases hname.1
        | cons c name =>
          exact List.countP_pos_iff.2 ⟨c, List.mem_cons_self, by simpa using hname.1⟩
      rw [List.countP_append, List.countP_append, countP_isWordStart_joint hjoint',
        countP_isWordStart_joint hjoint] at hcount
      omega

/-- A keyword with a type of its own behind it: such a name is taken apart. -/
def Prefixed (name : List Char) : Prop :=
  ∃ word rest, name = word ++ rest ∧ IsPrefixWord word ∧ IsName rest

/-- Only a name that begins with a keyword is taken apart. -/
theorem Prefixed.startsWith {name : List Char} (h : Prefixed name) :
    "only".toList <+: name.map Char.toLower ∨ "not".toList <+: name.map Char.toLower := by
  obtain ⟨word, rest, rfl, hword, -⟩ := h
  rw [List.map_append]
  exact hword.imp (fun hword => ⟨_, congrArg (· ++ _) hword.symm⟩)
    fun hword => ⟨_, congrArg (· ++ _) hword.symm⟩

/-- A type without a keyword is found whole unless it goes on as a type behind a keyword. -/
theorem withType_name_append {name rest : List Char} {more : Option (List Char)}
    (hname : IsName name) (hfree : ¬ Prefixed name) (hrest : Follows rest more) :
    withType (name ++ rest) = some ⟨false, lowerAscii (String.ofList name), [], more⟩ := by
  have htyped := typed_name_append false blanks_nil hname hrest.any_head? hrest.tail_eq
  rw [List.nil_append] at htyped
  have hkeyword : withKeyword (name ++ rest) = none := by
    rw [Option.eq_none_iff_forall_ne_some]
    intro o ho
    obtain ⟨word, behind, negated, htext, hword, ho⟩ := withKeyword_eq_some ho
    have hletters : ∀ c ∈ word, isWordChar c = true := by
      have := (hword.isName_append (List.forall_mem_nil _)).2
      rwa [List.append_nil] at this
    rcases List.append_eq_append_iff.1 htext with ⟨as, rfl, hbehind⟩ | ⟨left, rfl, rfl⟩
    · -- the keyword does not reach over the end of the name
      cases as with
      | nil =>
        rw [List.nil_append] at hbehind
        rw [← hbehind, typed_follows negated hrest] at ho
        cases ho
      | cons c as =>
        have hend := hrest.any_head?
        rw [hbehind, List.cons_append, List.head?_cons, Option.any_some,
          hletters c (by simp)] at hend
        cases hend
    · cases left with
      | nil =>
        rw [List.nil_append, typed_follows negated hrest] at ho
        cases ho
      | cons c left =>
        have hleft : ∀ d ∈ c :: left, isWordChar d = true :=
          fun d hd => hname.2 d (List.mem_append_right _ hd)
        have hblank : isBlank c = false := isBlank_of_isWordChar (hleft c List.mem_cons_self)
        cases hstart : isWordStart c with
        | true => exact hfree ⟨word, c :: left, rfl, hword, by simpa using hstart, hleft⟩
        | false =>
          have hnone : typed negated (c :: left ++ rest) = none := by
            refine typed_eq_none negated ?_
            rw [trimStart, dropWhile_isBlank (by simpa using hblank)]
            simpa using hstart
          rw [hnone] at ho
          cases ho
  rw [withType, hkeyword, Option.none_or, htyped]

/-! ## Conditions as they are read -/

/-- A bound, as it stands in front of a name. -/
def Bound.mark (b : Bound) : List Char := b.word.toList ++ ['-']

/-- The marks of the bounds have the same length, so at most one is in front of a name. -/
theorem splitBound_eq (name : List Char) : splitBound name =
    if Bound.min.mark <+: name then (some .min, name.drop 4)
    else if Bound.max.mark <+: name then (some .max, name.drop 4)
    else (none, name) := by
  unfold splitBound
  split
  · rename_i rest
    rw [if_pos ⟨rest, rfl⟩]
    rfl
  · rename_i rest
    rw [if_neg (by simp [Bound.mark, Bound.word]), if_pos ⟨rest, rfl⟩]
    rfl
  · rename_i hmin hmax
    rw [if_neg, if_neg]
    · rintro ⟨rest, rfl⟩
      exact hmax rest rfl
    · rintro ⟨rest, rfl⟩
      exact hmin rest rfl

/-- The condition of a feature in blanks, with what stands behind it. -/
theorem condition?_feature {before name gap rest : List Char} (hbefore : Blanks before)
    (hname : IsFeatureName name) (hgap : Blanks gap) (hrest : rest = [] ∨ rest.head? = some ':') :
    condition? (before ++ name ++ gap ++ rest) = (conditionValue rest).map fun value =>
      ⟨(splitBound (name.map Char.toLower)).1,
        String.ofList (splitBound (name.map Char.toLower)).2, value⟩ := by
  have hbehind : trimStart (gap ++ rest) = rest := by
    rw [trimStart_blanks_append hgap]
    refine dropWhile_isBlank ?_
    rcases hrest with rfl | hcolon
    · rfl
    · rw [hcolon]
      rfl
  have hstart : trimStart (before ++ name ++ gap ++ rest) = name ++ (gap ++ rest) := by
    rw [List.append_assoc, List.append_assoc, trimStart_blanks_append hbefore]
    exact hname.trimStart_append _
  obtain ⟨htake, hdrop⟩ := takeWhile_isWordChar_append hname.2.1 (any_head?_gap_append hgap hrest)
  have hhead : ((name ++ (gap ++ rest)).head?.any fun c => isWordStart c || c == '-') = true := by
    rw [List.head?_append_of_ne_nil _ hname.ne_nil]
    exact hname.1
  have hfeature : (splitBound (name.map Char.toLower)).2.isEmpty = false := by
    rw [List.isEmpty_eq_false_iff, Ne, splitBound_eq_nil_iff, List.map_eq_nil_iff]
    exact fun h => h.elim hname.ne_nil fun h => h.elim hname.2.2.1 hname.2.2.2
  rw [condition?, hstart]
  dsimp only
  rw [if_pos hhead, htake, hdrop, hbehind]
  cases conditionValue rest with
  | none => rfl
  | some value =>
    dsimp only
    rw [hfeature]
    rfl

/-- Blanks around a text without blanks at its ends are what trimming takes away. -/
theorem trim_blanks_append {before behind cs : List Char} (hbefore : Blanks before)
    (hbehind : Blanks behind) (hcs : Flush cs) (hne : cs ≠ []) :
    trim (before ++ (cs ++ behind)) = cs := by
  have hstart : trimStart (before ++ (cs ++ behind)) = cs ++ behind := by
    rw [trimStart_blanks_append hbefore]
    refine dropWhile_isBlank ?_
    rw [List.head?_append_of_ne_nil _ hne]
    exact hcs.1
  have hreverse : (cs ++ behind).reverse.dropWhile isBlank = cs.reverse := by
    have hbs : Blanks behind.reverse := fun c hc => hbehind c (List.mem_reverse.1 hc)
    have hlast : cs.reverse.head?.any isBlank = false := by
      rw [List.head?_reverse]
      exact hcs.2
    rw [List.reverse_append]
    exact (trimStart_blanks_append hbs _).trans (dropWhile_isBlank hlast)
  rw [trim, hstart, trimEnd, hreverse, List.reverse_reverse]

/-! ## The words of a query -/

/-- A keyword that may stand in front of a type. -/
inductive Keyword where
  | only
  | not
  deriving DecidableEq

/-- A keyword in small letters. -/
def Keyword.word : Keyword → String
  | only => "only"
  | not => "not"

/-- A type and the keyword in front of it, if any.  Without one the type is not made of a
keyword and another type; such is every type that does not begin with a keyword. -/
structure TypeWording where
  keyword : Option Keyword
  name : List Char
  isName : IsName name
  isFree : keyword = none → ¬ Prefixed name

/-- A text that can stand behind a colon. -/
structure IsValue (text : List Char) : Prop where
  ne_nil : text ≠ []
  flush : Flush text
  closing_not_mem : ')' ∉ text
  comma_not_mem : ',' ∉ text

/-- A feature, with its bound, and its value, if any. -/
structure FeatureWording where
  name : List Char
  value : Option (List Char)
  isFeatureName : IsFeatureName name
  isValue : ∀ text, value = some text → IsValue text

/-- The words of a query: a type and features, or features alone. -/
inductive Wording where
  | typed (type : TypeWording) (features : List FeatureWording)
  | untyped (first : FeatureWording) (more : List FeatureWording)

/-! ## What the words mean -/

/-- The condition that a feature makes: its name in small letters, the bound taken off. -/
def FeatureWording.condition (f : FeatureWording) : Condition :=
  let name := f.name.map Char.toLower
  let value := f.value.map String.ofList
  if Bound.min.mark <+: name then ⟨some .min, String.ofList (name.drop 4), value⟩
  else if Bound.max.mark <+: name then ⟨some .max, String.ofList (name.drop 4), value⟩
  else ⟨none, String.ofList name, value⟩

/-- The query that the words make. -/
def Wording.query : Wording → Query
  | typed type features =>
    ⟨type.keyword == some .not, lowerAscii (String.ofList type.name),
      features.map FeatureWording.condition⟩
  | untyped first more => ⟨false, "all", (first :: more).map FeatureWording.condition⟩

/-! ## Layouts -/

/-- The text is the keyword, in any letters, and the type, with blanks between them. -/
def TypeWording.LaidOut (t : TypeWording) (cs : List Char) : Prop :=
  match t.keyword with
  | none => cs = t.name
  | some keyword => ∃ word gap, cs = word ++ gap ++ t.name ∧ IsKeyword keyword.word word ∧
      Blanks gap

/-- The text is the feature in a parenthesis, with blanks around its name and its value. -/
def FeatureWording.LaidOut (f : FeatureWording) (cs : List Char) : Prop :=
  ∃ before gap rest, cs = enclosed (before ++ f.name ++ gap ++ rest) ∧ Blanks before ∧
    Blanks gap ∧
    match f.value with
    | none => rest = []
    | some text => ∃ ahead behind, rest = ':' :: (ahead ++ (text ++ behind)) ∧ Blanks ahead ∧
        Blanks behind

/-- The text is the features, with a joint in front of each. -/
inductive RowLaidOut : List FeatureWording → List Char → Prop where
  | nil : RowLaidOut [] []
  | cons {f : FeatureWording} {fs : List FeatureWording} {joint cs row : List Char} :
      Joint joint → f.LaidOut cs → RowLaidOut fs row → RowLaidOut (f :: fs) (joint ++ (cs ++ row))

/-- The text is the words in their order, with a joint between any two of them, and a blank
behind the type.  From the first joint on it has no line feed. -/
inductive Wording.LaidOut : Wording → List Char → Prop where
  | type {t : TypeWording} {cs : List Char} : t.LaidOut cs → LaidOut (.typed t []) cs
  | typeAnd {t : TypeWording} {f : FeatureWording} {fs : List FeatureWording}
      {front gap row : List Char} : t.LaidOut front → Blanks gap → gap ≠ [] →
      RowLaidOut (f :: fs) row → '\n' ∉ row → LaidOut (.typed t (f :: fs)) (front ++ (gap ++ row))
  | untyped {f : FeatureWording} {fs : List FeatureWording} {cs row : List Char} :
      f.LaidOut cs → RowLaidOut fs row → '\n' ∉ row → LaidOut (.untyped f fs) (cs ++ row)

/-! ## Features in a layout -/

theorem not_mem_of_blanks {bs : List Char} {c : Char} (h : Blanks bs) (hc : isBlank c = false) :
    c ∉ bs := by
  intro hmem
  rw [h c hmem] at hc
  cases hc

theorem not_mem_of_isFeatureName {name : List Char} {c : Char} (h : IsFeatureName name)
    (hc : isWordChar c = false) : c ∉ name := by
  intro hmem
  rw [h.2.1 c hmem] at hc
  cases hc

/-- What stands in a laid out parenthesis is read as the feature's condition. -/
theorem FeatureWording.LaidOut.exists_enclosed {f : FeatureWording} {cs : List Char}
    (h : f.LaidOut cs) : ∃ inner, cs = enclosed inner ∧ Closed inner ∧ ',' ∉ inner ∧
      Media.condition inner = .ok f.condition := by
  obtain ⟨before, gap, rest, rfl, hbefore, hgap, hrest⟩ := h
  have hname := f.isFeatureName
  -- what stands behind the name, and what it is read as
  have hvalue : (rest = [] ∨ rest.head? = some ':') ∧ ')' ∉ rest ∧ ',' ∉ rest ∧
      conditionValue rest = some (f.value.map String.ofList) := by
    cases hf : f.value with
    | none =>
      rw [hf] at hrest
      subst hrest
      exact ⟨.inl rfl, List.not_mem_nil, List.not_mem_nil, rfl⟩
    | some text =>
      rw [hf] at hrest
      obtain ⟨ahead, behind, rfl, hahead, hbehind⟩ := hrest
      have htext := f.isValue text hf
      have hempty : text.isEmpty = false := by simpa using htext.ne_nil
      refine ⟨.inr rfl, ?_, ?_, ?_⟩
      · simp [htext.closing_not_mem, not_mem_of_blanks hahead (c := ')') rfl,
          not_mem_of_blanks hbehind (c := ')') rfl]
      · simp [htext.comma_not_mem, not_mem_of_blanks hahead (c := ',') rfl,
          not_mem_of_blanks hbehind (c := ',') rfl]
      · rw [conditionValue_cons, if_pos (by simp [htext.ne_nil]),
          trim_blanks_append hahead hbehind htext.flush htext.ne_nil, hempty]
        rfl
  obtain ⟨hhead, hclosing, hcomma, hread⟩ := hvalue
  refine ⟨_, rfl, ⟨?_, ?_⟩, ?_, ?_⟩
  · simp [hname.ne_nil]
  · simp [hclosing, not_mem_of_blanks hbefore (c := ')') rfl,
      not_mem_of_blanks hgap (c := ')') rfl, not_mem_of_isFeatureName hname (c := ')') rfl]
  · simp [hcomma, not_mem_of_blanks hbefore (c := ',') rfl,
      not_mem_of_blanks hgap (c := ',') rfl, not_mem_of_isFeatureName hname (c := ',') rfl]
  · have hcondition : condition? (before ++ f.name ++ gap ++ rest) = some f.condition := by
      rw [condition?_feature hbefore hname hgap hhead, hread, Option.map_some, splitBound_eq,
        FeatureWording.condition]
      split
      · rfl
      · split <;> rfl
    rw [Media.condition, hcondition]

/-- The parentheses of a row are read as the conditions of its features. -/
theorem RowLaidOut.mapM_condition {fs : List FeatureWording} {row : List Char}
    (h : RowLaidOut fs row) :
    (parentheses none row).mapM condition = .ok (fs.map FeatureWording.condition) := by
  induction h with
  | nil => rfl
  | cons hjoint hf _ ih =>
    obtain ⟨inner, rfl, hclosed, -, hcondition⟩ := hf.exists_enclosed
    rw [parentheses_joint_append hjoint, parentheses_enclosed_append hclosed, List.mapM_cons,
      hcondition, ih]
    rfl

theorem RowLaidOut.comma_not_mem {fs : List FeatureWording} {row : List Char}
    (h : RowLaidOut fs row) : ',' ∉ row := by
  induction h with
  | nil => exact List.not_mem_nil
  | cons hjoint hf _ ih =>
    obtain ⟨inner, rfl, -, hcomma, -⟩ := hf.exists_enclosed
    have hjoint' := not_mem_of_joint hjoint (c := ',') rfl (by decide)
    simp [enclosed, hjoint', hcomma, ih]

/-- A text with a row behind it ends in a parenthesis. -/
theorem RowLaidOut.getLast?_append {fs : List FeatureWording} {row : List Char}
    (h : RowLaidOut fs row) (hne : fs ≠ []) (front : List Char) :
    (front ++ row).getLast? = some ')' := by
  induction h generalizing front with
  | nil => exact absurd rfl hne
  | @cons f fs joint cs row _ hf hrow ih =>
    obtain ⟨inner, rfl, -⟩ := hf.exists_enclosed
    have htext : front ++ (joint ++ (enclosed inner ++ row)) =
        (front ++ joint ++ '(' :: inner) ++ [')'] ++ row := by simp [enclosed]
    rw [htext]
    cases fs with
    | nil =>
      cases hrow
      rw [List.append_nil, List.getLast?_concat]
    | cons f' fs => exact ih (List.cons_ne_nil _ _) _

/-! ## Queries in a layout -/

/-- Conditions that are there are the ones of a query if what follows its first part starts with
a parenthesis. -/
theorem conditions_eq {o : Outline} {c : Condition} {cs : List Condition}
    (hmore : ∀ more, o.more = some more → more.head? = some '(')
    (h : (parentheses none (o.first ++ o.more.getD [])).mapM condition = .ok (c :: cs)) :
    conditions o = some (.ok (c :: cs)) := by
  have hsome : ¬ (o.more.any fun more => (trim more).isEmpty) = true := by
    rw [Option.any_eq_true]
    rintro ⟨more, ho, hempty⟩
    have hparen : isBlank '(' = true :=
      isEmpty_trim_iff.1 hempty _ (List.mem_of_mem_head? (hmore more ho))
    cases hparen
  have hne : parentheses none (o.first ++ o.more.getD []) ≠ [] := by
    intro hnil
    rw [hnil] at h
    cases h
  have htext : ¬ (trim (o.first ++ o.more.getD [])).isEmpty = true :=
    fun hempty => hne (parentheses_of_blanks (isEmpty_trim_iff.1 hempty))
  rw [conditions, if_neg hsome]
  dsimp only
  rw [if_neg htext, parentheses_trim]
  cases hinners : parentheses none (o.first ++ o.more.getD []) with
  | nil => exact absurd hinners hne
  | cons inner inners =>
    dsimp only
    rw [← hinners, h]

theorem query_eq_ok {cs : List Char} {o : Outline} {conds : List Condition}
    (ho : outline cs = some o) (hconds : conditions o = some (.ok conds)) :
    query cs = .ok ⟨o.negated, o.mediaType, conds⟩ := by
  rw [query, ho]
  dsimp only
  rw [hconds]
  rfl

/-- Blanks in front of a joint are part of it. -/
theorem blanks_append_joint {gap joint : List Char} (hgap : Blanks gap) (h : Joint joint) :
    Joint (gap ++ joint) := by
  obtain ⟨before, word, behind, rfl, hbefore, hword, hbehind⟩ := h
  exact ⟨gap ++ before, word, behind, by simp, List.forall_mem_append.2 ⟨hgap, hbefore⟩, hword,
    hbehind⟩

/-- The type of a layout is found with what follows it. -/
theorem TypeWording.LaidOut.withType_eq {t : TypeWording} {front rest : List Char}
    {more : Option (List Char)} (h : t.LaidOut front) (hrest : Follows rest more) :
    withType (front ++ rest) =
      some ⟨t.keyword == some .not, lowerAscii (String.ofList t.name), [], more⟩ := by
  rw [TypeWording.LaidOut] at h
  cases hk : t.keyword with
  | none =>
    rw [hk] at h
    subst h
    exact withType_name_append t.isName (t.isFree hk) hrest
  | some keyword =>
    rw [hk] at h
    obtain ⟨word, gap, rfl, hword, hgap⟩ := h
    have htyped (negated : Bool) :=
      typed_name_append negated hgap t.isName hrest.any_head? hrest.tail_eq
    rw [List.append_assoc, List.append_assoc, withType]
    cases keyword with
    | only =>
      rw [withKeyword_only_append hword, htyped]
      rfl
    | not =>
      rw [withKeyword_not_append hword, htyped]
      rfl

/-- A layout is read as the query that its words make. -/
theorem Wording.LaidOut.query_eq {w : Wording} {cs : List Char} (h : w.LaidOut cs) :
    Media.query cs = .ok w.query := by
  cases h with
  | type ht =>
    have ho := ht.withType_eq .nil
    rw [List.append_nil] at ho
    exact query_eq_ok (by rw [outline_eq, ho, Option.some_or]) rfl
  | @typeAnd t f fs front gap row ht hgap hne hrow hline =>
    have hconds := hrow.mapM_condition
    cases hrow with
    | @cons _ _ joint cs row hjoint hf hrow =>
      obtain ⟨inner, rfl, -⟩ := hf.exists_enclosed
      have hhead : (gap ++ joint).head?.any isBlank = true := by
        cases gap with
        | nil => exact absurd rfl hne
        | cons c gap => exact hgap c List.mem_cons_self
      have hmore : enclosed inner ++ row = '(' :: (inner ++ ')' :: row) := enclosed_append _ _
      rw [hmore] at hline
      have hrest := Follows.joint (blanks_append_joint hgap hjoint) hhead fun hmem =>
        hline (List.mem_append_right _ (List.mem_cons_of_mem _ hmem))
      have ho := ht.withType_eq hrest
      rw [hmore, ← List.append_assoc gap]
      refine query_eq_ok (by rw [outline_eq, ho, Option.some_or]) (conditions_eq ?_ ?_)
      · rintro more ⟨⟩
        rfl
      · rw [List.nil_append, Option.getD_some, ← hmore, ← parentheses_joint_append hjoint]
        exact hconds
  | @untyped f fs cs row hf hrow hline =>
    obtain ⟨inner, rfl, hclosed, -, hcondition⟩ := hf.exists_enclosed
    have hconds := hrow.mapM_condition
    cases hrow with
    | nil =>
      have ho := exists_outline_enclosed_append hclosed (tail_eq_some_none_iff.2 rfl)
      refine query_eq_ok ho (conditions_eq nofun ?_)
      rw [Option.getD_none, parentheses_enclosed_append hclosed, List.mapM_cons, hcondition]
      rfl
    | @cons f' fs joint cs row hjoint hf' hrow =>
      obtain ⟨inner', rfl, -⟩ := hf'.exists_enclosed
      have hline' : '\n' ∉ enclosed inner' ++ row :=
        fun hmem => hline (List.mem_append_right _ hmem)
      have hstart : trimStart (enclosed inner' ++ row) = enclosed inner' ++ row :=
        dropWhile_isBlank rfl
      have htail := tail_joint_append hjoint hline'
      rw [hstart] at htail
      have ho := exists_outline_enclosed_append hclosed htail
      refine query_eq_ok ho (conditions_eq ?_ ?_)
      · rintro more ⟨⟩
        rfl
      · rw [Option.getD_some, parentheses_enclosed_append hclosed, List.mapM_cons, hcondition,
          ← parentheses_joint_append hjoint, hconds]
        rfl

/-! ## Parts of a list -/

theorem parts_ne_nil (cs : List Char) : parts cs ≠ [] := by
  fun_cases parts cs <;> exact List.cons_ne_nil _ _

/-- A character other than a comma joins the first part. -/
theorem parts_cons {c : Char} (hc : c ≠ ',') {cs p : List Char} {ps : List (List Char)}
    (h : parts cs = p :: ps) : parts (c :: cs) = (c :: p) :: ps := by
  have hcomma : ¬ (c == ',') = true := by simpa using hc
  rw [parts, if_neg hcomma, h]

theorem parts_eq_singleton {cs : List Char} (h : ',' ∉ cs) : parts cs = [cs] := by
  induction cs with
  | nil => rfl
  | cons c cs ih =>
    rw [List.mem_cons, not_or] at h
    exact parts_cons (Ne.symm h.1) (ih h.2)

/-- A comma divides the parts of a text. -/
theorem parts_append (cs ds : List Char) : parts (cs ++ ',' :: ds) = parts cs ++ parts ds := by
  induction cs with
  | nil => rfl
  | cons c cs ih =>
    by_cases hc : c = ','
    · subst hc
      exact congrArg ([] :: ·) ih
    · obtain ⟨p, ps, hparts⟩ := List.exists_cons_of_ne_nil (parts_ne_nil cs)
      rw [hparts, List.cons_append] at ih
      rw [List.cons_append, parts_cons hc ih, parts_cons hc hparts, List.cons_append]

theorem parts_append_comma {part : List Char} (h : ',' ∉ part) (cs : List Char) :
    parts (part ++ ',' :: cs) = part :: parts cs := by
  rw [parts_append, parts_eq_singleton h, List.singleton_append]

/-! ## Layouts as parts -/

theorem IsName.flush {name : List Char} (h : IsName name) : Flush name :=
  flush_of_forall fun c hc => isBlank_of_isWordChar (h.2 c hc)

theorem Keyword.isPrefixWord {keyword : Keyword} {word : List Char}
    (h : IsKeyword keyword.word word) : IsPrefixWord word := by
  cases keyword with
  | only => exact .inl h
  | not => exact .inr h

/-- A keyword is a name on its own. -/
theorem IsPrefixWord.isName {word : List Char} (h : IsPrefixWord word) : IsName word := by
  have := h.isName_append (List.forall_mem_nil _)
  rwa [List.append_nil] at this

theorem TypeWording.LaidOut.flush {t : TypeWording} {cs : List Char} (h : t.LaidOut cs) :
    Flush cs ∧ cs ≠ [] ∧ ',' ∉ cs := by
  have hcomma {name : List Char} (hname : IsName name) : ',' ∉ name :=
    fun hmem => absurd (hname.2 _ hmem) (by decide)
  rw [TypeWording.LaidOut] at h
  split at h
  · subst h
    exact ⟨t.isName.flush, t.isName.ne_nil, hcomma t.isName⟩
  · obtain ⟨word, gap, rfl, hword, hgap⟩ := h
    have hword := (Keyword.isPrefixWord hword).isName
    refine ⟨hword.flush.append t.isName.flush hword.ne_nil t.isName.ne_nil gap, ?_, ?_⟩
    · simp [t.isName.ne_nil]
    · simp [hcomma hword, hcomma t.isName, not_mem_of_blanks hgap (c := ',') rfl]

/-- A layout is a part of a list, trimmed. -/
theorem Wording.LaidOut.flush {w : Wording} {cs : List Char} (h : w.LaidOut cs) :
    Flush cs ∧ cs ≠ [] ∧ ',' ∉ cs := by
  cases h with
  | type ht => exact ht.flush
  | @typeAnd t f fs front gap row ht hgap _ hrow _ =>
    obtain ⟨hflush, hne, hcomma⟩ := ht.flush
    refine ⟨⟨?_, ?_⟩, ?_, ?_⟩
    · rw [List.head?_append_of_ne_nil _ hne]
      exact hflush.1
    · rw [← List.append_assoc, hrow.getLast?_append (List.cons_ne_nil _ _)]
      rfl
    · simp [hne]
    · simp [hcomma, hrow.comma_not_mem, not_mem_of_blanks hgap (c := ',') rfl]
  | @untyped f fs cs row hf hrow _ =>
    obtain ⟨inner, rfl, -, hcomma, -⟩ := hf.exists_enclosed
    refine ⟨⟨rfl, ?_⟩, by simp [enclosed], by simp [enclosed, hcomma, hrow.comma_not_mem]⟩
    cases fs with
    | nil =>
      cases hrow
      rw [List.append_nil, enclosed, ← List.cons_append, List.getLast?_concat]
      rfl
    | cons f' fs =>
      rw [hrow.getLast?_append (List.cons_ne_nil _ _)]
      rfl

/-- Whatever layout is chosen for a query, with blanks around it or without, it is read as a
list of this query alone. -/
theorem parseList_of_laidOut {w : Wording} {before cs behind : List Char} (h : w.LaidOut cs)
    (hbefore : Blanks before) (hbehind : Blanks behind) :
    parseList (String.ofList (before ++ (cs ++ behind))) = .ok [w.query] := by
  obtain ⟨hflush, hne, hcomma⟩ := h.flush
  have hone : ',' ∉ before ++ (cs ++ behind) := by
    simp [hcomma, not_mem_of_blanks hbefore (c := ',') rfl,
      not_mem_of_blanks hbehind (c := ',') rfl]
  rw [parseList, String.toList_ofList, parts_eq_singleton hone, List.mapM_cons,
    trim_blanks_append hbefore hbehind hflush hne, h.query_eq]
  rfl

/-- A type that is negated, and two features, one with a bound and a value. -/
def narrowOrGrey : Wording :=
  .typed ⟨some .not, "Screen".toList, by decide, nofun⟩
    [⟨"MIN-Width".toList, some "500px".toList, by decide, by
        rintro _ ⟨⟩
        exact ⟨by decide, by decide, by decide, by decide⟩⟩,
      ⟨"-o-color".toList, none, by decide, nofun⟩]

theorem laidOut_narrowOrGrey :
    narrowOrGrey.LaidOut "nOt\n Screen\nand(MIN-Width :\t500px )AND ( -o-color)".toList := by
  have htext : "nOt\n Screen\nand(MIN-Width :\t500px )AND ( -o-color)".toList =
      "nOt\n Screen".toList ++ (['\n'] ++ ("and".toList ++ ("(MIN-Width :\t500px )".toList ++
        ("AND ".toList ++ ("( -o-color)".toList ++ []))))) := by decide
  rw [htext]
  refine .typeAnd ⟨"nOt".toList, "\n ".toList, by decide, by decide, by decide⟩ (by decide)
    (by decide) ?_ (by decide)
  refine .cons ⟨[], "and".toList, [], by decide, by decide, by decide, by decide⟩
    ⟨[], [' '], ":\t500px ".toList, by decide, by decide, by decide, ['\t'], [' '], by decide,
      by decide, by decide⟩ ?_
  exact .cons ⟨[], "AND".toList, [' '], by decide, by decide, by decide, by decide⟩
    ⟨[' '], [], [], by decide, by decide, by decide, by decide⟩ .nil

/-- The layout may touch the parentheses, break lines up to the first `and`, and mix letters. -/
theorem parseList_narrowOrGrey :
    parseList "\tnOt\n Screen\nand(MIN-Width :\t500px )AND ( -o-color) " =
      .ok [⟨true, "screen", [⟨some .min, "width", some "500px"⟩, ⟨none, "-o-color", none⟩]⟩] := by
  have htext : "\tnOt\n Screen\nand(MIN-Width :\t500px )AND ( -o-color) " = String.ofList (['\t'] ++
      ("nOt\n Screen\nand(MIN-Width :\t500px )AND ( -o-color)".toList ++ [' '])) := by decide
  have hquery : narrowOrGrey.query =
      ⟨true, "screen", [⟨some .min, "width", some "500px"⟩, ⟨none, "-o-color", none⟩]⟩ := by
    decide +kernel
  rw [htext, parseList_of_laidOut laidOut_narrowOrGrey (by decide) (by decide), hquery]

end CssPruning.Media
