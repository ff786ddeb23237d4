import CssPruning.Proofs.Media.Parentheses

/-!
# The grammar of media queries

A part of a list is documented to be a type or a parenthesis, with a joint and a
parenthesis behind it any number of times, each parenthesis with a feature in it and
a value, if any (`Documented`).  What is read is more: behind the first joint any text
may stand between the parentheses and behind the last, as long as it has no line feed
and no parenthesis is closed in it, and a blank counts as a value (`Accepted`,
`isOk_parseList_iff`).  So a part that is read is as documented if and only if its
parentheses are joined as documented, and none of them ends in a colon.
-/

set_option autoImplicit false

namespace CssPruning.Media

open Text

/-! ## The documented grammar -/

/-- A part of types, joints and parentheses in the documented order, the parentheses with
something of some kind inside. -/
inductive Framed (inside : List Char → Prop) : List Char → Prop where
  | type {type row : List Char} : IsType type → Row inside Joint (· = []) row →
      Framed inside (type ++ row)
  | condition {inner row : List Char} : Closed inner → inside inner →
      Row inside Joint (· = []) row → Framed inside (enclosed inner ++ row)

/-- A part as it is documented: every parenthesis holds a feature, and no value is blank. -/
def Documented : List Char → Prop := Framed (IsFeature fun text => ¬ Blanks text)

/-! ## What is read -/

/-- A part as it is read: any text that is not empty is a value, and behind the first joint
any text may stand between the parentheses and behind them. -/
inductive Accepted : List Char → Prop where
  | type {type : List Char} : IsType type → Accepted type
  | typeAnd {type joint gap inner row : List Char} : IsType type → Joint joint → Gap gap →
      Closed inner → IsFeature (· ≠ []) inner → Row (IsFeature (· ≠ [])) Gap Trailing row →
      '\n' ∉ gap ++ (enclosed inner ++ row) →
      Accepted (type ++ (joint ++ (gap ++ (enclosed inner ++ row))))
  | condition {inner : List Char} : Closed inner → IsFeature (· ≠ []) inner →
      Accepted (enclosed inner)
  | conditionAnd {inner joint row : List Char} : Closed inner → IsFeature (· ≠ []) inner →
      Joint joint → Row (IsFeature (· ≠ [])) Gap Trailing row → ¬ Blanks row → '\n' ∉ row →
      Accepted (enclosed inner ++ (joint ++ row))

/-! ## The conditions of an outline -/

theorem isOk_mapM_iff {α β ε : Type} {f : α → Except ε β} {as : List α} :
    (as.mapM f).isOk = true ↔ ∀ a ∈ as, (f a).isOk = true := by
  induction as with
  | nil => exact iff_of_true rfl (List.forall_mem_nil _)
  | cons a as ih =>
    rw [List.mapM_cons, List.forall_mem_cons, ← ih]
    cases f a with
    | error e => exact iff_of_false Bool.false_ne_true fun h => Bool.false_ne_true h.1
    | ok b =>
      refine Iff.trans ?_ (and_iff_right rfl).symm
      cases as.mapM f with
      | error e => exact Iff.rfl
      | ok bs => exact Iff.rfl

theorem isOk_condition_iff {inner : List Char} :
    (condition inner).isOk = true ↔ IsFeature (· ≠ []) inner := by
  rw [← isSome_condition?_iff, condition]
  cases condition? inner with
  | none => exact Iff.rfl
  | some c => exact iff_of_true rfl rfl

/-- Nothing is left of a text if it is nothing but blanks. -/
theorem isEmpty_trim_iff {cs : List Char} : (trim cs).isEmpty = true ↔ Blanks cs := by
  obtain ⟨bs, hbs, hcs⟩ := exists_blanks_trimStart cs
  have hstart : Blanks (trimStart cs) ↔ Blanks cs := by
    refine ⟨fun h => ?_, fun h c hc => h c (hcs ▸ List.mem_append_right _ hc)⟩
    rw [hcs]
    exact List.forall_mem_append.2 ⟨hbs, h⟩
  rw [List.isEmpty_iff, trim, trimEnd, List.reverse_eq_nil_iff, List.dropWhile_eq_nil_iff, ← hstart]
  exact ⟨fun h c hc => h c (List.mem_reverse.2 hc), fun h c hc => h c (List.mem_reverse.1 hc)⟩

/-- The conditions of an outline can be read. -/
def Readable (o : Outline) : Prop := ∃ c, conditions o = some c ∧ c.isOk = true

/-- They are if something stands behind the joint, if there is one, and if there are
parentheses wherever there is any text, with a feature in each. -/
theorem readable_iff {o : Outline} : Readable o ↔
    (∀ more, o.more = some more → ¬ Blanks more) ∧
      (Blanks (o.first ++ o.more.getD []) ∨ parentheses none (o.first ++ o.more.getD []) ≠ [] ∧
        ∀ inner ∈ parentheses none (o.first ++ o.more.getD []), IsFeature (· ≠ []) inner) := by
  have hmore : (o.more.any fun more => (trim more).isEmpty) = true ↔
      ∃ more, o.more = some more ∧ Blanks more := by
    rw [Option.any_eq_true]
    simp only [isEmpty_trim_iff]
  unfold Readable conditions
  dsimp only
  by_cases hblank : (o.more.any fun more => (trim more).isEmpty) = true
  · rw [if_pos hblank]
    obtain ⟨more, hmore, hblanks⟩ := hmore.1 hblank
    exact iff_of_false (by simp) fun h => h.1 more hmore hblanks
  · have hsome : ∀ more, o.more = some more → ¬ Blanks more :=
      fun more ho hblanks => hblank (hmore.2 ⟨more, ho, hblanks⟩)
    rw [if_neg hblank, and_iff_right hsome]
    by_cases hempty : (trim (o.first ++ o.more.getD [])).isEmpty = true
    · rw [if_pos hempty]
      exact iff_of_true ⟨_, rfl, rfl⟩ (.inl (isEmpty_trim_iff.1 hempty))
    · rw [if_neg hempty, parentheses_trim, or_iff_right (mt isEmpty_trim_iff.2 hempty)]
      cases parentheses none (o.first ++ o.more.getD []) with
      | nil => simp
      | cons inner inners =>
        simp only [Option.some.injEq, exists_eq_left', isOk_mapM_iff, isOk_condition_iff]
        exact (and_iff_right (List.cons_ne_nil _ _)).symm

theorem isOk_query_iff {cs : List Char} :
    (query cs).isOk = true ↔ ∃ o, outline cs = some o ∧ Readable o := by
  unfold query Readable
  dsimp only
  cases outline cs with
  | none => exact iff_of_false Bool.false_ne_true (by simp)
  | some o =>
    simp only [Option.some.injEq, exists_eq_left']
    cases conditions o with
    | none => exact iff_of_false Bool.false_ne_true (by simp)
    | some c =>
      simp only [Option.some.injEq, exists_eq_left']
      cases c <;> exact Iff.rfl

/-! ## Outlines without a type -/

theorem withType_enclosed_append (inner rest : List Char) :
    withType (enclosed inner ++ rest) = none := by
  cases h : withType (enclosed inner ++ rest) with
  | none => rfl
  | some o =>
    obtain ⟨-, type, behind, htext, htype, -⟩ := withType_eq_some rfl h
    cases type with
    | nil => exact absurd rfl htype.ne_nil
    | cons c type =>
      obtain ⟨rfl, -⟩ := List.cons.inj htext
      exact absurd List.mem_cons_self (not_mem_of_isType htype)

theorem untyped_enclosed_append {inner : List Char} (h : Closed inner) (rest : List Char) :
    untyped (enclosed inner ++ rest) =
      (tail rest).map fun more => ⟨false, "all", enclosed inner, more⟩ := by
  obtain ⟨hne, hclosing⟩ := h
  have htext : enclosed inner ++ rest = '(' :: (inner ++ ')' :: rest) := by simp [enclosed]
  rw [htext, untyped, takeWhile_bne_append hclosing, dropWhile_bne_append hclosing]
  cases inner with
  | nil => exact absurd rfl hne
  | cons c inner => rfl

theorem untyped_eq_some {cs : List Char} {o : Outline} (h : untyped cs = some o) :
    ∃ inner rest, cs = enclosed inner ++ rest ∧ Closed inner := by
  unfold untyped at h
  split at h
  · rename_i cs
    dsimp only at h
    split at h
    · rename_i c inner rest hinner hrest
      refine ⟨c :: inner, rest, ?_, List.cons_ne_nil _ _, ?_⟩
      · rw [enclosed, ← hinner, List.cons_append, List.append_assoc, List.singleton_append, ← hrest,
          List.takeWhile_append_dropWhile]
      · rw [← hinner]
        intro hmem
        exact absurd (List.mem_takeWhile_imp hmem) (by decide)
    · cases h
  · cases h

/-! ## Parts -/

theorem Readable.of_forall {o : Outline} (hmore : ∀ more, o.more = some more → ¬ Blanks more)
    (hne : parentheses none (o.first ++ o.more.getD []) ≠ [])
    (hall : ∀ inner ∈ parentheses none (o.first ++ o.more.getD []), IsFeature (· ≠ []) inner) :
    Readable o :=
  readable_iff.2 ⟨hmore, .inr ⟨hne, hall⟩⟩

/-- Blanks hold no parenthesis. -/
theorem parentheses_of_blanks {cs : List Char} (h : Blanks cs) : parentheses none cs = [] :=
  parentheses_trailing (.inl (gap_of_not_mem fun hmem => absurd (h _ hmem) (by decide)))

/-- What is read as a query is an accepted part. -/
theorem accepted_of_isOk_query {cs : List Char} (hcs : cs.head?.any isBlank = false)
    (h : (query cs).isOk = true) : Accepted cs := by
  obtain ⟨o, ho, hreadable⟩ := isOk_query_iff.1 h
  obtain ⟨hmore, hconditions⟩ := readable_iff.1 hreadable
  rw [outline_eq] at ho
  rcases Option.or_eq_some_iff.1 ho with ho | ⟨-, ho⟩
  · obtain ⟨hfirst, type, rest, rfl, htype, htail⟩ := withType_eq_some hcs ho
    cases hm : o.more with
    | none =>
      rw [hm] at htail
      rw [tail_eq_some_none_iff.1 htail, List.append_nil]
      exact .type htype
    | some more =>
      rw [hm] at htail
      obtain ⟨⟨joint, hjoint, rfl⟩, -, hline⟩ := tail_eq_some_some_iff.1 htail
      rw [hfirst, hm, Option.getD_some, List.nil_append, or_iff_right (hmore more hm)] at hconditions
      obtain ⟨hne, hall⟩ := hconditions
      rcases trailing_or_exists_enclosed more with h | ⟨gap, inner, row, rfl, hgap, hclosed⟩
      · exact absurd (parentheses_trailing h) hne
      · rw [parentheses_gap_append hgap, parentheses_enclosed_append hclosed,
          List.forall_mem_cons] at hall
        exact .typeAnd htype hjoint hgap hclosed hall.1 (row_iff.2 hall.2) hline
  · obtain ⟨inner, rest, rfl, hclosed⟩ := untyped_eq_some ho
    rw [untyped_enclosed_append hclosed] at ho
    obtain ⟨more?, htail, rfl⟩ := Option.map_eq_some_iff.1 ho
    dsimp only at hmore hconditions
    rw [or_iff_right (fun hblanks => absurd (hblanks '(' List.mem_cons_self) (by decide)),
      parentheses_enclosed_append hclosed, List.forall_mem_cons] at hconditions
    obtain ⟨-, hinner, hall⟩ := hconditions
    cases more? with
    | none =>
      rw [tail_eq_some_none_iff.1 htail, List.append_nil]
      exact .condition hclosed hinner
    | some more =>
      obtain ⟨⟨joint, hjoint, rfl⟩, -, hline⟩ := tail_eq_some_some_iff.1 htail
      exact .conditionAnd hclosed hinner hjoint (row_iff.2 hall) (hmore more rfl) hline

theorem parentheses_joint_append {joint : List Char} (h : Joint joint) (cs : List Char) :
    parentheses none (joint ++ cs) = parentheses none cs :=
  parentheses_gap_append (gap_of_not_mem (not_mem_of_joint h (by decide) (by decide))) cs

theorem parentheses_type_append {type : List Char} (h : IsType type) (cs : List Char) :
    parentheses none (type ++ cs) = parentheses none cs :=
  parentheses_gap_append (gap_of_not_mem (not_mem_of_isType h)) cs

/-- A text that is read as a type with something behind it is readable by its parentheses
alone, wherever the type is taken to end. -/
theorem readable_of_withType {cs : List Char} {o : Outline} (hcs : cs.head?.any isBlank = false)
    (ho : withType cs = some o) (hne : parentheses none cs ≠ [])
    (hall : ∀ inner ∈ parentheses none cs, IsFeature (· ≠ []) inner) : Readable o := by
  obtain ⟨hfirst, type, rest, rfl, htype, htail⟩ := withType_eq_some hcs ho
  rw [parentheses_type_append htype] at hne hall
  cases hm : o.more with
  | none =>
    rw [hm] at htail
    rw [tail_eq_some_none_iff.1 htail] at hne
    exact absurd rfl hne
  | some more =>
    rw [hm] at htail
    obtain ⟨⟨joint, hjoint, rfl⟩, -, -⟩ := tail_eq_some_some_iff.1 htail
    rw [parentheses_joint_append hjoint] at hne hall
    refine .of_forall ?_ ?_ ?_
    · intro more' hm' hblanks
      obtain rfl := Option.some.inj (hm.symm.trans hm')
      exact hne (parentheses_of_blanks hblanks)
    · rwa [hfirst, hm]
    · rwa [hfirst, hm]

/-- A parenthesis and what is read behind it. -/
theorem exists_outline_enclosed_append {inner rest : List Char} {more : Option (List Char)}
    (h : Closed inner) (htail : tail rest = some more) :
    outline (enclosed inner ++ rest) = some ⟨false, "all", enclosed inner, more⟩ := by
  rw [outline_eq, withType_enclosed_append, Option.none_or, untyped_enclosed_append h, htail]
  rfl

/-- An accepted part is read as a query. -/
theorem isOk_query_of_accepted {cs : List Char} (hcs : cs.head?.any isBlank = false)
    (h : Accepted cs) : (query cs).isOk = true := by
  rw [isOk_query_iff]
  cases h with
  | type htype =>
    have hsome := isSome_withType htype (show (tail []).isSome = true from rfl)
    rw [List.append_nil] at hsome
    obtain ⟨o, ho⟩ := Option.isSome_iff_exists.1 hsome
    refine ⟨o, by rw [outline_eq, ho, Option.some_or], ?_⟩
    have hmore := more_of_withType htype ho
    obtain ⟨hfirst, -⟩ := withType_eq_some hcs ho
    rw [readable_iff, hmore, hfirst]
    exact ⟨fun _ h => (nomatch h), .inl blanks_nil⟩
  | typeAnd htype hjoint hgap hclosed hinner hrow hline =>
    have htail := tail_joint_append hjoint hline
    obtain ⟨o, ho⟩ := Option.isSome_iff_exists.1 (isSome_withType htype (by rw [htail]; rfl))
    refine ⟨o, by rw [outline_eq, ho, Option.some_or], readable_of_withType hcs ho ?_ ?_⟩
    · rw [parentheses_type_append htype, parentheses_joint_append hjoint,
        parentheses_gap_append hgap, parentheses_enclosed_append hclosed]
      exact List.cons_ne_nil _ _
    · rw [parentheses_type_append htype, parentheses_joint_append hjoint,
        parentheses_gap_append hgap, parentheses_enclosed_append hclosed, List.forall_mem_cons]
      exact ⟨hinner, row_iff.1 hrow⟩
  | @condition inner hclosed hinner =>
    have houtline := exists_outline_enclosed_append hclosed (tail_eq_some_none_iff.2 rfl)
    have hparentheses : parentheses none (enclosed inner ++ []) = [inner] :=
      parentheses_enclosed_append hclosed []
    rw [List.append_nil] at houtline
    refine ⟨_, houtline, .of_forall (fun _ h => (nomatch h)) ?_ ?_⟩
    · exact hparentheses ▸ List.cons_ne_nil _ _
    · rw [Option.getD_none, hparentheses, List.forall_mem_singleton]
      exact hinner
  | @conditionAnd inner joint row hclosed hinner hjoint hrow hblanks hline =>
    have houtline := exists_outline_enclosed_append hclosed (tail_joint_append hjoint hline)
    obtain ⟨bs, hbs, hmore⟩ := exists_blanks_trimStart row
    have hparentheses : parentheses none (enclosed inner ++ trimStart row) =
        inner :: parentheses none row := by
      rw [parentheses_enclosed_append hclosed]
      conv => rhs; rw [hmore]
      rw [parentheses_gap_append
        (gap_of_not_mem fun hmem => absurd (hbs _ hmem) (by decide))]
    refine ⟨_, houtline, .of_forall ?_ ?_ ?_⟩
    · intro more hm hmoreBlanks
      obtain rfl := Option.some.inj hm
      rw [hmore] at hblanks
      exact hblanks (List.forall_mem_append.2 ⟨hbs, hmoreBlanks⟩)
    · rw [Option.getD_some, hparentheses]
      exact List.cons_ne_nil _ _
    · rw [Option.getD_some, hparentheses, List.forall_mem_cons]
      exact ⟨hinner, row_iff.1 hrow⟩

/-! ## What is read and what is documented -/

/-- A text with a blank value: there is nothing but blanks behind its first colon. -/
def BlankValue (inner : List Char) : Prop :=
  ∃ front text, inner = front ++ ':' :: text ∧ ':' ∉ front ∧ Blanks text

/-- A documented feature is one that is read, without a blank value. -/
theorem isFeature_not_blanks_iff {inner : List Char} :
    IsFeature (fun text => ¬ Blanks text) inner ↔
      IsFeature (· ≠ []) inner ∧ ¬ BlankValue inner := by
  have hcolon {before name gap : List Char} (hbefore : Blanks before) (hname : IsFeatureName name)
      (hgap : Blanks gap) : ':' ∉ before ++ name ++ gap := by
    rw [List.mem_append, List.mem_append, not_or, not_or]
    exact ⟨⟨fun h => absurd (hbefore _ h) (by decide), fun h => absurd (hname.2.1 _ h) (by decide)⟩,
      fun h => absurd (hgap _ h) (by decide)⟩
  constructor
  · rintro ⟨before, name, gap, rest, rfl, hbefore, hname, hgap, hrest⟩
    constructor
    · refine ⟨before, name, gap, rest, rfl, hbefore, hname, hgap, hrest.imp_right ?_⟩
      rintro ⟨text, rfl, htext⟩
      refine ⟨text, rfl, ?_⟩
      rintro rfl
      exact htext blanks_nil
    · rintro ⟨front, text, hinner, hfront, hblanks⟩
      rcases hrest with rfl | ⟨text', rfl, htext⟩
      · rw [List.append_nil] at hinner
        exact hcolon hbefore hname hgap (hinner ▸ List.mem_append_right _ List.mem_cons_self)
      · obtain ⟨-, rfl⟩ := append_cons_inj (hcolon hbefore hname hgap) hfront hinner
        exact htext hblanks
  · rintro ⟨⟨before, name, gap, rest, rfl, hbefore, hname, hgap, hrest⟩, hblank⟩
    refine ⟨before, name, gap, rest, rfl, hbefore, hname, hgap, hrest.imp_right ?_⟩
    rintro ⟨text, rfl, -⟩
    refine ⟨text, rfl, fun htext => hblank ⟨before ++ name ++ gap, text, rfl, ?_, htext⟩⟩
    exact hcolon hbefore hname hgap

/-- Every parenthesis of an accepted part holds a feature. -/
theorem Accepted.forall_parentheses {cs : List Char} (h : Accepted cs) :
    ∀ inner ∈ parentheses none cs, IsFeature (· ≠ []) inner := by
  cases h with
  | type htype =>
    rw [← List.append_nil cs, parentheses_type_append htype]
    exact List.forall_mem_nil _
  | typeAnd htype hjoint hgap hclosed hinner hrow =>
    rw [parentheses_type_append htype, parentheses_joint_append hjoint, parentheses_gap_append hgap,
      parentheses_enclosed_append hclosed, List.forall_mem_cons]
    exact ⟨hinner, row_iff.1 hrow⟩
  | @condition inner hclosed hinner =>
    rw [← List.append_nil (enclosed inner), parentheses_enclosed_append hclosed,
      List.forall_mem_cons]
    exact ⟨hinner, List.forall_mem_nil _⟩
  | conditionAnd hclosed hinner hjoint hrow =>
    rw [parentheses_enclosed_append hclosed, parentheses_joint_append hjoint, List.forall_mem_cons]
    exact ⟨hinner, row_iff.1 hrow⟩

theorem gap_of_joint {cs : List Char} (h : Joint cs) : Gap cs :=
  gap_of_not_mem (not_mem_of_joint h (by decide) (by decide))

theorem Framed.mono {inside inside' : List Char → Prop} {cs : List Char}
    (hinside : ∀ inner, inside inner → inside' inner) (h : Framed inside cs) : Framed inside' cs := by
  cases h with
  | type htype hrow => exact .type htype (hrow.mono hinside (fun _ h => h) fun _ h => h)
  | condition hclosed hinner hrow =>
    exact .condition hclosed (hinside _ hinner) (hrow.mono hinside (fun _ h => h) fun _ h => h)

/-- What is known inside of all parentheses may be added to a frame. -/
theorem Framed.and_of_forall {inside inside' : List Char → Prop} {cs : List Char}
    (hall : ∀ inner ∈ parentheses none cs, inside' inner) (h : Framed inside cs) :
    Framed (fun inner => inside inner ∧ inside' inner) cs := by
  cases h with
  | type htype hrow =>
    rw [parentheses_type_append htype] at hall
    exact .type htype (hrow.and_of_forall (fun _ => gap_of_joint) hall)
  | condition hclosed hinner hrow =>
    rw [parentheses_enclosed_append hclosed, List.forall_mem_cons] at hall
    exact .condition hclosed ⟨hinner, hall.1⟩ (hrow.and_of_forall (fun _ => gap_of_joint) hall.2)

theorem enclosed_append (inner cs : List Char) :
    enclosed inner ++ cs = '(' :: (inner ++ ')' :: cs) := by
  simp [enclosed]

/-- There is one way to take a parenthesis off the front of a row. -/
theorem Row.of_append {inside : List Char → Prop} {gap inner cs : List Char} (hgap : '(' ∉ gap)
    (hclosed : Closed inner) (h : Row inside Joint (· = []) (gap ++ (enclosed inner ++ cs))) :
    Joint gap ∧ Row inside Joint (· = []) cs := by
  generalize htext : gap ++ (enclosed inner ++ cs) = text at h
  cases h with
  | last hrest =>
    rw [hrest] at htext
    simp [enclosed] at htext
  | cons hjoint hclosed' _ hrow =>
    rw [enclosed_append, enclosed_append] at htext
    have hgap' := not_mem_of_joint hjoint (c := '(') (by decide) (by decide)
    obtain ⟨rfl, hrest⟩ := append_cons_inj hgap hgap' htext
    obtain ⟨-, rfl⟩ := append_cons_inj hclosed.2 hclosed'.2 hrest
    exact ⟨hjoint, hrow⟩

/-- There is one way to take a parenthesis off the front of a part. -/
theorem Framed.row_of_append {inside : List Char → Prop} {inner cs : List Char}
    (hclosed : Closed inner) (h : Framed inside (enclosed inner ++ cs)) :
    Row inside Joint (· = []) cs := by
  generalize htext : enclosed inner ++ cs = text at h
  cases h with
  | @type type row htype =>
    cases type with
    | nil => exact absurd rfl htype.ne_nil
    | cons c type =>
      obtain ⟨rfl, -⟩ := List.cons.inj htext
      exact absurd List.mem_cons_self (not_mem_of_isType htype)
  | condition hclosed' _ hrow =>
    rw [enclosed_append, enclosed_append] at htext
    obtain ⟨-, rfl⟩ := append_cons_inj hclosed.2 hclosed'.2 (List.cons.inj htext).2
    exact hrow

/-- An accepted part is as documented if it is put together so, and no value is blank. -/
theorem Accepted.documented_iff {cs : List Char} (h : Accepted cs) :
    Documented cs ↔ Framed (fun inner => ¬ BlankValue inner) cs := by
  constructor
  · exact Framed.mono fun inner hinner => (isFeature_not_blanks_iff.1 hinner).2
  · intro hframed
    refine (hframed.and_of_forall h.forall_parentheses).mono ?_
    exact fun inner hinner => isFeature_not_blanks_iff.2 hinner.symm

/-- A documented part is accepted if it has no line feed. -/
theorem Documented.accepted {cs : List Char} (h : Documented cs) (hline : '\n' ∉ cs) :
    Accepted cs := by
  have hinside (inner : List Char) (hinner : IsFeature (fun text => ¬ Blanks text) inner) :
      IsFeature (· ≠ []) inner := (isFeature_not_blanks_iff.1 hinner).1
  have hrow {row : List Char} :
      Row (IsFeature fun text => ¬ Blanks text) Joint (· = []) row →
        Row (IsFeature (· ≠ [])) Gap Trailing row := by
    refine Row.mono hinside (fun _ => gap_of_joint) ?_
    rintro _ rfl
    exact .inl .nil
  cases h with
  | type htype h =>
    cases h with
    | last hrest =>
      rw [hrest, List.append_nil]
      exact .type htype
    | cons hjoint hclosed hinner h =>
      refine .typeAnd htype hjoint .nil hclosed (hinside _ hinner) (hrow h) ?_
      exact fun hmem => hline (List.mem_append_right _ (List.mem_append_right _ hmem))
  | condition hclosed hinner h =>
    cases h with
    | last hrest =>
      rw [hrest, List.append_nil]
      exact .condition hclosed (hinside _ hinner)
    | cons hjoint hclosed' hinner' h =>
      refine .conditionAnd hclosed (hinside _ hinner) hjoint
        (.cons .nil hclosed' (hinside _ hinner') (hrow h)) ?_ ?_
      · exact fun hblanks => absurd (hblanks '(' List.mem_cons_self) (by decide)
      · exact fun hmem => hline (List.mem_append_right _ (List.mem_append_right _ hmem))

/-! ## Lists -/

theorem mem_of_mem_parts {cs part : List Char} {c : Char} (hpart : part ∈ parts cs) (hc : c ∈ part) :
    c ∈ cs := by
  fun_induction parts cs generalizing part with
  | case1 =>
    rw [List.mem_singleton.1 hpart] at hc
    cases hc
  | case2 d cs hd ih =>
    rcases List.mem_cons.1 hpart with rfl | hpart
    · cases hc
    · exact List.mem_cons_of_mem _ (ih hpart hc)
  | case3 d cs hd p ps hparts ih =>
    rw [hparts] at ih
    rcases List.mem_cons.1 hpart with rfl | hpart
    · rcases List.mem_cons.1 hc with rfl | hc
      · exact List.mem_cons_self
      · exact List.mem_cons_of_mem _ (ih List.mem_cons_self hc)
    · exact List.mem_cons_of_mem _ (ih (List.mem_cons_of_mem _ hpart) hc)
  | case4 d cs hd hparts ih =>
    rw [List.mem_singleton.1 hpart, List.mem_singleton] at hc
    rw [hc]
    exact List.mem_cons_self

/-- A list is read if and only if its parts are accepted.  A part of a list that is read is as
documented if and only if its parentheses are joined as documented and none has a blank value;
and every list in one line whose parts are as documented is read. -/
theorem isOk_parseList_iff (text : String) :
    ((parseList text).isOk = true ↔ ∀ part ∈ parts text.toList, Accepted (trim part)) ∧
      ((parseList text).isOk = true → ∀ part ∈ parts text.toList,
        (Documented (trim part) ↔ Framed (fun inner => ¬ BlankValue inner) (trim part))) ∧
      ('\n' ∉ text.toList → (∀ part ∈ parts text.toList, Documented (trim part)) →
        (parseList text).isOk = true) := by
  have hiff : (parseList text).isOk = true ↔
      ∀ part ∈ parts text.toList, Accepted (trim part) := by
    rw [parseList, isOk_mapM_iff]
    refine forall₂_congr fun part _ => ?_
    exact ⟨accepted_of_isOk_query (flush_trim part).1, isOk_query_of_accepted (flush_trim part).1⟩
  refine ⟨hiff, fun h part hpart => (hiff.1 h part hpart).documented_iff, fun hline h => ?_⟩
  rw [hiff]
  intro part hpart
  refine (h part hpart).accepted fun hmem => hline ?_
  exact mem_of_mem_parts hpart (mem_of_mem_trim hmem)

/-- Conditions may be joined by `or` from the second joint on, and nothing is made of it. -/
theorem accepts_or :
    (parseList "(color) and (width: 1px) or (height: 1px)").isOk = true ∧
      ∃ part ∈ parts "(color) and (width: 1px) or (height: 1px)".toList,
        ¬ Documented (trim part) := by
  refine ⟨by decide +kernel, "(color) and (width: 1px) or (height: 1px)".toList,
    by decide +kernel, ?_⟩
  have htext : trim "(color) and (width: 1px) or (height: 1px)".toList =
      enclosed "color".toList ++ (" and ".toList ++ (enclosed "width: 1px".toList ++
        (" or ".toList ++ (enclosed "height: 1px".toList ++ [])))) := by decide +kernel
  rw [htext]
  intro hdocumented
  have hrow := hdocumented.row_of_append ⟨by decide, by decide⟩
  obtain ⟨-, hrow⟩ := hrow.of_append (by decide) ⟨by decide, by decide⟩
  obtain ⟨hjoint, -⟩ := hrow.of_append (by decide) ⟨by decide, by decide⟩
  exact not_mem_of_joint hjoint (c := 'o') (by decide) (by decide) (by decide)

end CssPruning.Media
