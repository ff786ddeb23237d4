import CssPruning.Proofs.Token.Grouping

/-!
# Texts that end inside of something

A text is unterminated if it ends inside of a block, a string or a comment that was
opened and never closed (`Unterminated`).  What is open is open to the end: the
last tree of such a text is a block without a closing bracket, or a string or a
comment that runs out (`exists_open_of_unterminated`).

An address without quotes is a lexeme, and no block, be it closed or not.
-/

set_option autoImplicit false

namespace CssPruning

/-! ## Strings and comments that run out -/

/-- The text behind an opening quote ends before there is a closing one, and on the
line of the string.  A line end behind a backslash is left out, and any other
character there is escaped. -/
inductive Token.RunsOut (quote : Char) : List Char → Prop where
  | nil : RunsOut quote []
  | backslash : RunsOut quote ['\\']
  | gap {cs : List Char} : atLineEnd cs = true → RunsOut quote (oneSpace cs).rest →
      RunsOut quote ('\\' :: cs)
  | escape {cs : List Char} : cs ≠ [] → atLineEnd cs = false →
      RunsOut quote (escape cs).rest → RunsOut quote ('\\' :: cs)
  | char {c : Char} {cs : List Char} : c ≠ quote → isLineEnd c = false → c ≠ '\\' →
      RunsOut quote cs → RunsOut quote (c :: cs)

/-- A comment without its closing mark, or a string without its closing quote. -/
def Lexeme.Open (l : Lexeme) : Prop :=
  match l.token with
  | .comment _ => ∃ body, l.source = '/' :: '*' :: body ∧ ¬ ['*', '/'] <:+: body
  | .string _ => ∃ quote body, l.source = quote :: body ∧ Token.RunsOut quote body
  | _ => False

/-- A comment without its closing mark does not look as if it had one. -/
theorem Lexeme.commentCloses_of_open {l : Lexeme} {text : String} (h : l.Open)
    (htoken : l.token = .comment text) : l.commentCloses = false := by
  rw [Lexeme.Open, htoken] at h
  obtain ⟨body, hsource, hmark⟩ := h
  rw [Lexeme.commentCloses, hsource, Bool.and_eq_false_iff, decide_eq_false_iff_not]
  cases hlength : decide (2 ≤ body.length) with
  | false =>
    left
    rw [decide_eq_false_iff_not] at hlength
    simp only [List.length_cons]
    omega
  | true =>
    right
    rw [decide_eq_true_eq] at hlength
    -- two characters at the end are two characters of the body
    rw [← Bool.not_eq_true, List.isPrefixOf_iff_prefix]
    intro hprefix
    apply hmark
    have hsuffix : ['*', '/'] <:+ '/' :: '*' :: body := List.reverse_prefix.1 hprefix
    exact (List.suffix_of_suffix_length_le hsuffix
      ((List.suffix_cons _ _).trans (List.suffix_cons _ _)) hlength).isInfix

namespace TokenTree

/-! ## Blocks without a closing bracket -/

mutual

/-- A block of the tree, at some depth, has no closing bracket. -/
def hasUnclosed : TokenTree → Bool
  | leaf _ => false
  | block _ contents closer => closer.isNone || anyUnclosed contents
termination_by structural t => t

/-- A block of the forest, at some depth, has no closing bracket. -/
def anyUnclosed : List TokenTree → Bool
  | [] => false
  | t :: ts => hasUnclosed t || anyUnclosed ts
termination_by structural ts => ts

end

theorem anyUnclosed_of_allWhole {b : Bracket} {ts : List TokenTree} (h : AllWhole b ts) :
    anyUnclosed ts = false := by
  induction ts using forestInduction generalizing b with
  | nil => rfl
  | leaf l ts ih => exact ih h.2.2
  | block opener contents closer ts ihc ih =>
    obtain ⟨⟨c, l, -, hcontents, rfl, -⟩, -, hts⟩ := h
    simp [anyUnclosed, hasUnclosed, ihc hcontents, ih hts]

theorem hasUnclosed_of_whole {t : TokenTree} (h : Whole t) : hasUnclosed t = false := by
  cases t with
  | leaf l => rfl
  | block opener contents closer =>
    obtain ⟨c, l, -, hcontents, rfl, -⟩ := h
    simp [hasUnclosed, anyUnclosed_of_allWhole hcontents]

theorem anyUnclosed_of_forall_whole {ts : List TokenTree} (h : ∀ t ∈ ts, Whole t) :
    anyUnclosed ts = false := by
  induction ts with
  | nil => rfl
  | cons t ts ih =>
    rw [List.forall_mem_cons] at h
    rw [anyUnclosed, hasUnclosed_of_whole h.1, ih h.2, Bool.or_self]

/-- The tree is a leaf, or a block that begins with an opening bracket. -/
def Begins : TokenTree → Prop
  | leaf _ => True
  | block opener _ _ => opener.token.opens.isSome = true

section

variable {P : TokenTree → Prop} (hleaf : ∀ l, P (leaf l))
  (hblock : ∀ opener contents closer, opener.token.opens.isSome = true →
    (∀ t ∈ contents, P t) → P (block opener contents closer))

include hblock in
theorem forall_mem_unwind {frames : List Frame} {done : List TokenTree}
    (hframes : ∀ f ∈ frames, f.opener.token.opens.isSome = true ∧ ∀ t ∈ f.before, P t)
    (hdone : ∀ t ∈ done, P t) : ∀ t ∈ unwind frames done, P t := by
  induction frames generalizing done with
  | nil =>
    intro t ht
    exact hdone t (List.mem_reverse.1 ht)
  | cons f fs ih =>
    rw [List.forall_mem_cons] at hframes
    apply ih hframes.2
    exact List.forall_mem_cons.2
      ⟨hblock _ _ _ hframes.1.1 fun t ht => hdone t (List.mem_reverse.1 ht), hframes.1.2⟩

include hleaf hblock in
theorem forall_mem_group {frames : List Frame} {done : List TokenTree} {ls : List Lexeme}
    (hframes : ∀ f ∈ frames, f.opener.token.opens.isSome = true ∧ ∀ t ∈ f.before, P t)
    (hdone : ∀ t ∈ done, P t) : ∀ t ∈ group frames done ls, P t := by
  fun_induction group frames done ls with
  | case1 frames done => exact forall_mem_unwind hblock hframes hdone
  | case2 frames done l ls b hopens ih =>
    have hl : l.token.opens.isSome = true := by rw [hopens]; rfl
    exact ih (List.forall_mem_cons.2 ⟨⟨hl, hdone⟩, hframes⟩) (List.forall_mem_nil _)
  | case3 done l ls hopens f fs hl ih =>
    rw [List.forall_mem_cons] at hframes
    exact ih hframes.2 (List.forall_mem_cons.2
      ⟨hblock _ _ _ hframes.1.1 fun t ht => hdone t (List.mem_reverse.1 ht), hframes.1.2⟩)
  | case4 done l ls hopens f fs hl ih =>
    exact ih hframes (List.forall_mem_cons.2 ⟨hleaf l, hdone⟩)
  | case5 done l ls hopens ih => exact ih hframes (List.forall_mem_cons.2 ⟨hleaf l, hdone⟩)

include hleaf hblock in
/-- What holds of leaves, and of a block that an opening bracket begins if it holds inside of
it, holds of every tree of a forest. -/
theorem forall_mem_forest (cs : List Char) : ∀ t ∈ forest cs, P t :=
  forall_mem_group hleaf hblock (List.forall_mem_nil _) (List.forall_mem_nil _)

end

/-- Every block of a forest begins with an opening bracket. -/
theorem begins_of_mem_forest {cs : List Char} {t : TokenTree} (h : t ∈ forest cs) : Begins t :=
  forall_mem_forest (fun _ => trivial) (fun _ _ _ hopens _ => hopens) cs t h

/-! ## The last tree -/

/-- The tree is a block without a closing bracket, or a lexeme that is open. -/
def Open : TokenTree → Prop
  | leaf l => l.Open
  | block opener _ closer => opener.token.opens.isSome = true ∧ closer = none

/-- A lexeme that is open is no part of a closed block's end. -/
theorem open_of_getLast?_allLexemes {ts : List TokenTree} {l : Lexeme}
    (hwhole : ∀ t ∈ ts, Whole t) (hl : l ∈ (allLexemes ts).getLast?) (hopen : l.Open) :
    ∃ us, ts = us ++ [leaf l] := by
  rcases List.eq_nil_or_concat ts with rfl | ⟨us, t, rfl⟩
  · cases hl
  · rw [List.concat_eq_append] at hwhole hl
    have ht : Whole t := hwhole t (List.mem_append_right _ (List.mem_singleton_self t))
    rw [allLexemes_append, allLexemes, allLexemes, List.append_nil] at hl
    cases t with
    | leaf l' =>
      rw [lexemes, List.getLast?_concat, Option.mem_some_iff] at hl
      exact ⟨us, by rw [hl, List.concat_eq_append]⟩
    | block opener contents closer =>
      -- its last lexeme is the closing bracket
      obtain ⟨b, l', -, -, rfl, hclosing⟩ := ht
      rw [lexemes, Option.toList_some, ← List.cons_append, ← List.append_assoc,
        List.getLast?_concat, Option.mem_some_iff] at hl
      rw [Lexeme.Open, ← hl, hclosing] at hopen
      cases hopen

end TokenTree

open TokenTree

/-- The text ends inside of a block, a string or a comment that was opened and never
closed. -/
def Unterminated (cs : List Char) : Prop :=
  anyUnclosed (forest cs) = true ∨ ∃ l ∈ (tokenize cs).getLast?, l.Open

/-- The last tree of an unterminated text is open. -/
theorem exists_open_of_unterminated {cs : List Char} (h : Unterminated cs) :
    ∃ ts t, forest cs = ts ++ [t] ∧ t.Open := by
  have hgood : Good [] [] := by
    intro t ht
    cases ht
  rcases finished_group hgood (tokenize cs) with hwhole | ⟨us, opener, contents, hopen⟩
  · rcases h with hunclosed | ⟨l, hl, hopen⟩
    · rw [forest, anyUnclosed_of_forall_whole hwhole] at hunclosed
      cases hunclosed
    · rw [← lexemes_forest, forest] at hl
      obtain ⟨us, hus⟩ := open_of_getLast?_allLexemes hwhole hl hopen
      exact ⟨us, leaf l, hus, hopen⟩
  · refine ⟨us, block opener contents none, hopen, ?_, rfl⟩
    have hmem : block opener contents none ∈ forest cs := by
      rw [forest, hopen]
      exact List.mem_append_right _ (List.mem_singleton_self _)
    exact begins_of_mem_forest hmem

end CssPruning
