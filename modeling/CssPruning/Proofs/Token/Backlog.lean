import CssPruning.Proofs.Text.Lower
import CssPruning.Proofs.Token.Solid
import CssPruning.Proofs.Token.Squeezed

/-!
# Names of a squeezed text

A name may hold a blank that CSS has no name for, such as a no-break space, and a
squeezed text ends the name there.  But an escape takes the space that such a blank
gives way to, and then the name goes on with what followed the blank.  If that stands
for the blank once more, as an escape, the name is the same, and yet more of the text
is behind it: the squeezed text is read ahead, and the other one has a backlog
(`Strewn`).

A backlog is never made up for (`tokens_ne_of_apart`): the characters in it stand for
blanks, and whatever name is read from them can be read from the squeezed text only by
reading as many of them again.  So names that are read from a text and from that text
squeezed end in step, or the tokens behind them differ (`name_squeeze`).
-/

set_option autoImplicit false

namespace CssPruning.Token

open Text

variable {b : Bool} {c : Char} {m n : Nat} {cs ds xs ys : List Char}

/-! ## Blanks of names -/

/-- A blank that a name may hold as it is. -/
def isForeign (c : Char) : Bool := isBlank c && isNameChar c

/-- The character, if it is a blank; the others are not told apart. -/
def blankMask (c : Char) : Char := if isBlank c then c else 'x'

theorem isBlank_of_isForeign (h : isForeign c = true) : isBlank c = true :=
  (Bool.and_eq_true _ _ ▸ h).1

theorem isNameChar_of_isForeign (h : isForeign c = true) : isNameChar c = true :=
  (Bool.and_eq_true _ _ ▸ h).2

theorem blankMask_of_isBlank (h : isBlank c = true) : blankMask c = c := if_pos h

theorem isForeign_blankMask (h : isForeign (blankMask c) = true) : isForeign c = true := by
  rw [blankMask] at h
  split at h
  · exact h
  · cases h

theorem map_blankMask_of_foreign (h : ∀ c ∈ cs, isForeign c = true) : cs.map blankMask = cs := by
  have hself : cs.map blankMask = cs.map id :=
    List.map_congr_left fun c hc => blankMask_of_isBlank (isBlank_of_isForeign (h c hc))
  rw [hself, List.map_id]

/-- One blank alone is neither a space of CSS nor a part of names. -/
theorem eq_tab_of_isBlank (h : isBlank c = true) (hspace : isSpace c = false)
    (hname : isNameChar c = false) : c = '\x0b' := by
  have hne (d : Char) (hd : isSpace d = true) : c.toNat ≠ d.toNat := by
    intro heq
    rw [Char.toNat_inj.1 heq, hd] at hspace
    cases hspace
  have hcode : ¬ 0x80 ≤ c.toNat := by
    intro hcode
    rw [isNameChar, isNameStart, decide_eq_true hcode, Bool.or_true] at hname
    cases hname
  have htab : c.toNat = '\x0b'.toNat := by
    simp only [isBlank, Bool.or_eq_true, Bool.and_eq_true, decide_eq_true_eq, beq_iff_eq] at h
    have htab : c.toNat ≠ 9 := hne '\t' rfl
    have hline : c.toNat ≠ 10 := hne '\n' rfl
    have hfeed : c.toNat ≠ 12 := hne '\x0c' rfl
    have hreturn : c.toNat ≠ 13 := hne '\r' rfl
    have hspace : c.toNat ≠ 32 := hne ' ' rfl
    change c.toNat = 11
    omega
  exact Char.toNat_inj.1 htab

/-! ## Names -/

theorem name_cons_of_isNameChar (h : isNameChar c = true) (cs : List Char) :
    name (c :: cs) = ((name cs).map (withoutNul c :: ·)).behind [c] := by
  have hback : ¬ (c == '\\') = true := by
    intro hc
    rw [beq_iff_eq] at hc
    rw [hc] at h
    cases h
  rw [name, if_neg hback, if_pos h]

theorem name_of_value_eq_nil (h : (name cs).value = []) : name cs = ⟨[], [], cs⟩ := by
  revert h
  fun_cases name cs with
  | case1 | case2 | case5 => exact fun _ => rfl
  | case3 | case4 => exact fun h => by cases h

/-- In a squeezed text a backslash always starts an escape. -/
theorem name_squeeze_backslash (b : Bool) (cs : List Char) :
    name (squeeze b ('\\' :: cs)) =
      ((name (escape (squeeze false cs)).rest).map ((escape (squeeze false cs)).value :: ·)).behind
        ('\\' :: (escape (squeeze false cs)).source) := by
  rw [squeeze_cons rfl, name_escape (atLineEnd_squeeze false cs)]

/-- A blank that names go on with may start one, and no other blank does. -/
theorem startsName_of_isBlank (hc : isBlank c = true) (cs : List Char) :
    startsName (c :: cs) = isNameChar c := by
  have hne (d : Char) (hd : isBlank d = false) : c ≠ d := by
    rintro rfl
    rw [hc] at hd
    cases hd
  rw [startsName_cons (hne '-' rfl), if_neg (by simpa using hne '\\' rfl), isNameChar,
    isDigit_of_isBlank hc, beq_eq_false_iff_ne.2 (hne '-' rfl), Bool.or_false, Bool.or_false]

/-! ## Texts that stand for blanks -/

/-- The second text is behind some blanks of the first, and behind a number of escapes
that stand for blanks of names. -/
inductive Strewn : Nat → List Char → List Char → Prop where
  | refl {cs : List Char} : cs.head?.any isBlank = false → Strewn 0 cs cs
  | blank {n : Nat} {c : Char} {cs ds : List Char} : isBlank c = true → Strewn n cs ds →
      Strewn n (c :: cs) ds
  | escape {n : Nat} {cs ds : List Char} : cs.head?.any isHexDigit = true →
      isForeign (escape cs).value = true → Strewn n (behindDigits cs) ds →
      Strewn (n + 1) ('\\' :: cs) ds

namespace Strewn

theorem trans (h : Strewn m xs ys) (h' : Strewn n ys ds) : Strewn (m + n) xs ds := by
  induction h with
  | refl => rwa [Nat.zero_add]
  | blank hc _ ih => exact .blank hc (ih h')
  | escape hhex hvalue _ ih =>
    rw [Nat.add_right_comm]
    exact .escape hhex hvalue (ih h')

theorem of_cons_blank (hc : isBlank c = true) (h : Strewn n (c :: cs) ds) : Strewn n cs ds := by
  cases h with
  | refl hhead =>
    rw [List.head?_cons, Option.any_some, hc] at hhead
    cases hhead
  | blank _ h => exact h
  | escape => cases hc

theorem oneSpace (h : Strewn n cs ds) : Strewn n (oneSpace cs).rest ds := by
  revert h
  fun_cases Token.oneSpace cs with
  | case1 cs => exact fun h => of_cons_blank rfl (of_cons_blank rfl h)
  | case2 c cs _ hc => exact of_cons_blank (isBlank_of_isSpace hc)
  | case3 => exact id
  | case4 => exact id

theorem rest_escape (hhex : cs.head?.any isHexDigit = true) (h : Strewn n (behindDigits cs) ds) :
    Strewn n (Token.escape cs).rest ds := by
  rw [rest_escape_of_head hhex]
  exact h.oneSpace

end Strewn

theorem length_behindDigits_lt {k : Nat} (h : ('\\' :: cs).length = k) :
    (behindDigits cs).length < k := by
  rw [behindDigits, List.length_drop]
  rw [List.length_cons] at h
  omega

/-- A blank of names is escaped by its code in a squeezed text. -/
theorem isHexDigit_of_isForeign_escape (h : isForeign (escape (squeeze false cs)).value = true) :
    cs.head?.any isHexDigit = true := by
  cases cs with
  | nil => cases h
  | cons c cs =>
    rw [List.head?_cons, Option.any_some]
    by_contra hhex
    rw [Bool.not_eq_true] at hhex
    cases hc : isBlank c with
    | true =>
      rw [squeeze_false_cons hc] at h
      cases h
    | false =>
      rw [squeeze_cons hc, escape_cons hhex] at h
      have hblank := isBlank_of_isForeign h
      rw [isBlank_withoutNul, hc] at hblank
      cases hblank

/-- A name of a squeezed text that stands for blanks alone is read from escapes, and all
blanks around them go with it. -/
theorem exists_strewn (h : ∀ f ∈ (name (squeeze true cs)).value, isForeign f = true) :
    ∃ ds, Strewn (name (squeeze true cs)).value.length cs ds ∧
      (name (squeeze true cs)).rest = squeeze true ds := by
  induction hlength : cs.length using Nat.strong_induction_on generalizing cs with
  | _ k ih =>
  cases cs with
  | nil =>
    rw [squeeze_nil, name]
    exact ⟨[], .refl rfl, rfl⟩
  | cons c cs =>
    cases hc : isBlank c with
    | true =>
      rw [squeeze_true_cons hc] at h ⊢
      obtain ⟨ds, hstrewn, hrest⟩ := ih _ (by simp [← hlength]) h rfl
      exact ⟨ds, .blank hc hstrewn, hrest⟩
    | false =>
      by_cases hback : c = '\\'
      · subst hback
        rw [name_squeeze_backslash] at h ⊢
        simp only [Scan.behind, Scan.map, List.forall_mem_cons, List.length_cons] at h ⊢
        have hhex := isHexDigit_of_isForeign_escape h.1
        obtain ⟨hvalue, hrest⟩ := escape_squeeze_of_isHexDigit hhex
        rw [hvalue, hrest] at h
        rw [hrest]
        obtain ⟨ds, hstrewn, hrest'⟩ := ih _ (length_behindDigits_lt hlength) h.2 rfl
        exact ⟨ds, .escape hhex h.1 hstrewn, hrest'⟩
      · have hname : isNameChar c = false := by
          by_contra hname
          rw [Bool.not_eq_false] at hname
          rw [squeeze_cons hc, name_cons_of_isNameChar hname] at h
          have hblank := isBlank_of_isForeign (h (withoutNul c) List.mem_cons_self)
          rw [isBlank_withoutNul, hc] at hblank
          cases hblank
        have hnil : name (squeeze true (c :: cs)) = ⟨[], [], squeeze true (c :: cs)⟩ := by
          rw [squeeze_cons hc]
          exact name_of_head (by simp [hname]) (by simpa using hback)
        rw [hnil]
        exact ⟨c :: cs, .refl hc, rfl⟩

/-! ## Names in step -/

/-- The second text is not all that is left of the first: characters that stand for
blanks are in front of it, or there is a token that no squeezed text has. -/
def Apart (cs ds : List Char) : Prop :=
  (∃ n, Strewn (n + 1) cs ds) ∨ cs.head? = some '\x0b'

/-- More is read of a squeezed text than of the text: what is left of the one is not all
that is left of the other. -/
def OutOfStep {α : Type} (s s' : Scan α) : Prop :=
  ∃ ds, s'.rest = squeeze true ds ∧ Apart s.rest ds

theorem not_apart_paren : ¬ Apart ('(' :: cs) ds := by
  rintro (⟨n, h⟩ | h)
  · cases h with
    | blank hc => cases hc
  · cases h

theorem isNameChar_of_source_eq_nil (h : (name cs).source = []) :
    cs.head?.any isNameChar = false := by
  cases cs with
  | nil => rfl
  | cons c cs =>
    rw [List.head?_cons, Option.any_some]
    by_contra hc
    rw [Bool.not_eq_false] at hc
    rw [name_cons_of_isNameChar hc] at h
    cases h

/-- The digits of an escape are followed by no space if it does not take one. -/
theorem isSpace_of_endsBlank_escape (hhex : cs.head?.any isHexDigit = true)
    (h : endsBlank false (escape cs).source = false) :
    (escape cs).rest.head?.any isSpace = false := by
  rw [escape_of_head hhex] at h ⊢
  dsimp only at h ⊢
  rw [endsBlank_append] at h
  revert h
  fun_cases oneSpace (cs.drop ((cs.take 6).takeWhile isHexDigit).length) with
  | case1 ds => exact fun h => by cases h
  | case2 d ds _ hd =>
    intro h
    rw [endsBlank_cons, isBlank_of_isSpace hd] at h
    cases h
  | case3 d ds _ hd => exact fun _ => by simpa using hd
  | case4 => exact fun _ => rfl

/-- Behind the digits of an escape it makes no difference to a squeezed name what is left
of the blanks there, unless the name ends at one that is no space. -/
theorem squeeze_rest_escape (hhex : cs.head?.any isHexDigit = true) :
    squeeze (endsBlank true (name (escape cs).rest).source) (name (escape cs).rest).rest =
        squeeze (endsBlank false ((escape cs).source ++ (name (escape cs).rest).source))
          (name (escape cs).rest).rest ∨
      (name (escape cs).rest).source = [] ∧
        (name (escape cs).rest).rest.head? = some '\x0b' := by
  rw [endsBlank_append]
  by_cases hsource : (name (escape cs).rest).source = []
  · have hname := isNameChar_of_source_eq_nil hsource
    have hsplits := name_splits (escape cs).rest
    rw [Scan.Splits, hsource, List.nil_append] at hsplits
    rw [hsource, hsplits, endsBlank_nil, endsBlank_nil]
    cases hends : endsBlank false (escape cs).source with
    | true => exact .inl rfl
    | false =>
      have hspace := isSpace_of_endsBlank_escape hhex hends
      cases hrest : (escape cs).rest with
      | nil => exact .inl rfl
      | cons c rest =>
        rw [hrest] at hspace hname
        cases hc : isBlank c with
        | false => exact .inl (squeeze_of_head (by simpa using hc) true false)
        | true => exact .inr ⟨rfl, congrArg some (eq_tab_of_isBlank hc hspace hname)⟩
  · rw [endsBlank_of_ne_nil hsource true]
    exact .inl rfl

/-- No blanks are in front of a character that is none of them. -/
theorem eq_nil_of_not_isForeign {front : List Char} (hfront : ∀ f ∈ front, isForeign f = true)
    (hc : isForeign c = false) (h : blankMask c :: xs = front ++ ys) : front = [] := by
  cases front with
  | nil => rfl
  | cons f front =>
    have hf := hfront f List.mem_cons_self
    rw [← (List.cons.inj h).1] at hf
    rw [isForeign_blankMask hf] at hc
    cases hc

theorem isForeign_of_not_isBlank (h : isBlank c = false) : isForeign c = false := by
  rw [isForeign, h, Bool.false_and]

theorem not_atLineEnd_of_isHexDigit (h : cs.head?.any isHexDigit = true) :
    ¬ atLineEnd cs = true := by
  cases cs with
  | nil => cases h
  | cons c cs =>
    intro hline
    have hblank := isBlank_of_isLineEnd (c := c) hline
    rw [isBlank_of_isHexDigit h] at hblank
    cases hblank

/-- If the name of the squeezed text is that of the text, but for some blanks that it starts
with, then it ends where that did and starts with none, or more is read of it. -/
def KeepsUp (b : Bool) (front cs : List Char) : Prop :=
  (name (squeeze b cs)).value.map blankMask = front ++ (name cs).value.map blankMask →
    (front = [] ∧
      (name (squeeze b cs)).rest = squeeze (endsBlank b (name cs).source) (name cs).rest) ∨
    OutOfStep (name cs) (name (squeeze b cs))

/-- A name goes on with a blank, which the squeezed name has in front already. -/
theorem KeepsUp.behind_blank {front : List Char} (hc : isForeign c = true)
    (h : KeepsUp true (front ++ [c]) cs) : KeepsUp b front (c :: cs) := by
  have hblank := isBlank_of_isForeign hc
  rw [KeepsUp, name_cons_of_isNameChar (isNameChar_of_isForeign hc)]
  cases b with
  | false =>
    intro heq
    rw [squeeze_false_cons hblank, name_of_head rfl (by simp)] at heq
    simp [Scan.behind, Scan.map] at heq
  | true =>
    rw [squeeze_true_cons hblank]
    intro heq
    refine .inr ((h ?_).resolve_left fun hnil => List.concat_ne_nil _ _ hnil.1)
    simpa [Scan.behind, Scan.map, withoutNul_of_isBlank hblank, blankMask_of_isBlank hblank]
      using heq

section

variable {front : List Char} (hfront : ∀ f ∈ front, isForeign f = true)

include hfront

/-- A name goes on with a character that stands for no blank. -/
theorem KeepsUp.behind {b' : Bool} {x x' : Char} {src src' rest : List Char}
    (h : KeepsUp b' [] rest) (hx : isForeign x' = false)
    (hname : name cs = ((name rest).map (x :: ·)).behind src)
    (hname' : name (squeeze b cs) = ((name (squeeze b' rest)).map (x' :: ·)).behind src')
    (hends : endsBlank b src = b') : KeepsUp b front cs := by
  rw [KeepsUp, hname, hname']
  simp only [Scan.behind, Scan.map, List.map_cons]
  intro heq
  have hnil := eq_nil_of_not_isForeign hfront hx heq
  subst hnil
  rcases h (List.cons.inj heq).2 with ⟨-, hstep⟩ | hapart
  · refine .inl ⟨rfl, ?_⟩
    rw [hstep, endsBlank_append, hends]
  · exact .inr hapart

/-- A name goes on with an escape in digits, which takes a space behind it. -/
theorem KeepsUp.behind_digits (hhex : cs.head?.any isHexDigit = true)
    (h : ∀ {front}, (∀ f ∈ front, isForeign f = true) → KeepsUp true front (escape cs).rest) :
    KeepsUp b front ('\\' :: cs) := by
  obtain ⟨hvalue, hrest⟩ := escape_squeeze_of_isHexDigit hhex
  rw [← squeeze_true_rest_oneSpace, ← rest_escape_of_head hhex] at hrest
  rw [KeepsUp, name_squeeze_backslash, name_escape (not_atLineEnd_of_isHexDigit hhex), hvalue,
    hrest]
  simp only [Scan.behind, Scan.map, List.map_cons]
  intro heq
  cases front with
  | nil =>
    rcases h (List.forall_mem_nil _) (List.cons.inj heq).2 with ⟨-, hstep⟩ | hapart
    · rcases squeeze_rest_escape hhex with hsame | ⟨hsource, htab⟩
      · exact .inl ⟨rfl, by rw [hstep, hsame]; rfl⟩
      · exact .inr ⟨_, by rw [hstep, hsource]; rfl, .inr htab⟩
    · exact .inr hapart
  | cons f front =>
    rw [List.cons_append, List.cons.injEq] at heq
    rw [List.forall_mem_cons, ← heq.1] at hfront
    -- the blank in front is made up for, and the one that is read now is in front
    have hforeign : isForeign (escape cs).value = true := isForeign_blankMask hfront.1
    have hfront' : ∀ f ∈ front ++ [(escape cs).value], isForeign f = true :=
      List.forall_mem_append.2 ⟨hfront.2, List.forall_mem_singleton.2 hforeign⟩
    refine .inr ((h hfront' ?_).resolve_left fun hnil => List.concat_ne_nil _ _ hnil.1)
    rw [heq.2, blankMask_of_isBlank (isBlank_of_isForeign hforeign), List.append_assoc]
    rfl

/-- A name goes on with an escape of one character, which is none of the blanks of names
when it is squeezed. -/
theorem KeepsUp.behind_escaped (hhex : ¬ cs.head?.any isHexDigit = true)
    (hline : ¬ atLineEnd cs = true) (h : ∀ {b'}, KeepsUp b' [] (escape cs).rest) :
    KeepsUp b front ('\\' :: cs) := by
  cases cs with
  | nil => exact h.behind hfront rfl (name_escape hline) (name_squeeze_backslash b []) rfl
  | cons d ds =>
    have hhex : isHexDigit d = false := Bool.eq_false_iff.2 hhex
    have hname := name_escape hline
    have hname' := name_squeeze_backslash b (d :: ds)
    rw [escape_cons hhex] at h hname
    cases hd : isBlank d with
    | false =>
      rw [squeeze_cons hd, escape_cons hhex] at hname'
      exact h.behind hfront (isForeign_of_not_isBlank ((isBlank_withoutNul d).trans hd))
        hname hname' hd
    | true =>
      rw [squeeze_false_cons hd, escape_cons rfl] at hname'
      exact h.behind hfront rfl hname hname' hd

/-- A name ends, and the squeezed one may go on with blanks only. -/
theorem keepsUp_of_end (hback : c ≠ '\\') (hchar : isNameChar c = false) :
    KeepsUp b front (c :: cs) := by
  have hend {d : Char} {ds : List Char} (hd : isNameChar d = false) (hback : d ≠ '\\') :
      name (d :: ds) = ⟨[], [], d :: ds⟩ :=
    name_of_head (by simpa using hd) (by simpa using hback)
  rw [KeepsUp, hend hchar hback, List.map_nil, List.append_nil]
  intro heq
  by_cases hnil : front = []
  · rw [hnil, List.map_eq_nil_iff] at heq
    refine .inl ⟨hnil, ?_⟩
    rw [name_of_value_eq_nil heq]
    rfl
  have hforeign : ∀ x ∈ (name (squeeze b (c :: cs))).value, isForeign x = true :=
    fun x hx => isForeign_blankMask (hfront _ (heq ▸ List.mem_map_of_mem hx))
  cases b with
  | false =>
    -- the squeezed text starts with no name, either
    refine absurd (heq.symm.trans ?_) hnil
    cases hc : isBlank c with
    | false => rw [squeeze_cons hc, hend hchar hback, List.map_nil]
    | true => rw [squeeze_false_cons hc, hend rfl (by decide), List.map_nil]
  | true =>
    obtain ⟨ds, hstrewn, hrest⟩ := exists_strewn hforeign
    have hlength := congrArg List.length heq
    rw [List.length_map] at hlength
    obtain ⟨n, hn⟩ := Nat.exists_eq_succ_of_ne_zero (mt List.length_eq_zero_iff.1 hnil)
    rw [hlength, hn] at hstrewn
    exact .inr ⟨ds, hrest, .inl ⟨n, hstrewn⟩⟩

/-- An escaped line end is no part of a name, and the space that it gives way to is one. -/
theorem keepsUp_of_line_end (hline : atLineEnd cs = true) : KeepsUp b front ('\\' :: cs) := by
  cases cs with
  | nil => cases hline
  | cons d ds =>
    rw [KeepsUp, name_squeeze_backslash, squeeze_false_cons (isBlank_of_isLineEnd hline)]
    intro heq
    have hnil := eq_nil_of_not_isForeign hfront (c := ' ') rfl heq
    subst hnil
    rw [name, if_pos (beq_self_eq_true _), if_pos hline] at heq
    cases heq

end

/-- A name ends where it did in the squeezed text, or more is read of that than of the
text; so too if the squeezed name starts with more blanks. -/
theorem name_squeeze {front : List Char} (hfront : ∀ f ∈ front, isForeign f = true) :
    KeepsUp b front cs := by
  fun_induction name cs generalizing b front with
  | case1 =>
    rw [KeepsUp, squeeze_nil, name]
    exact fun heq => .inl ⟨by simpa using heq, rfl⟩
  | case2 c cs hc hline =>
    rw [beq_iff_eq] at hc
    subst hc
    exact keepsUp_of_line_end hfront hline
  | case3 c cs hc hline e _ =>
    rename_i ih
    rw [beq_iff_eq] at hc
    subst hc
    by_cases hhex : cs.head?.any isHexDigit = true
    · exact KeepsUp.behind_digits hfront hhex ih
    · exact KeepsUp.behind_escaped hfront hhex hline (ih (List.forall_mem_nil _))
  | case4 c cs hc hname ih =>
    cases hblank : isBlank c with
    | false =>
      have hplain := isForeign_of_not_isBlank ((isBlank_withoutNul c).trans hblank)
      have hname' := name_cons_of_isNameChar hname (squeeze false cs)
      rw [← squeeze_cons hblank b] at hname'
      exact (ih (List.forall_mem_nil _)).behind hfront hplain
        (name_cons_of_isNameChar hname cs) hname' hblank
    | true =>
      have hforeign : isForeign c = true := by rw [isForeign, hblank, hname]; rfl
      exact .behind_blank hforeign
        (ih (List.forall_mem_append.2 ⟨hfront, List.forall_mem_singleton.2 hforeign⟩))
  | case5 c cs hc hname =>
    exact keepsUp_of_end hfront (by simpa using hc) (by simpa using hname)

/-! ## Names from a backlog -/

/-- A name that is read from a backlog starts with blanks, and either goes on with the
name behind it, or ends at a blank within. -/
theorem Strewn.name_eq (h : Strewn n cs ds) :
    (∃ front, (∀ f ∈ front, isForeign f = true) ∧ (front = [] → n = 0) ∧
      (name cs).value = front ++ (name ds).value ∧ (name cs).rest = (name ds).rest) ∨
    (∃ m, (∀ f ∈ (name cs).value, isForeign f = true) ∧ Strewn m (name cs).rest ds ∧
      (name cs).rest.head?.any isBlank = true) := by
  induction hlength : cs.length using Nat.strong_induction_on generalizing n cs with
  | _ k ih =>
  cases h with
  | refl => exact .inl ⟨[], List.forall_mem_nil _, fun _ => rfl, rfl, rfl⟩
  | @blank n c cs _ hc h =>
    cases hname : isNameChar c with
    | true =>
      have hforeign : isForeign c = true := by rw [isForeign, hc, hname]; rfl
      rw [name_cons_of_isNameChar hname]
      simp only [Scan.behind, Scan.map, withoutNul_of_isBlank hc]
      rcases ih _ (by simp [← hlength]) h rfl with
        ⟨front, hfront, -, hvalue, hrest⟩ | ⟨m, hvalue, hstrewn, hblank⟩
      · refine .inl ⟨c :: front, List.forall_mem_cons.2 ⟨hforeign, hfront⟩,
          (absurd · (List.cons_ne_nil _ _)), ?_, hrest⟩
        rw [hvalue, List.cons_append]
      · exact .inr ⟨m, List.forall_mem_cons.2 ⟨hforeign, hvalue⟩, hstrewn, hblank⟩
    | false =>
      have hback : c ≠ '\\' := by
        rintro rfl
        cases hc
      rw [name_of_head (by simpa using hname) (by simpa using hback)]
      exact .inr ⟨n, List.forall_mem_nil _, .blank hc h, by simpa using hc⟩
  | @escape n cs _ hhex hvalue h =>
    have hline := not_atLineEnd_of_isHexDigit hhex
    have hlt : (Token.escape cs).rest.length < k := by
      rw [← hlength, List.length_cons]
      exact Nat.lt_succ_of_le (escape_splits cs).length_rest_le
    rw [name_escape hline]
    simp only [Scan.behind, Scan.map]
    rcases ih _ hlt (h.rest_escape hhex) rfl with
      ⟨front, hfront, -, hname, hrest⟩ | ⟨m, hname, hstrewn, hblank⟩
    · refine .inl ⟨_ :: front, List.forall_mem_cons.2 ⟨hvalue, hfront⟩,
        (absurd · (List.cons_ne_nil _ _)), ?_, hrest⟩
      rw [hname, List.cons_append]
    · exact .inr ⟨m, List.forall_mem_cons.2 ⟨hvalue, hname⟩, hstrewn, hblank⟩

/-- A name that is read from a backlog is out of step with the name of the squeezed text,
if they hold the same blanks. -/
theorem Strewn.outOfStep (h : Strewn (n + 1) cs ds) (hne : (name cs).value ≠ [])
    (hmask : (name (squeeze true ds)).value.map blankMask = (name cs).value.map blankMask) :
    OutOfStep (name cs) (name (squeeze true ds)) := by
  rcases h.name_eq with ⟨front, hfront, hnil, hvalue, hrest⟩ | ⟨m, hforeign, hstrewn, -⟩
  · rw [hvalue, List.map_append, map_blankMask_of_foreign hfront] at hmask
    rw [OutOfStep, hrest]
    exact (name_squeeze hfront hmask).resolve_left fun h =>
      absurd (hnil h.1) (Nat.succ_ne_zero n)
  · -- all of the name is a part of the backlog, and is read from the squeezed text again
    rw [map_blankMask_of_foreign hforeign] at hmask
    have hforeign' : ∀ x ∈ (name (squeeze true ds)).value, isForeign x = true :=
      fun x hx => isForeign_blankMask (hforeign _ (hmask ▸ List.mem_map_of_mem hx))
    obtain ⟨ds', hstrewn', hds'⟩ := exists_strewn hforeign'
    have hlength := congrArg List.length hmask
    rw [List.length_map] at hlength
    obtain ⟨k, hk⟩ := Nat.exists_eq_succ_of_ne_zero (mt List.length_eq_zero_iff.1 hne)
    rw [hlength, hk] at hstrewn'
    exact ⟨ds', hds', .inl ⟨m + k, hstrewn.trans hstrewn'⟩⟩

/-! ## Names as tokens -/

/-- There is no blank in the name of an address. -/
theorem map_blankMask_of_url (h : sameAscii (String.ofList cs) "url" = true) :
    cs.map blankMask = ['x', 'x', 'x'] := by
  have hlower : cs.map Char.toLower = "url".toList := by
    have := map_toLower_of_sameAscii h
    rwa [String.toList_ofList] at this
  have hplain : ∀ c ∈ cs, blankMask c = 'x' := by
    intro c hc
    have hmem : c.toLower ∈ "url".toList := by
      rw [← hlower]
      exact List.mem_map_of_mem hc
    have hblank := List.all_eq_true.1 (show "url".toList.all (!isBlank ·) = true by decide) _ hmem
    rw [isBlank_toLower, Bool.not_eq_true'] at hblank
    exact if_neg (Bool.eq_false_iff.1 hblank)
  have hlength : cs.length = 3 := by
    rw [← List.length_map Char.toLower, hlower]
    rfl
  rw [List.map_congr_left hplain, List.map_const', hlength]
  rfl

/-- Names of the same token hold the same blanks. -/
theorem map_blankMask_of_token (h : (nameOrFunction ds).value = (nameOrFunction cs).value) :
    (name ds).value.map blankMask = (name cs).value.map blankMask := by
  rcases nameOrFunction_cases cs with
    ⟨-, hident⟩ | ⟨rest, -, hfunction | ⟨hurl, s, hs, haddress⟩⟩
  · rw [hident] at h
    rw [String.ofList_injective (name_of_ident h).1]
  · rw [hfunction] at h
    rw [String.ofList_injective (name_of_function h).1]
  · rw [haddress] at h
    obtain ⟨-, -, -, hurl', -, -⟩ := name_of_address hs h
    rw [map_blankMask_of_url hurl', map_blankMask_of_url hurl]

/-- Tokens of names that are out of step are so, too: they are identifiers. -/
theorem OutOfStep.nameOrFunction (h : OutOfStep (name cs) (name ds))
    (hvalue : (nameOrFunction ds).value = (nameOrFunction cs).value) :
    OutOfStep (nameOrFunction cs) (nameOrFunction ds) := by
  obtain ⟨ds', hds', hapart⟩ := h
  have hparen : (name cs).rest.head? ≠ some '(' := by
    intro hparen
    obtain ⟨rest, hrest⟩ := List.head?_eq_some_iff.1 hparen
    rw [hrest] at hapart
    exact not_apart_paren hapart
  rw [nameOrFunction_of_ne hparen] at hvalue ⊢
  exact ⟨ds', (name_of_ident hvalue).2.trans hds', hapart⟩

end CssPruning.Token

namespace CssPruning

open Token Text

/-! ## A backlog stays -/

section

variable {c : Char} {n : Nat} {cs ds : List Char}

/-- Where a name starts the backlog, the texts behind the name have a backlog if the
tokens are the same. -/
theorem exists_apart_of_startsName (hname : startsName (c :: cs) = true) (hc : c ≠ '-')
    (h : Strewn (n + 1) (c :: cs) ds)
    (heq : solidTokens (squeeze true ds) = solidTokens (c :: cs)) :
    ∃ rest ds', rest.length < (c :: cs).length ∧ Apart rest ds' ∧
      solidTokens (squeeze true ds') = solidTokens rest := by
  have hspace : isSpace c = false := by
    by_contra hspace
    rw [Bool.not_eq_false] at hspace
    rcases eq_of_isSpace hspace with rfl | rfl | rfl | rfl | rfl <;> cases hname
  have hkind := ((startsName_iff c cs).1 hname).resolve_right fun h => hc h.2
  have hvalue : (name (c :: cs)).value ≠ [] := fun hnil =>
    source_name_ne_nil hname (by rw [name_of_value_eq_nil hnil])
  -- the squeezed text starts with the same token, which is that of a name
  rw [solidTokens_cons hspace] at heq
  obtain ⟨d, xs, hds, hd⟩ := exists_cons_of_solidTokens (heq ▸ List.cons_ne_nil _ _)
  rw [hds, solidTokens_cons (isSpace_of_not_isBlank hd)] at heq
  obtain ⟨htoken, hrest⟩ := List.cons.inj heq
  have hlt : (next c cs).rest.length < (c :: cs).length :=
    Nat.lt_succ_of_le (length_rest_next_le c cs)
  have hkind' : kind (next d xs).value = .name := by rw [htoken, hkind]
  rw [next_of_kind_name hkind] at htoken hrest hlt
  rw [next_of_kind_name hkind', ← hds] at htoken hrest
  have hout := h.outOfStep hvalue (map_blankMask_of_token htoken)
  obtain ⟨ds', hds', hapart⟩ := hout.nameOrFunction htoken
  exact ⟨_, ds', hlt, hapart, hds' ▸ hrest⟩

/-- A backlog is not made up for: the tokens differ. -/
theorem tokens_ne_of_apart (h : Apart cs ds) : solidTokens (squeeze true ds) ≠ solidTokens cs := by
  intro heq
  induction hlength : cs.length using Nat.strong_induction_on generalizing cs ds with
  | _ k ih =>
  -- whatever the text starts with, less of it has a backlog still
  suffices hstep : ∃ rest ds', rest.length < cs.length ∧ Apart rest ds' ∧
      solidTokens (squeeze true ds') = solidTokens rest by
    obtain ⟨rest, ds', hlt, hapart, heq'⟩ := hstep
    exact ih _ (hlength ▸ hlt) hapart heq' rfl
  rcases h with ⟨n, h⟩ | h
  · cases h with
    | @blank _ c cs _ hc h =>
      cases hspace : isSpace c with
      | true =>
        rw [solidTokens_cons_space hspace] at heq
        exact ⟨cs, ds, Nat.lt_succ_self _, .inl ⟨n, h⟩, heq⟩
      | false =>
        cases hname : isNameChar c with
        | true =>
          refine exists_apart_of_startsName ((startsName_of_isBlank hc cs).trans hname) ?_
            (.blank hc h) heq
          rintro rfl
          cases hc
        | false =>
          rw [eq_tab_of_isBlank hc hspace hname] at heq
          exact absurd heq (solidTokens_squeeze_ne_tab ds cs)
    | @escape _ cs _ hhex hvalue h =>
      refine exists_apart_of_startsName ?_ (by decide) (.escape hhex hvalue h) heq
      rw [startsName_cons (by decide), if_pos (beq_self_eq_true _)]
      simpa [atLineEnd] using not_atLineEnd_of_isHexDigit hhex
  · obtain ⟨cs', rfl⟩ := List.head?_eq_some_iff.1 h
    exact absurd heq (solidTokens_squeeze_ne_tab ds cs')

end

end CssPruning
