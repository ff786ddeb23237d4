import CssPruning.Proofs.Token.Alike

/-!
# How far a literal looks

The scanners of strings, comments, numbers and addresses are local.  A number is
the one that looks furthest, for a sign, a point or the mark of an exponent
belongs to it only if digits follow.

That a literal reads on to its end makes no difference here: one that the text
ends inside of leaves nothing, and there is no text that is akin to nothing.
-/

set_option autoImplicit false

namespace CssPruning.Token

/-! ## Strings and comments -/

theorem stringBody_gap {quote : Char} {cs : List Char} (hq : ¬ ('\\' == quote) = true)
    (h : atLineEnd cs = true) :
    stringBody quote ('\\' :: cs) =
      (stringBody quote (oneSpace cs).rest).behind ('\\' :: (oneSpace cs).source) := by
  have hne : ¬ cs.isEmpty = true := by
    intro hnil
    rw [List.isEmpty_iff] at hnil
    rw [hnil] at h
    cases h
  rw [stringBody, if_neg hq, if_neg (by decide), if_pos (by decide), if_neg hne, if_pos h]

theorem stringBody_escape {quote : Char} {cs : List Char} (hq : ¬ ('\\' == quote) = true)
    (hne : cs ≠ []) (h : ¬ atLineEnd cs = true) :
    stringBody quote ('\\' :: cs) =
      ((stringBody quote (escape cs).rest).map (·.map ((escape cs).value :: ·))).behind
        ('\\' :: (escape cs).source) := by
  rw [stringBody, if_neg hq, if_neg (by decide), if_pos (by decide),
    if_neg (by simpa using hne), if_neg h]

theorem source_escape_ne_nil {cs : List Char} (h : cs ≠ []) : (escape cs).source ≠ [] := by
  fun_cases escape cs with
  | case1 => exact absurd rfl h
  | case2 c cs hc digits gap =>
    have : digits = c :: (cs.take 5).takeWhile isHexDigit := by simp [digits, hc]
    simp [this]
  | case3 => simp

theorem local_stringBody (quote : Char) : Local Akin (stringBody quote) := by
  intro cs ds h
  fun_induction stringBody quote cs with
  | case1 => exact absurd rfl h.ne
  | case2 c cs hq => rw [List.singleton_append, stringBody, if_pos hq]
  | case3 c cs hq hend =>
    have hstop : isStop c = false := by
      cases hs : isStop c with
      | false => rfl
      | true => rw [isLineEnd_stop hs] at hend; cases hend
    obtain ⟨ds', rfl⟩ := h.cons_of_not_stop hstop
    rw [List.nil_append, stringBody, if_neg hq, if_pos hend]
  | case4 => exact absurd rfl h.ne
  | case5 c cs hq hend hc hne hline gap _ ih =>
    rw [beq_iff_eq] at hc
    subst hc
    have hrest : Akin gap.rest ((stringBody quote gap.rest).source ++ ds) :=
      Akin.of_splits (stringBody_splits quote _) h
    have hgap : oneSpace (gap.source ++ ((stringBody quote gap.rest).source ++ ds)) =
      ⟨gap.value, gap.source, (stringBody quote gap.rest).source ++ ds⟩ := local_oneSpace hrest
    have hline' : atLineEnd (gap.source ++ ((stringBody quote gap.rest).source ++ ds)) = true := by
      rw [atLineEnd, (Akin.of_splits (oneSpace_splits cs) hrest).any_head fun _ => isLineEnd_stop]
      exact hline
    simp only [Scan.behind, List.cons_append, List.append_assoc]
    rw [stringBody_gap hq hline', hgap, ih h]
    simp only [Scan.behind, List.cons_append]
  | case6 c cs hq hend hc hne hline e _ ih =>
    rw [beq_iff_eq] at hc
    subst hc
    have hrest : Akin e.rest ((stringBody quote e.rest).source ++ ds) :=
      Akin.of_splits (stringBody_splits quote _) h
    have he : escape (e.source ++ ((stringBody quote e.rest).source ++ ds)) =
      ⟨e.value, e.source, (stringBody quote e.rest).source ++ ds⟩ := local_escape hrest
    have hline' : ¬ atLineEnd (e.source ++ ((stringBody quote e.rest).source ++ ds)) = true := by
      rw [atLineEnd, (Akin.of_splits (escape_splits cs) hrest).any_head fun _ => isLineEnd_stop]
      exact hline
    have hne' : e.source ++ ((stringBody quote e.rest).source ++ ds) ≠ [] := by
      have := source_escape_ne_nil (mt List.isEmpty_iff.2 hne)
      simp [e, this]
    simp only [Scan.behind, Scan.map, List.cons_append, List.append_assoc]
    rw [stringBody_escape hq hne' hline', he, ih h]
    simp only [Scan.behind, Scan.map, List.cons_append]
  | case7 c cs hq hend hc ih =>
    simp only [Scan.behind, Scan.map, List.cons_append, List.nil_append]
    rw [stringBody, if_neg hq, if_neg hend, if_neg hc, ih h]
    rfl

theorem local_commentBody : Local Akin commentBody := by
  intro cs ds h
  fun_induction commentBody cs with
  | case1 => exact absurd rfl h.ne
  | case2 cs => rfl
  | case3 c cs hne ih =>
    simp only [Scan.behind, Scan.map, List.cons_append, List.nil_append]
    rw [commentBody, ih h]
    · rfl
    · rintro ds' rfl hslash
      -- the slash would have closed the comment before
      have hlook := Akin.of_splits (commentBody_splits cs) h
      rw [hslash] at hlook
      obtain ⟨cs', hcs⟩ := Akin.cons_of_not_stop' (by decide) hlook
      exact hne cs' rfl hcs

/-! ## Numbers -/

theorem local_sign : Local Akin sign := by
  intro cs ds
  fun_cases sign cs with
  | case1 c cs hc =>
    intro _
    rw [List.singleton_append, sign, if_pos hc]
  | case2 c cs hc =>
    intro h
    change sign ds = ⟨(), [], ds⟩
    have hhead : ds.head?.any (fun c => c == '+' || c == '-') = false := by
      rw [h.any_head fun _ hc => by apply eq_false_of_isStop hc <;> rfl]
      simpa using hc
    cases ds with
    | nil => rfl
    | cons d ds => rw [sign, if_neg (by simpa using hhead)]
  | case3 =>
    intro h
    exact absurd rfl h.ne

/-- A text that does not go on as a fraction has none. -/
theorem fraction_of_not {cs : List Char}
    (h : ∀ d ds, cs = '.' :: d :: ds → d.isDigit = false) : fraction cs = ⟨(), [], cs⟩ := by
  fun_cases fraction cs with
  | case1 d cs hd => rw [h d cs rfl] at hd; cases hd
  | case2 => rfl
  | case3 => rfl

/-- A text akin to a point without a digit has no fraction. -/
theorem fraction_of_akin {cs ds : List Char} (hcs : cs.head?.any Char.isDigit = false)
    (h : Akin ('.' :: cs) ds) : fraction ds = ⟨(), [], ds⟩ := by
  apply fraction_of_not
  rintro d ds' rfl
  have hnumber := h.number
  rw [startsNumber_cons rfl, startsNumber_cons rfl, hcs] at hnumber
  exact hnumber

theorem local_fraction : Local Akin fraction := by
  intro cs ds
  fun_cases fraction cs with
  | case1 d cs hd =>
    intro h
    have hrun := local_run (fun _ => isDigit_stop) h
    have hsource : (run Char.isDigit (d :: cs)).source =
        d :: cs.takeWhile Char.isDigit := by simp [run, hd]
    simp only [Scan.behind, List.cons_append, List.nil_append]
    rw [hsource] at hrun ⊢
    rw [List.cons_append, fraction, if_pos hd]
    rw [List.cons_append] at hrun
    rw [hrun]
    rfl
  | case2 d cs hd =>
    intro h
    exact fraction_of_akin (by simpa using hd) h
  | case3 cs hne =>
    intro h
    cases cs with
    | nil => exact absurd rfl h.ne
    | cons c cs =>
      by_cases hc : c = '.'
      · subst hc
        refine fraction_of_akin ?_ h
        cases cs with
        | nil => rfl
        | cons d cs => exact absurd rfl (hne d cs)
      · change fraction ds = ⟨(), [], ds⟩
        apply fraction_of_not
        rintro d ds' rfl
        obtain ⟨cs', hcs⟩ := Akin.cons_of_not_stop' (by decide) h
        exact absurd (List.cons.inj hcs).1 hc

/-- An exponent starts at the head of the text. -/
def startsExponent : List Char → Bool
  | e :: cs => (e == 'e' || e == 'E') && startsDigit cs
  | [] => false

/-- The texts show the same to a number without a unit, too, which might go on as an
exponent. -/
structure AkinToNumber (cs ds : List Char) : Prop extends Akin cs ds where
  exponent : startsExponent ds = startsExponent cs

/-- Behind one character or more, akin is akin to a number. -/
theorem Akin.append_toNumber {cs ds xs : List Char} (hxs : xs ≠ []) (h : Akin cs ds) :
    AkinToNumber (xs ++ cs) (xs ++ ds) := by
  cases xs with
  | nil => exact absurd rfl hxs
  | cons x xs =>
    refine ⟨h.append _, ?_⟩
    rw [List.cons_append, List.cons_append, startsExponent, startsExponent, (h.append xs).digit]

/-- In front of a text that starts no name, there is no exponent. -/
theorem Akin.toNumber {cs ds : List Char} (hname : startsName cs = false) (h : Akin cs ds) :
    AkinToNumber cs ds := by
  have hnone (xs : List Char) (hxs : startsName xs = false) : startsExponent xs = false := by
    cases xs with
    | nil => rfl
    | cons x xs =>
      rw [startsExponent, Bool.and_eq_false_imp]
      intro hx
      rw [Bool.or_eq_true, beq_iff_eq, beq_iff_eq] at hx
      rcases hx with rfl | rfl <;> cases hxs
  exact ⟨h, by rw [hnone cs hname, hnone ds (h.name.trans hname)]⟩

theorem exponent_of_not {cs : List Char} (h : startsExponent cs = false) :
    exponent cs = ⟨(), [], cs⟩ := by
  fun_cases exponent cs with
  | case1 e cs he s hs =>
    rw [startsExponent, he, Bool.true_and, startsDigit] at h
    rw [h] at hs
    cases hs
  | case2 => rfl
  | case3 => rfl
  | case4 => rfl

theorem local_exponent : Local AkinToNumber exponent := by
  intro cs ds
  fun_cases exponent cs with
  | case1 e cs he s hs =>
    intro h
    have hrun := local_run (fun _ => isDigit_stop) h.toAkin
    have hrest := Akin.of_splits (run_splits Char.isDigit s.rest) h.toAkin
    have hsign : sign (s.source ++ ((run Char.isDigit s.rest).source ++ ds)) =
      ⟨s.value, s.source, (run Char.isDigit s.rest).source ++ ds⟩ := local_sign hrest
    have hdigit : ((run Char.isDigit s.rest).source ++ ds).head?.any Char.isDigit = true := by
      rw [hrest.any_head fun _ => isDigit_stop]
      exact hs
    simp only [Scan.behind, List.cons_append, List.append_assoc]
    rw [exponent, if_pos he]
    simp only [hsign, if_pos hdigit, hrun, Scan.behind, List.cons_append]
  | case2 e cs he s hs =>
    intro h
    refine exponent_of_not (h.exponent.trans ?_)
    rw [startsExponent, he, Bool.true_and]
    exact Bool.eq_false_iff.2 hs
  | case3 e cs he =>
    intro h
    refine exponent_of_not (h.exponent.trans ?_)
    rw [startsExponent, Bool.not_eq_true _ |>.mp he, Bool.false_and]
  | case4 =>
    intro h
    exact absurd rfl h.ne

theorem local_decimal : Local AkinToNumber decimal := by
  have hfraction : Local AkinToNumber fun cs => (fraction cs).andThen exponent :=
    local_fraction.andThen (fun _ _ h => h.toAkin) exponent_splits local_exponent
  have hdigits : Local AkinToNumber fun cs =>
      (run Char.isDigit cs).andThen fun cs => (fraction cs).andThen exponent :=
    (local_run fun _ => isDigit_stop).andThen (fun _ _ h => h.toAkin)
      (fun cs => (fraction_splits cs).andThen (exponent_splits _)) hfraction
  exact local_sign.andThen (fun _ _ h => h.toAkin)
    (fun cs => (run_splits _ cs).andThen ((fraction_splits _).andThen (exponent_splits _))) hdigits

/-- A number without a percent sign behind it. -/
theorem numeral_of_ne {cs : List Char} (h : (decimal cs).rest.head? ≠ some '%') :
    numeral cs =
      if startsName (decimal cs).rest then
        (decimal cs).andThen fun cs => (name cs).map fun unit => .dimension (String.ofList unit)
      else (decimal cs).map fun _ => .number := by
  fun_cases numeral cs with
  | case1 n cs' hr =>
    rw [hr] at h
    exact absurd rfl h
  | case2 n hname => rw [if_pos hname]
  | case3 n hname => rw [if_neg hname]

theorem local_numeral : Local Akin numeral := by
  intro cs ds
  fun_cases numeral cs with
  | case1 n cs' hr =>
    intro h
    have hn : decimal (n.source ++ '%' :: ds) = ⟨n.value, n.source, '%' :: ds⟩ := by
      apply local_decimal
      rw [hr]
      exact h.append_toNumber (List.cons_ne_nil '%' [])
    simp only [List.append_assoc, List.singleton_append]
    rw [numeral]
    simp only [hn]
  | case2 n hname hne =>
    intro h
    have hrest : Akin n.rest ((name n.rest).source ++ ds) := Akin.of_splits (name_splits _) h
    have hn : decimal (n.source ++ ((name n.rest).source ++ ds)) =
      ⟨n.value, n.source, (name n.rest).source ++ ds⟩ := by
      apply local_decimal
      have hunit : Akin (name n.rest).rest ds := h
      have hnumber := hunit.append_toNumber (source_name_ne_nil hname)
      rwa [name_splits n.rest] at hnumber
    simp only [Scan.andThen, Scan.behind, Scan.map, List.append_assoc]
    rw [numeral_of_ne, hn, if_pos]
    · simp only [Scan.andThen, Scan.behind, Scan.map, local_name h]
    · rw [hrest.name, hname]
    · rw [hn]
      intro hp
      obtain ⟨ds', hds⟩ := List.head?_eq_some_iff.1 hp
      rw [show (name n.rest).source ++ ds = '%' :: ds' from hds] at hrest
      obtain ⟨cs', hcs⟩ := Akin.cons_of_not_stop' (by decide) hrest
      exact hne cs' hcs
  | case3 n hname hne =>
    intro h
    have hlook : Akin n.rest ds := h
    have hn : decimal (n.source ++ ds) = ⟨n.value, n.source, ds⟩ :=
      local_decimal (hlook.toNumber (by simpa using hname))
    simp only [Scan.map]
    rw [numeral_of_ne, hn, if_neg]
    · rfl
    · rw [hlook.name]
      exact hname
    · rw [hn]
      intro hp
      obtain ⟨ds', rfl⟩ := List.head?_eq_some_iff.1 hp
      obtain ⟨cs', hcs⟩ := Akin.cons_of_not_stop' (by decide) hlook
      exact hne cs' hcs

/-! ## Addresses -/

theorem badAddress_of_ne {c : Char} {cs : List Char} (hc : c ≠ ')')
    (h : c = '\\' → ∀ d ds, cs = d :: ds → d ≠ ')' ∧ d ≠ '\\') :
    badAddress (c :: cs) = (badAddress cs).behind [c] := by
  rw [badAddress]
  · exact hc
  · rintro cs' rfl rfl
    exact (h rfl _ _ rfl).1 rfl
  · rintro cs' rfl rfl
    exact (h rfl _ _ rfl).2 rfl

theorem local_badAddress : Local Akin badAddress := by
  intro cs ds h
  fun_induction badAddress cs with
  | case1 => exact absurd rfl h.ne
  | case2 cs => rfl
  | case3 cs ih =>
    simp only [Scan.behind, List.cons_append, List.nil_append]
    rw [badAddress, ih h]
    rfl
  | case4 cs ih =>
    simp only [Scan.behind, List.cons_append, List.nil_append]
    rw [badAddress, ih h]
    rfl
  | case5 c cs hclose hclose' hback ih =>
    have hlook : Akin cs ((badAddress cs).source ++ ds) := Akin.of_splits (badAddress_splits cs) h
    simp only [Scan.behind, List.cons_append, List.nil_append]
    rw [badAddress_of_ne hclose, ih h]
    · rfl
    · rintro rfl d ds' hds
      rw [hds] at hlook
      constructor
      · rintro rfl
        obtain ⟨cs', rfl⟩ := Akin.cons_of_not_stop' (by decide) hlook
        exact hclose' cs' rfl rfl
      · rintro rfl
        obtain ⟨cs', rfl⟩ := Akin.cons_of_not_stop' (by decide) hlook
        exact hback cs' rfl rfl

theorem local_addressEnd : Local Akin addressEnd := by
  intro cs ds h
  fun_induction addressEnd cs with
  | case1 => exact absurd rfl h.ne
  | case2 c cs hc => rw [List.singleton_append, addressEnd, if_pos hc]
  | case3 c cs hc hspace ih =>
    simp only [Scan.behind, List.cons_append, List.nil_append]
    rw [addressEnd, if_neg hc, if_pos hspace, ih h]
    rfl
  | case4 c cs hc hspace =>
    simp only [Scan.behind, Scan.map, List.cons_append, List.nil_append]
    rw [addressEnd, if_neg hc, if_neg hspace, local_badAddress h]
    rfl

theorem addressBody_escape {cs : List Char} (h : ¬ atLineEnd cs = true) :
    addressBody ('\\' :: cs) =
      ((addressBody (escape cs).rest).map (·.map ((escape cs).value :: ·))).behind
        ('\\' :: (escape cs).source) := by
  rw [addressBody, if_neg (by decide), if_neg (by decide), if_neg (by decide),
    if_pos (by decide), if_neg h]

theorem local_addressBody : Local Akin addressBody := by
  intro cs ds h
  fun_induction addressBody cs with
  | case1 => exact absurd rfl h.ne
  | case2 c cs hc => rw [List.singleton_append, addressBody, if_pos hc]
  | case3 c cs hc hspace =>
    simp only [Scan.behind, List.cons_append, List.nil_append]
    rw [addressBody, if_neg hc, if_pos hspace, local_addressEnd h]
    rfl
  | case4 c cs hc hspace hbad =>
    simp only [Scan.behind, Scan.map, List.cons_append, List.nil_append]
    rw [addressBody, if_neg hc, if_neg hspace, if_pos hbad, local_badAddress h]
    rfl
  | case5 c cs hc hspace hbad hback hend =>
    have hend' : atLineEnd ((badAddress cs).source ++ ds) = true := by
      rw [atLineEnd, (Akin.of_splits (badAddress_splits cs) h).any_head fun _ => isLineEnd_stop]
      exact hend
    simp only [Scan.behind, Scan.map, List.cons_append, List.nil_append]
    rw [addressBody, if_neg hc, if_neg hspace, if_neg hbad, if_pos hback, if_pos hend',
      local_badAddress h]
    rfl
  | case6 c cs hc hspace hbad hback hend e _ ih =>
    rw [beq_iff_eq] at hback
    subst hback
    have hrest : Akin e.rest ((addressBody e.rest).source ++ ds) :=
      Akin.of_splits (addressBody_splits _) h
    have he : escape (e.source ++ ((addressBody e.rest).source ++ ds)) =
      ⟨e.value, e.source, (addressBody e.rest).source ++ ds⟩ := local_escape hrest
    have hend' : ¬ atLineEnd (e.source ++ ((addressBody e.rest).source ++ ds)) = true := by
      rw [atLineEnd, (Akin.of_splits (escape_splits cs) hrest).any_head fun _ => isLineEnd_stop]
      exact hend
    simp only [Scan.behind, Scan.map, List.cons_append, List.append_assoc]
    rw [addressBody_escape hend', he, ih h]
    simp only [Scan.behind, Scan.map, List.cons_append]
  | case7 c cs hc hspace hbad hback ih =>
    simp only [Scan.behind, Scan.map, List.cons_append, List.nil_append]
    rw [addressBody, if_neg hc, if_neg hspace, if_neg hbad, if_neg hback, ih h]
    rfl

/-- What follows `url(` stays an address, or none. -/
theorem address_append {cs ds : List Char} {s : Scan Token} (hs : address cs = some s)
    (h : Akin s.rest ds) : address (s.source ++ ds) = some ⟨s.value, s.source, ds⟩ := by
  unfold address at hs
  simp only at hs
  split at hs
  · cases hs
  · rename_i hquote
    cases hs
    have hbody : Akin (run isSpace cs).rest ((addressBody (run isSpace cs).rest).source ++ ds) :=
      Akin.of_splits (addressBody_splits _) h
    have hgap : run isSpace ((run isSpace cs).source ++
        ((addressBody (run isSpace cs).rest).source ++ ds)) =
          ⟨(run isSpace cs).value, (run isSpace cs).source,
            (addressBody (run isSpace cs).rest).source ++ ds⟩ :=
      local_run (fun _ => isSpace_stop) hbody
    simp only [Scan.andThen, Scan.behind, Scan.map, List.append_assoc]
    rw [address]
    simp only [hgap]
    rw [if_neg]
    · simp only [Scan.andThen, Scan.behind, Scan.map, local_addressBody h]
    · rw [hbody.any_head fun _ hc => by apply eq_false_of_isStop hc <;> rfl]
      exact hquote

/-- A quote stands at the head of the text, or behind the blanks there. -/
def startsQuote (cs : List Char) : Bool :=
  (cs.dropWhile isSpace).head?.any fun c => c == '"' || c == '\''

theorem address_eq_none_iff {cs : List Char} : address cs = none ↔ startsQuote cs = true := by
  change (if startsQuote cs = true then none else some _) = none ↔ startsQuote cs = true
  by_cases hquote : startsQuote cs = true
  · rw [if_pos hquote]
    exact iff_of_true rfl hquote
  · rw [if_neg hquote]
    exact iff_of_false (Option.some_ne_none _) hquote

end CssPruning.Token
