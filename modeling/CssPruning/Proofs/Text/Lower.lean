import CssPruning.Proofs.Text.Trim
import CssPruning.Text.Ascii
import CssPruning.Text.Lowercase

/-!
# Small letters and blanks

Lower case neither makes nor takes away a blank: a character becomes one or two
others, and these are blank only if it was (`isBlank_lowerChar`).  So a text has
blanks at its ends in lower case if and only if it has them as it stands
(`flush_lower_iff`), and nothing is left of a text only if there was nothing
(`lower_eq_empty_iff`).

A letter of the alphabet counts for the lower case of its neighbours, a sigma among
them, as it does in its other case.  So a text has the lower case that it has with
the alphabet made small (`lower_lowerAscii`).
-/

set_option autoImplicit false

namespace CssPruning.Text

/-! ## Single characters -/

/-- The codes of the blanks. -/
def blankCodes : List Nat :=
  List.range' 0x09 5 ++ [0x20, 0x85, 0xA0, 0x1680] ++ List.range' 0x2000 11 ++
    [0x2028, 0x2029, 0x202F, 0x205F, 0x3000]

theorem isBlank_iff_mem_blankCodes {c : Char} : isBlank c = true ↔ c.toNat ∈ blankCodes := by
  simp only [isBlank, blankCodes, Bool.or_eq_true, Bool.and_eq_true, decide_eq_true_eq,
    beq_iff_eq, List.mem_append, List.mem_range'_1, List.mem_cons, List.not_mem_nil, or_false]
  omega

/-- No blank is a capital letter. -/
theorem find?_lowerRuns_of_mem_blankCodes :
    ∀ n ∈ blankCodes, lowerRuns.find? (·.holds n) = none := by
  decide +kernel

/-- No blank is the small letter of a capital letter. -/
theorem holds_of_mem_blankCodes :
    ∀ r ∈ lowerRuns, ∀ n ∈ blankCodes, r.holds ((n : Int) - r.shift).toNat = false := by
  decide +kernel

theorem toNat_toLower {c : Char} (h : c.val ≥ 'A'.val ∧ c.val ≤ 'Z'.val) :
    c.toLower.toNat = c.toNat + 32 := by
  have hle : c.toNat ≤ 90 := h.2
  have hsum : c.toLower.toNat = (c.val + 32).toNat := by
    unfold Char.toLower
    rw [dif_pos h]
    rfl
  rw [hsum, UInt32.toNat_add]
  change (c.toNat + 32) % 2 ^ 32 = c.toNat + 32
  omega

theorem toLower_of_not {c : Char} (h : ¬ (c.val ≥ 'A'.val ∧ c.val ≤ 'Z'.val)) : c.toLower = c := by
  unfold Char.toLower
  rw [dif_neg h]

/-- A small letter has no smaller one. -/
theorem toLower_toLower (c : Char) : c.toLower.toLower = c.toLower := by
  by_cases h : c.val ≥ 'A'.val ∧ c.val ≤ 'Z'.val
  · have hge : 65 ≤ c.toNat := h.1
    refine toLower_of_not fun hlower => ?_
    have hle : c.toLower.toNat ≤ 90 := hlower.2
    rw [toNat_toLower h] at hle
    omega
  · rw [toLower_of_not h, toLower_of_not h]

theorem isAlpha_iff {c : Char} : c.isAlpha = true ↔
    (65 ≤ c.toNat ∧ c.toNat ≤ 90) ∨ (97 ≤ c.toNat ∧ c.toNat ≤ 122) := by
  unfold Char.isAlpha Char.isUpper Char.isLower
  rw [Bool.or_eq_true, decide_eq_true_iff, Bool.and_eq_true, decide_eq_true_iff, decide_eq_true_iff]
  exact Iff.rfl

theorem isAlpha_toLower (c : Char) : c.toLower.isAlpha = c.isAlpha := by
  by_cases h : c.val ≥ 'A'.val ∧ c.val ≤ 'Z'.val
  · have hge : 65 ≤ c.toNat := h.1
    have hle : c.toNat ≤ 90 := h.2
    rw [Bool.eq_iff_iff, isAlpha_iff, isAlpha_iff, toNat_toLower h]
    omega
  · rw [toLower_of_not h]

theorem isDigit_iff {c : Char} : c.isDigit = true ↔ 48 ≤ c.toNat ∧ c.toNat ≤ 57 := by
  unfold Char.isDigit
  rw [Bool.and_eq_true, decide_eq_true_iff, decide_eq_true_iff]
  exact Iff.rfl

theorem isDigit_toLower (c : Char) : c.toLower.isDigit = c.isDigit := by
  by_cases h : c.val ≥ 'A'.val ∧ c.val ≤ 'Z'.val
  · have hge : 65 ≤ c.toNat := h.1
    rw [Bool.eq_iff_iff, isDigit_iff, isDigit_iff, toNat_toLower h]
    omega
  · rw [toLower_of_not h]

/-- Digits have no letter case. -/
theorem toLower_of_isDigit {c : Char} (h : c.isDigit = true) : c.toLower = c := by
  refine toLower_of_not fun hcapital => ?_
  have hge : 65 ≤ c.toNat := hcapital.1
  have := isDigit_iff.1 h
  omega

theorem isBlank_toLower (c : Char) : isBlank c.toLower = isBlank c := by
  by_cases h : c.val ≥ 'A'.val ∧ c.val ≤ 'Z'.val
  · have hge : 65 ≤ c.toNat := h.1
    have hle : c.toNat ≤ 90 := h.2
    rw [Bool.eq_iff_iff, isBlank_iff_mem_blankCodes, isBlank_iff_mem_blankCodes, toNat_toLower h]
    simp only [blankCodes, List.mem_append, List.mem_range'_1, List.mem_cons, List.not_mem_nil,
      or_false]
    omega
  · rw [toLower_of_not h]

theorem toNat_ofNat_eq_or (n : Nat) : (Char.ofNat n).toNat = n ∨ (Char.ofNat n).toNat = 0 := by
  unfold Char.ofNat
  by_cases h : n.isValidChar
  · rw [dif_pos h]
    exact .inl rfl
  · rw [dif_neg h]
    exact .inr rfl

theorem isBlank_lowerChar (c : Char) : isBlank (lowerChar c) = isBlank c := by
  unfold lowerChar
  split
  · exact isBlank_toLower c
  · split
    · rename_i r hr
      have hholds := List.find?_some hr
      have hmem := List.mem_of_find?_eq_some hr
      have hblank : isBlank c = false := by
        rw [Bool.eq_false_iff, Ne, isBlank_iff_mem_blankCodes]
        intro hc
        rw [find?_lowerRuns_of_mem_blankCodes _ hc] at hr
        cases hr
      rw [hblank, Bool.eq_false_iff, Ne, isBlank_iff_mem_blankCodes]
      intro hcode
      have hpos : 0 ∉ blankCodes := by decide
      rcases toNat_ofNat_eq_or ((c.toNat : Int) + r.shift).toNat with h | h
      · rw [h] at hcode
        have hback : (((((c.toNat : Int) + r.shift).toNat : Nat) : Int) - r.shift).toNat =
            c.toNat := by
          have : ((c.toNat : Int) + r.shift).toNat ≠ 0 := fun h0 => hpos (h0 ▸ hcode)
          omega
        have hno := holds_of_mem_blankCodes r hmem _ hcode
        rw [hback, hholds] at hno
        cases hno
      · exact hpos (h ▸ hcode)
    · rfl

/-! ## Whole texts -/

theorem lowerAt_ne_nil (before : List Char) (c : Char) (after : List Char) :
    lowerAt before c after ≠ [] := by
  unfold lowerAt
  split
  · simp
  · split <;> simp

/-- What a character becomes is blank all through or not at all. -/
theorem isBlank_of_mem_lowerAt {before : List Char} {c d : Char} {after : List Char}
    (h : d ∈ lowerAt before c after) : isBlank d = isBlank c := by
  unfold lowerAt at h
  split at h
  · rename_i hc
    obtain rfl := eq_of_beq hc
    rw [List.mem_singleton] at h
    rw [h]
    split <;> rfl
  · split at h
    · rename_i hc
      obtain rfl := eq_of_beq hc
      simp only [List.mem_cons, List.not_mem_nil, or_false] at h
      rcases h with rfl | rfl <;> rfl
    · rw [List.mem_singleton] at h
      rw [h, isBlank_lowerChar]

theorem lowerFrom_eq_nil_iff {before cs : List Char} : lowerFrom before cs = [] ↔ cs = [] := by
  cases cs with
  | nil => exact iff_of_true rfl rfl
  | cons c cs =>
    refine iff_of_false ?_ (List.cons_ne_nil _ _)
    rw [lowerFrom, List.append_eq_nil_iff]
    exact fun h => lowerAt_ne_nil _ _ _ h.1

theorem any_head?_lowerFrom (before cs : List Char) :
    (lowerFrom before cs).head?.any isBlank = cs.head?.any isBlank := by
  cases cs with
  | nil => rfl
  | cons c cs =>
    rw [lowerFrom, List.head?_append_of_ne_nil _ (lowerAt_ne_nil _ _ _)]
    cases hhead : (lowerAt before c cs).head? with
    | none => exact absurd (List.head?_eq_none_iff.1 hhead) (lowerAt_ne_nil _ _ _)
    | some d => exact isBlank_of_mem_lowerAt (List.mem_of_mem_head? hhead)

theorem any_getLast?_lowerFrom (before cs : List Char) :
    (lowerFrom before cs).getLast?.any isBlank = cs.getLast?.any isBlank := by
  induction cs generalizing before with
  | nil => rfl
  | cons c cs ih =>
    rw [lowerFrom]
    cases cs with
    | nil =>
      rw [lowerFrom, List.append_nil]
      cases hlast : (lowerAt before c []).getLast? with
      | none => exact absurd (List.getLast?_eq_none_iff.1 hlast) (lowerAt_ne_nil _ _ _)
      | some d => exact isBlank_of_mem_lowerAt (List.mem_of_mem_getLast? hlast)
    | cons d cs =>
      rw [List.getLast?_append_of_ne_nil _ (by rw [Ne, lowerFrom_eq_nil_iff]; exact List.cons_ne_nil _ _),
        ih, List.getLast?_cons_cons]

/-- The ends of a text are blank in lower case if they are blank as they stand. -/
theorem flush_lower_iff {s : String} : Flush (lower s).toList ↔ Flush s.toList := by
  rw [lower, String.toList_ofList, Flush, Flush, any_head?_lowerFrom, any_getLast?_lowerFrom]

theorem lower_eq_empty_iff {s : String} : lower s = "" ↔ s = "" := by
  rw [← String.toList_eq_nil_iff, ← String.toList_eq_nil_iff, lower, String.toList_ofList,
    lowerFrom_eq_nil_iff]

/-! ## Large letters of the alphabet -/

/-- A letter of the alphabet is cased. -/
theorem isCased_of_isAlpha {c : Char} (h : c.isAlpha = true) : isCased c = true := by
  rw [isCased, inRanges, List.any_eq_true]
  rcases isAlpha_iff.1 h with ⟨hge, hle⟩ | ⟨hge, hle⟩
  · exact ⟨(65, 90), List.mem_cons_self, by simp [hge, hle]⟩
  · exact ⟨(97, 122), List.mem_cons_of_mem _ List.mem_cons_self, by simp [hge, hle]⟩

/-- No letter of the alphabet is in a range of what case rules look past. -/
theorem alphabet_not_mem_caseIgnorableRanges : ∀ r ∈ caseIgnorableRanges,
    r.2 < 65 ∨ 90 < r.1 ∧ r.2 < 97 ∨ 122 < r.1 := by
  decide +kernel

theorem isCaseIgnorable_of_isAlpha {c : Char} (h : c.isAlpha = true) :
    isCaseIgnorable c = false := by
  rw [isCaseIgnorable, inRanges, List.any_eq_false]
  intro r hr
  have hrange := alphabet_not_mem_caseIgnorableRanges r hr
  have hletter := isAlpha_iff.1 h
  simp only [Bool.and_eq_true, decide_eq_true_eq]
  omega

theorem casing_toLower (c : Char) :
    isCased c.toLower = isCased c ∧ isCaseIgnorable c.toLower = isCaseIgnorable c := by
  by_cases h : c.val ≥ 'A'.val ∧ c.val ≤ 'Z'.val
  · have hc : c.isAlpha = true := isAlpha_iff.2 (.inl h)
    have hlower : c.toLower.isAlpha = true := (isAlpha_toLower c).trans hc
    exact ⟨(isCased_of_isAlpha hlower).trans (isCased_of_isAlpha hc).symm,
      (isCaseIgnorable_of_isAlpha hlower).trans (isCaseIgnorable_of_isAlpha hc).symm⟩
  · rw [toLower_of_not h]
    exact ⟨rfl, rfl⟩

theorem lowerChar_toLower (c : Char) : lowerChar c.toLower = lowerChar c := by
  by_cases h : c.val ≥ 'A'.val ∧ c.val ≤ 'Z'.val
  · have hle : c.toNat ≤ 90 := h.2
    have hlower := toNat_toLower h
    rw [lowerChar, if_pos (by omega), lowerChar, if_pos (by omega), toLower_toLower]
  · rw [toLower_of_not h]

theorem casedAhead_map_toLower (cs : List Char) :
    casedAhead (cs.map Char.toLower) = casedAhead cs := by
  induction cs with
  | nil => rfl
  | cons c cs ih =>
    rw [casedAhead] at ih ⊢
    rw [List.map_cons, List.dropWhile_cons, (casing_toLower c).2, casedAhead, List.dropWhile_cons]
    split
    · exact ih
    · exact (casing_toLower c).1

/-- A letter is told from a character that is none, in either case. -/
theorem toLower_beq {d : Char} (hd : d.isAlpha = false) (c : Char) :
    (c.toLower == d) = (c == d) := by
  by_cases h : c.val ≥ 'A'.val ∧ c.val ≤ 'Z'.val
  · have hc : c.isAlpha = true := isAlpha_iff.2 (.inl h)
    have hne {e : Char} (he : e.isAlpha = true) : (e == d) = false := by
      rw [beq_eq_false_iff_ne]
      rintro rfl
      rw [hd] at he
      cases he
    rw [hne hc, hne ((isAlpha_toLower c).trans hc)]
  · rw [toLower_of_not h]

theorem lowerAt_map_toLower (before : List Char) (c : Char) (after : List Char) :
    lowerAt (before.map Char.toLower) c.toLower (after.map Char.toLower) =
      lowerAt before c after := by
  rw [lowerAt, lowerAt, toLower_beq rfl, toLower_beq rfl, casedAhead_map_toLower,
    casedAhead_map_toLower, lowerChar_toLower]

theorem lowerFrom_map_toLower (before cs : List Char) :
    lowerFrom (before.map Char.toLower) (cs.map Char.toLower) = lowerFrom before cs := by
  induction cs generalizing before with
  | nil => rfl
  | cons c cs ih =>
    rw [List.map_cons, lowerFrom, lowerAt_map_toLower, ← List.map_cons, ih, lowerFrom]

/-- Texts that differ in the case of the alphabet only have the same lower case. -/
theorem lower_lowerAscii (s : String) : lower (lowerAscii s) = lower s := by
  rw [lower, lower, toList_lowerAscii]
  exact congrArg String.ofList (lowerFrom_map_toLower [] s.toList)

/-! ## Parts of a text in small letters -/

theorem map_toLower_of_sameAscii {s t : String} (h : sameAscii s t = true) :
    s.toList.map Char.toLower = t.toList.map Char.toLower := by
  rw [← toList_lowerAscii, ← toList_lowerAscii, beq_iff_eq.1 h]

theorem lowerAscii_ofList (cs : List Char) :
    lowerAscii (String.ofList cs) = String.ofList (cs.map Char.toLower) := by
  rw [← String.toList_inj, toList_lowerAscii, String.toList_ofList, String.toList_ofList]

theorem map_toLower_intercalate (words : List (List Char)) :
    (" ".toList.intercalate words).map Char.toLower =
      " ".toList.intercalate (words.map fun word => word.map Char.toLower) := by
  induction words with
  | nil => rfl
  | cons word words ih =>
    cases words with
    | nil => rw [List.intercalate_singleton, List.map_singleton, List.intercalate_singleton]
    | cons next words =>
      have hwords : (word :: next :: words).map (fun word => word.map Char.toLower) =
          word.map Char.toLower :: next.map Char.toLower ::
            words.map fun word => word.map Char.toLower := rfl
      rw [List.intercalate_cons_cons, List.map_append, List.map_append, ih, hwords,
        List.intercalate_cons_cons]
      rfl

theorem lowerAscii_intercalate (words : List String) :
    lowerAscii (" ".intercalate words) = " ".intercalate (words.map lowerAscii) := by
  rw [← String.toList_inj, toList_lowerAscii, String.toList_intercalate,
    map_toLower_intercalate, String.toList_intercalate, List.map_map, List.map_map]
  refine congrArg (" ".toList.intercalate ·) (List.map_congr_left fun word _ => ?_)
  exact (toList_lowerAscii word).symm

theorem map_toLower_map_toLower (cs : List Char) :
    (cs.map Char.toLower).map Char.toLower = cs.map Char.toLower := by
  rw [List.map_map]
  exact List.map_congr_left fun c _ => toLower_toLower c

theorem lowerAscii_lowerAscii (s : String) : lowerAscii (lowerAscii s) = lowerAscii s := by
  rw [← String.toList_inj, toList_lowerAscii, toList_lowerAscii, map_toLower_map_toLower]

section

variable {p : Char → Bool} (h : ∀ c : Char, p c.toLower = p c)

include h in
/-- A test that letter case does not matter to splits both texts at the same place. -/
theorem takeWhile_map_toLower (cs : List Char) :
    (cs.map Char.toLower).takeWhile p = (cs.takeWhile p).map Char.toLower := by
  rw [List.takeWhile_map, show p ∘ Char.toLower = p from funext h]

include h in
theorem dropWhile_map_toLower (cs : List Char) :
    (cs.map Char.toLower).dropWhile p = (cs.dropWhile p).map Char.toLower := by
  rw [List.dropWhile_map, show p ∘ Char.toLower = p from funext h]

include h in
theorem any_head?_map_toLower (cs : List Char) : (cs.map Char.toLower).head?.any p = cs.head?.any p := by
  cases cs with
  | nil => rfl
  | cons c cs => exact h c

end

theorem trimStart_map_toLower (cs : List Char) :
    trimStart (cs.map Char.toLower) = (trimStart cs).map Char.toLower :=
  dropWhile_map_toLower isBlank_toLower cs

theorem trim_map_toLower (cs : List Char) :
    trim (cs.map Char.toLower) = (trim cs).map Char.toLower := by
  rw [trim, trimStart_map_toLower, trimEnd, ← List.map_reverse,
    dropWhile_map_toLower isBlank_toLower, ← List.map_reverse]
  rfl

theorem words_map_toLower (cs : List Char) :
    words (cs.map Char.toLower) = (words cs).map (List.map Char.toLower) := by
  induction cs with
  | nil => rfl
  | cons c cs ih =>
    have hhead : (cs.map Char.toLower).head?.all isBlank = cs.head?.all isBlank := by
      cases cs with
      | nil => rfl
      | cons d cs => exact isBlank_toLower d
    rw [List.map_cons, words, words, isBlank_toLower, ih, hhead]
    split
    · rfl
    · split
      · rfl
      · cases words cs <;> rfl

section

variable {c : Char} (hc : c.isAlpha = false)

include hc in
theorem takeWhile_bne_map_toLower (cs : List Char) :
    (cs.map Char.toLower).takeWhile (· != c) = (cs.takeWhile (· != c)).map Char.toLower :=
  takeWhile_map_toLower (fun d => congrArg not (toLower_beq hc d)) cs

include hc in
theorem dropWhile_bne_map_toLower (cs : List Char) :
    (cs.map Char.toLower).dropWhile (· != c) = (cs.dropWhile (· != c)).map Char.toLower :=
  dropWhile_map_toLower (fun d => congrArg not (toLower_beq hc d)) cs

include hc in
theorem contains_map_toLower (cs : List Char) :
    (cs.map Char.toLower).contains c = cs.contains c := by
  induction cs with
  | nil => rfl
  | cons d cs ih =>
    rw [List.map_cons, List.contains_cons, List.contains_cons, ih, BEq.comm, toLower_beq hc, BEq.comm]

end

end CssPruning.Text
