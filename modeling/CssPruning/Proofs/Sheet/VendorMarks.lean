import CssPruning.Proofs.Text.FirstPlace
import CssPruning.Proofs.Text.Lower
import CssPruning.Sheet.Basic

/-!
# Vendors' marks on the names of at-rules

A vendor marks the name of an at-rule with a hyphen, a name of its own and another
hyphen (`Vendor.mark`).  Before the name of an at-rule is compared with a base name it
loses its mark: a hyphen in front, and all up to the next one.  Two hyphens in front go as
well, for nothing has to stand between the two, and then there is no vendor.  So an at-rule
counts as one with the base name if its name is the base name, by itself or behind a mark
(`AtRule.IsNamed`), or the base name behind two hyphens (`AtRule.basename_eq_iff`).

Names that begin with two hyphens are the author's own; none of them has a mark
(`AtRule.not_isNamed_of_isCustom`).
-/

set_option autoImplicit false

namespace CssPruning

/-! ## Marks -/

/-- A vendor, by what it puts between the hyphens of its mark. -/
structure Vendor where
  name : String
  ne_empty : name ≠ ""
  hyphen_not_mem : '-' ∉ name.toList

namespace Vendor

/-- What the vendor puts in front of a name. -/
def mark (v : Vendor) : String := "-" ++ v.name ++ "-"

theorem toList_mark_append (v : Vendor) (base : String) :
    (v.mark ++ base).toList = '-' :: (v.name.toList ++ '-' :: base.toList) := by
  simp [mark]

end Vendor

namespace AtRule

/-- In small letters the name of the at-rule is a given one, by itself or behind the mark
of a vendor. -/
def IsNamed (r : AtRule) (base : String) : Prop :=
  Text.lowerAscii r.name = base ∨ ∃ v : Vendor, Text.lowerAscii r.name = v.mark ++ base

/-- The at-rule is of the author's own making. -/
def isCustom (r : AtRule) : Bool := ['-', '-'].isPrefixOf r.name.toList

variable {r : AtRule} {base : String}

/-! ## Names without their marks -/

/-- What stands between the first two hyphens does not matter. -/
theorem basename_of_toList_eq {vendor rest : List Char} (h : '-' ∉ vendor)
    (hname : (Text.lowerAscii r.name).toList = '-' :: (vendor ++ '-' :: rest)) :
    r.basename = String.ofList rest := by
  unfold basename
  simp only [hname, Text.dropWhile_bne_append h]

/-- A name has a hyphen in front and another one, or it stays as it is. -/
theorem basename_cases (r : AtRule) :
    (∃ vendor rest, '-' ∉ vendor ∧
      (Text.lowerAscii r.name).toList = '-' :: (vendor ++ '-' :: rest)) ∨
    r.basename = Text.lowerAscii r.name := by
  unfold basename
  dsimp only
  split
  · rename_i cs hname
    split
    · rename_i c rest hrest
      obtain ⟨vendor, hvendor, rfl⟩ := Text.exists_of_dropWhile_bne hrest
      exact .inl ⟨vendor, rest, hvendor, hname⟩
    · exact .inr rfl
  · exact .inr rfl

/-- A name without a hyphen in front is what is left of itself, of itself behind a mark, and
of itself behind two hyphens. -/
theorem basename_eq_iff (hbase : base.toList.head? ≠ some '-') :
    r.basename = base ↔ r.IsNamed base ∨ Text.lowerAscii r.name = "--" ++ base := by
  constructor
  · intro h
    rcases r.basename_cases with ⟨vendor, rest, hvendor, hname⟩ | hsame
    · obtain rfl := (basename_of_toList_eq hvendor hname).symm.trans h
      cases vendor with
      | nil =>
        refine .inr (String.toList_injective ?_)
        simpa using hname
      | cons c vendor =>
        refine .inl (.inr ⟨⟨String.ofList (c :: vendor), by simp, by simpa using hvendor⟩, ?_⟩)
        refine String.toList_injective ?_
        rw [Vendor.toList_mark_append]
        simpa using hname
    · exact .inl (.inl (hsame ▸ h))
  · rintro ((hname | ⟨v, hname⟩) | hname)
    · rcases r.basename_cases with ⟨vendor, rest, -, hmarked⟩ | hsame
      · rw [hname] at hmarked
        rw [hmarked] at hbase
        exact absurd rfl hbase
      · rw [hsame, hname]
    · have hmarked := congrArg String.toList hname
      rw [Vendor.toList_mark_append] at hmarked
      rw [basename_of_toList_eq v.hyphen_not_mem hmarked, String.ofList_toList]
    · have hmarked : (Text.lowerAscii r.name).toList = '-' :: ([] ++ '-' :: base.toList) := by
        rw [hname]
        simp
      rw [basename_of_toList_eq List.not_mem_nil hmarked, String.ofList_toList]

/-! ## The author's own names -/

/-- Hyphens have no letter case. -/
theorem isCustom_iff :
    r.isCustom = true ↔ ∃ rest, (Text.lowerAscii r.name).toList = '-' :: '-' :: rest := by
  rw [isCustom, List.isPrefixOf_iff_prefix, Text.toList_lowerAscii]
  have hhyphen : ∀ c : Char, c.toLower = '-' → c = '-' := by
    intro c hc
    rw [← beq_iff_eq, ← Text.toLower_beq rfl, hc]
    rfl
  constructor
  · rintro ⟨rest, hname⟩
    rw [← hname]
    exact ⟨rest.map Char.toLower, rfl⟩
  · rintro ⟨rest, hname⟩
    obtain ⟨c, cs, hcs, hc, hrest⟩ := List.map_eq_cons_iff.1 hname
    obtain ⟨d, ds, rfl, hd, -⟩ := List.map_eq_cons_iff.1 hrest
    rw [hcs, hhyphen c hc, hhyphen d hd]
    exact ⟨ds, rfl⟩

/-- A base name behind two hyphens is a name of the author's own. -/
theorem isCustom_of_lowerAscii_eq (h : Text.lowerAscii r.name = "--" ++ base) :
    r.isCustom = true := by
  rw [isCustom_iff, h]
  exact ⟨base.toList, by simp⟩

/-- No vendor stands between two hyphens that follow each other. -/
theorem not_isNamed_of_isCustom (h : r.isCustom = true) (hbase : base.toList.head? ≠ some '-') :
    ¬ r.IsNamed base := by
  obtain ⟨rest, hcustom⟩ := isCustom_iff.1 h
  rintro (hname | ⟨v, hname⟩)
  · rw [hname] at hcustom
    rw [hcustom] at hbase
    exact hbase rfl
  · rw [hname, Vendor.toList_mark_append] at hcustom
    have hrest := (List.cons.inj hcustom).2
    cases hv : v.name.toList with
    | nil => exact v.ne_empty (String.toList_injective hv)
    | cons c vendor =>
      rw [hv] at hrest
      have hmem := v.hyphen_not_mem
      rw [hv, (List.cons.inj hrest).1] at hmem
      exact hmem List.mem_cons_self

end AtRule

end CssPruning
