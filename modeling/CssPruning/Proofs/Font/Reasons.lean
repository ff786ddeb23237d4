import CssPruning.Font.Inspection
import CssPruning.Proofs.Font.Accounts
import Mathlib.Data.List.Forall2

/-!
# Why a face is removed

What a face says is gathered declaration by declaration, and one more declaration adds to
what an inspection holds of those before it (`Inspection.Holds.look`).  The family on
record and the verdict on all families are gathered apart.  So a face that goes for want
of a source is reported under a family that is in use, or under none; but one that goes
as unused may be reported under a family that is in use:

    @font-face { font-family: Foo; font-family: Bar; src: url(a.woff) }

with `Foo` in use and `Bar` not.  `Mislabelled` says of which faces that is so, and
`dropped_reasons` that what is reported of the others is right.
-/

set_option autoImplicit false

namespace CssPruning.Font

variable {used : NameSet} {vs : Variables}

/-! ## Inspections -/

/-- The families that some declarations declare; `none` for a value that names none. -/
def declaredFamilies (vs : Variables) (ds : List Declaration) : List (Option String) :=
  (ds.filter (·.propertyName == "font-family")).map fun d => firstFamily vs d.value

theorem families_eq (vs : Variables) (face : AtRule) :
    families vs face = declaredFamilies vs face.declarations := by
  rw [families, familyValues, List.map_map]
  rfl

theorem declaredFamilies_concat (vs : Variables) (ds : List Declaration) (d : Declaration) :
    declaredFamilies vs (ds ++ [d]) = declaredFamilies vs ds ++
      if d.propertyName = "font-family" then [firstFamily vs d.value] else [] := by
  rw [declaredFamilies, List.filter_append, List.map_append]
  split
  · rename_i hd
    simp [hd, declaredFamilies]
  · rename_i hd
    simp [hd, declaredFamilies]

namespace Inspection

/-- What an inspection holds after some declarations. -/
structure Holds (used : NameSet) (vs : Variables) (ds : List Declaration) (i : Inspection) :
    Prop where
  family : i.family = ((declaredFamilies vs ds).filterMap id).head?
  allUsed : i.used = (declaredFamilies vs ds).all fun f => f.any used.contains
  hasSource : i.hasSource = ds.any (·.propertyName == "src")

theorem holds_opening : opening.Holds used vs [] := ⟨rfl, rfl, rfl⟩

theorem Holds.look {i : Inspection} {ds : List Declaration} (h : i.Holds used vs ds)
    (d : Declaration) : (i.look used vs d).Holds used vs (ds ++ [d]) := by
  have hfamilies := declaredFamilies_concat vs ds d
  unfold Inspection.look
  split
  case h_1 hd =>
    rw [if_pos hd] at hfamilies
    constructor
    case family =>
      rw [hfamilies, List.filterMap_append, List.head?_append, h.family]
      cases firstFamily vs d.value <;> rfl
    case allUsed => simp [hfamilies, h.allUsed]
    case hasSource => simp [h.hasSource, hd]
  case h_2 hd =>
    rw [if_neg (by rw [hd]; decide), List.append_nil] at hfamilies
    exact ⟨by rw [hfamilies, h.family], by rw [hfamilies, h.allUsed], by simp [hd]⟩
  case h_3 hfamily hsource =>
    rw [if_neg hfamily, List.append_nil] at hfamilies
    refine ⟨by rw [hfamilies, h.family], by rw [hfamilies, h.allUsed], ?_⟩
    have hd : (d.propertyName == "src") = false := beq_eq_false_iff_ne.2 hsource
    simp [h.hasSource, hd]

theorem Holds.foldl {i : Inspection} {ds : List Declaration} (h : i.Holds used vs ds)
    (es : List Declaration) : (es.foldl (Inspection.look used vs) i).Holds used vs (ds ++ es) := by
  induction es generalizing i ds with
  | nil => rwa [List.append_nil]
  | cons e es ih =>
    have hrest := ih (h.look e)
    rwa [List.append_assoc] at hrest

end Inspection

theorem holds_inspect (used : NameSet) (vs : Variables) (face : AtRule) :
    (inspect used vs face).Holds used vs face.declarations :=
  Inspection.holds_opening.foldl face.declarations

/-- Looking at a face comes to its entry in the report. -/
theorem dropped_inspect (used : NameSet) (vs : Variables) (face : AtRule) :
    (inspect used vs face).dropped = droppedFace used vs face := by
  have h := holds_inspect used vs face
  have hused : (inspect used vs face).used = isUsed used vs face := by
    rw [h.allUsed, ← families_eq]
    rfl
  have hfamily : (inspect used vs face).family = ((families vs face).filterMap id).head? := by
    rw [h.family, ← families_eq]
  rw [Inspection.dropped, hused, hfamily, h.hasSource, droppedFace, dropReason, hasSource]
  split
  · rfl
  · split <;> rfl

/-! ## Entries of the report -/

/-- The family cannot be made out, or is not in use. -/
def Unfit (used : NameSet) (f : Option String) : Prop := ∀ name ∈ f, name ∉ used

/-- The first family of the face that can be made out is in use, and another one that it
declares is unfit. -/
def Mislabelled (used : NameSet) (vs : Variables) (face : AtRule) : Prop :=
  ∃ before name after, families vs face = before ++ some name :: after ∧
    (∀ f ∈ before, f = none) ∧ name ∈ used ∧ (before ≠ [] ∨ ∃ f ∈ after, Unfit used f)

/-- What an entry of the report says of the face that it stands for. -/
structure DroppedFace.Tells (used : NameSet) (vs : Variables) (face : AtRule)
    (entry : DroppedFace) : Prop where
  isFontFace : face.isFontFace = true
  inspected : (inspect used vs face).dropped = some entry
  /-- some family of the face is unfit, and so is the one on record unless the face is
  mislabelled -/
  unused : entry.reason = .unused →
    (∃ f ∈ families vs face, Unfit used f) ∧
      (Unfit used entry.family ↔ ¬ Mislabelled used vs face)
  /-- the face has no source, and the family on record is in use, if there is one -/
  noSource : entry.reason = .noSource →
    (∀ d ∈ face.declarations, d.propertyName ≠ "src") ∧ ∀ name ∈ entry.family, name ∈ used

theorem unfit_iff {f : Option String} : Unfit used f ↔ f.any used.contains = false := by
  cases f <;> simp [Unfit]

theorem isUsed_eq_false_iff {face : AtRule} :
    isUsed used vs face = false ↔ ∃ f ∈ families vs face, Unfit used f := by
  simp only [isUsed, List.all_eq_false, Bool.not_eq_true, unfit_iff]

/-- The first of some families that can be made out. -/
theorem head?_filterMap_eq_some_iff {fs : List (Option String)} {name : String} :
    (fs.filterMap id).head? = some name ↔
      ∃ before after, fs = before ++ some name :: after ∧ ∀ f ∈ before, f = none := by
  induction fs with
  | nil => simp
  | cons f fs ih =>
    cases f with
    | none =>
      rw [List.filterMap_cons_none rfl, ih]
      constructor
      · rintro ⟨before, after, rfl, hbefore⟩
        exact ⟨none :: before, after, rfl, List.forall_mem_cons.2 ⟨rfl, hbefore⟩⟩
      · rintro ⟨before, after, heq, hbefore⟩
        cases before with
        | nil => cases heq
        | cons f before =>
          exact ⟨before, after, (List.cons.inj heq).2, (List.forall_mem_cons.1 hbefore).2⟩
    | some first =>
      rw [List.filterMap_cons, id, List.head?_cons, Option.some.injEq]
      constructor
      · rintro rfl
        exact ⟨[], fs, rfl, List.forall_mem_nil _⟩
      · rintro ⟨before, after, heq, hbefore⟩
        cases before with
        | nil => exact Option.some.inj (List.cons.inj heq).1
        | cons f before =>
          have hf := (List.forall_mem_cons.1 hbefore).1
          rw [← (List.cons.inj heq).1] at hf
          cases hf

/-- A face that declares an unfit family is mislabelled if the family on record is fit. -/
theorem mislabelled_iff {face : AtRule} (h : ∃ f ∈ families vs face, Unfit used f) :
    Mislabelled used vs face ↔ ¬ Unfit used ((families vs face).filterMap id).head? := by
  have hunfit : ¬ Unfit used ((families vs face).filterMap id).head? ↔
      ∃ name, ((families vs face).filterMap id).head? = some name ∧ name ∈ used := by
    simp [Unfit]
  rw [hunfit]
  constructor
  · rintro ⟨before, name, after, heq, hbefore, hname, -⟩
    exact ⟨name, head?_filterMap_eq_some_iff.2 ⟨before, after, heq, hbefore⟩, hname⟩
  · rintro ⟨name, hhead, hname⟩
    obtain ⟨before, after, heq, hbefore⟩ := head?_filterMap_eq_some_iff.1 hhead
    refine ⟨before, name, after, heq, hbefore, hname, ?_⟩
    -- the unfit one is not the one on record
    obtain ⟨f, hf, hunfit⟩ := h
    rw [heq, List.mem_append, List.mem_cons] at hf
    rcases hf with hf | rfl | hf
    · exact .inl (List.ne_nil_of_mem hf)
    · exact absurd hname (hunfit name rfl)
    · exact .inr ⟨f, hf, hunfit⟩

/-- One family alone cannot be mistaken for another. -/
theorem not_mislabelled_of_length_le {face : AtRule} (h : (families vs face).length ≤ 1) :
    ¬ Mislabelled used vs face := by
  rintro ⟨before, name, after, heq, -, -, hother⟩
  rw [heq, List.length_append, List.length_cons] at h
  rcases hother with hbefore | ⟨f, hf, -⟩
  · have := List.length_pos_iff.2 hbefore
    omega
  · have := List.length_pos_of_mem hf
    omega

/-- An entry tells why its face is removed. -/
theorem tells_of_droppedFace {face : AtRule} {entry : DroppedFace}
    (hface : face.isFontFace = true) (h : droppedFace used vs face = some entry) :
    entry.Tells used vs face := by
  obtain ⟨reason, hreason, rfl⟩ := Option.map_eq_some_iff.1 h
  refine ⟨hface, (dropped_inspect used vs face).trans h, ?_, ?_⟩
  · rintro rfl
    have hused : isUsed used vs face = false := by
      by_contra hne
      rw [dropReason, if_neg (by simpa using hne)] at hreason
      split at hreason <;> cases hreason
    have hunfit := isUsed_eq_false_iff.1 hused
    exact ⟨hunfit, by rw [mislabelled_iff hunfit, not_not]⟩
  · rintro rfl
    have hused : isUsed used vs face = true := by
      by_contra hne
      rw [dropReason, if_pos (by simpa using hne)] at hreason
      cases hreason
    have hsource : hasSource face = false := by
      by_contra hne
      rw [dropReason, hused, if_neg (by decide), if_neg (by simpa using hne)] at hreason
      cases hreason
    refine ⟨by simpa [hasSource] using hsource, fun name hname => ?_⟩
    obtain ⟨before, after, heq, -⟩ := head?_filterMap_eq_some_iff.1 hname
    rw [isUsed, heq, List.all_append, List.all_cons, Bool.and_eq_true, Bool.and_eq_true] at hused
    simpa using hused.2.1

/-! ## The report -/

/-- Each entry of the report stands for a face that is removed, in order, and tells why.
A face without a source goes under a family that is in use, if it goes under any; one
that is not used goes under a family that is not in use, unless it is mislabelled, for
which it has to declare two families. -/
theorem dropped_reasons (used : NameSet) (vs : Variables) (sheet : Sheet) :
    (∃ js, sheet.Judged js (pruneFaces used vs sheet).sheet ∧
      List.Forall₂ (fun entry j => entry.Tells used vs j.rule)
        (pruneFaces used vs sheet).report.dropped (js.filter fun j => !j.kept)) ∧
    ∀ face, (familyValues face).length ≤ 1 → ¬ Mislabelled used vs face := by
  constructor
  · obtain ⟨js, hjudged, -, hkept, hreport⟩ := exists_judgements used vs sheet
    have hdropped : (pruneFaces used vs sheet).report.dropped.map some =
        (js.filter fun j => !j.kept).map fun j => droppedFace used vs j.rule := by
      rw [hreport, map_some_dropped hkept, List.filter_map, List.map_map]
      rfl
    have hentries : List.Forall₂ (fun entry j => some entry = droppedFace used vs j.rule)
        (pruneFaces used vs sheet).report.dropped (js.filter fun j => !j.kept) := by
      rwa [← List.forall₂_map_right_iff (R := fun entry face => some entry = face),
        ← List.forall₂_map_left_iff (R := Eq), List.forall₂_eq_eq_eq]
    obtain ⟨hlength, hentries⟩ := List.forall₂_iff_zip.1 hentries
    refine ⟨js, hjudged, List.forall₂_iff_zip.2 ⟨hlength, fun {entry j} hzip => ?_⟩⟩
    -- what is rejected is a face
    obtain ⟨hj, hrejected⟩ := List.mem_filter.1 (List.of_mem_zip hzip).2
    have hface : j.rule.isFontFace = true := by
      by_contra hface
      have hsurvives : survives used vs j.rule = true := by
        rw [survives, Bool.eq_false_iff.2 hface]
        rfl
      have hj : j.kept = true := (hkept j.toVerdict (List.mem_map_of_mem hj)).trans hsurvives
      rw [hj] at hrejected
      cases hrejected
    exact tells_of_droppedFace hface (hentries hzip).symm
  · intro face h
    apply not_mislabelled_of_length_le
    rwa [families, List.length_map]

/-- Two families, of which the first is in use. -/
def fooAndBar : AtRule :=
  ⟨"font-face", none, some [.declaration ⟨"font-family", [.ident "Foo"], false⟩,
    .declaration ⟨"font-family", [.ident "Bar"], false⟩,
    .declaration ⟨"src", [.url "a.woff"], false⟩]⟩

/-- The face goes as unused under the name of a family that is in use. -/
theorem fooAndBar_is_mislabelled :
    ⟨some "foo", .unused⟩ ∈ (pruneFaces ["foo"] .empty [fooAndBar.toNode]).report.dropped ∧
      "foo" ∈ ["foo"] := by
  decide +kernel

end CssPruning.Font
