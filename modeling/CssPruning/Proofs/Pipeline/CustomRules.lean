import CssPruning.Proofs.Font.Accounts
import CssPruning.Proofs.Media.Accounts
import CssPruning.Proofs.Sheet.RoundTrip
import CssPruning.Proofs.Sheet.VendorMarks

/-!
# The author's own at-rules

A pass tells the at-rules that it is about by a base name, and goes by all others: it keeps
them and counts nothing (`PassesBy`).  So it comes to the same whether it asks about these
or not (`Sheet.Overlooks`).

At-rules of the author's own are gone by in this way, but for those whose name is the base
name behind two hyphens (`ToldByName`): from such a name the hyphens are taken like a
vendor's mark, although no vendor stands between them.
-/

set_option autoImplicit false

namespace CssPruning

/-! ## What a judge goes by -/

/-- Asked about the at-rule, the judge keeps it, and is left as it was. -/
def PassesBy {σ : Type} (judge : AtRule → σ → Bool × σ) (r : AtRule) : Prop :=
  ∀ s, judge r s = (true, s)

section

variable {σ : Type} {judge : AtRule → σ → Bool × σ} {unseen : AtRule → Bool}

/-- A judge gives the same answers about the rest if it is not asked about what it goes by. -/
theorem Answers.filter (h : ∀ r, unseen r = true → PassesBy judge r) {s t : σ}
    {vs : List Verdict} (hanswers : Answers judge s vs t) :
    Answers judge s (vs.filter fun v => !unseen v.rule) t ∧
      ∀ v ∈ vs, unseen v.rule = true → v.kept = true := by
  induction vs generalizing s with
  | nil => exact ⟨hanswers, List.forall_mem_nil _⟩
  | cons v vs ih =>
    obtain ⟨hkept, hrest⟩ := hanswers
    obtain ⟨hothers, hall⟩ := ih hrest
    cases hunseen : unseen v.rule with
    | true =>
      -- this answer has left the state as it was
      rw [h v.rule hunseen s] at hkept hothers
      rw [List.filter_cons_of_neg (by simp [hunseen])]
      exact ⟨hothers, List.forall_mem_cons.2 ⟨fun _ => hkept.symm, hall⟩⟩
    | false =>
      rw [List.filter_cons_of_pos (by simp [hunseen])]
      refine ⟨⟨hkept, hothers⟩, List.forall_mem_cons.2 ⟨fun hseen => ?_, hall⟩⟩
      rw [hunseen] at hseen
      cases hseen

/-- A pass with a judge makes nothing of some at-rules: it keeps those that it asks about,
and the judge gets from the one state to the other by the answers about the rest. -/
structure Sheet.Overlooks (judge : AtRule → σ → Bool × σ) (unseen : AtRule → Bool)
    (before : Sheet) (s : σ) (js : List Judgement) (after : Sheet) (t : σ) : Prop where
  judged : before.Judged js after
  kept : ∀ j ∈ js, unseen j.rule = true → j.kept = true
  answers : Answers judge s ((js.map (·.toVerdict)).filter fun v => !unseen v.rule) t

/-- Every pass overlooks what its judge goes by. -/
theorem Sheet.exists_overlooks (h : ∀ r, unseen r = true → PassesBy judge r) (sheet : Sheet)
    (s : σ) : ∃ js, sheet.Overlooks judge unseen s js (sheet.retainWith judge s).1
      (sheet.retainWith judge s).2 := by
  obtain ⟨js, hjudged, hanswers⟩ := sheet.retainWith_judged judge s
  obtain ⟨hothers, hkept⟩ := hanswers.filter h
  exact ⟨js, hjudged, fun j hj => hkept j.toVerdict (List.mem_map_of_mem hj), hothers⟩

end

namespace Media

/-- What has been counted in the end. -/
def Outcome.tally (o : Outcome) : Tally := { o.report with events := o.events }

/-- A media rule is counted, with a prelude or without. -/
theorem Tally.passesBy_iff {targets : List Target} {r : AtRule} :
    PassesBy (judge targets) r ↔ r.isMedia = false := by
  constructor
  · intro h
    by_contra hmedia
    have hjudge := congrArg Prod.snd (h (.opening targets false))
    rw [judge, if_neg (by simpa using hmedia)] at hjudge
    split at hjudge
    · cases congrArg (·.skippedEmpty) hjudge
    · dsimp only at hjudge
      split at hjudge <;> cases congrArg (·.evaluated) hjudge
  · intro hmedia t
    rw [judge, if_pos (by simp [hmedia])]

end Media

namespace Font

/-- What has been counted in the end. -/
def FaceOutcome.tally (o : FaceOutcome) : Tally := { o.report with events := o.events }

/-- A face is counted, whatever becomes of it. -/
theorem Tally.passesBy_iff {used : NameSet} {vs : Variables} {r : AtRule} :
    PassesBy (judge used vs) r ↔ r.isFontFace = false := by
  constructor
  · intro h
    by_contra hface
    have hjudge := congrArg Prod.snd (h .opening)
    rw [judge, if_neg (by simpa using hface)] at hjudge
    dsimp only at hjudge
    split at hjudge
    · cases congrArg (·.total) hjudge
    · split at hjudge <;> cases congrArg (·.total) hjudge
  · intro hface t
    rw [judge, if_pos (by simp [hface])]

end Font

/-! ## Base names -/

/-- The at-rule is the author's own, and its name is not a base name behind two hyphens. -/
def AtRule.isCustomBut (base : String) (r : AtRule) : Bool :=
  r.isCustom && Text.lowerAscii r.name != "--" ++ base

/-- A test tells the at-rule by its base name, and so does a judge. -/
structure ToldByName {σ : Type} (base : String) (test : AtRule → Bool)
    (judge : AtRule → σ → Bool × σ) (r : AtRule) : Prop where
  /-- the base name stands by itself, behind a vendor's mark, or behind two hyphens -/
  iff : test r = true ↔ r.IsNamed base ∨ Text.lowerAscii r.name = "--" ++ base
  /-- but for the last of these the test is exact -/
  exact_iff : (test r = true ↔ r.IsNamed base) ↔ Text.lowerAscii r.name ≠ "--" ++ base
  /-- names of the author's own, the last of these among them, are of no other kind -/
  not_isNamed : r.isCustom = true → ¬ r.IsNamed base
  /-- so the judge goes by an at-rule of the author's own unless it is of that kind -/
  passesBy_iff : r.isCustom = true →
    (PassesBy judge r ↔ Text.lowerAscii r.name ≠ "--" ++ base)

section

variable {σ : Type} {base : String} {test : AtRule → Bool} {judge : AtRule → σ → Bool × σ}
  {r : AtRule}

theorem ToldByName.passesBy (h : ToldByName base test judge r)
    (hr : r.isCustomBut base = true) : PassesBy judge r := by
  rw [AtRule.isCustomBut, Bool.and_eq_true, bne_iff_ne] at hr
  exact (h.passesBy_iff hr.1).2 hr.2

/-- A test of the name without its mark, and a judge that goes by what fails the test. -/
theorem toldByName_of_basename (hbase : base.toList.head? ≠ some '-')
    (htest : test r = (r.basename == base)) (hjudge : PassesBy judge r ↔ test r = false) :
    ToldByName base test judge r := by
  have hiff : test r = true ↔ r.IsNamed base ∨ Text.lowerAscii r.name = "--" ++ base := by
    rw [htest, beq_iff_eq]
    exact AtRule.basename_eq_iff hbase
  have hnot : r.isCustom = true → ¬ r.IsNamed base :=
    fun hr => AtRule.not_isNamed_of_isCustom hr hbase
  constructor
  case iff => exact hiff
  case exact_iff =>
    rw [hiff]
    constructor
    · intro h hname
      exact hnot (AtRule.isCustom_of_lowerAscii_eq hname) (h.1 (.inr hname))
    · exact or_iff_left
  case not_isNamed => exact hnot
  case passesBy_iff =>
    intro hr
    rw [hjudge, ← Bool.not_eq_true, hiff, or_iff_right (hnot hr)]

end

theorem toldByName_media (targets : List Target) (r : AtRule) :
    ToldByName "media" AtRule.isMedia (Media.Tally.judge targets) r :=
  toldByName_of_basename (by decide) rfl Media.Tally.passesBy_iff

theorem toldByName_fontFace (used : Font.NameSet) (vs : Font.Variables) (r : AtRule) :
    ToldByName "font-face" AtRule.isFontFace (Font.Tally.judge used vs) r :=
  toldByName_of_basename (by decide) rfl Font.Tally.passesBy_iff

/-- An at-rule is told to be a media rule or a font face by its name without the mark of a
vendor, and this is exact unless it is `@--media` or `@--font-face`.  A pass over a sheet
makes nothing of the at-rules of the author's own but for these. -/
theorem vendorMarks_stripped (r : AtRule) (targets : List Target) (keepLarger : Bool)
    (used : Font.NameSet) (vs : Font.Variables) (sheet : Sheet) :
    ToldByName "media" AtRule.isMedia (Media.Tally.judge targets) r ∧
    ToldByName "font-face" AtRule.isFontFace (Font.Tally.judge used vs) r ∧
    (∃ js, sheet.Overlooks (Media.Tally.judge (Target.effective targets keepLarger))
      (AtRule.isCustomBut "media") (.opening (Target.effective targets keepLarger) keepLarger) js
      (Media.prune targets keepLarger sheet).sheet
      (Media.prune targets keepLarger sheet).tally) ∧
    ∃ js, sheet.Overlooks (Font.Tally.judge used vs) (AtRule.isCustomBut "font-face") .opening js
      (Font.pruneFaces used vs sheet).sheet (Font.pruneFaces used vs sheet).tally := by
  refine ⟨toldByName_media targets r, toldByName_fontFace used vs r, ?_, ?_⟩
  · rw [← Media.pruneCounting_eq]
    exact Sheet.exists_overlooks (fun r => (toldByName_media _ r).passesBy) sheet _
  · rw [← Font.pruneFacesCounting_eq]
    exact Sheet.exists_overlooks (fun r => (toldByName_fontFace used vs r).passesBy) sheet _

/-- An at-rule of the author's own for print. -/
def customMedia : AtRule := ⟨"--media", some "print", some []⟩

/-- It counts as a media rule, and a screen does not need it. -/
theorem customMedia_is_removed :
    Sheet.parse "@--media print\x7b\x7d" = .ok [customMedia.toNode] ∧
      customMedia.isCustom = true ∧ ¬ customMedia.IsNamed "media" ∧ customMedia.isMedia = true ∧
      (Media.prune [.screen 800 600] false [customMedia.toNode]).report.evaluated = 1 ∧
      (Media.prune [.screen 800 600] false [customMedia.toNode]).sheet = [] := by
  have htokens : tokenize "@--media print\x7b\x7d".toList =
      [⟨.atKeyword "--media", "@--media".toList, 0⟩, ⟨.blank, [' '], 8⟩,
        ⟨.ident "print", "print".toList, 9⟩, ⟨.opening .curly, ['\x7b'], 14⟩,
        ⟨.closing .curly, ['\x7d'], 15⟩] := by decide +kernel
  refine ⟨?_, by decide, AtRule.not_isNamed_of_isCustom (by decide) (by decide), ?_, ?_, ?_⟩
  · rw [Sheet.parse_eq_ok_iff, Sheet.read, TokenTree.forest, htokens]
    rfl
  · decide +kernel
  · decide +kernel
  · decide +kernel

end CssPruning
