import CssPruning.Media.Pruning
import CssPruning.Proofs.Media.LetterCase
import CssPruning.Proofs.Sheet.Rewording

/-!
# The letter case and the blanks of media preludes

A media rule is judged by its canonical prelude, which is the words of the prelude with
single spaces between them (`judgedQuery_eq`).  So of the prelude as it stands only the
words count, and of these, since the canonical prelude is read without regard to letter
case, only the small letters: media rules whose preludes have the same `smallWords`
share their fate (`survives_congr`).

A sheet and its copy with plain preludes lose at-rules at the same positions
(`removedMedia_plainPreludes`).
-/

set_option autoImplicit false

namespace CssPruning

open Text

namespace Media

/-! ## The words of a prelude -/

/-- The words of a prelude; there are none if it is left out or blank. -/
def preludeWords (prelude : Option String) : List (List Char) := words (prelude.getD "").toList

/-- The canonical prelude is its words with single spaces between them. -/
theorem map_canonicalPrelude_preludeText (r : AtRule) :
    r.preludeText.map AtRule.canonicalPrelude =
      if (preludeWords r.prelude).isEmpty then none
      else some (String.ofList ([' '].intercalate (preludeWords r.prelude))) := by
  rw [AtRule.preludeText]
  cases r.prelude with
  | none => rfl
  | some prelude =>
    have hwords : preludeWords (some prelude) = words prelude.toList := rfl
    have hcollapse : collapse (trimmed prelude).toList =
        [' '].intercalate (words prelude.toList) := by
      rw [toList_trimmed, collapse, words_trim]
    have hblank : (trimmed prelude != "") = !(words prelude.toList).isEmpty := by
      rw [Bool.eq_iff_iff, bne_iff_ne, Bool.not_eq_true', List.isEmpty_eq_false_iff, Ne, Ne,
        words_eq_nil_iff, ← toList_trimmed, String.toList_eq_nil_iff]
    rw [hwords, Option.map_some, Option.filter_some, hblank]
    cases (words prelude.toList).isEmpty with
    | true => rfl
    | false => exact congrArg (fun cs => some (String.ofList cs)) hcollapse

/-- A media rule is judged by its words, if it has any. -/
theorem judgedQuery_eq (r : AtRule) : judgedQuery r =
    if r.isMedia && !(preludeWords r.prelude).isEmpty then
      some (String.ofList ([' '].intercalate (preludeWords r.prelude)))
    else none := by
  rw [judgedQuery, map_canonicalPrelude_preludeText]
  cases r.isMedia <;> cases (preludeWords r.prelude).isEmpty <;> rfl

/-- The words of a prelude in small letters. -/
def smallWords (prelude : Option String) : List (List Char) :=
  (preludeWords prelude).map (List.map Char.toLower)

/-- The judged text in small letters is that of the words in small letters. -/
theorem map_lowerAscii_judgedQuery (r : AtRule) : (judgedQuery r).map lowerAscii =
    if r.isMedia && !(smallWords r.prelude).isEmpty then
      some (String.ofList ([' '].intercalate (smallWords r.prelude)))
    else none := by
  rw [judgedQuery_eq, smallWords, List.isEmpty_map]
  split
  · rw [Option.map_some, lowerAscii_ofList]
    exact congrArg (fun cs => some (String.ofList cs)) (map_toLower_intercalate _)
  · rfl

theorem survives_congr_of_judgedQuery {r r' : AtRule}
    (h : (judgedQuery r).map lowerAscii = (judgedQuery r').map lowerAscii)
    (targets : List Target) : survives targets r = survives targets r' := by
  have hany (text : String) : relevantForAny (lowerAscii text) targets =
      relevantForAny text targets :=
    congrArg targets.any (funext fun t => relevantText_lowerAscii text t)
  rw [survives, survives]
  cases hr : judgedQuery r with
  | none =>
    rw [hr] at h
    rw [Option.map_eq_none_iff.1 h.symm]
  | some text =>
    rw [hr] at h
    obtain ⟨text', hr', hsame⟩ := Option.map_eq_some_iff.1 h.symm
    rw [hr']
    dsimp only
    rw [← hany text, ← hany text', hsame]

/-- Media rules whose preludes have the same words up to letter case share their fate. -/
theorem survives_congr {r r' : AtRule} (hmedia : r.isMedia = r'.isMedia)
    (hwords : smallWords r.prelude = smallWords r'.prelude) (targets : List Target) :
    survives targets r = survives targets r' := by
  refine survives_congr_of_judgedQuery ?_ targets
  rw [map_lowerAscii_judgedQuery, map_lowerAscii_judgedQuery, hmedia, hwords]

/-! ## Sheets -/

/-- The words of a prelude in small letters with single spaces between them. -/
def plainPrelude (prelude : Option String) : Option String :=
  some (String.ofList ([' '].intercalate (smallWords prelude)))

/-- Small letters and single spaces for the preludes, and all else as it stands. -/
def withPlainPreludes : Node.Rewording := ⟨id, id, plainPrelude, id, id, id⟩

/-- The sheet with small letters and single spaces in its preludes. -/
def plainPreludes (s : Sheet) : Sheet := Node.allReword withPlainPreludes s

theorem smallWords_plainPrelude (prelude : Option String) :
    smallWords (plainPrelude prelude) = smallWords prelude := by
  have hwords : ∀ w ∈ smallWords prelude, IsWord w := by
    rw [smallWords, preludeWords, ← words_map_toLower]
    exact fun w hw => isWord_of_mem_words hw
  have hsmall : (smallWords prelude).map (List.map Char.toLower) = smallWords prelude := by
    rw [smallWords, List.map_map]
    exact List.map_congr_left fun w _ => map_toLower_map_toLower w
  have hplain : preludeWords (plainPrelude prelude) = smallWords prelude := by
    rw [preludeWords, plainPrelude, Option.getD_some, String.toList_ofList,
      words_intercalate hwords]
  rw [smallWords, hplain, hsmall]

/-- A plain prelude is judged as the prelude that it is made of. -/
theorem survives_reword (targets : List Target) (r : AtRule) :
    survives targets (r.reword withPlainPreludes) = survives targets r := by
  have hprelude : (r.reword withPlainPreludes).prelude = plainPrelude r.prelude := rfl
  have hmedia : (r.reword withPlainPreludes).isMedia = r.isMedia := rfl
  refine survives_congr hmedia ?_ targets
  rw [hprelude, smallWords_plainPrelude]

/-- The positions of the at-rules that a sheet loses. -/
def removedMedia (targets : List Target) (keepLarger : Bool) (s : Sheet) : List (List Nat) :=
  s.removed (survives (Target.effective targets keepLarger))

theorem removedMedia_plainPreludes (targets : List Target) (keepLarger : Bool) (s : Sheet) :
    removedMedia targets keepLarger (plainPreludes s) = removedMedia targets keepLarger s :=
  Node.allRejected_allReword (survives_reword _) 0 s

theorem withoutAt_removedMedia (targets : List Target) (keepLarger : Bool) (s : Sheet) :
    s.withoutAt (removedMedia targets keepLarger s) = (prune targets keepLarger s).sheet :=
  Sheet.withoutAt_removed _ s

theorem kept_eq_of_mem_verdicts {keep : AtRule → Bool} {s : Sheet} {v : Verdict}
    (h : v ∈ (s.prune keep).verdicts) : v.kept = keep v.rule := by
  rw [Node.sheet_prune_eq] at h
  exact Node.kept_of_mem_allVerdicts h

/-- Texts that are the same up to the case of their letters can be read or not both, match the same
targets and are relevant for the same targets.  Media rules whose preludes have the same words up
to letter case are kept or removed both, wherever they stand in whatever sheets.  So sheets that
differ in the letter case and the blanks of their preludes only lose at-rules at the same
positions. -/
theorem reading_and_pruning_ignore_letterCase :
    (∀ text text' : String, lowerAscii text = lowerAscii text' →
      (parseList text).isOk = (parseList text').isOk ∧
      ∀ t : Target, (matchesText text t).toOption = (matchesText text' t).toOption ∧
        relevantText text t = relevantText text' t) ∧
    (∀ (targets : List Target) (keepLarger : Bool) (s s' : Sheet),
      ∀ v ∈ (s.prune (survives (Target.effective targets keepLarger))).verdicts,
      ∀ v' ∈ (s'.prune (survives (Target.effective targets keepLarger))).verdicts,
        v.rule.isMedia = true → v'.rule.isMedia = true →
        smallWords v.rule.prelude = smallWords v'.rule.prelude → v.kept = v'.kept) ∧
    ∀ s s' : Sheet, plainPreludes s = plainPreludes s' →
      ∀ (targets : List Target) (keepLarger : Bool), ∃ positions : List (List Nat),
        (prune targets keepLarger s).sheet = s.withoutAt positions ∧
        (prune targets keepLarger s').sheet = s'.withoutAt positions := by
  refine ⟨fun text text' h => ⟨?_, fun t => ⟨?_, ?_⟩⟩, ?_, ?_⟩
  · rw [← isOk_parseList_lowerAscii text, h, isOk_parseList_lowerAscii]
  · rw [← toOption_matchesText_lowerAscii text, h, toOption_matchesText_lowerAscii]
  · rw [← relevantText_lowerAscii text, h, relevantText_lowerAscii]
  · intro targets keepLarger s s' v hv v' hv' hmedia hmedia' hwords
    rw [kept_eq_of_mem_verdicts hv, kept_eq_of_mem_verdicts hv']
    exact survives_congr (hmedia.trans hmedia'.symm) hwords _
  · intro s s' h targets keepLarger
    have hpositions : removedMedia targets keepLarger s = removedMedia targets keepLarger s' := by
      rw [← removedMedia_plainPreludes, h, removedMedia_plainPreludes]
    refine ⟨removedMedia targets keepLarger s, (withoutAt_removedMedia ..).symm, ?_⟩
    rw [hpositions, withoutAt_removedMedia]

/-- A sheet of one media rule. -/
def oneMediaRule (prelude : String) : Sheet := [.atRule "media" (some prelude) (some [])]

theorem verdicts_oneMediaRule (prelude : String) (keep : AtRule → Bool) :
    ((oneMediaRule prelude).prune keep).verdicts =
      [⟨⟨"media", some prelude, some []⟩, keep ⟨"media", some prelude, some []⟩⟩] := by
  rw [Node.sheet_prune_eq, oneMediaRule, Node.allVerdicts, Node.verdicts]
  split <;> rfl

/-- Screens of fifty em are asked for in two spellings, and neither is relevant for a small one. -/
theorem pruning_ignores_letterCase_fiftyEm :
    relevantText "Screen AND (MIN-Width: 50EM)" (.screen 600 400) = false ∧
      relevantText "screen and (min-width: 50em)" (.screen 600 400) = false ∧
      (∀ v ∈ ((oneMediaRule " SCREEN  and\n(Min-Width: 50eM)").prune
          (survives (Target.effective [.screen 600 400] true))).verdicts,
        ∀ v' ∈ ((oneMediaRule "screen and (min-width: 50em)").prune
          (survives (Target.effective [.screen 600 400] true))).verdicts, v.kept = v'.kept) ∧
      ∃ positions : List (List Nat),
        (prune [.screen 600 400] false (oneMediaRule " SCREEN  and\n(Min-Width: 50eM)")).sheet =
          (oneMediaRule " SCREEN  and\n(Min-Width: 50eM)").withoutAt positions ∧
        (prune [.screen 600 400] false (oneMediaRule "screen and (min-width: 50em)")).sheet =
          (oneMediaRule "screen and (min-width: 50em)").withoutAt positions := by
  have hletters : lowerAscii "Screen AND (MIN-Width: 50EM)" =
      lowerAscii "screen and (min-width: 50em)" := by
    rw [← String.toList_inj, toList_lowerAscii, toList_lowerAscii]
    decide +kernel
  have hirrelevant : relevantText "screen and (min-width: 50em)" (.screen 600 400) = false := by
    decide +kernel
  have hwords : smallWords (some " SCREEN  and\n(Min-Width: 50eM)") =
      smallWords (some "screen and (min-width: 50em)") := by decide +kernel
  have hplain : plainPreludes (oneMediaRule " SCREEN  and\n(Min-Width: 50eM)") =
      plainPreludes (oneMediaRule "screen and (min-width: 50em)") := by
    have hprelude (prelude : String) : plainPreludes (oneMediaRule prelude) =
        [.atRule "media" (plainPrelude (some prelude)) (some [])] := rfl
    rw [hprelude, hprelude, plainPrelude, plainPrelude, hwords]
  obtain ⟨hread, hverdicts, hsheets⟩ := reading_and_pruning_ignore_letterCase
  obtain ⟨-, hsame⟩ := hread _ _ hletters
  refine ⟨(hsame (.screen 600 400)).2.trans hirrelevant, hirrelevant, ?_,
    hsheets _ _ hplain [.screen 600 400] false⟩
  intro v hv v' hv'
  have hv₀ := hv
  have hv₀' := hv'
  rw [verdicts_oneMediaRule, List.mem_singleton] at hv₀ hv₀'
  refine hverdicts _ _ _ _ v hv v' hv' ?_ ?_ ?_
  · rw [hv₀]
    decide +kernel
  · rw [hv₀']
    decide +kernel
  · rw [hv₀, hv₀']
    exact hwords

end Media

end CssPruning
