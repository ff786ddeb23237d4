import CssPruning.Pipeline
import CssPruning.Proofs.Font.Accounts
import CssPruning.Proofs.Media.Accounts

/-!
# The accounts of a run

A run goes over the at-rules twice, and then takes away comments at the root.  Each
pass has its accounts; the second is made over what the first has left, so that nothing
is counted that was inside of something taken away before.  At-rules come and go
without touching the comments at the root, and what the run says to have removed is
what has been removed by the three of them.
-/

set_option autoImplicit false

namespace CssPruning

/-- No at-rule is a comment. -/
theorem Sheet.rootComments_allKept (keep : AtRule → Bool) (s : Sheet) :
    rootComments (Node.allKept keep s) = rootComments s := by
  have hkept : ∀ n, (Node.kept keep n).toList.countP Node.isComment = [n].countP Node.isComment := by
    intro n
    cases n with
    | atRule name prelude block =>
      cases block with
      | none => cases hkeep : keep ⟨name, prelude, none⟩ <;> simp [Node.kept, hkeep, Node.isComment]
      | some children =>
        cases hkeep : keep ⟨name, prelude, some children⟩ <;>
          simp [Node.kept, hkeep, Node.isComment]
    | _ => rfl
  induction s with
  | nil => rfl
  | cons n ns ih =>
    rw [rootComments, rootComments] at ih ⊢
    rw [Node.allKept, List.countP_append, hkept, ih, ← List.countP_append]
    rfl

theorem Sheet.rootComments_stripComments (s : Sheet) : rootComments (stripComments s) = 0 := by
  rw [rootComments, stripComments, List.countP_eq_zero]
  intro n hn
  simpa using (List.mem_filter.1 hn).2

namespace Pipeline

/-- What is left of a sheet whose at-rules have been gone over. -/
def finished (p : Pipeline) (sheet : Sheet) : Sheet :=
  if p.stripComments then sheet.stripComments else sheet

/-- What a run has taken away, pass by pass: these judgements on media rules, which leave
one sheet, and these on font faces, which leave another. -/
structure Accounts (p : Pipeline) (sheet : Sheet) (o : Output) (media : List Judgement)
    (middle : Sheet) (faces : List Judgement) (last : Sheet) : Prop where
  judgedMedia : sheet.Judged media middle
  judgedFaces : middle.Judged faces last
  css : o.css = (p.finished last).write
  comments : sheet.rootComments = (p.finished last).rootComments + o.post.commentsRemoved
  removedCount : o.removedCount = (Judgement.rejected media).length +
    (Judgement.rejected faces).length + o.post.commentsRemoved

/-- The run has its accounts. -/
def Accounted (p : Pipeline) (sheet : Sheet) (o : Output) : Prop :=
  ∃ media middle faces last, p.Accounts sheet o media middle faces last

/-- Both stages, whatever a probe has seen in between. -/
theorem accounted_complete (p : Pipeline) (sheet : Sheet) (signals : Option Probe.Signals) :
    p.Accounted sheet (p.complete (p.preformat sheet) signals).1 := by
  let middle := (p.preformat sheet).sheet
  let usage := Font.usage .empty middle
  let used := p.countedFonts usage.used signals
  obtain ⟨media, hmedia⟩ := Media.exists_accounts p.targets p.keepLarger sheet
  obtain ⟨faces, hfaces⟩ := Font.exists_accounts used usage.known middle
  refine ⟨media, middle, faces, (Font.pruneFaces used usage.known middle).sheet, ?_⟩
  have hmiddle : middle.rootComments = sheet.rootComments := by
    have hprune : middle = Node.allKept _ sheet := Node.sheet_prune _ sheet
    rw [hprune, Sheet.rootComments_allKept]
  have hlast : Sheet.rootComments (Font.pruneFaces used usage.known middle).sheet =
      middle.rootComments := by
    have hprune : (Font.pruneFaces used usage.known middle).sheet = Node.allKept _ middle :=
      Node.sheet_prune _ middle
    rw [hprune, Sheet.rootComments_allKept]
  constructor
  case judgedMedia => exact hmedia.judged
  case judgedFaces => exact hfaces.judged
  case css => rfl
  case comments =>
    have hremoved : (p.complete (p.preformat sheet) signals).1.post.commentsRemoved =
        if p.stripComments then
          Sheet.rootComments (Font.pruneFaces used usage.known middle).sheet
        else 0 := rfl
    rw [hremoved, finished, ← hmiddle, ← hlast]
    split
    · rw [Sheet.rootComments_stripComments, Nat.zero_add]
    · rfl
  case removedCount =>
    rw [← Judgement.length_eq_of_map_eq hmedia.droppedQueries, ← hmedia.dropped,
      ← Judgement.length_eq_of_map_eq hfaces.dropped]
    rfl

/-- The reports of both stages agree with what these take away, and so does that of a
run, with a probe or without. -/
theorem reports_account :
    (∀ (targets : List Target) (keepLarger : Bool) (sheet : Sheet),
      Media.pruneCounting targets keepLarger sheet = Media.prune targets keepLarger sheet ∧
        ∃ js, Media.Accounts sheet (Media.prune targets keepLarger sheet) js) ∧
    (∀ (used : Font.NameSet) (vars : Font.Variables) (sheet : Sheet),
      Font.pruneFacesCounting used vars sheet = Font.pruneFaces used vars sheet ∧
        ∃ js, Font.Accounts used vars sheet (Font.pruneFaces used vars sheet) js) ∧
    (∀ (p : Pipeline) (css : String) (sheet : Sheet), Sheet.parse css = .ok sheet →
      ∃ output, (p.process css).result = .ok output ∧ p.Accounted sheet output) ∧
    ∀ {σ : Type} (p : Pipeline) (css : String) (b : Probe.Browser σ) (s : σ) (output : Output),
      (p.processWithProbe css b s).1.result = .ok output →
        ∃ sheet, Sheet.parse css = .ok sheet ∧ p.Accounted sheet output := by
  refine ⟨fun targets keepLarger sheet => ?_, fun used vars sheet => ?_,
    fun p css sheet hparse => ?_, fun p css b s output hresult => ?_⟩
  · exact ⟨Media.pruneCounting_eq _ _ _, Media.exists_accounts _ _ _⟩
  · exact ⟨Font.pruneFacesCounting_eq _ _ _, Font.exists_accounts _ _ _⟩
  · refine ⟨_, ?_, p.accounted_complete sheet none⟩
    rw [process, hparse]
  · rw [processWithProbe] at hresult
    split at hresult
    · cases hresult
    · rename_i sheet hparse
      refine ⟨sheet, hparse, ?_⟩
      dsimp only at hresult
      split at hresult
      · cases hresult
      · rename_i signals hsignals
        obtain rfl := Except.ok.inj hresult
        exact p.accounted_complete sheet (some signals)

end Pipeline

end CssPruning
