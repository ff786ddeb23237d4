import CssPruning.Proofs.Pipeline.UsedFaces
import Mathlib.Data.List.Perm.Basic

/-!
# Passes in any order

Three passes make up the two stages: one over media rules, one over font faces,
and one over the comments at the root.  Each judges by what no other takes away:
a media rule by its prelude, a font face by the declarations of its own block, a
comment by being one.  So two passes commute (`Pass.run_comm`), and a row of
passes leaves the same in every order (`runPasses_perm`), whatever targets,
names and variables each of them goes by.
-/

set_option autoImplicit false

namespace CssPruning.Pipeline

/-- A change that a stage makes to a sheet, with what it goes by. -/
inductive Pass where
  | media (targets : List Target) (keepLarger : Bool)
  | faces (used : Font.NameSet) (vs : Font.Variables)
  | comments

namespace Pass

/-- What the pass leaves of a sheet. -/
def run : Pass → Sheet → Sheet
  | media targets keepLarger, s => (Media.prune targets keepLarger s).sheet
  | faces used vs, s => (Font.pruneFaces used vs s).sheet
  | comments, s => s.stripComments

/-- The test that the pass puts to the at-rules; comments have none to put. -/
def test? : Pass → Option (AtRule → Bool)
  | media targets keepLarger => some (Media.survives (Target.effective targets keepLarger))
  | faces used vs => some (Font.survives used vs)
  | comments => none

theorem run_of_test? {p : Pass} {keep : AtRule → Bool} (h : p.test? = some keep) (s : Sheet) :
    p.run s = Node.allKept keep s := by
  cases p with
  | media targets keepLarger =>
    obtain rfl := Option.some.inj h
    exact Node.sheet_prune _ s
  | faces used vs =>
    obtain rfl := Option.some.inj h
    exact Node.sheet_prune _ s
  | comments => cases h

theorem eq_comments_of_test? {p : Pass} (h : p.test? = none) : p = comments := by
  cases p with
  | comments => rfl
  | media targets keepLarger => cases h
  | faces used vs => cases h

/-- No test looks at what another pass takes away inside of a block. -/
theorem test?_withKept {p : Pass} {keep : AtRule → Bool} (h : p.test? = some keep)
    (other : AtRule → Bool) (r : AtRule) : keep (r.withKept other) = keep r := by
  cases p with
  | media targets keepLarger =>
    obtain rfl := Option.some.inj h
    exact Media.survives_withKept _ other r
  | faces used vs =>
    obtain rfl := Option.some.inj h
    exact Font.survives_withKept other r
  | comments => cases h

end Pass

/-- Tests that do not look at what the other's pass takes away may be put in
either order. -/
theorem allKept_comm {keep keep' : AtRule → Bool} (h : ∀ r, keep (r.withKept keep') = keep r)
    (h' : ∀ r, keep' (r.withKept keep) = keep' r) (s : Sheet) :
    Node.allKept keep' (Node.allKept keep s) = Node.allKept keep (Node.allKept keep' s) := by
  have hboth : (fun r => keep r && keep' r) = fun r => keep' r && keep r := by
    funext r
    exact Bool.and_comm ..
  rw [Node.allKept_allKept fun name prelude children => h' ⟨name, prelude, some children⟩,
    Node.allKept_allKept fun name prelude children => h ⟨name, prelude, some children⟩, hboth]

/-- Two passes may be run in either order. -/
theorem Pass.run_comm (p q : Pass) (s : Sheet) : q.run (p.run s) = p.run (q.run s) := by
  cases hp : p.test? with
  | none =>
    obtain rfl := eq_comments_of_test? hp
    cases hq : q.test? with
    | none =>
      obtain rfl := eq_comments_of_test? hq
      rfl
    | some keep =>
      rw [run_of_test? hq, run_of_test? hq]
      exact Sheet.allKept_stripComments keep s
  | some keep =>
    rw [run_of_test? hp, run_of_test? hp]
    cases hq : q.test? with
    | none =>
      obtain rfl := eq_comments_of_test? hq
      exact (Sheet.allKept_stripComments keep s).symm
    | some keep' =>
      rw [run_of_test? hq, run_of_test? hq]
      exact allKept_comm (test?_withKept hp keep') (test?_withKept hq keep) s

/-- What a row of passes leaves of a sheet. -/
def runPasses (passes : List Pass) (s : Sheet) : Sheet := passes.foldl (fun s p => p.run s) s

/-- The passes of both stages, for the names and variables that the second goes by. -/
def passes (p : Pipeline) (used : Font.NameSet) (vs : Font.Variables) : List Pass :=
  .media p.targets p.keepLarger :: .faces used vs :: if p.stripComments then [.comments] else []

/-- The two stages are a row of passes. -/
theorem postformat_preformat_eq_runPasses (p : Pipeline) (s : Sheet)
    (signals : Option Probe.Signals) :
    (p.postformat (p.preformat s).sheet signals).sheet =
      runPasses (p.passes (p.countedFonts (Font.usage .empty (p.preformat s).sheet).used signals)
        (Font.usage .empty (p.preformat s).sheet).known) s := by
  unfold passes postformat
  cases p.stripComments <;> rfl

/-- The same passes leave the same, in whatever order they are run. -/
theorem runPasses_perm {passes passes' : List Pass} (h : passes.Perm passes') (s : Sheet) :
    runPasses passes s = runPasses passes' s :=
  h.foldl_eq' (fun p _ q _ s => Pass.run_comm p q s) s

/-- A comment, a face without a source for print, and a media rule for screens
with such a face in front of one that is in use. -/
def facesInMedia : Sheet :=
  [.comment "!", .atRule "media" (some "print") (some [.atRule "font-face" none (some [])]),
    .atRule "media" (some "screen") (some [.atRule "font-face" none (some []), openSans.toNode])]

theorem runPasses_facesInMedia :
    [Pass.media [.screen 800 600] false, .faces ["open sans"] .empty, .comments].Perm
        [.comments, .faces ["open sans"] .empty, .media [.screen 800 600] false] ∧
      runPasses [.media [.screen 800 600] false, .faces ["open sans"] .empty, .comments]
          facesInMedia =
        runPasses [.comments, .faces ["open sans"] .empty, .media [.screen 800 600] false]
          facesInMedia := by
  have horder : [Pass.media [.screen 800 600] false, .faces ["open sans"] .empty, .comments].Perm
      [.comments, .faces ["open sans"] .empty, .media [.screen 800 600] false] :=
    (List.reverse_perm _).symm
  exact ⟨horder, runPasses_perm horder facesInMedia⟩

example : (runPasses [.comments, .faces ["open sans"] .empty, .media [.screen 800 600] false]
    facesInMedia).write =
      "@media screen{@font-face{font-family:Open Sans;src:url(open-sans.woff)}}" := by
  decide +kernel

end CssPruning.Pipeline
