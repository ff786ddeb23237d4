import CssPruning.Sheet.Basic

/-!
# Removing at-rules and comments

`retainWith` asks a judge about every at-rule, outer ones before the ones inside
them and otherwise in the order of the text, and takes away the ones that the
judge rejects with all that is in them; what is inside of a rejected at-rule is
not asked about.  The judge sees the at-rule as it was, and may carry a state
from one question to the next.

`prune` is the case of a judge without a state.  It keeps the list of questions
and verdicts, from which reports are made.
-/

set_option autoImplicit false

namespace CssPruning

namespace Node

mutual

/-- What is left of a node, and the judge's state afterwards. -/
def retainWith {σ : Type} (judge : AtRule → σ → Bool × σ) : Node → σ → Option Node × σ
  | atRule name prelude none, s =>
    let (keep, s) := judge ⟨name, prelude, none⟩ s
    (if keep then some (atRule name prelude none) else none, s)
  | atRule name prelude (some children), s =>
    let (keep, s) := judge ⟨name, prelude, some children⟩ s
    if keep then
      let (left, s) := retainAllWith judge children s
      (some (atRule name prelude (some left)), s)
    else (none, s)
  | rule selector children, s =>
    let (left, s) := retainAllWith judge children s
    (some (rule selector left), s)
  | declaration d, s => (some (declaration d), s)
  | comment text, s => (some (comment text), s)
  | raw text, s => (some (raw text), s)
termination_by structural n => n

/-- What is left of some nodes in a row, and the judge's state afterwards. -/
def retainAllWith {σ : Type} (judge : AtRule → σ → Bool × σ) :
    List Node → σ → List Node × σ
  | [], s => ([], s)
  | n :: ns, s =>
    let (left, s) := retainWith judge n s
    let (rest, s) := retainAllWith judge ns s
    (left.toList ++ rest, s)
termination_by structural ns => ns

end

end Node

/-- A question to a judge and the answer. -/
structure Verdict where
  rule : AtRule
  kept : Bool

/-- A sheet after a pass, and the verdicts of the pass in order. -/
structure Pruned where
  sheet : Sheet
  verdicts : List Verdict

namespace Sheet

/-- The sheet without the at-rules that the judge rejects, and the judge's state
afterwards. -/
def retainWith {σ : Type} (judge : AtRule → σ → Bool × σ) (sheet : Sheet) (s : σ) : Sheet × σ :=
  Node.retainAllWith judge sheet s

/-- The sheet without the at-rules that a test rejects. -/
def prune (keep : AtRule → Bool) (sheet : Sheet) : Pruned :=
  let judge (r : AtRule) (log : List Verdict) : Bool × List Verdict :=
    let kept := keep r
    (kept, ⟨r, kept⟩ :: log)
  let (left, log) := sheet.retainWith judge []
  ⟨left, log.reverse⟩

/-- The sheet without the comments at its root. -/
def stripComments (sheet : Sheet) : Sheet := sheet.filter fun n => !n.isComment

/-- The comments at the root of a sheet. -/
def rootComments (sheet : Sheet) : Nat := sheet.countP Node.isComment

end Sheet

end CssPruning
