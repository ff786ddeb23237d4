import CssPruning.Proofs.Sheet.RoundTrip
import CssPruning.Proofs.Sheet.Size

/-!
# Progress of the reader

Sheets and values are read by loops (`Cursor.nodes`, `Cursor.scan`, `Cursor.components`).
A cursor that a turn of such a loop goes on from carries the proof that it is ahead, so
a turn that passes nothing cannot be written down.  What has to be shown is that these
loops are the readers, for every text and with every fault, and that a statement which is
scanned from its first lexeme on passes that lexeme.

The value of a declaration is read by the loop that reads values, from the text that has
been scanned; with that, reading a sheet ends, and what it finds is bounded by the text.
-/

set_option autoImplicit false

namespace CssPruning.Sheet

open Cursor

/-- Reading makes progress.  Sheets and values are read by loops from the start of their text.
From every cursor, outside of blocks and inside of them, what a loop answers is found in finitely
many turns, each of which passes at least one character or is the last; and the scan of a statement,
which begins at a lexeme that the loop around has taken already, passes that lexeme.  The nodes of
an accepted sheet and the components of their values are together not more than its characters, and
so are the components of an accepted value. -/
theorem reading_progresses (text : String) :
    (parse text = ((fun r => r.1) <$> Cursor.nodes none ⟨0, text.toList⟩).mapError
        (Error.ofFault text.toList) ∧
      Value.parse text = ((fun r => r.1.trim) <$> Cursor.components none ⟨0, text.toList⟩).mapError
        (Error.ofFault text.toList)) ∧
    (∀ (inside : Option Bracket) (c : Cursor),
      Advances (fun c => nodeTurn inside c fun d => Cursor.nodes (some .curly) d.1)
        (fun node ns => node.toList ++ ns) (fun c _ => ([], c))
        (fun c => endingAt (Cursor.nodes inside c)) c ∧
      Advances (scanTurn inside) (fun put r => (put r.1, r.2))
        (fun _ r => ((⟨[], none⟩, r.1), r.2.1)) (fun c => endingAt (scan inside c)) c ∧
      Advances (fun c => componentTurn inside c fun d => Cursor.components (some .round) d.1)
        (fun found v => found.toList ++ v) (fun c _ => ([], c))
        (fun c => endingAt (Cursor.components inside c)) c ∧
      ∀ r e, (c.next inside).isSome → scan inside c = .ok (r, e) → c.Passes e.1) ∧
    (∀ s, parse text = .ok s → Node.allCount s ≤ text.length) ∧
    ∀ v, Value.parse text = .ok v → Component.allCount v ≤ text.length := by
  refine ⟨⟨?_, ?_⟩, fun inside c => ⟨advances (endingAt_nodes inside) c,
    advances (endingAt_scan inside) c, advances (endingAt_components inside) c, ?_⟩, ?_, ?_⟩
  · rw [nodes_eq_read, parse]
  · rw [Value.trim_components_eq, Value.parse]
  · intro r e hnext hscan
    obtain ⟨x, hx⟩ := Option.isSome_iff_exists.1 hnext
    exact passes_of_scan hx hscan
  · intro s hs
    rw [← String.length_toList]
    exact allCount_le_length (parse_eq_ok_iff.1 hs)
  · intro v hv
    rw [← String.length_toList]
    exact Value.allCount_le_length (Value.parse_eq_ok_iff.1 hv)

/-- The first lexeme is taken twice, for `a:b,c` is a statement, and a declaration: with three
components that are four nodes and components from five characters.  As a value it has five. -/
theorem reading_progresses_declaration :
    (∃ r e, scan none ⟨0, "a:b,c".toList⟩ = .ok (r, e) ∧ Passes ⟨0, "a:b,c".toList⟩ e.1) ∧
    (∃ s, parse "a:b,c" = .ok s ∧ Node.allCount s = 4 ∧ Node.allCount s ≤ "a:b,c".length) ∧
    ∃ v, Value.parse "a:b,c" = .ok v ∧ Component.allCount v = 5 ∧
      Component.allCount v ≤ "a:b,c".length := by
  obtain ⟨-, hturns, hsheet, hvalue⟩ := reading_progresses "a:b,c"
  refine ⟨?_, ?_, ?_⟩
  · have hok : (scan none ⟨0, "a:b,c".toList⟩).isOk = true := by decide +kernel
    cases hscan : scan none ⟨0, "a:b,c".toList⟩ with
    | error f => rw [hscan] at hok; cases hok
    | ok x => exact ⟨x.1, x.2, rfl, (hturns none _).2.2.2 x.1 x.2 (by decide +kernel) hscan⟩
  · have hcount : (parse "a:b,c").toOption.map Node.allCount = some 4 := by decide +kernel
    cases hs : parse "a:b,c" with
    | error e => rw [hs] at hcount; cases hcount
    | ok s => rw [hs] at hcount; exact ⟨s, rfl, Option.some.inj hcount, hsheet s hs⟩
  · have hcount : (Value.parse "a:b,c").toOption.map Component.allCount = some 5 := by
      decide +kernel
    cases hv : Value.parse "a:b,c" with
    | error e => rw [hv] at hcount; cases hcount
    | ok v => rw [hv] at hcount; exact ⟨v, rfl, Option.some.inj hcount, hvalue v hv⟩

end CssPruning.Sheet
