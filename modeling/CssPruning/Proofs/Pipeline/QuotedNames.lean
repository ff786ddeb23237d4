import CssPruning.Proofs.Pipeline.ProbeNames
import CssPruning.Proofs.Value.Survival

/-!
# Families in quotes

A list of families in quotes is a value of strings with commas between them, each
comma with a blank behind it or without (`Quotation`).  Whatever characters the
families are made of, as long as each fits on one line, such a value is simple.  So
its text, where quotes and backslashes have a backslash in front, is read as the value
again: as a value by itself, as a family that a probe reports, and as what a rule
declares (`Pipeline.families_of_quotation`).
-/

set_option autoImplicit false

namespace CssPruning

namespace Font

/-! ## Values of quoted families -/

/-- The families in quotes, with commas between them. -/
inductive Quotation : List String → Value → Prop where
  | nil : Quotation [] []
  | last (family : String) : Quotation [family] [.string family]
  | comma (family : String) {families : List String} {v : Value} :
      families ≠ [] → Quotation families v →
      Quotation (family :: families) (.string family :: .comma :: v)
  | commaBlank (family : String) {families : List String} {v : Value} :
      families ≠ [] → Quotation families v →
      Quotation (family :: families) (.string family :: .comma :: .blank :: v)

/-- The family can be written in quotes: no line ends in it, and it has no NUL. -/
def OnOneLine (family : String) : Prop := ∀ c ∈ ['\n', '\r', '\x0c', '\x00'], c ∉ family.toList

instance (family : String) : Decidable (OnOneLine family) := List.decidableBAll _ _

theorem OnOneLine.all_isStringChar {family : String} (h : OnOneLine family) :
    family.toList.all Token.isStringChar = true := by
  rw [List.all_eq_true]
  intro c hc
  have hne (d : Char) (hd : d ∈ ['\n', '\r', '\x0c', '\x00']) : (c == d) = false := by
    rw [beq_eq_false_iff_ne]
    rintro rfl
    exact h c hd hc
  simp [Token.isStringChar, Token.isLineEnd, bne, hne]

namespace Quotation

variable {families : List String} {v : Value}

theorem ne_nil (h : Quotation families v) (hne : families ≠ []) : v ≠ [] := by
  cases h with
  | nil => exact absurd rfl hne
  | _ => exact List.cons_ne_nil _ _

/-- Families in quotes are a simple value. -/
theorem simple (h : Quotation families v) (hline : ∀ family ∈ families, OnOneLine family) :
    v.Simple := by
  induction h with
  | nil => exact .empty
  | last family => exact .string (hline family List.mem_cons_self).all_isStringChar
  | comma family hne h ih =>
    obtain ⟨hfamily, hrest⟩ := List.forall_mem_cons.1 hline
    exact .append (.string hfamily.all_isStringChar) (List.cons_ne_nil _ _) .comma (ih hrest)
      (h.ne_nil hne)
  | commaBlank family hne h ih =>
    obtain ⟨hfamily, hrest⟩ := List.forall_mem_cons.1 hline
    exact .append (.string hfamily.all_isStringChar) (List.cons_ne_nil _ _) .commaBlank (ih hrest)
      (h.ne_nil hne)

/-- A string names itself, and what stands between two strings names nothing. -/
theorem names_eq (h : Quotation families v) (vs : Variables) : names vs v = families := by
  induction h with
  | nil => rfl
  | last family => rfl
  | comma family _ _ ih =>
    rw [names, namesFrom_separator rfl, names, namesFrom_separator rfl, ih]
    rfl
  | commaBlank family _ _ ih =>
    rw [names, namesFrom_separator rfl, names, namesFrom_separator rfl, names, namesFrom_blank,
      ← names, ih]
    rfl

end Quotation

/-- The rule that declares a simple value as its families is read from its text. -/
theorem parse_familiesRule {v : Value} (h : v.Simple) :
    Sheet.parse ("p\x7bfont-family:" ++ v.write ++ "\x7d") =
      .ok [.rule "p" [.declaration ⟨"font-family", v, false⟩]] := by
  have hp : Text.IsNames "p" := ⟨[['p']], List.cons_ne_nil _ _, by decide, by decide⟩
  have hproperty : Token.isWord "font-family".toList = true := by decide
  have hsimple : Sheet.Simple [.rule "p" [.declaration ⟨"font-family", v, false⟩]] := by
    intro n hn
    simp only [Node.allSubnodes, Node.subnodes, List.append_nil, List.mem_cons, List.not_mem_nil,
      or_false] at hn
    rcases hn with rfl | rfl
    · exact hp
    · exact ⟨hproperty, h⟩
  have hspells := Node.spells_separated fun n hn => (hsimple n hn).legible
  have hselector : Text.trim ['p'] = ['p'] := rfl
  have htext : ("p\x7bfont-family:" ++ v.write ++ "\x7d").toList =
      Node.allSeparated [.rule "p" [.declaration ⟨"font-family", v, false⟩]] := by
    rw [String.toList_append, String.toList_append, Value.write, String.toList_ofList]
    simp [Node.allSeparated, Node.separated, Declaration.chars, hselector]
  rw [Sheet.parse_eq_ok_iff, htext]
  exact hspells.read_eq

end Font

namespace Pipeline

/-- Families in quotes are read from the text of their list as they are.  A probe that reports
the text names them without the blanks at their ends, and a rule that declares it asks for them
as they are. -/
theorem families_of_quotation {families : List String} {v : Value}
    (h : Font.Quotation families v) (hline : ∀ family ∈ families, Font.OnOneLine family) :
    (∃ w, Value.parse v.write = .ok w ∧ Font.names .empty w = families) ∧
      (∀ x, x ∈ (Probe.Signals.mk [v.write]).fontNames ↔
        ∃ family ∈ families, Text.lower (Text.trimmed family) = x ∧ x ≠ "") ∧
      ∃ s, Sheet.parse ("p\x7bfont-family:" ++ v.write ++ "\x7d") = .ok s ∧
        ∀ x, x ∈ (Font.usage .empty s).used ↔ ∃ family ∈ families, Text.lower family = x := by
  have hsimple := h.simple hline
  have hparse : Value.parse v.write = .ok v := hsimple.legible.survives
  refine ⟨⟨v, hparse, h.names_eq _⟩, fun x => ?_, _, Font.parse_familiesRule hsimple, fun x => ?_⟩
  · have hreported : x ∈ (Probe.Signals.mk [v.write]).fontNames ↔
        x ∈ Probe.Signals.familyNames v.write := by
      simp [Probe.Signals.mem_fontNames]
    rw [hreported, Probe.Signals.mem_familyNames_iff hparse, h.names_eq]
  · rw [Font.usage_families, Font.NameSet.mem_addAll, h.names_eq]
    simp

/-- Families of the characters that part a sheet, of those that begin a comment and part a list,
and of none. -/
def markFamilies : List String := ["\x7d\"\\;", " /*Foo, ", ""]

/-- These families in quotes, with a blank behind the second comma only. -/
def markValue : Value :=
  [.string "\x7d\"\\;", .comma, .string " /*Foo, ", .comma, .blank, .string ""]

theorem families_of_quotation_marks :
    Font.Quotation markFamilies markValue ∧ (∀ family ∈ markFamilies, Font.OnOneLine family) ∧
      (∃ w, Value.parse markValue.write = .ok w ∧ Font.names .empty w = markFamilies) ∧
      (∀ x, x ∈ (Probe.Signals.mk [markValue.write]).fontNames ↔
        ∃ family ∈ markFamilies, Text.lower (Text.trimmed family) = x ∧ x ≠ "") ∧
      ∃ s, Sheet.parse ("p\x7bfont-family:" ++ markValue.write ++ "\x7d") = .ok s ∧
        (Font.usage .empty s).used.contains " /*foo, " = true ∧
        (Font.usage .empty s).used.contains "/*foo," = false := by
  have hquotation : Font.Quotation markFamilies markValue :=
    .comma _ (List.cons_ne_nil _ _) (.commaBlank _ (List.cons_ne_nil _ _) (.last ""))
  have hline : ∀ family ∈ markFamilies, Font.OnOneLine family := by decide
  obtain ⟨hread, hreported, s, hs, hused⟩ := families_of_quotation hquotation hline
  refine ⟨hquotation, hline, hread, hreported, s, hs, ?_, ?_⟩
  · rw [List.contains_iff_mem, hused]
    exact ⟨" /*Foo, ", by decide, by decide +kernel⟩
  · rw [← Bool.not_eq_true, List.contains_iff_mem, hused]
    have hlower : ∀ family ∈ markFamilies, Text.lower family ≠ "/*foo," := by decide +kernel
    rintro ⟨family, hfamily, hsame⟩
    exact hlower family hfamily hsame

end Pipeline

end CssPruning
