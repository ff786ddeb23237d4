import CssPruning.Proofs.Text.Trim
import CssPruning.Proofs.Token.Boundary
import CssPruning.Proofs.Value.Spelling

/-!
# Simple values are read back

A value is simple if it consists of names, numbers in digits, strings on one line
and functions around simple values, with a blank, a comma, or a comma and a blank
from each to the next (`Value.Simple`).  Its text is the texts of its components in
a row, for no text ends in a space that a blank would be left out for, and spells
the value (`Simple.exists_spells`).
-/

set_option autoImplicit false

namespace CssPruning

open Token Text

/-- A text that starts with no blank starts with no blank of the tokens, either. -/
theorem Token.solid_append {cs : List Char} (h : Flush cs) (hne : cs ≠ []) (ds : List Char) :
    Solid (cs ++ ds) := by
  obtain ⟨c, rest, rfl⟩ := List.exists_cons_of_ne_nil hne
  have hc : Text.isBlank c = false := h.1
  rw [Solid, List.cons_append, List.head?_cons, Option.any_some, ← Bool.not_eq_true]
  intro hspace
  rw [isBlank_of_isSpace hspace] at hc
  cases hc

/-- A word has no blank in it. -/
theorem Token.flush_of_isWord {w : List Char} (h : isWord w = true) : Flush w :=
  flush_of_forall fun c hc => isBlank_of_isWordChar (isWordChar_of_mem_word h c hc)

/-! ## Simple values -/

/-- What stands between two components. -/
inductive Value.Between : Value → Prop where
  | blank : Between [.blank]
  | comma : Between [.comma]
  | commaBlank : Between [.comma, .blank]

/-- A value that is empty, or a row of components with something between each and
the next. -/
inductive Value.Simple : Value → Prop where
  | empty : Simple []
  | ident {name : String} : isSimpleName name.toList = true → Simple [.ident name]
  | number {digits : String} : digits.toList ≠ [] → digits.toList.all Char.isDigit = true →
      Simple [.number digits]
  | string {text : String} : text.toList.all isStringChar = true → Simple [.string text]
  | function {name : String} {arguments : Value} : isSimpleName name.toList = true →
      Text.sameAscii name "url" = false → Simple arguments → Simple [.function name arguments]
  | append {v sep w : Value} : Simple v → v ≠ [] → Between sep → Simple w → w ≠ [] →
      Simple (v ++ sep ++ w)

namespace Component

/-! ## Texts in a row -/

theorem endsInSpace_append (spaced : Bool) (cs ds : List Char) :
    endsInSpace spaced (cs ++ ds) = endsInSpace (endsInSpace spaced cs) ds := by
  rw [endsInSpace, List.getLast?_append]
  cases hds : ds.getLast? with
  | none => rw [endsInSpace, hds]; rfl
  | some c => rw [endsInSpace, hds]; rfl

theorem texts_append (spaced : Bool) (v w : Value) :
    texts spaced (v ++ w) = texts spaced v ++ texts (endsInSpace spaced (texts spaced v)) w := by
  induction v generalizing spaced with
  | nil => rfl
  | cons c v ih =>
    rw [List.cons_append, texts, texts, ih, endsInSpace_append, List.append_assoc]

/-- A text that ends in no blank ends in no space. -/
theorem endsInSpace_of_flush {cs : List Char} (h : Flush cs) (hne : cs ≠ []) (spaced : Bool) :
    endsInSpace spaced cs = false := by
  obtain ⟨c, hc⟩ := Option.ne_none_iff_exists'.1 (mt List.getLast?_eq_none_iff.1 hne)
  have hblank := h.2
  rw [hc, Option.any_some] at hblank
  rw [endsInSpace, hc, beq_eq_false_iff_ne]
  rintro rfl
  cases hblank

end Component

namespace Value

open Component

/-- The text of what stands between two components. -/
theorem Between.exists_spells {sep : Value} (h : Between sep) :
    ∃ cs, texts false sep = cs ∧ SpellsValue Solid cs sep ∧ ∀ ds, Breaks (cs ++ ds) := by
  cases h with
  | blank => exact ⟨_, rfl, SpellsValue.blank, breaks_cons (by decide)⟩
  | comma =>
    exact ⟨_, rfl, SpellsValue.comma.mono fun _ _ => trivial, breaks_cons (by decide)⟩
  | commaBlank =>
    exact ⟨_, rfl, SpellsValue.comma.append SpellsValue.blank fun _ _ => trivial,
      breaks_cons (by decide)⟩

/-- No blank stands at the ends of the value. -/
def EndsInParts (v : Value) : Prop :=
  v.head?.any Component.isBlank = false ∧ v.getLast?.any Component.isBlank = false

theorem dropEndBlanks_eq_self {v : Value} (h : v.getLast?.any Component.isBlank = false) :
    v.dropEndBlanks = v := by
  rw [dropEndBlanks]
  cases hv : v.reverse with
  | nil => rw [List.reverse_eq_nil_iff.1 hv]; rfl
  | cons c rest =>
    rw [← List.head?_reverse, hv] at h
    rw [List.dropWhile_cons_of_neg (by simpa using h), ← hv, List.reverse_reverse]

theorem trim_eq_self {v : Value} (h : EndsInParts v) : v.trim = v := by
  rw [trim, dropEndBlanks_eq_self h.2]
  split
  · have hhead := h.1
    cases hhead
  · rfl

/-- A value without an exclamation mark has no mark of importance. -/
theorem beforeImportant_eq_none {v : Value} (h : Component.raw "!" ∉ v) :
    v.beforeImportant = none := by
  rw [beforeImportant]
  split
  · rename_i name before hreverse
    split
    · split
      · rename_i rest hraw
        have hmem : Component.raw "!" ∈ before.dropWhile Component.isBlank := by
          rw [hraw]
          exact List.mem_cons_self
        have hmem' : Component.raw "!" ∈ v := by
          rw [← List.mem_reverse, hreverse]
          exact List.mem_cons_of_mem _ (List.dropWhile_sublist _ |>.subset hmem)
        exact absurd hmem' h
      · rfl
    · rfl
  · rfl

/-- A value with the mark of importance behind it. -/
theorem beforeImportant_append {v : Value} (h : v.getLast?.any Component.isBlank = false) :
    beforeImportant (v ++ [.raw "!"] ++ [.ident "important"]) = some v := by
  have hreverse : (v ++ [Component.raw "!"] ++ [Component.ident "important"]).reverse =
      .ident "important" :: .raw "!" :: v.reverse := by simp
  have hsame : Text.sameAscii "important" "important" = true := beq_self_eq_true _
  rw [beforeImportant, hreverse]
  simp only [hsame, if_true]
  rw [List.dropWhile_cons_of_neg (by simp [Component.isBlank])]
  simp only [List.reverse_reverse, dropEndBlanks_eq_self h]

namespace Simple

theorem endsInParts {v : Value} (h : Simple v) : EndsInParts v := by
  induction h with
  | empty => exact ⟨rfl, rfl⟩
  | ident => exact ⟨rfl, rfl⟩
  | number => exact ⟨rfl, rfl⟩
  | string => exact ⟨rfl, rfl⟩
  | function => exact ⟨rfl, rfl⟩
  | @append v sep w _ hv _ _ hw ihv ihw =>
    constructor
    · rw [List.append_assoc, List.head?_append_of_ne_nil _ hv]
      exact ihv.1
    · rw [List.getLast?_append_of_ne_nil _ hw]
      exact ihw.2

/-- A simple value has no raw text, at its level. -/
theorem ne_raw {v : Value} (h : Simple v) : ∀ c ∈ v, ∀ text, c ≠ .raw text := by
  induction h with
  | append _ _ hsep _ _ ihv ihw =>
    intro c hc text
    rw [List.mem_append, List.mem_append] at hc
    rcases hc with (hc | hc) | hc
    · exact ihv c hc text
    · rintro rfl
      cases hsep <;> simp [Component.comma] at hc
    · exact ihw c hc text
  | _ => simp

theorem beforeImportant_eq_none {v : Value} (h : Simple v) : v.beforeImportant = none :=
  Value.beforeImportant_eq_none fun hraw => h.ne_raw _ hraw _ rfl

/-- The text of a simple value does not hang on what is written before it, has no
blank at its ends, and spells the value. -/
theorem exists_spells {v : Value} (h : Simple v) :
    ∃ cs, (∀ spaced, texts spaced v = cs) ∧ SpellsValue Breaks cs v ∧ Flush cs ∧
      (v ≠ [] → cs ≠ []) := by
  induction h with
  | empty => exact ⟨[], fun _ => rfl, SpellsValue.nil, flush_nil, fun hne => absurd rfl hne⟩
  | @ident name hname =>
    have hword := isWord_of_isSimpleName hname
    have hspells := SpellsValue.ident hword
    rw [String.ofList_toList] at hspells
    refine ⟨name.toList, fun _ => ?_, hspells, flush_of_isWord hword, fun _ => isWord_ne_nil hword⟩
    simp [texts, Component.text]
  | @number digits hne hdigits =>
    rw [List.all_eq_true] at hdigits
    have hspells := SpellsValue.number hne hdigits
    rw [String.ofList_toList] at hspells
    refine ⟨digits.toList, fun _ => ?_, hspells, ?_, fun _ => hne⟩
    · simp [texts, Component.text]
    · exact flush_of_forall fun c hc =>
        isBlank_of_isWordChar (isWordChar_of_isDigit (hdigits c hc))
  | @string text htext =>
    have hspells := SpellsValue.string (List.all_eq_true.1 htext)
    rw [String.ofList_toList] at hspells
    refine ⟨_, fun _ => ?_, hspells.mono fun _ _ => trivial, ⟨rfl, ?_⟩, fun _ => List.cons_ne_nil _ _⟩
    · simp [texts, Component.text]
    · rw [List.getLast?_concat]
      rfl
  | @function name arguments hname hurl hsimple ih =>
    obtain ⟨cs, htext, hspells, hflush, -⟩ := ih
    have hcall := hspells.function hname (by rwa [String.ofList_toList])
      (trim_eq_self hsimple.endsInParts)
    rw [String.ofList_toList] at hcall
    refine ⟨_, fun _ => ?_, hcall.mono fun _ _ => trivial, ⟨?_, ?_⟩, fun _ => by simp⟩
    · simp [texts, Component.text, htext, Text.trim_eq_self hflush]
    · obtain ⟨c, rest, hcons, hc, -⟩ := exists_isAlpha_of_isSimpleName hname
      rw [hcons]
      exact isBlank_of_isWordChar (isWordChar_of_isAlpha hc)
    · rw [List.getLast?_concat]
      rfl
  | @append v sep w hv hvne hsep hw hwne ihv ihw =>
    obtain ⟨cs, htext, hspells, hflush, hne⟩ := ihv
    obtain ⟨ds, hsepText, hsepSpells, hbreaks⟩ := hsep.exists_spells
    obtain ⟨es, htext', hspells', hflush', hne'⟩ := ihw
    have hsolid : ∀ rest, Breaks rest → Solid (es ++ rest) :=
      fun rest _ => solid_append hflush' (hne' hwne) rest
    refine ⟨cs ++ ds ++ es, fun spaced => ?_, ?_, hflush.append hflush' (hne hvne) (hne' hwne) ds,
      fun _ => by simp [hne hvne]⟩
    · have hspaced := endsInSpace_of_flush hflush (hne hvne) spaced
      rw [texts_append, texts_append, htext, hspaced, hsepText, htext']
    · exact (hspells.append hsepSpells fun rest _ => hbreaks rest).append hspells' hsolid

end Simple

end Value

end CssPruning
