import CssPruning.Token.Basic

/-!
# Scanners

A scanner reads one thing at the head of a text.  It answers what it read, the
text it read it from, and the text left.  Here are the scanners that the others
are made of: runs of characters, escapes and names.

Each scanner has one lemma: what it took, followed by what it left, is the text
it was given (`Scan.Splits`).  Progress of the token loop follows from that.
-/

set_option autoImplicit false

namespace CssPruning

/-- The outcome of a scanner. -/
structure Scan (α : Type) where
  value : α
  source : List Char
  rest : List Char
  deriving Repr

namespace Scan

/-- Nothing of the text was lost or made up. -/
def Splits {α : Type} (s : Scan α) (cs : List Char) : Prop := s.source ++ s.rest = cs

/-- The same outcome with another value. -/
def map {α β : Type} (f : α → β) (s : Scan α) : Scan β := ⟨f s.value, s.source, s.rest⟩

/-- The same outcome after some more text in front. -/
def behind {α : Type} (lead : List Char) (s : Scan α) : Scan α :=
  ⟨s.value, lead ++ s.source, s.rest⟩

/-- One scanner, and then another on the text it left. -/
def andThen {α β : Type} (s : Scan α) (f : List Char → Scan β) : Scan β :=
  (f s.rest).behind s.source

@[simp] theorem splits_map {α β : Type} (f : α → β) (s : Scan α) (cs : List Char) :
    (s.map f).Splits cs ↔ s.Splits cs := Iff.rfl

theorem Splits.behind {α : Type} {s : Scan α} {cs : List Char} (h : s.Splits cs)
    (lead : List Char) : (s.behind lead).Splits (lead ++ cs) := by
  simp only [Splits, Scan.behind, List.append_assoc] at h ⊢
  rw [h]

theorem Splits.andThen {α β : Type} {s : Scan α} {cs : List Char} (h : s.Splits cs)
    {f : List Char → Scan β} (hf : (f s.rest).Splits s.rest) : (s.andThen f).Splits cs := by
  have := hf.behind s.source
  rwa [h] at this

theorem Splits.length_rest_le {α : Type} {s : Scan α} {cs : List Char} (h : s.Splits cs) :
    s.rest.length ≤ cs.length := by
  rw [← h, List.length_append]
  exact Nat.le_add_left _ _

end Scan

namespace Token

/-! ## Character classes -/

/-- The blanks of CSS text, which are ASCII. -/
def isSpace (c : Char) : Bool :=
  c == ' ' || c == '\t' || c == '\n' || c == '\r' || c == '\x0c'

/-- The characters that end a line. -/
def isLineEnd (c : Char) : Bool := c == '\n' || c == '\r' || c == '\x0c'

/-- A letter, an underscore, NUL, or anything beyond ASCII. -/
def isNameStart (c : Char) : Bool :=
  c.isAlpha || c == '_' || c == '\x00' || 0x80 ≤ c.toNat

/-- The characters that a name goes on with, escapes apart. -/
def isNameChar (c : Char) : Bool := isNameStart c || c.isDigit || c == '-'

/-- The digits of a hexadecimal escape. -/
def isHexDigit (c : Char) : Bool :=
  c.isDigit || ('a' ≤ c && c ≤ 'f') || ('A' ≤ c && c ≤ 'F')

/-- The control characters that an unquoted address may not hold. -/
def isControl (c : Char) : Bool :=
  let n := c.toNat
  (0x01 ≤ n && n ≤ 0x08) || n == 0x0B || (0x0E ≤ n && n ≤ 0x1F) || n == 0x7F

/-- The character that stands for one that cannot be had. -/
def replacement : Char := '\uFFFD'

/-- NUL gives way to the replacement character. -/
def withoutNul (c : Char) : Char := if c == '\x00' then replacement else c

/-- The text starts with a line end. -/
def atLineEnd (cs : List Char) : Bool := cs.head?.any isLineEnd

/-! ## Runs -/

/-- The characters at the head of the text that a test accepts. -/
def run (p : Char → Bool) (cs : List Char) : Scan Unit := ⟨(), cs.takeWhile p, cs.dropWhile p⟩

theorem run_splits (p : Char → Bool) (cs : List Char) : (run p cs).Splits cs :=
  List.takeWhile_append_dropWhile

/-! ## Escapes -/

/-- The value of a hexadecimal digit. -/
def hexValue (c : Char) : Nat :=
  if c.isDigit then c.toNat - '0'.toNat
  else if 'a' ≤ c then c.toNat - 'a'.toNat + 10
  else c.toNat - 'A'.toNat + 10

/-- The character with a code, or the replacement character where there is none:
zero, a surrogate, or beyond the last plane. -/
def ofCode (n : Nat) : Char :=
  if n != 0 && n.isValidChar then Char.ofNat n else replacement

/-- One blank, where a carriage return and the line feed after it are one. -/
def oneSpace : List Char → Scan Unit
  | '\r' :: '\n' :: cs => ⟨(), ['\r', '\n'], cs⟩
  | c :: cs => if isSpace c then ⟨(), [c], cs⟩ else ⟨(), [], c :: cs⟩
  | [] => ⟨(), [], []⟩

/-- What follows a backslash: up to six hexadecimal digits and one blank, or any
one character.  At the end of the text it is the replacement character. -/
def escape : List Char → Scan Char
  | [] => ⟨replacement, [], []⟩
  | c :: cs =>
    if isHexDigit c then
      let digits := ((c :: cs).take 6).takeWhile isHexDigit
      let gap := oneSpace ((c :: cs).drop digits.length)
      ⟨ofCode (digits.foldl (fun n d => 16 * n + hexValue d) 0), digits ++ gap.source, gap.rest⟩
    else ⟨withoutNul c, [c], cs⟩

theorem oneSpace_splits (cs : List Char) : (oneSpace cs).Splits cs := by
  fun_cases oneSpace cs <;> simp_all [Scan.Splits]

theorem takeWhile_append_drop_length {p : Char → Bool} (n : Nat) (cs : List Char) :
    (cs.take n).takeWhile p ++ cs.drop ((cs.take n).takeWhile p).length = cs := by
  have h : (cs.take n).takeWhile p = cs.take ((cs.take n).takeWhile p).length := by
    have hp : (cs.take n).takeWhile p <+: cs :=
      (List.takeWhile_prefix p).trans (List.take_prefix n cs)
    exact List.prefix_iff_eq_take.1 hp
  conv => lhs; lhs; rw [h]
  exact List.take_append_drop _ _

theorem escape_splits (cs : List Char) : (escape cs).Splits cs := by
  fun_cases escape cs with
  | case1 => rfl
  | case2 c cs h digits gap =>
    have := oneSpace_splits ((c :: cs).drop digits.length)
    simp only [Scan.Splits] at this ⊢
    rw [List.append_assoc, this]
    exact takeWhile_append_drop_length 6 (c :: cs)
  | case3 => rfl

/-! ## Names -/

/-- The longest name at the head of the text, possibly empty. -/
def name : List Char → Scan (List Char)
  | [] => ⟨[], [], []⟩
  | c :: cs =>
    if c == '\\' then
      if atLineEnd cs then ⟨[], [], c :: cs⟩
      else
        let e := escape cs
        have : e.rest.length ≤ cs.length := (escape_splits cs).length_rest_le
        ((name e.rest).map (e.value :: ·)).behind (c :: e.source)
    else if isNameChar c then ((name cs).map (withoutNul c :: ·)).behind [c]
    else ⟨[], [], c :: cs⟩
termination_by cs => cs.length
decreasing_by all_goals grind

/-- The text starts with a name of its own accord: not with a digit, and not
with a hyphen alone.  After a hyphen any backslash will do. -/
def startsName : List Char → Bool
  | [] => false
  | c :: cs =>
    if c == '-' then
      match cs with
      | [] => false
      | d :: _ => isNameStart d || d == '-' || d == '\\'
    else if c == '\\' then !atLineEnd cs
    else isNameStart c

theorem name_splits (cs : List Char) : (name cs).Splits cs := by
  fun_induction name cs with
  | case1 => rfl
  | case2 => rfl
  | case3 c cs _ _ e _ ih =>
    have h := escape_splits cs
    have := ((Scan.splits_map (e.value :: ·) _ _).2 ih).behind (c :: e.source)
    simp only [Scan.Splits] at h this ⊢
    rw [this, List.cons_append, h]
  | case4 c cs _ _ ih => exact ((Scan.splits_map (withoutNul c :: ·) _ _).2 ih).behind [c]
  | case5 => rfl

end Token

end CssPruning
