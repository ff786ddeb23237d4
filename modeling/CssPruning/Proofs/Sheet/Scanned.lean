import CssPruning.Proofs.Sheet.Loops

/-!
# Colons of scanned texts

The loop that scans the text of a statement copies the text piece by piece, and notes how
many bytes it has copied when it meets the first colon outside of brackets.  What is left
out of the text, comments and stray brackets, does not count.

The place stays true to the text with every piece (`Scanned.step_leaf`): once the statement
ends the text is cut there, between two characters, into what the reader takes for the
property and, behind the colon, the value (`Scanned.exists_cut_of_close`).
-/

set_option autoImplicit false

namespace CssPruning

open TokenTree

namespace Text

/-- How many bytes a text takes up. -/
def byteLength : List Char → Nat
  | [] => 0
  | c :: cs => c.utf8Size + byteLength cs

/-- A text cut behind some bytes, unless that place is inside of a character or beyond the
text. -/
def cutAt (n : Nat) : List Char → Option (List Char × List Char)
  | [] => if n = 0 then some ([], []) else none
  | c :: cs =>
    if n = 0 then some ([], c :: cs)
    else if c.utf8Size ≤ n then Prod.map (c :: ·) id <$> cutAt (n - c.utf8Size) cs
    else none

@[simp] theorem byteLength_append (cs ds : List Char) :
    byteLength (cs ++ ds) = byteLength cs + byteLength ds := by
  induction cs with
  | nil => rw [List.nil_append, byteLength, Nat.zero_add]
  | cons c cs ih => rw [List.cons_append, byteLength, byteLength, ih, Nat.add_assoc]

/-- The end of a text's front is a place to cut at. -/
theorem cutAt_byteLength (cs ds : List Char) :
    cutAt (byteLength cs) (cs ++ ds) = some (cs, ds) := by
  induction cs with
  | nil => cases ds <;> rfl
  | cons c cs ih =>
    have hsize := c.utf8Size_pos
    rw [byteLength, List.cons_append, cutAt, if_neg (by omega), if_pos (by omega),
      Nat.add_sub_cancel_left, ih]
    rfl

end Text

open Text

namespace Sheet

/-- What a scan has copied so far, and the place of its first colon. -/
structure Scanned where
  text : List Char
  colon : Option Nat
  deriving DecidableEq, Repr

namespace Scanned

def push (s : Scanned) (cs : List Char) : Scanned := ⟨s.text ++ cs, s.colon⟩

/-- Only the first colon is noted. -/
def pushColon (s : Scanned) : Scanned :=
  ⟨s.text ++ [':'], some (s.colon.getD (byteLength s.text))⟩

/-- What the loop does at a tree. -/
def step (s : Scanned) : TokenTree → Except Fault Scanned
  | leaf l =>
    match l.token with
    | .closing .curly => .ok s
    | .comment _ => if l.commentCloses then .ok s else .error ⟨.unclosedComment, l.start⟩
    | .badString => .error ⟨.unclosedString, l.start⟩
    | .string _ =>
      if l.stringCloses then .ok (s.push l.source) else .error ⟨.unclosedString, l.start⟩
    | .colon => .ok s.pushColon
    | _ => .ok (s.push l.source)
  | block opener contents closer =>
    if closer.isSome then .ok (s.push (TokenTree.block opener contents closer).source)
    else .error ⟨.unclosedParenthesis, opener.start⟩

/-- The loop, over the trees in front of what ends the statement. -/
def scan (s : Scanned) (ts : List TokenTree) : Except Fault Scanned := ts.foldlM step s

/-- The text cut at its colon, unless that is no place to cut at or there is no colon. -/
def cut (s : Scanned) : Option Phrase :=
  match s.colon with
  | none => some ⟨s.text, none⟩
  | some n =>
    match cutAt n s.text with
    | some (head, ':' :: value) => some ⟨head, some value⟩
    | _ => none

/-- What has been scanned in front of a phrase, and the phrase. -/
def andThen (s : Scanned) (p : Phrase) : Scanned :=
  ⟨s.text ++ p.text, s.colon <|> p.tail.map fun _ => byteLength (s.text ++ p.head)⟩

theorem andThen_nil (s : Scanned) : s.andThen ⟨[], none⟩ = s := by
  obtain ⟨text, colon⟩ := s
  cases colon <;> simp [andThen, Phrase.text]

theorem andThen_comp_behind (s : Scanned) (cs : List Char) :
    s.andThen ∘ Phrase.behind cs = (s.push cs).andThen := by
  funext ⟨head, tail⟩
  cases tail <;> simp [andThen, push, Phrase.behind, Phrase.text]

theorem andThen_comp_behindColon (s : Scanned) :
    s.andThen ∘ Phrase.behindColon = s.pushColon.andThen := by
  obtain ⟨text, colon⟩ := s
  funext p
  cases colon <;> simp [andThen, pushColon, Phrase.behindColon, Phrase.text]

/-- At a lexeme the place of the colon stays true to the text. -/
theorem step_leaf (s : Scanned) (l : Lexeme) :
    (∃ f, Phrase.putLeaf l = .error f ∧ s.step (leaf l) = .error f) ∨
      ∃ put s', Phrase.putLeaf l = .ok put ∧ s.step (leaf l) = .ok s' ∧
        s.andThen ∘ put = s'.andThen := by
  fun_cases Phrase.putLeaf l with
  | case1 htoken => exact .inr ⟨_, s, rfl, by rw [step, htoken], rfl⟩
  | case2 text htoken hcloses =>
    exact .inr ⟨_, s, rfl, by simp only [step, htoken, if_pos hcloses], rfl⟩
  | case3 text htoken hcloses =>
    exact .inl ⟨_, rfl, by simp only [step, htoken, if_neg hcloses]⟩
  | case4 htoken => exact .inl ⟨_, rfl, by rw [step, htoken]⟩
  | case5 text htoken hcloses =>
    exact .inr ⟨_, s.push l.source, rfl, by simp only [step, htoken, if_pos hcloses],
      s.andThen_comp_behind l.source⟩
  | case6 text htoken hcloses =>
    exact .inl ⟨_, rfl, by simp only [step, htoken, if_neg hcloses]⟩
  | case7 htoken =>
    exact .inr ⟨_, s.pushColon, rfl, by rw [step, htoken], s.andThen_comp_behindColon⟩
  | case8 =>
    exact .inr ⟨_, s.push l.source, rfl, by simp only [step], s.andThen_comp_behind l.source⟩

/-- What the loop has copied and noted is what the phrase of the trees says. -/
theorem scan_eq (s : Scanned) (ts : List TokenTree) :
    s.scan ts = s.andThen <$> Phrase.ofTrees ts := by
  induction ts generalizing s with
  | nil => exact congrArg Except.ok s.andThen_nil.symm
  | cons t ts ih =>
    rw [scan, List.foldlM_cons]
    cases t with
    | leaf l =>
      rw [Phrase.ofTrees_cons_leaf]
      obtain ⟨f, hput, hstep⟩ | ⟨put, s', hput, hstep, hand⟩ := s.step_leaf l
      · rw [hput, hstep]
        rfl
      · rw [hput, hstep]
        change s'.scan ts = s.andThen <$> (put <$> Phrase.ofTrees ts)
        rw [ih, ← comp_map, hand]
    | block opener contents closer =>
      rw [Phrase.ofTrees, step]
      split
      · change (s.push _).scan ts = s.andThen <$> (Phrase.behind _ <$> Phrase.ofTrees ts)
        rw [ih, ← comp_map, andThen_comp_behind]
      · rfl

/-- The text that a scan has copied is cut at the first colon into what the reader takes for
the property and the value. -/
theorem exists_cut_of_scan {ts : List TokenTree} {s : Scanned}
    (h : scan ⟨[], none⟩ ts = .ok s) :
    ∃ phrase, s.cut = some phrase ∧ Phrase.ofTrees ts = .ok phrase := by
  rw [scan_eq] at h
  obtain ⟨⟨head, tail⟩, hphrase, rfl⟩ := map_eq_ok h
  refine ⟨_, ?_, hphrase⟩
  cases tail with
  | none => rfl
  | some value => simp [andThen, cut, Phrase.text, cutAt_byteLength]

/-- The node of a statement without a block is made of the two parts that its text is cut
into. -/
theorem exists_cut_of_close {p : Pending} {node : Option Node} (h : p.close = .ok node) :
    ∃ s phrase, scan ⟨[], none⟩ p.trees.reverse = .ok s ∧ s.cut = some phrase ∧
      Pending.finish p.opening phrase = .ok node := by
  rw [Pending.close_eq] at h
  obtain ⟨phrase, hphrase, hfinish⟩ := bind_eq_ok h
  have hscan := scan_eq ⟨[], none⟩ p.trees.reverse
  rw [hphrase] at hscan
  obtain ⟨phrase', hcut, hphrase'⟩ := exists_cut_of_scan hscan
  cases hphrase.symm.trans hphrase'
  exact ⟨_, phrase, hscan, hcut, hfinish⟩

end Scanned

end Sheet

end CssPruning
