import CssPruning.Proofs.Token.Word
import CssPruning.Proofs.Value.Forest

/-!
# Texts that spell values

A text spells a value if it is a piece whose trees are read as the components of
the value, and can stand inside of a statement as they are (`SpellsValue`).  Texts
in a row spell their values in a row (`SpellsValue.append`).  Each kind of component
has a text of its own: a word, a number, a string, a blank, a comma, and a function
around a text that spells its arguments.
-/

set_option autoImplicit false

namespace CssPruning

open Token TokenTree Sheet

namespace TokenTree

/-! ## Trees inside of a statement -/

/-- A token that is a component of a value and no part of a bracket. -/
def isPart : Token → Bool
  | .blank | .ident _ | .string _ | .number | .comma | .delim _ => true
  | _ => false

/-- The tree is a component of a value: a token that looks closed, or a function. -/
inductive Inner : TokenTree → Prop where
  | leaf {l : Lexeme} : isPart l.token = true →
      (∀ text, l.token = .string text → l.stringCloses = true) → Inner (leaf l)
  | function {opener closer : Lexeme} {name : String} {contents : List TokenTree} :
      opener.token = .function name → AllWhole .round contents →
      closer.token = .closing .round → Inner (block opener contents (some closer))

theorem Inner.of_leaf {l : Lexeme} (hpart : isPart l.token = true)
    (hstring : ∀ text, l.token ≠ .string text) : Inner (TokenTree.leaf l) :=
  .leaf hpart fun text htext => absurd htext (hstring text)

/-- The trees are components of a value. -/
def AllInner (ts : List TokenTree) : Prop := ∀ t ∈ ts, Inner t

theorem allInner_append {ts us : List TokenTree} :
    AllInner (ts ++ us) ↔ AllInner ts ∧ AllInner us := List.forall_mem_append

theorem AllInner.allMoved {ts : List TokenTree} (h : AllInner ts) (k : Nat) :
    AllInner (allMoved k ts) := by
  induction ts with
  | nil => exact List.forall_mem_nil _
  | cons t ts ih =>
    obtain ⟨ht, hts⟩ := List.forall_mem_cons.1 h
    refine List.forall_mem_cons.2 ⟨?_, ih hts⟩
    cases ht with
    | leaf hpart hcloses => exact .leaf hpart hcloses
    | function hopener hcontents hcloser =>
      exact .function hopener (allWhole_allMoved hcontents) hcloser

/-- Components of a value can stand inside of any bracket. -/
theorem AllInner.allWhole {ts : List TokenTree} (h : AllInner ts) (b : Bracket) :
    AllWhole b ts := by
  rw [allWhole_iff]
  intro t ht
  cases h t ht with
  | @leaf l hpart _ =>
    have hopens : l.token.opens = none := by
      revert hpart
      cases l.token <;> simp [isPart, Token.opens]
    refine ⟨hopens, ?_⟩
    intro hcloses
    rw [Closes] at hcloses
    rw [hcloses] at hpart
    cases hpart
  | function hopener hcontents hcloser =>
    exact ⟨⟨.round, _, by rw [hopener]; rfl, hcontents, rfl, hcloser⟩, id⟩

/-- Components of a value add their text to a phrase. -/
theorem AllInner.ofTrees_append {ts : List TokenTree} (h : AllInner ts) (us : List TokenTree) :
    Phrase.ofTrees (ts ++ us) = Phrase.behind (ts.flatMap source) <$> Phrase.ofTrees us := by
  have hbehind : ∀ (cs : List Char) (ds : List Char) (x : Except Fault Phrase),
      Phrase.behind cs <$> Phrase.behind ds <$> x = Phrase.behind (cs ++ ds) <$> x := by
    intro cs ds x
    cases x with
    | error f => rfl
    | ok p => simp [Phrase.behind, Functor.map, Except.map]
  induction ts with
  | nil =>
    rw [List.nil_append]
    cases Phrase.ofTrees us <;> rfl
  | cons t ts ih =>
    obtain ⟨ht, hts⟩ := List.forall_mem_cons.1 h
    rw [List.cons_append, List.flatMap_cons, ← hbehind, ← ih hts]
    cases ht with
    | @leaf l hpart hcloses =>
      have hsource : (TokenTree.leaf l).source = l.source := by simp [source, lexemes]
      rw [hsource, Phrase.ofTrees]
      cases htoken : l.token with
      | string text => exact if_pos (hcloses text htoken)
      | closing b => rw [htoken] at hpart; cases hpart
      | comment text => rw [htoken] at hpart; cases hpart
      | badString => rw [htoken] at hpart; cases hpart
      | colon => rw [htoken] at hpart; cases hpart
      | _ => rfl
    | function => exact if_pos rfl

/-- The phrase of some components has no colon. -/
theorem AllInner.ofTrees {ts : List TokenTree} (h : AllInner ts) :
    Phrase.ofTrees ts = .ok ⟨ts.flatMap source, none⟩ := by
  have hnil := h.ofTrees_append []
  rw [List.append_nil] at hnil
  rw [hnil]
  simp [Phrase.ofTrees, Phrase.behind, Functor.map, Except.map]

end TokenTree

/-! ## Texts of values -/

/-- The text is read as the components of the value in front of some texts. -/
def SpellsValue (follows : List Char → Prop) (cs : List Char) (v : Value) : Prop :=
  ∃ ts, Piece follows cs ts ∧ AllInner ts ∧ Component.ofForest ts = .ok v

namespace SpellsValue

variable {follows follows' : List Char → Prop} {cs cs' : List Char} {v w : Value}

theorem nil : SpellsValue follows [] [] := ⟨[], Piece.nil, List.forall_mem_nil _, rfl⟩

theorem mono (h : SpellsValue follows cs v) (hfollows : ∀ ds, follows' ds → follows ds) :
    SpellsValue follows' cs v := by
  obtain ⟨ts, hpiece, hinner, hvalue⟩ := h
  exact ⟨ts, hpiece.mono hfollows, hinner, hvalue⟩

/-- One value and then another. -/
theorem append (h : SpellsValue follows cs v) (h' : SpellsValue follows' cs' w)
    (hfollows : ∀ ds, follows' ds → follows (cs' ++ ds)) :
    SpellsValue follows' (cs ++ cs') (v ++ w) := by
  obtain ⟨ts, hpiece, hinner, hvalue⟩ := h
  obtain ⟨us, hpiece', hinner', hvalue'⟩ := h'
  refine ⟨_, hpiece.append hpiece' hfollows, ?_, ?_⟩
  · exact allInner_append.2 ⟨hinner, hinner'.allMoved _⟩
  · exact Component.ofForest_append_eq_ok hvalue (Component.ofForest_allMoved _ hvalue')

/-- A text of one component that is no string. -/
theorem of_leaf {l : Lexeme} {c : Component} (hpiece : Piece follows cs [leaf l])
    (hpart : isPart l.token = true) (hstring : ∀ text, l.token ≠ .string text)
    (hc : Component.ofLexeme l = .ok (some c)) : SpellsValue follows cs [c] := by
  refine ⟨_, hpiece, ?_, Component.ofForest_cons_eq_ok (t := leaf l) hc rfl⟩
  exact List.forall_mem_singleton.2 (.of_leaf hpart hstring)

theorem ident (h : isWord cs = true) : SpellsValue Breaks cs [.ident (String.ofList cs)] :=
  of_leaf (Piece.word h) rfl (fun _ => Token.noConfusion) rfl

theorem number (hne : cs ≠ []) (h : ∀ c ∈ cs, c.isDigit = true) :
    SpellsValue Breaks cs [.number (String.ofList cs)] :=
  of_leaf (Piece.number hne h) rfl (fun _ => Token.noConfusion) rfl

theorem blank : SpellsValue Solid [' '] [.blank] :=
  of_leaf Piece.space rfl (fun _ => Token.noConfusion) rfl

theorem comma : SpellsValue Anything [','] [.comma] :=
  of_leaf (Piece.mark (by decide)) rfl (fun _ => Token.noConfusion) rfl

/-- The mark in front of `important` is raw text. -/
theorem bang : SpellsValue Anything ['!'] [.raw "!"] :=
  of_leaf (Piece.mark (by decide)) rfl (fun _ => Token.noConfusion) rfl

theorem string (h : ∀ c ∈ cs, isStringChar c = true) :
    SpellsValue Anything ('"' :: cs.flatMap Component.escaped ++ ['"'])
      [.string (String.ofList cs)] := by
  have hcloses : ∀ start, (Lexeme.mk (.string (String.ofList cs))
      ('"' :: (cs.flatMap Component.escaped ++ ['"'])) start).stringCloses = true := by
    intro start
    rw [Lexeme.stringCloses, ← List.cons_append, List.getLast?_concat]
    simp
  refine ⟨_, Piece.string h, ?_, ?_⟩
  · exact List.forall_mem_singleton.2 (.leaf rfl fun text _ => hcloses 0)
  · exact Component.ofForest_cons_eq_ok (c := some _) (if_pos (hcloses 0)) rfl

/-- A function around the text of its arguments. -/
theorem function (h : SpellsValue Breaks cs' v) (hname : isSimpleName cs = true)
    (hurl : Text.sameAscii (String.ofList cs) "url" = false) (hv : v.trim = v) :
    SpellsValue Anything (cs ++ '(' :: cs' ++ [')']) [.function (String.ofList cs) v] := by
  obtain ⟨ts, hpiece, hinner, hvalue⟩ := h
  have hround := hinner.allWhole .round
  refine ⟨_, Piece.function hname hurl hpiece hround, ?_, ?_⟩
  · exact List.forall_mem_singleton.2 (.function rfl (allWhole_allMoved hround) rfl)
  · have hcall : Component.call (String.ofList cs) v = .function (String.ofList cs) v := by
      unfold Component.call
      split
      · rw [hurl]
        rfl
      · rfl
    refine Component.ofForest_cons_eq_ok (c := some (.function (String.ofList cs) v)) ?_ rfl
    rw [Component.ofTree]
    simp only [Component.ofForest_allMoved _ hvalue, bind, Except.bind, hv, hcall]
    rfl

/-- A text that spells a value is read as it. -/
theorem read_eq (h : SpellsValue Breaks cs v) : Value.read cs = .ok v.trim := by
  obtain ⟨ts, hpiece, -, hvalue⟩ := h
  rw [Value.read, hpiece.forest_eq (fun _ hc => nomatch hc), hvalue]
  rfl

end SpellsValue

end CssPruning
