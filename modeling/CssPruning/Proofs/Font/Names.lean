import CssPruning.Font.Names

/-!
# The names in a value

Names are gathered from left to right with the words of an unfinished name at
hand.  Here is what that comes to: a component that is neither a blank nor a word
ends a name, so that a list names what its parts name, in order
(`names_eq_flatMap_listParts`), and blanks count for nothing.

A literal name, a string or some words, is named whatever the variables stand
for (`Literal.names_eq`).
-/

set_option autoImplicit false

namespace CssPruning.Font

variable {vs : Variables}

/-! ## Blanks and separators -/

/-- The component ends the name that stands before it: it is no blank, and no
word unless it refers to a variable. -/
def isSeparator : Component → Bool
  | .blank => false
  | .ident word => isReference word
  | _ => true

theorem namesFrom_blank (words : List String) (v : Value) :
    namesFrom vs words (.blank :: v) = namesFrom vs words v := by
  rw [namesFrom]

theorem namesFrom_word {word : String} (h : isReference word = false) (words : List String)
    (v : Value) :
    namesFrom vs words (.ident word :: v) = namesFrom vs (stripQuotes word :: words) v := by
  rw [namesFrom, if_neg (by rw [h]; decide)]

theorem namesFrom_separator {c : Component} (h : isSeparator c = true) (words : List String) (v : Value) :
    namesFrom vs words (c :: v) = joinWords words ++ componentNames vs c ++ names vs v := by
  cases c with
  | blank => cases h
  | ident word => rw [namesFrom, if_pos (show isReference word = true from h)]; rfl
  | _ => rfl

/-- What stands behind a separator does not hang on what stands before it. -/
theorem namesFrom_append_cons {c : Component} (h : isSeparator c = true) (words : List String)
    (v w : Value) :
    namesFrom vs words (v ++ c :: w) =
      namesFrom vs words v ++ componentNames vs c ++ names vs w := by
  induction v generalizing words with
  | nil => exact namesFrom_separator h words w
  | cons d v ih =>
    rw [List.cons_append]
    cases hd : isSeparator d with
    | true =>
      rw [namesFrom_separator hd, namesFrom_separator hd, names, names, ih]
      simp only [List.append_assoc]
    | false =>
      cases d with
      | blank => rw [namesFrom_blank, namesFrom_blank, ih]
      | ident word => rw [namesFrom_word hd, namesFrom_word hd, ih]
      | _ => cases hd

/-- Blanks count for nothing. -/
theorem namesFrom_filter_blank (words : List String) (v : Value) :
    namesFrom vs words (v.filter fun c => !c.isBlank) = namesFrom vs words v := by
  induction v generalizing words with
  | nil => rfl
  | cons c v ih =>
    cases hc : isSeparator c with
    | true =>
      rw [List.filter_cons_of_pos (by cases c <;> first | rfl | cases hc)]
      rw [namesFrom_separator hc, namesFrom_separator hc, names, names, ih]
    | false =>
      cases c with
      | blank => rw [List.filter_cons_of_neg (by decide), namesFrom_blank, ih]
      | ident word =>
        rw [List.filter_cons_of_pos rfl, namesFrom_word hc, namesFrom_word hc, ih]
      | _ => cases hc

/-! ## The parts of a list -/

/-- The component is the comma between the parts of a list. -/
def isComma : Component → Bool
  | .operator "," => true
  | _ => false

/-- The parts of a value between its commas. -/
def listParts : Value → List Value
  | [] => [[]]
  | c :: v =>
    if isComma c then [] :: listParts v
    else
      match listParts v with
      | p :: ps => (c :: p) :: ps
      | [] => [[c]]

theorem eq_comma_of_isComma {c : Component} (h : isComma c = true) : c = .comma := by
  unfold isComma at h
  split at h
  · rfl
  · cases h

/-- There is a first part, and the value is that part, or goes on with a comma and
the other parts. -/
theorem exists_listParts (v : Value) :
    ∃ p ps, listParts v = p :: ps ∧
      ((v = p ∧ ps = []) ∨ ∃ w, v = p ++ .comma :: w ∧ ps = listParts w) := by
  induction v with
  | nil => exact ⟨[], [], rfl, .inl ⟨rfl, rfl⟩⟩
  | cons c v ih =>
    rw [listParts]
    cases hc : isComma c with
    | true => exact ⟨[], listParts v, rfl, .inr ⟨v, by rw [eq_comma_of_isComma hc]; rfl, rfl⟩⟩
    | false =>
      obtain ⟨p, ps, hv, hcut⟩ := ih
      refine ⟨c :: p, ps, by rw [hv]; rfl, ?_⟩
      rcases hcut with ⟨hp, hps⟩ | ⟨w, hw, hps⟩
      · exact .inl ⟨by rw [hp], hps⟩
      · exact .inr ⟨w, by rw [hw]; rfl, hps⟩

/-- A list names what its parts name, in order. -/
theorem names_eq_flatMap_listParts (vs : Variables) (v : Value) :
    names vs v = (listParts v).flatMap (names vs) := by
  obtain ⟨p, ps, hparts, hcut⟩ := exists_listParts v
  rw [hparts, List.flatMap_cons]
  rcases hcut with ⟨rfl, rfl⟩ | ⟨w, rfl, rfl⟩
  · rw [List.flatMap_nil, List.append_nil]
  · rw [← names_eq_flatMap_listParts vs w, names, namesFrom_append_cons rfl]
    -- a comma names nothing itself
    exact congrArg (· ++ names vs w) (List.append_nil _)
termination_by v.length
decreasing_by simp_all; omega

/-! ## Literal names -/

/-- The word stands for itself: it refers to no variable and has no quotes. -/
def IsPlain (word : String) : Prop :=
  isReference word = false ∧ '"' ∉ word.toList ∧ '\'' ∉ word.toList

instance (word : String) : Decidable (IsPlain word) :=
  inferInstanceAs (Decidable (_ ∧ _ ∧ _))

/-- But for blanks, the value is one string or some plain words, and that is the
name, the words with single spaces between them. -/
def Literal (v : Value) (name : String) : Prop :=
  v.filter (fun c => !c.isBlank) = [.string name] ∨
    ∃ words : List String, words ≠ [] ∧ (∀ w ∈ words, IsPlain w) ∧
      v.filter (fun c => !c.isBlank) = words.map .ident ∧ name = " ".intercalate words

theorem stripQuotes_of_isPlain {word : String} (h : IsPlain word) : stripQuotes word = word := by
  obtain ⟨-, hdouble, hsingle⟩ := h
  unfold stripQuotes
  split
  · rename_i c rest hword
    rw [hword, List.mem_cons, not_or] at hdouble hsingle
    rw [if_neg]
    intro hquoted
    rw [Bool.and_eq_true, Bool.or_eq_true, beq_iff_eq, beq_iff_eq] at hquoted
    rcases hquoted.1 with h | h
    · exact hdouble.1 h.symm
    · exact hsingle.1 h.symm
  · rfl

/-- Some plain words lengthen the unfinished name. -/
theorem namesFrom_map_ident {words : List String} (h : ∀ w ∈ words, IsPlain w)
    (before : List String) :
    namesFrom vs before (words.map .ident) = joinWords (words.reverse ++ before) := by
  induction words generalizing before with
  | nil => rfl
  | cons w words ih =>
    rw [List.forall_mem_cons] at h
    rw [List.map_cons, namesFrom_word h.1.1, stripQuotes_of_isPlain h.1, ih h.2]
    rw [List.reverse_cons, List.append_assoc, List.singleton_append]

/-- A literal name is the one that is named. -/
theorem Literal.names_eq {v : Value} {name : String} (h : Literal v name) (vs : Variables) :
    names vs v = [name] := by
  rw [names, ← namesFrom_filter_blank]
  rcases h with hv | ⟨words, hne, hplain, hv, hname⟩
  · rw [hv]
    rfl
  · rw [hv, namesFrom_map_ident hplain, List.append_nil, joinWords, if_neg (by simpa using hne),
      List.reverse_reverse, ← hname]

/-- A literal part of a list is among the names of the list. -/
theorem mem_names_of_mem_listParts {v part : Value} {name : String} (hpart : part ∈ listParts v)
    (h : Literal part name) (vs : Variables) : name ∈ names vs v := by
  rw [names_eq_flatMap_listParts, List.mem_flatMap]
  refine ⟨part, hpart, ?_⟩
  rw [h.names_eq vs]
  exact List.mem_singleton_self name

end CssPruning.Font
