import CssPruning.Proofs.Sheet.Reading

/-!
# Values of forests

The components of forests in a row are those of the one and then those of the
other (`ofForest_append`).  They are a matter of the tokens of the forest and of
their sources (`ofForest_mapAll_eq_ok_iff`), so they do not hang on where the text
of the forest starts (`ofForest_allMoved`).
-/

set_option autoImplicit false

namespace CssPruning.Component

open TokenTree Sheet

theorem ofForest_append (ts us : List TokenTree) :
    ofForest (ts ++ us) = (do
      let v ← ofForest ts
      let w ← ofForest us
      return v ++ w) := by
  induction ts with
  | nil =>
    cases h : ofForest us with
    | error f => exact h
    | ok w => exact h
  | cons t ts ih =>
    rw [List.cons_append, ofForest, ofForest, ih]
    cases ofTree t with
    | error f => rfl
    | ok c =>
      cases ofForest ts with
      | error f => rfl
      | ok v =>
        cases ofForest us with
        | error f => rfl
        | ok w => exact congrArg Except.ok (List.append_assoc _ _ _).symm

/-- What is in front and what is behind spell the value together. -/
theorem ofForest_append_eq_ok {ts us : List TokenTree} {v w : Value} (h : ofForest ts = .ok v)
    (h' : ofForest us = .ok w) : ofForest (ts ++ us) = .ok (v ++ w) := by
  rw [ofForest_append, h, h']
  rfl

theorem ofForest_cons_eq_ok {t : TokenTree} {ts : List TokenTree} {c : Option Component}
    {v : Value} (h : ofTree t = .ok c) (h' : ofForest ts = .ok v) :
    ofForest (t :: ts) = .ok (c.toList ++ v) := by
  rw [ofForest, h, h']
  rfl

/-- A text that is kept as it stands is the source of a tree. -/
theorem eq_source_of_ofTree_raw {t : TokenTree} {text : String}
    (h : ofTree t = .ok (some (raw text))) : text = String.ofList t.source := by
  cases t with
  | leaf l =>
    have hsource : (leaf l).source = l.source := List.append_nil _
    rw [hsource]
    rw [ofTree, ofLexeme] at h
    cases htoken : l.token with
    | delim c =>
      rw [htoken] at h
      cases hsign : isSign c with
      | true => simp [hsign] at h
      | false => simpa [hsign] using h.symm
    | comment | string =>
      rw [htoken] at h
      simp only at h
      split at h <;> cases h
    | _ =>
      rw [htoken] at h
      first | cases h; rfl | cases h
  | block opener contents closer =>
    rw [ofTree] at h
    split at h
    · rename_i name _
      obtain ⟨arguments, -, h⟩ := bind_eq_ok h
      cases closer with
      | none => cases h
      | some closer =>
        have hcall : call name arguments.trim = raw text := Option.some.inj (Except.ok.inj h)
        unfold call at hcall
        split at hcall
        · split at hcall <;> cases hcall
        · cases hcall
    · obtain ⟨inner, -, h⟩ := bind_eq_ok h
      cases closer with
      | none => cases h
      | some closer => cases h
    · cases h
      rfl

theorem mem_source_of_raw_mem {ts : List TokenTree} {v : Value} {text : String} {c : Char}
    (h : ofForest ts = .ok v) (hraw : raw text ∈ v) (hc : c ∈ text.toList) :
    c ∈ ts.flatMap source := by
  induction ts generalizing v with
  | nil =>
    cases h
    cases hraw
  | cons t ts ih =>
    rw [ofForest] at h
    obtain ⟨c', hc', h⟩ := bind_eq_ok h
    obtain ⟨w, hw, h⟩ := bind_eq_ok h
    cases h
    rw [List.flatMap_cons, List.mem_append]
    rcases List.mem_append.1 hraw with hhead | htail
    · left
      rw [Option.mem_toList] at hhead
      rw [hhead] at hc'
      rwa [eq_source_of_ofTree_raw hc', String.toList_ofList] at hc
    · exact .inr (ih hw htail)

/-! ## Other lexemes in the same trees -/

/-- Steps in a row come to something if each of them does. -/
theorem toOption_bind {α β : Type} (x : Except Fault α) (g : α → Except Fault β) :
    (x >>= g).toOption = x.toOption >>= fun a => (g a).toOption := by
  cases x <;> rfl

theorem toOption_eq_some_iff {α : Type} {x : Except Fault α} {a : α} :
    x.toOption = some a ↔ x = .ok a := by
  cases x <;> simp [Except.toOption]

section

variable {f : Lexeme → Lexeme} (htoken : ∀ l, (f l).token = l.token)
  (hsource : ∀ l, (f l).source = l.source)

include htoken hsource

/-- The component of a lexeme is a matter of its token and its source. -/
theorem toOption_ofLexeme (l : Lexeme) : (ofLexeme (f l)).toOption = (ofLexeme l).toOption := by
  have hcomment : (f l).commentCloses = l.commentCloses := by
    rw [Lexeme.commentCloses, hsource, Lexeme.commentCloses]
  have hstring : (f l).stringCloses = l.stringCloses := by
    rw [Lexeme.stringCloses, hsource, Lexeme.stringCloses]
  rw [ofLexeme, ofLexeme, htoken, hsource, hcomment, hstring]
  cases l.token with
  | comment text => cases l.commentCloses <;> rfl
  | string text => cases l.stringCloses <;> rfl
  | _ => rfl

/-- The component of a block is a matter of its tokens and their sources, as soon as the
value inside is. -/
theorem toOption_ofTree_block {contents : List TokenTree}
    (hcontents : (ofForest (mapAll f contents)).toOption = (ofForest contents).toOption)
    (opener : Lexeme) (closer : Option Lexeme) :
    (ofTree (map f (block opener contents closer))).toOption =
      (ofTree (block opener contents closer)).toOption := by
  have hblock := source_map hsource (block opener contents closer)
  rw [map] at hblock ⊢
  rw [ofTree, ofTree, htoken, hblock]
  cases opener.token with
  | function name =>
    simp only [toOption_bind, hcontents]
    cases closer <;> rfl
  | opening b =>
    cases b with
    | round =>
      simp only [toOption_bind, hcontents]
      cases closer <;> rfl
    | square => rfl
    | curly => rfl
  | _ => rfl

/-- The value of a forest is a matter of its tokens and their sources. -/
theorem toOption_ofForest_mapAll (ts : List TokenTree) :
    (ofForest (mapAll f ts)).toOption = (ofForest ts).toOption := by
  induction ts using forestInduction with
  | nil => rfl
  | leaf l ts ih =>
    rw [mapAll, ofForest, ofForest, toOption_bind, toOption_bind, map, ofTree, ofTree,
      toOption_ofLexeme htoken hsource]
    simp only [toOption_bind, ih]
  | block opener contents closer ts ihc ih =>
    rw [mapAll, ofForest, ofForest, toOption_bind, toOption_bind,
      toOption_ofTree_block htoken hsource ihc]
    simp only [toOption_bind, ih]

theorem ofTree_map_eq_ok_iff {t : TokenTree} {c : Option Component} :
    ofTree (map f t) = .ok c ↔ ofTree t = .ok c := by
  rw [← toOption_eq_some_iff, ← toOption_eq_some_iff]
  cases t with
  | leaf l => rw [map, ofTree, ofTree, toOption_ofLexeme htoken hsource]
  | block opener contents closer =>
    rw [toOption_ofTree_block htoken hsource (toOption_ofForest_mapAll htoken hsource contents)]

theorem ofForest_mapAll_eq_ok_iff {ts : List TokenTree} {v : Value} :
    ofForest (mapAll f ts) = .ok v ↔ ofForest ts = .ok v := by
  rw [← toOption_eq_some_iff, ← toOption_eq_some_iff, toOption_ofForest_mapAll htoken hsource]

end

/-- The value of a forest does not hang on where its text starts. -/
theorem ofForest_allMoved {ts : List TokenTree} {v : Value} (k : Nat) (h : ofForest ts = .ok v) :
    ofForest (allMoved k ts) = .ok v := by
  rw [allMoved_eq_mapAll]
  exact (ofForest_mapAll_eq_ok_iff (Lexeme.token_moved k) (Lexeme.source_moved k)).2 h

end CssPruning.Component

namespace CssPruning.Value

open TokenTree Sheet

theorem parse_eq_ok_iff {text : String} {v : Value} :
    parse text = .ok v ↔ read text.toList = .ok v := by
  rw [parse]
  cases read text.toList with
  | error f => constructor <;> intro h <;> cases h
  | ok w => exact ⟨fun h => by cases h; rfl, fun h => by cases h; rfl⟩

theorem dropEndBlanks_sublist (v : Value) : v.dropEndBlanks.Sublist v := by
  rw [dropEndBlanks, ← List.reverse_sublist, List.reverse_reverse]
  exact List.dropWhile_sublist _

theorem trim_sublist_dropEndBlanks (v : Value) : v.trim.Sublist v.dropEndBlanks := by
  rw [trim]
  split
  · rename_i rest hrest
    rw [hrest]
    exact List.sublist_cons_self _ _
  · exact List.Sublist.refl _

theorem trim_sublist (v : Value) : v.trim.Sublist v :=
  v.trim_sublist_dropEndBlanks.trans v.dropEndBlanks_sublist

theorem mem_of_mem_trim {v : Value} {c : Component} (h : c ∈ v.trim) : c ∈ v :=
  v.trim_sublist.subset h

/-- A text that a value keeps as it stands is written in the text of the value. -/
theorem mem_of_raw_mem_read {cs : List Char} {v : Value} {text : String} {c : Char}
    (h : Value.read cs = .ok v) (hraw : Component.raw text ∈ v) (hc : c ∈ text.toList) :
    c ∈ cs := by
  obtain ⟨w, hw, rfl⟩ := map_eq_ok h
  have := Component.mem_source_of_raw_mem hw (mem_of_mem_trim hraw) hc
  rwa [source_forest] at this

end CssPruning.Value
