import CssPruning.Proofs.Value.Simple
import CssPruning.Proofs.Value.Uncommented

/-!
# Blanks at the ends of values

A value has levels: itself, and the values inside of its functions and parentheses
(`Value.levels`).  The rows of its text are the forest of the text and what stands in
the brackets of such functions and parentheses (`TokenTree.rows`).  Each level is
trimmed when its row has been read: of all blanks at its end, and of one in front
(`Value.endsBlank_trim`, `Value.startsBlank_trim`).  Blanks with a comment between them
are two, so as many levels start with a blank as there are rows that start with two
(`Value.levels_endInParts_iff`).
-/

set_option autoImplicit false

namespace CssPruning

open TokenTree Sheet

/-- Two members of a kind stand in front, and one of no such kind behind them. -/
def startsTwice {α : Type} (p : α → Bool) : List α → Bool
  | x :: y :: rest => p x && p y && rest.any fun z => !p z
  | _ => false

theorem startsTwice_map {α β : Type} (p : β → Bool) (f : α → β) (l : List α) :
    startsTwice p (l.map f) = startsTwice (p ∘ f) l := by
  rcases l with - | ⟨x, - | ⟨y, l⟩⟩
  · rfl
  · rfl
  · rw [List.map_cons, List.map_cons, startsTwice, startsTwice, List.any_map]
    rfl

/-- Members of the kind alone do not count. -/
theorem startsTwice_of_forall {α : Type} {p : α → Bool} {l : List α} (h : ∀ x ∈ l, p x = true) :
    startsTwice p l = false := by
  rcases l with - | ⟨x, - | ⟨y, l⟩⟩
  · rfl
  · rfl
  · have hrest : (l.any fun z => !p z) = false := by
      rw [List.any_eq_false]
      intro z hz
      rw [h z (List.mem_cons_of_mem x (List.mem_cons_of_mem y hz))]
      exact Bool.false_ne_true
    rw [startsTwice, hrest, Bool.and_false]

theorem startsTwice_cons_of_neg {α : Type} {p : α → Bool} {x : α} (h : p x = false) (l : List α) :
    startsTwice p (x :: l) = false := by
  cases l with
  | nil => rfl
  | cons y l => rw [startsTwice, h, Bool.false_and, Bool.false_and]

/-! ## Trimming -/

namespace Value

/-- A blank stands in front. -/
def startsBlank (v : Value) : Bool := v.head?.any Component.isBlank

/-- A blank stands at the end. -/
def endsBlank (v : Value) : Bool := v.getLast?.any Component.isBlank

/-- What is dropped at the end is blanks. -/
theorem exists_dropEndBlanks_append (v : Value) :
    ∃ ends : Value, (∀ c ∈ ends, c.isBlank = true) ∧ v = v.dropEndBlanks ++ ends := by
  refine ⟨(v.reverse.takeWhile Component.isBlank).reverse, fun c hc => ?_, ?_⟩
  · exact List.all_eq_true.1 List.all_takeWhile c (List.mem_reverse.1 hc)
  · rw [dropEndBlanks, ← List.reverse_append, List.takeWhile_append_dropWhile, List.reverse_reverse]

theorem endsBlank_dropEndBlanks (v : Value) : v.dropEndBlanks.endsBlank = false := by
  rw [endsBlank, dropEndBlanks, List.getLast?_reverse]
  cases h : (v.reverse.dropWhile Component.isBlank).head? with
  | none => rfl
  | some c =>
    have hnot := List.head?_dropWhile_not Component.isBlank v.reverse
    rw [h] at hnot
    simpa using hnot

/-- No blank is left at the end. -/
theorem endsBlank_trim (v : Value) : v.trim.endsBlank = false := by
  have h := v.endsBlank_dropEndBlanks
  rw [trim]
  split
  · rename_i rest hrest
    rw [hrest] at h
    cases rest with
    | nil => rfl
    | cons c rest => rwa [endsBlank, List.getLast?_cons_cons] at h
  · exact h

/-- One blank in front is dropped, and a second one is not. -/
theorem startsBlank_trim (v : Value) : v.trim.startsBlank = startsTwice Component.isBlank v := by
  obtain ⟨ends, hends, hv⟩ := v.exists_dropEndBlanks_append
  have hlast := v.endsBlank_dropEndBlanks
  rw [trim]
  generalize v.dropEndBlanks = d at hv hlast ⊢
  subst hv
  cases d with
  | nil => exact (startsTwice_of_forall hends).symm
  | cons c d =>
    by_cases hc : c.isBlank = true
    · obtain rfl : c = .blank := by
        cases c <;> first | rfl | cases hc
      cases d with
      | nil => cases hlast
      | cons e d =>
        -- behind two blanks in front the last component is none
        have hrest : e.isBlank = true → ((d ++ ends).any fun z => !z.isBlank) = true := by
          intro he
          cases hd : d.getLast? with
          | none =>
            obtain rfl := List.getLast?_eq_none_iff.1 hd
            rw [endsBlank, List.getLast?_cons_cons] at hlast
            exact absurd (he.symm.trans hlast) Bool.true_eq_false.mp
          | some z =>
            rw [endsBlank, List.getLast?_cons_cons, List.getLast?_cons, hd] at hlast
            rw [List.any_append, Bool.or_eq_true, List.any_eq_true]
            exact .inl ⟨z, List.mem_of_getLast? hd, by simpa using hlast⟩
        change e.isBlank = (true && e.isBlank && (d ++ ends).any fun z => !z.isBlank)
        cases he : e.isBlank with
        | false => rfl
        | true => rw [hrest he]; rfl
    · rw [Bool.not_eq_true] at hc
      rw [List.cons_append, startsTwice_cons_of_neg hc]
      cases c <;> first | rfl | cases hc

end Value

/-! ## Levels of values and rows of trees -/

namespace Component

mutual

/-- The values inside of a component. -/
def inner : Component → List Value
  | .function _ arguments => arguments :: allInner arguments
  | .parentheses contents => contents :: allInner contents
  | _ => []
termination_by structural c => c

/-- The values inside of some components. -/
def allInner : List Component → List Value
  | [] => []
  | c :: cs => inner c ++ allInner cs
termination_by structural cs => cs

end

theorem allInner_append (v w : Value) : allInner (v ++ w) = allInner v ++ allInner w := by
  induction v with
  | nil => rfl
  | cons c v ih => rw [List.cons_append, allInner, allInner, ih, List.append_assoc]

theorem allInner_singleton (c : Component) : allInner [c] = c.inner :=
  List.append_nil _

theorem allInner_of_forall_isBlank {v : Value} (h : ∀ c ∈ v, c.isBlank = true) :
    allInner v = [] := by
  induction v with
  | nil => rfl
  | cons c v ih =>
    rw [List.forall_mem_cons] at h
    rw [allInner, ih h.2]
    cases c <;> first | rfl | cases h.1

/-- Nothing is inside of the blanks that are trimmed. -/
theorem allInner_trim (v : Value) : allInner v.trim = allInner v := by
  obtain ⟨ends, hends, hv⟩ := v.exists_dropEndBlanks_append
  have hdrop : allInner v.dropEndBlanks = allInner v := by
    rw [congrArg allInner hv, allInner_append, allInner_of_forall_isBlank hends, List.append_nil]
  rw [← hdrop, Value.trim]
  split
  · rename_i rest hrest
    rw [hrest]
    rfl
  · rfl

end Component

/-- The value and the values inside of it, at any depth. -/
def Value.levels (v : Value) : List Value := v :: Component.allInner v

namespace TokenTree

/-- The tree is a blank. -/
def isBlank : TokenTree → Bool
  | leaf l => l.token == .blank
  | block .. => false

mutual

/-- What stands in the brackets of a tree that is read inside, and of those in it. -/
def innerRows : TokenTree → List (List TokenTree)
  | leaf _ => []
  | block opener contents _ =>
    match opener.token with
    | .function _ | .opening .round => contents :: allInnerRows contents
    | _ => []
termination_by structural t => t

/-- What stands in the brackets of the trees of a row that are read inside. -/
def allInnerRows : List TokenTree → List (List TokenTree)
  | [] => []
  | t :: ts => innerRows t ++ allInnerRows ts
termination_by structural ts => ts

end

theorem innerRows_of_function {opener : Lexeme} {name : String} (h : opener.token = .function name)
    (contents : List TokenTree) (closer : Option Lexeme) :
    innerRows (block opener contents closer) = contents :: allInnerRows contents := by
  rw [innerRows, h]

theorem innerRows_of_round {opener : Lexeme} (h : opener.token = .opening .round)
    (contents : List TokenTree) (closer : Option Lexeme) :
    innerRows (block opener contents closer) = contents :: allInnerRows contents := by
  rw [innerRows, h]

theorem innerRows_of_ne {opener : Lexeme} (hfunction : ∀ name, opener.token ≠ .function name)
    (hround : opener.token ≠ .opening .round) (contents : List TokenTree)
    (closer : Option Lexeme) : innerRows (block opener contents closer) = [] := by
  rw [innerRows]
  split
  · rename_i name htoken
    exact absurd htoken (hfunction name)
  · rename_i htoken
    exact absurd htoken hround
  · rfl

/-- The forest, and what stands in the brackets that are read inside, at any depth. -/
def rows (ts : List TokenTree) : List (List TokenTree) := ts :: allInnerRows ts

/-- Comments apart, two blanks stand in front of the row, and something else behind
them. -/
def ledTwice (ts : List TokenTree) : Bool := startsTwice isBlank (uncommented ts)

end TokenTree

namespace Component

theorem isBlank_call (name : String) (arguments : Value) :
    (call name arguments).isBlank = false := by
  unfold call
  split
  · split <;> rfl
  · rfl

/-- A lexeme is read as nothing if it is a comment, and otherwise as a component with
nothing inside, a blank if the lexeme is. -/
theorem ofLexeme_cases {l : Lexeme} {c : Option Component} (h : ofLexeme l = .ok c) :
    (∃ text, l.token = .comment text ∧ c = none) ∨
      ∃ d, (∀ text, l.token ≠ .comment text) ∧ c = some d ∧ d.isBlank = (l.token == .blank) ∧
        d.inner = [] := by
  rw [ofLexeme] at h
  cases htoken : l.token with
  | comment text =>
    rw [htoken] at h
    dsimp only at h
    split at h <;> cases h
    exact .inl ⟨text, rfl, rfl⟩
  | string text =>
    rw [htoken] at h
    dsimp only at h
    split at h <;> cases h
    exact .inr ⟨_, fun _ => Token.noConfusion, rfl, rfl, rfl⟩
  | delim sign =>
    rw [htoken] at h
    cases h
    refine .inr ⟨_, fun _ => Token.noConfusion, rfl, ?_⟩
    cases isSign sign <;> exact ⟨rfl, rfl⟩
  | badString | badUrl =>
    rw [htoken] at h
    cases h
  | _ =>
    rw [htoken] at h
    cases h
    exact .inr ⟨_, fun _ => Token.noConfusion, rfl, rfl, rfl⟩

/-- What a tree is read as is a blank if the tree is, and nothing if it is a comment. -/
theorem map_isBlank_of_ofTree {t : TokenTree} {c : Option Component} (h : ofTree t = .ok c) :
    c.toList.map isBlank = (uncommented [t]).map TokenTree.isBlank := by
  cases t with
  | leaf l =>
    rcases ofLexeme_cases h with ⟨text, htoken, rfl⟩ | ⟨d, htoken, rfl, hblank, -⟩
    · rw [uncommented_cons_of_comment (isComment_of_token htoken)]
      rfl
    · rw [uncommented_cons (isComment_of_ne htoken)]
      exact congrArg (fun b => [b]) hblank
  | block opener contents closer =>
    rw [uncommented_cons rfl]
    rw [ofTree] at h
    split at h
    · obtain ⟨arguments, -, h⟩ := bind_eq_ok h
      cases closer with
      | none => cases h
      | some closer =>
        cases h
        exact congrArg (fun b => [b]) (isBlank_call _ _)
    · obtain ⟨contents, -, h⟩ := bind_eq_ok h
      cases closer <;> cases h
      rfl
    · cases h
      rfl

/-- The blanks among the components are the blanks of the row without its comments. -/
theorem map_isBlank_of_ofForest {ts : List TokenTree} {v : Value} (h : ofForest ts = .ok v) :
    v.map isBlank = (uncommented ts).map TokenTree.isBlank := by
  induction ts generalizing v with
  | nil =>
    cases h
    rfl
  | cons t ts ih =>
    rw [ofForest] at h
    obtain ⟨c, hc, h⟩ := bind_eq_ok h
    obtain ⟨w, hw, h⟩ := bind_eq_ok h
    cases h
    rw [List.map_append, map_isBlank_of_ofTree hc, ih hw, ← List.map_append]
    exact congrArg (List.map TokenTree.isBlank) (List.filter_append [t] ts).symm

/-- The level of a row starts with a blank if the row starts with two. -/
theorem startsBlank_trim_of_ofForest {ts : List TokenTree} {v : Value} (h : ofForest ts = .ok v) :
    v.trim.startsBlank = ledTwice ts := by
  calc v.trim.startsBlank = startsTwice id (v.map isBlank) := by
        rw [v.startsBlank_trim, startsTwice_map]
        rfl
    _ = ledTwice ts := by
        rw [map_isBlank_of_ofForest h, startsTwice_map]
        rfl

/-! ## Every level of its row -/

/-- As many of the values start with a blank as there are rows that start with two, and
none of them ends with one. -/
structure TrimmedAs (values : List Value) (rows : List (List TokenTree)) : Prop where
  countP_eq : values.countP Value.startsBlank = rows.countP ledTwice
  endsBlank_eq : ∀ w ∈ values, w.endsBlank = false

theorem TrimmedAs.nil : TrimmedAs [] [] := ⟨rfl, List.forall_mem_nil _⟩

theorem TrimmedAs.append {values values' : List Value} {rows rows' : List (List TokenTree)}
    (h : TrimmedAs values rows) (h' : TrimmedAs values' rows') :
    TrimmedAs (values ++ values') (rows ++ rows') where
  countP_eq := by rw [List.countP_append, List.countP_append, h.countP_eq, h'.countP_eq]
  endsBlank_eq := List.forall_mem_append.2 ⟨h.endsBlank_eq, h'.endsBlank_eq⟩

/-- The levels of a row, as soon as those inside of its brackets are trimmed. -/
theorem TrimmedAs.levels {ts : List TokenTree} {v : Value} (h : ofForest ts = .ok v)
    (hinner : TrimmedAs (allInner v) (allInnerRows ts)) : TrimmedAs v.trim.levels (rows ts) := by
  have hlevel : TrimmedAs [v.trim] [ts] := by
    constructor
    · rw [List.countP_singleton, List.countP_singleton, startsBlank_trim_of_ofForest h]
    · exact List.forall_mem_singleton.2 v.endsBlank_trim
  rw [Value.levels, rows, allInner_trim]
  exact hlevel.append hinner

/-- A function has its arguments inside, or is an address and stands for a level of one
string. -/
theorem TrimmedAs.call {arguments : Value} {rows : List (List TokenTree)}
    (h : TrimmedAs arguments.levels rows) (name : String) :
    TrimmedAs (call name arguments).inner rows := by
  unfold Component.call
  split
  · split
    · exact ⟨h.countP_eq, List.forall_mem_nil _⟩
    · exact h
  · exact h

/-- The values inside of a block are trimmed as its rows say. -/
theorem trimmedAs_inner_of_ofTree_block {opener : Lexeme} {contents : List TokenTree}
    {closer : Option Lexeme} {c : Option Component}
    (hcontents : ∀ v, ofForest contents = .ok v → TrimmedAs (allInner v) (allInnerRows contents))
    (h : ofTree (block opener contents closer) = .ok c) :
    TrimmedAs (allInner c.toList) (innerRows (block opener contents closer)) := by
  rw [ofTree] at h
  split at h
  · rename_i name htoken
    obtain ⟨v, hv, h⟩ := bind_eq_ok h
    rw [innerRows_of_function htoken]
    cases closer with
    | none => cases h
    | some closer =>
      cases h
      rw [Option.toList_some, allInner_singleton]
      exact (TrimmedAs.levels hv (hcontents v hv)).call name
  · rename_i htoken
    obtain ⟨v, hv, h⟩ := bind_eq_ok h
    rw [innerRows_of_round htoken]
    cases closer with
    | none => cases h
    | some closer =>
      cases h
      rw [Option.toList_some, allInner_singleton]
      exact TrimmedAs.levels hv (hcontents v hv)
  · rename_i hfunction hround
    cases h
    rw [innerRows_of_ne hfunction hround]
    exact .nil

theorem trimmedAs_inner_of_ofForest {ts : List TokenTree} {v : Value} (h : ofForest ts = .ok v) :
    TrimmedAs (allInner v) (allInnerRows ts) := by
  induction ts using forestInduction generalizing v with
  | nil =>
    cases h
    exact .nil
  | leaf l ts ih =>
    rw [ofForest] at h
    obtain ⟨c, hc, h⟩ := bind_eq_ok h
    obtain ⟨w, hw, h⟩ := bind_eq_ok h
    cases h
    have hinner : allInner c.toList = [] := by
      rcases ofLexeme_cases hc with ⟨text, -, rfl⟩ | ⟨d, -, rfl, -, hd⟩
      · rfl
      · rw [Option.toList_some, allInner_singleton, hd]
    rw [allInner_append, hinner]
    exact ih hw
  | block opener contents closer ts ihc ih =>
    rw [ofForest] at h
    obtain ⟨c, hc, h⟩ := bind_eq_ok h
    obtain ⟨w, hw, h⟩ := bind_eq_ok h
    cases h
    rw [allInner_append, allInnerRows]
    exact (trimmedAs_inner_of_ofTree_block (fun _ => ihc) hc).append (ih hw)

end Component

namespace Value

/-- No level of a value that has been read ends with a blank, and as many start with one as
there are rows of the text that start with two.  So no level has a blank at its ends if
and only if, comments apart, no row has two blanks in front of something else. -/
theorem levels_endInParts_iff {text : String} {v : Value} (h : Value.parse text = .ok v) :
    (∀ w ∈ v.levels, endsBlank w = false) ∧
      v.levels.countP startsBlank = (rows (forest text.toList)).countP ledTwice ∧
      ((∀ w ∈ v.levels, EndsInParts w) ↔
        ∀ row ∈ rows (forest text.toList), ledTwice row = false) := by
  rw [parse_eq_ok_iff] at h
  obtain ⟨w, hw, rfl⟩ := map_eq_ok h
  have htrimmed := Component.TrimmedAs.levels hw (Component.trimmedAs_inner_of_ofForest hw)
  refine ⟨htrimmed.endsBlank_eq, htrimmed.countP_eq, ?_⟩
  have hends : (∀ u ∈ w.trim.levels, EndsInParts u) ↔
      ∀ u ∈ w.trim.levels, ¬ startsBlank u = true := by
    refine forall₂_congr fun u hu => ?_
    rw [Bool.not_eq_true]
    exact and_iff_left (htrimmed.endsBlank_eq u hu)
  rw [hends, ← List.countP_eq_zero, htrimmed.countP_eq, List.countP_eq_zero]
  simp only [Bool.not_eq_true]

/-- Comments at the ends do no harm where there is one blank in front. -/
theorem levels_endInParts_callAmongComments :
    Value.parse " f(/**/ a /**/ )/**/ " = .ok [.function "f" [.ident "a"]] ∧
      ∀ w ∈ levels [.function "f" [.ident "a"]], EndsInParts w := by
  have htokens : tokenize " f(/**/ a /**/ )/**/ ".toList = [⟨.blank, [' '], 0⟩,
      ⟨.function "f", ['f', '('], 1⟩, ⟨.comment "", ['/', '*', '*', '/'], 3⟩,
      ⟨.blank, [' '], 7⟩, ⟨.ident "a", ['a'], 8⟩, ⟨.blank, [' '], 9⟩,
      ⟨.comment "", ['/', '*', '*', '/'], 10⟩, ⟨.blank, [' '], 14⟩,
      ⟨.closing .round, [')'], 15⟩, ⟨.comment "", ['/', '*', '*', '/'], 16⟩,
      ⟨.blank, [' '], 20⟩] := by decide +kernel
  have hparse : Value.parse " f(/**/ a /**/ )/**/ " = .ok [.function "f" [.ident "a"]] := by
    rw [parse_eq_ok_iff, read, forest, htokens]
    rfl
  refine ⟨hparse, (levels_endInParts_iff hparse).2.2.2 ?_⟩
  rw [forest, htokens]
  decide

/-- The comment of ` /**/ a` keeps two blanks apart, and the second one is kept in the
value. -/
theorem parse_keeps_blankBehindComment :
    Value.parse " /**/ a" = .ok [.blank, .ident "a"] ∧
      ¬ ∀ w ∈ levels [.blank, .ident "a"], EndsInParts w := by
  have htokens : tokenize " /**/ a".toList = [⟨.blank, [' '], 0⟩,
      ⟨.comment "", ['/', '*', '*', '/'], 1⟩, ⟨.blank, [' '], 5⟩, ⟨.ident "a", ['a'], 6⟩] := by
    decide +kernel
  refine ⟨?_, fun h => ?_⟩
  · rw [parse_eq_ok_iff, read, forest, htokens]
    rfl
  · cases (h _ List.mem_cons_self).1

end Value

end CssPruning
