import CssPruning.Proofs.Sheet.Refusal
import CssPruning.Proofs.Token.Boundary

/-!
# Texts without their comments

A statement copies its text without the comments outside of brackets
(`text_of_ofTrees`), and a value drops them among its components
(`ofForest_uncommented`).  So a value that is read from such a copy is the value of
the text itself if the lexemes that the comments stood between are still told apart
in the copy (`KeepsLexemes`, `Value.read_withoutComments`).
-/

set_option autoImplicit false

namespace CssPruning

open Sheet

namespace TokenTree

/-! ## Forests -/

/-- The tree is a comment. -/
def isComment : TokenTree → Bool
  | leaf l =>
    match l.token with
    | .comment _ => true
    | _ => false
  | block .. => false

/-- The forest without the comments outside of its brackets. -/
def uncommented (ts : List TokenTree) : List TokenTree := ts.filter fun t => !t.isComment

theorem isComment_of_token {l : Lexeme} {text : String} (h : l.token = .comment text) :
    (leaf l).isComment = true := by
  rw [isComment, h]

theorem isComment_of_ne {l : Lexeme} (h : ∀ text, l.token ≠ .comment text) :
    (leaf l).isComment = false := by
  rw [isComment]
  split
  · exact absurd ‹_› (h _)
  · rfl

theorem uncommented_cons_of_comment {t : TokenTree} (h : t.isComment = true)
    (ts : List TokenTree) : uncommented (t :: ts) = uncommented ts :=
  List.filter_cons_of_neg (by simp [h])

theorem uncommented_cons {t : TokenTree} (h : t.isComment = false) (ts : List TokenTree) :
    uncommented (t :: ts) = t :: uncommented ts :=
  List.filter_cons_of_pos (by simp [h])

theorem isComment_moved (k : Nat) (t : TokenTree) : (moved k t).isComment = t.isComment := by
  cases t <;> rfl

theorem allWhole_uncommented {b : Bracket} {ts : List TokenTree} (h : AllWhole b ts) :
    AllWhole b (uncommented ts) := by
  rw [allWhole_iff] at h ⊢
  exact fun t ht => h t (List.mem_filter.1 ht).1

theorem mem_of_mem_uncommented {ts : List TokenTree} {c : Char}
    (h : c ∈ (uncommented ts).flatMap source) : c ∈ ts.flatMap source := by
  obtain ⟨t, ht, hc⟩ := List.mem_flatMap.1 h
  exact List.mem_flatMap_of_mem (List.mem_filter.1 ht).1 hc

/-- The text without comments does not hang on where it starts. -/
theorem flatMap_source_uncommented_allMoved (k : Nat) (ts : List TokenTree) :
    (uncommented (allMoved k ts)).flatMap source = (uncommented ts).flatMap source := by
  induction ts with
  | nil => rfl
  | cons t ts ih =>
    rw [allMoved]
    cases h : t.isComment with
    | true =>
      rw [uncommented_cons_of_comment h, uncommented_cons_of_comment (by rwa [isComment_moved]), ih]
    | false =>
      rw [uncommented_cons h, uncommented_cons (by rwa [isComment_moved]), List.flatMap_cons,
        List.flatMap_cons, source_moved, ih]

end TokenTree

open TokenTree

/-! ## Lexemes on the two sides of a comment -/

/-- If the tree is a lexeme and a comment follows it, the lexeme is read in front of what
is left of the others without the comments. -/
def StaysBefore : TokenTree → List TokenTree → Prop
  | leaf l, t :: ts => (leaf l).isComment = false → t.isComment = true →
    l.StandsBefore ((uncommented ts).flatMap source)
  | _, _ => True

/-- No lexeme that a comment follows runs together with what is behind the comment. -/
def Unjoined : List TokenTree → Prop
  | [] => True
  | t :: ts => StaysBefore t ts ∧ Unjoined ts

instance (t : TokenTree) (ts : List TokenTree) : Decidable (StaysBefore t ts) :=
  match t, ts with
  | leaf _, _ :: _ => inferInstanceAs (Decidable (_ → _ → _))
  | leaf _, [] | block .., _ => inferInstanceAs (Decidable True)

instance decidableUnjoined : (ts : List TokenTree) → Decidable (Unjoined ts)
  | [] => inferInstanceAs (Decidable True)
  | t :: ts =>
    have := decidableUnjoined ts
    inferInstanceAs (Decidable (StaysBefore t ts ∧ Unjoined ts))

/-- A lexeme stands in front of what is left of the trees behind it if it is read in
front of that wherever a comment follows it. -/
theorem standsBefore_iff_staysBefore {l : Lexeme} {ts : List TokenTree}
    (hl : (leaf l).isComment = false) (hopens : l.token.opens = none)
    (hbang : '!' ∉ ts.flatMap source) (hstands : l.StandsBefore (ts.flatMap source))
    (hts : bareTokens (ts.flatMap source) = (allLexemes ts).map Lexeme.bare)
    (hleft : bareTokens ((uncommented ts).flatMap source) =
      (allLexemes (uncommented ts)).map Lexeme.bare) :
    l.StandsBefore ((uncommented ts).flatMap source) ↔ StaysBefore (leaf l) ts := by
  cases ts with
  | nil => exact iff_of_true hstands trivial
  | cons u us =>
    cases hu : u.isComment with
    | true =>
      rw [uncommented_cons_of_comment hu]
      exact ⟨fun h _ _ => h, fun h => h hl hu⟩
    | false =>
      refine iff_of_true ?_ fun _ hu' => ?_
      · refine hstands.of_head hopens hbang (mt mem_of_mem_uncommented hbang) ?_ ?_
        · intro hnil
          rw [hnil, bareTokens_nil, eq_comm, List.map_eq_nil_iff, allLexemes_eq_nil_iff] at hts
          cases hts
        · -- the next tree is there in both texts
          rw [hleft, hts, uncommented_cons hu, allLexemes, allLexemes]
          cases u <;> rfl
      · rw [hu] at hu'
        cases hu'

/-- Without the comments the trees have the same lexemes exactly if no lexeme runs
together with what is behind a comment. -/
theorem bareTokens_uncommented_iff {ts : List TokenTree} (hwhole : ∀ t ∈ ts, Whole t)
    (hbang : '!' ∉ ts.flatMap source)
    (h : bareTokens (ts.flatMap source) = (allLexemes ts).map Lexeme.bare) :
    bareTokens ((uncommented ts).flatMap source) = (allLexemes (uncommented ts)).map Lexeme.bare ↔
      Unjoined ts := by
  induction ts with
  | nil => exact iff_of_true bareTokens_nil trivial
  | cons t ts ih =>
    rw [List.forall_mem_cons] at hwhole
    rw [List.flatMap_cons, List.mem_append, not_or] at hbang
    rw [List.flatMap_cons, allLexemes, List.map_append] at h
    cases t with
    | leaf l =>
      have hsource : (leaf l).source = l.source := List.append_nil _
      rw [hsource] at h
      obtain ⟨hstands, hts⟩ := Lexeme.bareTokens_append_iff.1 h
      cases hl : (leaf l).isComment with
      | true =>
        have hstays : StaysBefore (leaf l) ts := by
          cases ts with
          | nil => trivial
          | cons u us => exact fun hl' => absurd (hl.symm.trans hl') Bool.true_eq_false.mp
        rw [uncommented_cons_of_comment hl, ih hwhole.2 hbang.2 hts, Unjoined]
        exact (and_iff_right hstays).symm
      | false =>
        rw [uncommented_cons hl, List.flatMap_cons, hsource, allLexemes, List.map_append, lexemes,
          List.map_singleton, List.singleton_append, Lexeme.bareTokens_append_iff, Unjoined,
          ← ih hwhole.2 hbang.2 hts]
        exact and_congr_left fun hleft =>
          standsBefore_iff_staysBefore hl hwhole.1 hbang.2 hstands hts hleft
    | block opener contents closer =>
      obtain ⟨b, m, -, -, rfl, hm⟩ := hwhole.1
      have hlexemes : (block opener contents (some m)).lexemes =
        (opener :: allLexemes contents) ++ [m] := rfl
      -- the lexemes of the block stand in front of any text
      have hstays (ds : List Char) : bareTokens ((block opener contents (some m)).source ++ ds) =
          (block opener contents (some m)).lexemes.map Lexeme.bare ++ bareTokens ds := by
        rw [source, hlexemes] at h hbang ⊢
        exact Lexeme.bareTokens_append_closing hm hbang.1 h
      rw [hstays, List.append_cancel_left_eq] at h
      rw [uncommented_cons rfl, List.flatMap_cons, hstays, allLexemes, List.map_append,
        List.append_cancel_left_eq, ih hwhole.2 hbang.2 h, Unjoined]
      exact (and_iff_right trivial).symm

/-- The text of a statement is that of its trees without the comments. -/
theorem text_of_ofTrees {ts : List TokenTree} {phrase : Phrase}
    (h : Phrase.ofTrees ts = .ok phrase) (hts : ∀ t ∈ ts, ¬ Closes .curly t)
    (hcolon : ∀ l, leaf l ∈ ts → l.token = .colon → l.source = [':']) :
    phrase.text = (uncommented ts).flatMap source := by
  have hbehind (cs : List Char) (p : Phrase) : (p.behind cs).text = cs ++ p.text := by
    obtain ⟨head, tail⟩ := p
    cases tail <;> simp [Phrase.behind, Phrase.text]
  have hsource (l : Lexeme) : (leaf l).source = l.source := List.append_nil _
  have htail {t : TokenTree} {ts : List TokenTree}
      (hcolon : ∀ l, leaf l ∈ t :: ts → l.token = .colon → l.source = [':']) :
      ∀ l, leaf l ∈ ts → l.token = .colon → l.source = [':'] :=
    fun l hl => hcolon l (List.mem_cons_of_mem _ hl)
  fun_induction Phrase.ofTrees ts generalizing phrase with
  | case1 =>
    cases h
    rfl
  | case2 l ts htoken ih => exact absurd htoken (List.forall_mem_cons.1 hts).1
  | case3 l ts text htoken hcloses ih =>
    rw [uncommented_cons_of_comment (isComment_of_token htoken)]
    exact ih h (List.forall_mem_cons.1 hts).2 (htail hcolon)
  | case4 => cases h
  | case5 => cases h
  | case6 l ts text htoken hcloses ih =>
    obtain ⟨p, hp, rfl⟩ := map_eq_ok h
    rw [uncommented_cons (isComment_of_ne (by simp [htoken])), List.flatMap_cons, hsource, hbehind,
      ih hp (List.forall_mem_cons.1 hts).2 (htail hcolon)]
  | case7 => cases h
  | case8 l ts htoken ih =>
    obtain ⟨p, hp, rfl⟩ := map_eq_ok h
    rw [uncommented_cons (isComment_of_ne (by simp [htoken])), List.flatMap_cons, hsource,
      hcolon l List.mem_cons_self htoken, ← ih hp (List.forall_mem_cons.1 hts).2 (htail hcolon)]
    rfl
  | case9 l ts hcloses hcomment hbad hstring _ ih =>
    obtain ⟨p, hp, rfl⟩ := map_eq_ok h
    rw [uncommented_cons (isComment_of_ne hcomment), List.flatMap_cons, hsource, hbehind,
      ih hp (List.forall_mem_cons.1 hts).2 (htail hcolon)]
  | case10 opener contents closer ts hclosed ih =>
    obtain ⟨p, hp, rfl⟩ := map_eq_ok h
    rw [uncommented_cons rfl, List.flatMap_cons, hbehind,
      ih hp (List.forall_mem_cons.1 hts).2 (htail hcolon)]
  | case11 => cases h

namespace Component

/-- A closed comment is no component. -/
theorem ofTree_of_isComment {t : TokenTree} (ht : t.isComment = true) (hshut : t.isShut = true) :
    ofTree t = .ok none := by
  cases t with
  | block => cases ht
  | leaf l =>
    rw [isComment] at ht
    split at ht
    · rename_i text htoken
      rw [isShut, htoken] at hshut
      rw [ofTree, ofLexeme, htoken]
      exact if_pos hshut
    · cases ht

/-- The value of a forest is that of its trees without the closed comments. -/
theorem ofForest_uncommented {ts : List TokenTree} (hshut : ∀ t ∈ ts, t.isShut = true) :
    ofForest (uncommented ts) = ofForest ts := by
  induction ts with
  | nil => rfl
  | cons t ts ih =>
    rw [List.forall_mem_cons] at hshut
    cases ht : t.isComment with
    | true =>
      rw [uncommented_cons_of_comment ht, ih hshut.2, ofForest, ofTree_of_isComment ht hshut.1]
      cases ofForest ts <;> rfl
    | false => rw [uncommented_cons ht, ofForest, ofForest, ih hshut.2]

end Component

/-! ## Texts -/

/-- The text without the comments outside of its brackets. -/
def withoutComments (cs : List Char) : List Char := (uncommented (forest cs)).flatMap source

theorem mem_of_mem_withoutComments {cs : List Char} {c : Char} (h : c ∈ withoutComments cs) :
    c ∈ cs := by
  rw [← source_forest cs]
  exact mem_of_mem_uncommented h

/-- Without the comments the text has the same lexemes, places apart. -/
def KeepsLexemes (cs : List Char) : Prop :=
  bareTokens (withoutComments cs) = (allLexemes (uncommented (forest cs))).map Lexeme.bare

instance (cs : List Char) : Decidable (KeepsLexemes cs) := inferInstanceAs (Decidable (_ = _))

/-- Texts with the same lexemes, places apart, have the same trees, places apart. -/
theorem mapAll_bare_forest {cs : List Char} (hwhole : AllWhole .curly (forest cs))
    (h : KeepsLexemes cs) :
    mapAll Lexeme.bare (forest (withoutComments cs)) =
      mapAll Lexeme.bare (uncommented (forest cs)) := by
  have hgroup := group_map Lexeme.token_bare [] [] (tokenize (withoutComments cs))
  rw [← bareTokens, h, group_map Lexeme.token_bare [] []] at hgroup
  rw [group_nil_allLexemes (allWhole_uncommented hwhole)] at hgroup
  exact hgroup.symm

theorem keepsLexemes_iff {cs : List Char} (hwhole : ∀ t ∈ forest cs, Whole t) (hbang : '!' ∉ cs) :
    KeepsLexemes cs ↔ Unjoined (forest cs) := by
  apply bareTokens_uncommented_iff hwhole
  · rwa [source_forest]
  · rw [source_forest, lexemes_forest, bareTokens]

/-- A value is read from the text without the comments as from the text itself, if
the comments keep no lexemes apart that would run together. -/
theorem Value.read_withoutComments {cs : List Char} {v : Value}
    (hshut : ∀ t ∈ forest cs, t.isShut = true) (hwhole : AllWhole .curly (forest cs))
    (hkeeps : KeepsLexemes cs) (h : Value.read (withoutComments cs) = .ok v) :
    Value.read cs = .ok v := by
  obtain ⟨w, hw, rfl⟩ := map_eq_ok h
  have hbare := (Component.ofForest_mapAll_eq_ok_iff Lexeme.token_bare Lexeme.source_bare).2 hw
  rw [mapAll_bare_forest hwhole hkeeps, Component.ofForest_mapAll_eq_ok_iff Lexeme.token_bare
    Lexeme.source_bare, Component.ofForest_uncommented hshut] at hbare
  rw [Value.read, hbare]
  rfl

end CssPruning
