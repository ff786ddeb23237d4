import CssPruning.Proofs.Token.Locality
import CssPruning.Token.Tree

/-!
# The same trees of other lexemes

How lexemes are grouped is a matter of their tokens.  So lexemes that give way to
others with the same tokens are grouped into the same trees of these others
(`group_map`).  The lexemes of a text that starts some characters later are an
example (`tokenizeFrom_add`, `allMoved_eq_mapAll`).
-/

set_option autoImplicit false

namespace CssPruning

namespace TokenTree

/-- What holds of the empty forest, and of a forest with a leaf or a block in front
as soon as it holds inside of that and behind it, holds of every forest. -/
@[elab_as_elim] theorem forestInduction {motive : List TokenTree → Prop} (nil : motive [])
    (leaf : ∀ l ts, motive ts → motive (leaf l :: ts))
    (block : ∀ opener contents closer ts, motive contents → motive ts →
      motive (block opener contents closer :: ts)) (ts : List TokenTree) : motive ts := by
  refine @TokenTree.rec_1 (fun t => ∀ ts, motive ts → motive (t :: ts)) motive ?_ ?_ nil ?_ ts
  case refine_1 => exact leaf
  case refine_2 => exact fun opener contents closer h ts => block opener contents closer ts h
  case refine_3 => exact fun t ts ht hts => ht ts hts

theorem allLexemes_eq_flatMap (ts : List TokenTree) : allLexemes ts = ts.flatMap lexemes := by
  induction ts with
  | nil => rfl
  | cons t ts ih => rw [allLexemes, List.flatMap_cons, ih]

/-! ## Other lexemes -/

mutual

/-- The tree with other lexemes. -/
def map (f : Lexeme → Lexeme) : TokenTree → TokenTree
  | leaf l => leaf (f l)
  | block opener contents closer => block (f opener) (mapAll f contents) (closer.map f)
termination_by structural t => t

/-- The forest with other lexemes. -/
def mapAll (f : Lexeme → Lexeme) : List TokenTree → List TokenTree
  | [] => []
  | t :: ts => map f t :: mapAll f ts
termination_by structural ts => ts

end

theorem mapAll_eq_map (f : Lexeme → Lexeme) (ts : List TokenTree) :
    mapAll f ts = ts.map (map f) := by
  induction ts with
  | nil => rfl
  | cons t ts ih => rw [mapAll, List.map_cons, ih]

theorem mapAll_reverse (f : Lexeme → Lexeme) (ts : List TokenTree) :
    mapAll f ts.reverse = (mapAll f ts).reverse := by
  rw [mapAll_eq_map, mapAll_eq_map, List.map_reverse]

theorem mapAll_id (ts : List TokenTree) : mapAll id ts = ts := by
  induction ts using forestInduction with
  | nil => rfl
  | leaf l ts ih => rw [mapAll, map, ih, id]
  | block opener contents closer ts ihc ih => rw [mapAll, map, ihc, ih, Option.map_id, id, id]

theorem mapAll_mapAll (f g : Lexeme → Lexeme) (ts : List TokenTree) :
    mapAll g (mapAll f ts) = mapAll (g ∘ f) ts := by
  induction ts using forestInduction with
  | nil => rfl
  | leaf l ts ih => simp [mapAll, map, ih]
  | block opener contents closer ts ihc ih => simp [mapAll, map, ihc, ih]

theorem allLexemes_mapAll (f : Lexeme → Lexeme) (ts : List TokenTree) :
    allLexemes (mapAll f ts) = (allLexemes ts).map f := by
  induction ts using forestInduction with
  | nil => rfl
  | leaf l ts ih => simp [mapAll, map, allLexemes, lexemes, ih]
  | block opener contents closer ts ihc ih =>
    cases closer <;> simp [mapAll, map, allLexemes, lexemes, ihc, ih]

/-- Lexemes with the same sources make trees with the same sources. -/
theorem source_map {f : Lexeme → Lexeme} (hf : ∀ l, (f l).source = l.source) (t : TokenTree) :
    (map f t).source = t.source := by
  have h := allLexemes_mapAll f [t]
  simp only [mapAll, allLexemes, List.append_nil] at h
  rw [source, source, h, List.flatMap_map]
  simp only [hf]

theorem flatMap_source_mapAll {f : Lexeme → Lexeme} (hf : ∀ l, (f l).source = l.source)
    (ts : List TokenTree) : (mapAll f ts).flatMap source = ts.flatMap source := by
  rw [mapAll_eq_map, List.flatMap_map]
  simp only [source_map hf]

/-- The open block with other lexemes. -/
def Frame.map (f : Lexeme → Lexeme) (frame : Frame) : Frame :=
  ⟨f frame.opener, frame.bracket, mapAll f frame.before⟩

theorem unwind_map (f : Lexeme → Lexeme) (frames : List Frame) (done : List TokenTree) :
    unwind (frames.map (Frame.map f)) (mapAll f done) = mapAll f (unwind frames done) := by
  induction frames generalizing done with
  | nil => exact (mapAll_reverse f done).symm
  | cons frame frames ih =>
    rw [unwind, ← ih, List.map_cons, unwind, ← mapAll_reverse]
    rfl

/-- Lexemes with the same tokens are grouped alike. -/
theorem group_map {f : Lexeme → Lexeme} (hf : ∀ l, (f l).token = l.token) (frames : List Frame)
    (done : List TokenTree) (ls : List Lexeme) :
    group (frames.map (Frame.map f)) (mapAll f done) (ls.map f) =
      mapAll f (group frames done ls) := by
  fun_induction group frames done ls with
  | case1 frames done => exact unwind_map f frames done
  | case2 frames done l ls b hopens ih =>
    rw [← hf] at hopens
    rw [← ih]
    cases frames <;> simp only [List.map_cons, group, hopens, List.map_nil] <;> rfl
  | case3 done l ls hopens frame frames hl ih =>
    rw [← hf] at hopens hl
    rw [← ih, List.map_cons, List.map_cons, group, hopens]
    refine (if_pos hl).trans ?_
    rw [mapAll, TokenTree.map, mapAll_reverse]
    rfl
  | case4 done l ls hopens frame frames hl ih =>
    rw [← hf] at hopens hl
    rw [← ih, List.map_cons, List.map_cons, group, hopens]
    exact if_neg hl
  | case5 done l ls hopens ih =>
    rw [← hf] at hopens
    rw [← ih, List.map_cons, List.map_nil, group, hopens]
    rfl

end TokenTree

/-! ## Places in a longer text -/

/-- The lexeme of a text that starts some characters later. -/
def Lexeme.moved (k : Nat) (l : Lexeme) : Lexeme := { l with start := k + l.start }

theorem Lexeme.token_moved (k : Nat) (l : Lexeme) : (l.moved k).token = l.token := rfl

theorem Lexeme.source_moved (k : Nat) (l : Lexeme) : (l.moved k).source = l.source := rfl

theorem tokenizeFrom_add (k start : Nat) (cs : List Char) :
    tokenizeFrom (k + start) cs = (tokenizeFrom start cs).map (Lexeme.moved k) := by
  fun_induction tokenizeFrom start cs with
  | case1 => simp
  | case2 start c cs s _ ih =>
    rw [tokenizeFrom_cons, List.map_cons, Nat.add_assoc, ← ih]
    rfl

namespace TokenTree

mutual

/-- The tree of a text that starts some characters later. -/
def moved (k : Nat) : TokenTree → TokenTree
  | leaf l => leaf (l.moved k)
  | block opener contents closer =>
    block (opener.moved k) (allMoved k contents) (closer.map (Lexeme.moved k))
termination_by structural t => t

/-- The forest of a text that starts some characters later. -/
def allMoved (k : Nat) : List TokenTree → List TokenTree
  | [] => []
  | t :: ts => moved k t :: allMoved k ts
termination_by structural ts => ts

end

theorem allMoved_eq_mapAll (k : Nat) (ts : List TokenTree) :
    allMoved k ts = mapAll (Lexeme.moved k) ts := by
  induction ts using forestInduction with
  | nil => rfl
  | leaf l ts ih => rw [allMoved, mapAll, ih]; rfl
  | block opener contents closer ts ihc ih =>
    rw [allMoved, mapAll, ih, moved, map, ihc]

theorem moved_eq_map (k : Nat) (t : TokenTree) : moved k t = map (Lexeme.moved k) t :=
  (List.cons.inj (allMoved_eq_mapAll k [t])).1

theorem allLexemes_allMoved (k : Nat) (ts : List TokenTree) :
    allLexemes (allMoved k ts) = (allLexemes ts).map (Lexeme.moved k) := by
  rw [allMoved_eq_mapAll, allLexemes_mapAll]

theorem mem_allMoved_iff {k : Nat} {t : TokenTree} {ts : List TokenTree} :
    t ∈ allMoved k ts ↔ ∃ t' ∈ ts, moved k t' = t := by
  simp only [allMoved_eq_mapAll, mapAll_eq_map, List.mem_map, moved_eq_map]

@[simp] theorem allMoved_append (k : Nat) (ts us : List TokenTree) :
    allMoved k (ts ++ us) = allMoved k ts ++ allMoved k us := by
  simp only [allMoved_eq_mapAll, mapAll_eq_map, List.map_append]

@[simp] theorem allMoved_zero (ts : List TokenTree) : allMoved 0 ts = ts := by
  have hzero : Lexeme.moved 0 = id := by
    funext l
    rw [Lexeme.moved, Nat.zero_add, id]
  rw [allMoved_eq_mapAll, hzero, mapAll_id]

@[simp] theorem allMoved_allMoved (j k : Nat) (ts : List TokenTree) :
    allMoved j (allMoved k ts) = allMoved (j + k) ts := by
  have hadd : Lexeme.moved j ∘ Lexeme.moved k = Lexeme.moved (j + k) := by
    funext l
    simp only [Function.comp_apply, Lexeme.moved, Nat.add_assoc]
  simp only [allMoved_eq_mapAll, mapAll_mapAll, hadd]

end TokenTree

end CssPruning
