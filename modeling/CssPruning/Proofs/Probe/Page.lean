import Mathlib.Data.List.Basic
import CssPruning.Probe.Page

/-!
# What a probe does to a page

Elements have their turns one after the other, and each finds the page as the turns before
it have left it (`PageView.turns`).  At its turn an element with a style is written to
twice, and what is found is read when it has been put back (`PageView.measure_eq`); what
a probe finds, writes and leaves behind is told from the turns.

If each element has a state of its own (`PageView.Reflects`), what others have at their
turns makes no difference to it, and it is at the end as after its own turn.  So it does
not matter when its family is read: at its turn, or when all have had theirs, as the script
does it.
-/

set_option autoImplicit false

namespace CssPruning.Probe

/-! ## Turns -/

namespace PageView

variable {σ ι : Type}

/-- The page while an element is measured. -/
def unclear (view : PageView σ ι) (e : ι) (s : σ) : σ :=
  if view.hasStyle e s then view.setClear e "none" s else s

/-- The element stands above the fold while it is measured. -/
def isAbove (view : PageView σ ι) (fold : Float) (e : ι) (s : σ) : Bool :=
  view.top e (view.unclear e s) < fold

/-- What is written at the turn of an element. -/
def writesAt (view : PageView σ ι) (e : ι) (s : σ) : List (ι × String) :=
  if view.hasStyle e s then [(e, "none"), (e, view.clear e s)] else []

/-- The page after some writes. -/
def written (view : PageView σ ι) (writes : List (ι × String)) (s : σ) : σ :=
  writes.foldl (fun s w => view.setClear w.1 w.2 s) s

/-- The page after the turn of an element. -/
def restored (view : PageView σ ι) (e : ι) (s : σ) : σ := view.written (view.writesAt e s) s

/-- The elements with the pages that they find at their turns. -/
def turns (view : PageView σ ι) : List ι → σ → List (ι × σ)
  | [], _ => []
  | e :: es, s => (e, s) :: view.turns es (view.restored e s)

/-- What is written at all turns. -/
def writes (view : PageView σ ι) (es : List ι) (s : σ) : List (ι × String) :=
  (view.turns es s).flatMap fun t => view.writesAt t.1 t.2

variable (view : PageView σ ι) (fold : Float)

theorem written_append (ws ws' : List (ι × String)) (s : σ) :
    view.written (ws ++ ws') s = view.written ws' (view.written ws s) :=
  List.foldl_append

theorem measure_eq (e : ι) (s : σ) :
    view.measure fold e s = (view.isAbove fold e s, view.restored e s) := by
  unfold measure isAbove restored writesAt unclear
  cases view.hasStyle e s <;> rfl

theorem orEmpty_eq (text : String) : orEmpty text = text := by
  unfold orEmpty
  split
  · rename_i h
    exact (String.isEmpty_iff.1 h).symm
  · rfl

/-- The script asks an element as a probe measures it. -/
theorem isElementAboveFold_eq (e : ι) (s : σ) :
    view.isElementAboveFold fold e s = (view.isAbove fold e s, view.restored e s) := by
  unfold isElementAboveFold isAbove restored writesAt unclear
  rw [orEmpty_eq]
  cases view.hasStyle e s <;> rfl

theorem families_cons (e : ι) (es : List ι) (s : σ) :
    view.families fold (e :: es) s =
      ((if view.isAbove fold e s then [view.family e (view.restored e s)] else []) ++
          (view.families fold es (view.restored e s)).1,
        (view.families fold es (view.restored e s)).2) := by
  rw [families, measure_eq]

theorem kept_cons (e : ι) (es : List ι) (s : σ) :
    view.kept fold (e :: es) s =
      (if view.isAbove fold e s then e :: (view.kept fold es (view.restored e s)).1
        else (view.kept fold es (view.restored e s)).1,
        (view.kept fold es (view.restored e s)).2) := by
  rw [kept, isElementAboveFold_eq]

/-- What is found are the families of the elements above the fold at their turns. -/
theorem fst_families_eq (es : List ι) (s : σ) :
    (view.families fold es s).1 = ((view.turns es s).filter fun t => view.isAbove fold t.1 t.2).map
      fun t => view.family t.1 (view.restored t.1 t.2) := by
  induction es generalizing s with
  | nil => rfl
  | cons e es ih =>
    rw [families_cons, turns, List.filter_cons, ih]
    cases view.isAbove fold e s <;> rfl

theorem writes_cons (e : ι) (es : List ι) (s : σ) :
    view.writes (e :: es) s = view.writesAt e s ++ view.writes es (view.restored e s) :=
  List.flatMap_cons

/-- The page is left as the writes make it. -/
theorem snd_families_eq (es : List ι) (s : σ) :
    (view.families fold es s).2 = view.written (view.writes es s) s := by
  induction es generalizing s with
  | nil => rfl
  | cons e es ih =>
    rw [families_cons, writes_cons, written_append, ih]
    rfl

theorem snd_kept_eq (es : List ι) (s : σ) :
    (view.kept fold es s).2 = view.written (view.writes es s) s := by
  induction es generalizing s with
  | nil => rfl
  | cons e es ih =>
    rw [kept_cons, writes_cons, written_append, ih]
    rfl

/-- The script keeps the elements that stand above the fold at their turns. -/
theorem fst_kept_eq (es : List ι) (s : σ) :
    (view.kept fold es s).1 =
      ((view.turns es s).filter fun t => view.isAbove fold t.1 t.2).map Prod.fst := by
  induction es generalizing s with
  | nil => rfl
  | cons e es ih =>
    rw [kept_cons, turns, List.filter_cons, ih]
    cases view.isAbove fold e s <;> rfl

/-- What no write to an element changes is the same after its turn. -/
theorem restored_frame {β : Type} (look : σ → β) {e : ι}
    (h : ∀ text s, look (view.setClear e text s) = look s) (s : σ) :
    look (view.restored e s) = look s := by
  unfold restored writesAt
  split
  · calc look (view.setClear e (view.clear e s) (view.setClear e "none" s))
        = look (view.setClear e "none" s) := h _ _
      _ = look s := h _ _
  · rfl

/-! ## The log of the writes -/

/-- The page together with what has been written to it, last write last. -/
def logged (view : PageView σ ι) : PageView (σ × List (ι × String)) ι where
  hasStyle e s := view.hasStyle e s.1
  clear e s := view.clear e s.1
  setClear e text s := (view.setClear e text s.1, s.2 ++ [(e, text)])
  top e s := view.top e s.1
  family e s := view.family e s.1

theorem written_logged (ws : List (ι × String)) (s : σ) (log : List (ι × String)) :
    view.logged.written ws (s, log) = (view.written ws s, log ++ ws) := by
  induction ws generalizing s log with
  | nil => exact congrArg (Prod.mk _) (List.append_nil log).symm
  | cons w ws ih =>
    have hlog : log ++ w :: ws = log ++ [w] ++ ws := by simp
    rw [hlog]
    exact ih (view.setClear w.1 w.2 s) (log ++ [w])

theorem restored_logged (e : ι) (s : σ) (log : List (ι × String)) :
    view.logged.restored e (s, log) = (view.restored e s, log ++ view.writesAt e s) :=
  view.written_logged (view.writesAt e s) s log

theorem isAbove_logged (e : ι) (s : σ) (log : List (ι × String)) :
    view.logged.isAbove fold e (s, log) = view.isAbove fold e s := by
  unfold isAbove unclear
  cases h : view.hasStyle e s <;> simp [logged, h]

/-- A log of the writes shows those of the turns and nothing else, and keeps what is
found. -/
theorem families_logged (es : List ι) (s : σ) (log : List (ι × String)) :
    view.logged.families fold es (s, log) =
      ((view.families fold es s).1, (view.families fold es s).2, log ++ view.writes es s) := by
  induction es generalizing s log with
  | nil => exact congrArg (fun log => ([], s, log)) (List.append_nil log).symm
  | cons e es ih =>
    rw [families_cons, families_cons, writes_cons, restored_logged, isAbove_logged, ih,
      List.append_assoc]
    rfl

/-! ## Elements that are put back -/

/-- What is written to the element is read from it until it is written to again. -/
structure ReadsBack (view : PageView σ ι) (e : ι) : Prop where
  clear_setClear : ∀ text s, view.clear e (view.setClear e text s) = text
  clear_setClear_of_ne : ∀ e', e' ≠ e → ∀ text s,
    view.clear e (view.setClear e' text s) = view.clear e s

/-- An element that is read back has its `clear` after every turn. -/
theorem ReadsBack.clear_restored {view : PageView σ ι} {e : ι} (h : view.ReadsBack e) (e' : ι)
    (s : σ) : view.clear e (view.restored e' s) = view.clear e s := by
  by_cases he : e' = e
  · subst he
    unfold restored writesAt
    split
    · exact h.clear_setClear _ _
    · rfl
  · exact view.restored_frame (view.clear e) (h.clear_setClear_of_ne e' he) s

theorem ReadsBack.clear_written {view : PageView σ ι} {e : ι} (h : view.ReadsBack e)
    (es : List ι) (s : σ) :
    view.clear e (view.written (view.writes es s) s) = view.clear e s := by
  induction es generalizing s with
  | nil => rfl
  | cons e' es ih =>
    rw [writes_cons, written_append]
    exact (ih (view.restored e' s)).trans (h.clear_restored e' s)

end PageView

/-! ## Elements with a state of their own -/

namespace ElementView

variable {ε : Type}

/-- An element while it is measured. -/
def unclear (element : ElementView ε) (x : ε) : ε :=
  if element.hasStyle x then element.setClear "none" x else x

/-- The element stands above the fold while it is measured. -/
def isAbove (element : ElementView ε) (fold : Float) (x : ε) : Bool :=
  element.top (element.unclear x) < fold

/-- An element after it was measured. -/
def restored (element : ElementView ε) (x : ε) : ε :=
  if element.hasStyle x then element.setClear (element.clear x) (element.unclear x) else x

end ElementView

namespace PageView

variable {σ ι ε : Type}

/-- Each element of the page has a state of its own, which alone its answers depend on, and
which only what is set on it changes. -/
structure Reflects (view : PageView σ ι) (own : ι → σ → ε) (element : ElementView ε) : Prop where
  hasStyle_eq : ∀ e s, view.hasStyle e s = element.hasStyle (own e s)
  clear_eq : ∀ e s, view.clear e s = element.clear (own e s)
  top_eq : ∀ e s, view.top e s = element.top (own e s)
  family_eq : ∀ e s, view.family e s = element.family (own e s)
  own_setClear : ∀ e text s, own e (view.setClear e text s) = element.setClear text (own e s)
  own_setClear_of_ne : ∀ e e', e' ≠ e → ∀ text s, own e (view.setClear e' text s) = own e s

namespace Reflects

variable {view : PageView σ ι} {own : ι → σ → ε} {element : ElementView ε}
  (h : view.Reflects own element)

include h

theorem isAbove_eq (fold : Float) (e : ι) (s : σ) :
    view.isAbove fold e s = element.isAbove fold (own e s) := by
  have hunclear : own e (view.unclear e s) = element.unclear (own e s) := by
    rw [PageView.unclear, ElementView.unclear, ← h.hasStyle_eq]
    split
    · exact h.own_setClear e "none" s
    · rfl
  rw [PageView.isAbove, ElementView.isAbove, h.top_eq, hunclear]

theorem writesAt_eq (e : ι) (s : σ) :
    view.writesAt e s = if element.hasStyle (own e s) then
      [(e, "none"), (e, element.clear (own e s))] else [] := by
  rw [writesAt, h.hasStyle_eq, h.clear_eq]

theorem own_restored (e : ι) (s : σ) : own e (view.restored e s) = element.restored (own e s) := by
  unfold PageView.restored writesAt ElementView.restored ElementView.unclear
  rw [← h.hasStyle_eq, ← h.clear_eq]
  split
  · calc own e (view.setClear e (view.clear e s) (view.setClear e "none" s))
        = element.setClear (view.clear e s) (own e (view.setClear e "none" s)) :=
          h.own_setClear e _ _
      _ = element.setClear (view.clear e s) (element.setClear "none" (own e s)) := by
          rw [h.own_setClear]
  · rfl

/-- The turn of an element leaves the others as they are. -/
theorem own_restored_of_ne {e e' : ι} (he : e' ≠ e) (s : σ) :
    own e (view.restored e' s) = own e s :=
  view.restored_frame (own e) (h.own_setClear_of_ne e e' he) s

/-- What is not among the elements is left as it is. -/
theorem own_written_of_not_mem {e : ι} {es : List ι} (he : e ∉ es) (s : σ) :
    own e (view.written (view.writes es s) s) = own e s := by
  induction es generalizing s with
  | nil => rfl
  | cons e' es ih =>
    rw [List.mem_cons, not_or] at he
    rw [writes_cons, written_append]
    exact (ih he.2 (view.restored e' s)).trans (h.own_restored_of_ne (Ne.symm he.1) s)

/-- At the end an element is as after a turn that had found it as it was at first. -/
theorem own_written_of_mem {e : ι} {es : List ι} (hes : es.Nodup) (he : e ∈ es) (s : σ) :
    own e (view.written (view.writes es s) s) = element.restored (own e s) := by
  induction es generalizing s with
  | nil => cases he
  | cons e' es ih =>
    rw [List.nodup_cons] at hes
    rw [writes_cons, written_append]
    rcases List.mem_cons.1 he with rfl | he
    · exact (h.own_written_of_not_mem hes.1 _).trans (h.own_restored _ s)
    · have hne : e' ≠ e := fun heq => hes.1 (heq ▸ he)
      exact (ih hes.2 he (view.restored e' s)).trans
        (congrArg element.restored (h.own_restored_of_ne hne s))

/-- An element finds itself at its turn as it was at first. -/
theorem map_turns {es : List ι} (hes : es.Nodup) (s : σ) :
    (view.turns es s).map (fun t => (t.1, own t.1 t.2)) = es.map fun e => (e, own e s) := by
  induction es generalizing s with
  | nil => rfl
  | cons e es ih =>
    rw [List.nodup_cons] at hes
    rw [turns, List.map_cons, List.map_cons, ih hes.2]
    refine congrArg ((e, own e s) :: ·) (List.map_congr_left fun e' he' => ?_)
    have hne : e ≠ e' := fun he => hes.1 (he ▸ he')
    rw [h.own_restored_of_ne hne]

/-- The elements above the fold at their turns, and what is told of them, by the page at
first. -/
theorem map_filter_turns {β : Type} (f : ι → ε → β) {es : List ι} (hes : es.Nodup)
    (fold : Float) (s : σ) :
    ((view.turns es s).filter fun t => view.isAbove fold t.1 t.2).map
        (fun t => f t.1 (own t.1 t.2)) =
      (es.filter fun e => element.isAbove fold (own e s)).map fun e => f e (own e s) := by
  have habove : (fun t : ι × σ => view.isAbove fold t.1 t.2) =
      (fun x : ι × ε => element.isAbove fold x.2) ∘ fun t => (t.1, own t.1 t.2) :=
    funext fun t => h.isAbove_eq fold t.1 t.2
  calc ((view.turns es s).filter fun t => view.isAbove fold t.1 t.2).map
        (fun t => f t.1 (own t.1 t.2))
      = (((view.turns es s).map fun t => (t.1, own t.1 t.2)).filter
          fun x => element.isAbove fold x.2).map fun x => f x.1 x.2 := by
        rw [habove, List.filter_map, List.map_map]
        rfl
    _ = (es.filter fun e => element.isAbove fold (own e s)).map fun e => f e (own e s) := by
        rw [h.map_turns hes, List.filter_map, List.map_map]
        rfl

/-- What a probe finds, by the page at first. -/
theorem fst_families {es : List ι} (hes : es.Nodup) (fold : Float) (s : σ) :
    (view.families fold es s).1 = (es.filter fun e => element.isAbove fold (own e s)).map
      fun e => element.family (element.restored (own e s)) := by
  rw [fst_families_eq, ← h.map_filter_turns (fun _ x => element.family (element.restored x)) hes]
  refine List.map_congr_left fun t _ => ?_
  rw [h.family_eq, h.own_restored]

/-- What the script keeps, by the page at first. -/
theorem fst_kept {es : List ι} (hes : es.Nodup) (fold : Float) (s : σ) :
    (view.kept fold es s).1 = es.filter fun e => element.isAbove fold (own e s) := by
  rw [fst_kept_eq, h.map_filter_turns (fun e _ => e) hes, List.map_id']

/-- What a probe writes, by the page at first. -/
theorem writes_eq {es : List ι} (hes : es.Nodup) (s : σ) :
    view.writes es s = es.flatMap fun e => view.writesAt e s := by
  have hmap := congrArg (List.flatMap fun x : ι × ε => if element.hasStyle x.2 then
    [(x.1, "none"), (x.1, element.clear x.2)] else []) (h.map_turns hes s)
  simpa only [List.flatMap_map, ← h.writesAt_eq, writes] using hmap

/-- The script finds at the end what a probe finds at the turns. -/
theorem scriptSignals_eq {es : List ι} (hes : es.Nodup) (fold : Float) (s : σ) :
    view.scriptSignals fold es s = view.collect fold es s := by
  have hfound : (view.kept fold es s).1.map (fun e => view.family e (view.kept fold es s).2) =
      (view.families fold es s).1 := by
    rw [h.fst_kept hes, h.fst_families hes, snd_kept_eq]
    refine List.map_congr_left fun e he => ?_
    rw [h.family_eq, h.own_written_of_mem hes (List.mem_filter.1 he).1]
  have hpage : (view.kept fold es s).2 = (view.families fold es s).2 := by
    rw [snd_kept_eq, snd_families_eq]
  exact Prod.ext (congrArg Signals.mk hfound) hpage

end Reflects

end PageView

namespace ElementView

variable {ε : Type}

/-- The elements of a page that is made up of them have their states of their own. -/
theorem reflects_page (element : ElementView ε) (n : Nat) :
    (element.page n).Reflects (fun i s => s.get i) element where
  hasStyle_eq _ _ := rfl
  clear_eq _ _ := rfl
  top_eq _ _ := rfl
  family_eq _ _ := rfl
  own_setClear i _ _ := Vector.getElem_set_self i.2
  own_setClear_of_ne i j hij _ _ := Vector.getElem_set_ne j.2 i.2 fun h => hij (Fin.ext h)

/-- A probe of some elements with states of their own finds the families of those above the
fold, and leaves each of them as it is after it was measured. -/
theorem collect_eq (element : ElementView ε) (fold : Float) (elements : List ε) :
    element.collect fold elements =
      (⟨(elements.filter (element.isAbove fold)).map fun x => element.family (element.restored x)⟩,
        elements.map element.restored) := by
  have h := element.reflects_page elements.length
  have hnodup := List.nodup_finRange elements.length
  have hmap : (List.finRange elements.length).map (fun i => elements.toArray.toVector.get i) =
      elements := List.map_get_finRange elements
  have hfound : ((element.page elements.length).families fold (List.finRange elements.length)
      elements.toArray.toVector).1 = (elements.filter (element.isAbove fold)).map
        fun x => element.family (element.restored x) := by
    rw [h.fst_families hnodup, ← congrArg (List.filter (element.isAbove fold)) hmap,
      List.filter_map, List.map_map]
    rfl
  have hleft : ((element.page elements.length).families fold (List.finRange elements.length)
      elements.toArray.toVector).2 = elements.toArray.toVector.map element.restored := by
    refine Vector.ext fun i hi => ?_
    rw [PageView.snd_families_eq, Vector.getElem_map]
    exact h.own_written_of_mem hnodup (List.mem_finRange ⟨i, hi⟩) elements.toArray.toVector
  exact Prod.ext (congrArg Signals.mk hfound) ((congrArg Vector.toList hleft).trans (by simp))

end ElementView

namespace PageView

variable {σ ι : Type}

/-- A probe of the elements of a page finds the families of those that stand above the fold
at their turns, in order and with repetitions, and a log of what is written shows two writes
for each element with a style, `none` and then what its `clear` was, and no other.  An
element on which a write is read back has its `clear` at the end.  If each element has a
state of its own, and none is named twice, the script finds the same and leaves the same
page; and what is found and written can be told from the page at first. -/
theorem collect_follows_script (view : PageView σ ι) (fold : Float) (es : List ι) (s : σ) :
    (view.collect fold es s).1.families =
        ((view.turns es s).filter fun t => view.isAbove fold t.1 t.2).map
          (fun t => view.family t.1 (view.restored t.1 t.2)) ∧
      view.logged.collect fold es (s, []) =
        ((view.collect fold es s).1, (view.collect fold es s).2, view.writes es s) ∧
      (∀ e, view.ReadsBack e → view.clear e (view.collect fold es s).2 = view.clear e s) ∧
      ∀ (ε : Type) (own : ι → σ → ε) (element : ElementView ε), view.Reflects own element →
        es.Nodup → view.scriptSignals fold es s = view.collect fold es s ∧
          (view.collect fold es s).1.families =
            (es.filter fun e => element.isAbove fold (own e s)).map
              (fun e => element.family (element.restored (own e s))) ∧
          view.writes es s = es.flatMap fun e => view.writesAt e s := by
  refine ⟨view.fst_families_eq fold es s, ?_, fun e he => ?_, fun ε own element h hes => ?_⟩
  · rw [collect, collect, families_logged, List.nil_append]
  · exact (congrArg (view.clear e) (view.snd_families_eq fold es s)).trans (he.clear_written es s)
  · exact ⟨h.scriptSignals_eq hes fold s, h.fst_families hes fold s, h.writes_eq hes s⟩

/-- A heading stands below the fold as long as it clears what floats before it: it is found,
and it clears again afterwards.  A line of a drawing has no style and is not written to. -/
theorem collect_follows_script_clearedHeading :
    let element : ElementView String :=
      { hasStyle := (· != "drawn"), clear := id, setClear := fun text _ => text
        top := fun clear => if clear = "none" then 100 else 1200
        family := ("Hero " ++ ·) }
    let view := element.page 3
    let es := List.finRange 3
    let s : Vector String 3 := #v["both", "drawn", ""]
    view.ReadsBack 0 ∧ view.clear 0 (view.collect 800 es s).2 = "both" ∧
      view.scriptSignals 800 es s = view.collect 800 es s ∧
      (view.collect 800 es s).1.families = ["Hero both", "Hero "] ∧
      (view.logged.collect 800 es (s, [])).2.2 =
        [(0, "none"), (0, "both"), (2, "none"), (2, "")] := by
  intro element view es s
  have hback : view.ReadsBack 0 :=
    { clear_setClear := fun text s => Vector.getElem_set_self (by decide)
      clear_setClear_of_ne := fun e he text s =>
        Vector.getElem_set_ne e.2 (by decide) fun h => he (Fin.ext h) }
  obtain ⟨-, hlog, hclear, hscript⟩ := view.collect_follows_script 800 es s
  obtain ⟨hsignals, hfound, hwrites⟩ :=
    hscript String _ element (element.reflects_page 3) (List.nodup_finRange 3)
  refine ⟨hback, hclear 0 hback, hsignals, hfound.trans ?_, ?_⟩
  · decide +kernel
  · rw [hlog]
    exact hwrites.trans (by decide +kernel)

end PageView

end CssPruning.Probe
