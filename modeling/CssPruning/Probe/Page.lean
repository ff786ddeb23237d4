import CssPruning.Probe.Signals

/-!
# Probing a laid-out page

An embedder that lays pages out itself can gather the signals without a script.
While an element is measured its `clear` is forced to `none`, so that an element
that clears earlier content still counts as above the fold; afterwards it is put
back, and the family of an element above the fold is read before the next one is
measured.

In a page of its own the script goes through the elements twice: it measures all of
them and keeps those above the fold, and then it reads the families of these.
-/

set_option autoImplicit false

namespace CssPruning.Probe

/-- How to look at the elements of a page in some state, and how to set the `clear`
of one.  To look changes nothing; to set it on one element may change what others
show. -/
structure PageView (σ ι : Type) where
  /-- the element has a style that can be set -/
  hasStyle : ι → σ → Bool
  clear : ι → σ → String
  setClear : ι → String → σ → σ
  /-- the upper edge, in pixels from the top of the viewport -/
  top : ι → σ → Float
  family : ι → σ → String

namespace PageView

variable {σ ι : Type}

/-- Whether an element stands above the fold, and the page after it was measured. -/
def measure (view : PageView σ ι) (fold : Float) (e : ι) (s : σ) : Bool × σ :=
  let original := if view.hasStyle e s then some (view.clear e s) else none
  let s := if original.isSome then view.setClear e "none" s else s
  let above := decide (view.top e s < fold)
  match original with
  | some clear => (above, view.setClear e clear s)
  | none => (above, s)

/-- The families of the elements above the fold, and the page afterwards. -/
def families (view : PageView σ ι) (fold : Float) : List ι → σ → List String × σ
  | [], s => ([], s)
  | e :: es, s =>
    let (above, s) := view.measure fold e s
    let found := if above then [view.family e s] else []
    let (rest, s) := view.families fold es s
    (found ++ rest, s)

/-- The signals of some elements of a page, in order, and the page afterwards.  The
fold is the height of the viewport. -/
def collect (view : PageView σ ι) (fold : Float) (es : List ι) (s : σ) : Signals × σ :=
  let (families, s) := view.families fold es s
  (⟨families⟩, s)

/-! ## The course of the script -/

/-- A text in the script, where an empty one counts as none and is replaced by `''`. -/
def orEmpty (text : String) : String := if text.isEmpty then "" else text

/-- Whether the script takes an element for one above the fold, and the page after it
has asked. -/
def isElementAboveFold (view : PageView σ ι) (fold : Float) (e : ι) (s : σ) : Bool × σ :=
  if view.hasStyle e s then
    let original := orEmpty (view.clear e s)
    let s := view.setClear e "none" s
    (decide (view.top e s < fold), view.setClear e original s)
  else (decide (view.top e s < fold), s)

/-- The elements that the script keeps, and the page afterwards. -/
def kept (view : PageView σ ι) (fold : Float) : List ι → σ → List ι × σ
  | [], s => ([], s)
  | e :: es, s =>
    let (above, s) := view.isElementAboveFold fold e s
    let (rest, s) := view.kept fold es s
    (if above then e :: rest else rest, s)

/-- The signals that the script replies with, and the page afterwards. -/
def scriptSignals (view : PageView σ ι) (fold : Float) (es : List ι) (s : σ) : Signals × σ :=
  let (above, s) := view.kept fold es s
  (⟨above.map fun e => view.family e s⟩, s)

end PageView

/-! ## Elements with a state of their own -/

/-- How to look at an element that has a state of its own, and how to set its `clear`. -/
structure ElementView (ε : Type) where
  hasStyle : ε → Bool
  clear : ε → String
  setClear : String → ε → ε
  top : ε → Float
  family : ε → String

namespace ElementView

variable {ε : Type}

/-- A page with some elements, each in its state. -/
def page (view : ElementView ε) (n : Nat) : PageView (Vector ε n) (Fin n) where
  hasStyle i s := view.hasStyle s[i]
  clear i s := view.clear s[i]
  setClear i text s := s.set i (view.setClear text s[i])
  top i s := view.top s[i]
  family i s := view.family s[i]

/-- The signals of a page with some elements, in order, and the elements
afterwards. -/
def collect (view : ElementView ε) (fold : Float) (elements : List ε) : Signals × List ε :=
  let n := elements.length
  let (signals, s) := (view.page n).collect fold (List.finRange n) elements.toArray.toVector
  (signals, s.toList)

end ElementView

end CssPruning.Probe
