import CssPruning.Font.Face

/-!
# Looking at a face, one declaration after the other

A face is gone through once.  The family on record is the first one that can be made
out, whether it is in use or not; and a single family that is not in use, or cannot be
made out, settles that the face is not used.
-/

set_option autoImplicit false

namespace CssPruning.Font

/-- What the declarations of a face have said so far, and the events. -/
structure Inspection where
  /-- the first family that could be made out, in small letters -/
  family : Option String
  /-- every family so far is in use -/
  used : Bool
  hasSource : Bool
  events : List Event

namespace Inspection

/-- Nothing has been looked at. -/
def opening : Inspection := ⟨none, true, false, []⟩

/-- One more declaration. -/
def look (used : NameSet) (vs : Variables) (i : Inspection) (d : Declaration) : Inspection :=
  match d.propertyName with
  | "font-family" =>
    let family := firstFamily vs d.value
    { i with
      family := i.family.or family
      used := i.used && family.any used.contains
      events := i.events ++ familyEvents used vs d.value }
  | "src" => { i with hasSource := true }
  | _ => i

/-- The entry for the report, if what was said is reason enough to remove the face. -/
def dropped (i : Inspection) : Option DroppedFace :=
  if !i.used then some ⟨i.family, .unused⟩
  else if !i.hasSource then some ⟨i.family, .noSource⟩
  else none

end Inspection

/-- All that a face says. -/
def inspect (used : NameSet) (vs : Variables) (face : AtRule) : Inspection :=
  face.declarations.foldl (Inspection.look used vs) .opening

end CssPruning.Font
