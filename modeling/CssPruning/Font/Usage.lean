import CssPruning.Font.Names
import CssPruning.Sheet.Walk
import CssPruning.Text.Lowercase

/-!
# Families that style rules ask for

The declarations of a sheet are gone through once, in order.  A variable is
recorded wherever it stands; `font-family` and `font` count only under a style
rule, and of `font` only the last component.  So a reference finds what was
recorded before it, and nothing that comes later.
-/

set_option autoImplicit false

namespace CssPruning.Font

/-- The variables recorded and the names in use so far, in small letters. -/
structure Usage where
  known : Variables
  used : NameSet
  deriving Repr, Inhabited

namespace Usage

/-- The names that a declaration under a style rule asks for. -/
def asked (vs : Variables) (d : Declaration) : List String :=
  match d.propertyName with
  | "font-family" => names vs d.value
  | "font" =>
    match d.value.last with
    | some c => componentNames vs c
    | none => []
  | _ => []

/-- One more declaration; `underRule` if a style rule is around it. -/
def step (u : Usage) (d : Declaration) (underRule : Bool) : Usage :=
  if d.isCustom then { u with known := record u.known d }
  else if underRule then { u with used := u.used.addAll ((asked u.known d).map Text.lower) }
  else u

/-- What one more declaration reports. -/
def stepEvents (d : Declaration) (underRule : Bool) : List Event :=
  if d.isCustom then nameEvents d.value
  else if underRule then
    match d.propertyName with
    | "font-family" => nameEvents d.value
    | "font" => nameEvents d.value.last.toList
    | _ => []
  else []

/-- The usage after some declarations. -/
def run (u : Usage) (ds : List (Declaration × Bool)) : Usage :=
  ds.foldl (fun u d => u.step d.1 d.2) u

end Usage

/-- The usage of a sheet, with the variables known beforehand. -/
def usage (vs : Variables) (sheet : Sheet) : Usage := Usage.run ⟨vs, []⟩ sheet.declarations

/-- What gathering the usage of a sheet reports. -/
def usageEvents (vs : Variables) (sheet : Sheet) : List Event :=
  let u := usage vs sheet
  .message .debug .fontFaceCleanup "collecting used font names" ::
    sheet.declarations.flatMap (fun d => Usage.stepEvents d.1 d.2) ++
    [⟨.debug, .fontFaceCleanup,
      [("used", .count u.used.length), ("variables", .count u.known.size),
        ("message", .text "collected used font names")]⟩]

end CssPruning.Font
