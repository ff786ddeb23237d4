import CssPruning.Font.Usage
import CssPruning.Sheet.Visitor

/-!
# Gathering usage on a visit

A visitor that counts the style rules around it gathers the families that a sheet
asks for as it goes, and records the variables on the way.
-/

set_option autoImplicit false

namespace CssPruning.Font

/-- The usage found so far, and how many style rules are around. -/
structure Collector extends Usage where
  ruleDepth : Nat
  deriving Repr, Inhabited

namespace Collector

/-- With some more names in use. -/
def use (c : Collector) (names : List String) : Collector :=
  { c with used := c.used.addAll (names.map Text.lower) }

/-- Goes into a rule with one more rule around, and comes out with one less. -/
def inRule (inside : Collector → Collector) (c : Collector) : Collector :=
  let c := inside { c with ruleDepth := c.ruleDepth + 1 }
  { c with ruleDepth := c.ruleDepth - 1 }

/-- Records a variable; asks for nothing else outside of rules. -/
def meet (d : Declaration) (c : Collector) : Collector :=
  if d.isCustom then { c with known := record c.known d }
  else if c.ruleDepth = 0 then c
  else c.use (Usage.asked c.known d)

/-- The visitor that gathers usage. -/
def visitor : Visitor Collector where
  rule _ _ inside := inRule inside
  declaration d _ := meet d

end Collector

/-- The usage that a visitor gathers from a sheet, with the variables known
beforehand. -/
def collect (vs : Variables) (sheet : Sheet) : Usage :=
  (sheet.visit Collector.visitor { known := vs, used := [], ruleDepth := 0 }).toUsage

end CssPruning.Font
