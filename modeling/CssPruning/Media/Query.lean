import CssPruning.Text.Quoted

/-!
# Media queries

A media query list is a choice of queries.  A query names a media type and
demands some conditions at once, or the opposite of all that.  A condition tests
a feature of the medium against a value, from below or above if it has a bound.
-/

set_option autoImplicit false

namespace CssPruning.Media

/-- The side from which a value bounds a feature. -/
inductive Bound where
  | min
  | max
  deriving DecidableEq, Repr, Inhabited

/-- The word for a bound. -/
def Bound.word : Bound → String
  | min => "min"
  | max => "max"

/-- A test of a feature. -/
structure Condition where
  bound : Option Bound
  /-- the feature's name in small letters, without the bound -/
  feature : String
  value : Option String
  deriving DecidableEq, Repr, Inhabited

/-- A media type and conditions on the medium. -/
structure Query where
  negated : Bool
  /-- the media type in small letters, `all` if the text has none -/
  mediaType : String
  conditions : List Condition
  deriving DecidableEq, Repr, Inhabited

/-- The text of a condition. -/
def Condition.text (c : Condition) : String :=
  let bound := match c.bound with
    | some b => b.word ++ "-"
    | none => ""
  let value := match c.value with
    | some v => ": " ++ v
    | none => ""
  "(" ++ bound ++ c.feature ++ value ++ ")"

namespace Query

/-- The query for any medium with some conditions. -/
def ofConditions (cs : List Condition) : Query := ⟨false, "all", cs⟩

/-- The text of a query.  The type `all` is left out where conditions follow. -/
def text (q : Query) : String :=
  let type :=
    if q.negated || q.mediaType != "all" || q.conditions.isEmpty then
      [(if q.negated then "not " else "") ++ q.mediaType]
    else []
  " and ".intercalate (type ++ q.conditions.map Condition.text)

end Query

/-- A text that is no media query: the part at fault. -/
structure QueryError where
  query : String
  deriving DecidableEq, Repr, Inhabited

/-- The wording of a query error. -/
def QueryError.message (e : QueryError) : String :=
  "invalid media query: " ++ Text.quoted e.query

end CssPruning.Media
