/-!
# Events

Each stage of the library reports what it does as events.  An event has a level,
the stage it comes from and named fields; what it says in words is the field
`message`.  Events are values: a stage's events are computed beside its result
and never influence it.
-/

set_option autoImplicit false

namespace CssPruning

/-- How much an event matters. -/
inductive Level where
  | trace
  | debug
  | info
  | warn
  | error
  deriving DecidableEq, Repr, Inhabited

/-- The stage that an event comes from. -/
inductive Stage where
  | preformatting
  | fontFaceCleanup
  | probe
  deriving DecidableEq, Repr, Inhabited

/-- The name by which listeners choose a stage. -/
def Stage.target : Stage → String
  | preformatting => "critcss::preformatting"
  | fontFaceCleanup => "critcss::font_face_cleanup"
  | probe => "critcss::probe"

/-- What a field of an event holds. -/
inductive Detail where
  | text (s : String)
  | count (n : Nat)
  | flag (b : Bool)
  deriving DecidableEq, Repr, Inhabited

/-- Something that a stage reports. -/
structure Event where
  level : Level
  stage : Stage
  fields : List (String × Detail)
  deriving DecidableEq, Repr, Inhabited

namespace Event

/-- A message and nothing else. -/
def message (level : Level) (stage : Stage) (text : String) : Event :=
  ⟨level, stage, [("message", .text text)]⟩

/-- A remark about a stage. -/
def remark (level : Level) (stage : Stage) (text : String) : Event :=
  ⟨level, stage, [("detail", .text text)]⟩

/-- A named step of a stage. -/
def milestone (stage : Stage) (name text : String) : Event :=
  ⟨.info, stage, [("event", .text name), ("detail", .text text)]⟩

end Event

end CssPruning
