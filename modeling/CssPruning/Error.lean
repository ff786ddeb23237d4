import CssPruning.Location

/-!
# Errors

A style sheet or a value that cannot be read has a `Fault`: what is wrong and
where, counted in characters.  A caller of the library sees an `Error`, one of
four kinds, with a message for people; that of a fault has its line and column.
-/

set_option autoImplicit false

namespace CssPruning

/-- What can be wrong with the text of a sheet or a value. -/
inductive Flaw where
  | unclosedComment
  | unclosedString
  | unclosedParenthesis
  | unclosedBlock
  | unclosedCommentInValue
  | unclosedStringInValue
  | unclosedParenthesisInValue
  | malformedUrl
  /-- something of a block that has not been read when its reader returns -/
  | unexpectedInput (printed : String)
  deriving DecidableEq, Repr, Inhabited

/-- The wording of a flaw. -/
def Flaw.message : Flaw → String
  | unclosedComment => "unclosed comment"
  | unclosedString => "unclosed string"
  | unclosedParenthesis => "unclosed parenthesis"
  | unclosedBlock => "unclosed block"
  | unclosedCommentInValue => "unclosed comment in value"
  | unclosedStringInValue => "unclosed string in value"
  | unclosedParenthesisInValue => "unclosed parenthesis in value"
  | malformedUrl => "malformed url()"
  | unexpectedInput printed => "unexpected input: " ++ printed

/-- A flaw and the place of the text it is found at. -/
structure Fault where
  flaw : Flaw
  offset : Nat
  deriving DecidableEq, Repr, Inhabited

/-- Why an operation of the library failed. -/
inductive Error where
  /-- a text that is not a style sheet or not a value -/
  | parse (message : String) (place : Location)
  | config (message : String)
  /-- the rendering probe failed, or its reply was not understood -/
  | probe (message : String) (cause : Option String)
  | invalidArgument (message : String)
  deriving DecidableEq, Repr, Inhabited

namespace Error

/-- The error for a fault of a text. -/
def ofFault (text : List Char) (f : Fault) : Error :=
  .parse f.flaw.message (.ofOffset text f.offset)

/-- The error for a probe reply of the wrong shape. -/
def reply (cause : String) : Error :=
  .probe ("unexpected probe reply: " ++ cause) (some cause)

/-- The whole message. -/
def text : Error → String
  | parse message ⟨line, column⟩ =>
    "Parse error at " ++ toString line ++ ":" ++ toString column ++ ": " ++ message
  | config message => "Config error: " ++ message
  | probe message _ => "Probe error: " ++ message
  | invalidArgument message => "Invalid argument: " ++ message

/-- A caller may fall back to the sheet as it was. -/
def recoverable : Error → Bool
  | parse .. | probe .. => true
  | config _ | invalidArgument _ => false

/-- Where in a text the error is. -/
def place : Error → Option Location
  | parse _ p => some p
  | _ => none

/-- The error behind this one. -/
def cause : Error → Option String
  | probe _ c => c
  | _ => none

end Error

end CssPruning
