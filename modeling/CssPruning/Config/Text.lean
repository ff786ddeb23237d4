import CssPruning.Config.Decode
import CssPruning.Toml.Reader

/-!
# Configuration texts

A configuration text is either unreadable, with a fault of the text or of what it
says, or unusable, or it spells a pipeline.
-/

set_option autoImplicit false

namespace CssPruning.Config

/-- The formats of configuration texts. -/
inductive Format where
  | toml
  | json
  deriving DecidableEq, Repr, Inhabited

/-- The name of a format. -/
def Format.name : Format → String
  | toml => "TOML"
  | json => "JSON"

/-- Why a configuration text gives no pipeline. -/
inductive Refusal where
  | unreadable (format : Format) (fault : Fault)
  | unusable (error : Error)
  deriving DecidableEq, Repr, Inhabited

/-- The message of a refusal. -/
def Refusal.message : Refusal → String
  | unreadable format _ => "Invalid critcss " ++ format.name ++ " configuration"
  | unusable error => error.text

/-- What a JSON text says.  Nothing but blanks may follow it. -/
def readJson (text : String) : Except Fault Pipeline :=
  let (reading, trailing) := Json.Reading.ofText text
  match pipeline jsonText reading with
  | .ok p => if trailing then .error (.text .malformed) else .ok p
  | .error fault => .error fault

/-- What a TOML document says. -/
def readToml (text : String) : Except Fault Pipeline :=
  match Toml.parse? text with
  | some entries => pipeline Config.toml (.table .defined entries)
  | none => .error (.text .malformed)

/-- What a text in some format says. -/
def read : Format → String → Except Fault Pipeline
  | .toml => readToml
  | .json => readJson

end CssPruning.Config

namespace CssPruning

open Config

/-- The pipeline of a configuration text. -/
def Pipeline.ofText (format : Format) (text : String) : Except Refusal Pipeline :=
  match read format text with
  | .error fault => .error (.unreadable format fault)
  | .ok p => p.validated.mapError .unusable

/-- The target that a JSON value is. -/
def Target.ofJson (j : Json) : Except Config.Fault Target :=
  target jsonValue (.ofValue j)

end CssPruning
