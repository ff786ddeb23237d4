import CssPruning.Probe.Script
import CssPruning.Probe.Signals

/-!
# Probing a page in a browser

A browser holds a page somewhere else.  It can be told to use a sheet, and to
evaluate a script and reply; either may fail, and either may change the browser.
-/

set_option autoImplicit false

namespace CssPruning.Probe

/-- A browser with a state. -/
structure Browser (σ : Type) where
  apply : String → σ → Except Error Unit × σ
  evaluate : String → σ → Except Error Json × σ

/-- A browser that styles its page in some other way takes any sheet. -/
def Browser.plain {σ : Type} (evaluate : String → σ → Except Error Json × σ) : Browser σ :=
  ⟨fun _ s => (.ok (), s), evaluate⟩

/-- What a reply is worth. -/
def received (reply : Except Error Json) : Except Error Signals := reply.bind Signals.ofReply

/-- What a reply reports.  A failure of the browser is no reply. -/
def replyEvents (reply : Except Error Json) : List Event :=
  match reply with
  | .error _ => []
  | .ok j =>
    match Signals.ofReply j with
    | .ok s => [⟨.debug, .probe,
        [("families", .count s.families.length), ("message", .text "probe replied")]⟩]
    | .error e => [.remark .warn .probe ("reply rejected: " ++ e.text)]

/-- The outcome of a probe: the signals, what was reported, and the browser
afterwards. -/
structure Outcome (σ : Type) where
  signals : Except Error Signals
  events : List Event
  state : σ

/-- Has the script evaluated, and reads the reply. -/
def run {σ : Type} (b : Browser σ) (s : σ) : Outcome σ :=
  let (reply, s) := b.evaluate script s
  { signals := received reply
    events := .message .debug .probe "getUsedFonts init" :: replyEvents reply
    state := s }

end CssPruning.Probe
