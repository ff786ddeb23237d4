import CssPruning.Pipeline

/-!
# What a run with a probe asks of a browser

The browser is any state with any two operations, either of which may fail and
change the state.  To say what a run asks of it, the browser is watched: it
answers as it did, and the calls are written down beside its state.  A run shows
the browser one sheet, and asks it for a reply if it takes the sheet (`Exchange`);
a sheet that cannot be read is not shown at all.  `keepsProtocol` puts together
what holds of every run.
-/

set_option autoImplicit false

namespace CssPruning

namespace Probe

/-! ## Replies -/

namespace Signals

/-- Texts and nothing else are read one by one; anything else among the items is
an error of the reply. -/
theorem mapM_familyOfReply (items : List Json) :
    (∃ families : List String, items = families.map Json.string ∧
      items.mapM familyOfReply = .ok families) ∨
    ((¬ ∃ families : List String, items = families.map Json.string) ∧
      ∃ cause, items.mapM familyOfReply = .error (.reply cause)) := by
  induction items with
  | nil => exact .inl ⟨[], rfl, rfl⟩
  | cons item rest ih =>
    cases item with
    | string family =>
      rcases ih with ⟨families, hrest, hread⟩ | ⟨hrest, cause, hread⟩
      · refine .inl ⟨family :: families, by rw [hrest]; rfl, ?_⟩
        rw [List.mapM_cons, hread]
        rfl
      · refine .inr ⟨?_, cause, ?_⟩
        · rintro ⟨families, h⟩
          cases families with
          | nil => cases h
          | cons _ families => exact hrest ⟨families, (List.cons.inj h).2⟩
        · rw [List.mapM_cons, hread]
          rfl
    | _ =>
      refine .inr ⟨?_, _, by rw [List.mapM_cons]; rfl⟩
      rintro ⟨families, h⟩
      cases families <;> cases h

/-- The signals of an array of texts are the texts. -/
theorem ofReply_array_string (families : List String) :
    ofReply (.array (families.map Json.string)) = .ok ⟨families⟩ := by
  rcases mapM_familyOfReply (families.map Json.string) with ⟨read, h, hread⟩ | ⟨h, -⟩
  · have hfamilies : families = read :=
      (List.map_inj_right fun _ _ => Json.string.inj).1 h
    rw [ofReply, hread, hfamilies]
    rfl
  · exact absurd ⟨families, rfl⟩ h

/-- Every other reply is an error of the reply. -/
theorem ofReply_eq_error {j : Json}
    (h : ¬ ∃ families : List String, j = .array (families.map Json.string)) :
    ∃ cause, ofReply j = .error (.reply cause) := by
  cases j with
  | array items =>
    rcases mapM_familyOfReply items with ⟨families, hitems, -⟩ | ⟨-, cause, hread⟩
    · exact absurd ⟨families, by rw [hitems]⟩ h
    · exact ⟨cause, by rw [ofReply, hread]; rfl⟩
  | _ => exact ⟨_, rfl⟩

end Signals

/-! ## Calls -/

/-- What a browser can be asked. -/
inductive Call where
  | apply (css : String)
  | evaluate (script : String)
  deriving DecidableEq, Repr

section

variable {σ : Type}

/-- A browser that is watched: it answers as before, and every call is added to a
list beside its state. -/
def Browser.watched (b : Browser σ) : Browser (σ × List Call) where
  apply css s :=
    let (reply, s') := b.apply css s.1
    (reply, s', s.2 ++ [.apply css])
  evaluate script s :=
    let (reply, s') := b.evaluate script s.1
    (reply, s', s.2 ++ [.evaluate script])

/-- What passes between a run and a browser in some state: the calls, what the
probe comes to, and the state afterwards. -/
inductive Exchange (b : Browser σ) (shown : String) (s : σ) :
    List Call → Except Error Signals → σ → Prop where
  /-- the browser does not take the sheet, and is asked nothing more -/
  | refused {e : Error} {s' : σ} :
      b.apply shown s = (.error e, s') →
      Exchange b shown s [.apply shown] (.error e) s'
  /-- the script cannot be evaluated -/
  | failed {e : Error} {s₁ s₂ : σ} :
      b.apply shown s = (.ok (), s₁) →
      b.evaluate script s₁ = (.error e, s₂) →
      Exchange b shown s [.apply shown, .evaluate script] (.error e) s₂
  /-- the reply is anything but an array of texts -/
  | misunderstood {j : Json} {cause : String} {s₁ s₂ : σ} :
      b.apply shown s = (.ok (), s₁) →
      b.evaluate script s₁ = (.ok j, s₂) →
      (¬ ∃ families : List String, j = .array (families.map Json.string)) →
      Exchange b shown s [.apply shown, .evaluate script] (.error (.reply cause)) s₂
  /-- the reply is an array of texts -/
  | answered {families : List String} {s₁ s₂ : σ} :
      b.apply shown s = (.ok (), s₁) →
      b.evaluate script s₁ = (.ok (.array (families.map Json.string)), s₂) →
      Exchange b shown s [.apply shown, .evaluate script] (.ok ⟨families⟩) s₂

end

end Probe

namespace Pipeline

open Probe

variable {σ : Type}

/-- Showing a sheet to a browser is one of the exchanges, and these are the calls
that are written down if the browser is watched. -/
theorem exists_exchange_render (b : Browser σ) (shown : String) (s : σ) :
    ∃ calls, Exchange b shown s calls (render b shown s).signals (render b shown s).state ∧
      ∀ before, render b.watched shown (s, before) =
        ⟨(render b shown s).signals, (render b shown s).events,
          ((render b shown s).state, before ++ calls)⟩ := by
  rcases happly : b.apply shown s with ⟨_ | _, s₁⟩
  case error e =>
    have hrender : render b shown s = ⟨.error e, [], s₁⟩ := by rw [render, happly]
    refine ⟨[.apply shown], ?_, fun before => ?_⟩
    · rw [hrender]
      exact .refused happly
    · rw [hrender, render]
      simp only [Browser.watched, happly]
  case ok =>
    rcases hevaluate : b.evaluate script s₁ with ⟨reply, s₂⟩
    have hrender : render b shown s = ⟨received reply,
        .message .debug .probe "getUsedFonts init" :: replyEvents reply, s₂⟩ := by
      simp only [render, happly, Probe.run, hevaluate]
    refine ⟨[.apply shown, .evaluate script], ?_, fun before => ?_⟩
    · rw [hrender]
      cases reply with
      | error e => exact .failed happly hevaluate
      | ok j =>
        change Exchange b shown s _ (Signals.ofReply j) s₂
        by_cases htexts : ∃ families : List String, j = .array (families.map Json.string)
        · obtain ⟨families, rfl⟩ := htexts
          rw [Signals.ofReply_array_string]
          exact .answered happly hevaluate
        · obtain ⟨cause, herror⟩ := Signals.ofReply_eq_error htexts
          rw [herror]
          exact .misunderstood happly hevaluate htexts
    · rw [hrender, render]
      simp only [Browser.watched, happly, Probe.run, hevaluate, List.append_assoc,
        List.cons_append, List.nil_append]

/-! ## Runs -/

/-- A text that cannot be read leaves a browser as it is. -/
theorem processWithProbe_of_parse_eq_error {p : Pipeline} {css : String} {e : Error}
    (hparse : Sheet.parse css = .error e) (b : Browser σ) (s : σ) :
    p.processWithProbe css b s = (⟨.error e, []⟩, s) := by
  rw [processWithProbe, hparse]

/-- A run with a probe, told by what showing the sheet comes to. -/
theorem processWithProbe_of_parse {p : Pipeline} {css : String} {sheet : Sheet}
    (hparse : Sheet.parse css = .ok sheet) (b : Browser σ) (s : σ) :
    (p.processWithProbe css b s).1.result =
      (render b (p.preformat sheet).sheet.write s).signals.map
        (fun signals => (p.complete (p.preformat sheet) (some signals)).1) ∧
    (p.processWithProbe css b s).2 = (render b (p.preformat sheet).sheet.write s).state := by
  simp only [processWithProbe, hparse]
  cases (render b (p.preformat sheet).sheet.write s).signals <;> exact ⟨rfl, rfl⟩

/-- What is reported and what comes out of a run depend on a browser by what showing
the sheet comes to, and not by its state. -/
theorem processWithProbe_congr {τ : Type} {p : Pipeline} {css : String} {b : Browser σ}
    {c : Browser τ} {s : σ} {t : τ}
    (h : ∀ shown, (render c shown t).signals = (render b shown s).signals ∧
      (render c shown t).events = (render b shown s).events) :
    (p.processWithProbe css c t).1 = (p.processWithProbe css b s).1 := by
  rw [processWithProbe, processWithProbe]
  cases Sheet.parse css with
  | error e => rfl
  | ok sheet =>
    obtain ⟨hsignals, hevents⟩ := h (p.preformat sheet).sheet.write
    simp only [hsignals, hevents]
    cases (render b (p.preformat sheet).sheet.write s).signals <;> rfl

/-- That the browser is watched changes nothing in what is reported and what comes out. -/
theorem processWithProbe_watched (p : Pipeline) (css : String) (b : Browser σ) (s : σ)
    (before : List Call) :
    (p.processWithProbe css b.watched (s, before)).1 = (p.processWithProbe css b s).1 := by
  apply processWithProbe_congr
  intro shown
  obtain ⟨calls, -, hrender⟩ := exists_exchange_render b shown s
  rw [hrender before]
  exact ⟨rfl, rfl⟩

/-- Without a request for rendered names, what a probe saw changes nothing. -/
theorem complete_of_not_requireRendered {p : Pipeline} (hp : p.requireRendered = false)
    (media : Media.Outcome) (signals : Option Signals) :
    (p.complete media signals).1 = (p.complete media none).1 := by
  have hcounted (used : Font.NameSet) : p.countedFonts used signals = p.countedFonts used none := by
    rw [countedFonts, countedFonts, hp, if_neg (by decide), if_neg (by decide)]
  simp only [complete, postformat, hcounted]

/-- Without a request for rendered names, an output of a run with a probe is that of a
run without one. -/
theorem result_process_of_not_requireRendered {p : Pipeline} (hp : p.requireRendered = false)
    {css : String} {output : Output} {b : Browser σ} {s : σ}
    (houtput : (p.processWithProbe css b s).1.result = .ok output) :
    (p.process css).result = .ok output := by
  cases hparse : Sheet.parse css with
  | error e =>
    rw [processWithProbe_of_parse_eq_error hparse] at houtput
    cases houtput
  | ok sheet =>
    rw [(processWithProbe_of_parse hparse b s).1] at houtput
    cases hsignals : (render b (p.preformat sheet).sheet.write s).signals with
    | error e =>
      rw [hsignals] at houtput
      cases houtput
    | ok signals =>
      rw [hsignals] at houtput
      have hsame := complete_of_not_requireRendered hp (p.preformat sheet) (some signals)
      rw [process, hparse]
      exact (congrArg Except.ok hsame.symm).trans houtput

/-- What a run with a probe keeps to. -/
structure KeepsProtocol (p : Pipeline) (css : String) (b : Browser σ) (s : σ) : Prop where
  /-- a watched browser goes through the same states, and sees the run end alike -/
  watched : ∀ before,
    (p.processWithProbe css b.watched (s, before)).1 = (p.processWithProbe css b s).1 ∧
      (p.processWithProbe css b.watched (s, before)).2.1 = (p.processWithProbe css b s).2
  /-- a text that cannot be read ends the run before any call -/
  unread : ∀ e, Sheet.parse css = .error e →
    (p.processWithProbe css b s).1.result = .error e ∧
      ∀ before, (p.processWithProbe css b.watched (s, before)).2 = (s, before)
  /-- a sheet is shown as preformatting leaves it, in one exchange; the run fails with
  the error that the exchange ends in, and succeeds if it ends in signals -/
  shown : ∀ sheet, Sheet.parse css = .ok sheet →
    ∃ calls signals s', Exchange b (p.preformat sheet).sheet.write s calls signals s' ∧
      (∀ before, (p.processWithProbe css b.watched (s, before)).2 = (s', before ++ calls)) ∧
      (p.processWithProbe css b s).1.result =
        signals.map (fun seen => (p.complete (p.preformat sheet) (some seen)).1)
  /-- without a request for rendered names, an output is the one of a run without a
  probe -/
  unasked : p.requireRendered = false → ∀ output,
    (p.processWithProbe css b s).1.result = .ok output → (p.process css).result = .ok output

/-- Every run with a probe keeps to the protocol, whatever the browser does. -/
theorem keepsProtocol (p : Pipeline) (css : String) (b : Browser σ) (s : σ) :
    KeepsProtocol p css b s := by
  cases hparse : Sheet.parse css with
  | error e =>
    have hrun {τ : Type} (c : Browser τ) (t : τ) :=
      processWithProbe_of_parse_eq_error (p := p) hparse c t
    constructor
    case watched =>
      intro before
      exact ⟨processWithProbe_watched p css b s before, by rw [hrun, hrun]⟩
    case unread =>
      intro _ h
      obtain rfl := Except.error.inj (hparse.symm.trans h)
      exact ⟨by rw [hrun], fun before => by rw [hrun]⟩
    case shown => exact fun sheet h => nomatch hparse.symm.trans h
    case unasked => exact fun hp _ => result_process_of_not_requireRendered hp
  | ok sheet =>
    obtain ⟨calls, hexchange, hrender⟩ :=
      exists_exchange_render b (p.preformat sheet).sheet.write s
    obtain ⟨hresult, hstate⟩ := processWithProbe_of_parse (p := p) hparse b s
    have hcalls (before : List Call) : (p.processWithProbe css b.watched (s, before)).2 =
        ((render b (p.preformat sheet).sheet.write s).state, before ++ calls) := by
      rw [(processWithProbe_of_parse hparse b.watched (s, before)).2, hrender before]
    constructor
    case watched =>
      intro before
      exact ⟨processWithProbe_watched p css b s before, by rw [hcalls before, hstate]⟩
    case unread => exact fun e h => nomatch hparse.symm.trans h
    case shown =>
      rintro _ h
      obtain rfl := Except.ok.inj (hparse.symm.trans h)
      exact ⟨calls, _, _, hexchange, hcalls, hresult⟩
    case unasked => exact fun hp _ => result_process_of_not_requireRendered hp

end Pipeline

end CssPruning
