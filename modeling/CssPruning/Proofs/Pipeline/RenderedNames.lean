import CssPruning.Proofs.Pipeline.UsedFaces

/-!
# What a probe saw, and what stays

A run may count only the names that a probe saw rendered.  The less a probe saw,
the fewer names count and the fewer faces stay, and they are among those that stay
where more was seen or where nothing is asked of a probe (`LeavesLess`).  Nothing
else of what the probe reports counts: not the order of the families, not how
often each occurs, and not whether some of them can be read.
-/

set_option autoImplicit false

namespace CssPruning

namespace Font

variable {used used' : NameSet} {vs : Variables}

/-- A face that survives if few names are in use survives if more are. -/
theorem survives_mono {r : AtRule} (h : ∀ name ∈ used, name ∈ used')
    (hr : survives used vs r = true) : survives used' vs r = true := by
  cases hface : r.isFontFace with
  | false => exact survives_of_not_isFontFace hface
  | true =>
    rw [survives_iff_of_isFontFace hface, isUsed_iff] at hr ⊢
    refine ⟨?_, hr.2⟩
    intro d hd hfamily
    obtain ⟨name, hname, hused⟩ := hr.1 d hd hfamily
    exact ⟨name, hname, h _ hused⟩

end Font

namespace Pipeline

/-! ## Names that were seen -/

/-- The families that a probe reports; none without a probe. -/
def reported (signals : Option Probe.Signals) : List String :=
  match signals with
  | some s => s.families
  | none => []

/-- A name was seen if one of the reported families names it. -/
theorem mem_rendered {signals : Option Probe.Signals} {name : String} :
    name ∈ rendered signals ↔
      ∃ family ∈ reported signals, name ∈ Probe.Signals.familyNames family := by
  cases signals with
  | none => simp [rendered, reported]
  | some s =>
    rw [rendered, Probe.Signals.fontNames, Font.NameSet.mem_addAll, List.mem_flatMap, reported]
    exact or_iff_right List.not_mem_nil

theorem mem_countedFonts {p : Pipeline} {used : Font.NameSet} {signals : Option Probe.Signals}
    {name : String} :
    name ∈ p.countedFonts used signals ↔
      name ∈ used ∧ (p.requireRendered = true → name ∈ rendered signals) := by
  unfold countedFonts
  split
  · rename_i hp
    rw [List.mem_filter, List.contains_iff_mem, forall_prop_of_true hp]
  · rename_i hp
    rw [and_iff_left fun h => absurd h hp]

/-- More reported families are more names seen. -/
theorem rendered_mono {a b : Option Probe.Signals} (h : ∀ family ∈ reported a, family ∈ reported b)
    {name : String} (hname : name ∈ rendered a) : name ∈ rendered b := by
  rw [mem_rendered] at hname ⊢
  obtain ⟨family, hfamily, hnames⟩ := hname
  exact ⟨family, h family hfamily, hnames⟩

/-! ## Runs that count fewer names -/

/-- What postformatting leaves, said without the pass. -/
theorem sheet_postformat (p : Pipeline) (sheet : Sheet) (signals : Option Probe.Signals) :
    (p.postformat sheet signals).sheet =
      if p.stripComments then Sheet.stripComments (Node.allKept (p.keepsFace sheet signals) sheet)
      else Node.allKept (p.keepsFace sheet signals) sheet := by
  have hprune : (sheet.prune (p.keepsFace sheet signals)).sheet =
      Node.allKept (p.keepsFace sheet signals) sheet := Node.sheet_prune _ sheet
  rw [← hprune]
  rfl

/-- The face, or other at-rule, stays at its place: neither it nor an at-rule around it
is taken away. -/
def Stays (p : Pipeline) (sheet : Sheet) (signals : Option Probe.Signals) (place : Place)
    (r : AtRule) : Prop :=
  p.keepsFace sheet signals r = true ∧
    ∀ outer ∈ place.around r.toNode, p.keepsFace sheet signals outer = true

/-- An at-rule that stays is in what is left, with what is left inside of it. -/
theorem Stays.postformat_eq {p : Pipeline} {sheet : Sheet} {signals : Option Probe.Signals}
    {place : Place} {r : AtRule} (h : p.Stays sheet signals place r)
    (hsheet : sheet = place.fill r.toNode) :
    (p.postformat sheet signals).sheet =
      (p.placeAfter sheet signals place).fill (r.withKept (p.keepsFace sheet signals)).toNode :=
  postformat_fill hsheet h.2 (AtRule.kept_toNode h.1) rfl

/-- What one run with some signals leaves of a sheet, compared to what another run
with other signals leaves of it. -/
structure LeavesLess (sheet : Sheet) (p : Pipeline) (a : Option Probe.Signals) (q : Pipeline)
    (b : Option Probe.Signals) : Prop where
  /-- fewer names count -/
  used : ∀ name ∈ (p.postformat sheet a).report.used, name ∈ (q.postformat sheet b).report.used
  /-- what stays for the one stays for the other, in its place -/
  stays : ∀ (place : Place) (r : AtRule), sheet = place.fill r.toNode → p.Stays sheet a place r →
    q.Stays sheet b place r ∧
      (q.postformat sheet b).sheet =
        (q.placeAfter sheet b place).fill (r.withKept (q.keepsFace sheet b)).toNode
  /-- one more pass, for the fewer names and the same variables, makes up the difference -/
  pruned : (Font.pruneFaces (p.postformat sheet a).report.used (Font.usage .empty sheet).known
    (q.postformat sheet b).sheet).sheet = (p.postformat sheet a).sheet
  /-- which is in faces that are useless for the fewer names, and in nothing else -/
  deleted : Node.Deleted
    (Font.Useless (p.postformat sheet a).report.used (Font.usage .empty sheet).known)
    (q.postformat sheet b).sheet (p.postformat sheet a).sheet

/-- Two runs that only count other names are compared by the names that they count. -/
theorem leavesLess_of_used {sheet : Sheet} {p q : Pipeline} {a b : Option Probe.Signals}
    (hstrip : p.stripComments = q.stripComments)
    (h : ∀ name ∈ (p.postformat sheet a).report.used,
      name ∈ (q.postformat sheet b).report.used) : LeavesLess sheet p a q b := by
  have hkeeps (r : AtRule) (hr : p.keepsFace sheet a r = true) : q.keepsFace sheet b r = true :=
    Font.survives_mono h hr
  have hagain : Node.allKept (p.keepsFace sheet a) (q.postformat sheet b).sheet =
      (p.postformat sheet a).sheet := by
    have hfaces : Node.allKept (p.keepsFace sheet a) (Node.allKept (q.keepsFace sheet b) sheet) =
        Node.allKept (p.keepsFace sheet a) sheet :=
      Node.allKept_allKept_of_imp (Font.survives_withKept _) hkeeps sheet
    rw [sheet_postformat, sheet_postformat, hstrip]
    cases q.stripComments with
    | false => exact hfaces
    | true => rw [if_pos rfl, if_pos rfl, Sheet.allKept_stripComments, hfaces]
  constructor
  case used => exact h
  case stays =>
    intro place r hsheet hstays
    have hstays' : q.Stays sheet b place r :=
      ⟨hkeeps r hstays.1, fun outer houter => hkeeps outer (hstays.2 outer houter)⟩
    exact ⟨hstays', hstays'.postformat_eq hsheet⟩
  case pruned =>
    rw [← hagain]
    exact Node.sheet_prune _ _
  case deleted =>
    rw [← hagain]
    exact Node.deleted_allKept (fun r => Font.survives_iff) _

/-- The sheet and the report hang on the signals by the names that were seen. -/
theorem postformat_congr {p : Pipeline} {sheet : Sheet} {a b : Option Probe.Signals}
    (h : ∀ name, name ∈ rendered a ↔ name ∈ rendered b) :
    (p.postformat sheet a).sheet = (p.postformat sheet b).sheet ∧
      (p.postformat sheet a).report = (p.postformat sheet b).report := by
  have hcounted (used : Font.NameSet) : p.countedFonts used a = p.countedFonts used b := by
    have hcontains : (rendered a).contains = (rendered b).contains := by
      funext name
      rw [Bool.eq_iff_iff, List.contains_iff_mem, List.contains_iff_mem, h name]
    rw [countedFonts, countedFonts, hcontains]
  simp only [postformat, hcounted]
  exact ⟨trivial, trivial⟩

/-- If a run counts only names that were seen, then with fewer families reported it
leaves less than with more, and that less than if it did not ask.  The same families
in whatever order give the same sheet and the same report, and without any no name
counts. -/
theorem postformat_of_reported_subset {p : Pipeline} (hp : p.requireRendered = true) (sheet : Sheet)
    {a b : Option Probe.Signals} (h : ∀ family ∈ reported a, family ∈ reported b)
    (c : Option Probe.Signals) :
    LeavesLess sheet p a p b ∧
      LeavesLess sheet p a { p with requireRendered := false } c ∧
      LeavesLess sheet p b { p with requireRendered := false } c ∧
      ((∀ family ∈ reported b, family ∈ reported a) →
        (p.postformat sheet a).sheet = (p.postformat sheet b).sheet ∧
          (p.postformat sheet a).report = (p.postformat sheet b).report) ∧
      (reported a = [] → (p.postformat sheet a).report.used = []) := by
  have hunasked (signals : Option Probe.Signals) :
      LeavesLess sheet p signals { p with requireRendered := false } c := by
    refine leavesLess_of_used (q := { p with requireRendered := false }) rfl ?_
    intro name hname
    rw [used_postformat rfl]
    exact (mem_countedFonts.1 hname).1
  refine ⟨?_, hunasked a, hunasked b, ?_, ?_⟩
  · refine leavesLess_of_used rfl ?_
    intro name hname
    obtain ⟨hused, hseen⟩ := mem_countedFonts.1 hname
    exact mem_countedFonts.2 ⟨hused, fun hp => rendered_mono h (hseen hp)⟩
  · intro h'
    exact postformat_congr fun name => ⟨rendered_mono h, rendered_mono h'⟩
  · intro hnone
    rw [List.eq_nil_iff_forall_not_mem]
    intro name hname
    obtain ⟨family, hfamily, -⟩ := mem_rendered.1 ((mem_countedFonts.1 hname).2 hp)
    rw [hnone] at hfamily
    cases hfamily

/-! ## One of two faces seen -/

/-- A font face with a family and a source. -/
def faceOf (family : String) : Node :=
  .atRule "font-face" none (some [.declaration ⟨"font-family", [.ident family], false⟩,
    .declaration ⟨"src", [.url "font.woff"], false⟩])

/-- Two faces, and a rule that asks for both. -/
def twoFaces : Sheet :=
  [faceOf "Acme", faceOf "Brand",
    .rule "p" [.declaration ⟨"font-family", [.ident "Brand", .comma, .ident "Acme"], false⟩]]

/-- A run that counts only names that were seen. -/
def asking : Pipeline := { ofTargets [] with requireRendered := true }

/-- A probe that saw one of the faces, and a family that cannot be read. -/
def sawAcme : Option Probe.Signals := some ⟨["ACME, serif", "url("]⟩

/-- A probe that saw both, one of them twice. -/
def sawBoth : Option Probe.Signals := some ⟨["Brand", "ACME, serif", "url(", "'Brand'"]⟩

theorem postformat_twoFaces :
    LeavesLess twoFaces asking sawAcme asking sawBoth ∧
      (asking.postformat twoFaces sawAcme).report.used = ["acme"] ∧
      (asking.postformat twoFaces sawBoth).report.used = ["brand", "acme"] := by
  have hmore : ∀ family ∈ reported sawAcme, family ∈ reported sawBoth := by decide
  exact ⟨(postformat_of_reported_subset rfl twoFaces hmore none).1, by decide +kernel,
    by decide +kernel⟩

end Pipeline

end CssPruning
