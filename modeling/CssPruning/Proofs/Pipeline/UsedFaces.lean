import CssPruning.Pipeline
import CssPruning.Proofs.Font.Names
import CssPruning.Proofs.Font.Usage
import CssPruning.Proofs.Sheet.Survival

/-!
# No font in use is lost

A font face with a source whose families are all one literal name stays in its
place as soon as some style rule asks for that name, in whatever letters, at
whatever place of a list and wherever in the sheet, before or behind the face.
Only a probe can tell otherwise, and only if it is asked.
-/

set_option autoImplicit false

namespace CssPruning

/-- An at-rule that is kept stays as it is, but for what goes inside of it. -/
theorem AtRule.kept_toNode {keep : AtRule → Bool} {r : AtRule} (h : keep r = true) :
    Node.kept keep r.toNode = some (r.withKept keep).toNode := by
  obtain ⟨name, prelude, block⟩ := r
  cases block with
  | none => rw [toNode, Node.kept, if_pos h]; rfl
  | some children => rw [toNode, Node.kept, if_pos h]; rfl

namespace Font

/-- A face with a source survives if all of its families are one literal name that
is in use. -/
theorem survives_of_literal {used : NameSet} {vs : Variables} {face : AtRule} {name : String}
    (hface : face.isFontFace = true) (hsource : hasSource face = true)
    (hliteral : ∀ v ∈ familyValues face, Literal v name) (hused : Text.lower name ∈ used) :
    survives used vs face = true := by
  rw [survives_iff_of_isFontFace hface]
  refine ⟨?_, hsource⟩
  rw [isUsed_iff]
  intro d hd hfamily
  have hvalue : d.value ∈ familyValues face := by
    apply List.mem_map_of_mem
    rw [List.mem_filter, beq_iff_eq]
    exact ⟨hd, hfamily⟩
  refine ⟨name, ?_, hused⟩
  rw [(hliteral d.value hvalue).names_eq vs]
  rfl

/-- A sheet uses a literal part of what it declares as families under a rule. -/
theorem lower_mem_used_usage {vs : Variables} {sheet : Sheet} {spot : Place} {d : Declaration}
    {part : Value} {name : String} (hsheet : sheet = spot.fill (.declaration d))
    (hrule : spot.UnderRule) (hd : d.propertyName = "font-family")
    (hpart : part ∈ listParts d.value) (hliteral : Literal part name) :
    Text.lower name ∈ (usage vs sheet).used := by
  have hmem : (d, true) ∈ sheet.declarations := by
    rw [hsheet]
    exact Place.mem_allDeclarations_fill_of_underRule hrule (List.mem_singleton_self _) false
  exact Usage.lower_mem_used_run hmem hd (mem_names_of_mem_listParts hpart hliteral)

end Font

namespace Pipeline

/-- The names that count are those that the sheet uses, unless a probe is to
confirm them. -/
theorem used_postformat {p : Pipeline} (hp : p.requireRendered = false) (sheet : Sheet)
    (signals : Option Probe.Signals) :
    (p.postformat sheet signals).report.used = (Font.usage .empty sheet).used := by
  have hcounted : (p.postformat sheet signals).report.used =
      p.countedFonts (Font.usage .empty sheet).used signals := rfl
  rw [hcounted, countedFonts, hp, if_neg (by decide)]

/-- The test that postformatting puts to the at-rules of a sheet. -/
def keepsFace (p : Pipeline) (sheet : Sheet) (signals : Option Probe.Signals) : AtRule → Bool :=
  Font.survives (p.postformat sheet signals).report.used (Font.usage .empty sheet).known

/-- What postformatting a sheet makes of a place in it. -/
def placeAfter (p : Pipeline) (sheet : Sheet) (signals : Option Probe.Signals) (place : Place) :
    Place :=
  let left := place.left (p.keepsFace sheet signals)
  if p.stripComments then left.uncommented else left

/-- A node stays in its place through postformatting if it is kept, and every
at-rule around it. -/
theorem postformat_fill {p : Pipeline} {sheet : Sheet} {signals : Option Probe.Signals}
    {place : Place} {n n' : Node} (hsheet : sheet = place.fill n)
    (haround : ∀ r ∈ place.around n, p.keepsFace sheet signals r = true)
    (hkept : Node.kept (p.keepsFace sheet signals) n = some n') (hcomment : n'.isComment = false) :
    (p.postformat sheet signals).sheet = (p.placeAfter sheet signals place).fill n' := by
  have hfaces : (sheet.prune (p.keepsFace sheet signals)).sheet =
      (place.left (p.keepsFace sheet signals)).fill n' := by
    rw [← Place.allKept_fill haround hkept, ← hsheet]
    exact Node.sheet_prune _ sheet
  have hpost : (p.postformat sheet signals).sheet =
      if p.stripComments then Sheet.stripComments (sheet.prune (p.keepsFace sheet signals)).sheet
      else (sheet.prune (p.keepsFace sheet signals)).sheet := rfl
  rw [hpost, hfaces, placeAfter]
  cases p.stripComments with
  | true => exact Place.stripComments_fill hcomment
  | false => rfl

/-- A face stays in its place, with its name, its prelude and its block but for
what goes inside, if it is in no other face, has a source and only one literal
family, and a style rule asks for that family, be it in other letters. -/
theorem postformat_keeps_used_face (p : Pipeline) (hp : p.requireRendered = false)
    (sheet : Sheet) (signals : Option Probe.Signals)
    -- the face
    (home : Place) (face : AtRule) (family : String) (hhome : sheet = home.fill face.toNode)
    (hface : face.isFontFace = true)
    (houter : ∀ r ∈ home.around face.toNode, r.isFontFace = false)
    (hsource : Font.hasSource face = true)
    (hfamily : ∀ v ∈ Font.familyValues face, Font.Literal v family)
    -- the declaration that asks for it
    (spot : Place) (d : Declaration) (part : Value) (name : String)
    (hspot : sheet = spot.fill (.declaration d)) (hrule : spot.UnderRule)
    (hd : d.propertyName = "font-family") (hpart : part ∈ Font.listParts d.value)
    (hname : Font.Literal part name) (hletters : Text.lower name = Text.lower family) :
    (p.postformat sheet signals).sheet =
      (p.placeAfter sheet signals home).fill (face.withKept (p.keepsFace sheet signals)).toNode := by
  have hused : Text.lower family ∈ (p.postformat sheet signals).report.used := by
    rw [used_postformat hp, ← hletters]
    exact Font.lower_mem_used_usage hspot hrule hd hpart hname
  apply postformat_fill hhome
  case haround =>
    intro r hr
    exact Font.survives_of_not_isFontFace (houter r hr)
  case hkept =>
    apply AtRule.kept_toNode
    exact Font.survives_of_literal hface hsource hfamily hused
  case hcomment => rfl

/-! ## A face in one block, its use in another -/

/-- A face with a name of two words. -/
def openSans : AtRule :=
  ⟨"font-face", none, some
    [.declaration ⟨"font-family", [.ident "Open", .blank, .ident "Sans"], false⟩,
      .declaration ⟨"src", [.url "open-sans.woff"], false⟩]⟩

/-- A list that asks for the name in quotes, in other letters and not in front. -/
def asksForOpenSans : Declaration :=
  ⟨"Font-Family", [.ident "Arial", .comma, .blank, .string "OPEN sans", .comma, .ident "serif"],
    false⟩

/-- The face for print, behind it the list in a rule of its own kind of block. -/
def openSansHome : Place :=
  .inAtRule (.root [] [.atRule "supports" (some "(color: red)")
    (some [.rule "p" [.declaration asksForOpenSans]])]) "media" (some "print") [] []

/-- The list, before it the face. -/
def openSansSpot : Place :=
  .inRule (.inAtRule (.root [.atRule "media" (some "print") (some [openSans.toNode])] [])
    "supports" (some "(color: red)") [] []) "p" [] []

theorem postformat_keeps_openSans :
    ((ofTargets []).postformat (openSansHome.fill openSans.toNode) none).sheet =
      ((ofTargets []).placeAfter (openSansHome.fill openSans.toNode) none openSansHome).fill
        (openSans.withKept
          ((ofTargets []).keepsFace (openSansHome.fill openSans.toNode) none)).toNode := by
  apply postformat_keeps_used_face (ofTargets []) rfl _ none openSansHome openSans "Open Sans" rfl
    (by decide +kernel) (by decide +kernel) (by decide +kernel) ?_ openSansSpot asksForOpenSans
    [.blank, .string "OPEN sans"] "OPEN sans" rfl ⟨"p", List.mem_cons_self⟩ (by decide +kernel)
    ?_ (.inl rfl) (by decide +kernel)
  · intro v hv
    obtain ⟨d, hd, rfl⟩ := List.mem_map.1 hv
    obtain ⟨hmem, hd⟩ := List.mem_filter.1 hd
    -- the other declaration of the face is that of its source
    rcases List.mem_cons.1 hmem with rfl | hmem
    case inr =>
      rw [List.mem_singleton.1 hmem] at hd
      exact absurd hd (by decide +kernel)
    exact .inr ⟨["Open", "Sans"], by decide, by decide, rfl, by decide⟩
  · exact List.mem_cons_of_mem _ List.mem_cons_self

end Pipeline

end CssPruning
