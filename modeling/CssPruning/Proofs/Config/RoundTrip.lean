import CssPruning.Proofs.Config.Loaded
import CssPruning.Proofs.Json.ReadBack

/-!
# Configurations written as JSON

A configuration is written with all of its fields, in a fixed order and by name, its lengths
as numbers of pixels.  Whatever text it came from, the JSON text is read as the same
configuration (`Pipeline.ofText_compact_toJson`), provided that the decimals of its lengths
are read as the lengths that they were written for.

That is asked of the lengths at hand, and can be tested, since it does not hold of all doubles:
the reader of numbers scales a rounded significand by a rounded power of ten, and may miss the
nearest double by that (`Pipeline.not_readsBack_twentyFourCm`).
-/

set_option autoImplicit false

namespace CssPruning

open Config

deriving instance DecidableEq for Length, Target, Pipeline

/-- The decimal that is written for the length is read as the length. -/
def Length.ReadsBack (l : Length) : Prop := (Json.float l.px).ReadsBack

instance (l : Length) : Decidable l.ReadsBack :=
  inferInstanceAs (Decidable (Json.float l.px).ReadsBack)

/-- The decimals that are written for the sizes of the target are read as the sizes. -/
structure Target.ReadsBack (t : Target) : Prop where
  width : t.width.ReadsBack
  height : t.height.ReadsBack

instance (t : Target) : Decidable t.ReadsBack :=
  decidable_of_iff (t.width.ReadsBack ∧ t.height.ReadsBack)
    ⟨fun h => ⟨h.1, h.2⟩, fun h => ⟨h.width, h.height⟩⟩

namespace Config

/-! ## Written values understood -/

theorem medium_ofValue (m : Medium) : jsonText.medium (.ofValue (.string m.word)) = .ok m := by
  cases m <;> rfl

theorem length_ofValue {l : Length} (h : l.Usable) :
    length jsonText (.ofValue (.float l.px)) = .ok l := by
  have hpx : Length.ofPx? l.px = .ok l := by
    rw [Length.ofPx?, if_pos (Length.isValid_iff.2 h)]
  change lengthOfScalar.usable (Length.ofPx? l.px) = .ok l
  rw [hpx]
  rfl

theorem flag_ofValue (b : Bool) : flag jsonText (.ofValue (.bool b)) = .ok b := rfl

theorem target_ofValue {t : Target} (h : t.Sized) :
    target jsonText (.ofValue t.toJson) = .ok t := by
  have hview : jsonText.view (.ofValue t.toJson) =
      .fields [(some "type", .ofValue (.string t.medium.word)),
        (some "width", .ofValue (.float t.width.px)),
        (some "height", .ofValue (.float t.height.px))] none := rfl
  rw [target, hview]
  simp [TargetDraft.add, TargetDraft.finish, once, required, close, ok_bind, medium_ofValue,
    length_ofValue h.width, length_ofValue h.height]

theorem mapM_ofValues {ts : List Target} (h : ∀ t ∈ ts, t.Sized) :
    (Json.Reading.ofValues (ts.map Target.toJson)).mapM (target jsonText) = .ok ts := by
  induction ts with
  | nil => rfl
  | cons t ts ih =>
    rw [List.forall_mem_cons] at h
    rw [List.map_cons, Json.Reading.ofValues, List.mapM_cons, target_ofValue h.1, ih h.2]
    rfl

theorem targets_ofValue {ts : List Target} (h : ∀ t ∈ ts, t.Sized) :
    targets jsonText (.ofValue (.array (ts.map Target.toJson))) = .ok ts := by
  have hview : jsonText.view (.ofValue (.array (ts.map Target.toJson))) =
      .sequence (Json.Reading.ofValues (ts.map Target.toJson)) none := rfl
  rw [targets, hview]
  simp [mapM_ofValues h, close, ok_bind]

theorem pipeline_ofValue {p : Pipeline} (h : ∀ t ∈ p.targets, t.Sized) :
    pipeline jsonText (.ofValue p.toJson) = .ok p := by
  have hview : jsonText.view (.ofValue p.toJson) =
      .fields [(some "match_configs", .ofValue (.array (p.targets.map Target.toJson))),
        (some "keep_larger_media_queries", .ofValue (.bool p.keepLarger)),
        (some "require_rendered_fonts", .ofValue (.bool p.requireRendered)),
        (some "strip_comments", .ofValue (.bool p.stripComments))] none := rfl
  rw [pipeline, hview]
  simp [PipelineDraft.add, PipelineDraft.finish, once, close, ok_bind, targets_ofValue h,
    flag_ofValue]

end Config

namespace Pipeline

theorem numbers_toJson (p : Pipeline) : p.toJson.numbers =
    p.targets.flatMap fun t => [.float t.width.px, .float t.height.px] := by
  have hitems : ∀ ts : List Target, Json.itemsNumbers (ts.map Target.toJson) =
      ts.flatMap fun t => [.float t.width.px, .float t.height.px] := by
    intro ts
    induction ts with
    | nil => rfl
    | cons t ts ih =>
      rw [List.map_cons, Json.itemsNumbers, ih]
      rfl
  have hentries : p.toJson.numbers = Json.itemsNumbers (p.targets.map Target.toJson) ++ [] := rfl
  rw [hentries, List.append_nil, hitems]

/-- A pipeline for a screen of 1300 by 1280 pixels and for paper. -/
def screenAndPaper : Pipeline :=
  ofTargets [.screen 1300 1280, ⟨.print, ⟨793.7007874015748⟩, ⟨900.5⟩⟩]

/-- A configuration that was accepted survives being written as JSON if its lengths do. -/
theorem ofText_compact_toJson {format : Format} {text : String} {p : Pipeline}
    (h : ofText format text = .ok p) (hback : ∀ t ∈ p.targets, t.ReadsBack) :
    ofText .json p.toJson.compact = .ok p := by
  obtain ⟨hread, husable⟩ := ofText_eq_ok_iff.1 h
  have hnumbers : ∀ v ∈ p.toJson.numbers, v.ReadsBack := by
    rw [numbers_toJson]
    intro v hv
    obtain ⟨t, ht, hv⟩ := List.mem_flatMap.1 hv
    rcases List.mem_pair.1 hv with rfl | rfl
    · exact (hback t ht).width
    · exact (hback t ht).height
  refine ofText_eq_ok_iff.2 ⟨readJson_eq_ok_iff.2 ?_, husable⟩
  rw [Json.Reading.ofText_compact hnumbers]
  exact ⟨pipeline_ofValue (sized_of_read hread), rfl⟩

/-- A screen given by position, and paper given by name. -/
theorem ofText_compact_toJson_screenAndPaper :
    ofText .toml ("match_configs = [[\"screen\", 1300, \"80em\"], " ++
        "\x7bheight = 900.5, type = \"print\", width = \"21cm\"\x7d]") =
          .ok screenAndPaper ∧
      (∀ t ∈ screenAndPaper.targets, t.ReadsBack) ∧
      ofText .json screenAndPaper.toJson.compact = .ok screenAndPaper := by
  have htext : ofText .toml ("match_configs = [[\"screen\", 1300, \"80em\"], " ++
      "\x7bheight = 900.5, type = \"print\", width = \"21cm\"\x7d]") =
        .ok screenAndPaper := by decide +kernel
  have hback : ∀ t ∈ screenAndPaper.targets, t.ReadsBack := by decide +kernel
  exact ⟨htext, hback, ofText_compact_toJson htext hback⟩

/-- Twenty-four centimetres are accepted, but the decimal that is written for them is read as
another length. -/
theorem not_readsBack_twentyFourCm :
    ofText .toml "match_configs = [[\"screen\", \"24cm\", 900]]" =
        .ok (ofTargets [.screen 907.0866141732283 900]) ∧
      ¬ (Target.screen 907.0866141732283 900).ReadsBack := by
  constructor <;> decide +kernel

end Pipeline

end CssPruning
