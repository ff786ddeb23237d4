import CssPruning.Proofs.Pipeline.RenderedNames
import CssPruning.Proofs.Sheet.Values
import CssPruning.Proofs.Text.Lower

/-!
# The same families, reported and declared

A text without comments names the same families whether a probe reports it or a
style rule declares it, but what is made of the names differs: reported names lose
the blanks at their ends, and are dropped if nothing is left, and declared names
are kept as they are.  So the two sets of names are the same exactly if the text
names nothing but `Tidy` names (`Probe.Signals.fontNames_eq_used_iff`).

A run that counts only names that were seen compares the two sets.  A face is
unused to it, although a rule asks for its families and a probe has reported them
word for word, exactly if the family that the face goes by is not tidy.
-/

set_option autoImplicit false

namespace CssPruning

open Token TokenTree Sheet

/-! ## Texts without comments -/

/-- No lexeme of the text is a comment. -/
def Commentless (cs : List Char) : Prop := ∀ l ∈ tokenize cs, (leaf l).isComment = false

instance (cs : List Char) : Decidable (Commentless cs) := List.decidableBAll ..

theorem withoutComments_eq_self {cs : List Char} (h : Commentless cs) : withoutComments cs = cs := by
  have hforest : uncommented (forest cs) = forest cs := by
    rw [uncommented, List.filter_eq_self]
    intro t ht
    cases t with
    | block opener contents closer => rfl
    | leaf l =>
      have hl : l ∈ tokenize cs := by
        rw [← lexemes_forest, allLexemes_eq_flatMap]
        exact List.mem_flatMap_of_mem ht (List.mem_singleton_self l)
      rw [h l hl]
      rfl
  rw [withoutComments, hforest, source_forest]

/-- A rule with a text without comments as its families declares the value of the text. -/
theorem Sheet.exists_families_of_parse {text : String} {s : Sheet}
    (htext : ∀ c ∈ [';', '\x7b', '\x7d', '!'], c ∉ text.toList) (hcomments : Commentless text.toList)
    (h : Sheet.parse ("p\x7bfont-family:" ++ text ++ "\x7d") = .ok s) :
    ∃ v, Value.parse text = .ok v ∧ s = [.rule "p" [.declaration ⟨"font-family", v, false⟩]] := by
  have hrule : ("p\x7bfont-family:" ++ text ++ "\x7d").toList =
      ruleText ['p'] "font-family".toList text.toList := by
    rw [String.toList_append, String.toList_append]
    rfl
  rw [Sheet.parse_eq_ok_iff, hrule] at h
  obtain ⟨-, -, v, hs, hv⟩ := exists_value_of_read rfl (by decide) htext h
  rw [withoutComments_eq_self hcomments] at hv
  exact ⟨v, Value.parse_eq_ok_iff.2 hv, by rw [hs]; rfl⟩

namespace Font

/-! ## Names -/

/-- The name is not empty, and no blank stands at its ends. -/
def Tidy (name : String) : Prop := name ≠ "" ∧ Text.Flush name.toList

instance (cs : List Char) : Decidable (Text.Flush cs) := inferInstanceAs (Decidable (_ ∧ _))

instance (name : String) : Decidable (Tidy name) := inferInstanceAs (Decidable (_ ∧ _))

theorem tidy_lower_iff {name : String} : Tidy (Text.lower name) ↔ Tidy name := by
  rw [Tidy, Tidy, Ne, Text.lower_eq_empty_iff, Text.flush_lower_iff]

theorem Tidy.trimmed_eq {name : String} (h : Tidy name) : Text.trimmed name = name := by
  rw [Text.trimmed, Text.trim_eq_self h.2, String.ofList_toList]

theorem propertyName_families (v : Value) :
    (⟨"font-family", v, false⟩ : Declaration).propertyName = "font-family" := by
  have hcustom : ['-', '-'].isPrefixOf "font-family".toList = false := by decide
  have hlower : Text.lowerAscii "font-family" = "font-family" := by decide +kernel
  rw [Declaration.propertyName, Declaration.isCustom, hcustom, if_neg (by decide), hlower]

/-- A declaration of families under a rule adds their names. -/
theorem step_families (u : Usage) (v : Value) :
    u.step ⟨"font-family", v, false⟩ true =
      { u with used := u.used.addAll ((names u.known v).map Text.lower) } := by
  rw [Usage.step, Usage.isCustom_eq_false_of_propertyName (propertyName_families v),
    if_neg (by decide), if_pos rfl, Usage.asked, propertyName_families]
  rfl

/-- What a rule with nothing but families asks for. -/
theorem usage_families (v : Value) :
    usage .empty [.rule "p" [.declaration ⟨"font-family", v, false⟩]] =
      ⟨.empty, NameSet.addAll [] ((names .empty v).map Text.lower)⟩ :=
  step_families ⟨.empty, []⟩ v

end Font

namespace Probe.Signals

/-! ## Reported names -/

theorem mem_familyNames_iff {text x : String} {v : Value} (h : Value.parse text = .ok v) :
    x ∈ familyNames text ↔
      ∃ name ∈ Font.names .empty v, Text.lower (Text.trimmed name) = x ∧ x ≠ "" := by
  simp only [familyNames, h, List.mem_filter, List.mem_map, bne_iff_ne]
  constructor
  · rintro ⟨⟨name, hname, rfl⟩, hne⟩
    exact ⟨name, hname, rfl, hne⟩
  · rintro ⟨name, hname, rfl, hne⟩
    exact ⟨⟨name, hname, rfl⟩, hne⟩

/-- Reported names are tidy. -/
theorem tidy_of_mem_familyNames {text x : String} (h : x ∈ familyNames text) : Font.Tidy x := by
  cases hv : Value.parse text with
  | error e => simp [familyNames, hv] at h
  | ok v =>
    obtain ⟨name, -, rfl, hne⟩ := (mem_familyNames_iff hv).1 h
    refine ⟨hne, ?_⟩
    rw [Text.flush_lower_iff, Text.toList_trimmed]
    exact Text.flush_trim _

/-- A tidy name is reported as it is declared. -/
theorem lower_mem_familyNames {text name : String} {v : Value} (h : Value.parse text = .ok v)
    (hname : name ∈ Font.names .empty v) (htidy : Font.Tidy name) :
    Text.lower name ∈ familyNames text := by
  rw [mem_familyNames_iff h]
  exact ⟨name, hname, by rw [htidy.trimmed_eq], (Font.tidy_lower_iff.2 htidy).1⟩

theorem mem_fontNames {s : Signals} {x : String} :
    x ∈ s.fontNames ↔ ∃ text ∈ s.families, x ∈ familyNames text := by
  have hrendered : s.fontNames = Pipeline.rendered (some s) := rfl
  rw [hrendered, Pipeline.mem_rendered]
  rfl

/-- Only names that are not tidy are reported otherwise than they are declared. -/
theorem fontNames_eq_addAll_iff {text : String} {v : Value} (h : Value.parse text = .ok v) :
    (∀ x, x ∈ (Signals.mk [text]).fontNames ↔
      x ∈ Font.NameSet.addAll [] ((Font.names .empty v).map Text.lower)) ↔
        ∀ name ∈ Font.names .empty v, Font.Tidy name := by
  have hreported (x : String) : x ∈ (Signals.mk [text]).fontNames ↔ x ∈ familyNames text := by
    simp [mem_fontNames]
  have hdeclared (x : String) :
      x ∈ Font.NameSet.addAll [] ((Font.names .empty v).map Text.lower) ↔
        ∃ name ∈ Font.names .empty v, Text.lower name = x := by
    simp
  simp only [hreported, hdeclared]
  constructor
  · intro hsame name hname
    rw [← Font.tidy_lower_iff]
    exact tidy_of_mem_familyNames ((hsame _).2 ⟨name, hname, rfl⟩)
  · intro htidy x
    constructor
    · intro hx
      obtain ⟨name, hname, rfl, -⟩ := (mem_familyNames_iff h).1 hx
      exact ⟨name, hname, by rw [(htidy name hname).trimmed_eq]⟩
    · rintro ⟨name, hname, rfl⟩
      exact lower_mem_familyNames h hname (htidy name hname)

end Probe.Signals

namespace Pipeline

/-! ## Faces -/

/-- A face declares no families but those of a value, a sheet asks for all that the value
names, and a probe has reported the value as it was written. -/
structure Confirmed (sheet : Sheet) (signals : Probe.Signals) (text : String) (v : Value)
    (face : AtRule) : Prop where
  declared : ∃ d ∈ face.declarations, d.propertyName = "font-family"
  only : ∀ d ∈ face.declarations, d.propertyName = "font-family" → d.value = v
  asked : ∀ name ∈ Font.names .empty v, Text.lower name ∈ (Font.usage .empty sheet).used
  reported : text ∈ signals.families
  /-- the variables of the sheet, which a probe does not know, have no part in it -/
  literal : Font.names (Font.usage .empty sheet).known v = Font.names .empty v

/-- A run that asks a probe counts a face as unused, although it was confirmed, exactly if the
name that the face goes by is not tidy. -/
theorem dropReason_eq_unused_iff {p : Pipeline} (hp : p.requireRendered = true) {sheet : Sheet}
    {signals : Probe.Signals} {text : String} {v : Value} {face : AtRule}
    (hv : Value.parse text = .ok v) (h : Confirmed sheet signals text v face) :
    Font.dropReason (p.postformat sheet (some signals)).report.used
        (Font.usage .empty sheet).known face = some .unused ↔
      ∀ name, (Font.names .empty v).head? = some name → ¬ Font.Tidy name := by
  have hcounted (name : String) (hname : name ∈ Font.names .empty v) :
      Text.lower name ∈ (p.postformat sheet (some signals)).report.used ↔ Font.Tidy name := by
    have hused : (p.postformat sheet (some signals)).report.used =
      p.countedFonts (Font.usage .empty sheet).used (some signals) := rfl
    rw [hused, mem_countedFonts, and_iff_right (h.asked name hname), forall_prop_of_true hp]
    constructor
    · intro hseen
      obtain ⟨family, -, hfamily⟩ := mem_rendered.1 hseen
      exact Font.tidy_lower_iff.1 (Probe.Signals.tidy_of_mem_familyNames hfamily)
    · intro htidy
      exact mem_rendered.2
        ⟨text, h.reported, Probe.Signals.lower_mem_familyNames hv hname htidy⟩
  have hunused (used : Font.NameSet) (vs : Font.Variables) :
      Font.dropReason used vs face = some .unused ↔ ¬ Font.isUsed used vs face = true := by
    unfold Font.dropReason
    cases Font.isUsed used vs face <;> cases Font.hasSource face <;> simp
  rw [hunused, Font.isUsed_iff]
  constructor
  · intro hno name hhead htidy
    apply hno
    intro d hd hfamily
    rw [h.only d hd hfamily, h.literal]
    exact ⟨name, hhead, (hcounted name (List.mem_of_mem_head? hhead)).2 htidy⟩
  · intro hno hall
    obtain ⟨d, hd, hfamily⟩ := h.declared
    obtain ⟨name, hhead, hmem⟩ := hall d hd hfamily
    rw [h.only d hd hfamily, h.literal] at hhead
    exact hno name hhead ((hcounted name (List.mem_of_mem_head? hhead)).1 hmem)

/-- A text without comments that a rule declares as its families names for a probe what it
names for the sheet, exactly if it names tidy names only.  A run that asks a probe counts a
confirmed face with these families as unused exactly if the first of them is not tidy. -/
theorem fontNames_eq_used_iff {text : String} {s : Sheet}
    (htext : ∀ c ∈ [';', '\x7b', '\x7d', '!'], c ∉ text.toList) (hcomments : Commentless text.toList)
    (h : Sheet.parse ("p\x7bfont-family:" ++ text ++ "\x7d") = .ok s) :
    ∃ v, Value.parse text = .ok v ∧
      ((∀ x, x ∈ (Probe.Signals.mk [text]).fontNames ↔ x ∈ (Font.usage .empty s).used) ↔
        ∀ name ∈ Font.names .empty v, Font.Tidy name) ∧
      ∀ (p : Pipeline) (sheet : Sheet) (signals : Probe.Signals) (face : AtRule),
        p.requireRendered = true → Confirmed sheet signals text v face →
          (Font.dropReason (p.postformat sheet (some signals)).report.used
              (Font.usage .empty sheet).known face = some .unused ↔
            ∀ name, (Font.names .empty v).head? = some name → ¬ Font.Tidy name) := by
  obtain ⟨v, hv, rfl⟩ := Sheet.exists_families_of_parse htext hcomments h
  refine ⟨v, hv, ?_, fun p sheet signals face hp => dropReason_eq_unused_iff hp hv⟩
  rw [Font.usage_families]
  exact Probe.Signals.fontNames_eq_addAll_iff hv

/-! ## A face and a rule for the same families -/

/-- A face with a source and the families of a value. -/
def faceWith (v : Value) : AtRule :=
  ⟨"font-face", none, some [.declaration ⟨"font-family", v, false⟩,
    .declaration ⟨"src", [.url "font.woff"], false⟩]⟩

/-- The face in front of a rule that asks for its families. -/
def faceAndRule (v : Value) : Sheet :=
  [(faceWith v).toNode, .rule "p" [.declaration ⟨"font-family", v, false⟩]]

theorem confirmed_faceWith (text : String) (v : Value) :
    Confirmed (faceAndRule v) ⟨[text]⟩ text v (faceWith v) := by
  have husage : Font.usage .empty (faceAndRule v) =
      ⟨.empty, Font.NameSet.addAll [] ((Font.names .empty v).map Text.lower)⟩ := by
    -- what the face declares is in no rule, and so no use of a family
    have hfamily := Font.Usage.isCustom_eq_false_of_propertyName (Font.propertyName_families v)
    have hface : (Font.Usage.mk .empty []).step ⟨"font-family", v, false⟩ false = ⟨.empty, []⟩ := by
      rw [Font.Usage.step, hfamily]
      rfl
    have hrun : Font.usage .empty (faceAndRule v) =
        ((Font.Usage.mk .empty []).step ⟨"font-family", v, false⟩ false).run
          [(⟨"src", [.url "font.woff"], false⟩, false), (⟨"font-family", v, false⟩, true)] := rfl
    rw [hrun, hface]
    exact Font.step_families ⟨.empty, []⟩ v
  constructor
  case declared => exact ⟨_, List.mem_cons_self, Font.propertyName_families v⟩
  case only =>
    intro d hd hfamily
    have hd : d = ⟨"font-family", v, false⟩ ∨ d = ⟨"src", [.url "font.woff"], false⟩ := by
      simpa [faceWith, AtRule.declarations, Node.declaration?] using hd
    rcases hd with rfl | rfl
    · rfl
    · exact absurd hfamily (by decide +kernel)
  case asked =>
    intro name hname
    rw [husage, Font.NameSet.mem_addAll]
    exact .inr (List.mem_map_of_mem hname)
  case reported => exact List.mem_singleton_self _
  case literal => rw [husage]

theorem dropReason_openSansReported :
    (∀ c ∈ [';', '\x7b', '\x7d', '!'], c ∉ "'Open Sans', serif".toList) ∧
      Commentless "'Open Sans', serif".toList ∧
      ∃ s v, Sheet.parse ("p\x7bfont-family:" ++ "'Open Sans', serif" ++ "\x7d") = .ok s ∧
        Value.parse "'Open Sans', serif" = .ok v ∧
        (∀ x, x ∈ (Probe.Signals.mk ["'Open Sans', serif"]).fontNames ↔
          x ∈ (Font.usage .empty s).used) ∧
        Font.dropReason (asking.postformat (faceAndRule v)
          (some ⟨["'Open Sans', serif"]⟩)).report.used
          (Font.usage .empty (faceAndRule v)).known (faceWith v) ≠ some .unused := by
  have htext : ∀ c ∈ [';', '\x7b', '\x7d', '!'], c ∉ "'Open Sans', serif".toList := by simp
  have hcomments : Commentless "'Open Sans', serif".toList := by decide +kernel
  obtain ⟨s, hs⟩ := Sheet.exists_parse_eq_ok
    (show (Sheet.parse ("p\x7bfont-family:" ++ "'Open Sans', serif" ++ "\x7d")).isOk = true by
      decide +kernel)
  obtain ⟨v, hv, hsame, hface⟩ := fontNames_eq_used_iff htext hcomments hs
  have hnames : Font.names .empty v = ["Open Sans", "serif"] := by
    have hread : (Value.parse "'Open Sans', serif").toOption.map (Font.names .empty) =
        some ["Open Sans", "serif"] := by decide +kernel
    rw [hv] at hread
    exact Option.some.inj hread
  rw [hnames] at hsame hface
  refine ⟨htext, hcomments, s, v, hs, hv, hsame.2 (by decide +kernel), ?_⟩
  rw [Ne, hface asking _ _ _ rfl (confirmed_faceWith _ v)]
  intro hno
  exact hno "Open Sans" rfl (by decide +kernel)

/-- A name between blanks loses them when it is reported, and the face that goes by it is
taken away. -/
theorem fontNames_ne_used_fooBetweenBlanks :
    (∀ c ∈ [';', '\x7b', '\x7d', '!', '\\'], c ∉ "\" Foo \"".toList) ∧
      Commentless "\" Foo \"".toList ∧
      ∃ v, Value.parse "\" Foo \"" = .ok v ∧
        Sheet.parse ("p\x7bfont-family:" ++ "\" Foo \"" ++ "\x7d") =
          .ok [.rule "p" [.declaration ⟨"font-family", v, false⟩]] ∧
        (Probe.Signals.mk ["\" Foo \""]).fontNames = ["foo"] ∧
        (Font.usage .empty [.rule "p" [.declaration ⟨"font-family", v, false⟩]]).used = [" foo "] ∧
        Font.dropReason (asking.postformat (faceAndRule v) (some ⟨["\" Foo \""]⟩)).report.used
          (Font.usage .empty (faceAndRule v)).known (faceWith v) = some .unused := by
  have htext : ∀ c ∈ [';', '\x7b', '\x7d', '!', '\\'], c ∉ "\" Foo \"".toList := by simp
  have hcomments : Commentless "\" Foo \"".toList := by decide +kernel
  obtain ⟨s, hs⟩ := Sheet.exists_parse_eq_ok
    (show (Sheet.parse ("p\x7bfont-family:" ++ "\" Foo \"" ++ "\x7d")).isOk = true by
      decide +kernel)
  obtain ⟨v, hv, rfl⟩ := Sheet.exists_families_of_parse
    (fun c hc => htext c (List.mem_append_left ['\\'] hc)) hcomments hs
  have hnames : Font.names .empty v = [" Foo "] := by
    have hread : (Value.parse "\" Foo \"").toOption.map (Font.names .empty) =
        some [" Foo "] := by decide +kernel
    rw [hv] at hread
    exact Option.some.inj hread
  refine ⟨htext, hcomments, v, hv, hs, by decide +kernel, ?_, ?_⟩
  · rw [Font.usage_families, hnames]
    decide +kernel
  · rw [dropReason_eq_unused_iff rfl hv (confirmed_faceWith _ v), hnames]
    intro name hname
    obtain rfl := Option.some.inj hname
    decide +kernel

end Pipeline

end CssPruning
