import CssPruning.Font.Face
import CssPruning.Proofs.Font.FirstSeen
import CssPruning.Proofs.Font.Insertion
import CssPruning.Proofs.Font.Names
import CssPruning.Proofs.Sheet.Rewording
import CssPruning.Proofs.Text.Lower

/-!
# The letter case of family names

Names are compared in lower case, but a variable keeps its names as they are
written, and drops one only if it has it letter by letter.  So two sheets that differ
in the letter case of names give variables with other names, and with more or fewer
of them.

What is the same is the row of the lower-case names, each where it is first seen
(`folded`).  It is what a set of used names is made from and what a face's first name
is read from, and it is kept by all that names go through: put in a row
(`folded_append`), without empty ones (`folded_filter`), without repetitions
(`folded_addAll`).  So a sheet and its copy in small letters (`Sheet.small`) ask for
the same names, and lose the same faces at the same places
(`removeUnusedFaces_of_small_eq`).
-/

set_option autoImplicit false

namespace CssPruning

/-! ## Copies in small letters -/

namespace Component

mutual

/-- The component with its strings, and its words but for references to variables, in small
letters. -/
def small : Component → Component
  | ident word => ident (if Font.isReference word then word else Text.lowerAscii word)
  | string text => string (Text.lowerAscii text)
  | function name arguments => function name (allSmall arguments)
  | parentheses contents => parentheses (allSmall contents)
  | c => c
termination_by structural c => c

/-- The value with its strings and words in small letters. -/
def allSmall : List Component → List Component
  | [] => []
  | c :: cs => small c :: allSmall cs
termination_by structural cs => cs

end

theorem allSmall_eq_map (v : Value) : allSmall v = v.map small := by
  induction v with
  | nil => rfl
  | cons c v ih => rw [allSmall, ih, List.map_cons]

theorem isBlank_small (c : Component) : c.small.isBlank = c.isBlank := by
  cases c <;> rfl

end Component

/-- The declaration with its value in small letters. -/
def Declaration.small (d : Declaration) : Declaration :=
  { d with value := Component.allSmall d.value }

namespace Node

mutual

/-- The node with the values inside of it in small letters. -/
def small : Node → Node
  | rule selector children => rule selector (allSmall children)
  | atRule name prelude none => atRule name prelude none
  | atRule name prelude (some children) => atRule name prelude (some (allSmall children))
  | declaration d => declaration d.small
  | comment text => comment text
  | raw text => raw text
termination_by structural n => n

/-- The nodes of a row with their values in small letters. -/
def allSmall : List Node → List Node
  | [] => []
  | n :: ns => small n :: allSmall ns
termination_by structural ns => ns

end

end Node

/-- The sheet with the strings and words of its values in small letters. -/
def Sheet.small (s : Sheet) : Sheet := Node.allSmall s

/-- The at-rule with the values in its block in small letters. -/
def AtRule.small (r : AtRule) : AtRule := { r with block := r.block.map Node.allSmall }

/-- Small letters for the values, and all else as it stands. -/
def Node.withSmallValues : Node.Rewording := ⟨id, id, id, Declaration.small, id, id⟩

theorem Node.allSmall_eq_allReword (ns : List Node) :
    allSmall ns = allReword withSmallValues ns := by
  induction ns using rowInduction with
  | nil => rfl
  | rule selector children ns ihc ih => rw [allSmall, small, allReword, reword, ihc, ih]; rfl
  | statement name prelude ns ih => rw [allSmall, small, allReword, reword, ih]; rfl
  | block name prelude children ns ihc ih => rw [allSmall, small, allReword, reword, ihc, ih]; rfl
  | declaration d ns ih => rw [allSmall, small, allReword, reword, ih]; rfl
  | comment text ns ih => rw [allSmall, small, allReword, reword, ih]; rfl
  | raw text ns ih => rw [allSmall, small, allReword, reword, ih]; rfl

theorem AtRule.small_eq_reword (r : AtRule) : r.small = r.reword Node.withSmallValues := by
  rw [AtRule.small, AtRule.reword, funext Node.allSmall_eq_allReword]
  rfl

/-! ## Names in the order in which they are first seen -/

namespace Font

/-- The lower case of some names, each where it is first seen. -/
def folded (names : List String) : NameSet := NameSet.addAll [] (names.map Text.lower)

theorem folded_append (xs ys : List String) :
    folded (xs ++ ys) = (folded xs).addAll (ys.map Text.lower) := by
  rw [folded, List.map_append, NameSet.addAll_append]
  rfl

/-- Rows that are the same are so behind rows that are the same. -/
theorem folded_append_congr {xs xs' ys ys' : List String} (hx : folded xs = folded xs')
    (hy : folded ys = folded ys') : folded (xs ++ ys) = folded (xs' ++ ys') := by
  rw [folded_append, folded_append, hx]
  exact NameSet.addAll_congr hy _

/-- A name that is there letter by letter is there in lower case. -/
theorem folded_insert (s : NameSet) (x : String) : folded (s.insert x) = folded (s ++ [x]) := by
  by_cases hx : x ∈ s
  · have hlower : Text.lower x ∈ folded s :=
      NameSet.mem_addAll.2 (.inr (List.mem_map_of_mem hx))
    rw [NameSet.insert_of_mem hx, folded_append]
    exact (NameSet.insert_of_mem hlower).symm
  · rw [NameSet.insert_of_not_mem hx]

theorem folded_addAll (s : NameSet) (xs : List String) :
    folded (s.addAll xs) = folded (s ++ xs) := by
  induction xs generalizing s with
  | nil => exact congrArg folded (List.append_nil s).symm
  | cons x xs ih =>
    rw [NameSet.addAll_cons, ih, folded_append_congr (folded_insert s x) rfl, List.append_assoc]
    rfl

/-- The empty name has no letter case. -/
theorem folded_filter (xs : List String) :
    folded (xs.filter (· != "")) = (folded xs).filter (· != "") := by
  have hempty : ((· != "") ∘ Text.lower : String → Bool) = (· != "") := by
    funext x
    rw [Bool.eq_iff_iff, Function.comp_apply, bne_iff_ne, bne_iff_ne, Ne, Text.lower_eq_empty_iff]
  rw [folded, folded, NameSet.filter_addAll, List.filter_map, hempty]
  rfl

theorem head?_folded (xs : List String) : (folded xs).head? = xs.head?.map Text.lower := by
  rw [folded, NameSet.head?_addAll, List.head?_map]

/-! ## Names of a value -/

theorem isReference_lowerAscii (word : String) :
    isReference (Text.lowerAscii word) = isReference word := by
  have hhyphen (c : Char) : ('-' == c.toLower) = ('-' == c) := by
    rw [BEq.comm, Text.toLower_beq rfl, BEq.comm]
  rw [isReference, isReference, Text.toList_lowerAscii]
  cases word.toList with
  | nil => rfl
  | cons c cs =>
    cases cs with
    | nil => simp [List.isPrefixOf]
    | cons d cs => simp [List.isPrefixOf, hhyphen]

/-- Quotes have no letter case. -/
theorem stripQuotes_lowerAscii (word : String) :
    stripQuotes (Text.lowerAscii word) = Text.lowerAscii (stripQuotes word) := by
  rw [stripQuotes, stripQuotes, Text.toList_lowerAscii]
  cases word.toList with
  | nil => rfl
  | cons c rest =>
    have hquotes : ((c.toLower == '"' || c.toLower == '\'') &&
        (rest.map Char.toLower).getLast? == some c.toLower) =
          ((c == '"' || c == '\'') && rest.getLast? == some c) := by
      have hlast {d : Char} (hd : d.isAlpha = false) (hlower : d.toLower = d) :
          ((rest.map Char.toLower).getLast? == some d.toLower) = (rest.getLast? == some d) := by
        rw [List.getLast?_map, hlower]
        cases rest.getLast? with
        | none => rfl
        | some e => exact Text.toLower_beq hd e
      rw [Text.toLower_beq rfl, Text.toLower_beq rfl]
      by_cases hdouble : c = '"'
      · rw [hdouble, hlast rfl rfl]
      · by_cases hsingle : c = '\''
        · rw [hsingle, hlast rfl rfl]
        · rw [beq_false_of_ne hdouble, beq_false_of_ne hsingle]
          rfl
    rw [List.map_cons]
    dsimp only
    rw [hquotes]
    split
    · rw [Text.lowerAscii_ofList, List.map_dropLast]
    · rfl

theorem folded_lowerAscii (name : String) : folded [Text.lowerAscii name] = folded [name] := by
  rw [folded, folded, List.map_singleton, List.map_singleton, Text.lower_lowerAscii]

/-- The one name that some words make has no letter case. -/
theorem folded_joinWords (words : List String) :
    folded (joinWords (words.map Text.lowerAscii)) = folded (joinWords words) := by
  rw [joinWords, joinWords, List.isEmpty_map]
  split
  · rfl
  · rw [← List.map_reverse, ← Text.lowerAscii_intercalate, folded_lowerAscii]

/-- Every variable of the one is one of the other, and stands for the same row of names. -/
def Variables.Alike (vs vs' : Variables) : Prop :=
  ∀ name, (vs.get name).map folded = (vs'.get name).map folded

theorem Variables.Alike.getD {vs vs' : Variables} (h : vs.Alike vs') (name : String) :
    folded ((vs.get name).getD []) = folded ((vs'.get name).getD []) := by
  have hname := h name
  cases hget : vs.get name with
  | none =>
    rw [hget] at hname
    rw [Option.map_eq_none_iff.1 hname.symm]
  | some xs =>
    rw [hget] at hname
    obtain ⟨ys, hys, hfolded⟩ := Option.map_eq_some_iff.1 hname.symm
    rw [hys]
    exact hfolded.symm

/-- Variables stay alike when one is given values that are. -/
theorem Variables.Alike.record {vs vs' : Variables} (h : vs.Alike vs') (name : String)
    {values values' : List String} (hvalues : folded values = folded values') :
    (vs.record name values).Alike (vs'.record name values') := by
  intro n
  rw [Variables.get_record, Variables.get_record]
  split
  · rw [Option.map_some, Option.map_some, Variables.extend, Variables.extend, folded_addAll,
      folded_addAll]
    refine congrArg some (folded_append_congr (h.getD name) ?_)
    rw [folded_filter, folded_filter, hvalues]
  · exact h n

theorem small_reference {word : String} (h : isReference word = true) :
    (Component.ident word).small = .ident word := by
  rw [Component.small, if_pos h]

theorem small_word {word : String} (h : isReference word = false) :
    (Component.ident word).small = .ident (Text.lowerAscii word) := by
  rw [Component.small, h]
  rfl

mutual

/-- A component names the same row of names in small letters. -/
theorem folded_componentNames {vs vs' : Variables} (h : vs.Alike vs') :
    ∀ c : Component, folded (componentNames vs' c.small) = folded (componentNames vs c)
  | .string text => folded_lowerAscii text
  | .ident word => by
    cases hword : isReference word with
    | true =>
      rw [small_reference hword, componentNames, componentNames, if_pos hword, if_pos hword]
      exact (h.getD word).symm
    | false =>
      have hlower : isReference (Text.lowerAscii word) = false :=
        (isReference_lowerAscii word).trans hword
      rw [small_word hword, componentNames, componentNames, hlower, hword, stripQuotes_lowerAscii]
      exact folded_lowerAscii _
  | .function _ arguments => folded_namesFrom h arguments []
  | .parentheses contents => folded_namesFrom h contents []
  | .number _ | .dimension _ _ | .percentage _ | .hash _ | .url _ | .operator _ | .blank
  | .raw _ => rfl
termination_by structural c => c

/-- A value names the same row of names in small letters. -/
theorem folded_namesFrom {vs vs' : Variables} (h : vs.Alike vs') :
    ∀ (v : List Component) (words : List String),
      folded (namesFrom vs' (words.map Text.lowerAscii) (Component.allSmall v)) =
        folded (namesFrom vs words v)
  | [], words => folded_joinWords words
  | c :: v, words => by
    have hnext (words : List String) := folded_namesFrom h v words
    have hparts : folded (joinWords (words.map Text.lowerAscii) ++ componentNames vs' c.small ++
          namesFrom vs' [] (Component.allSmall v)) =
        folded (joinWords words ++ componentNames vs c ++ namesFrom vs [] v) :=
      folded_append_congr (folded_append_congr (folded_joinWords words)
        (folded_componentNames h c)) (hnext [])
    cases c with
    | blank => exact hnext words
    | ident word =>
      cases hword : isReference word with
      | true =>
        have hseparator : isSeparator (.ident word) = true := hword
        rw [small_reference hword] at hparts
        rw [Component.allSmall, small_reference hword, namesFrom_separator hseparator,
          namesFrom_separator hseparator]
        exact hparts
      | false =>
        rw [Component.allSmall, small_word hword,
          namesFrom_word ((isReference_lowerAscii word).trans hword), namesFrom_word hword,
          stripQuotes_lowerAscii]
        exact hnext (stripQuotes word :: words)
    | _ => exact hparts
termination_by structural v => v

end

/-- What a value names, and what it names first, has no letter case. -/
theorem folded_names {vs vs' : Variables} (h : vs.Alike vs') (v : Value) :
    folded (names vs' (Component.allSmall v)) = folded (names vs v) :=
  folded_namesFrom h v []

/-! ## Usage -/

/-- The small copy of a value ends in the small copy of what it ends in. -/
theorem last_allSmall (v : Value) :
    Value.last (Component.allSmall v) = (Value.last v).map Component.small := by
  rw [Component.allSmall_eq_map, Value.last, Value.last, ← List.map_reverse, List.find?_map]
  refine congrArg (Option.map Component.small) (congrArg (List.find? · v.reverse) ?_)
  funext c
  rw [Function.comp_apply, Component.isBlank_small]

namespace Usage

/-- A declaration asks for the same row of names in small letters. -/
theorem folded_asked {vs vs' : Variables} (h : vs.Alike vs') (d : Declaration) :
    folded (asked vs' d.small) = folded (asked vs d) := by
  have hproperty : d.small.propertyName = d.propertyName := rfl
  rw [asked, asked, hproperty]
  split
  · exact folded_names h d.value
  · have hlast : d.small.value.last = d.value.last.map Component.small := last_allSmall d.value
    rw [hlast]
    cases d.value.last with
    | none => rfl
    | some c => exact folded_componentNames h c
  · rfl

/-- The variables of the one are alike those of the other, and the names in use are the same. -/
structure Alike (u u' : Usage) : Prop where
  known : u.known.Alike u'.known
  used : u'.used = u.used

/-- A declaration and its small copy keep usages alike. -/
theorem Alike.step {u u' : Usage} (h : u.Alike u') (d : Declaration) (underRule : Bool) :
    (u.step d underRule).Alike (u'.step d.small underRule) := by
  have hcustom : d.small.isCustom = d.isCustom := rfl
  rw [Usage.step, Usage.step, hcustom]
  split
  · exact ⟨h.known.record d.property (folded_names h.known d.value).symm, h.used⟩
  · split
    · refine ⟨h.known, ?_⟩
      rw [h.used]
      exact NameSet.addAll_congr (folded_asked h.known d) u.used
    · exact h

/-- So do declarations in a row. -/
theorem Alike.run {u u' : Usage} (h : u.Alike u') (ds : List (Declaration × Bool)) :
    (u.run ds).Alike (u'.run (ds.map fun d => (d.1.small, d.2))) := by
  induction ds generalizing u u' with
  | nil => exact h
  | cons d ds ih => exact ih (h.step d.1 d.2)

end Usage

/-- The small copy of a row declares the small copies of what the row declares. -/
theorem allDeclarations_allSmall (underRule : Bool) (ns : List Node) :
    Node.allDeclarations underRule (Node.allSmall ns) =
      (Node.allDeclarations underRule ns).map fun d => (d.1.small, d.2) := by
  induction ns using Node.rowInduction generalizing underRule with
  | nil => rfl
  | rule selector children ns ihc ih =>
    rw [Node.allSmall, Node.small, Node.allDeclarations, Node.allDeclarations, List.map_append, ih]
    exact congrArg (· ++ _) (ihc true)
  | block name prelude children ns ihc ih =>
    rw [Node.allSmall, Node.small, Node.allDeclarations, Node.allDeclarations, List.map_append, ih]
    exact congrArg (· ++ _) (ihc underRule)
  | declaration d ns ih => exact congrArg (_ :: ·) (ih underRule)
  | statement name prelude ns ih => exact ih underRule
  | comment text ns ih => exact ih underRule
  | raw text ns ih => exact ih underRule

/-- A sheet and its small copy have alike usages. -/
theorem usage_small (vs : Variables) (s : Sheet) : (usage vs s).Alike (usage vs s.small) := by
  have hdeclarations : s.small.declarations = s.declarations.map fun d => (d.1.small, d.2) :=
    allDeclarations_allSmall false s
  rw [usage, usage, hdeclarations]
  exact Usage.Alike.run ⟨fun _ => rfl, rfl⟩ s.declarations

/-! ## Faces -/

theorem filterMap_declaration_allSmall (ns : List Node) :
    (Node.allSmall ns).filterMap Node.declaration? =
      (ns.filterMap Node.declaration?).map Declaration.small := by
  induction ns using Node.rowInduction with
  | nil => rfl
  | declaration d ns ih => exact congrArg (d.small :: ·) ih
  | rule selector children ns _ ih => exact ih
  | statement name prelude ns ih => exact ih
  | block name prelude children ns _ ih => exact ih
  | comment text ns ih => exact ih
  | raw text ns ih => exact ih

/-- The small copy of an at-rule has the small copies of its declarations. -/
theorem declarations_small (r : AtRule) :
    r.small.declarations = r.declarations.map Declaration.small := by
  obtain ⟨name, prelude, block⟩ := r
  cases block with
  | none => rfl
  | some children => exact filterMap_declaration_allSmall children

section

variable {used : NameSet} {vs vs' : Variables}

/-- A face and its small copy declare the same families. -/
theorem families_small (h : vs.Alike vs') (r : AtRule) : families vs' r.small = families vs r := by
  have hvalues : familyValues r.small = (familyValues r).map Component.allSmall := by
    rw [familyValues, familyValues, declarations_small, List.filter_map, List.map_map, List.map_map]
    rfl
  rw [families, families, hvalues, List.map_map]
  refine List.map_congr_left fun v _ => ?_
  rw [Function.comp_apply, firstFamily, firstFamily, ← head?_folded, ← head?_folded, folded_names h]

theorem dropReason_small (h : vs.Alike vs') (r : AtRule) :
    dropReason used vs' r.small = dropReason used vs r := by
  have hsource : hasSource r.small = hasSource r := by
    rw [hasSource, hasSource, declarations_small, List.any_map]
    rfl
  rw [dropReason, dropReason, isUsed, isUsed, families_small h, hsource]

theorem survives_small (h : vs.Alike vs') (r : AtRule) :
    survives used vs' r.small = survives used vs r := by
  have hface : r.small.isFontFace = r.isFontFace := rfl
  rw [survives, survives, dropReason_small h, hface]

theorem droppedFace_small (h : vs.Alike vs') (r : AtRule) :
    droppedFace used vs' r.small = droppedFace used vs r := by
  rw [droppedFace, droppedFace, dropReason_small h, families_small h]

end

/-! ## Passes over faces -/

/-- The verdict on the small copy of an at-rule. -/
def Verdict.small (v : Verdict) : Verdict := ⟨v.rule.small, v.kept⟩

section

variable {keep keep' : AtRule → Bool} (h : ∀ r : AtRule, keep' r.small = keep r)

include h in
theorem answer_reword_withSmallValues (r : AtRule) :
    keep' (r.reword Node.withSmallValues) = keep r := by
  rw [← AtRule.small_eq_reword, h]

include h in
/-- A test that answers alike on small copies gives the same verdicts on them. -/
theorem allVerdicts_allSmall (ns : List Node) :
    Node.allVerdicts keep' (Node.allSmall ns) = (Node.allVerdicts keep ns).map Verdict.small := by
  rw [Node.allSmall_eq_allReword, Node.allVerdicts_allReword (answer_reword_withSmallValues h)]
  refine List.map_congr_left fun v _ => ?_
  rw [Verdict.small, AtRule.small_eq_reword, Verdict.reword]

include h in
/-- It takes at-rules away at the same positions. -/
theorem allRejected_allSmall (index : Nat) (ns : List Node) :
    Node.allRejected keep' index (Node.allSmall ns) = Node.allRejected keep index ns := by
  rw [Node.allSmall_eq_allReword, Node.allRejected_allReword (answer_reword_withSmallValues h)]

end

/-- The report on small copies is the same. -/
theorem ofVerdicts_map_small {used : NameSet} {vs vs' : Variables} (h : vs.Alike vs')
    (verdicts : List Verdict) : FaceReport.ofVerdicts used vs' (verdicts.map Verdict.small) =
      FaceReport.ofVerdicts used vs verdicts := by
  have hfaces : ((verdicts.map Verdict.small).map Verdict.rule).filter AtRule.isFontFace =
      ((verdicts.map Verdict.rule).filter AtRule.isFontFace).map AtRule.small := by
    rw [List.map_map, List.filter_map, List.filter_map, List.map_map]
    rfl
  have hdropped (faces : List AtRule) : (faces.map AtRule.small).filterMap (droppedFace used vs') =
      faces.filterMap (droppedFace used vs) := by
    rw [List.filterMap_map]
    exact List.filterMap_congr fun r _ => droppedFace_small h r
  have hkept (faces : List AtRule) :
      (faces.map AtRule.small).countP (fun r => (dropReason used vs' r).isNone) =
        faces.countP fun r => (dropReason used vs r).isNone := by
    rw [List.countP_map]
    refine congrArg (List.countP · faces) (funext fun r => ?_)
    rw [Function.comp_apply, dropReason_small h]
  rw [FaceReport.ofVerdicts, FaceReport.ofVerdicts, hfaces, hdropped, hkept, List.length_map]

/-- The positions of the faces that a sheet loses. -/
def removedFaces (vs : Variables) (s : Sheet) : List (List Nat) :=
  s.removed (survives (usage vs s).used (usage vs s).known)

theorem withoutAt_removedFaces (vs : Variables) (s : Sheet) :
    s.withoutAt (removedFaces vs s) = (removeUnusedFaces vs s).2.sheet :=
  Sheet.withoutAt_removed _ s

theorem report_removeUnusedFaces (vs : Variables) (s : Sheet) :
    (removeUnusedFaces vs s).2.report = .ofVerdicts (usage vs s).used (usage vs s).known
      (Node.allVerdicts (survives (usage vs s).used (usage vs s).known) s) :=
  congrArg (fun pruned => FaceReport.ofVerdicts _ _ (Pruned.verdicts pruned))
    (Node.sheet_prune_eq _ s)

/-- A sheet and its small copy ask for the same names and give the same report, and they lose
faces at the same positions. -/
theorem removeUnusedFaces_small (vs : Variables) (s : Sheet) :
    (removeUnusedFaces vs s.small).1.used = (removeUnusedFaces vs s).1.used ∧
      (removeUnusedFaces vs s.small).2.report = (removeUnusedFaces vs s).2.report ∧
      removedFaces vs s.small = removedFaces vs s := by
  have husage := usage_small vs s
  have hkeep : ∀ r : AtRule,
      survives (usage vs s.small).used (usage vs s.small).known r.small =
        survives (usage vs s).used (usage vs s).known r := by
    intro r
    rw [husage.used, survives_small husage.known]
  have hverdicts : Node.allVerdicts
      (survives (usage vs s.small).used (usage vs s.small).known) s.small =
        (Node.allVerdicts (survives (usage vs s).used (usage vs s).known) s).map Verdict.small :=
    allVerdicts_allSmall hkeep s
  refine ⟨husage.used, ?_, allRejected_allSmall hkeep 0 s⟩
  rw [report_removeUnusedFaces, report_removeUnusedFaces, hverdicts, husage.used,
    ofVerdicts_map_small husage.known]

/-- Two sheets that differ only in the letter case of the strings and words of their values, but
for references to variables, ask for the same names and give the same report, and what they lose
stands at the same positions. -/
theorem removeUnusedFaces_of_small_eq {s s' : Sheet} (h : s.small = s'.small) (vs : Variables) :
    (removeUnusedFaces vs s).1.used = (removeUnusedFaces vs s').1.used ∧
      (removeUnusedFaces vs s).2.report = (removeUnusedFaces vs s').2.report ∧
      ∃ positions : List (List Nat),
        (removeUnusedFaces vs s).2.sheet = s.withoutAt positions ∧
        (removeUnusedFaces vs s').2.sheet = s'.withoutAt positions := by
  obtain ⟨hused, hreport, hpositions⟩ := removeUnusedFaces_small vs s
  obtain ⟨hused', hreport', hpositions'⟩ := removeUnusedFaces_small vs s'
  rw [h] at hused hreport hpositions
  refine ⟨hused.symm.trans hused', hreport.symm.trans hreport', removedFaces vs s,
    (withoutAt_removedFaces vs s).symm, ?_⟩
  rw [← hpositions, hpositions']
  exact (withoutAt_removedFaces vs s').symm

/-- A sheet with two faces, and a rule that asks for two names by a variable. -/
def twoFaceSheet (face other first second : String) : Sheet :=
  [.atRule "font-face" none (some [.declaration ⟨"font-family", [.string face], false⟩,
      .declaration ⟨"src", [.url "a.woff"], false⟩]),
    .atRule "font-face" none (some [.declaration ⟨"font-family", [.ident other], false⟩]),
    .rule "p" [.declaration ⟨"--a", [.string first, .comma, .ident second], false⟩,
      .declaration ⟨"font-family", [.function "var" [.ident "--a"]], false⟩]]

theorem small_twoFaceSheet (face other first second : String) (hother : isReference other = false)
    (hsecond : isReference second = false) : (twoFaceSheet face other first second).small =
      twoFaceSheet (Text.lowerAscii face) (Text.lowerAscii other) (Text.lowerAscii first)
        (Text.lowerAscii second) := by
  have hvariable : isReference "--a" = true := by decide +kernel
  simp only [twoFaceSheet, Sheet.small, Node.allSmall, Node.small, Declaration.small,
    Component.allSmall, Component.small, Component.comma, hvariable, hother, hsecond, if_true,
    Bool.false_eq_true, if_false]

/-- The variable has one name in the one sheet and two in the other, and the same face goes. -/
theorem removeUnusedFaces_twoFaceSheet :
    (removeUnusedFaces .empty (twoFaceSheet "ACME" "Bar" "Acme" "aCME")).1.used = ["acme"] ∧
      (removeUnusedFaces .empty (twoFaceSheet "acme" "BAR" "ACME" "ACME")).1.used = ["acme"] ∧
      (removeUnusedFaces .empty (twoFaceSheet "ACME" "Bar" "Acme" "aCME")).2.report =
        ⟨[⟨some "bar", .unused⟩], 2, 1, 1, 0⟩ ∧
      ∃ positions : List (List Nat),
        (removeUnusedFaces .empty (twoFaceSheet "ACME" "Bar" "Acme" "aCME")).2.sheet =
          (twoFaceSheet "ACME" "Bar" "Acme" "aCME").withoutAt positions ∧
        (removeUnusedFaces .empty (twoFaceSheet "acme" "BAR" "ACME" "ACME")).2.sheet =
          (twoFaceSheet "acme" "BAR" "ACME" "ACME").withoutAt positions := by
  have hsmall : (twoFaceSheet "ACME" "Bar" "Acme" "aCME").small =
      (twoFaceSheet "acme" "BAR" "ACME" "ACME").small := by
    have hacme : ∀ name ∈ ["ACME", "Acme", "aCME", "acme"], Text.lowerAscii name = "acme" := by
      decide +kernel
    have hbar : ∀ name ∈ ["Bar", "BAR"], Text.lowerAscii name = "bar" := by decide +kernel
    rw [small_twoFaceSheet _ _ _ _ (by decide +kernel) (by decide +kernel),
      small_twoFaceSheet _ _ _ _ (by decide +kernel) (by decide +kernel), hbar "Bar" (by simp),
      hbar "BAR" (by simp), hacme "ACME" (by simp), hacme "Acme" (by simp), hacme "aCME" (by simp),
      hacme "acme" (by simp)]
  have hused : (removeUnusedFaces .empty (twoFaceSheet "ACME" "Bar" "Acme" "aCME")).1.used =
      ["acme"] := by decide +kernel
  have hreport : (removeUnusedFaces .empty (twoFaceSheet "ACME" "Bar" "Acme" "aCME")).2.report =
      ⟨[⟨some "bar", .unused⟩], 2, 1, 1, 0⟩ := by decide +kernel
  obtain ⟨hsame, -, hpositions⟩ := removeUnusedFaces_of_small_eq hsmall .empty
  exact ⟨hused, hsame.symm.trans hused, hreport, hpositions⟩

end Font

end CssPruning
