import CssPruning.Json.Reading
import CssPruning.Proofs.Json.Tokens

/-!
# Written JSON read back

The text of a JSON value is read as that value, with nothing left over, if its numbers are
(`Reading.ofText_compact`, `readsBack_of_numbers`).  Numbers are the one thing that a text may
not give back: a double is written with as many digits as tell it from the others, and read
with a rounding for each step.

The texts and the machine that reads them go by the same steps: the text of a value puts the
value into the innermost frame, whatever frames there are and whatever may follow a value there
(`Reading.build_text`).
-/

set_option autoImplicit false

namespace CssPruning.Json

/-- The text of the value is read as the value. -/
def ReadsBack (j : Json) : Prop := parse? j.compact = some j

/-- A text is a value if it is read as one, and nothing follows. -/
theorem parse?_eq_some_iff {text : String} {v : Json} :
    parse? text = some v ↔ ∃ r, Reading.ofText text = (r, false) ∧ r.value? = some v := by
  rw [parse?]
  cases h : Reading.ofText text with
  | mk r trailing => cases trailing <;> simp

/-- The double that a value is. -/
def float? : Json → Option Float
  | float x => some x
  | _ => none

/-- Whether a double is read back can be tested, since doubles can be compared. -/
theorem readsBack_float_iff {x : Float} :
    (float x).ReadsBack ↔ (parse? (float x).compact).bind float? = some x := by
  rw [ReadsBack]
  constructor
  · intro h
    rw [h]
    rfl
  · intro h
    obtain ⟨v, hv, hfloat⟩ := Option.bind_eq_some_iff.1 h
    cases v <;> cases hfloat
    exact hv

instance (x : Float) : Decidable (float x).ReadsBack := decidable_of_iff _ readsBack_float_iff.symm

/-- The value is a number. -/
def isNumber : Json → Bool
  | integer _ | float _ => true
  | _ => false

mutual

/-- The numbers inside of a value. -/
def numbers : Json → List Json
  | integer n => [integer n]
  | float x => [float x]
  | array items => itemsNumbers items
  | object entries => entriesNumbers entries
  | null | bool _ | string _ => []
termination_by structural j => j

/-- The numbers inside of some items. -/
def itemsNumbers : List Json → List Json
  | [] => []
  | j :: js => numbers j ++ itemsNumbers js
termination_by structural js => js

/-- The numbers inside of some entries. -/
def entriesNumbers : List (String × Json) → List Json
  | [] => []
  | e :: es => entryNumbers e ++ entriesNumbers es
termination_by structural es => es

/-- The numbers inside of an entry. -/
def entryNumbers : String × Json → List Json
  | (_, j) => numbers j
termination_by structural e => e

end

namespace Reading

/-! ## The machine inside of a container -/

/-- The reading is an array or an object, whole or not. -/
def IsContainer : Reading → Prop
  | array .. | object .. => True
  | scalar _ | string _ | broken _ => False

theorem isContainer_close (f : Frame) : f.close.IsContainer := by
  cases f <;> trivial

theorem isContainer_finish (frames : List Frame) {r : Reading} (h : r.IsContainer) :
    (finish frames r).IsContainer := by
  induction frames generalizing r with
  | nil => exact h
  | cons f frames ih => exact ih (isContainer_close (f.push r))

section

variable {frames : List Frame} (hne : frames ≠ [])
include hne

theorem isContainer_finish_of_ne_nil (r : Reading) : (finish frames r).IsContainer := by
  obtain ⟨f, fs, rfl⟩ := List.exists_cons_of_ne_nil hne
  exact isContainer_finish fs (isContainer_close (f.push r))

theorem isContainer_haltBehind (flaw : Flaw) : (haltBehind flaw frames).IsContainer := by
  obtain ⟨f, fs, rfl⟩ := List.exists_cons_of_ne_nil hne
  cases f <;> exact isContainer_finish fs trivial

theorem isContainer_haltAtName (stop : Stop) : (haltAtName stop frames).IsContainer := by
  obtain ⟨f, fs, rfl⟩ := List.exists_cons_of_ne_nil hne
  cases f with
  | array items => exact isContainer_finish_of_ne_nil hne _
  | object entries key => exact isContainer_finish fs trivial

end

/-- What a value comes to inside of some frames, with some tokens behind it. -/
def place (frames : List Frame) (r : Reading) (ts : List Token) : Outcome :=
  match frames with
  | [] => (r, !ts.isEmpty)
  | f :: fs => build (f.push r :: fs) .separator ts

theorem isContainer_place {frames : List Frame} {r : Reading} {ts : List Token}
    (hbuild : ∀ (r : Reading) (f : Frame) (fs : List Frame), f.push r :: fs ≠ [] →
      (build (f.push r :: fs) .separator ts).1.IsContainer)
    (h : frames ≠ [] ∨ r.IsContainer) : (place frames r ts).1.IsContainer := by
  cases frames with
  | nil => exact h.resolve_left fun hne => hne rfl
  | cons f fs => exact hbuild r f fs (List.cons_ne_nil _ _)

/-- Nothing but a container is read inside of a container. -/
theorem isContainer_build {frames : List Frame} (hne : frames ≠ []) (e : Expectation)
    (ts : List Token) : (build frames e ts).1.IsContainer := by
  -- the machine stops in one of three ways, puts something into its place, or goes on
  fun_induction build frames e ts with
  | case1 | case2 | case3 | case16 | case17 | case18 | case19 | case33 =>
    exact isContainer_finish_of_ne_nil hne _
  | case4 | case5 | case28 | case29 | case30 | case31 => exact isContainer_haltAtName hne _
  | case6 | case24 => exact isContainer_haltBehind hne _
  | case7 | case25 =>
    rename_i ih
    exact isContainer_place ih (.inr (isContainer_close _))
  | case8 | case9 | case10 | case11 =>
    rename_i ih
    exact isContainer_place ih (.inl hne)
  | case22 | case23 =>
    rename_i ih
    exact isContainer_place ih (.inr trivial)
  | case12 | case13 | case14 | case15 | case20 | case21 | case26 | case27 =>
    rename_i ih
    exact ih (List.cons_ne_nil _ _)
  | case32 =>
    rename_i ih
    exact ih hne

/-! ## Numbers -/

theorem isNumber_eq_false_of_isContainer {r : Reading} (hr : r.IsContainer) {v : Json}
    (h : r.value? = some v) : v.isNumber = false := by
  fun_cases value? r with
  | case3 items | case4 entries =>
    simp only [value?] at h
    obtain ⟨-, -, rfl⟩ := Option.map_eq_some_iff.1 h
    rfl
  | case5 | case6 => cases h
  | _ => cases hr

/-- A number that is read back from its text is the one token of the text. -/
theorem list_text_of_readsBack {v : Json} (hv : v.isNumber = true) (h : v.ReadsBack) :
    Token.list v.text = [.scalar (some v)] := by
  obtain ⟨r, hr, hvalue⟩ := parse?_eq_some_iff.1 h
  rw [ofText, compact, String.toList_ofList] at hr
  -- a container is no number
  have hinner : ∀ {frames e ts}, frames ≠ [] → build frames e ts = (r, false) → False := by
    intro frames e ts hne hbuild
    have hr := isContainer_build hne e ts
    rw [hbuild] at hr
    rw [isNumber_eq_false_of_isContainer hr hvalue] at hv
    cases hv
  cases hts : Token.list v.text with
  | nil =>
    rw [hts] at hr
    cases hr
    cases hvalue
  | cons t ts =>
    rw [hts] at hr
    cases t with
    | openArray => exact (hinner (List.cons_ne_nil _ _) hr).elim
    | openObject => exact (hinner (List.cons_ne_nil _ _) hr).elim
    | scalar w =>
      obtain ⟨rfl, hts⟩ := Prod.mk.inj hr
      obtain rfl : ts = [] := List.isEmpty_iff.1 (by simpa using hts)
      rw [show w = some v from hvalue]
    | string s =>
      obtain ⟨rfl, -⟩ := Prod.mk.inj hr
      obtain ⟨text, -, rfl⟩ := Option.map_eq_some_iff.1 hvalue
      cases hv
    | closeArray | closeObject | comma | colon | fault =>
      cases hr
      cases hvalue

/-! ## Values -/

/-- A value may come next. -/
def Begins (e : Expectation) : Prop := e = .value ∨ e = .valueOrClose

section

variable {frames : List Frame} {e : Expectation} (he : Begins e) {ts : List Token}
include he

theorem build_scalar (v : Option Json) :
    build frames e (.scalar v :: ts) = place frames (.scalar v) ts := by
  rcases he with rfl | rfl <;> cases frames <;> rfl

theorem build_string (s : Option String) :
    build frames e (.string s :: ts) = place frames (.string s) ts := by
  rcases he with rfl | rfl <;> cases frames <;> rfl

theorem build_openArray :
    build frames e (.openArray :: ts) = build (.array [] :: frames) .valueOrClose ts := by
  rcases he with rfl | rfl <;> cases frames <;> rfl

theorem build_openObject :
    build frames e (.openObject :: ts) = build (.object [] none :: frames) .keyOrClose ts := by
  rcases he with rfl | rfl <;> cases frames <;> rfl

end

theorem place_cons (f : Frame) (frames : List Frame) (r : Reading) (ts : List Token) :
    place (f :: frames) r ts = build (f.push r :: frames) .separator ts := rfl

theorem list_cons {c : Char} (h : Token.isSpace c = false) (cs : List Char) :
    Token.list (c :: cs) = (Token.next c cs).1 :: Token.list (Token.next c cs).2 := by
  rw [Token.list, if_neg (by simp [h])]

theorem list_stringText (s : String) (rest : List Char) :
    Token.list (stringText s ++ rest) = .string (some s) :: Token.list rest := by
  have hnext : Token.next '"' (s.toList.flatMap stringChar ++ '"' :: rest) =
      (.string (some s), rest) := by
    change Token.stringRest true [] _ = _
    rw [Token.stringRest_flatMap, List.reverse_nil, List.nil_append, String.ofList_toList]
  rw [stringText, List.append_assoc, List.singleton_append, List.cons_append, list_cons rfl, hnext]

theorem list_null : Token.list (text .null) = [.scalar (some .null)] := by
  simp [text, Token.list, Token.isSpace, Token.next, Token.word]

theorem list_bool (b : Bool) : Token.list (text (.bool b)) = [.scalar (some (.bool b))] := by
  cases b <;> simp [text, Token.list, Token.isSpace, Token.next, Token.word]

theorem list_array (items : List Json) (rest : List Char) :
    Token.list ((Json.array items).text ++ rest) =
      .openArray :: Token.list (itemsText items ++ ']' :: rest) := by
  rw [text, List.cons_append, List.cons_append, List.append_assoc, List.singleton_append,
    list_cons rfl]
  rfl

theorem list_object (entries : List (String × Json)) (rest : List Char) :
    Token.list ((Json.object entries).text ++ rest) =
      .openObject :: Token.list (entriesText entries ++ '\x7d' :: rest) := by
  rw [text, List.cons_append, List.cons_append, List.append_assoc, List.singleton_append,
    list_cons rfl]
  rfl

/-- The texts of items behind an item. -/
def moreItems (js : List Json) : List Char := if js.isEmpty then [] else ',' :: itemsText js

/-- The texts of entries behind an entry. -/
def moreEntries (es : List (String × Json)) : List Char :=
  if es.isEmpty then [] else ',' :: entriesText es

theorem itemsText_cons (j : Json) (js : List Json) :
    itemsText (j :: js) = j.text ++ moreItems js := by
  rw [itemsText, moreItems]

theorem entriesText_cons (e : String × Json) (es : List (String × Json)) :
    entriesText (e :: es) = entryText e ++ moreEntries es := by
  rw [entriesText, moreEntries]

theorem delimited_moreItems (js : List Json) (rest : List Char) :
    Token.Delimited (moreItems js ++ ']' :: rest) := by
  cases js with
  | nil =>
    rintro c ⟨⟩
    exact .inr (.inl rfl)
  | cons j js =>
    rintro c ⟨⟩
    exact .inl rfl

theorem delimited_moreEntries (es : List (String × Json)) (rest : List Char) :
    Token.Delimited (moreEntries es ++ '\x7d' :: rest) := by
  cases es with
  | nil =>
    rintro c ⟨⟩
    exact .inr (.inr rfl)
  | cons e es =>
    rintro c ⟨⟩
    exact .inl rfl

mutual

/-- The text of a value puts the value into its place, whatever stands around it. -/
theorem build_text (j : Json) (h : ∀ v ∈ j.numbers, v.ReadsBack) (frames : List Frame)
    {e : Expectation} (he : Begins e) {rest : List Char} (hrest : Token.Delimited rest) :
    build frames e (Token.list (j.text ++ rest)) = place frames (ofValue j) (Token.list rest) := by
  match j with
  | .null =>
    rw [Token.list_append_of_scalar hrest list_null, build_scalar he]
    rfl
  | .bool b =>
    rw [Token.list_append_of_scalar hrest (list_bool b), build_scalar he]
    rfl
  | .integer n =>
    have hlist := list_text_of_readsBack rfl (h _ List.mem_cons_self)
    rw [Token.list_append_of_scalar hrest hlist, build_scalar he]
    rfl
  | .float x =>
    have hlist := list_text_of_readsBack rfl (h _ List.mem_cons_self)
    rw [Token.list_append_of_scalar hrest hlist, build_scalar he]
    rfl
  | .string s =>
    rw [text, list_stringText, build_string he]
    rfl
  | .array items =>
    rw [list_array, build_openArray he]
    match items with
    | [] =>
      rw [itemsText, List.nil_append, list_cons rfl]
      cases frames <;> rfl
    | j :: js =>
      have hj := build_text j (fun v hv => h v (List.mem_append_left _ hv)) (.array [] :: frames)
        (.inr rfl) (delimited_moreItems js rest)
      rw [itemsText_cons, List.append_assoc, hj, place_cons]
      exact build_moreItems js (fun v hv => h v (List.mem_append_right _ hv)) [ofValue j] frames
        rest
  | .object entries =>
    rw [list_object, build_openObject he]
    match entries with
    | [] =>
      rw [entriesText, List.nil_append, list_cons rfl]
      cases frames <;> rfl
    | e :: es =>
      have he := build_entryText e (fun v hv => h v (List.mem_append_left _ hv)) [] none frames
        (.inr rfl) (delimited_moreEntries es rest)
      rw [entriesText_cons, List.append_assoc, he]
      exact build_moreEntries es (fun v hv => h v (List.mem_append_right _ hv)) [ofEntry e] _ frames
        rest
termination_by structural j

/-- The texts of items behind some items fill their array. -/
theorem build_moreItems (js : List Json) (h : ∀ v ∈ itemsNumbers js, v.ReadsBack)
    (items : List Reading) (frames : List Frame) (rest : List Char) :
    build (.array items :: frames) .separator (Token.list (moreItems js ++ ']' :: rest)) =
      place frames (.array (items.reverse ++ ofValues js) none) (Token.list rest) := by
  match js with
  | [] =>
    rw [moreItems, List.isEmpty_nil, if_pos rfl, List.nil_append, list_cons rfl, ofValues,
      List.append_nil]
    cases frames <;> rfl
  | j :: js =>
    have hj := build_text j (fun v hv => h v (List.mem_append_left _ hv)) (.array items :: frames)
      (.inl rfl) (delimited_moreItems js rest)
    have hjs := build_moreItems js (fun v hv => h v (List.mem_append_right _ hv))
      (ofValue j :: items) frames rest
    rw [moreItems, List.isEmpty_cons, if_neg Bool.false_ne_true, List.cons_append, list_cons rfl,
      itemsText_cons, List.append_assoc]
    rw [List.reverse_cons, List.append_assoc, List.singleton_append] at hjs
    exact hj.trans hjs
termination_by structural js

/-- The texts of entries behind some entries fill their object. -/
theorem build_moreEntries (es : List (String × Json)) (h : ∀ v ∈ entriesNumbers es, v.ReadsBack)
    (entries : List (Option String × Reading)) (key : Option String) (frames : List Frame)
    (rest : List Char) :
    build (.object entries key :: frames) .separator
        (Token.list (moreEntries es ++ '\x7d' :: rest)) =
      place frames (.object (entries.reverse ++ ofEntries es) none) (Token.list rest) := by
  match es with
  | [] =>
    rw [moreEntries, List.isEmpty_nil, if_pos rfl, List.nil_append, list_cons rfl, ofEntries,
      List.append_nil]
    cases frames <;> rfl
  | e :: es =>
    have he := build_entryText e (fun v hv => h v (List.mem_append_left _ hv)) entries key frames
      (.inl rfl) (delimited_moreEntries es rest)
    have hes := build_moreEntries es (fun v hv => h v (List.mem_append_right _ hv))
      (ofEntry e :: entries) (some e.1) frames rest
    rw [moreEntries, List.isEmpty_cons, if_neg Bool.false_ne_true, List.cons_append, list_cons rfl,
      entriesText_cons, List.append_assoc]
    rw [List.reverse_cons, List.append_assoc, List.singleton_append] at hes
    exact he.trans hes
termination_by structural es

/-- The text of an entry is another entry of the object around it. -/
theorem build_entryText (entry : String × Json) (h : ∀ v ∈ entryNumbers entry, v.ReadsBack)
    (entries : List (Option String × Reading)) (key : Option String) (frames : List Frame)
    {e : Expectation} (he : e = .key ∨ e = .keyOrClose) {rest : List Char}
    (hrest : Token.Delimited rest) :
    build (.object entries key :: frames) e (Token.list (entryText entry ++ rest)) =
      build (.object (ofEntry entry :: entries) (some entry.1) :: frames) .separator
        (Token.list rest) := by
  match entry with
  | (k, j) =>
    have hj := build_text j h (.object entries (some k) :: frames) (.inl rfl) hrest
    rw [entryText, List.append_assoc, List.cons_append, list_stringText, list_cons rfl]
    rcases he with rfl | rfl <;> exact hj
termination_by structural entry

end

/-- A value is read from its text, and nothing of the text is left, if its numbers are read from
theirs. -/
theorem ofText_compact {j : Json} (h : ∀ v ∈ j.numbers, v.ReadsBack) :
    ofText j.compact = (ofValue j, false) := by
  have hempty : Token.Delimited [] := by rintro c ⟨⟩
  have hj := build_text j h [] (.inl rfl) hempty
  rw [List.append_nil] at hj
  rw [ofText, compact, String.toList_ofList, hj, Token.list]
  rfl

mutual

theorem value?_ofValue (j : Json) : (ofValue j).value? = some j := by
  match j with
  | .array items => rw [ofValue, value?, values?_ofValues items]; rfl
  | .object entries => rw [ofValue, value?, valueEntries?_ofEntries entries]; rfl
  | .null | .bool b | .integer n | .float x | .string s => rfl
termination_by structural j

theorem values?_ofValues (js : List Json) : values? (ofValues js) = some js := by
  match js with
  | [] => rfl
  | j :: js => rw [ofValues, values?, value?_ofValue j, values?_ofValues js]; rfl
termination_by structural js

theorem valueEntries?_ofEntries (es : List (String × Json)) :
    valueEntries? (ofEntries es) = some es := by
  match es with
  | [] => rfl
  | e :: es => rw [ofEntries, valueEntries?, valueEntry?_ofEntry e, valueEntries?_ofEntries es]; rfl
termination_by structural es

theorem valueEntry?_ofEntry (e : String × Json) : valueEntry? (ofEntry e) = some e := by
  match e with
  | (k, j) => rw [ofEntry, valueEntry?, value?_ofValue j]; rfl
termination_by structural e

end

end Reading

theorem readsBack_of_numbers {j : Json} (h : ∀ v ∈ j.numbers, v.ReadsBack) : j.ReadsBack :=
  parse?_eq_some_iff.2 ⟨_, Reading.ofText_compact h, Reading.value?_ofValue j⟩

end CssPruning.Json
