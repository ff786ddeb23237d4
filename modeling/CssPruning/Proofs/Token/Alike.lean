import CssPruning.Token.Tokenize

/-!
# Texts that are alike to a scanner

A scanner decides by what stands behind its lexeme, but by little of it: by the
first character, and by whether a name, a number or a digit with a sign starts
there.  Two texts are akin (`Akin`) if they show the same there, and a scanner is
local (`Local`) if it reads the same lexeme whenever the text behind gives way to
one that is akin.

A semicolon and a curly bracket, the stops, end whatever can be ended, and so does
the end of the text.  So texts are akin if they are alike (`Alike`): they agree up
to a stop of the first, where the second has a stop, too, or ends.

Here are the runs, the escapes and the names, which other scanners are made of.
-/

set_option autoImplicit false

namespace CssPruning.Token

/-! ## Texts that are alike -/

/-- A semicolon or a curly bracket. -/
def isStop (c : Char) : Bool := c == ';' || c == '\x7b' || c == '\x7d'

/-- The text is empty, or starts with a stop. -/
def Stopped (cs : List Char) : Prop := cs.head?.all isStop = true

instance (cs : List Char) : Decidable (Stopped cs) := inferInstanceAs (Decidable (_ = _))

/-- The texts agree up to a stop of the first, where the second is stopped. -/
inductive Alike : List Char → List Char → Prop where
  | stop {c : Char} {cs ds : List Char} : isStop c = true → Stopped ds → Alike (c :: cs) ds
  | cons (c : Char) {cs ds : List Char} : Alike cs ds → Alike (c :: cs) (c :: ds)

namespace Alike

variable {cs ds : List Char}

theorem append (xs : List Char) (h : Alike cs ds) : Alike (xs ++ cs) (xs ++ ds) := by
  induction xs with
  | nil => exact h
  | cons x xs ih => exact .cons x ih

/-- A test that no stop passes finds the same at the head of both. -/
theorem any_head {p : Char → Bool} (hp : ∀ c, isStop c = true → p c = false)
    (h : Alike cs ds) : ds.head?.any p = cs.head?.any p := by
  cases h with
  | cons => rfl
  | stop hc hds =>
    cases ds with
    | nil => simp [hp _ hc]
    | cons d ds => simp [hp _ hc, hp d (by simpa [Stopped] using hds)]

/-- Behind a run texts that are alike are alike. -/
theorem dropWhile {p : Char → Bool} (hp : ∀ c, isStop c = true → p c = false)
    (h : Alike cs ds) : Alike (cs.dropWhile p) (ds.dropWhile p) := by
  induction h with
  | @stop c cs ds hc hds =>
    have hdrop : ds.dropWhile p = ds := by
      cases ds with
      | nil => rfl
      | cons d ds => rw [List.dropWhile_cons_of_neg (by simp [hp d (by simpa [Stopped] using hds)])]
    rw [List.dropWhile_cons_of_neg (by simp [hp c hc]), hdrop]
    exact .stop hc hds
  | cons c h ih =>
    rw [List.dropWhile_cons, List.dropWhile_cons]
    split
    · exact ih
    · exact .cons c h

/-- Texts that are alike start with the same words without stops. -/
theorem isPrefixOf_eq {xs : List Char} (h : Alike cs ds) (hxs : ∀ x ∈ xs, isStop x = false) :
    xs.isPrefixOf ds = xs.isPrefixOf cs := by
  induction xs generalizing cs ds with
  | nil => simp
  | cons x xs ih =>
    rw [List.forall_mem_cons] at hxs
    cases h with
    | cons c h => rw [List.isPrefixOf_cons_cons, List.isPrefixOf_cons_cons, ih h hxs.2]
    | @stop c cs ds hc hds =>
      have hne : ∀ d, isStop d = true → (x == d) = false := by
        rintro d hd
        rw [beq_eq_false_iff_ne]
        rintro rfl
        rw [hxs.1] at hd
        cases hd
      rw [List.isPrefixOf_cons_cons, hne c hc, Bool.false_and]
      cases ds with
      | nil => rfl
      | cons d ds =>
        rw [List.isPrefixOf_cons_cons, hne d (by simpa [Stopped] using hds), Bool.false_and]

end Alike

/-! ## No stop is part of a name, a number or a blank -/

section

variable {c : Char} (h : isStop c = true)

include h

theorem eq_of_isStop : c = ';' ∨ c = '\x7b' ∨ c = '\x7d' := by
  simpa [isStop, or_assoc] using h

/-- A test that fails at each of the stops. -/
theorem eq_false_of_isStop {p : Char → Bool} (hsemicolon : p ';' = false)
    (hopening : p '\x7b' = false) (hclosing : p '\x7d' = false) : p c = false := by
  rcases eq_of_isStop h with rfl | rfl | rfl
  · exact hsemicolon
  · exact hopening
  · exact hclosing

theorem isSpace_stop : isSpace c = false := eq_false_of_isStop h rfl rfl rfl

theorem isLineEnd_stop : isLineEnd c = false := eq_false_of_isStop h rfl rfl rfl

theorem isHexDigit_stop : isHexDigit c = false := eq_false_of_isStop h rfl rfl rfl

theorem isDigit_stop : c.isDigit = false := eq_false_of_isStop h rfl rfl rfl

theorem isNameChar_stop : isNameChar c = false := eq_false_of_isStop h rfl rfl rfl

end

/-! ## Texts that are akin -/

/-- The character is a sign of a number. -/
def isNumberSign (c : Char) : Bool := c == '+' || c == '-'

/-- A digit stands at the head of the text, or behind a sign there. -/
def startsDigit (cs : List Char) : Bool := (sign cs).rest.head?.any Char.isDigit

/-- The texts show the same to whatever stands in front of them. -/
structure Akin (cs ds : List Char) : Prop where
  ne : cs ≠ []
  head : ∀ p : Char → Bool, (∀ c, isStop c = true → p c = false) →
    ds.head?.any p = cs.head?.any p
  name : startsName ds = startsName cs
  number : startsNumber ds = startsNumber cs
  digit : startsDigit ds = startsDigit cs

/-- What a scanner reads does not change when the text behind it gives way to
another one of some kind. -/
def Local {α : Type} (likes : List Char → List Char → Prop) (f : List Char → Scan α) : Prop :=
  ∀ ⦃cs ds : List Char⦄, likes (f cs).rest ds →
    f ((f cs).source ++ ds) = ⟨(f cs).value, (f cs).source, ds⟩

theorem sign_cons (c : Char) (cs : List Char) :
    (sign (c :: cs)).rest = if isNumberSign c then cs else c :: cs := by
  rw [sign, isNumberSign]
  split <;> rfl

theorem startsNumber_eq_any (cs : List Char) :
    startsNumber cs = ((sign cs).rest.head?.any Char.isDigit ||
      ((sign cs).rest.head?.any (· == '.') && (sign cs).rest.tail.head?.any Char.isDigit)) := by
  unfold startsNumber
  split
  · rename_i d ds h
    rw [h]
    rfl
  · rename_i d ds hne h
    rw [h, List.head?_cons, Option.any_some, Option.any_some, List.tail_cons]
    cases hd : d == '.' with
    | false => simp
    | true =>
      rw [beq_iff_eq] at hd
      subst hd
      cases ds with
      | nil => rfl
      | cons e ds => exact absurd rfl (hne e ds rfl)
  · rename_i h
    rw [h]
    rfl

/-- Behind a sign a number starts that has none itself. -/
theorem startsNumber_sign_cons {c : Char} (hc : isNumberSign c = true) (cs : List Char) :
    startsNumber (c :: cs) = (!cs.head?.any isNumberSign && startsNumber cs) := by
  rw [startsNumber_eq_any, sign_cons, if_pos hc, startsNumber_eq_any cs]
  cases cs with
  | nil => rfl
  | cons d ds =>
    have hhead : (d :: ds).head?.any isNumberSign = isNumberSign d := rfl
    rw [sign_cons, hhead]
    cases hd : isNumberSign d with
    | false => rw [if_neg (by decide), Bool.not_false, Bool.true_and]
    | true =>
      rw [isNumberSign, Bool.or_eq_true, beq_iff_eq, beq_iff_eq] at hd
      rcases hd with rfl | rfl <;> rfl

theorem startsNumber_cons {c : Char} (hc : isNumberSign c = false) (cs : List Char) :
    startsNumber (c :: cs) = (c.isDigit || (c == '.' && cs.head?.any Char.isDigit)) := by
  rw [startsNumber_eq_any, sign_cons, if_neg (by simp [hc])]
  rfl

theorem startsName_hyphen (cs : List Char) :
    startsName ('-' :: cs) = cs.head?.any fun d => isNameStart d || d == '-' || d == '\\' := by
  cases cs <;> rfl

theorem startsName_cons {c : Char} (hc : c ≠ '-') (cs : List Char) :
    startsName (c :: cs) = if c == '\\' then !cs.head?.any isLineEnd else isNameStart c := by
  unfold startsName
  exact if_neg (by simpa using hc)

theorem startsName_of_stopped {cs : List Char} (h : Stopped cs) : startsName cs = false := by
  cases cs with
  | nil => rfl
  | cons c cs =>
    have hc : isStop c = true := by simpa [Stopped] using h
    rcases eq_of_isStop hc with rfl | rfl | rfl <;> rfl

namespace Akin

variable {cs ds : List Char}

theorem any_head {p : Char → Bool} (hp : ∀ c, isStop c = true → p c = false)
    (h : Akin cs ds) : ds.head?.any p = cs.head?.any p := h.head p hp

/-- One more character in front of both. -/
theorem cons (c : Char) (h : Akin cs ds) : Akin (c :: cs) (c :: ds) := by
  constructor
  case ne => exact List.cons_ne_nil _ _
  case head => exact fun _ _ => rfl
  case name =>
    by_cases hc : c = '-'
    · rw [hc, startsName_hyphen, startsName_hyphen]
      apply h.any_head
      intro d hd
      apply eq_false_of_isStop hd <;> rfl
    · rw [startsName_cons hc, startsName_cons hc, h.any_head fun _ => isLineEnd_stop]
  case number =>
    cases hc : isNumberSign c with
    | false =>
      rw [startsNumber_cons hc, startsNumber_cons hc, h.any_head fun _ => isDigit_stop]
    | true =>
      rw [startsNumber_sign_cons hc, startsNumber_sign_cons hc, h.number,
        h.any_head fun _ hd => by apply eq_false_of_isStop hd <;> rfl]
  case digit =>
    rw [startsDigit, startsDigit, sign_cons, sign_cons]
    split
    · exact h.any_head fun _ => isDigit_stop
    · rfl

theorem append (xs : List Char) (h : Akin cs ds) : Akin (xs ++ cs) (xs ++ ds) := by
  induction xs with
  | nil => exact h
  | cons x xs ih => exact ih.cons x

/-- The texts that a scanner starts from are akin if those are that it leaves. -/
theorem of_splits {α : Type} {s : Scan α} (hs : s.Splits cs) (h : Akin s.rest ds) :
    Akin cs (s.source ++ ds) := by
  have := h.append s.source
  rwa [hs] at this

/-- A character that is no stop stands at the head of both or of neither. -/
theorem head?_eq_iff {c : Char} (hc : isStop c = false) (h : Akin cs ds) :
    ds.head? = some c ↔ cs.head? = some c := by
  have hstop : ∀ d, isStop d = true → (d == c) = false := by
    intro d hd
    rw [beq_eq_false_iff_ne]
    rintro rfl
    rw [hd] at hc
    cases hc
  have hany : ∀ xs : List Char, xs.head?.any (· == c) = true ↔ xs.head? = some c := by
    intro xs
    cases xs <;> simp
  rw [← hany, ← hany, h.any_head hstop]

theorem cons_of_not_stop {c : Char} (hc : isStop c = false) (h : Akin (c :: cs) ds) :
    ∃ ds', ds = c :: ds' :=
  List.head?_eq_some_iff.1 ((h.head?_eq_iff hc).2 rfl)

theorem cons_of_not_stop' {c : Char} (hc : isStop c = false) (h : Akin cs (c :: ds)) :
    ∃ cs', cs = c :: cs' :=
  List.head?_eq_some_iff.1 ((h.head?_eq_iff hc).1 rfl)

end Akin

/-- Texts that are alike are akin. -/
theorem Alike.akin {cs ds : List Char} (h : Alike cs ds) : Akin cs ds := by
  induction h with
  | @stop c cs ds hc hds =>
    have halike : Alike (c :: cs) ds := .stop hc hds
    have hcs : Stopped (c :: cs) := by simpa [Stopped] using hc
    -- neither a number nor a digit starts in front of a stop
    have hnone : ∀ xs : List Char, Stopped xs → startsNumber xs = false ∧ startsDigit xs = false := by
      intro xs hxs
      cases xs with
      | nil => exact ⟨rfl, rfl⟩
      | cons x xs =>
        have hx : isStop x = true := by simpa [Stopped] using hxs
        rcases eq_of_isStop hx with rfl | rfl | rfl <;> exact ⟨rfl, rfl⟩
    constructor
    case ne => exact List.cons_ne_nil _ _
    case head => exact fun _ hp => halike.any_head hp
    case name => rw [startsName_of_stopped hds, startsName_of_stopped hcs]
    case number => rw [(hnone _ hds).1, (hnone _ hcs).1]
    case digit => rw [(hnone _ hds).2, (hnone _ hcs).2]
  | cons c _ ih => exact ih.cons c

/-! ## The scanners' building blocks -/

theorem Local.andThen {α β : Type} {likes : List Char → List Char → Prop}
    {f : List Char → Scan α} {g : List Char → Scan β} (hlikes : ∀ cs ds, likes cs ds → Akin cs ds)
    (hf : Local Akin f) (hgs : ∀ cs, (g cs).Splits cs) (hg : Local likes g) :
    Local likes fun cs => (f cs).andThen g := by
  intro cs ds h
  simp only [Scan.andThen, Scan.behind] at h ⊢
  have hlook := Akin.of_splits (hgs (f cs).rest) (hlikes _ _ h)
  rw [List.append_assoc, hf hlook]
  simp only [hg h]

theorem any_head?_dropWhile {p : Char → Bool} (cs : List Char) :
    (cs.dropWhile p).head?.any p = false := by
  have h := List.head?_dropWhile_not p cs
  cases hd : (cs.dropWhile p).head? with
  | none => rfl
  | some d => rwa [hd] at h

/-- A run goes on to where the test fails, behind which anything may stand. -/
theorem takeWhile_append_of_head {p : Char → Bool} {xs ds : List Char}
    (hxs : ∀ x ∈ xs, p x = true) (hds : ds.head?.any p = false) :
    (xs ++ ds).takeWhile p = xs ∧ (xs ++ ds).dropWhile p = ds := by
  rw [List.takeWhile_append_of_pos hxs, List.dropWhile_append_of_pos hxs]
  cases ds with
  | nil => simp
  | cons d ds =>
    have : p d = false := by simpa using hds
    simp [this]

theorem local_run {p : Char → Bool} (hp : ∀ c, isStop c = true → p c = false) :
    Local Akin (run p) := by
  intro cs ds h
  have hhead : ds.head?.any p = false := by
    rw [h.any_head hp]
    exact any_head?_dropWhile cs
  have hall : ∀ x ∈ cs.takeWhile p, p x = true := List.all_eq_true.1 List.all_takeWhile
  obtain ⟨htake, hdrop⟩ := takeWhile_append_of_head hall hhead
  simp only [run] at h ⊢
  rw [htake, hdrop]

/-! ## Escapes and names -/

theorem oneSpace_of_head {cs : List Char} (h : cs.head?.any isSpace = false) :
    oneSpace cs = ⟨(), [], cs⟩ := by
  fun_cases oneSpace cs with
  | case1 cs => exact absurd h (by simp [isSpace])
  | case2 c cs _ hc => rw [List.head?_cons, Option.any_some, hc] at h; cases h
  | case3 => rfl
  | case4 => rfl

theorem local_oneSpace : Local Akin oneSpace := by
  intro cs ds
  fun_cases oneSpace cs with
  | case1 cs => exact fun _ => rfl
  | case2 c cs hne hc =>
    intro h
    rw [List.singleton_append]
    unfold oneSpace
    split
    · -- a line feed behind a carriage return would have been there before
      rename_i ds' heq
      obtain ⟨hcr, rfl⟩ := List.cons.inj heq
      obtain ⟨cs', hcs⟩ := Akin.cons_of_not_stop' (by decide) h
      exact absurd hcs (hne cs' hcr)
    · rename_i d ds' _ heq
      obtain ⟨rfl, rfl⟩ := List.cons.inj heq
      rw [if_pos hc]
    · rename_i heq
      cases heq
  | case3 c cs hne hc =>
    intro h
    change oneSpace ds = ⟨(), [], ds⟩
    apply oneSpace_of_head
    rw [h.any_head fun _ => isSpace_stop]
    simpa using hc
  | case4 =>
    intro h
    exact absurd rfl h.ne

/-- A run of limited length ends for the same reason behind a text that is akin. -/
theorem takeWhile_take_append {p : Char → Bool} (hp : ∀ c, isStop c = true → p c = false)
    (n : Nat) {cs ds : List Char}
    (h : Akin (cs.drop ((cs.take n).takeWhile p).length) ds) :
    (((cs.take n).takeWhile p ++ ds).take n).takeWhile p = (cs.take n).takeWhile p := by
  generalize hxs : (cs.take n).takeWhile p = xs at h ⊢
  have hall : ∀ x ∈ xs, p x = true := by
    rw [← hxs]
    exact List.all_eq_true.1 List.all_takeWhile
  have hle : xs.length ≤ n := by
    have := (List.takeWhile_prefix (p := p) (l := cs.take n)).length_le
    rw [hxs, List.length_take] at this
    omega
  rw [List.take_append, List.take_of_length_le hle]
  refine (takeWhile_append_of_head hall ?_).1
  rcases Nat.eq_zero_or_pos (n - xs.length) with hzero | hpos
  · rw [hzero]
    rfl
  · -- the run was not cut off, so the character behind it fails the test
    have hdrop : (cs.take n).drop xs.length = (cs.take n).dropWhile p := by
      have hsplit := List.takeWhile_append_dropWhile (p := p) (l := cs.take n)
      rw [hxs] at hsplit
      conv => lhs; rw [← hsplit]
      exact List.drop_left
    have hfails := any_head?_dropWhile (p := p) (cs.take n)
    rw [← hdrop, List.drop_take, List.head?_take, if_neg (by omega)] at hfails
    rw [List.head?_take, if_neg (by omega), h.any_head hp, hfails]

theorem escape_of_head {cs : List Char} (h : cs.head?.any isHexDigit = true) :
    escape cs =
      (let digits := (cs.take 6).takeWhile isHexDigit
      let gap := oneSpace (cs.drop digits.length)
      ⟨ofCode (digits.foldl (fun n d => 16 * n + hexValue d) 0), digits ++ gap.source, gap.rest⟩) := by
  cases cs with
  | nil => cases h
  | cons c cs => rw [escape, if_pos (by simpa using h)]

theorem local_escape : Local Akin escape := by
  intro cs ds
  fun_cases escape cs with
  | case1 =>
    intro h
    exact absurd rfl h.ne
  | case2 c cs hc digits gap =>
    intro h
    have hgap : oneSpace (gap.source ++ ds) = ⟨gap.value, gap.source, ds⟩ := local_oneSpace h
    have hdigits : ((digits ++ (gap.source ++ ds)).take 6).takeWhile isHexDigit = digits := by
      apply takeWhile_take_append (fun _ => isHexDigit_stop)
      exact Akin.of_splits (oneSpace_splits _) h
    have hhead : (digits ++ (gap.source ++ ds)).head?.any isHexDigit = true := by
      have : digits = c :: (cs.take 5).takeWhile isHexDigit := by simp [digits, hc]
      rw [this]
      simpa using hc
    simp only [List.append_assoc]
    rw [escape_of_head hhead, hdigits]
    simp only [List.drop_left, hgap]
  | case3 c cs hc =>
    intro h
    rw [List.singleton_append, escape, if_neg hc]

theorem name_of_head {cs : List Char} (h : cs.head?.any isNameChar = false)
    (hb : cs.head? ≠ some '\\') : name cs = ⟨[], [], cs⟩ := by
  cases cs with
  | nil => rw [name]
  | cons c cs =>
    rw [name, if_neg (by simpa using hb), if_neg (by simpa using h)]

theorem name_escape {cs : List Char} (h : ¬ atLineEnd cs = true) :
    name ('\\' :: cs) =
      ((name (escape cs).rest).map ((escape cs).value :: ·)).behind ('\\' :: (escape cs).source) := by
  rw [name, if_pos (by decide), if_neg h]

theorem local_name : Local Akin name := by
  intro cs ds h
  fun_induction name cs with
  | case1 => exact absurd rfl h.ne
  | case2 c cs hc hend =>
    rw [beq_iff_eq] at hc
    subst hc
    obtain ⟨ds', rfl⟩ := h.cons_of_not_stop (by decide)
    -- no name starts at a backslash in front of a line end
    have hend' : atLineEnd ds' = true := by
      have hname := h.name
      rw [startsName_cons (by decide), startsName_cons (by decide), if_pos (by decide),
        if_pos (by decide), Bool.not_inj_iff] at hname
      exact hname.trans hend
    rw [List.nil_append, name, if_pos (by decide), if_pos hend']
  | case3 c cs hc hend e _ ih =>
    rw [beq_iff_eq] at hc
    subst hc
    have hrest : Akin e.rest ((name e.rest).source ++ ds) := Akin.of_splits (name_splits _) h
    have he : escape (e.source ++ ((name e.rest).source ++ ds)) =
      ⟨e.value, e.source, (name e.rest).source ++ ds⟩ := local_escape hrest
    have hend' : ¬ atLineEnd (e.source ++ ((name e.rest).source ++ ds)) = true := by
      rw [atLineEnd, (Akin.of_splits (escape_splits cs) hrest).any_head fun _ => isLineEnd_stop]
      exact hend
    simp only [Scan.behind, Scan.map, List.cons_append, List.append_assoc]
    rw [name_escape hend', he, ih h]
    simp only [Scan.behind, Scan.map, List.cons_append]
  | case4 c cs hc hname ih =>
    simp only [Scan.behind, Scan.map, List.cons_append, List.nil_append]
    rw [name, if_neg hc, if_pos hname, ih h]
    rfl
  | case5 c cs hc hname =>
    change name ds = ⟨[], [], ds⟩
    apply name_of_head
    · rw [h.any_head fun _ => isNameChar_stop]
      simpa using hname
    · intro hb
      obtain ⟨ds', rfl⟩ : ∃ ds', ds = '\\' :: ds' := by
        cases ds <;> simp_all
      obtain ⟨cs', hcs⟩ := Akin.cons_of_not_stop' (by decide) h
      exact hc (by simp [(List.cons.inj hcs).1])

end CssPruning.Token
