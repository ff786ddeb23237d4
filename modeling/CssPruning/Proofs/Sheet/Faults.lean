import Mathlib.Algebra.GroupWithZero.Nat
import CssPruning.Proofs.Sheet.Loops
import CssPruning.Proofs.Token.Levels
import CssPruning.Proofs.Value.Loop

/-!
# Faults and their places

A sheet that is refused has a flaw at a place of its text, and the error gives the
wording of the one and the line and column of the other
(`exists_fault_of_parse_eq_error`).  At the place stands what is not closed: a
comment, a string or a block of a level of the text; or the first tree of a
declaration of a level, and it is the text of its value that is not readable.

The reader goes through a level tree by tree.  What it has passed is told by the
statement that it is inside of (`Begun`), and this is what every step keeps; so a
statement that is closed is found between its neighbours, with no tree lost and none
moved (`explained_of_readTrees`).

The loops that read a text refuse it as well if something is left of a block that has
been read.  That never happens, as no fault that is explained is of that kind, and none of
a value is (`nodes_ne_unexpectedInput`, `components_ne_unexpectedInput`).
-/

set_option autoImplicit false

namespace CssPruning

open TokenTree

/-! ## Lines and columns -/

namespace Location

/-- The line ends of a text; a carriage return and a line feed behind it are one. -/
def lineEnds : List Char → Nat
  | [] => 0
  | '\r' :: '\n' :: cs => lineEnds cs + 1
  | c :: cs => lineEnds cs + if Token.isLineEnd c then 1 else 0

/-- The text behind the last line end. -/
def lastLine : List Char → List Char
  | [] => []
  | c :: cs => if (c :: cs).any Token.isLineEnd then lastLine cs else c :: cs

/-- The place right behind a text: its line is one more than there are line ends, and its column
one more than the UTF-16 code units of the last line. -/
def behind (cs : List Char) : Location :=
  ⟨1 + lineEnds cs, 1 + ((lastLine cs).map units).sum⟩

theorem lastLine_cons {c : Char} {cs : List Char} (h : (c :: cs).any Token.isLineEnd = true) :
    lastLine (c :: cs) = lastLine cs := by
  rw [lastLine, if_pos h]

theorem lastLine_of_not {cs : List Char} (h : cs.any Token.isLineEnd = false) :
    lastLine cs = cs := by
  cases cs with
  | nil => rfl
  | cons c cs =>
    rw [lastLine, h]
    rfl

/-- Text moves a location on by its line ends, and by its last line behind one, or all of it. -/
theorem advance_eq (l : Location) (cs : List Char) : advance l cs =
    ⟨l.line + lineEnds cs,
      (if cs.any Token.isLineEnd then 1 else l.column) + ((lastLine cs).map units).sum⟩ := by
  fun_induction advance l cs with
  | case1 l => rfl
  | case2 l cs ih =>
    have hlast : lastLine ('\r' :: '\n' :: cs) = lastLine cs :=
      (lastLine_cons rfl).trans (lastLine_cons rfl)
    rw [ih, lineEnds, hlast, ite_self, Nat.add_right_comm, Nat.add_assoc]
    rfl
  | case3 l c cs hcrlf hend ih =>
    have hany : (c :: cs).any Token.isLineEnd = true := by rw [List.any_cons, hend, Bool.true_or]
    rw [ih, lineEnds.eq_3 c cs hcrlf, if_pos hend, lastLine_cons hany, if_pos hany, ite_self,
      Nat.add_right_comm, Nat.add_assoc]
  | case4 l c cs hcrlf hend ih =>
    have hany : (c :: cs).any Token.isLineEnd = cs.any Token.isLineEnd := by
      rw [List.any_cons, Bool.eq_false_iff.2 hend, Bool.false_or]
    rw [ih, lineEnds.eq_3 c cs hcrlf, if_neg hend, hany]
    cases hcs : cs.any Token.isLineEnd with
    | true => rw [lastLine_cons (hany.trans hcs)]; rfl
    | false =>
      rw [lastLine_of_not hcs, lastLine_of_not (hany.trans hcs)]
      simp only [Location.mk.injEq, List.map_cons, List.sum_cons]
      exact ⟨rfl, Nat.add_assoc _ _ _⟩

/-- The location of a place is told by the text in front of it. -/
theorem ofOffset_length (front rest : List Char) :
    ofOffset (front ++ rest) front.length = behind front := by
  rw [ofOffset, List.take_left, advance_eq, behind]
  split <;> rfl

end Location

/-! ## Trees that are not closed -/

/-- The tree is not closed: a comment or a string by the end of its source, or a block without a
closing bracket. -/
inductive TokenTree.Unshut : TokenTree → Flaw → Prop where
  | comment {l : Lexeme} {text : String} : l.token = .comment text → l.commentCloses = false →
      Unshut (leaf l) .unclosedComment
  | badString {l : Lexeme} : l.token = .badString → Unshut (leaf l) .unclosedString
  | string {l : Lexeme} {text : String} : l.token = .string text → l.stringCloses = false →
      Unshut (leaf l) .unclosedString
  | brackets {opener : Lexeme} {contents : List TokenTree} : opener.token ≠ .opening .curly →
      Unshut (block opener contents none) .unclosedParenthesis
  | curly {opener : Lexeme} {contents : List TokenTree} : opener.token = .opening .curly →
      Unshut (block opener contents none) .unclosedBlock

/-- The text starts with what the flaw says is not closed. -/
def Flaw.StartsOpen : Flaw → List Char → Prop
  | unclosedComment, cs => ∃ body, cs = '/' :: '*' :: body ∧ ¬ ['*', '/'] <:+: body
  | unclosedString, cs => cs.head? = some '"' ∨ cs.head? = some '\''
  | unclosedParenthesis, cs => cs.head? = some '(' ∨ cs.head? = some '[' ∨
      Token.startsName cs = true ∧ (Token.name cs).rest.head? = some '('
  | unclosedBlock, cs => cs.head? = some '\x7b'
  | _, _ => False

/-- At the place of a tree that is not closed the text starts with what is not closed. -/
theorem TokenTree.Unshut.startsOpen {cs before : List Char} {front behind : List TokenTree}
    {t : TokenTree} {flaw : Flaw} (h : Unshut t flaw)
    (hlevel : IsLevel (forest cs) before (front ++ t :: behind)) :
    ∃ rest, cs = before ++ front.flatMap source ++ rest ∧ flaw.StartsOpen rest := by
  obtain ⟨-, c, ds, htext, hvalue, hsource⟩ := hlevel.exists_next
  refine ⟨c :: ds, htext, ?_⟩
  -- the bracket of a block is a lexeme of one character
  have hsingle {d : Char} (htoken : t.head.token = Token.single d) : c = d := by
    have hd := Token.source_next_of_single (hvalue.trans htoken)
    have hsplits := Token.next_splits c ds
    rw [Scan.Splits, hd] at hsplits
    exact (List.cons.inj hsplits).1.symm
  cases h with
  | comment htoken hcloses =>
    obtain ⟨body, hbody, hsource'⟩ := Token.exists_of_next_comment (hvalue.trans htoken)
    exact ⟨body, hbody, Lexeme.not_infix_of_commentCloses (hsource.symm.trans hsource') hcloses⟩
  | badString htoken =>
    exact (Token.eq_quote_of_next_string (.inl (hvalue.trans htoken))).imp (congrArg some)
      (congrArg some)
  | string htoken _ =>
    exact (Token.eq_quote_of_next_string (.inr ⟨_, hvalue.trans htoken⟩)).imp (congrArg some)
      (congrArg some)
  | @brackets opener contents hne =>
    have hrooted := hlevel.rooted _ (List.mem_append_right _ List.mem_cons_self)
    cases hrooted with
    | block hopens _ =>
      cases htoken : opener.token with
      | function name => exact .inr (.inr (Token.name_of_next_function (hvalue.trans htoken)))
      | opening b =>
        cases b with
        | round => exact .inl (congrArg some (hsingle (d := '(') htoken))
        | square => exact .inr (.inl (congrArg some (hsingle (d := '[') htoken)))
        | curly => exact absurd htoken hne
      | _ =>
        rw [htoken] at hopens
        cases hopens
  | curly htoken => exact congrArg some (hsingle (d := '\x7b') htoken)

/-! ## Flaws of values -/

/-- The flaw is one of a value. -/
def Flaw.isOfValue : Flaw → Bool
  | unclosedCommentInValue | unclosedStringInValue | unclosedParenthesisInValue
  | malformedUrl => true
  | _ => false

theorem bind_eq_error {α β : Type} {x : Except Fault α} {g : α → Except Fault β} {f : Fault}
    (h : x >>= g = .error f) : x = .error f ∨ ∃ a, x = .ok a ∧ g a = .error f := by
  cases x with
  | error f' => exact .inl (congrArg Except.error (Except.error.inj h))
  | ok a => exact .inr ⟨a, rfl, h⟩

theorem map_eq_error {α β : Type} {x : Except Fault α} {g : α → β} {f : Fault}
    (h : g <$> x = .error f) : x = .error f := by
  cases x with
  | error f' => exact congrArg Except.error (Except.error.inj h)
  | ok a => cases h

namespace Component

theorem isOfValue_of_ofLexeme {l : Lexeme} {f : Fault} (h : ofLexeme l = .error f) :
    f.flaw.isOfValue = true := by
  unfold ofLexeme at h
  split at h
  case h_2 | h_4 =>
    split at h
    · cases h
    · cases h
      rfl
  case h_5 | h_11 =>
    cases h
    rfl
  all_goals cases h

/-- The first fault of a value has a flaw of a value. -/
theorem isOfValue_of_ofForest {ts : List TokenTree} {f : Fault} (h : ofForest ts = .error f) :
    f.flaw.isOfValue = true := by
  induction ts using forestInduction generalizing f with
  | nil => cases h
  | leaf l ts ih =>
    rw [ofForest] at h
    rcases bind_eq_error h with hl | ⟨c, -, h⟩
    · exact isOfValue_of_ofLexeme hl
    · rcases bind_eq_error h with hts | ⟨v, -, h⟩
      · exact ih hts
      · cases h
  | block opener contents closer ts ihc ih =>
    rw [ofForest] at h
    rcases bind_eq_error h with hblock | ⟨c, -, h⟩
    · rw [ofTree] at hblock
      split at hblock
      case h_3 => cases hblock
      all_goals
        rcases bind_eq_error hblock with hcontents | ⟨v, -, hblock⟩
        · exact ihc hcontents
        · split at hblock
          · cases hblock
            rfl
          · cases hblock
    · rcases bind_eq_error h with hts | ⟨v, -, h⟩
      · exact ih hts
      · cases h

end Component

theorem Value.isOfValue_of_read {cs : List Char} {f : Fault} (h : Value.read cs = .error f) :
    f.flaw.isOfValue = true :=
  Component.isOfValue_of_ofForest (map_eq_error h)

/-! ## Statements between their neighbours -/

namespace Sheet

/-- The tree ends a statement: a semicolon, or a block in curly brackets. -/
def stops : TokenTree → Bool
  | leaf l => l.token == .semicolon
  | block opener _ _ => opener.token == .opening .curly

/-- A statement that is no at-rule begins with the tree. -/
def begins : TokenTree → Bool
  | leaf l => beginsPlain l.token
  | block opener _ _ => opener.token != .opening .curly

/-- Behind the trees a statement may begin: they are none, or the last one stops a statement, with
gaps and comments behind it. -/
inductive Ended : List TokenTree → Prop where
  | nil : Ended []
  | stop {ts : List TokenTree} {t : TokenTree} : stops t = true → Ended (ts ++ [t])
  | gap {ts : List TokenTree} {l : Lexeme} : Ended ts → isGap l.token = true →
      Ended (ts ++ [leaf l])
  | comment {ts : List TokenTree} {l : Lexeme} {text : String} : Ended ts →
      l.token = .comment text → Ended (ts ++ [leaf l])

/-- The text or the block ends here, or a semicolon stands here. -/
def Finished (behind : List TokenTree) : Prop :=
  behind = [] ∨ ∃ l ts, behind = leaf l :: ts ∧ l.token = .semicolon

/-- Some trees of a level are a declaration, and `value` is the text behind its colon. -/
structure IsDeclaration (front trees behind : List TokenTree) (property value : List Char) :
    Prop where
  ended : Ended front
  begins : trees.head?.any begins = true
  goesOn : ∀ t ∈ trees, stops t = false
  finished : Finished behind
  phrase : Phrase.ofTrees trees = .ok ⟨property, some value⟩
  property_ne : ¬ (Text.trim property).isEmpty = true

end Sheet

open Sheet

/-- Behind some text stands a tree of a level that is not closed. -/
inductive Flaw.OpenTree (cs : List Char) (flaw : Flaw) : List Char → Prop where
  | intro {before : List Char} {front behind : List TokenTree} {t : TokenTree} :
      IsLevel (forest cs) before (front ++ t :: behind) → Unshut t flaw →
      OpenTree cs flaw (before ++ front.flatMap source)

/-- Behind some text stands a declaration of a level whose value cannot be read. -/
inductive Flaw.FaultyValue (cs : List Char) (flaw : Flaw) : List Char → List Char → Prop where
  | intro {before property value rest : List Char} {front trees behind : List TokenTree} {f : Fault} :
      IsLevel (forest cs) before (front ++ (trees ++ behind)) →
      IsDeclaration front trees behind property value →
      Value.read value = .error f → f.flaw = flaw →
      FaultyValue cs flaw (before ++ front.flatMap source) (trees.flatMap source ++ rest)

/-! ## Faults of the reader -/

/-- The fault is at the place of a tree that is not closed, or of a declaration with a value that
cannot be read. -/
def Fault.Explained (cs : List Char) (f : Fault) : Prop :=
  ∃ front rest, cs = front ++ rest ∧ f.offset = front.length ∧
    (f.flaw.OpenTree cs front ∧ f.flaw.StartsOpen rest ∨
      f.flaw.FaultyValue cs front rest ∧ f.flaw.isOfValue = true)

/-- A fault that is explained is not input that is left over. -/
theorem Fault.Explained.ne_unexpectedInput {cs : List Char} {f : Fault} (h : f.Explained cs)
    (printed : String) : f.flaw ≠ .unexpectedInput printed := by
  intro hflaw
  obtain ⟨front, rest, -, -, hplace⟩ := h
  rw [hflaw] at hplace
  rcases hplace with ⟨-, hopen⟩ | ⟨-, hvalue⟩
  · cases hopen
  · cases hvalue

namespace Sheet

variable {cs before : List Char} {f : Fault}

theorem explained_of_unshut {front behind : List TokenTree} {t : TokenTree} {flaw : Flaw}
    (hlevel : IsLevel (forest cs) before (front ++ t :: behind)) (h : Unshut t flaw) :
    Fault.Explained cs ⟨flaw, t.start⟩ := by
  obtain ⟨rest, htext, hopen⟩ := h.startsOpen hlevel
  exact ⟨_, rest, htext, hlevel.exists_next.1, .inl ⟨.intro hlevel h, hopen⟩⟩

/-- A text of a statement cannot be read because of a tree that is not closed. -/
theorem exists_unshut_of_ofTrees {ts : List TokenTree} (h : Phrase.ofTrees ts = .error f)
    (hstops : ∀ t ∈ ts, stops t = false) :
    ∃ front t behind flaw, ts = front ++ t :: behind ∧ Unshut t flaw ∧ f = ⟨flaw, t.start⟩ := by
  have hcons {t : TokenTree} {ts : List TokenTree}
      (h : ∃ front u behind flaw, ts = front ++ u :: behind ∧ Unshut u flaw ∧ f = ⟨flaw, u.start⟩) :
      ∃ front u behind flaw, t :: ts = front ++ u :: behind ∧ Unshut u flaw ∧
        f = ⟨flaw, u.start⟩ := by
    obtain ⟨front, u, behind, flaw, rfl, hu, hf⟩ := h
    exact ⟨t :: front, u, behind, flaw, rfl, hu, hf⟩
  fun_induction Phrase.ofTrees ts with
  | case1 => cases h
  | case2 l ts _ ih => exact hcons (ih h (List.forall_mem_cons.1 hstops).2)
  | case3 l ts text _ _ ih => exact hcons (ih h (List.forall_mem_cons.1 hstops).2)
  | case4 l ts text htoken hcloses =>
    exact ⟨[], _, ts, _, rfl, .comment htoken (Bool.eq_false_iff.2 hcloses),
      (Except.error.inj h).symm⟩
  | case5 l ts htoken => exact ⟨[], _, ts, _, rfl, .badString htoken, (Except.error.inj h).symm⟩
  | case6 l ts text _ _ ih => exact hcons (ih (map_eq_error h) (List.forall_mem_cons.1 hstops).2)
  | case7 l ts text htoken hcloses =>
    exact ⟨[], _, ts, _, rfl, .string htoken (Bool.eq_false_iff.2 hcloses),
      (Except.error.inj h).symm⟩
  | case8 l ts _ ih => exact hcons (ih (map_eq_error h) (List.forall_mem_cons.1 hstops).2)
  | case9 l ts _ _ _ _ _ ih => exact hcons (ih (map_eq_error h) (List.forall_mem_cons.1 hstops).2)
  | case10 opener contents closer ts _ ih =>
    exact hcons (ih (map_eq_error h) (List.forall_mem_cons.1 hstops).2)
  | case11 opener contents closer ts hcloser =>
    have hcurly := (List.forall_mem_cons.1 hstops).1
    rw [stops, beq_eq_false_iff_ne] at hcurly
    obtain rfl : closer = none := by simpa using hcloser
    exact ⟨[], _, ts, _, rfl, .brackets hcurly, (Except.error.inj h).symm⟩

theorem explained_of_ofTrees {front trees behind : List TokenTree}
    (hlevel : IsLevel (forest cs) before (front ++ (trees ++ behind)))
    (hstops : ∀ t ∈ trees, stops t = false) (h : Phrase.ofTrees trees = .error f) :
    f.Explained cs := by
  obtain ⟨front', t, behind', flaw, rfl, ht, rfl⟩ := exists_unshut_of_ofTrees h hstops
  have hlevel' : IsLevel (forest cs) before ((front ++ front') ++ t :: (behind' ++ behind)) := by
    simpa using hlevel
  exact explained_of_unshut hlevel' ht

/-- What the reader has passed in a level: the last statement has ended, or the trees of the one it
is inside of stand at the end. -/
inductive Begun : List TokenTree → Option Pending → Prop where
  | none {front : List TokenTree} : Ended front → Begun front none
  | atRule {front trees : List TokenTree} {name : String} : (∀ t ∈ trees, stops t = false) →
      Begun (front ++ trees.reverse) (some ⟨.atRule name, trees⟩)
  | plain {front trees : List TokenTree} {t : TokenTree} : Ended front →
      trees.reverse.head? = some t → begins t = true → (∀ t ∈ trees, stops t = false) →
      Begun (front ++ trees.reverse) (some ⟨.plain t.start, trees⟩)

/-- The trees of a statement that has begun are the last of those that were passed. -/
theorem Begun.exists_append {front : List TokenTree} {p : Pending} (h : Begun front (some p)) :
    ∃ front', front = front' ++ p.trees.reverse ∧ ∀ t ∈ p.trees.reverse, stops t = false := by
  cases h with
  | atRule hstops => exact ⟨_, rfl, fun t ht => hstops t (List.mem_reverse.1 ht)⟩
  | plain _ _ _ hstops => exact ⟨_, rfl, fun t ht => hstops t (List.mem_reverse.1 ht)⟩

/-- A statement goes on with a tree that does not stop it. -/
theorem Begun.push {front : List TokenTree} {p : Pending} {t : TokenTree}
    (h : Begun front (some p)) (ht : stops t = false) :
    Begun (front ++ [t]) (some ⟨p.opening, t :: p.trees⟩) := by
  cases h with
  | @atRule front trees name hstops =>
    rw [List.append_assoc, ← List.reverse_cons]
    exact .atRule (List.forall_mem_cons.2 ⟨ht, hstops⟩)
  | @plain front trees first hended hfirst hbegins hstops =>
    rw [List.append_assoc, ← List.reverse_cons]
    refine .plain hended ?_ hbegins (List.forall_mem_cons.2 ⟨ht, hstops⟩)
    rw [List.reverse_cons, List.head?_append, hfirst]
    rfl

/-- An at-rule begins with its name. -/
theorem Begun.name (front : List TokenTree) (name : String) :
    Begun front (some ⟨.atRule name, []⟩) := by
  have h : Begun (front ++ [].reverse) (some ⟨.atRule name, []⟩) :=
    .atRule (List.forall_mem_nil _)
  rwa [List.reverse_nil, List.append_nil] at h

/-- A plain statement begins with a tree. -/
theorem Begun.first {front : List TokenTree} {t : TokenTree} (h : Ended front)
    (hbegins : begins t = true) (ht : stops t = false) :
    Begun (front ++ [t]) (some ⟨.plain t.start, [t]⟩) :=
  .plain h rfl hbegins (List.forall_mem_cons.2 ⟨ht, List.forall_mem_nil _⟩)

/-- A fault of a statement that ends without a block. -/
theorem explained_of_close {front behind : List TokenTree} {p : Pending}
    (hlevel : IsLevel (forest cs) before (front ++ behind)) (hbegun : Begun front (some p))
    (hfinished : Finished behind) (h : p.close = .error f) : f.Explained cs := by
  rcases bind_eq_error h with hphrase | ⟨⟨property, tail⟩, hphrase, h⟩
  · obtain ⟨front', rfl, hstops⟩ := hbegun.exists_append
    rw [List.append_assoc] at hlevel
    exact explained_of_ofTrees hlevel hstops hphrase
  · cases hbegun with
    | atRule => cases h
    | @plain front trees first hended hfirst hbegins hstops =>
      dsimp only at hphrase h
      split at h
      · cases h
      · cases tail with
        | none => cases h
        | some value =>
          dsimp only at h
          split at h
          · cases h
          · rename_i hproperty
            rcases bind_eq_error h with hread | ⟨d, -, h⟩
            · rw [Declaration.read] at hread
              cases hvalue : Value.read value with
              | ok v =>
                rw [hvalue] at hread
                dsimp only at hread
                split at hread <;> cases hread
              | error f' =>
                rw [hvalue] at hread
                cases hread
                rw [List.append_assoc] at hlevel
                have hdeclaration : IsDeclaration front trees.reverse behind property value :=
                  ⟨hended, by rw [hfirst]; exact hbegins,
                    fun t ht => hstops t (List.mem_reverse.1 ht), hfinished, hphrase, hproperty⟩
                obtain ⟨rest, htext⟩ := hlevel.exists_source
                refine ⟨_, _, htext, ?_, .inr ⟨.intro hlevel hdeclaration hvalue rfl,
                  (Value.isOfValue_of_read hvalue :)⟩⟩
                obtain ⟨more, hmore⟩ := List.head?_eq_some_iff.1 hfirst
                rw [hmore] at hlevel
                exact hlevel.exists_next.1
            · cases h

/-- Whatever the reader meets behind what it has passed of a level, its fault is explained. -/
theorem explained_of_readTrees {front rest : List TokenTree} {pending : Option Pending}
    (hlevel : IsLevel (forest cs) before (front ++ rest)) (hbegun : Begun front pending)
    (h : readTrees pending rest = .error f) : f.Explained cs := by
  -- each tree that is passed moves from `rest` to the end of `front`, and `Begun` tells what it
  -- leaves pending
  induction rest using forestInduction generalizing before front pending with
  | nil =>
    cases pending with
    | none => cases h
    | some p => exact explained_of_close hlevel hbegun (.inl rfl) (map_eq_error h)
  | leaf l ts ih =>
    have hnext : IsLevel (forest cs) before ((front ++ [leaf l]) ++ ts) := by simpa using hlevel
    cases pending with
    | none =>
      obtain ⟨hended⟩ := hbegun
      rw [readTrees] at h
      split at h
      · rename_i hgap
        exact ih hnext (.none (.gap hended hgap)) h
      · rename_i hgap
        split at h
        · rename_i text htoken
          split at h
          · exact ih hnext (.none (.comment hended htoken)) (map_eq_error h)
          · rename_i hcloses
            cases h
            exact explained_of_unshut hlevel (.comment htoken (Bool.eq_false_iff.2 hcloses))
        · exact ih hnext (.name _ _) h
        · rename_i hcomment hat
          have hstops : stops (leaf l) = false := by
            rw [stops, beq_eq_false_iff_ne]
            intro htoken
            rw [htoken] at hgap
            exact hgap rfl
          exact ih hnext (.first hended (beginsPlain_of_not_isGap hgap hcomment hat) hstops) h
    | some p =>
      rw [readTrees] at h
      split at h
      · rename_i htoken
        rcases bind_eq_error h with hclose | ⟨node, -, h⟩
        · exact explained_of_close hlevel hbegun (.inr ⟨l, ts, rfl, htoken⟩) hclose
        · rcases bind_eq_error h with hnodes | ⟨nodes, -, h⟩
          · exact ih hnext (.none (.stop (by simpa [stops] using htoken))) hnodes
          · cases h
      · rename_i htoken
        exact ih hnext (hbegun.push (by simpa [stops] using htoken)) h
  | block opener contents closer ts ihc ih =>
    have hnext : IsLevel (forest cs) before ((front ++ [block opener contents closer]) ++ ts) := by
      simpa using hlevel
    simp only [readTrees] at h
    split at h
    · rename_i hcurly
      rcases bind_eq_error h with hphrase | ⟨phrase, -, h⟩
      · cases pending with
        | none => cases hphrase
        | some p =>
          obtain ⟨front', rfl, hstops⟩ := hbegun.exists_append
          rw [List.append_assoc] at hlevel
          exact explained_of_ofTrees hlevel hstops hphrase
      rcases bind_eq_error h with hchildren | ⟨children, -, h⟩
      · exact ihc (.inside hlevel hcurly) (.none .nil) hchildren
      cases closer with
      | none =>
        cases h
        exact explained_of_unshut hlevel (.curly hcurly)
      | some closer =>
        rcases bind_eq_error h with hnodes | ⟨nodes, -, h⟩
        · exact ih hnext (.none (.stop (by simpa [stops] using hcurly))) hnodes
        · cases h
    · rename_i hcurly
      have hstops : stops (block opener contents closer) = false := by simpa [stops] using hcurly
      cases pending with
      | none =>
        obtain ⟨hended⟩ := hbegun
        exact ih hnext (.first hended (by simpa [begins] using hcurly) hstops) h
      | some p => exact ih hnext (hbegun.push hstops) h

theorem explained_of_read (h : Sheet.read cs = .error f) : f.Explained cs := by
  have hlevel : IsLevel (forest cs) [] ([] ++ forest cs) := .top
  exact explained_of_readTrees hlevel (.none .nil) h

/-! ## Input that is left over -/

/-- The loops refuse a sheet for the fault that it is refused for. -/
theorem nodes_eq_error (h : Sheet.read cs = .error f) :
    Cursor.nodes none ⟨0, cs⟩ = .error f := by
  rw [← nodes_eq_read] at h
  exact map_eq_error h

/-- No block of a sheet is left with input that has not been read. -/
theorem nodes_ne_unexpectedInput (cs : List Char) (printed : String) (offset : Nat) :
    Cursor.nodes none ⟨0, cs⟩ ≠ .error ⟨.unexpectedInput printed, offset⟩ := by
  intro h
  have hread : Sheet.read cs = .error ⟨.unexpectedInput printed, offset⟩ := by
    rw [← nodes_eq_read, h]
    rfl
  exact (explained_of_read hread).ne_unexpectedInput printed rfl

/-- No function and no parenthesis of a value is left with input that has not been read. -/
theorem components_ne_unexpectedInput (cs : List Char) (printed : String) (offset : Nat) :
    Cursor.components none ⟨0, cs⟩ ≠ .error ⟨.unexpectedInput printed, offset⟩ := by
  intro h
  have hread : Value.read cs = .error ⟨.unexpectedInput printed, offset⟩ := by
    rw [← Value.trim_components_eq, h]
    rfl
  exact absurd (Value.isOfValue_of_read hread) Bool.false_ne_true

/-! ## Refused sheets -/

/-- A sheet is refused with one of eight messages, at the line and column of a place of its text.
Either something that is not closed starts there, or a declaration does whose value cannot be
read.  The loops, which look at what is left of every block, refuse the text for the same fault. -/
theorem exists_fault_of_parse_eq_error {text : String} {e : Error}
    (h : Sheet.parse text = .error e) :
    ∃ (flaw : Flaw) (front rest : List Char), text.toList = front ++ rest ∧
      e = .parse flaw.message (.behind front) ∧
      Cursor.nodes none ⟨0, text.toList⟩ = .error ⟨flaw, front.length⟩ ∧
      flaw.message ∈ ["unclosed comment", "unclosed string", "unclosed parenthesis",
        "unclosed block", "unclosed comment in value", "unclosed string in value",
        "unclosed parenthesis in value", "malformed url()"] ∧
      (flaw.OpenTree text.toList front ∧ flaw.StartsOpen rest ∨
        flaw.FaultyValue text.toList front rest ∧ flaw.isOfValue = true) := by
  rw [Sheet.parse] at h
  cases hread : Sheet.read text.toList with
  | ok s =>
    rw [hread] at h
    cases h
  | error f =>
    rw [hread] at h
    obtain rfl := Except.error.inj h
    obtain ⟨front, rest, htext, hoffset, hplace⟩ := explained_of_read hread
    refine ⟨f.flaw, front, rest, htext, ?_, ?_, ?_, hplace⟩
    · rw [Error.ofFault, hoffset, htext, Location.ofOffset_length]
    · rw [← hoffset]
      exact nodes_eq_error hread
    · cases hflaw : f.flaw with
      | unexpectedInput printed =>
        exact absurd hflaw ((explained_of_read hread).ne_unexpectedInput printed)
      | _ => decide

/-- A malformed address is told at the start of its declaration, in the second line. -/
theorem exists_fault_blankInUrl :
    Sheet.parse "@x;\np\x7bc:d;e: url(f g)\x7d" = .error (.parse "malformed url()" ⟨2, 7⟩) ∧
      ∃ front rest, "@x;\np\x7bc:d;e: url(f g)\x7d".toList = front ++ rest ∧
        Location.behind front = ⟨2, 7⟩ ∧
        Flaw.malformedUrl.FaultyValue "@x;\np\x7bc:d;e: url(f g)\x7d".toList front rest := by
  have hparse : Sheet.parse "@x;\np\x7bc:d;e: url(f g)\x7d" =
      .error (.parse "malformed url()" ⟨2, 7⟩) := by
    have htold : (match Sheet.parse "@x;\np\x7bc:d;e: url(f g)\x7d" with
        | .error e => some e
        | .ok _ => none) = some (.parse "malformed url()" ⟨2, 7⟩) := by decide +kernel
    split at htold
    · rename_i he
      rw [he, Option.some.inj htold]
    · cases htold
  refine ⟨hparse, ?_⟩
  obtain ⟨flaw, front, rest, htext, he, hnodes, -, hplace⟩ :=
    exists_fault_of_parse_eq_error hparse
  obtain ⟨hmessage, hlocation⟩ := Error.parse.inj he
  have hflaw : flaw = .malformedUrl := by
    cases flaw with
    | malformedUrl => rfl
    | unexpectedInput printed => exact absurd hnodes (nodes_ne_unexpectedInput _ _ _)
    | _ => exact absurd hmessage (by decide)
  subst hflaw
  rcases hplace with ⟨-, hopen⟩ | ⟨hvalue, -⟩
  · cases hopen
  · exact ⟨front, rest, htext, hlocation.symm, hvalue⟩

end Sheet

end CssPruning
