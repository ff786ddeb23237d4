import CssPruning.Proofs.Sheet.Forest
import CssPruning.Sheet.Retain

/-!
# What is left when at-rules are taken away

`Node.Deleted doomed` is the relation between a row of nodes and what is left of
it when exactly the at-rules that `doomed` holds of go, each with all that is in
it: every other node stays, as it was and where it was.  It is a function of the
row (`Node.Deleted.unique`).

A pass without a state, `Sheet.prune`, computes it (`sheet_prune`, `deleted_allKept`).  Two passes
one after the other are one pass that asks both questions at once, as long as
the second question does not look at what the first takes away
(`allKept_allKept`).
-/

set_option autoImplicit false

namespace CssPruning

namespace Node

/-! ## The relation -/

/-- What is left of some nodes when the doomed at-rules are taken away. -/
inductive Deleted (doomed : AtRule → Prop) : List Node → List Node → Prop where
  | nil : Deleted doomed [] []
  | gone {name : String} {prelude : Option String} {block : Option (List Node)}
      {ns ms : List Node} :
      doomed ⟨name, prelude, block⟩ → Deleted doomed ns ms →
      Deleted doomed (atRule name prelude block :: ns) ms
  | statement {name : String} {prelude : Option String} {ns ms : List Node} :
      ¬ doomed ⟨name, prelude, none⟩ → Deleted doomed ns ms →
      Deleted doomed (atRule name prelude none :: ns) (atRule name prelude none :: ms)
  | block {name : String} {prelude : Option String} {children left ns ms : List Node} :
      ¬ doomed ⟨name, prelude, some children⟩ → Deleted doomed children left →
      Deleted doomed ns ms →
      Deleted doomed (atRule name prelude (some children) :: ns)
        (atRule name prelude (some left) :: ms)
  | rule {selector : String} {children left ns ms : List Node} :
      Deleted doomed children left → Deleted doomed ns ms →
      Deleted doomed (rule selector children :: ns) (rule selector left :: ms)
  | declaration {d : Declaration} {ns ms : List Node} :
      Deleted doomed ns ms → Deleted doomed (declaration d :: ns) (declaration d :: ms)
  | comment {text : String} {ns ms : List Node} :
      Deleted doomed ns ms → Deleted doomed (comment text :: ns) (comment text :: ms)
  | raw {text : String} {ns ms : List Node} :
      Deleted doomed ns ms → Deleted doomed (raw text :: ns) (raw text :: ms)

/-- There is one row that is left. -/
theorem Deleted.unique {doomed : AtRule → Prop} {ns ms ls : List Node}
    (hm : Deleted doomed ns ms) (hl : Deleted doomed ns ls) : ms = ls := by
  induction hm generalizing ls with
  | nil => cases hl; rfl
  | gone hr _ ih =>
    cases hl with
    | gone _ h => exact ih h
    | statement h => exact absurd hr h
    | block h => exact absurd hr h
  | statement hr _ ih =>
    cases hl with
    | gone h => exact absurd h hr
    | statement _ h => rw [ih h]
  | block hr _ _ ihc ih =>
    cases hl with
    | gone h => exact absurd h hr
    | block _ hc h => rw [ihc hc, ih h]
  | rule _ _ ihc ih =>
    cases hl with
    | rule hc h => rw [ihc hc, ih h]
  | declaration _ ih =>
    cases hl with
    | declaration h => rw [ih h]
  | comment _ ih =>
    cases hl with
    | comment h => rw [ih h]
  | raw _ ih =>
    cases hl with
    | raw h => rw [ih h]

/-! ## The function -/

mutual

/-- What is left of a node when the at-rules that a test rejects are taken away. -/
def kept (keep : AtRule → Bool) : Node → Option Node
  | atRule name prelude none =>
    if keep ⟨name, prelude, none⟩ then some (atRule name prelude none) else none
  | atRule name prelude (some children) =>
    if keep ⟨name, prelude, some children⟩ then
      some (atRule name prelude (some (allKept keep children)))
    else none
  | rule selector children => some (rule selector (allKept keep children))
  | declaration d => some (declaration d)
  | comment text => some (comment text)
  | raw text => some (raw text)
termination_by structural n => n

/-- What is left of some nodes in a row. -/
def allKept (keep : AtRule → Bool) : List Node → List Node
  | [] => []
  | n :: ns => (kept keep n).toList ++ allKept keep ns
termination_by structural ns => ns

end

section

variable {keep : AtRule → Bool}

theorem allKept_append (ns ms : List Node) :
    allKept keep (ns ++ ms) = allKept keep ns ++ allKept keep ms := by
  induction ns with
  | nil => rfl
  | cons n ns ih => simp [allKept, ih]

/-- A judge whose verdicts do not hang on its state takes away what a test with
the same verdicts takes away. -/
theorem fst_retainAllWith {σ : Type} {judge : AtRule → σ → Bool × σ}
    (h : ∀ r s, (judge r s).1 = keep r) (ns : List Node) (s : σ) :
    (retainAllWith judge ns s).1 = allKept keep ns := by
  induction ns using rowInduction generalizing s with
  | nil => rfl
  | rule selector children ns ihc ih => simp [retainAllWith, retainWith, allKept, kept, ihc, ih]
  | statement name prelude ns ih =>
    simp only [retainAllWith, retainWith, allKept, kept, h, ih]
  | block name prelude children ns ihc ih =>
    simp only [retainAllWith, retainWith, allKept, kept, h]
    split <;> simp [ihc, ih]
  | declaration d ns ih => simp [retainAllWith, retainWith, allKept, kept, ih]
  | comment text ns ih => simp [retainAllWith, retainWith, allKept, kept, ih]
  | raw text ns ih => simp [retainAllWith, retainWith, allKept, kept, ih]

/-- A pass without a state is the function. -/
theorem sheet_prune (keep : AtRule → Bool) (sheet : Sheet) :
    (sheet.prune keep).sheet = allKept keep sheet := by
  let judge (r : AtRule) (log : List Verdict) : Bool × List Verdict :=
    (keep r, ⟨r, keep r⟩ :: log)
  have hjudge : ∀ r log, (judge r log).1 = keep r := fun _ _ => rfl
  exact fst_retainAllWith hjudge sheet []

/-- The function computes the relation. -/
theorem deleted_allKept {doomed : AtRule → Prop} (h : ∀ r, keep r = true ↔ ¬ doomed r)
    (ns : List Node) : Deleted doomed ns (allKept keep ns) := by
  induction ns using rowInduction with
  | nil => exact .nil
  | rule selector children ns ihc ih => exact .rule ihc ih
  | statement name prelude ns ih =>
    simp only [allKept, kept]
    split
    · rename_i hk
      exact .statement ((h _).1 hk) ih
    · rename_i hk
      exact .gone (by rwa [h, Classical.not_not] at hk) ih
  | block name prelude children ns ihc ih =>
    simp only [allKept, kept]
    split
    · rename_i hk
      exact .block ((h _).1 hk) ihc ih
    · rename_i hk
      exact .gone (by rwa [h, Classical.not_not] at hk) ih
  | declaration d ns ih => exact .declaration ih
  | comment text ns ih => exact .comment ih
  | raw text ns ih => exact .raw ih

/-! ## What does not change -/

/-- Taking at-rules away changes none of the declarations of a row. -/
theorem filterMap_declaration_allKept (ns : List Node) :
    (allKept keep ns).filterMap declaration? = ns.filterMap declaration? := by
  induction ns using rowInduction with
  | nil => rfl
  | rule selector children ns _ ih => simpa [allKept, kept, List.filterMap_cons, declaration?] using ih
  | statement name prelude ns ih =>
    simp only [allKept, kept]
    split <;> simpa [List.filterMap_cons, declaration?] using ih
  | block name prelude children ns _ ih =>
    simp only [allKept, kept]
    split <;> simpa [List.filterMap_cons, declaration?] using ih
  | declaration d ns ih => simpa [allKept, kept, List.filterMap_cons, declaration?] using ih
  | comment text ns ih => simpa [allKept, kept, List.filterMap_cons, declaration?] using ih
  | raw text ns ih => simpa [allKept, kept, List.filterMap_cons, declaration?] using ih

/-- Two passes are one that asks both questions, if the second question gets the
same answer before and after the first pass. -/
theorem allKept_allKept {keep' : AtRule → Bool}
    (h : ∀ name prelude children, keep' ⟨name, prelude, some (allKept keep children)⟩ =
      keep' ⟨name, prelude, some children⟩) (ns : List Node) :
    allKept keep' (allKept keep ns) = allKept (fun r => keep r && keep' r) ns := by
  induction ns using rowInduction with
  | nil => rfl
  | rule selector children ns ihc ih => simp [allKept, kept, ihc, ih]
  | statement name prelude ns ih =>
    simp only [allKept, kept, Bool.and_eq_true]
    cases keep ⟨name, prelude, none⟩ <;> simp [allKept, kept, ih]
  | block name prelude children ns ihc ih =>
    simp only [allKept, kept, Bool.and_eq_true]
    cases keep ⟨name, prelude, some children⟩ <;> simp [allKept, kept, h, ihc, ih]
  | declaration d ns ih => simp [allKept, kept, ih]
  | comment text ns ih => simp [allKept, kept, ih]
  | raw text ns ih => simp [allKept, kept, ih]

end

end Node

namespace AtRule

/-- The at-rule after a pass over the inside of its block. -/
def withKept (keep : AtRule → Bool) (r : AtRule) : AtRule :=
  { r with block := r.block.map (Node.allKept keep) }

/-- A pass over the inside of a block leaves the declarations of the block. -/
@[simp] theorem declarations_withKept (keep : AtRule → Bool) (r : AtRule) :
    (r.withKept keep).declarations = r.declarations := by
  obtain ⟨name, prelude, block⟩ := r
  cases block with
  | none => rfl
  | some children => exact Node.filterMap_declaration_allKept children

end AtRule

namespace Node

/-- The at-rules that are left are those that the test accepts, with what is left
inside of them. -/
theorem mem_allAtRules_allKept {keep : AtRule → Bool} {ns : List Node} {r : AtRule}
    (h : r ∈ allAtRules (allKept keep ns)) : ∃ r₀, keep r₀ = true ∧ r = r₀.withKept keep := by
  induction ns using rowInduction with
  | nil => cases h
  | rule selector children ns ihc ih =>
    simp only [allKept, kept, Option.toList_some, List.singleton_append, allAtRules, atRules,
      List.mem_append] at h
    exact h.elim ihc ih
  | statement name prelude ns ih =>
    simp only [allKept, kept] at h
    split at h
    · rename_i hk
      simp only [Option.toList_some, List.singleton_append, allAtRules, atRules,
        List.mem_cons] at h
      rcases h with rfl | h
      · exact ⟨_, hk, rfl⟩
      · exact ih h
    · exact ih h
  | block name prelude children ns ihc ih =>
    simp only [allKept, kept] at h
    split at h
    · rename_i hk
      simp only [Option.toList_some, allAtRules, atRules, List.cons_append, List.mem_cons,
        List.mem_append] at h
      rcases h with rfl | h | h
      · exact ⟨_, hk, rfl⟩
      · exact ihc h
      · exact ih h
    · exact ih h
  | declaration d ns ih => exact ih h
  | comment text ns ih => exact ih h
  | raw text ns ih => exact ih h

end Node

/-- A pass leaves no trace behind one that rejects at least as much and gives the
same answers before and after it. -/
theorem Node.allKept_allKept_of_imp {keep keep' : AtRule → Bool}
    (hsame : ∀ r : AtRule, keep' (r.withKept keep) = keep' r)
    (h : ∀ r, keep' r = true → keep r = true) (ns : List Node) :
    allKept keep' (allKept keep ns) = allKept keep' ns := by
  have hboth : (fun r => keep r && keep' r) = keep' := by
    funext r
    cases hr : keep' r with
    | false => rw [Bool.and_false]
    | true => rw [h r hr, Bool.and_self]
  rw [allKept_allKept fun name prelude children => hsame ⟨name, prelude, some children⟩, hboth]

/-- It does not matter whether the comments at the root go before a pass or after it. -/
theorem Sheet.allKept_stripComments (keep : AtRule → Bool) (s : Sheet) :
    Node.allKept keep (stripComments s) = stripComments (Node.allKept keep s) := by
  have hstrip (ns ms : Sheet) : stripComments (ns ++ ms) = stripComments ns ++ stripComments ms :=
    List.filter_append ..
  induction s with
  | nil => rfl
  | cons n ns ih =>
    have hcons : stripComments (n :: ns) = stripComments [n] ++ stripComments ns := hstrip [n] ns
    have hnode : Node.allKept keep (stripComments [n]) = stripComments (Node.kept keep n).toList := by
      cases n with
      | atRule name prelude block =>
        have hkept : Node.allKept keep (stripComments [.atRule name prelude block]) =
            (Node.kept keep (.atRule name prelude block)).toList := List.append_nil _
        rw [hkept]
        cases block <;> simp only [Node.kept] <;> split <;> rfl
      | _ => rfl
    rw [hcons, Node.allKept_append, hnode, ih, ← hstrip]
    rfl

/-! ## Places -/

namespace Place

/-- The place once some at-rules have been taken away from what stands beside it
and around it. -/
def left (keep : AtRule → Bool) : Place → Place
  | root before after => root (Node.allKept keep before) (Node.allKept keep after)
  | inRule outer selector before after =>
    inRule (outer.left keep) selector (Node.allKept keep before) (Node.allKept keep after)
  | inAtRule outer name prelude before after =>
    inAtRule (outer.left keep) name prelude (Node.allKept keep before) (Node.allKept keep after)

/-- The place once the comments at the root are gone. -/
def uncommented : Place → Place
  | root before after => root (Sheet.stripComments before) (Sheet.stripComments after)
  | inRule outer selector before after => inRule outer.uncommented selector before after
  | inAtRule outer name prelude before after =>
    inAtRule outer.uncommented name prelude before after

@[simp] theorem containers_left (keep : AtRule → Bool) (p : Place) :
    (p.left keep).containers = p.containers := by
  induction p with
  | root before after => rfl
  | inRule outer selector before after ih => simp [left, containers, ih]
  | inAtRule outer name prelude before after ih => simp [left, containers, ih]

@[simp] theorem containers_uncommented (p : Place) : p.uncommented.containers = p.containers := by
  induction p with
  | root before after => rfl
  | inRule outer selector before after ih => simp [uncommented, containers, ih]
  | inAtRule outer name prelude before after ih => simp [uncommented, containers, ih]

/-- A node around which every at-rule is accepted stays in its place, with what
is left inside of it. -/
theorem allKept_fill {keep : AtRule → Bool} {p : Place} {n n' : Node}
    (h : ∀ r ∈ p.around n, keep r = true) (hn : Node.kept keep n = some n') :
    Node.allKept keep (p.fill n) = (p.left keep).fill n' := by
  induction p generalizing n n' with
  | root before after => simp [fill, left, Node.allKept_append, Node.allKept, hn]
  | inRule outer selector before after ih =>
    rw [fill, left, fill]
    apply ih h
    simp [Node.kept, Node.allKept_append, Node.allKept, hn]
  | inAtRule outer name prelude before after ih =>
    simp only [around, List.mem_cons, forall_eq_or_imp] at h
    rw [fill, left, fill]
    apply ih h.2
    simp [Node.kept, h.1, Node.allKept_append, Node.allKept, hn]

/-- A node that is no comment stays in its place when the comments at the root go. -/
theorem stripComments_fill {p : Place} {n : Node} (h : n.isComment = false) :
    Sheet.stripComments (p.fill n) = p.uncommented.fill n := by
  induction p generalizing n with
  | root before after => simp [fill, uncommented, Sheet.stripComments, h]
  | inRule outer selector before after ih => exact ih rfl
  | inAtRule outer name prelude before after ih => exact ih rfl

end Place

/-- Comments have no at-rules inside of them. -/
theorem Sheet.allAtRules_stripComments (s : Sheet) :
    Node.allAtRules (Sheet.stripComments s) = Node.allAtRules s := by
  induction s with
  | nil => rfl
  | cons n ns ih =>
    unfold Sheet.stripComments at ih ⊢
    cases h : n.isComment with
    | false => rw [List.filter_cons_of_pos (by simp [h]), Node.allAtRules, Node.allAtRules, ih]
    | true =>
      obtain ⟨text, rfl⟩ : ∃ text, n = .comment text := by
        cases n <;> simp_all [Node.isComment]
      rw [List.filter_cons_of_neg (by simp [h]), ih]
      rfl

end CssPruning
