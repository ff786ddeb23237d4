/-!
# Variables and sets of names

A variable of the author's stands for the family names that its values name.  It
may be given more than once; the names add up, in the order in which they were
first given, without repetition and without the empty name.

Used names form a set: a list without repetition, in order of insertion.
-/

set_option autoImplicit false

namespace CssPruning.Font

/-! ## Sets of names -/

/-- Names without repetition, in order of insertion. -/
abbrev NameSet := List String

namespace NameSet

/-- The set with one more name. -/
def insert (s : NameSet) (name : String) : NameSet := if s.contains name then s else s ++ [name]

/-- The set with some more names. -/
def addAll (s : NameSet) (names : List String) : NameSet := names.foldl insert s

@[simp] theorem mem_insert {s : NameSet} {name x : String} :
    x ∈ s.insert name ↔ x ∈ s ∨ x = name := by
  unfold insert
  split
  · rename_i h
    have : name ∈ s := by simpa using h
    constructor
    · exact Or.inl
    · rintro (h | rfl) <;> assumption
  · simp

@[simp] theorem mem_addAll {s : NameSet} {names : List String} {x : String} :
    x ∈ s.addAll names ↔ x ∈ s ∨ x ∈ names := by
  induction names generalizing s with
  | nil => simp [addAll]
  | cons n ns ih =>
    have : s.addAll (n :: ns) = (s.insert n).addAll ns := rfl
    rw [this, ih, mem_insert, List.mem_cons, or_assoc]

end NameSet

/-! ## Variables -/

/-- The variables given so far and the names that each stands for. -/
structure Variables where
  entries : List (String × List String)
  deriving DecidableEq, Repr, Inhabited

namespace Variables

/-- No variables. -/
def empty : Variables := ⟨[]⟩

/-- The names of an entry after some more values. -/
def extend (names values : List String) : List String :=
  NameSet.addAll names (values.filter (· != ""))

/-- The entries after a variable has been given some values. -/
def recordIn (name : String) (values : List String) :
    List (String × List String) → List (String × List String)
  | [] => [(name, extend [] values)]
  | (n, names) :: es =>
    if n = name then (n, extend names values) :: es else (n, names) :: recordIn name values es

/-- The variables after one has been given some values, which may be none. -/
def record (vs : Variables) (name : String) (values : List String) : Variables :=
  ⟨recordIn name values vs.entries⟩

/-- The names that a variable stands for, if it has been given. -/
def get (vs : Variables) (name : String) : Option (List String) := vs.entries.lookup name

/-- The variable has been given. -/
def contains (vs : Variables) (name : String) : Bool := (vs.get name).isSome

/-- How many variables have been given. -/
def size (vs : Variables) : Nat := vs.entries.length

/-- No variable has been given. -/
def isEmpty (vs : Variables) : Bool := vs.entries.isEmpty

end Variables

end CssPruning.Font
