import CssPruning.Toml.Scalar

/-!
# Reading TOML documents

A document is read line by line.  The entries under a header are gathered in a
table of their own, which goes into the document when the next header or the end
comes.  A text either is a document as a whole or is none.
-/

set_option autoImplicit false

namespace CssPruning.Toml

/-! ## Gaps and keys -/

/-- The text behind a comment, if it holds nothing but text. -/
def skipComment (cs : List Char) : List Char := cs.dropWhile isText

/-- The text behind blanks, line ends and comments. -/
def skipGaps : Nat → List Char → List Char
  | 0, cs => cs
  | n + 1, cs =>
    match lineEnd cs with
    | some rest => skipGaps n rest
    | none =>
      match cs with
      | c :: rest =>
        if isBlank c then skipGaps n rest
        else if c == '#' then skipGaps n (skipComment rest)
        else cs
      | [] => []

/-- A key without dots. -/
def simpleKey (cs : List Char) : Option (String × List Char) :=
  match cs with
  | '"' :: rest => basicRest (rest.length + 1) [] rest
  | '\'' :: rest => literalRest rest
  | _ =>
    let key := cs.takeWhile isKeyChar
    if key.isEmpty then none else some (String.ofList key, cs.dropWhile isKeyChar)

/-- A key: simple keys with dots between them, and blanks around each. -/
def keyPath : Nat → List Char → Option (List String × List Char)
  | 0, _ => none
  | n + 1, cs => do
    let (key, rest) ← simpleKey (skipBlanks cs)
    match skipBlanks rest with
    | '.' :: rest =>
      let (path, rest) ← keyPath n rest
      return (key :: path, rest)
    | rest => return ([key], rest)

/-- Arrays, tables in braces and dots may be nested less deep than this. -/
def depthLimit : Nat := 80

/-- A key of bearable length. -/
def key (cs : List Char) : Option (List String × List Char) := do
  let (path, rest) ← keyPath (cs.length + 1) cs
  if depthLimit ≤ path.length then none else some (path, rest)

/-! ## Values -/

mutual

/-- A value inside of some arrays and tables in braces. -/
def value : Nat → Nat → List Char → Option (Item × List Char)
  | 0, _, _ => none
  | n + 1, depth, cs =>
    match cs with
    | '[' :: rest => if depthLimit ≤ depth + 1 then none else items n (depth + 1) [] rest
    | '\x7b' :: rest =>
      if depthLimit ≤ depth + 1 then none
      else
        match skipBlanks rest with
        | '\x7d' :: rest => some (.inlineTable .defined [], rest)
        | rest => pairs n (depth + 1) [] rest
    | _ => scalar cs

/-- The rest of an array, behind some items, last first. -/
def items : Nat → Nat → List Item → List Char → Option (Item × List Char)
  | 0, _, _, _ => none
  | n + 1, depth, done, cs =>
    match skipGaps (cs.length + 1) cs with
    | ']' :: rest => some (.array done.reverse, rest)
    | cs => do
      let (item, rest) ← value n depth cs
      match skipGaps (rest.length + 1) rest with
      | ',' :: rest => items n depth (item :: done) rest
      | ']' :: rest => return (.array (item :: done).reverse, rest)
      | _ => none

/-- The rest of a table in braces, behind some entries. -/
def pairs : Nat → Nat → Entries → List Char → Option (Item × List Char)
  | 0, _, _, _ => none
  | n + 1, depth, es, cs => do
    let (path, rest) ← key cs
    let rest ← expect '=' rest
    let (item, rest) ← value n depth (skipBlanks rest)
    let es ← es.addInline item false path .defined
    match skipBlanks rest with
    | ',' :: rest => pairs n depth es rest
    | '\x7d' :: rest => return (.inlineTable .defined es, rest)
    | _ => none

end

/-! ## Documents -/

/-- A document while it is read: what is in it, and the table that entries go
into, with its path and whether it is an element of an array. -/
structure Builder where
  root : Entries
  path : List String
  isElement : Bool
  current : Entries

namespace Builder

/-- Nothing read yet. -/
def start : Builder := ⟨[], [], false, []⟩

/-- The document with the current table put in. -/
def finish (b : Builder) : Option Entries :=
  match b.path.getLast? with
  | none => some b.current
  | some last =>
    let give := if b.isElement then Entries.giveElement last b.current
      else Entries.giveTable last b.current
    (Entries.changeAt false give b.path.dropLast .defined b.root).map Prod.snd

/-- The builder behind a header. -/
def header (b : Builder) (path : List String) (isElement : Bool) : Option Builder := do
  let root ← b.finish
  let last ← path.getLast?
  let make := if isElement then Entries.makeTables last else Entries.takeForHeader last
  let (current, root) ← Entries.changeAt false make path.dropLast .defined root
  return ⟨root, path, isElement, current⟩

/-- The builder behind an entry. -/
def entry (b : Builder) (path : List String) (item : Item) : Option Builder := do
  let last ← path.getLast?
  let add := Entries.addValue (1 < path.length) last item
  let (_, current) ← Entries.changeAt true add path.dropLast .defined b.current
  return { b with current }

end Builder

/-- The text behind the end of a line, with blanks and a comment in front of it. -/
def endOfLine (cs : List Char) : Option (List Char) :=
  let rest := match skipBlanks cs with
    | '#' :: rest => skipComment rest
    | rest => rest
  if rest.isEmpty then some [] else lineEnd rest

/-- A line with a header, behind its opening bracket. -/
def headerLine (b : Builder) (cs : List Char) : Option (Builder × List Char) :=
  match cs with
  | '[' :: cs => do
    let (path, rest) ← key cs
    let rest ← endOfLine (← expect ']' (← expect ']' rest))
    return (← b.header path true, rest)
  | _ => do
    let (path, rest) ← key cs
    let rest ← endOfLine (← expect ']' rest)
    return (← b.header path false, rest)

/-- A line with an entry. -/
def entryLine (b : Builder) (cs : List Char) : Option (Builder × List Char) := do
  let (path, rest) ← key cs
  let (item, rest) ← value (cs.length + 1) 0 (skipBlanks (← expect '=' rest))
  return (← b.entry path item, ← endOfLine rest)

/-- The lines still to come. -/
def lines : Nat → Builder → List Char → Option Entries
  | 0, _, _ => none
  | n + 1, b, cs =>
    match skipBlanks cs with
    | [] => b.finish
    | c :: rest => do
      let (b, rest) ←
        if c == '#' || c == '\n' || c == '\r' then (endOfLine (c :: rest)).map fun r => (b, r)
        else if c == '[' then headerLine b rest
        else entryLine b (c :: rest)
      lines n b rest

/-- The entries of the document that a text spells.  A mark of the byte order may
stand in front. -/
def parse? (text : String) : Option Entries :=
  let cs := match text.toList with
    | '\uFEFF' :: rest => rest
    | cs => cs
  lines (cs.length + 1) .start cs

end CssPruning.Toml
