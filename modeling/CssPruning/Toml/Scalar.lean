import CssPruning.Decimal.Reader
import CssPruning.Token.Literal
import CssPruning.Toml.Basic

/-!
# Scalars of TOML text

Readers of strings, numbers and dates.  Each reads at the head of a text and
answers what it read with the text left, or nothing if there is no such thing.
A reader that repeats itself takes a bound on the repetitions, for which the
length of the text will do.
-/

set_option autoImplicit false

namespace CssPruning.Toml

/-! ## Characters -/

/-- A blank inside of a line. -/
def isBlank (c : Char) : Bool := c == ' ' || c == '\t'

/-- A character of a comment, a string or a key in quotes, before quotes and
backslashes are told apart: a tab, a visible ASCII character or anything beyond
ASCII. -/
def isText (c : Char) : Bool := c == '\t' || (0x20 ≤ c.toNat && c.toNat ≤ 0x7E) || 0x80 ≤ c.toNat

/-- A character of a key without quotes. -/
def isKeyChar (c : Char) : Bool := c.isAlphanum || c == '_' || c == '-'

/-- The text behind the blanks. -/
def skipBlanks (cs : List Char) : List Char := cs.dropWhile isBlank

/-- The text behind a line end, if there is one. -/
def lineEnd : List Char → Option (List Char)
  | '\n' :: cs => some cs
  | '\r' :: '\n' :: cs => some cs
  | _ => none

/-- The text behind a line end, or the text. -/
def skipLineEnd (cs : List Char) : List Char := (lineEnd cs).getD cs

/-! ## Strings -/

/-- The character with a code of some hexadecimal digits. -/
def codeEscape (count : Nat) (cs : List Char) : Option (Char × List Char) :=
  let ds := cs.take count
  if ds.length = count && ds.all Token.isHexDigit then
    let n := ds.foldl (fun n d => 16 * n + Token.hexValue d) 0
    if n.isValidChar then some (Char.ofNat n, cs.drop count) else none
  else none

/-- What follows a backslash. -/
def escape : List Char → Option (Char × List Char)
  | 'b' :: cs => some ('\x08', cs)
  | 't' :: cs => some ('\t', cs)
  | 'n' :: cs => some ('\n', cs)
  | 'f' :: cs => some ('\x0c', cs)
  | 'r' :: cs => some ('\r', cs)
  | '"' :: cs => some ('"', cs)
  | '\\' :: cs => some ('\\', cs)
  | 'u' :: cs => codeEscape 4 cs
  | 'U' :: cs => codeEscape 8 cs
  | _ => none

/-- The rest of a string on one line in double quotes, behind the characters read
so far, last first. -/
def basicRest : Nat → List Char → List Char → Option (String × List Char)
  | 0, _, _ => none
  | _, _, [] => none
  | n + 1, done, c :: cs =>
    if c == '"' then some (String.ofList done.reverse, cs)
    else if c == '\\' then do
      let (d, cs) ← escape cs
      basicRest n (d :: done) cs
    else if isText c then basicRest n (c :: done) cs
    else none

/-- The rest of a string on one line in single quotes. -/
def literalRest (cs : List Char) : Option (String × List Char) :=
  let text := cs.takeWhile fun c => isText c && c != '\''
  match cs.dropWhile fun c => isText c && c != '\'' with
  | '\'' :: rest => some (String.ofList text, rest)
  | _ => none

/-- The quotes at the end of a string over several lines: up to two more than the
three that close it belong to the string. -/
def closingQuotes (quote : Char) (done cs : List Char) : Option (String × List Char) :=
  let extra := min 2 ((cs.takeWhile (· == quote)).length - 3)
  some (String.ofList (List.replicate extra quote ++ done).reverse, cs.drop (extra + 3))

/-- The text behind a backslash that ends a line: all blanks and line ends are
passed over. -/
def joinLines : Nat → List Char → List Char
  | 0, cs => cs
  | n + 1, cs =>
    match lineEnd cs with
    | some rest => joinLines n rest
    | none =>
      match cs with
      | c :: rest => if isBlank c then joinLines n rest else cs
      | [] => []

/-- The rest of a string over several lines; `escapes` if backslashes count. -/
def linesRest (quote : Char) (escapes : Bool) :
    Nat → List Char → List Char → Option (String × List Char)
  | 0, _, _ => none
  | _, _, [] => none
  | n + 1, done, c :: cs =>
    if c == quote then
      if [quote, quote].isPrefixOf cs then closingQuotes quote done (c :: cs)
      else linesRest quote escapes n (c :: done) cs
    else if c == '\\' && escapes then
      match lineEnd (skipBlanks cs) with
      | some rest => linesRest quote escapes n done (joinLines n rest)
      | none => do
        let (d, cs) ← escape cs
        linesRest quote escapes n (d :: done) cs
    else
      match lineEnd (c :: cs) with
      | some rest => linesRest quote escapes n ('\n' :: done) rest
      | none => if isText c then linesRest quote escapes n (c :: done) cs else none

/-- A string of any kind. -/
def string (cs : List Char) : Option (String × List Char) :=
  match cs with
  | '"' :: '"' :: '"' :: cs => linesRest '"' true (cs.length + 1) [] (skipLineEnd cs)
  | '\'' :: '\'' :: '\'' :: cs => linesRest '\'' false (cs.length + 1) [] (skipLineEnd cs)
  | '"' :: cs => basicRest (cs.length + 1) [] cs
  | '\'' :: cs => literalRest cs
  | _ => none

/-! ## Numbers -/

/-- Digits with single underscores between them, which are left out. -/
def digitRun (p : Char → Bool) : List Char → Option (List Char × List Char)
  | [] => none
  | [c] => if p c then some ([c], []) else none
  | c :: '_' :: cs =>
    if p c then
      match digitRun p cs with
      | some (ds, rest) => some (c :: ds, rest)
      | none => some ([c], '_' :: cs)
    else none
  | c :: d :: cs =>
    if p c then
      match digitRun p (d :: cs) with
      | some (ds, rest) => some (c :: ds, rest)
      | none => some ([c], d :: cs)
    else none

/-- Digits without a zero in front, unless it is the only one. -/
def wholeDigits (cs : List Char) : Option (List Char × List Char) :=
  match cs with
  | '0' :: rest => some (['0'], rest)
  | _ => digitRun Char.isDigit cs

/-- A fraction: a point and digits. -/
def fraction : List Char → Option (List Char × List Char)
  | '.' :: cs => (digitRun Char.isDigit cs).map fun (ds, rest) => ('.' :: ds, rest)
  | _ => none

/-- An exponent. -/
def exponent : List Char → Option (List Char × List Char)
  | e :: cs =>
    if e == 'e' || e == 'E' then
      let s := Token.sign cs
      (digitRun Char.isDigit s.rest).map fun (ds, rest) => ('e' :: s.source ++ ds, rest)
    else none
  | [] => none

/-- A number with a fraction or an exponent. -/
def pointed (sign cs : List Char) : Option (Float × List Char) := do
  let (whole, cs) ← wholeDigits cs
  let (part, cs) ← match fraction cs with
    | some (f, rest) =>
      match exponent rest with
      | some (e, rest) => some (f ++ e, rest)
      | none => some (f, rest)
    | none => exponent cs
  let x ← Decimal.read (sign ++ whole ++ part)
  if x.isInf && 0.0 < x then none else some (x, cs)

/-- Infinity or what is no number. -/
def special (sign cs : List Char) : Option (Float × List Char) :=
  let signed (x : Float) : Float := if sign == ['-'] then -x else x
  match cs with
  | 'i' :: 'n' :: 'f' :: rest => some (signed (1.0 / 0.0), rest)
  | 'n' :: 'a' :: 'n' :: rest => some (signed (0.0 / 0.0), rest)
  | _ => none

/-- The first natural number beyond the integers of 64 bits. -/
def integerBound : Int := 0x8000000000000000

/-- An integer of 64 bits, if the number is one. -/
def inRange (n : Int) : Option Int :=
  if -integerBound ≤ n && n < integerBound then some n else none

/-- An integer to some base, behind its mark. -/
def based (base : Nat) (p : Char → Bool) (cs : List Char) : Option (Int × List Char) := do
  let (ds, rest) ← digitRun p cs
  let n ← inRange (ds.foldl (fun n d => base * n + Token.hexValue d) 0 : Nat)
  return (n, rest)

/-- An integer. -/
def integer (cs : List Char) : Option (Int × List Char) :=
  match cs with
  | '0' :: 'x' :: cs => based 16 Token.isHexDigit cs
  | '0' :: 'o' :: cs => based 8 (fun c => '0' ≤ c && c ≤ '7') cs
  | '0' :: 'b' :: cs => based 2 (fun c => c == '0' || c == '1') cs
  | _ => do
    let s := Token.sign cs
    let (ds, rest) ← wholeDigits s.rest
    let n := (Decimal.ofDigits ds : Int)
    let n ← inRange (if s.source == ['-'] then -n else n)
    return (n, rest)

/-- A number with a fraction or an exponent, or a special one. -/
def float (cs : List Char) : Option (Float × List Char) :=
  let s := Token.sign cs
  (pointed s.source s.rest).or (special s.source s.rest)

/-! ## Dates and times -/

/-- A number of a fixed count of digits between two bounds. -/
def field (count low high : Nat) (cs : List Char) : Option (Nat × List Char) :=
  let ds := cs.take count
  let n := Decimal.ofDigits ds
  if ds.length = count && ds.all Char.isDigit && low ≤ n && n ≤ high then some (n, cs.drop count)
  else none

/-- The text behind a character that has to be there. -/
def expect (c : Char) : List Char → Option (List Char)
  | d :: cs => if d == c then some cs else none
  | [] => none

/-- The days of a month. -/
def daysIn (year month : Nat) : Nat :=
  if month = 2 then
    if year % 4 = 0 && (year % 100 != 0 || year % 400 = 0) then 29 else 28
  else if month = 4 || month = 6 || month = 9 || month = 11 then 30
  else 31

/-- The text behind a date. -/
def date (cs : List Char) : Option (List Char) := do
  let (year, cs) ← field 4 0 9999 cs
  let (month, cs) ← field 2 1 12 (← expect '-' cs)
  let (_, cs) ← field 2 1 (daysIn year month) (← expect '-' cs)
  return cs

/-- The text behind a time of day. -/
def time (cs : List Char) : Option (List Char) := do
  let (_, cs) ← field 2 0 23 cs
  let (_, cs) ← field 2 0 59 (← expect ':' cs)
  let (_, cs) ← field 2 0 60 (← expect ':' cs)
  match cs with
  | '.' :: d :: rest => return if d.isDigit then rest.dropWhile Char.isDigit else cs
  | _ => return cs

/-- The text behind an offset from universal time. -/
def offset (cs : List Char) : Option (List Char) :=
  match cs with
  | c :: rest =>
    if c == 'Z' || c == 'z' then some rest
    else if c == '+' || c == '-' then do
      let (_, rest) ← field 2 0 23 rest
      let (_, rest) ← field 2 0 59 (← expect ':' rest)
      return rest
    else none
  | [] => none

/-- The text behind a date, a time, or a date with a time and maybe an offset. -/
def datetime (cs : List Char) : Option (List Char) :=
  match date cs with
  | some rest =>
    match rest with
    | c :: more =>
      if c == 'T' || c == 't' || c == ' ' then
        match time more with
        | some rest => some ((offset rest).getD rest)
        | none => some rest
      else some rest
    | [] => some rest
  | none => time cs

/-! ## Any scalar -/

/-- A number or a date. -/
def number (cs : List Char) : Option (Item × List Char) :=
  match datetime cs with
  | some rest => some (.datetime, rest)
  | none =>
    match float cs with
    | some (x, rest) => some (.float x, rest)
    | none => (integer cs).map fun (n, rest) => (.integer n, rest)

/-- A string, a number, a date or a word. -/
def scalar (cs : List Char) : Option (Item × List Char) :=
  match cs with
  | 't' :: 'r' :: 'u' :: 'e' :: rest => some (.boolean true, rest)
  | 'f' :: 'a' :: 'l' :: 's' :: 'e' :: rest => some (.boolean false, rest)
  | '"' :: _ | '\'' :: _ => (string cs).map fun (s, rest) => (.string s, rest)
  | _ => number cs

end CssPruning.Toml
