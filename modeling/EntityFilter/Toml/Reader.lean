import EntityFilter.Text.Quoted
import EntityFilter.Toml.Table

/-!
# Reading TOML

The reader knows truth values, strings of all four kinds, empty arrays and inline tables.
Documents with other values are refused: no setting takes them.

Every reader takes the characters to read and gives back what it read with the characters
left.

* `Toml.parse?`: the entries of a document.
-/

namespace EntityFilter.Toml

/-- A space or a tab. -/
def isBlank (c : Char) : Bool :=
  c == ' ' || c == '\t'

/-- A character that may stand in comments and on the lines of strings. -/
def isPrintable (c : Char) : Bool :=
  c == '\t' || (' ' ≤ c && c != '\x7f')

/-- A character of keys without quotation marks. -/
def isBareKey (c : Char) : Bool :=
  c.isAlphanum || c == '_' || c == '-'

/-- Without the blanks in front. -/
def skipBlanks (cs : List Char) : List Char :=
  cs.dropWhile isBlank

/-- Without the rest of a comment. -/
def skipComment (cs : List Char) : List Char :=
  cs.dropWhile isPrintable

/-- The characters after a line break. -/
def lineBreak? : List Char → Option (List Char)
  | '\n' :: rest => some rest
  | '\r' :: '\n' :: rest => some rest
  | _ => none

/-- The characters after the blanks and the comment that may end a line, and after the line
break. -/
def endLine? (cs : List Char) : Option (List Char) :=
  let rest := match skipBlanks cs with
    | '#' :: rest => skipComment rest
    | rest => rest
  if rest.isEmpty then some [] else lineBreak? rest

/-- Without the blanks, line breaks and comments in front. -/
def skipFiller : Bool → List Char → List Char
  | _, [] => []
  | _, '\n' :: rest => skipFiller false rest
  | _, '\r' :: '\n' :: rest => skipFiller false rest
  | comment, c :: rest =>
    if comment then (if isPrintable c then skipFiller true rest else c :: rest)
    else if c == '#' then skipFiller true rest
    else if isBlank c then skipFiller false rest
    else c :: rest

/-- The value of a hexadecimal digit. -/
def hexDigit? (c : Char) : Option Nat :=
  if c.isDigit then some (c.toNat - '0'.toNat)
  else if 'a' ≤ c && c ≤ 'f' then some (c.toNat - 'a'.toNat + 10)
  else if 'A' ≤ c && c ≤ 'F' then some (c.toNat - 'A'.toNat + 10)
  else none

/-- The character of a code point in hexadecimal digits. -/
def hexChar? (digits : List Char) : Option Char := do
  let ds ← digits.mapM hexDigit?
  let n := ds.foldl (fun n d => 16 * n + d) 0
  if n.isValidChar then some (Char.ofNat n) else none

/-- The character of an escape with one letter. -/
def simpleEscape? : Char → Option Char
  | 'b' => some '\x08'
  | 't' => some '\t'
  | 'n' => some '\n'
  | 'f' => some '\x0c'
  | 'r' => some '\r'
  | 'e' => some '\x1b'
  | '"' => some '"'
  | '\\' => some '\\'
  | _ => none

/-- The character of the escape after a backslash. -/
def escape? : List Char → Option (Char × List Char)
  | 'x' :: a :: b :: rest => (hexChar? [a, b]).map (·, rest)
  | 'u' :: a :: b :: c :: d :: rest => (hexChar? [a, b, c, d]).map (·, rest)
  | 'U' :: a :: b :: c :: d :: e :: f :: g :: h :: rest =>
    (hexChar? [a, b, c, d, e, f, g, h]).map (·, rest)
  | c :: rest => (simpleEscape? c).map (·, rest)
  | [] => none

/-- A string with escapes on one line, after its opening quotation mark. -/
def basicString? : Nat → List Char → Option (List Char × List Char)
  | 0, _ => none
  | _, [] => none
  | _ + 1, '"' :: rest => some ([], rest)
  | n + 1, '\\' :: rest => do
    let (c, rest) ← escape? rest
    let (text, rest) ← basicString? n rest
    some (c :: text, rest)
  | n + 1, c :: rest =>
    if isPrintable c then (basicString? n rest).map fun (text, rest) => (c :: text, rest)
    else none

/-- Whether a line ends after the blanks in front. -/
def atLineEnd (cs : List Char) : Bool :=
  (lineBreak? (skipBlanks cs)).isSome

/-- Without the blanks and line breaks in front. -/
def skipLines : List Char → List Char
  | '\r' :: '\n' :: rest => skipLines rest
  | c :: rest => if isBlank c || c == '\n' then skipLines rest else c :: rest
  | [] => []

/-- A string with escapes on several lines, after its opening marks. A backslash at the end
of a line takes away the blanks and line breaks that follow. -/
def basicLines? : Nat → List Char → Option (List Char × List Char)
  | 0, _ => none
  | _, [] => none
  | _, '"' :: '"' :: '"' :: '"' :: '"' :: rest => some (['"', '"'], rest)
  | _, '"' :: '"' :: '"' :: '"' :: rest => some (['"'], rest)
  | _, '"' :: '"' :: '"' :: rest => some ([], rest)
  | n + 1, '\\' :: rest =>
    if atLineEnd rest then basicLines? n (skipLines rest)
    else do
      let (c, rest) ← escape? rest
      let (text, rest) ← basicLines? n rest
      some (c :: text, rest)
  | n + 1, c :: rest =>
    if isPrintable c || c == '\n' || (c == '\r' && rest.head? == some '\n') then
      (basicLines? n rest).map fun (text, rest) => (c :: text, rest)
    else none

/-- A string without escapes on one line, after its opening quotation mark. -/
def literalString? : List Char → Option (List Char × List Char)
  | [] => none
  | c :: rest =>
    if c == Text.quoteMark then some ([], rest)
    else if isPrintable c then (literalString? rest).map fun (text, rest) => (c :: text, rest)
    else none

/-- The number of quotation marks of a literal string in front. -/
def leadingMarks (cs : List Char) : Nat :=
  (cs.takeWhile (· == Text.quoteMark)).length

/-- A string without escapes on several lines, after its opening marks. -/
def literalLines? : List Char → Option (List Char × List Char)
  | [] => none
  | c :: rest =>
    let marks := min 5 (leadingMarks (c :: rest))
    if 3 ≤ marks then some (List.replicate (marks - 3) Text.quoteMark, (c :: rest).drop marks)
    else if isPrintable c || c == '\n' || (c == '\r' && rest.head? == some '\n') then
      (literalLines? rest).map fun (text, rest) => (c :: text, rest)
    else none

/-- Without a line break right in front. -/
def skipBreak (cs : List Char) : List Char :=
  (lineBreak? cs).getD cs

/-- A string on one line. -/
def lineString? : List Char → Option (String × List Char)
  | '"' :: rest =>
    (basicString? (rest.length + 1) rest).map fun (s, rest) => (String.ofList s, rest)
  | c :: rest =>
    if c == Text.quoteMark then
      (literalString? rest).map fun (s, rest) => (String.ofList s, rest)
    else none
  | [] => none

/-- A string. -/
def string? (cs : List Char) : Option (String × List Char) :=
  match cs with
  | '"' :: '"' :: '"' :: rest =>
    let rest := skipBreak rest
    (basicLines? (rest.length + 1) rest).map fun (s, rest) => (String.ofList s, rest)
  | _ =>
    if leadingMarks cs ≥ 3 then
      (literalLines? (skipBreak (cs.drop 3))).map fun (s, rest) => (String.ofList s, rest)
    else lineString? cs

/-- One key. -/
def key? (cs : List Char) : Option (String × List Char) :=
  let bare := cs.takeWhile isBareKey
  if bare.isEmpty then lineString? cs
  else some (String.ofList bare, cs.dropWhile isBareKey)

/-- A dotted key. -/
def keyPath? : Nat → List Char → Option (List String × List Char)
  | 0, _ => none
  | n + 1, cs => do
    let (k, rest) ← key? (skipBlanks cs)
    match skipBlanks rest with
    | '.' :: rest =>
      let (path, rest) ← keyPath? n rest
      some (k :: path, rest)
    | rest => some ([k], rest)

mutual

/-- A value. -/
def value? : Nat → List Char → Option (Node × List Char)
  | 0, _ => none
  | n + 1, cs =>
    match cs with
    | 't' :: 'r' :: 'u' :: 'e' :: rest => some (.bool true, rest)
    | 'f' :: 'a' :: 'l' :: 's' :: 'e' :: rest => some (.bool false, rest)
    | '[' :: rest =>
      match skipFiller false rest with
      | ']' :: rest => some (.emptyArray, rest)
      | _ => none
    | '{' :: rest =>
      match skipFiller false rest with
      | '}' :: rest => some (.table .inline [], rest)
      | rest => (inlineEntries? n rest []).map fun (es, rest) => (.table .inline es, rest)
    | _ => (string? cs).map fun (s, rest) => (.text s, rest)

/-- A key with its value; a reader of blanks tells what may stand around the equality sign. -/
def assignment? : Nat → (List Char → List Char) → List Char →
    Option (List String × Node × List Char)
  | 0, _, _ => none
  | n + 1, skip, cs => do
    let (path, rest) ← keyPath? n cs
    match skip rest with
    | '=' :: rest =>
      let (v, rest) ← value? n (skip rest)
      some (path, v, rest)
    | _ => none

/-- The entries of a table in braces, up to its closing brace. Line breaks and comments may
stand between all its parts, only a dotted key is on one line. -/
def inlineEntries? : Nat → List Char → Entries → Option (Entries × List Char)
  | 0, _, _ => none
  | n + 1, cs, es => do
    let (path, v, rest) ← assignment? n (skipFiller false) cs
    let es ← define v path es
    match skipFiller false rest with
    | '}' :: rest => some (es, rest)
    | ',' :: rest =>
      match skipFiller false rest with
      | '}' :: rest => some (es, rest)
      | rest => inlineEntries? n rest es
    | _ => none

end

/-- The lines of a document, given the open table and the entries so far. -/
def lines? : Nat → List String → Entries → List Char → Option Entries
  | 0, _, _, _ => none
  | n + 1, path, es, cs =>
    match skipBlanks cs with
    | [] => some es
    | '[' :: rest => do
      let (header, rest) ← keyPath? n rest
      match rest with
      | ']' :: rest => lines? n header (← openTable header es) (← endLine? rest)
      | _ => none
    | rest =>
      match endLine? rest with
      | some rest => lines? n path es rest
      | none => do
        let (key, v, rest) ← assignment? n skipBlanks rest
        lines? n path (← defineIn key v path es) (← endLine? rest)

/-- Without the mark that may stand at the beginning of a document. -/
def skipMark : List Char → List Char
  | '\ufeff' :: rest => rest
  | cs => cs

/-- **The entries of a document.** -/
def parse? (s : String) : Option Entries :=
  let cs := skipMark s.toList
  lines? (2 * cs.length + 4) [] [] cs

end EntityFilter.Toml
