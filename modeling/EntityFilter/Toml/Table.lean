/-!
# Tables of a TOML document

A document fills one table. Keys may be dotted, tables may be opened by headers, and each
key is given a value once.

* `Toml.define`: gives a dotted key its value.
* `Toml.openTable`: opens the table of a header.
* `Toml.defineIn`: gives a dotted key its value inside an open table.
-/

namespace EntityFilter.Toml

/-- How a table came to be, which decides who may add to it. -/
inductive Origin
  /-- Written in braces; complete. -/
  | inline
  /-- By a dotted key; open to other dotted keys. -/
  | dotted
  /-- By its own header. -/
  | header
  /-- By the header of a table inside it; its own header may follow. -/
  | implied
  deriving DecidableEq

/-- A value of a document, as far as settings need values. -/
inductive Node
  | bool (b : Bool)
  | text (s : String)
  | emptyArray
  | table (origin : Origin) (entries : List (String × Node))

/-- Keys with their values. -/
abbrev Entries := List (String × Node)

/-- Puts another value in the place of a key's value. -/
def Entries.replace (es : Entries) (k : String) (v : Node) : Entries :=
  es.map fun e => if e.1 == k then (k, v) else e

/-- **Gives a dotted key its value**, which it must not have yet. -/
def define (v : Node) : List String → Entries → Option Entries
  | [], _ => none
  | [k], es => if (es.lookup k).isSome then none else some (es ++ [(k, v)])
  | k :: path, es =>
    match es.lookup k with
    | none => (define v path []).map fun inner => es ++ [(k, .table .dotted inner)]
    | some (.table .dotted inner) =>
      (define v path inner).map fun inner => Entries.replace es k (.table .dotted inner)
    | some _ => none

/-- **Opens the table of a header**, which must not have been open before. -/
def openTable : List String → Entries → Option Entries
  | [], _ => none
  | [k], es =>
    match es.lookup k with
    | none => some (es ++ [(k, .table .header [])])
    | some (.table .implied inner) => some (Entries.replace es k (.table .header inner))
    | some _ => none
  | k :: path, es =>
    match es.lookup k with
    | none => (openTable path []).map fun inner => es ++ [(k, .table .implied inner)]
    | some (.table .inline _) => none
    | some (.table origin inner) =>
      (openTable path inner).map fun inner => Entries.replace es k (.table origin inner)
    | some _ => none

/-- **Gives a dotted key its value** inside the table that a path of keys leads to. -/
def defineIn (path : List String) (v : Node) : List String → Entries → Option Entries
  | [], es => define v path es
  | k :: rest, es =>
    match es.lookup k with
    | some (.table origin inner) =>
      (defineIn path v rest inner).map fun inner => Entries.replace es k (.table origin inner)
    | _ => none

end EntityFilter.Toml
