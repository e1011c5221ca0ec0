/-!
# Quoted text literals

A text literal of the query language stands between single quotes, and a quote inside it is
written twice.

* `doubled_append`: doubling goes character by character.
-/

namespace EntityFilter.Text

/-- The quotation mark of text literals. -/
def quoteMark : Char := Char.ofNat 39

/-- The characters of a text with every quotation mark written twice. -/
def doubled (cs : List Char) : List Char :=
  cs.flatMap fun c => if c == quoteMark then [c, c] else [c]

theorem doubled_append (cs ds : List Char) : doubled (cs ++ ds) = doubled cs ++ doubled ds := by
  simp [doubled]

/-- A text as a literal, with its own quotation marks doubled. -/
def quoted (s : String) : String :=
  String.ofList (quoteMark :: doubled s.toList ++ [quoteMark])

/-- A text between quotation marks, its characters unchanged. -/
def enclosed (s : String) : String :=
  String.ofList (quoteMark :: s.toList ++ [quoteMark])

end EntityFilter.Text
