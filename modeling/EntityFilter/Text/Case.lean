import EntityFilter.Text.CaseTable

/-!
# Case of texts

Two notions of case are in use. Names are compared with ASCII letters alike
(`sameName`); argument texts are mapped to upper case with the full case mapping of
characters (`upper`), where one character may become several.

* `upper_append`: upper-casing goes character by character.
* `lower`: the capital sigma takes its final form at the end of a word, so lower-casing
  looks at both sides of a character.
-/

namespace EntityFilter.Text

/-- Whether two texts are the same when ASCII letters of either case are alike. -/
def sameName (s t : String) : Bool :=
  s.toList.map Char.toLower == t.toList.map Char.toLower

/-- The counterpart of a character in a table of runs; the character itself in no run. -/
def counterpart (runs : List (Nat × Nat × Nat × Nat)) (c : Char) : Char :=
  let n := c.toNat
  match runs.find? fun (first, last, step, _) =>
      first ≤ n && n ≤ last && (n - first) % step == 0 with
  | some (first, _, _, image) => Char.ofNat (image + (n - first))
  | none => c

/-- Whether a character lies in one of the ranges. -/
def inRanges (ranges : List (Nat × Nat)) (c : Char) : Bool :=
  ranges.any fun (first, last) => first ≤ c.toNat && c.toNat ≤ last

/-- The upper case of one character. -/
def upperChar (c : Char) : List Char :=
  if c.toNat < 128 then [c.toUpper]
  else match upperExpansions.lookup c.toNat with
    | some image => image.map Char.ofNat
    | none => [counterpart upperRuns c]

/-- The lower case of one character out of context. -/
def lowerChar (c : Char) : List Char :=
  if c.toNat < 128 then [c.toLower]
  else match lowerExpansions.lookup c.toNat with
    | some image => image.map Char.ofNat
    | none => [counterpart lowerRuns c]

/-- The upper case of a sequence of characters. -/
def upperChars (cs : List Char) : List Char :=
  cs.flatMap upperChar

/-- The upper case of a text. -/
def upper (s : String) : String :=
  String.ofList (upperChars s.toList)

theorem upper_append (s t : String) : upper (s ++ t) = upper s ++ upper t := by
  simp [upper, upperChars]

/-- Whether the next character that is not case-ignorable is a letter with case. -/
def meetsCased (cs : List Char) : Bool :=
  match cs.dropWhile (inRanges caseIgnorableRanges) with
  | [] => false
  | c :: _ => inRanges casedRanges c

/-- The lower case of a sequence of characters, given those before it, last one first. -/
def lowerAfter (before : List Char) : List Char → List Char
  | [] => []
  | c :: rest =>
    let image :=
      if c == 'Σ' then [if meetsCased before && !meetsCased rest then 'ς' else 'σ']
      else lowerChar c
    image ++ lowerAfter (c :: before) rest

/-- The lower case of a text. -/
def lower (s : String) : String :=
  String.ofList (lowerAfter [] s.toList)

end EntityFilter.Text
