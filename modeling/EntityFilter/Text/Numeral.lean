/-!
# Numeric literals

* `isNumeral`: an optional sign, then a hexadecimal literal (`0x`, `0X` or `#` and
  hexadecimal digits) or a decimal one (digits with an optional point, an optional exponent
  and an optional type suffix, where the suffix `l` is for whole numbers only).
* `parseInt64?`: the value of a whole number in decimal digits that fits in 64 bits.
-/

namespace EntityFilter.Text

/-- A sequence of characters without one leading sign. -/
def dropSign : List Char → List Char
  | '-' :: rest => rest
  | '+' :: rest => rest
  | cs => cs

/-- The part before the first character with a property, and the part after it if there is
such a character. -/
def cutAt (p : Char → Bool) : List Char → List Char × Option (List Char)
  | [] => ([], none)
  | c :: rest =>
    if p c then ([], some rest)
    else
      let (before, after) := cutAt p rest
      (c :: before, after)

/-- A literal without its type suffix, and the suffix if there is one. -/
def cutSuffix (cs : List Char) : List Char × Option Char :=
  match cs.getLast? with
  | some c => if c ∈ ['l', 'L', 'f', 'F', 'd', 'D'] then (cs.dropLast, some c) else (cs, none)
  | none => (cs, none)

/-- Whether a character is an ASCII hexadecimal digit. -/
def isHexDigit (c : Char) : Bool :=
  c.isDigit || ('a' ≤ c && c ≤ 'f') || ('A' ≤ c && c ≤ 'F')

/-- Whether what follows a hexadecimal mark is one or more hexadecimal digits. -/
def isHexadecimal (cs : List Char) : Bool :=
  !cs.isEmpty && cs.all isHexDigit

/-- Whether the characters are digits with an optional exponent and suffix. -/
def isDecimal (cs : List Char) : Bool :=
  let (body, suffix) := cutSuffix cs
  let (mantissa, exponent) := cutAt (fun c => c == 'e' || c == 'E') body
  let (integral, fraction) := cutAt (· == '.') mantissa
  integral.all Char.isDigit && (fraction.getD []).all Char.isDigit &&
    !(integral.isEmpty && (fraction.getD []).isEmpty) &&
    (exponent.all fun e => !(dropSign e).isEmpty && (dropSign e).all Char.isDigit) &&
    !((suffix == some 'l' || suffix == some 'L') && (fraction.isSome || exponent.isSome))

/-- Whether a text is a numeric literal. -/
def isNumeral (s : String) : Bool :=
  match dropSign s.toList with
  | '0' :: 'x' :: rest => isHexadecimal rest
  | '0' :: 'X' :: rest => isHexadecimal rest
  | '#' :: rest => isHexadecimal rest
  | cs => isDecimal cs

/-- The number that a sequence of decimal digits writes. -/
def decimalValue (cs : List Char) : Nat :=
  cs.foldl (fun n c => 10 * n + (c.toNat - '0'.toNat)) 0

/-- Whether a number fits in 64 bits with a sign. -/
def fitsInt64 (n : Int) : Bool :=
  -9223372036854775808 ≤ n && n ≤ 9223372036854775807

/-- The 64-bit number that a text writes in decimal digits after at most one sign. -/
def parseInt64? (s : String) : Option Int :=
  let digits := dropSign s.toList
  if digits.isEmpty || !digits.all Char.isDigit then none
  else
    let n : Int := decimalValue digits
    let signed := if s.toList.head? == some '-' then -n else n
    if fitsInt64 signed then some signed else none

end EntityFilter.Text
