import EntityFilter.Proofs.Text.Numeral

/-!
# The grammar of numerals

A numeral is a hexadecimal or a decimal literal after at most one sign. Here the literals are told
part by part, as they are written, and what the scanner cuts off and cuts at is held against that.

* `Text.Numeral`: the grammar.
* `Text.numeral_iff`: what stands behind the sign.
* `Text.isDecimal_of_cuts`, `Text.isDecimal_iff`: the cuts of a decimal literal find its parts.
* `Text.isNumeral_iff_numeral`: the scanner accepts exactly what the grammar writes.
-/

namespace EntityFilter.Text

/-- One or more characters of a class. -/
def Run (p : Char → Bool) (cs : List Char) : Prop := cs ≠ [] ∧ ∀ c ∈ cs, p c = true

/-- One or more decimal digits. -/
def Digits (cs : List Char) : Prop := Run Char.isDigit cs

/-- At most one sign. -/
inductive OptionalSign : List Char → Prop
  | none : OptionalSign []
  | minus : OptionalSign ['-']
  | plus : OptionalSign ['+']

/-- **A hexadecimal literal.** -/
inductive Hexadecimal : List Char → Prop
  | lower {digits : List Char} (h : Run isHexDigit digits) : Hexadecimal ('0' :: 'x' :: digits)
  | upper {digits : List Char} (h : Run isHexDigit digits) : Hexadecimal ('0' :: 'X' :: digits)
  | hash {digits : List Char} (h : Run isHexDigit digits) : Hexadecimal ('#' :: digits)

/-- Digits with at most one point among them. -/
inductive Mantissa : List Char → Prop
  | whole {digits : List Char} (h : Digits digits) : Mantissa digits
  | pointed {digits fraction : List Char} (h : Digits digits)
      (hf : ∀ c ∈ fraction, c.isDigit = true) : Mantissa (digits ++ '.' :: fraction)
  | fraction {fraction : List Char} (h : Digits fraction) : Mantissa ('.' :: fraction)

/-- At most one exponent. -/
inductive OptionalExponent : List Char → Prop
  | none : OptionalExponent []
  | some {mark : Char} {sign digits : List Char} (hm : mark = 'e' ∨ mark = 'E')
      (hs : OptionalSign sign) (hd : Digits digits) : OptionalExponent (mark :: (sign ++ digits))

/-- At most one suffix of a number that need not be whole. -/
inductive OptionalSuffix : List Char → Prop
  | none : OptionalSuffix []
  | some {c : Char} (h : c ∈ ['f', 'F', 'd', 'D']) : OptionalSuffix [c]

/-- **A decimal literal.** -/
inductive Decimal : List Char → Prop
  | scaled {mantissa exponent suffix : List Char} (hm : Mantissa mantissa)
      (he : OptionalExponent exponent) (hs : OptionalSuffix suffix) :
      Decimal (mantissa ++ exponent ++ suffix)
  | long {digits : List Char} {c : Char} (hd : Digits digits) (h : c = 'l' ∨ c = 'L') :
      Decimal (digits ++ [c])

/-- **A numeral**: a literal after at most one sign. -/
inductive Numeral : List Char → Prop
  | hexadecimal {sign literal : List Char} (hs : OptionalSign sign) (h : Hexadecimal literal) :
      Numeral (sign ++ literal)
  | decimal {sign literal : List Char} (hs : OptionalSign sign) (h : Decimal literal) :
      Numeral (sign ++ literal)

variable {cs body before after mantissa exponent digits rest : List Char} {c mark : Char}
  {p : Char → Bool}

/-! ## Signs -/

theorem exists_sign (cs : List Char) : ∃ sign, OptionalSign sign ∧ cs = sign ++ dropSign cs := by
  unfold dropSign
  split
  · exact ⟨_, .minus, rfl⟩
  · exact ⟨_, .plus, rfl⟩
  · exact ⟨_, .none, rfl⟩

theorem dropSign_cons (hminus : c ≠ '-') (hplus : c ≠ '+') : dropSign (c :: rest) = c :: rest := by
  unfold dropSign
  split
  · rename_i h
    exact absurd (List.cons.inj h).1 hminus
  · rename_i h
    exact absurd (List.cons.inj h).1 hplus
  · rfl

/-- A sign is dropped if no second one follows. -/
theorem dropSign_append {sign : List Char} (hs : OptionalSign sign) (h : dropSign cs = cs) :
    dropSign (sign ++ cs) = cs := by
  cases hs with
  | none => exact h
  | minus => rfl
  | plus => rfl

/-- Digits begin with no sign. -/
theorem Digits.dropSign (h : Digits digits) (rest : List Char) :
    Text.dropSign (digits ++ rest) = digits ++ rest := by
  obtain ⟨hne, hall⟩ := h
  obtain ⟨c, more, rfl⟩ := List.exists_cons_of_ne_nil hne
  have hdigit := hall c List.mem_cons_self
  refine dropSign_cons ?_ ?_ <;> rintro rfl <;> exact absurd hdigit (by decide)

theorem Mantissa.dropSign (h : Mantissa mantissa) (rest : List Char) :
    Text.dropSign (mantissa ++ rest) = mantissa ++ rest := by
  cases h with
  | whole h => exact h.dropSign rest
  | pointed h _ =>
    rw [List.append_assoc]
    exact h.dropSign _
  | fraction _ => exact dropSign_cons (by decide) (by decide)

theorem Hexadecimal.dropSign (h : Hexadecimal cs) : Text.dropSign cs = cs := by
  cases h with
  | lower _ => exact dropSign_cons (by decide) (by decide)
  | upper _ => exact dropSign_cons (by decide) (by decide)
  | hash _ => exact dropSign_cons (by decide) (by decide)

theorem Decimal.dropSign (h : Decimal cs) : Text.dropSign cs = cs := by
  cases h with
  | scaled hm _ _ =>
    rw [List.append_assoc]
    exact hm.dropSign _
  | long hd _ => exact hd.dropSign _

/-- **A numeral is a literal behind the sign.** -/
theorem numeral_iff : Numeral cs ↔ Hexadecimal (dropSign cs) ∨ Decimal (dropSign cs) := by
  constructor
  · intro h
    cases h with
    | hexadecimal hs h =>
      rw [dropSign_append hs h.dropSign]
      exact Or.inl h
    | decimal hs h =>
      rw [dropSign_append hs h.dropSign]
      exact Or.inr h
  · intro h
    obtain ⟨sign, hs, hcs⟩ := exists_sign cs
    rw [hcs]
    rcases h with h | h
    · exact .hexadecimal hs h
    · exact .decimal hs h

/-! ## Cuts -/

/-- What is cut at the first character of a class. -/
theorem cutAt_append (h : ∀ c ∈ before, p c = false) (hm : p mark = true) (after : List Char) :
    cutAt p (before ++ mark :: after) = (before, some after) := by
  induction before with
  | nil => rw [List.nil_append, cutAt, if_pos hm]
  | cons c before ih =>
    obtain ⟨hc, hbefore⟩ := List.forall_mem_cons.1 h
    rw [List.cons_append, cutAt, hc, ih hbefore]
    rfl

theorem cutAt_cases (p : Char → Bool) (cs : List Char) : cutAt p cs = (cs, none) ∨
    ∃ before mark after, cs = before ++ mark :: after ∧ p mark = true ∧
      cutAt p cs = (before, some after) := by
  induction cs with
  | nil => exact Or.inl rfl
  | cons c rest ih =>
    cases hc : p c with
    | true => exact Or.inr ⟨[], c, rest, rfl, hc, by rw [cutAt, if_pos hc]⟩
    | false =>
      rw [cutAt, hc]
      rcases ih with hcut | ⟨before, mark, after, rfl, hm, hcut⟩
      · rw [hcut]
        exact Or.inl rfl
      · rw [hcut]
        exact Or.inr ⟨c :: before, mark, after, rfl, hm, rfl⟩

theorem cutSuffix_append (h : c ∈ ['l', 'L', 'f', 'F', 'd', 'D']) (body : List Char) :
    cutSuffix (body ++ [c]) = (body, some c) := by
  simp only [cutSuffix, List.getLast?_concat, if_pos h, List.dropLast_concat]

theorem cutSuffix_cases (cs : List Char) : cutSuffix cs = (cs, none) ∨
    ∃ body c, cs = body ++ [c] ∧ c ∈ ['l', 'L', 'f', 'F', 'd', 'D'] ∧
      cutSuffix cs = (body, some c) := by
  cases hlast : cs.getLast? with
  | none => exact Or.inl (by rw [cutSuffix, hlast])
  | some c =>
    obtain ⟨body, rfl⟩ := List.getLast?_eq_some_iff.1 hlast
    by_cases hc : c ∈ ['l', 'L', 'f', 'F', 'd', 'D']
    · exact Or.inr ⟨body, c, rfl, hc, cutSuffix_append hc body⟩
    · refine Or.inl ?_
      simp only [cutSuffix, hlast, if_neg hc]

/-! ## Decimal literals -/

/-- Whether a character begins an exponent. -/
def isExponentMark (c : Char) : Bool := c == 'e' || c == 'E'

/-- **A mantissa is told by what stands on either side of the first point.** -/
theorem mantissa_iff : Mantissa mantissa ↔
    (∀ c ∈ (cutAt (· == '.') mantissa).1, c.isDigit = true) ∧
      (∀ c ∈ (cutAt (· == '.') mantissa).2.getD [], c.isDigit = true) ∧
      ((cutAt (· == '.') mantissa).1 ≠ [] ∨ (cutAt (· == '.') mantissa).2.getD [] ≠ []) := by
  constructor
  · intro h
    cases h with
    | whole h =>
      rw [cutAt_of_none (cut_digits h.2 fun c => not_isDigit_of_point)]
      exact ⟨h.2, by simp, Or.inl h.1⟩
    | pointed h hf =>
      rw [cutAt_append (cut_digits h.2 fun c => not_isDigit_of_point) rfl]
      exact ⟨h.2, hf, Or.inl h.1⟩
    | @fraction fraction h =>
      have hcut : cutAt (· == '.') ('.' :: fraction) = ([], some fraction) := rfl
      rw [hcut]
      exact ⟨by simp, h.2, Or.inr h.1⟩
  · rintro ⟨hbefore, hafter, hne⟩
    rcases cutAt_cases (· == '.') mantissa with hcut | ⟨before, mark, after, rfl, hm, hcut⟩
    · rw [hcut] at hbefore hne
      exact .whole ⟨hne.resolve_right fun hnil => hnil rfl, hbefore⟩
    · rw [hcut] at hbefore hafter hne
      obtain rfl := eq_of_beq hm
      by_cases hnil : before = []
      · -- nothing stands before the point, so there is a digit behind it
        subst hnil
        exact .fraction ⟨hne.resolve_left fun hnil => hnil rfl, hafter⟩
      · exact .pointed ⟨hnil, hbefore⟩ hafter

/-- The characters of a mantissa. -/
theorem Mantissa.mem (h : Mantissa mantissa) : ∀ c ∈ mantissa, c.isDigit = true ∨ c = '.' := by
  intro c hc
  cases h with
  | whole h => exact Or.inl (h.2 c hc)
  | pointed h hf =>
    rcases List.mem_append.1 hc with hc | hc
    · exact Or.inl (h.2 c hc)
    · rcases List.mem_cons.1 hc with rfl | hc
      · exact Or.inr rfl
      · exact Or.inl (hf c hc)
  | fraction h =>
    rcases List.mem_cons.1 hc with rfl | hc
    · exact Or.inr rfl
    · exact Or.inl (h.2 c hc)

/-- A mantissa holds no exponent mark. -/
theorem Mantissa.unmarked (h : Mantissa mantissa) : ∀ c ∈ mantissa, isExponentMark c = false := by
  intro c hc
  cases hmark : isExponentMark c with
  | false => rfl
  | true =>
    have hnot := not_isDigit_of_exponentMark hmark
    rcases h.mem c hc with hdigit | rfl
    · exact absurd hdigit (by simp [hnot])
    · exact absurd hmark (by decide)

/-- A mantissa without a point is whole. -/
theorem Mantissa.isWhole (h : Mantissa mantissa) (hcut : (cutAt (· == '.') mantissa).2 = none) :
    Digits mantissa := by
  cases h with
  | whole h => exact h
  | pointed h _ =>
    rw [cutAt_append (cut_digits h.2 fun c => not_isDigit_of_point) rfl] at hcut
    cases hcut
  | fraction _ => cases hcut

/-- The characters of an exponent. -/
theorem OptionalExponent.mem (h : OptionalExponent exponent) :
    ∀ c ∈ exponent, c.isDigit = true ∨ c ∈ ['e', 'E', '-', '+'] := by
  intro c hc
  cases h with
  | none => cases hc
  | some hm hs hd =>
    rcases List.mem_cons.1 hc with rfl | hc
    · rcases hm with rfl | rfl <;> simp
    · rcases List.mem_append.1 hc with hc | hc
      · right
        cases hs <;> simp_all
      · exact Or.inl (hd.2 c hc)

/-- No suffix is a character of a mantissa or an exponent. -/
theorem unsuffixed (hm : Mantissa mantissa) (he : OptionalExponent exponent) :
    ∀ c ∈ mantissa ++ exponent, c ∉ ['l', 'L', 'f', 'F', 'd', 'D'] := by
  intro c hc hsuffix
  have hnot : c.isDigit = false ∧ c ≠ '.' ∧ c ∉ ['e', 'E', '-', '+'] := by
    simp only [List.mem_cons, List.not_mem_nil, or_false] at hsuffix
    rcases hsuffix with rfl | rfl | rfl | rfl | rfl | rfl <;> decide
  obtain ⟨hdigit, hpoint, hmark⟩ := hnot
  rcases List.mem_append.1 hc with hc | hc
  · rcases hm.mem c hc with h | h
    · exact absurd h (by simp [hdigit])
    · exact hpoint h
  · rcases he.mem c hc with h | h
    · exact absurd h (by simp [hdigit])
    · exact hmark h

/-- **What the cuts of a decimal literal must come to.** -/
theorem isDecimal_of_cuts {suffix : Option Char} {power : Option (List Char)}
    (hs : cutSuffix cs = (body, suffix)) (he : cutAt isExponentMark body = (mantissa, power)) :
    isDecimal cs = true ↔ Mantissa mantissa ∧ (∀ e, power = some e → Digits (dropSign e)) ∧
      ((suffix = some 'l' ∨ suffix = some 'L') →
        (cutAt (· == '.') mantissa).2 = none ∧ power = none) := by
  have hmark : (fun c => c == 'e' || c == 'E') = isExponentMark := rfl
  rw [mantissa_iff, isDecimal, hs, hmark]
  dsimp only
  rw [he]
  cases power <;> cases (cutAt (· == '.') mantissa).2 <;>
    simp [Digits, Run, and_assoc]

/-- What stands behind an exponent mark is an exponent. -/
theorem exponent_of_digits (hm : isExponentMark mark = true) (h : Digits (dropSign exponent)) :
    OptionalExponent (mark :: exponent) := by
  obtain ⟨sign, hs, hexponent⟩ := exists_sign exponent
  have hmark : mark = 'e' ∨ mark = 'E' := by simpa [isExponentMark] using hm
  rw [hexponent]
  exact .some hmark hs h

/-- What was cut at the exponent mark is put together again. -/
theorem exponent_of_cut {power : Option (List Char)}
    (he : cutAt isExponentMark body = (mantissa, power))
    (hpower : ∀ e, power = some e → Digits (dropSign e)) :
    ∃ exponent, OptionalExponent exponent ∧ body = mantissa ++ exponent ∧
      (power = none → exponent = []) := by
  rcases cutAt_cases isExponentMark body with hcut | ⟨before, mark, after, rfl, hm, hcut⟩
  · obtain ⟨rfl, rfl⟩ := Prod.mk.inj (he.symm.trans hcut)
    exact ⟨[], .none, (List.append_nil _).symm, fun _ => rfl⟩
  · obtain ⟨rfl, rfl⟩ := Prod.mk.inj (he.symm.trans hcut)
    exact ⟨_, exponent_of_digits hm (hpower after rfl), rfl, nofun⟩

/-- An exponent is cut off at its mark. -/
theorem cut_of_exponent (h : OptionalExponent exponent) (hm : Mantissa mantissa) :
    ∃ power, cutAt isExponentMark (mantissa ++ exponent) = (mantissa, power) ∧
      ∀ e, power = some e → Digits (dropSign e) := by
  cases h with
  | none =>
    rw [List.append_nil]
    exact ⟨none, cutAt_of_none hm.unmarked, nofun⟩
  | @some mark sign digits hmark hs hd =>
    have hmarked : isExponentMark mark = true := by rcases hmark with rfl | rfl <;> rfl
    have hdrop : dropSign digits = digits := by simpa using hd.dropSign []
    refine ⟨_, cutAt_append hm.unmarked hmarked _, fun e he => ?_⟩
    rw [← Option.some.inj he, dropSign_append hs hdrop]
    exact hd

/-- **The scanner accepts the decimal literals.** -/
theorem isDecimal_iff : isDecimal cs = true ↔ Decimal cs := by
  constructor
  · intro h
    obtain ⟨mantissa, power, he⟩ : ∃ mantissa power,
        cutAt isExponentMark (cutSuffix cs).1 = (mantissa, power) := ⟨_, _, rfl⟩
    rcases cutSuffix_cases cs with hs | ⟨body, c, rfl, hc, hs⟩
    · -- no suffix
      rw [hs] at he
      obtain ⟨hm, hpower, -⟩ := (isDecimal_of_cuts hs he).1 h
      obtain ⟨exponent, hexponent, rfl, -⟩ := exponent_of_cut he hpower
      rw [← List.append_nil (mantissa ++ exponent)]
      exact .scaled hm hexponent .none
    · rw [hs] at he
      obtain ⟨hm, hpower, hlong⟩ := (isDecimal_of_cuts hs he).1 h
      obtain ⟨exponent, hexponent, rfl, hnone⟩ := exponent_of_cut he hpower
      by_cases hl : c = 'l' ∨ c = 'L'
      · -- the suffix of whole numbers
        obtain ⟨hpoint, hpower⟩ := hlong (by simpa using hl)
        rw [hnone hpower, List.append_nil]
        exact .long (hm.isWhole hpoint) hl
      · have hc : c ∈ ['f', 'F', 'd', 'D'] := by
          simp only [List.mem_cons] at hc ⊢
          exact (or_assoc.2 hc).resolve_left hl
        exact .scaled hm hexponent (.some hc)
  · intro h
    cases h with
    | @scaled mantissa exponent suffix hm he hs =>
      obtain ⟨power, hcut, hpower⟩ := cut_of_exponent he hm
      cases hs with
      | none =>
        have hsuffix := cutSuffix_of_not_mem (unsuffixed hm he)
        rw [List.append_nil]
        exact (isDecimal_of_cuts hsuffix hcut).2 ⟨hm, hpower, by simp⟩
      | @some c hc =>
        have hsuffix : cutSuffix (mantissa ++ exponent ++ [c]) = (mantissa ++ exponent, some c) :=
          cutSuffix_append (by simp_all) _
        refine (isDecimal_of_cuts hsuffix hcut).2 ⟨hm, hpower, fun hlong => ?_⟩
        rcases hlong with hlong | hlong <;> obtain rfl := Option.some.inj hlong <;>
          exact absurd hc (by decide)
    | @long digits c hd hc =>
      have hm : Mantissa digits := .whole hd
      have hsuffix : cutSuffix (digits ++ [c]) = (digits, some c) :=
        cutSuffix_append (by rcases hc with rfl | rfl <;> simp) digits
      have hpoint := cutAt_of_none (cut_digits hd.2 fun c => not_isDigit_of_point)
      refine (isDecimal_of_cuts hsuffix (cutAt_of_none hm.unmarked)).2 ⟨hm, nofun, fun _ => ?_⟩
      exact ⟨congrArg Prod.snd hpoint, rfl⟩

/-! ## Numerals -/

theorem isHexadecimal_iff : isHexadecimal digits = true ↔ Run isHexDigit digits := by
  simp [isHexadecimal, Run]

/-- No mark of a hexadecimal literal is a character of a decimal one. -/
theorem Decimal.unmarked (h : Decimal cs) : ∀ c ∈ cs, c ∉ ['x', 'X', '#'] := by
  intro c hc hmark
  have hnot : c.isDigit = false ∧ c ≠ '.' ∧ c ∉ ['e', 'E', '-', '+'] ∧
      c ∉ ['f', 'F', 'd', 'D'] ∧ c ≠ 'l' ∧ c ≠ 'L' := by
    simp only [List.mem_cons, List.not_mem_nil, or_false] at hmark
    rcases hmark with rfl | rfl | rfl <;> decide
  obtain ⟨hdigit, hpoint, hexponent, hsuffix, hl, hL⟩ := hnot
  cases h with
  | scaled hm he hs =>
    rcases List.mem_append.1 hc with hc | hc
    · rcases List.mem_append.1 hc with hc | hc
      · rcases hm.mem c hc with h | h
        · exact absurd h (by simp [hdigit])
        · exact hpoint h
      · rcases he.mem c hc with h | h
        · exact absurd h (by simp [hdigit])
        · exact hexponent h
    · cases hs with
      | none => cases hc
      | some h =>
        rw [List.mem_singleton.1 hc] at hsuffix
        exact hsuffix h
  | long hd h =>
    rcases List.mem_append.1 hc with hc | hc
    · exact absurd (hd.2 c hc) (by simp [hdigit])
    · rw [List.mem_singleton.1 hc] at hl hL
      exact h.elim hl hL

/-- **The scanner accepts exactly what the grammar writes.** In particular a numeral is not empty,
and it has neither an asterisk nor a backslash. -/
theorem isNumeral_iff_numeral (s : String) :
    (isNumeral s = true ↔ Numeral s.toList) ∧
      (isNumeral s = true → s ≠ "" ∧ '*' ∉ s.toList ∧ '\\' ∉ s.toList) := by
  constructor
  · rw [numeral_iff]
    unfold isNumeral
    split
    · rename_i rest hrest
      have hx : ¬ Decimal ('0' :: 'x' :: rest) := fun h => h.unmarked 'x' (by simp) (by simp)
      rw [hrest, isHexadecimal_iff]
      refine ⟨fun h => Or.inl (.lower h), fun h => ?_⟩
      cases h.resolve_right hx with
      | lower h => exact h
    · rename_i rest hrest
      have hx : ¬ Decimal ('0' :: 'X' :: rest) := fun h => h.unmarked 'X' (by simp) (by simp)
      rw [hrest, isHexadecimal_iff]
      refine ⟨fun h => Or.inl (.upper h), fun h => ?_⟩
      cases h.resolve_right hx with
      | upper h => exact h
    · rename_i rest hrest
      have hx : ¬ Decimal ('#' :: rest) := fun h => h.unmarked '#' (by simp) (by simp)
      rw [hrest, isHexadecimal_iff]
      refine ⟨fun h => Or.inl (.hash h), fun h => ?_⟩
      cases h.resolve_right hx with
      | hash h => exact h
    · rename_i hlower hupper hhash
      -- what begins with no mark is no hexadecimal literal
      have hx : ¬ Hexadecimal (dropSign s.toList) := by
        intro h
        generalize dropSign s.toList = cs at *
        cases h with
        | lower _ => exact hlower _ rfl
        | upper _ => exact hupper _ rfl
        | hash _ => exact hhash _ rfl
      rw [isDecimal_iff]
      exact ⟨Or.inr, fun h => h.resolve_left hx⟩
  · intro h
    have hplain := plain_of_isNumeral h
    refine ⟨?_, fun hmem => (hplain _ hmem).2 rfl, fun hmem => (hplain _ hmem).1 rfl⟩
    rintro rfl
    exact absurd h (by decide)

/-- A sign, digits on either side of the point, an exponent with a sign of its own, and a suffix. -/
example : isNumeral "-1.5e+10F" = true ∧ isNumeral "0x1F" = true ∧ isNumeral "10L" = true ∧
    isNumeral "1.5L" = false ∧ isNumeral "1e" = false := by decide

end EntityFilter.Text
