import EntityFilter.Text.Numeral

/-!
# The characters of numerals

A numeral consists of digits and of a few other characters, among which there is neither an asterisk
nor a backslash. So a numeral has no wildcards, and nothing that is read in another way in an
argument than in a text.

* `Text.Plain`: a character that is read in one way everywhere.
* `Text.plain_of_isNumeral`: the characters of a numeral are such.
* `Text.isNumeral_of_parseInt64?`: a text that writes a number is a numeral.
* `Text.toString_digits`, `Text.isNumeral_toString`: how numbers are written.
-/

namespace EntityFilter.Text

/-- A character that is neither an asterisk nor the backslash that may stand before one. -/
def Plain (c : Char) : Prop := c ≠ '\\' ∧ c ≠ '*'

variable {c : Char} {cs : List Char}

theorem plain_of_isDigit (h : c.isDigit = true) : Plain c := by
  constructor <;> rintro rfl <;> exact absurd h (by decide)

theorem plain_of_isHexDigit (h : isHexDigit c = true) : Plain c := by
  constructor <;> rintro rfl <;> exact absurd h (by decide)

/-- A sign is plain. -/
theorem plain_of_dropSign (h : ∀ c ∈ dropSign cs, Plain c) : ∀ c ∈ cs, Plain c := by
  unfold dropSign at h
  split at h
  · exact List.forall_mem_cons.2 ⟨⟨by decide, by decide⟩, h⟩
  · exact List.forall_mem_cons.2 ⟨⟨by decide, by decide⟩, h⟩
  · exact h

/-- A text is plain where its parts before and after a plain character are. -/
theorem plain_of_cutAt {p : Char → Bool} (hp : ∀ c, p c = true → Plain c)
    (hbefore : ∀ c ∈ (cutAt p cs).1, Plain c)
    (hafter : ∀ after, (cutAt p cs).2 = some after → ∀ c ∈ after, Plain c) :
    ∀ c ∈ cs, Plain c := by
  induction cs with
  | nil => simp
  | cons a rest ih =>
    unfold cutAt at hbefore hafter
    by_cases ha : p a = true
    · rw [if_pos ha] at hafter
      exact List.forall_mem_cons.2 ⟨hp a ha, hafter rest rfl⟩
    · rw [if_neg ha] at hbefore hafter
      obtain ⟨hfirst, hbefore⟩ := List.forall_mem_cons.1 hbefore
      exact List.forall_mem_cons.2 ⟨hfirst, ih hbefore hafter⟩

/-- A suffix is plain. -/
theorem plain_of_cutSuffix (h : ∀ c ∈ (cutSuffix cs).1, Plain c) : ∀ c ∈ cs, Plain c := by
  unfold cutSuffix at h
  cases hlast : cs.getLast? with
  | none =>
    rw [hlast] at h
    exact h
  | some a =>
    simp only [hlast] at h
    by_cases hsuffix : a ∈ ['l', 'L', 'f', 'F', 'd', 'D']
    · obtain ⟨body, rfl⟩ := List.getLast?_eq_some_iff.1 hlast
      rw [if_pos hsuffix, List.dropLast_concat] at h
      have hplain : Plain a := by
        constructor <;> rintro rfl <;> exact absurd hsuffix (by decide)
      exact List.forall_mem_append.2 ⟨h, List.forall_mem_singleton.2 hplain⟩
    · rw [if_neg hsuffix] at h
      exact h

theorem plain_of_isHexadecimal (h : isHexadecimal cs = true) : ∀ c ∈ cs, Plain c := by
  intro c hc
  have hall := (Bool.and_eq_true_iff.1 h).2
  exact plain_of_isHexDigit (List.all_eq_true.1 hall c hc)

theorem plain_of_isDecimal (h : isDecimal cs = true) : ∀ c ∈ cs, Plain c := by
  have digits : ∀ {l : List Char}, l.all Char.isDigit = true → ∀ c ∈ l, Plain c :=
    fun hl c hc => plain_of_isDigit (List.all_eq_true.1 hl c hc)
  unfold isDecimal at h
  simp only [Bool.and_eq_true] at h
  obtain ⟨⟨⟨⟨hintegral, hfraction⟩, -⟩, hexponent⟩, -⟩ := h
  refine plain_of_cutSuffix (plain_of_cutAt ?_ (plain_of_cutAt ?_ (digits hintegral) ?_) ?_)
  · intro c hc
    constructor <;> rintro rfl <;> exact absurd hc (by decide)
  · intro c hc
    rw [eq_of_beq hc]
    exact ⟨by decide, by decide⟩
  · intro fraction hf
    rw [hf, Option.getD_some] at hfraction
    exact digits hfraction
  · intro exponent he
    rw [he, Option.all_some, Bool.and_eq_true] at hexponent
    exact plain_of_dropSign (digits hexponent.2)

/-- **The characters of a numeral are plain.** -/
theorem plain_of_isNumeral {s : String} (h : isNumeral s = true) : ∀ c ∈ s.toList, Plain c := by
  apply plain_of_dropSign
  unfold isNumeral at h
  split at h
  · rename_i rest hs
    rw [hs]
    exact List.forall_mem_cons.2 ⟨⟨by decide, by decide⟩,
      List.forall_mem_cons.2 ⟨⟨by decide, by decide⟩, plain_of_isHexadecimal h⟩⟩
  · rename_i rest hs
    rw [hs]
    exact List.forall_mem_cons.2 ⟨⟨by decide, by decide⟩,
      List.forall_mem_cons.2 ⟨⟨by decide, by decide⟩, plain_of_isHexadecimal h⟩⟩
  · rename_i rest hs
    rw [hs]
    exact List.forall_mem_cons.2 ⟨⟨by decide, by decide⟩, plain_of_isHexadecimal h⟩
  · exact plain_of_isDecimal h

/-! ## Numbers -/

/-- A sequence without the character that it is cut at stays whole. -/
theorem cutAt_of_none {p : Char → Bool} (h : ∀ c ∈ cs, p c = false) : cutAt p cs = (cs, none) := by
  induction cs with
  | nil => rfl
  | cons c rest ih =>
    obtain ⟨hc, hrest⟩ := List.forall_mem_cons.1 h
    rw [cutAt, hc, ih hrest]
    rfl

/-- What has no suffix stays whole. -/
theorem cutSuffix_of_not_mem (h : ∀ c ∈ cs, c ∉ ['l', 'L', 'f', 'F', 'd', 'D']) :
    cutSuffix cs = (cs, none) := by
  unfold cutSuffix
  cases hlast : cs.getLast? with
  | none => rfl
  | some c => exact if_neg (h c (List.mem_of_getLast? hlast))

/-- Digits have no suffix. -/
theorem cutSuffix_of_digits (h : ∀ c ∈ cs, c.isDigit = true) : cutSuffix cs = (cs, none) := by
  refine cutSuffix_of_not_mem fun c hc hmem => ?_
  have hdigit := h c hc
  have hall : ['l', 'L', 'f', 'F', 'd', 'D'].all (fun c => !c.isDigit) = true := by decide
  simpa [hdigit] using List.all_eq_true.1 hall c hmem

/-- Digits are cut nowhere. -/
theorem cut_digits {p : Char → Bool} (h : ∀ c ∈ cs, c.isDigit = true)
    (hp : ∀ c, p c = true → c.isDigit = false) : ∀ c ∈ cs, p c = false := by
  intro c hc
  cases hpc : p c with
  | false => rfl
  | true => exact absurd (h c hc) (by simp [hp c hpc])

theorem not_isDigit_of_exponentMark (h : (c == 'e' || c == 'E') = true) : c.isDigit = false := by
  simp only [Bool.or_eq_true, beq_iff_eq] at h
  rcases h with rfl | rfl <;> rfl

theorem not_isDigit_of_point (h : (c == '.') = true) : c.isDigit = false := by
  obtain rfl := eq_of_beq h
  rfl

/-- Digits are a decimal literal. -/
theorem isDecimal_of_digits (hne : cs ≠ []) (h : ∀ c ∈ cs, c.isDigit = true) :
    isDecimal cs = true := by
  have hexponent : ∀ c ∈ cs, (c == 'e' || c == 'E') = false :=
    cut_digits h fun c => not_isDigit_of_exponentMark
  have hpoint : ∀ c ∈ cs, (c == '.') = false := cut_digits h fun c => not_isDigit_of_point
  have hall : cs.all Char.isDigit = true := List.all_eq_true.2 h
  simp [isDecimal, cutSuffix_of_digits h, cutAt_of_none hexponent, cutAt_of_none hpoint, hall, hne]

/-- Digits after at most one sign are a numeral. -/
theorem isNumeral_of_digits {s : String} (hne : dropSign s.toList ≠ [])
    (hall : ∀ c ∈ dropSign s.toList, c.isDigit = true) : isNumeral s = true := by
  unfold isNumeral
  split
  · rename_i hs
    rw [hs] at hall
    exact absurd (hall 'x' (by simp)) (by decide)
  · rename_i hs
    rw [hs] at hall
    exact absurd (hall 'X' (by simp)) (by decide)
  · rename_i hs
    rw [hs] at hall
    exact absurd (hall '#' (by simp)) (by decide)
  · exact isDecimal_of_digits hne hall

/-- **A text that writes a number is a numeral.** -/
theorem isNumeral_of_parseInt64? {s : String} {n : Int} (h : parseInt64? s = some n) :
    isNumeral s = true := by
  have hdigits : dropSign s.toList ≠ [] ∧ ∀ c ∈ dropSign s.toList, c.isDigit = true := by
    simp only [parseInt64?] at h
    split at h
    · cases h
    · rename_i hguard
      simpa using hguard
  exact isNumeral_of_digits hdigits.1 hdigits.2

/-- **A number is written in digits**, after a sign if it is negative. -/
theorem toString_digits (n : Int) : ∃ digits, digits ≠ [] ∧ (∀ c ∈ digits, c.isDigit = true) ∧
    ((toString n).toList = digits ∨ (toString n).toList = '-' :: digits) := by
  have hdigits : ∀ k : Nat, k.repr.toList ≠ [] ∧ ∀ c ∈ k.repr.toList, c.isDigit = true := by
    intro k
    rw [Nat.toList_repr]
    exact ⟨Nat.toDigits_ne_nil, fun c hc => Nat.isDigit_of_mem_toDigits (by decide) (by decide) hc⟩
  rw [Int.toString_eq_repr, Int.repr_eq_if]
  split
  · exact ⟨_, (hdigits _).1, (hdigits _).2, Or.inl rfl⟩
  · refine ⟨_, (hdigits (-n).toNat).1, (hdigits _).2, Or.inr ?_⟩
    rw [String.toList_append]
    rfl

/-- **What is written for a number is a numeral.** -/
theorem isNumeral_toString (n : Int) : isNumeral (toString n) = true := by
  obtain ⟨digits, hne, hall, hwritten⟩ := toString_digits n
  have hdrop : dropSign (toString n).toList = digits := by
    rcases hwritten with h | h
    · rw [h]
      unfold dropSign
      -- a digit is no sign
      split
      · exact absurd (hall '-' List.mem_cons_self) (by decide)
      · exact absurd (hall '+' List.mem_cons_self) (by decide)
      · rfl
    · rw [h]
      rfl
  rw [← hdrop] at hne hall
  exact isNumeral_of_digits hne hall

end EntityFilter.Text
