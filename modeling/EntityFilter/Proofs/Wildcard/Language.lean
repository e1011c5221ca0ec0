import EntityFilter.Like
import EntityFilter.Wildcard

/-!
# The language of an argument

An argument with wildcards stands for a set of texts. It is read from left to right, and so is the
LIKE pattern that it is turned into, by other rules. Both are put down to the signs that the
argument consists of: characters that stand for themselves, and wildcards.

* `Wildcard.Means`: a text is one of those that an argument stands for.
* `Wildcard.signs`: the signs of an argument; what it stands for without a wildcard and its pattern
  are told by these.
* `Wildcard.pieces_standard`: the pieces of the standard pattern are the signs.
* `Wildcard.matches_standard_iff`: the standard pattern matches the texts that the argument stands
  for.
* `Wildcard.means_iff_literal`: an argument without wildcards stands for one text.
-/

namespace EntityFilter.Wildcard

/-- **The texts that an argument stands for.** A backslash before an asterisk makes it a literal,
any other asterisk is a run of characters, and every other character is itself. -/
inductive Means : List Char → List Char → Prop
  | nil : Means [] []
  | asterisk {v t : List Char} (h : Means v t) : Means ('\\' :: '*' :: v) ('*' :: t)
  | run (part : List Char) {v t : List Char} (h : Means v t) : Means ('*' :: v) (part ++ t)
  | backslash {v t : List Char} (hv : v.head? ≠ some '*') (h : Means v t) :
      Means ('\\' :: v) ('\\' :: t)
  | character {c : Char} {v t : List Char} (hb : c ≠ '\\') (ha : c ≠ '*') (h : Means v t) :
      Means (c :: v) (c :: t)

/-- A sign of an argument: any run of characters, or a character that stands for itself. -/
inductive Sign
  | anyRun
  | literal (c : Char)
  deriving DecidableEq

namespace Sign

/-- The sign of a character that is no backslash before an asterisk. -/
def ofChar (c : Char) : Sign :=
  if c = '*' then .anyRun else .literal c

/-- The piece of a pattern that a sign is. -/
def piece : Sign → Like.Piece
  | anyRun => .anyRun
  | literal c => .literal c

/-- How a sign is written in a pattern. -/
def written (d : Dialect) : Sign → List Char
  | anyRun => ['%']
  | literal c =>
    if c = '\\' ∨ c = '*' then ['\\', c]
    else if c = '%' ∨ c = '_' then escaped d c
    else [c]

end Sign

/-- **The signs of an argument.** -/
def signs : List Char → List Sign
  | [] => []
  | '\\' :: '*' :: rest => .literal '*' :: signs rest
  | c :: rest => .ofChar c :: signs rest

variable {v t : List Char}

/-- A pattern is written sign by sign. -/
theorem toLikeChars_eq (d : Dialect) (v : List Char) :
    toLikeChars d v = (signs v).flatMap (Sign.written d) := by
  fun_induction signs v with
  | case1 => rfl
  | case2 rest ih =>
    rw [toLikeChars, ih]
    rfl
  | case3 c rest hpair ih =>
    rw [toLikeChars]
    · rw [ih, List.flatMap_cons]
      by_cases ha : c = '*'
      · subst ha
        rfl
      · by_cases hb : c = '\\' <;>
          simp [ha, hb, Sign.ofChar, Sign.written, escapeMark, wildcardMark]
    · exact hpair

/-- Without a wildcard the signs are the characters that the argument stands for. -/
theorem signs_eq_literal (h : hasWildcard v = false) :
    signs v = (literalChars v).map .literal := by
  fun_induction signs v with
  | case1 => rfl
  | case2 rest ih =>
    rw [hasWildcard] at h
    rw [literalChars, ih h]
    rfl
  | case3 c rest hpair ih =>
    rw [hasWildcard] at h
    · obtain ⟨ha, hrest⟩ := Bool.or_eq_false_iff.1 h
      have hne : c ≠ '*' := by simpa [wildcardMark] using ha
      rw [literalChars]
      · rw [ih hrest, Sign.ofChar, if_neg hne]
        rfl
      · exact hpair
    · exact hpair

/-! ## Texts -/

/-- A character that stands for itself matches itself. -/
theorem matches_literal_iff {c : Char} {ps : List Like.Piece} :
    Like.Matches (.literal c :: ps) t ↔ ∃ rest, t = c :: rest ∧ Like.Matches ps rest := by
  constructor
  · intro h
    cases h with
    | one _ hc h =>
      have hself := eq_of_beq hc
      exact ⟨_, by rw [hself], h⟩
  · rintro ⟨rest, rfl, h⟩
    exact .one (by simp) (beq_self_eq_true c) h

/-- **The signs of an argument are cut out of the texts that it stands for.** -/
theorem matches_signs_iff : Like.Matches ((signs v).map Sign.piece) t ↔ Means v t := by
  constructor
  · intro h
    fun_induction signs v generalizing t with
    | case1 =>
      cases h with
      | nil => exact .nil
    | case2 rest ih =>
      obtain ⟨t', rfl, hrest⟩ := matches_literal_iff.1 h
      exact .asterisk (ih hrest)
    | case3 c rest hpair ih =>
      by_cases ha : c = '*'
      · subst ha
        cases h with
        | run part h => exact .run part (ih h)
        | one hne => exact absurd rfl hne
      · rw [Sign.ofChar, if_neg ha] at h
        obtain ⟨t', rfl, hrest⟩ := matches_literal_iff.1 h
        by_cases hb : c = '\\'
        · subst hb
          refine .backslash (fun hhead => ?_) (ih hrest)
          obtain ⟨rest', rfl⟩ := List.head?_eq_some_iff.1 hhead
          exact hpair rest' rfl rfl
        · exact .character hb ha (ih hrest)
  · intro h
    induction h with
    | nil => exact .nil
    | asterisk _ ih => exact matches_literal_iff.2 ⟨_, rfl, ih⟩
    | run part _ ih => exact .run part ih
    | @backslash v t hv _ ih =>
      have hsigns : signs ('\\' :: v) = .literal '\\' :: signs v := by
        rw [signs]
        · rfl
        · rintro rest - rfl
          exact hv rfl
      rw [hsigns]
      exact matches_literal_iff.2 ⟨t, rfl, ih⟩
    | @character c v t hb ha _ ih =>
      have hsigns : signs (c :: v) = .literal c :: signs v := by
        rw [signs]
        · rw [Sign.ofChar, if_neg ha]
        · rintro rest hc -
          exact hb hc
      rw [hsigns]
      exact matches_literal_iff.2 ⟨t, rfl, ih⟩

/-- An argument without wildcards stands for one text. -/
theorem means_iff_literal (h : hasWildcard v = false) : Means v t ↔ t = literalChars v := by
  rw [← matches_signs_iff, signs_eq_literal h]
  generalize literalChars v = cs
  induction cs generalizing t with
  | nil =>
    constructor
    · intro h
      cases h
      rfl
    · rintro rfl
      exact .nil
  | cons c cs ih =>
    rw [List.map_cons, List.map_cons, Sign.piece, matches_literal_iff]
    constructor
    · rintro ⟨rest, rfl, h⟩
      rw [ih.1 h]
    · rintro rfl
      exact ⟨cs, rfl, ih.2 rfl⟩

/-- Characters that are no backslash and no asterisk stand for themselves. -/
theorem means_iff_self (h : ∀ c ∈ v, c ≠ '\\' ∧ c ≠ '*') : Means v t ↔ t = v := by
  have hwild : hasWildcard v = false ∧ literalChars v = v := by
    induction v with
    | nil => exact ⟨rfl, rfl⟩
    | cons c rest ih =>
      obtain ⟨hc, hrest⟩ := List.forall_mem_cons.1 h
      obtain ⟨hw, hl⟩ := ih hrest
      have hpair : ∀ rest', c = '\\' → rest = '*' :: rest' → False := fun _ hb => absurd hb hc.1
      constructor
      · rw [hasWildcard]
        · rw [hw, Bool.or_false]
          exact beq_false_of_ne hc.2
        · exact hpair
      · rw [literalChars]
        · rw [hl]
        · exact hpair
  rw [means_iff_literal hwild.1, hwild.2]

/-! ## Standard patterns -/

/-- What follows the escape character is a literal, in either dialect. -/
theorem pieces_escaped (d : Dialect) (c : Char) (rest : List Char) :
    Like.pieces escapeMark d ('\\' :: c :: rest) =
      .literal c :: Like.pieces escapeMark d rest := by
  rw [Like.pieces.eq_def]
  simp [escapeMark]

/-- A percent sign is any run, in either dialect. -/
theorem pieces_percent (d : Dialect) (rest : List Char) :
    Like.pieces escapeMark d ('%' :: rest) = .anyRun :: Like.pieces escapeMark d rest := by
  rw [Like.pieces.eq_def]
  simp [escapeMark]

/-- The pieces of a sign in a standard pattern, and those after it. -/
theorem pieces_written (s : Sign) (rest : List Char) :
    Like.pieces escapeMark .standard (s.written .standard ++ rest) =
      s.piece :: Like.pieces escapeMark .standard rest := by
  cases s with
  | anyRun => exact pieces_percent .standard rest
  | literal c =>
    rw [Sign.written]
    by_cases hmark : c = '\\' ∨ c = '*'
    · rw [if_pos hmark]
      exact pieces_escaped .standard c rest
    · rw [if_neg hmark]
      by_cases hwild : c = '%' ∨ c = '_'
      · rw [if_pos hwild]
        exact pieces_escaped .standard c rest
      · rw [if_neg hwild, List.singleton_append, Like.pieces.eq_def]
        obtain ⟨hb, -⟩ := not_or.1 hmark
        obtain ⟨hp, hu⟩ := not_or.1 hwild
        simp [escapeMark, hb, hp, hu, Sign.piece]

/-- **The pieces of the standard pattern are the signs of the argument.** -/
theorem pieces_standard (ss : List Sign) :
    Like.pieces escapeMark .standard (ss.flatMap (Sign.written .standard)) =
      ss.map Sign.piece := by
  induction ss with
  | nil => rw [List.flatMap_nil, Like.pieces, List.map_nil]
  | cons s ss ih => rw [List.flatMap_cons, pieces_written, ih, List.map_cons]

/-- **The standard pattern matches the texts that the argument stands for.** -/
theorem matches_standard_iff (argument text : String) :
    Like.matchesText text (toLike .standard argument) escapeMark .standard = true ↔
      Means argument.toList text.toList := by
  rw [Like.matchesText, toLike, String.toList_ofList, toLikeChars_eq, pieces_standard,
    Like.accepts_iff, matches_signs_iff]

end EntityFilter.Wildcard
