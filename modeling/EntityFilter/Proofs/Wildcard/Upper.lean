import EntityFilter.Proofs.Text.Upper
import EntityFilter.Proofs.Wildcard.Brackets

/-!
# Patterns in upper case

Where case is ignored, a pattern is put into upper case after the argument has been turned into it.
It might as well be the argument that is put into upper case.

* `Wildcard.signs_upperChars`: the signs of an argument in upper case.
* `Wildcard.isPattern_upper`: it has wildcards exactly if the argument has.
* `Wildcard.toLike_upper`, `Wildcard.literal_upper`: a pattern in upper case, and a text that an
  argument stands for, are those of the argument in upper case.
* `Wildcard.Means.upper`: in upper case an argument stands for the texts that it stands for, in
  upper case.
* `Wildcard.opensClass_upper`: the brackets of the argument are the same.
-/

namespace EntityFilter

open Text

namespace Wildcard

/-- A sign in upper case, which may be several. -/
def Sign.upper : Sign → List Sign
  | anyRun => [.anyRun]
  | literal c => (upperChar c).map .literal

variable {c : Char} {v l rest : List Char} {ss : List Sign} {s : Sign} {d : Dialect}

/-- Characters that are no marks are signs of their own. -/
theorem signs_append (h : ∀ c ∈ l, c ∉ marks) (rest : List Char) :
    signs (l ++ rest) = l.map .literal ++ signs rest := by
  induction l with
  | nil => rfl
  | cons c l ih =>
    obtain ⟨hc, hl⟩ := List.forall_mem_cons.1 h
    have hb : c ≠ '\\' := fun he => hc (he ▸ by decide)
    have ha : c ≠ '*' := fun he => hc (he ▸ by decide)
    rw [List.cons_append, signs]
    · rw [ih hl, Sign.ofChar, if_neg ha, List.map_cons, List.cons_append]
    · exact fun _ he => absurd he hb

/-- What begins with an asterisk in upper case begins with it as it stands. -/
theorem asterisk_of_upperChars (h : upperChars v = '*' :: rest) : ∃ rest', v = '*' :: rest' := by
  cases v with
  | nil => cases h
  | cons c v =>
    rw [upperChars, List.flatMap_cons] at h
    by_cases hc : c ∈ marks
    · rw [upperChar_of_mark hc, List.singleton_append] at h
      exact ⟨v, by rw [(List.cons.inj h).1]⟩
    · obtain ⟨hne, hnot⟩ := upperChar_not_mark hc
      obtain ⟨x, image, himage⟩ := List.exists_cons_of_ne_nil hne
      rw [himage, List.cons_append] at h
      refine absurd ?_ (hnot x (himage ▸ List.mem_cons_self))
      rw [(List.cons.inj h).1]
      decide

/-- **The signs of an argument in upper case** are its signs in upper case. -/
theorem signs_upperChars (v : List Char) :
    signs (upperChars v) = (signs v).flatMap Sign.upper := by
  fun_induction signs v with
  | case1 => rfl
  | case2 rest ih =>
    rw [List.flatMap_cons, ← ih]
    rfl
  | case3 c rest hpair ih =>
    have hcons : upperChars (c :: rest) = upperChar c ++ upperChars rest := List.flatMap_cons
    rw [List.flatMap_cons, ← ih, hcons]
    by_cases hc : c ∈ marks
    · have hupper : (Sign.ofChar c).upper = [.ofChar c] := by
        rw [Sign.ofChar]
        split
        · rfl
        · rw [Sign.upper, upperChar_of_mark hc, List.map_singleton]
      rw [upperChar_of_mark hc, hupper, List.singleton_append, signs, List.singleton_append]
      intro rest' hb hrest
      obtain ⟨rest'', rfl⟩ := asterisk_of_upperChars hrest
      exact hpair rest'' hb rfl
    · have ha : c ≠ '*' := fun he => hc (he ▸ by decide)
      rw [signs_append (upperChar_not_mark hc).2, Sign.ofChar, if_neg ha, Sign.upper]

/-! ## Patterns -/

/-- Marks are written with marks, and other characters as they stand. -/
theorem written_literal (d : Dialect) (c : Char) :
    (c ∈ marks ∧ ∀ x ∈ Sign.written d (.literal c), x ∈ marks) ∨
      (c ∉ marks ∧ Sign.written d (.literal c) = [c]) := by
  by_cases hc : c ∈ marks
  · have hall : marks.all (fun c => (Sign.written d (.literal c)).all (· ∈ marks)) = true := by
      cases d <;> decide
    simp only [List.all_eq_true, decide_eq_true_eq] at hall
    exact Or.inl ⟨hc, hall c hc⟩
  · refine Or.inr ⟨hc, ?_⟩
    have hne : ∀ mark ∈ marks, c ≠ mark := fun mark hmark he => hc (he ▸ hmark)
    rw [Sign.written, if_neg, if_neg]
    · exact not_or.2 ⟨hne '%' (by decide), hne '_' (by decide)⟩
    · exact not_or.2 ⟨hne '\\' (by decide), hne '*' (by decide)⟩

/-- A sign may be written before it is put into upper case, or after. -/
theorem upperChars_written (d : Dialect) (s : Sign) :
    upperChars (s.written d) = s.upper.flatMap (Sign.written d) := by
  cases s with
  | anyRun => rfl
  | literal c =>
    rw [Sign.upper]
    rcases written_literal d c with ⟨hc, hwritten⟩ | ⟨hc, hwritten⟩
    · rw [caseless_marks.upperChars_eq hwritten, upperChar_of_mark hc, List.map_singleton,
        List.flatMap_singleton]
    · have hself : ∀ x ∈ upperChar c, Sign.written d (.literal x) = [x] := by
        intro x hx
        have hnot := (upperChar_not_mark hc).2 x hx
        exact ((written_literal d x).resolve_left fun h => hnot h.1).2
      rw [hwritten, upperChars, List.flatMap_singleton, List.flatMap_map, List.flatMap_def,
        List.map_congr_left hself, ← List.flatMap_def, List.flatMap_singleton']

/-- **A pattern in upper case** is the pattern of the argument in upper case. -/
theorem toLike_upper (d : Dialect) (argument : String) :
    Text.upper (toLike d argument) = toLike d (Text.upper argument) := by
  rw [Text.upper, toLike, toLike, Text.upper, String.toList_ofList, String.toList_ofList,
    toLikeChars_eq, toLikeChars_eq, signs_upperChars, List.flatMap_assoc, upperChars,
    List.flatMap_assoc]
  exact congrArg _ (congrArg (List.flatMap · _) (funext (upperChars_written d)))

/-! ## Wildcards and literals -/

/-- An argument has a wildcard if one of its signs is. -/
theorem hasWildcard_iff (v : List Char) : hasWildcard v = true ↔ .anyRun ∈ signs v := by
  fun_induction signs v with
  | case1 => simp [hasWildcard]
  | case2 rest ih => simp [hasWildcard, ih]
  | case3 c rest hpair ih =>
    rw [hasWildcard]
    · by_cases hc : c = '*'
      · simp [hc, Sign.ofChar, wildcardMark]
      · simp [hc, Sign.ofChar, wildcardMark, ih]
    · exact hpair

/-- **An argument in upper case has wildcards exactly if the argument has.** -/
theorem isPattern_upper (argument : String) :
    isPattern (Text.upper argument) = isPattern argument := by
  rw [Bool.eq_iff_iff, isPattern, isPattern, hasWildcard_iff, hasWildcard_iff, Text.upper,
    String.toList_ofList, signs_upperChars, List.mem_flatMap]
  constructor
  · rintro ⟨s, hs, hrun⟩
    cases s with
    | anyRun => exact hs
    | literal c => simp [Sign.upper] at hrun
  · exact fun hs => ⟨.anyRun, hs, List.mem_singleton_self _⟩

/-- The character of a sign where wildcards are not told apart. -/
def Sign.character : Sign → Char
  | anyRun => '*'
  | literal c => c

theorem literalChars_eq (v : List Char) : literalChars v = (signs v).map Sign.character := by
  fun_induction signs v with
  | case1 => rfl
  | case2 rest ih =>
    rw [literalChars, ih]
    rfl
  | case3 c rest hpair ih =>
    rw [literalChars]
    · by_cases hc : c = '*' <;> simp [hc, Sign.ofChar, Sign.character, ih]
    · exact hpair

/-- **The text that an argument stands for, in upper case**, is that of the argument in upper
case. -/
theorem literal_upper (argument : String) :
    Text.upper (literal argument) = literal (Text.upper argument) := by
  have hsign : ∀ s : Sign, upperChar s.character = s.upper.map Sign.character := by
    intro s
    cases s with
    | anyRun => exact upperChar_of_mark (by decide)
    | literal c => simp [Sign.upper, Sign.character, Function.comp_def]
  rw [Text.upper, literal, literal, Text.upper, String.toList_ofList, String.toList_ofList,
    literalChars_eq, literalChars_eq, signs_upperChars, upperChars, List.flatMap_map,
    List.map_flatMap]
  exact congrArg _ (congrArg (List.flatMap · _) (funext hsign))

/-- A text that an argument stands for is the argument itself if there is no asterisk in it. -/
theorem literalChars_eq_self (h : '*' ∉ literalChars v) : literalChars v = v := by
  fun_induction literalChars v with
  | case1 => rfl
  | case2 rest ih => exact absurd List.mem_cons_self h
  | case3 c rest hpair ih => rw [ih fun hmem => h (List.mem_cons_of_mem _ hmem)]

/-! ## Texts in upper case -/

/-- Characters that stand for themselves match themselves. -/
theorem matches_literals {ps : List Like.Piece} {t : List Char} (h : Like.Matches ps t)
    (l : List Char) : Like.Matches (l.map .literal ++ ps) (l ++ t) := by
  induction l with
  | nil => exact h
  | cons c l ih => exact matches_literal_iff.2 ⟨_, rfl, ih⟩

/-- **In upper case an argument stands for the texts that it stands for, in upper case.** -/
theorem Means.upper {t : List Char} (h : Means v t) : Means (upperChars v) (upperChars t) := by
  rw [← matches_signs_iff] at h ⊢
  rw [signs_upperChars]
  generalize signs v = ss at h
  induction ss generalizing t with
  | nil =>
    cases h
    exact .nil
  | cons s ss ih =>
    rw [List.flatMap_cons, List.map_append]
    cases s with
    | anyRun =>
      cases h with
      | run part h =>
        rw [upperChars, List.flatMap_append]
        exact .run (part.flatMap upperChar) (ih h)
      | one hne => exact absurd rfl hne
    | literal c =>
      obtain ⟨rest, rfl, hrest⟩ := matches_literal_iff.1 h
      have hcons : upperChars (c :: rest) = upperChar c ++ upperChars rest := List.flatMap_cons
      rw [hcons, Sign.upper, List.map_map]
      exact matches_literals (ih hrest) (upperChar c)

/-! ## Brackets -/

/-- A sign is the same in upper case, or it is no bracket before or after. -/
theorem upper_cases (s : Sign) : s.upper = [s] ∨
    ∀ s' ∈ s :: s.upper, s' ≠ .literal '[' ∧ s'.closes = false := by
  have hplain : ∀ {c : Char}, c ∉ marks →
      Sign.literal c ≠ .literal '[' ∧ (Sign.literal c).closes = false := by
    intro c hc
    have hne : ∀ mark ∈ marks, c ≠ mark := fun mark hmark he => hc (he ▸ hmark)
    refine ⟨fun he => hne '[' (by decide) (Sign.literal.inj he), ?_⟩
    rw [Sign.closes, beq_false_of_ne (hne ']' (by decide)), beq_false_of_ne (hne '%' (by decide)),
      beq_false_of_ne (hne '_' (by decide))]
    rfl
  cases s with
  | anyRun => exact Or.inl rfl
  | literal c =>
    by_cases hc : c ∈ marks
    · exact Or.inl (by rw [Sign.upper, upperChar_of_mark hc, List.map_singleton])
    · refine Or.inr (List.forall_mem_cons.2 ⟨hplain hc, fun s' hs' => ?_⟩)
      obtain ⟨x, hx, rfl⟩ := List.mem_map.1 hs'
      exact hplain ((upperChar_not_mark hc).2 x hx)

theorem any_closes_upper (ss : List Sign) :
    (ss.flatMap Sign.upper).any Sign.closes = ss.any Sign.closes := by
  induction ss with
  | nil => rfl
  | cons s ss ih =>
    rw [List.flatMap_cons, List.any_append, ih, List.any_cons]
    rcases upper_cases s with hs | hs
    · rw [hs, List.any_cons, List.any_nil, Bool.or_false]
    · obtain ⟨⟨-, hself⟩, hupper⟩ := List.forall_mem_cons.1 hs
      rw [hself, List.any_eq_false.2 fun s' hs' => by simp [(hupper s' hs').2]]

/-- Signs that are no opening brackets open nothing. -/
theorem opens_append {l : List Sign} (h : ∀ s ∈ l, s ≠ .literal '[') (ss : List Sign) :
    opens (l ++ ss) = opens ss := by
  induction l with
  | nil => rfl
  | cons s l ih =>
    obtain ⟨hs, hl⟩ := List.forall_mem_cons.1 h
    rw [List.cons_append, opens, beq_false_of_ne hs, Bool.false_and, Bool.false_or, ih hl]

theorem opens_upper (ss : List Sign) : opens (ss.flatMap Sign.upper) = opens ss := by
  induction ss with
  | nil => rfl
  | cons s ss ih =>
    rw [List.flatMap_cons]
    rcases upper_cases s with hs | hs
    · rw [hs, List.singleton_append, opens, opens, ih, any_closes_upper]
    · obtain ⟨⟨hself, -⟩, hupper⟩ := List.forall_mem_cons.1 hs
      rw [opens_append (fun s' hs' => (hupper s' hs').1), ih, opens, beq_false_of_ne hself,
        Bool.false_and, Bool.false_or]

/-- **The brackets of an argument are the same in upper case.** -/
theorem opensClass_upper (argument : String) :
    opensClass (Text.upper argument) = opensClass argument := by
  rw [opensClass, opensClass, Text.upper, String.toList_ofList, signs_upperChars, opens_upper]

end Wildcard

end EntityFilter
