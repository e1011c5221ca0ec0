import EntityFilter.Proofs.Text.Numeral
import EntityFilter.Text.Case

/-!
# Characters without case

Some characters are the same in upper case, and no other character becomes one of them: those that
have a meaning in arguments or in patterns, and those that numbers are written with.

* `Text.Caseless`: lists of such characters.
* `Text.Caseless.upperChar_of_mem`, `Text.Caseless.upperChar_not_mem`: what upper case makes of a
  character.
* `Text.Caseless.eq_of_upper`: a text whose upper case is caseless is its upper case.
* `Text.upper_eq_empty`: a text in upper case is empty if the text is.
* `Text.upper_eq_number`: a text whose upper case writes a number writes it itself.
-/

namespace EntityFilter.Text

variable {c x : Char} {l cs : List Char}

/-- **Characters that have no case**: the tables of upper case keep them and lead to none of them
from elsewhere. No character vanishes. -/
structure Caseless (l : List Char) : Prop where
  same : l.all fun c => c.toNat < 128 ∧ c.toUpper = c
  ascii : ∀ n < 128, Char.ofNat n ∉ l → (Char.ofNat n).toUpper ∉ l
  null : Char.ofNat 0 ∉ l
  runs : upperRuns.all fun run => l.all fun c =>
    c.toNat < run.2.2.2 ∨ run.2.2.2 + (run.2.1 - run.1) < c.toNat
  expansions : upperExpansions.all fun entry => entry.2 ≠ [] ∧
    entry.2.all fun n => l.all fun c => c.toNat ≠ n

namespace Caseless

/-- A caseless character is the same in upper case. -/
theorem upperChar_of_mem (hl : Caseless l) (h : c ∈ l) : upperChar c = [c] := by
  obtain ⟨hlt, hupper⟩ := of_decide_eq_true (List.all_eq_true.1 hl.same c h)
  rw [upperChar, if_pos hlt, hupper]

/-- A number that no character of the list has leads to none of them. -/
theorem ofNat_not_mem (hl : Caseless l) {n : Nat} (h : ∀ c ∈ l, c.toNat ≠ n) :
    Char.ofNat n ∉ l := by
  intro hmem
  by_cases hv : n.isValidChar
  · refine h _ hmem ?_
    rw [Char.ofNat, dif_pos hv]
    rfl
  · rw [Char.ofNat, dif_neg hv] at hmem
    exact hl.null hmem

/-- The images of a run of the table are not caseless. -/
theorem counterpart_not_mem (hl : Caseless l) (h : c ∉ l) : counterpart upperRuns c ∉ l := by
  unfold counterpart
  dsimp only
  split
  · rename_i first last step image hfind
    have hin := List.find?_some hfind
    simp only [Bool.and_eq_true, decide_eq_true_eq] at hin
    refine hl.ofNat_not_mem fun mark hmark => ?_
    have hrun := List.all_eq_true.1 hl.runs _ (List.mem_of_find?_eq_some hfind)
    have hrange := of_decide_eq_true (List.all_eq_true.1 hrun mark hmark)
    simp only at hrange
    omega
  · exact h

/-- **No other character becomes caseless**, and none vanishes. -/
theorem upperChar_not_mem (hl : Caseless l) (h : c ∉ l) :
    upperChar c ≠ [] ∧ ∀ x ∈ upperChar c, x ∉ l := by
  unfold upperChar
  split
  · rename_i hlt
    have hc := hl.ascii c.toNat hlt
    rw [Char.ofNat_toNat] at hc
    exact ⟨List.cons_ne_nil _ _, fun x hx => List.mem_singleton.1 hx ▸ hc h⟩
  · split
    · rename_i image himage
      obtain ⟨_, _, htable, -⟩ := List.lookup_eq_some_iff.1 himage
      have hentry := List.all_eq_true.1 hl.expansions (c.toNat, image) (by rw [htable]; simp)
      obtain ⟨hne, hnot⟩ := of_decide_eq_true hentry
      refine ⟨by simpa using hne, fun x hx => ?_⟩
      obtain ⟨n, hn, rfl⟩ := List.mem_map.1 hx
      have hothers := List.all_eq_true.1 hnot n hn
      exact hl.ofNat_not_mem fun c hc => of_decide_eq_true (List.all_eq_true.1 hothers c hc)
    · exact ⟨List.cons_ne_nil _ _, fun x hx => List.mem_singleton.1 hx ▸ hl.counterpart_not_mem h⟩

theorem upperChars_eq (hl : Caseless l) (h : ∀ c ∈ cs, c ∈ l) : upperChars cs = cs := by
  induction cs with
  | nil => rfl
  | cons c cs ih =>
    obtain ⟨hc, hcs⟩ := List.forall_mem_cons.1 h
    have hcons : upperChars (c :: cs) = upperChar c ++ upperChars cs := rfl
    rw [hcons, hl.upperChar_of_mem hc, ih hcs, List.singleton_append]

/-- **A text whose upper case is caseless is its upper case.** -/
theorem eq_of_upper (hl : Caseless l) {s t : String} (h : upper s = t) (ht : ∀ c ∈ t.toList, c ∈ l) :
    s = t := by
  have hchars : upperChars s.toList = t.toList := by
    rw [← h, upper, String.toList_ofList]
  have hs : ∀ c ∈ s.toList, c ∈ l := by
    intro c hc
    refine Decidable.byContradiction fun hnot => ?_
    -- an image of the character would be caseless
    obtain ⟨hne, himage⟩ := hl.upperChar_not_mem hnot
    obtain ⟨x, hx⟩ := List.exists_mem_of_ne_nil _ hne
    refine himage x hx (ht x ?_)
    rw [← hchars]
    exact List.mem_flatMap.2 ⟨c, hc, hx⟩
  rw [← String.toList_inj, ← hchars, hl.upperChars_eq hs]

end Caseless

/-! ## Marks -/

/-- The characters that are not always read as themselves. -/
def marks : List Char := ['\\', '*', '%', '_', '[', ']']

theorem caseless_marks : Caseless marks := by
  refine ⟨by decide, by decide +kernel, by decide, by decide +kernel, by decide +kernel⟩

/-- A mark is the same in upper case. -/
theorem upperChar_of_mark (h : c ∈ marks) : upperChar c = [c] :=
  caseless_marks.upperChar_of_mem h

/-- **No other character becomes a mark**, and none vanishes. -/
theorem upperChar_not_mark (h : c ∉ marks) : upperChar c ≠ [] ∧ ∀ x ∈ upperChar c, x ∉ marks :=
  caseless_marks.upperChar_not_mem h

/-- **No character vanishes**, so a text in upper case is empty only if the text is. -/
theorem upper_eq_empty {t : String} : upper t = "" ↔ t = "" := by
  constructor
  · intro h
    exact caseless_marks.eq_of_upper h (List.forall_mem_nil _)
  · rintro rfl
    rfl

/-! ## Numbers -/

/-- The characters that numbers are written with. -/
def figures : List Char := ['-', '0', '1', '2', '3', '4', '5', '6', '7', '8', '9']

theorem caseless_figures : Caseless figures := by
  refine ⟨by decide, by decide +kernel, by decide, by decide +kernel, by decide +kernel⟩

theorem mem_figures_of_isDigit (h : c.isDigit = true) : c ∈ figures := by
  have hall : ∀ n < 128, (Char.ofNat n).isDigit = true → Char.ofNat n ∈ figures := by
    decide +kernel
  have hlt : c.toNat < 128 := by
    simp only [Char.isDigit, Bool.and_eq_true, decide_eq_true_eq] at h
    have hle : c.toNat ≤ 57 := h.2
    omega
  have hmem := hall c.toNat hlt
  rw [Char.ofNat_toNat] at hmem
  exact hmem h

/-- **A text whose upper case writes a number writes it itself.** -/
theorem upper_eq_number {t : String} {n : Int} : upper t = toString n ↔ t = toString n := by
  have hfigures : ∀ c ∈ (toString n).toList, c ∈ figures := by
    intro c hc
    obtain ⟨digits, -, hall, hwritten⟩ := toString_digits n
    rcases hwritten with h | h <;> rw [h] at hc
    · exact mem_figures_of_isDigit (hall c hc)
    · rcases List.mem_cons.1 hc with rfl | hc
      · decide
      · exact mem_figures_of_isDigit (hall c hc)
  constructor
  · intro h
    exact caseless_figures.eq_of_upper h hfigures
  · rintro rfl
    rw [upper, caseless_figures.upperChars_eq hfigures, String.ofList_toList]

end EntityFilter.Text
