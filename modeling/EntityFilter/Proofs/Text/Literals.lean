import EntityFilter.Text.Quoted
import Mathlib.Data.List.Basic

/-!
# Reading quoted literals

A literal runs from a quotation mark to the next one that is not doubled, and a doubled one stands
for one. Here a text is read by that rule, whatever wrote it.

* `Text.literalsFrom`: the literals of what follows, from wherever the reading stands.
* `Text.literals?`: the literals of a text, in order; none if the last one does not end.
* `Text.literalsFrom_bare`, `Text.literalsFrom_quoted`: the reading of what is outside of literals,
  and of a text that was quoted.
* `Text.count_of_literalsFrom`: a reading uses up every quotation mark of the text.
-/

namespace EntityFilter.Text

/-- **A text without quotation marks.** -/
def Unquoted (s : String) : Prop := quoteMark ∉ s.toList

instance (s : String) : Decidable (Unquoted s) := inferInstanceAs (Decidable (quoteMark ∉ s.toList))

/-- Where the reading of a text stands. -/
inductive Position
  | outside
  /-- Within a literal, of which some characters have been read. -/
  | inside (held : List Char)
  /-- Behind a quotation mark that ends the literal, unless another one follows. -/
  | closing (held : List Char)

/-- **The literals of what follows**, from wherever the reading stands. -/
def literalsFrom : Position → List Char → Option (List String)
  | .outside, [] => some []
  | .inside _, [] => none
  | .closing held, [] => some [String.ofList held]
  | .outside, c :: cs =>
    if c = quoteMark then literalsFrom (.inside []) cs else literalsFrom .outside cs
  | .inside held, c :: cs =>
    if c = quoteMark then literalsFrom (.closing held) cs
    else literalsFrom (.inside (held ++ [c])) cs
  | .closing held, c :: cs =>
    if c = quoteMark then literalsFrom (.inside (held ++ [c])) cs
    else (literalsFrom .outside cs).map (String.ofList held :: ·)

/-- **The literals of a text**, in order; none if the last one does not end. -/
def literals? (s : String) : Option (List String) :=
  literalsFrom .outside s.toList

variable {cs rest held : List Char} {s t : String} {ts : List String} {pos : Position}

theorem Unquoted.append (hs : Unquoted s) (ht : Unquoted t) : Unquoted (s ++ t) := by
  unfold Unquoted
  rw [String.toList_append]
  exact fun h => (List.mem_append.1 h).elim hs ht

/-- Outside of literals, a text without quotation marks is passed over. -/
theorem literalsFrom_bare (h : quoteMark ∉ cs) :
    literalsFrom .outside (cs ++ rest) = literalsFrom .outside rest := by
  induction cs with
  | nil => rfl
  | cons c cs ih =>
    obtain ⟨hc, hcs⟩ := not_or.1 (mt List.mem_cons.2 h)
    rw [List.cons_append, literalsFrom, if_neg (Ne.symm hc), ih hcs]

/-- Within a literal, a text that was doubled is read as it was. -/
theorem literalsFrom_doubled (cs held rest : List Char) :
    literalsFrom (.inside held) (doubled cs ++ rest) = literalsFrom (.inside (held ++ cs)) rest := by
  induction cs generalizing held with
  | nil => rw [List.append_nil]; rfl
  | cons c cs ih =>
    have hlater : held ++ c :: cs = (held ++ [c]) ++ cs := by simp
    rw [hlater, ← ih]
    -- a quotation mark is met twice and held once
    by_cases hc : c = quoteMark
    · have hfirst : doubled (c :: cs) = c :: c :: doubled cs := by simp [doubled, hc]
      rw [hfirst, List.cons_append, List.cons_append, literalsFrom, if_pos hc, literalsFrom,
        if_pos hc]
    · have hfirst : doubled (c :: cs) = c :: doubled cs := by simp [doubled, hc]
      rw [hfirst, List.cons_append, literalsFrom, if_neg hc]

/-- Nothing is doubled in a text without quotation marks. -/
theorem doubled_of_not_mem (h : quoteMark ∉ cs) : doubled cs = cs := by
  induction cs with
  | nil => rfl
  | cons c cs ih =>
    obtain ⟨hc, hcs⟩ := not_or.1 (mt List.mem_cons.2 h)
    have hfirst : doubled (c :: cs) = c :: doubled cs := by simp [doubled, Ne.symm hc]
    rw [hfirst, ih hcs]

/-- Behind its last quotation mark, a literal ends where no other one follows. -/
theorem literalsFrom_closing (h : rest.head? ≠ some quoteMark) :
    literalsFrom (.closing held) rest =
      (literalsFrom .outside rest).map (String.ofList held :: ·) := by
  cases rest with
  | nil => rfl
  | cons c cs =>
    have hc : c ≠ quoteMark := fun h' => h (by rw [h']; rfl)
    rw [literalsFrom, literalsFrom, if_neg hc, if_neg hc]

/-- **A quoted text is read as the text**, unless another quotation mark follows. -/
theorem literalsFrom_quoted (s : String) (h : rest.head? ≠ some quoteMark) :
    literalsFrom .outside ((quoted s).toList ++ rest) =
      (literalsFrom .outside rest).map (s :: ·) := by
  have hwritten : (quoted s).toList ++ rest =
      quoteMark :: (doubled s.toList ++ quoteMark :: rest) := by
    simp [quoted]
  rw [hwritten, literalsFrom, if_pos rfl, literalsFrom_doubled, List.nil_append, literalsFrom,
    if_pos rfl, literalsFrom_closing h, String.ofList_toList]

/-- A text without quotation marks is the same in quotation marks and quoted. -/
theorem enclosed_of_unquoted (h : Unquoted s) : enclosed s = quoted s := by
  rw [enclosed, quoted, doubled_of_not_mem h]

/-! ## Quotation marks that are used up -/

theorem count_doubled (cs : List Char) :
    (doubled cs).count quoteMark = 2 * cs.count quoteMark := by
  induction cs with
  | nil => rfl
  | cons c cs ih =>
    have hcons : doubled (c :: cs) = doubled [c] ++ doubled cs := doubled_append [c] cs
    rw [hcons, List.count_append, ih, List.count_cons]
    by_cases hc : c = quoteMark
    · subst hc
      simp [doubled]
      omega
    · simp [doubled, hc]

theorem count_quoted (s : String) :
    (quoted s).toList.count quoteMark = 2 + 2 * s.toList.count quoteMark := by
  simp [quoted, count_doubled]
  omega

theorem count_enclosed (s : String) :
    (enclosed s).toList.count quoteMark = 2 + s.toList.count quoteMark := by
  simp [enclosed]
  omega

/-- The quotation marks that have been used up of the literal where the reading stands. -/
def Position.markCount : Position → Nat
  | outside => 0
  | inside held => 1 + 2 * held.count quoteMark
  | closing held => 2 + 2 * held.count quoteMark

/-- **A reading uses up every quotation mark of the text**: those that the literals have which it
gives, when they are quoted. -/
theorem count_of_literalsFrom (h : literalsFrom pos cs = some ts) :
    cs.count quoteMark + pos.markCount =
      (ts.flatMap fun t => (quoted t).toList).count quoteMark := by
  induction cs generalizing pos ts with
  | nil =>
    cases pos with
    | outside =>
      obtain rfl := Option.some.inj h
      rfl
    | inside held => cases h
    | closing held =>
      obtain rfl := Option.some.inj h
      simp [Position.markCount, count_quoted]
  | cons c cs ih =>
    cases pos with
    | outside =>
      rw [literalsFrom] at h
      split at h
      · have hcount := ih h
        simp only [Position.markCount, List.count_nil] at hcount
        simp only [Position.markCount, List.count_cons, ‹c = quoteMark›, beq_self_eq_true, if_true]
        omega
      · have hcount := ih h
        simpa [List.count_cons, ‹¬ c = quoteMark›] using hcount
    | inside held =>
      rw [literalsFrom] at h
      split at h
      · have hcount := ih h
        simp only [Position.markCount] at hcount
        simp only [Position.markCount, List.count_cons, ‹c = quoteMark›, beq_self_eq_true, if_true]
        omega
      · have hcount := ih h
        simpa [Position.markCount, List.count_cons, ‹¬ c = quoteMark›] using hcount
    | closing held =>
      rw [literalsFrom] at h
      split at h
      · have hcount := ih h
        simp only [Position.markCount, List.count_append, ‹c = quoteMark›,
          List.count_singleton_self] at hcount
        simp only [Position.markCount, List.count_cons, ‹c = quoteMark›, beq_self_eq_true, if_true]
        omega
      · -- the literal ends here, and what follows is read outside
        obtain ⟨later, hlater, rfl⟩ := Option.map_eq_some_iff.1 h
        have hcount := ih hlater
        simp only [Position.markCount, Nat.add_zero] at hcount
        simp [Position.markCount, count_quoted, ‹¬ c = quoteMark›, hcount]
        omega

end EntityFilter.Text
