/-!
# Three-valued truth

A test of a NULL is neither true nor false. The connectives are those of Kleene: a
conjunction is as true as its least true part, a disjunction as its most true part.

* `conj_eq_yes`, `disj_eq_yes`: when a connective is true.
* `not_not`: negation turns truth round and keeps the unknown.
-/

namespace EntityFilter

/-- The outcome of a test. -/
inductive Truth
  | no
  | unknown
  | yes
  deriving DecidableEq, Inhabited

namespace Truth

/-- The truth of a decided test. -/
def ofBool (b : Bool) : Truth :=
  if b then yes else no

/-- The truth of a test that may be undecided. -/
def ofOption : Option Bool → Truth
  | some b => ofBool b
  | none => unknown

/-- Negation keeps the unknown. -/
def not : Truth → Truth
  | no => yes
  | unknown => unknown
  | yes => no

/-- The less true of two. -/
def conj : Truth → Truth → Truth
  | no, _ => no
  | _, no => no
  | unknown, _ => unknown
  | _, unknown => unknown
  | yes, yes => yes

/-- The more true of two. -/
def disj : Truth → Truth → Truth
  | yes, _ => yes
  | _, yes => yes
  | unknown, _ => unknown
  | _, unknown => unknown
  | no, no => no

@[simp] theorem not_not (t : Truth) : t.not.not = t := by cases t <;> rfl

theorem conj_eq_yes {s t : Truth} : s.conj t = yes ↔ s = yes ∧ t = yes := by
  cases s <;> cases t <;> simp [conj]

theorem disj_eq_yes {s t : Truth} : s.disj t = yes ↔ s = yes ∨ t = yes := by
  cases s <;> cases t <;> simp [disj]

/-- **De Morgan's law.** -/
theorem not_conj (s t : Truth) : (s.conj t).not = s.not.disj t.not := by
  cases s <;> cases t <;> rfl

@[simp] theorem ofBool_eq_yes {b : Bool} : ofBool b = yes ↔ b = true := by
  cases b <;> simp [ofBool]

end Truth

end EntityFilter
