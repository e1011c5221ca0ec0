import EntityFilter.Proofs.Compile.Declared
import Mathlib.Data.List.Forall2

/-!
# What the check of a comparison makes sure of

The check walks the path of a selector, reads the arguments one by one, and looks the operator up.
No argument has a say in how another one is read.

* `Schema.Checks`: what is so when a comparison has passed its check.
* `Schema.plan_eq_ok_iff`: it has passed exactly then.
* `Schema.Checks.alone`: a comparison passes its check with each of its arguments alone.
* `Schema.Checks.transfer`: it passes with another selector, under another schema, if that reads
  arguments for the same type with the same conversion.
* `Schema.Checks.simple`: a path of one attribute.
-/

namespace EntityFilter

/-- A list is read if its members are read, each by itself. -/
theorem mapM_eq_ok_iff {α β ε : Type} {read : α → Except ε β} {l : List α} {vs : List β} :
    l.mapM read = .ok vs ↔ List.Forall₂ (fun a v => read a = .ok v) l vs := by
  induction l generalizing vs with
  | nil =>
    rw [List.forall₂_nil_left_iff, List.mapM_nil]
    exact ⟨fun h => (Except.ok.inj h).symm, fun h => congrArg _ h.symm⟩
  | cons a l ih =>
    rw [List.mapM_cons, bind_eq_ok, List.forall₂_cons_left_iff]
    constructor
    · rintro ⟨v, hv, h⟩
      obtain ⟨vs', hvs, h⟩ := bind_eq_ok.1 h
      exact ⟨v, vs', hv, ih.1 hvs, (Except.ok.inj h).symm⟩
    · rintro ⟨v, vs', hv, hvs, rfl⟩
      exact ⟨v, hv, bind_eq_ok.2 ⟨vs', ih.2 hvs, rfl⟩⟩

/-- In lists that are related member by member, every member has a partner. -/
theorem exists_of_forall₂ {α β : Type} {related : α → β → Prop} {l : List α} {l' : List β}
    (h : List.Forall₂ related l l') {a : α} (ha : a ∈ l) : ∃ b ∈ l', related a b := by
  induction h with
  | nil => exact absurd ha List.not_mem_nil
  | cons hab _ ih =>
    rcases List.mem_cons.1 ha with rfl | ha
    · exact ⟨_, List.mem_cons_self, hab⟩
    · obtain ⟨b, hb, hrelated⟩ := ih ha
      exact ⟨b, List.mem_cons_of_mem _ hb, hrelated⟩

/-- **The value of an argument depends on the conversion of the field, on the type and on the
enumerations**; the selector stands in errors only. -/
theorem Field.readArgument_congr {m m' : Model} {f f' : Field} {selector selector' raw : String}
    {type : Option ScalarType} {v : Value} (hm : m'.enumerations = m.enumerations)
    (hf : f'.converter = f.converter) (h : f.readArgument m selector type raw = .ok v) :
    f'.readArgument m' selector' type raw = .ok v := by
  have henum : ∀ name, m'.enumeration name = m.enumeration name := by
    intro name
    rw [Model.enumeration, Model.enumeration, hm]
  unfold readArgument at h ⊢
  simp only [henum, hf]
  split at h
  · split at h
    · exact h
    · cases h
  · split at h
    · exact h
    · cases h
  · split at h
    · exact h
    · cases h
  · exact h

/-- The comparison of a clause at the end of another path. -/
def Clause.redirect (clause : Clause) (r : ResolvedSelector) (terminal : Attribute) : Clause :=
  { clause with selector := r, terminal := terminal }

namespace Schema

/-- **What the check of a comparison makes sure of**: the selector stands for a path that does not
break, the operator is known, and every argument is read; there is a first one. -/
structure Checks (m : Model) (s : Schema) (c : Comparison) (clause : Clause) : Prop where
  resolve : s.resolve c.selector = .ok clause.selector
  ending : (m.route (some s.entity) clause.selector.navigation).ending = .ok clause.terminal
  operator : Operator.ofSymbol? c.operator = some clause.operator
  raw : c.arguments.head? = some clause.raw
  value : clause.values.head? = some clause.value
  values : List.Forall₂ (fun raw v => clause.selector.field.readArgument m c.selector
    (m.comparedType? clause.selector.shape clause.terminal) raw = .ok v) c.arguments clause.values

variable {m m' : Model} {s s' : Schema} {c : Comparison} {clause : Clause} {r r' : ResolvedSelector}
  {route : Route} {joins : List Attribute} {terminal : Attribute} {raw selector : String}
  {v : Value}

theorem clause_eq_ok_iff : Schema.clause m c r route = .ok clause ↔
    clause.selector = r ∧ route.ending = .ok clause.terminal ∧
      Operator.ofSymbol? c.operator = some clause.operator ∧
      c.arguments.head? = some clause.raw ∧ clause.values.head? = some clause.value ∧
      c.arguments.mapM (r.field.readArgument m c.selector
        (m.comparedType? r.shape clause.terminal)) = .ok clause.values := by
  constructor
  · intro h
    obtain ⟨terminal, hending, h⟩ := bind_eq_ok.1 h
    obtain ⟨values, hvalues, h⟩ := bind_eq_ok.1 h
    split at h
    · cases h
    · rename_i op raw rest value more hop hargs
      obtain rfl := Except.ok.inj h
      exact ⟨rfl, hending, hop, by rw [hargs]; rfl, rfl, hvalues⟩
    · cases h
  · rintro ⟨rfl, hending, hop, hraw, hvalue, hvalues⟩
    refine bind_eq_ok.2 ⟨_, hending, bind_eq_ok.2 ⟨_, hvalues, ?_⟩⟩
    obtain ⟨rest, hargs⟩ := List.head?_eq_some_iff.1 hraw
    obtain ⟨more, hmore⟩ := List.head?_eq_some_iff.1 hvalue
    rw [hop, hargs, hmore]
    -- the clause keeps all values beside the first
    exact congrArg Except.ok (by rw [← hmore])

/-- **A comparison has passed its check** exactly if all of this is so. -/
theorem plan_eq_ok_iff : s.plan m c = (joins, .ok clause) ↔
    joins = (m.route (some s.entity) clause.selector.navigation).joins ∧ s.Checks m c clause := by
  unfold plan
  cases hr : s.resolve c.selector with
  | error e =>
    refine ⟨fun h => by simp at h, fun h => ?_⟩
    exact nomatch hr.symm.trans h.2.resolve
  | ok r =>
    simp only [Prod.mk.injEq, clause_eq_ok_iff, mapM_eq_ok_iff]
    constructor
    · rintro ⟨rfl, rfl, hending, hop, hraw, hvalue, hvalues⟩
      exact ⟨rfl, hr, hending, hop, hraw, hvalue, hvalues⟩
    · rintro ⟨rfl, h⟩
      obtain rfl := Except.ok.inj (h.resolve.symm.trans hr)
      exact ⟨rfl, rfl, h.ending, h.operator, h.raw, h.value, h.values⟩

namespace Checks

/-- Every argument has a value. -/
theorem exists_value (h : s.Checks m c clause) (hraw : raw ∈ c.arguments) :
    ∃ v ∈ clause.values, clause.selector.field.readArgument m c.selector
      (m.comparedType? clause.selector.shape clause.terminal) raw = .ok v :=
  exists_of_forall₂ h.values hraw

/-- Every value is that of an argument. -/
theorem exists_argument (h : s.Checks m c clause) (hv : v ∈ clause.values) :
    ∃ raw ∈ c.arguments, clause.selector.field.readArgument m c.selector
      (m.comparedType? clause.selector.shape clause.terminal) raw = .ok v :=
  exists_of_forall₂ h.values.flip hv

/-- **A comparison passes its check with one argument alone**, which is read as it is among the
others. -/
theorem alone (h : s.Checks m c clause) (hread : clause.selector.field.readArgument m c.selector
      (m.comparedType? clause.selector.shape clause.terminal) raw = .ok v) :
    s.Checks m ⟨c.selector, c.operator, [raw]⟩
      { clause with raw := raw, value := v, values := [v] } where
  resolve := h.resolve
  ending := h.ending
  operator := h.operator
  raw := rfl
  value := rfl
  values := .cons hread .nil

/-- **A comparison passes its check with another selector**, also under another schema, where
arguments are read for the same type, with the same conversion and the same enumerations. -/
theorem transfer (h : s.Checks m c clause) (hm : m'.enumerations = m.enumerations)
    (hresolve : s'.resolve selector = .ok r')
    (hending : (m'.route (some s'.entity) r'.navigation).ending = .ok terminal)
    (htype : m'.comparedType? r'.shape terminal =
      m.comparedType? clause.selector.shape clause.terminal)
    (hconv : r'.field.converter = clause.selector.field.converter) :
    s'.Checks m' ⟨selector, c.operator, c.arguments⟩ (clause.redirect r' terminal) where
  resolve := hresolve
  ending := hending
  operator := h.operator
  raw := h.raw
  value := h.value
  values := by
    simp only [Clause.redirect, htype]
    exact h.values.imp fun _ _ hread => Field.readArgument_congr hm hconv hread

/-- **A path of one attribute** is walked to that attribute of the root, and joins it if it is not
basic. -/
theorem simple (h : s.Checks m c clause) (hs : clause.selector.isSimple = true) :
    (m.entity s.entity).attribute? clause.terminal.name = some clause.terminal ∧
      (m.route (some s.entity) clause.selector.navigation).joins =
        if clause.terminal.kind.isBasic then [] else [clause.terminal] := by
  obtain ⟨segment, hnav⟩ := List.length_eq_one_iff.1 (eq_of_beq hs)
  have hending := h.ending
  rw [hnav] at hending ⊢
  obtain ⟨a, ha, rfl, ⟨-, hb, hroute⟩ | ⟨-, hb, hroute⟩ | ⟨-, hroute⟩⟩ := Model.route_cases hending
  · rw [hroute] at hending ⊢
    obtain rfl := Except.ok.inj hending
    exact ⟨ha, by rw [hb]; rfl⟩
  · rw [hroute] at hending ⊢
    obtain rfl := Except.ok.inj hending
    exact ⟨ha, by rw [hb]; rfl⟩
  · -- the path does not go on
    rw [hroute] at hending
    cases htarget : a.kind.target? <;> rw [htarget] at hending <;> cases hending

end Checks

end Schema

end EntityFilter
