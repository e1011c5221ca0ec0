import EntityFilter.Compile
import EntityFilter.Proofs.Predicate.Value

/-!
# What lowered clauses read

* `Predicate.Tests`: predicates that are built of tests of some expressions.
* `Clause.testsValue_of_inPlace`, `Clause.tests_of_inPlace`: a test in place tests the value of its
  reading and, in a map, the key, as they stand or in upper case.
* `Predicate.Local`: a predicate reads one source and asks for no sub-query.
* `Clause.local_of_inPlace`: a test in place reads the last source of its path, and nothing else.
* `Clause.exclusion`: what the sub-query of a negation looks for.
-/

namespace EntityFilter

/-- **A predicate that reads one source, and nothing else.** -/
structure Predicate.Local (s : SourceId) (p : Predicate) : Prop where
  reads : ∀ t, t ∈ p.reads ↔ t = s
  flat : p.subqueries = []

/-- **A predicate that is built of tests** of some expressions. -/
inductive Predicate.Tests (tested : Expr → Prop) : Predicate → Prop
  | test {p : Predicate} {e : Expr} {f : Dialect → Value → Truth}
      (h : ∀ d, p.test? d = some (e, f d)) (he : tested e) : Tests tested p
  | not {p : Predicate} (h : Tests tested p) : Tests tested (.not p)
  | and {ps : List Predicate} (hne : ps ≠ []) (h : ∀ p ∈ ps, Tests tested p) :
      Tests tested (.and ps)
  | or {ps : List Predicate} (hne : ps ≠ []) (h : ∀ p ∈ ps, Tests tested p) :
      Tests tested (.or ps)

/-- A reading from one source. -/
structure Reading.At (s : SourceId) (r : Reading) : Prop where
  value : r.value.source = s
  key : ∀ {e}, r.key = some e → e.source = s

/-- The expressions of a reading, as they stand or in upper case. -/
inductive Reading.Reads (r : Reading) : Expr → Prop
  | value : Reads r r.value
  | key {e : Expr} (h : r.key = some e) : Reads r e
  | upper {e : Expr} (h : Reads r e) : Reads r (.upper e)

variable {s : SourceId} {e : Expr} {r : Reading}

theorem Reading.ofSource_at (shape : Option MapShape) (terminal : Attribute) (s : SourceId) :
    (Reading.ofSource shape terminal s).At s := by
  unfold Reading.ofSource
  split <;> constructor <;> simp [Expr.source]

theorem Reading.At.source (h : r.At s) (he : r.Reads e) : e.source = s := by
  induction he with
  | value => exact h.value
  | key hk => exact h.key hk
  | upper _ ih => exact ih

/-! ## Predicates that are built of tests -/

namespace Predicate

variable {tested : Expr → Prop} {p : Predicate} {ps : List Predicate}

/-- Predicates of one source, together, read that source and nothing else. -/
theorem Local.parts (hne : ps ≠ []) (h : ∀ p ∈ ps, p.Local s) :
    (∀ t, t ∈ readsAll ps ↔ t = s) ∧ subqueriesOfAll ps = [] := by
  constructor
  · intro t
    rw [mem_readsAll]
    constructor
    · rintro ⟨p, hp, ht⟩
      exact ((h p hp).reads t).1 ht
    · rintro rfl
      obtain ⟨p, hp⟩ := List.exists_mem_of_ne_nil ps hne
      exact ⟨p, hp, ((h p hp).reads t).2 rfl⟩
  · refine List.eq_nil_iff_forall_not_mem.2 fun t ht => ?_
    obtain ⟨p, hp, ht⟩ := mem_subqueriesOfAll.1 ht
    simp [(h p hp).flat] at ht

/-- Tests of expressions of one source read that source, and nothing else. -/
theorem Tests.isLocal (h : p.Tests tested) (hs : ∀ e, tested e → e.source = s) : p.Local s := by
  induction h with
  | test h he =>
    have h := h .standard
    exact ⟨fun t => by simp [reads_of_test? h, hs _ he], subqueries_of_test? h⟩
  | not _ ih => exact ⟨ih.reads, ih.flat⟩
  | and hne _ ih => exact ⟨(Local.parts hne ih).1, (Local.parts hne ih).2⟩
  | or hne _ ih => exact ⟨(Local.parts hne ih).1, (Local.parts hne ih).2⟩

/-- **The value of tests depends on what is tested alone.** -/
theorem Tests.value_congr {m : Model} {d : Dialect} {rows : SubqueryId → Env → Bool}
    {env env' : Env} (h : p.Tests tested)
    (he : ∀ e, tested e → e.value m env = e.value m env') :
    p.value m d rows env = p.value m d rows env' := by
  induction h with
  | test h htested => rw [value_of_test? (h d), value_of_test? (h d), he _ htested]
  | not _ ih => exact congrArg Truth.not ih
  | and _ _ ih =>
    have hparts := valueOfAll_map (f := id) ih
    rwa [List.map_id] at hparts
  | or _ _ ih =>
    have hparts := valueOfAny_map (f := id) ih
    rwa [List.map_id] at hparts

/-- Tests of some expressions are tests of more. -/
theorem Tests.imp {tested' : Expr → Prop} (h : p.Tests tested)
    (himp : ∀ e, tested e → tested' e) : p.Tests tested' := by
  induction h with
  | test h he => exact .test h (himp _ he)
  | not _ ih => exact .not ih
  | and hne _ ih => exact .and hne ih
  | or hne _ ih => exact .or hne ih

theorem Tests.pair {p' : Predicate} (h : p.Tests tested) (h' : p'.Tests tested) :
    ∀ part ∈ [p, p'], part.Tests tested :=
  List.forall_mem_cons.2 ⟨h, List.forall_mem_singleton.2 h'⟩

end Predicate

/-! ## Lowered clauses -/

namespace Settings

variable (st : Settings)

theorem reads_caseExpr (he : r.Reads e) : r.Reads (st.caseExpr e) := by
  unfold caseExpr
  split
  · exact .upper he
  · exact he

theorem tests_textTest (he : r.Reads e) (t : String) : (st.textTest e t).Tests r.Reads := by
  unfold textTest
  split <;> exact .test (fun _ => rfl) (st.reads_caseExpr he)

theorem tests_notTextTest (he : r.Reads e) (t : String) :
    (st.notTextTest e t).Tests r.Reads := by
  unfold notTextTest
  split <;> exact .test (fun _ => rfl) (st.reads_caseExpr he)

theorem tests_equalTest (he : r.Reads e) (v : Value) : (st.equalTest e v).Tests r.Reads := by
  unfold equalTest
  split
  · exact .test (fun _ => rfl) he
  · split
    · exact .test (fun _ => rfl) he
    · split
      · exact .or (by simp) (.pair (.test (fun _ => rfl) he) (.test (fun _ => rfl) he))
      · exact st.tests_textTest he _
  · exact .test (fun _ => rfl) he

theorem tests_notEqualTest (he : r.Reads e) (v : Value) :
    (st.notEqualTest e v).Tests r.Reads := by
  unfold notEqualTest
  split
  · split
    · exact .test (fun _ => rfl) (st.reads_caseExpr he)
    · exact st.tests_notTextTest he _
  · exact .test (fun _ => rfl) he

theorem tests_isInTest (he : r.Reads e) (vs : List Value) : (st.isInTest e vs).Tests r.Reads := by
  unfold isInTest
  dsimp only
  split
  · exact .test (fun _ => rfl) he
  · exact .test (fun _ => rfl) (st.reads_caseExpr he)

theorem tests_demandTest (he : r.Reads e) (d : Demand) : (st.demandTest e d).Tests r.Reads := by
  unfold demandTest
  split
  · split
    · exact .test (fun _ => rfl) (st.reads_caseExpr he)
    · exact st.tests_textTest he _
  · exact .test (fun _ => rfl) he
  · exact st.tests_isInTest he _

theorem tests_keyTest (r : Reading) (key : Option String) :
    ∀ p ∈ st.keyTest r key, p.Tests r.Reads := by
  intro p hp
  unfold keyTest at hp
  split at hp
  · obtain rfl := List.mem_singleton.1 hp
    exact .test (fun _ => rfl) (st.reads_caseExpr (.key ‹_›))
  · exact absurd hp List.not_mem_nil

theorem tests_withKey (key : Option String) {p : Predicate} (hp : p.Tests r.Reads) :
    (st.withKey r key p).Tests r.Reads := by
  unfold withKey
  split
  · exact hp
  · refine .and (by simp) fun p' hp' => ?_
    rcases List.mem_append.1 hp' with hp' | hp'
    · exact st.tests_keyTest r key p' hp'
    · obtain rfl := List.mem_singleton.1 hp'
      exact hp

end Settings

namespace Clause

variable {c : Clause} {st : Settings} {replace : String → String} {p : Predicate}

/-- **A predicate tests the value of a reading**, apart from the test of a map key. -/
def TestsValue (c : Clause) (st : Settings) (r : Reading) (p : Predicate) : Prop :=
  ∃ core, p = st.withKey r c.selector.mapKey core ∧
    core.Tests (Reading.Reads ⟨r.value, none⟩)

theorem testsValue_of_lowerNotEqual (h : c.lowerNotEqual st r = .inPlace p) :
    c.TestsValue st r p := by
  have hvalue : (⟨r.value, none⟩ : Reading).Reads r.value := .value
  unfold lowerNotEqual at h
  dsimp only at h
  split at h
  · obtain rfl := Lowered.inPlace.inj h
    exact ⟨_, rfl, .test (fun _ => rfl) hvalue⟩
  · split at h
    · obtain rfl := Lowered.inPlace.inj h
      exact ⟨_, rfl, .and (by simp)
        (.pair (.test (fun _ => rfl) hvalue) (.test (fun _ => rfl) hvalue))⟩
    · split at h
      · obtain rfl := Lowered.inPlace.inj h
        exact ⟨_, rfl, .or (by simp)
          (.pair (.test (fun _ => rfl) hvalue) (st.tests_notEqualTest hvalue _))⟩
      · cases h

theorem testsValue_of_lowerNotIn (h : c.lowerNotIn st r = .inPlace p) : c.TestsValue st r p := by
  have hvalue : (⟨r.value, none⟩ : Reading).Reads r.value := .value
  unfold lowerNotIn at h
  split at h
  · obtain rfl := Lowered.inPlace.inj h
    exact ⟨_, rfl, .or (by simp)
      (.pair (.test (fun _ => rfl) hvalue) (st.tests_isInTest hvalue _).not)⟩
  · cases h

/-- **A test in place tests the value of its reading**, apart from the test of a map key. -/
theorem testsValue_of_inPlace (h : c.lower st replace r = .inPlace p) : c.TestsValue st r p := by
  have hvalue : (⟨r.value, none⟩ : Reading).Reads r.value := .value
  have order : ∀ {test}, c.lowerOrder st replace r test = .inPlace p → c.TestsValue st r p := by
    intro test h
    obtain rfl := Lowered.inPlace.inj h
    exact ⟨_, rfl, .test (fun _ => rfl) hvalue⟩
  unfold lower at h
  split at h
  · obtain rfl := Lowered.inPlace.inj h
    exact ⟨_, rfl, st.tests_equalTest hvalue _⟩
  · exact testsValue_of_lowerNotEqual h
  · exact order h
  · exact order h
  · exact order h
  · exact order h
  · obtain rfl := Lowered.inPlace.inj h
    exact ⟨_, rfl, st.tests_isInTest hvalue _⟩
  · exact testsValue_of_lowerNotIn h

/-- **A test in place tests the expressions of its reading**, and nothing else. -/
theorem tests_of_inPlace (h : c.lower st replace r = .inPlace p) : p.Tests r.Reads := by
  obtain ⟨core, rfl, hcore⟩ := testsValue_of_inPlace h
  refine st.tests_withKey _ (hcore.imp fun e he => ?_)
  induction he with
  | value => exact .value
  | key hkey => cases hkey
  | upper _ ih => exact .upper ih

/-- **A test in place reads the source of its reading**, and nothing else. -/
theorem local_of_inPlace (hr : r.At s) (h : c.lower st replace r = .inPlace p) : p.Local s :=
  (tests_of_inPlace h).isLocal fun _ => hr.source

/-- The tests of what stands at the end of a path in a sub-query. -/
def relatedTests (c : Clause) (st : Settings) (d : Demand) (s : SourceId) : List Predicate :=
  let r := Reading.ofSource c.selector.shape c.terminal s
  st.keyTest r c.selector.mapKey ++ [st.demandTest r.value d]

/-- **What the sub-query of a negation looks for**: a row with the identifier of the outer row, with
something at the end of its path that satisfies the demand. -/
def exclusion (c : Clause) (st : Settings) (d : Demand) (subRoot last : SourceId) : Predicate :=
  .and (.equalExpr (.column Query.root c.selector.field.identifier)
    (.column subRoot c.selector.field.identifier) :: c.relatedTests st d last)

variable {d : Demand} {subRoot last : SourceId}

theorem tests_relatedTests {t : Predicate} (ht : t ∈ c.relatedTests st d last) :
    t.Tests (Reading.ofSource c.selector.shape c.terminal last).Reads := by
  rcases List.mem_append.1 ht with ht | ht
  · exact st.tests_keyTest _ _ t ht
  · obtain rfl := List.mem_singleton.1 ht
    exact st.tests_demandTest .value d

theorem local_relatedTests {t : Predicate} (ht : t ∈ c.relatedTests st d last) : t.Local last :=
  (tests_relatedTests ht).isLocal fun _ => (Reading.ofSource_at _ _ last).source

/-- Together they read the end of the path. -/
theorem relatedTests_parts :
    (∀ t, t ∈ Predicate.readsAll (c.relatedTests st d last) ↔ t = last) ∧
      Predicate.subqueriesOfAll (c.relatedTests st d last) = [] :=
  Predicate.Local.parts (by simp [relatedTests]) fun _ => local_relatedTests

theorem reads_exclusion (h : s ∈ (c.exclusion st d subRoot last).reads) :
    s = Query.root ∨ s = subRoot ∨ s = last := by
  rw [exclusion, Predicate.reads, Predicate.readsAll, List.mem_append] at h
  rcases h with h | h
  · rcases List.mem_cons.1 h with rfl | h
    · exact Or.inl rfl
    · exact Or.inr (Or.inl (List.mem_singleton.1 h))
  · exact Or.inr (Or.inr ((relatedTests_parts.1 s).1 h))

theorem subqueries_exclusion : (c.exclusion st d subRoot last).subqueries = [] :=
  (List.nil_append _).trans relatedTests_parts.2

end Clause

end EntityFilter
