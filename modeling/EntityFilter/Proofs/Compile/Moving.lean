import EntityFilter.Proofs.Compile.Lowered

/-!
# Moving predicates

A clause is lowered to the same tests wherever its path ends: only the number of the source that
they read differs. So what a test says of a binding does not depend on the query around it.

* `Predicate.moveTo`: the predicate that reads another source.
* `Clause.lower_moveTo`: a clause lowered for another source.
* `Predicate.Holds`, `Predicate.Local.value_eq`: what a predicate says of a binding.
-/

namespace EntityFilter

/-- The expression read from another source. -/
def Expr.moveTo (t : SourceId) : Expr → Expr
  | column _ name => column t name
  | element _ => element t
  | mapKey _ => mapKey t
  | mapValue _ => mapValue t
  | upper e => upper (e.moveTo t)

namespace Predicate

mutual

/-- **The predicate that reads another source** in the place of all that it reads. -/
def moveTo (t : SourceId) : Predicate → Predicate
  | always => always
  | and ps => and (moveAllTo t ps)
  | or ps => or (moveAllTo t ps)
  | not p => not (p.moveTo t)
  | isNull e => isNull (e.moveTo t)
  | isNotNull e => isNotNull (e.moveTo t)
  | equal e v => equal (e.moveTo t) v
  | notEqual e v => notEqual (e.moveTo t) v
  | equalExpr l r => equalExpr (l.moveTo t) (r.moveTo t)
  | like e pattern escape => like (e.moveTo t) pattern escape
  | notLike e pattern escape => notLike (e.moveTo t) pattern escape
  | isIn e vs => isIn (e.moveTo t) vs
  | order e test v => order (e.moveTo t) test v
  | hasRow s => hasRow s

/-- The predicates of a list that read another source. -/
def moveAllTo (t : SourceId) : List Predicate → List Predicate
  | [] => []
  | p :: ps => p.moveTo t :: moveAllTo t ps

end

theorem moveAllTo_eq_map (t : SourceId) (ps : List Predicate) :
    moveAllTo t ps = ps.map (moveTo t) := by
  induction ps with
  | nil => rfl
  | cons p ps ih => rw [moveAllTo, ih, List.map_cons]

end Predicate

variable {m : Model} {d : Dialect} {rows : SubqueryId → Env → Bool} {env env' : Env}
  {s t : SourceId}

@[simp] theorem Expr.source_moveTo (t : SourceId) (e : Expr) : (e.moveTo t).source = t := by
  induction e with
  | upper e ih => exact ih
  | _ => rfl

@[simp] theorem Expr.valueIn_moveTo (t : SourceId) (e : Expr) (b : Binding) :
    (e.moveTo t).valueIn m b = e.valueIn m b := by
  induction e with
  | upper e ih => simp only [moveTo, valueIn, ih]
  | _ => cases b <;> rfl

theorem Expr.value_moveTo {e : Expr} (h : env e.source = env' t) :
    (e.moveTo t).value m env' = e.value m env := by
  rw [value, value, source_moveTo, h]
  cases env' t <;> simp

namespace Predicate

/-- **A moved predicate has the same value** where the source that it reads has the binding of all
that the predicate reads. -/
theorem value_moveTo (p : Predicate) (hs : ∀ s ∈ p.reads, env s = env' t)
    (hflat : p.subqueries = []) :
    (p.moveTo t).value m d rows env' = p.value m d rows env := by
  have parts : ∀ {ps : List Predicate}, (∀ p ∈ ps, (∀ s ∈ p.reads, env s = env' t) →
      p.subqueries = [] → (p.moveTo t).value m d rows env' = p.value m d rows env) →
      (∀ s ∈ readsAll ps, env s = env' t) → subqueriesOfAll ps = [] →
      ∀ p ∈ ps, (p.moveTo t).value m d rows env' = p.value m d rows env := by
    intro ps ih hs hflat p hp
    refine ih p hp (fun s h => hs s (mem_readsAll.2 ⟨p, hp, h⟩)) ?_
    refine List.eq_nil_iff_forall_not_mem.2 fun u hu => ?_
    exact List.ne_nil_of_mem (mem_subqueriesOfAll.2 ⟨p, hp, hu⟩) hflat
  induction p using Predicate.induction d with
  | always => rfl
  | and ps ih =>
    rw [moveTo, value, value, moveAllTo_eq_map]
    exact valueOfAll_map (parts ih hs hflat)
  | or ps ih =>
    rw [moveTo, value, value, moveAllTo_eq_map]
    exact valueOfAny_map (parts ih hs hflat)
  | not p ih => exact congrArg Truth.not (ih hs hflat)
  | test p e f h =>
    have hm : test? d (p.moveTo t) = some (e.moveTo t, f) := by
      cases p <;> simp only [test?, Option.some.injEq, Prod.mk.injEq, reduceCtorEq] at h <;>
        simp [moveTo, test?, ← h.1, ← h.2]
    rw [value_of_test? h, value_of_test? hm,
      Expr.value_moveTo (hs _ (by simp [reads_of_test? h]))]
  | equalExpr l r =>
    rw [moveTo, value, value, Expr.value_moveTo (hs l.source (by simp [reads])),
      Expr.value_moveTo (hs r.source (by simp [reads]))]
  | hasRow s => cases hflat

/-- **What a predicate of one source says of a binding**: the predicate is true. -/
def Holds (m : Model) (d : Dialect) (p : Predicate) (b : Binding) : Prop :=
  p.value m d (fun _ _ => false) (fun _ => some b) = .yes

/-- The value of a predicate of one source is what the predicate says of the binding there. -/
theorem Local.value_eq {p : Predicate} {b : Binding} (h : p.Local s) (hs : env s = some b) :
    p.value m d rows env = .yes ↔ p.Holds m d b := by
  rw [Holds, Predicate.value_congr p (fun t ht => ?_) (by simp [h.flat])]
  rw [(h.reads t).1 ht, hs]

theorem Local.holds_moveTo {p : Predicate} {b : Binding} (h : p.Local s) (t : SourceId) :
    (p.moveTo t).Holds m d b ↔ p.Holds m d b := by
  rw [Holds, Holds, value_moveTo p (fun _ _ => rfl) h.flat]

end Predicate

/-! ## Moving what is lowered -/

/-- The expressions read from another source. -/
def Reading.moveTo (t : SourceId) (r : Reading) : Reading :=
  ⟨r.value.moveTo t, r.key.map (Expr.moveTo t)⟩

theorem Reading.moveTo_ofSource (shape : Option MapShape) (terminal : Attribute) (s t : SourceId) :
    (Reading.ofSource shape terminal s).moveTo t = Reading.ofSource shape terminal t := by
  obtain ⟨name, kind⟩ := terminal
  rcases shape with _ | _ | attributes <;> cases kind <;> rfl

/-- What is asked for, at another source. -/
def Lowered.moveTo (t : SourceId) : Lowered → Lowered
  | inPlace p => inPlace (p.moveTo t)
  | noneRelated d => noneRelated d

namespace Settings

variable (st : Settings) (t : SourceId) (e : Expr)

theorem caseExpr_moveTo : (st.caseExpr e).moveTo t = st.caseExpr (e.moveTo t) := by
  unfold caseExpr
  split <;> rfl

theorem textTest_moveTo (text : String) :
    (st.textTest e text).moveTo t = st.textTest (e.moveTo t) text := by
  unfold textTest
  split <;> simp [Predicate.likePattern, Predicate.moveTo, caseExpr_moveTo]

theorem notTextTest_moveTo (text : String) :
    (st.notTextTest e text).moveTo t = st.notTextTest (e.moveTo t) text := by
  unfold notTextTest
  split <;> simp [Predicate.notLikePattern, Predicate.moveTo, caseExpr_moveTo]

theorem equalTest_moveTo (v : Value) :
    (st.equalTest e v).moveTo t = st.equalTest (e.moveTo t) v := by
  cases v with
  | text text =>
    simp only [equalTest]
    split
    · rfl
    · split
      · rfl
      · exact st.textTest_moveTo t e text
  | _ => rfl

theorem notEqualTest_moveTo (v : Value) :
    (st.notEqualTest e v).moveTo t = st.notEqualTest (e.moveTo t) v := by
  cases v with
  | text text =>
    simp only [notEqualTest]
    split
    · simp [Predicate.moveTo, caseExpr_moveTo]
    · exact st.notTextTest_moveTo t e text
  | _ => rfl

theorem isInTest_moveTo (vs : List Value) :
    (st.isInTest e vs).moveTo t = st.isInTest (e.moveTo t) vs := by
  unfold isInTest
  dsimp only
  split
  · rfl
  · simp [Predicate.moveTo, caseExpr_moveTo]

theorem demandTest_moveTo (d : Demand) :
    (st.demandTest e d).moveTo t = st.demandTest (e.moveTo t) d := by
  cases d with
  | isIn vs => exact st.isInTest_moveTo t e vs
  | equal v =>
    cases v with
    | text text =>
      simp only [demandTest]
      split
      · simp [Predicate.moveTo, caseExpr_moveTo]
      · exact st.textTest_moveTo t e text
    | _ => rfl

theorem keyTest_moveTo (r : Reading) (key : Option String) :
    (st.keyTest r key).map (Predicate.moveTo t) = st.keyTest (r.moveTo t) key := by
  obtain ⟨value, _ | k⟩ := r <;> cases key <;>
    simp [keyTest, Reading.moveTo, Predicate.moveTo, caseExpr_moveTo]

theorem withKey_moveTo (r : Reading) (key : Option String) (p : Predicate) :
    (st.withKey r key p).moveTo t = st.withKey (r.moveTo t) key (p.moveTo t) := by
  unfold withKey
  rw [← st.keyTest_moveTo t r key]
  cases st.keyTest r key with
  | nil => rfl
  | cons test tests => simp [Predicate.moveTo, Predicate.moveAllTo_eq_map]

end Settings

theorem Clause.relatedTests_moveTo (c : Clause) (st : Settings) (d : Demand) (s t : SourceId) :
    (c.relatedTests st d s).map (Predicate.moveTo t) = c.relatedTests st d t := by
  rw [relatedTests, relatedTests, List.map_append, st.keyTest_moveTo, Reading.moveTo_ofSource,
    List.map_singleton, st.demandTest_moveTo]
  simp only [← Reading.moveTo_ofSource c.selector.shape c.terminal s t, Reading.moveTo]

/-- What is sought at the end of a path does not depend on the source there. -/
theorem Clause.holds_relatedTests {c : Clause} {st : Settings} {demand : Demand} {b : Binding}
    (s t : SourceId) : (∀ test ∈ c.relatedTests st demand s, test.Holds m d b) ↔
      ∀ test ∈ c.relatedTests st demand t, test.Holds m d b := by
  rw [← c.relatedTests_moveTo st demand s t, List.forall_mem_map]
  exact forall₂_congr fun test htest => ((local_relatedTests htest).holds_moveTo t).symm

/-- **A clause is lowered alike for every source.** -/
theorem Clause.lower_moveTo (c : Clause) (st : Settings) (replace : String → String) (r : Reading)
    (t : SourceId) : (c.lower st replace r).moveTo t = c.lower st replace (r.moveTo t) := by
  have keyed : ∀ (p p' : Predicate), p.moveTo t = p' →
      (Lowered.inPlace (st.withKey r c.selector.mapKey p)).moveTo t =
        .inPlace (st.withKey (r.moveTo t) c.selector.mapKey p') := by
    rintro p p' rfl
    rw [Lowered.moveTo, st.withKey_moveTo]
  unfold lower
  split
  · exact keyed _ _ (st.equalTest_moveTo t _ _)
  · unfold lowerNotEqual
    dsimp only
    split
    · exact keyed _ _ rfl
    · split
      · exact keyed _ _ rfl
      · split
        · refine keyed _ _ ?_
          simp [Predicate.moveTo, Predicate.moveAllTo_eq_map, st.notEqualTest_moveTo,
            Reading.moveTo]
        · rfl
  · exact keyed _ _ rfl
  · exact keyed _ _ rfl
  · exact keyed _ _ rfl
  · exact keyed _ _ rfl
  · exact keyed _ _ (st.isInTest_moveTo t _ _)
  · unfold lowerNotIn
    split
    · refine keyed _ _ ?_
      simp [Predicate.moveTo, Predicate.moveAllTo_eq_map, st.isInTest_moveTo, Reading.moveTo]
    · rfl

/-- What a clause is lowered to at one source says what it is lowered to at another one. -/
theorem Clause.lower_at {c : Clause} {st : Settings} {replace : String → String} {lowered : Lowered}
    (t : SourceId)
    (h : c.lower st replace (Reading.ofSource c.selector.shape c.terminal s) = lowered) :
    c.lower st replace (Reading.ofSource c.selector.shape c.terminal t) = lowered.moveTo t := by
  rw [← h, Clause.lower_moveTo, Reading.moveTo_ofSource]

end EntityFilter
