import EntityFilter.Store.Select

/-!
# The value of a predicate

Under bindings a predicate has one of three truth values. Here it is computed without the
order of reading and without failures.

* `Predicate.subqueries`: the sub-queries that a predicate asks for.
* `Predicate.test?`: the kinds of predicates that test one expression, all in one.
* `Predicate.induction`: induction over predicates with their lists of parts.
* `Predicate.value`: the value in Kleene's logic.
* `Predicate.value_congr`: the value depends only on what is read.
-/

namespace EntityFilter

/-- The value that an expression has under bindings; NULL where nothing is bound. -/
def Expr.value (m : Model) (env : Env) (e : Expr) : Value :=
  (env e.source).elim .null (e.valueIn m)

theorem Expr.value_eq {m : Model} {env : Env} {e : Expr} {b : Binding} (h : env e.source = some b) :
    e.value m env = e.valueIn m b := by
  simp [value, h]

namespace Predicate

mutual

/-- The sub-queries that a predicate asks for a row of. -/
def subqueries : Predicate → List SubqueryId
  | and ps => subqueriesOfAll ps
  | or ps => subqueriesOfAll ps
  | not p => p.subqueries
  | hasRow s => [s]
  | _ => []

/-- The sub-queries that the predicates of a list ask for a row of. -/
def subqueriesOfAll : List Predicate → List SubqueryId
  | [] => []
  | p :: ps => p.subqueries ++ subqueriesOfAll ps

end

/-- **The expression that a predicate tests, and the test**; nothing for connectives, for the
comparison of two expressions and for sub-queries. -/
def test? (d : Dialect) : Predicate → Option (Expr × (Value → Truth))
  | isNull e => some (e, fun v => .ofBool v.isNull)
  | isNotNull e => some (e, fun v => .ofBool !v.isNull)
  | equal e w => some (e, fun v => v.equals w)
  | notEqual e w => some (e, fun v => (v.equals w).not)
  | like e pattern escape => some (e, fun v => v.isLike pattern escape d)
  | notLike e pattern escape => some (e, fun v => (v.isLike pattern escape d).not)
  | isIn e ws => some (e, fun v => v.isOneOf ws)
  | order e test w => some (e, fun v => v.inOrder test w)
  | _ => none

/-- **Induction over predicates**: the parts of a connective, and one case for all tests of one
expression. -/
@[elab_as_elim]
theorem induction {motive : Predicate → Prop} (d : Dialect)
    (always : motive .always)
    (and : ∀ ps, (∀ p ∈ ps, motive p) → motive (.and ps))
    (or : ∀ ps, (∀ p ∈ ps, motive p) → motive (.or ps))
    (not : ∀ p, motive p → motive (.not p))
    (test : ∀ p e f, test? d p = some (e, f) → motive p)
    (equalExpr : ∀ l r, motive (.equalExpr l r))
    (hasRow : ∀ s, motive (.hasRow s)) (p : Predicate) : motive p :=
  @Predicate.rec motive (fun ps => ∀ p ∈ ps, motive p) always and or not
    (fun _ => test _ _ _ rfl) (fun _ => test _ _ _ rfl) (fun _ _ => test _ _ _ rfl)
    (fun _ _ => test _ _ _ rfl) equalExpr (fun _ _ _ => test _ _ _ rfl)
    (fun _ _ _ => test _ _ _ rfl) (fun _ _ => test _ _ _ rfl) (fun _ _ _ => test _ _ _ rfl) hasRow
    (fun _ h => absurd h List.not_mem_nil)
    (fun _ _ hp hps _ h => (List.mem_cons.1 h).elim (fun e => e ▸ hp) (hps _)) p

theorem mem_readsAll {ps : List Predicate} {s : SourceId} :
    s ∈ readsAll ps ↔ ∃ p ∈ ps, s ∈ p.reads := by
  induction ps with
  | nil => simp [readsAll]
  | cons p ps ih => simp [readsAll, ih]

theorem mem_subqueriesOfAll {ps : List Predicate} {s : SubqueryId} :
    s ∈ subqueriesOfAll ps ↔ ∃ p ∈ ps, s ∈ p.subqueries := by
  induction ps with
  | nil => simp [subqueriesOfAll]
  | cons p ps ih => simp [subqueriesOfAll, ih]

variable {d : Dialect} {p : Predicate} {e : Expr} {f : Value → Truth}

theorem reads_of_test? (h : test? d p = some (e, f)) : p.reads = [e.source] := by
  cases p <;> simp only [test?, Option.some.injEq, Prod.mk.injEq, reduceCtorEq] at h <;>
    simp [reads, h.1]

theorem subqueries_of_test? (h : test? d p = some (e, f)) : p.subqueries = [] := by
  cases p <;> simp only [test?, reduceCtorEq] at h <;> rfl

/-! ## The value -/

variable (m : Model) (d : Dialect) (rows : SubqueryId → Env → Bool) (env : Env)

mutual

/-- **The value of a predicate under bindings**, given which sub-queries have rows. -/
def value : Predicate → Truth
  | .always => .yes
  | .and ps => valueOfAll ps
  | .or ps => valueOfAny ps
  | .not p => (value p).not
  | .isNull e => .ofBool (e.value m env).isNull
  | .isNotNull e => .ofBool !(e.value m env).isNull
  | .equal e w => (e.value m env).equals w
  | .notEqual e w => ((e.value m env).equals w).not
  | .equalExpr l r => (l.value m env).equals (r.value m env)
  | .like e pattern escape => (e.value m env).isLike pattern escape d
  | .notLike e pattern escape => ((e.value m env).isLike pattern escape d).not
  | .isIn e ws => (e.value m env).isOneOf ws
  | .order e test w => (e.value m env).inOrder test w
  | .hasRow s => .ofBool (rows s env)

/-- The value of a conjunction. -/
def valueOfAll : List Predicate → Truth
  | [] => .yes
  | p :: ps => (value p).conj (valueOfAll ps)

/-- The value of a disjunction. -/
def valueOfAny : List Predicate → Truth
  | [] => .no
  | p :: ps => (value p).disj (valueOfAny ps)

end

variable {m d rows env}

theorem value_of_test? (h : test? d p = some (e, f)) :
    p.value m d rows env = f (e.value m env) := by
  cases p <;> simp only [test?, Option.some.injEq, Prod.mk.injEq, reduceCtorEq] at h <;>
    simp [value, ← h.1, ← h.2]

theorem valueOfAll_eq_yes {ps : List Predicate} :
    valueOfAll m d rows env ps = .yes ↔ ∀ p ∈ ps, p.value m d rows env = .yes := by
  induction ps with
  | nil => simp [valueOfAll]
  | cons p ps ih => simp [valueOfAll, Truth.conj_eq_yes, ih]

theorem valueOfAny_eq_yes {ps : List Predicate} :
    valueOfAny m d rows env ps = .yes ↔ ∃ p ∈ ps, p.value m d rows env = .yes := by
  induction ps with
  | nil => simp [valueOfAny]
  | cons p ps ih => simp [valueOfAny, Truth.disj_eq_yes, ih]

/-- A conjunction is true if all its parts are; one without parts is. -/
theorem value_all_eq_yes {ps : List Predicate} :
    (Predicate.all ps).value m d rows env = .yes ↔ ∀ p ∈ ps, p.value m d rows env = .yes := by
  cases ps with
  | nil => simp [Predicate.all, value]
  | cons p ps => simp only [Predicate.all, List.isEmpty_cons, Bool.false_eq_true, if_false, value,
      valueOfAll_eq_yes]

/-- A disjunction is true if one of its parts is, or if it has none. -/
theorem value_any_eq_yes {ps : List Predicate} :
    (Predicate.any ps).value m d rows env = .yes ↔
      ps = [] ∨ ∃ p ∈ ps, p.value m d rows env = .yes := by
  cases ps with
  | nil => simp [Predicate.any, value]
  | cons p ps => simp only [Predicate.any, List.isEmpty_cons, Bool.false_eq_true, if_false, value,
      valueOfAny_eq_yes, reduceCtorEq, false_or]

/-- **A predicate connects others** if it reads what they read and asks for what they ask for. -/
structure Connects (p : Predicate) (ps : List Predicate) : Prop where
  reads : ∀ s, s ∈ p.reads ↔ ∃ part ∈ ps, s ∈ part.reads
  subqueries : ∀ t, t ∈ p.subqueries ↔ ∃ part ∈ ps, t ∈ part.subqueries

theorem connects_all (ps : List Predicate) : (Predicate.all ps).Connects ps := by
  cases ps with
  | nil => exact ⟨by simp [Predicate.all, Predicate.reads], by simp [Predicate.all, subqueries]⟩
  | cons p ps => exact ⟨fun _ => mem_readsAll, fun _ => mem_subqueriesOfAll⟩

theorem connects_any (ps : List Predicate) : (Predicate.any ps).Connects ps := by
  cases ps with
  | nil => exact ⟨by simp [Predicate.any, Predicate.reads], by simp [Predicate.any, subqueries]⟩
  | cons p ps => exact ⟨fun _ => mem_readsAll, fun _ => mem_subqueriesOfAll⟩

theorem valueOfAll_eq_foldr (ps : List Predicate) :
    valueOfAll m d rows env ps = ps.foldr (fun p t => (p.value m d rows env).conj t) .yes := by
  induction ps with
  | nil => rfl
  | cons p ps ih => rw [valueOfAll, ih, List.foldr_cons]

theorem valueOfAny_eq_foldr (ps : List Predicate) :
    valueOfAny m d rows env ps = ps.foldr (fun p t => (p.value m d rows env).disj t) .no := by
  induction ps with
  | nil => rfl
  | cons p ps ih => rw [valueOfAny, ih, List.foldr_cons]

section Parts

variable {rows' : SubqueryId → Env → Bool} {env' : Env} {ps : List Predicate}
  {f : Predicate → Predicate}

/-- The value of a conjunction is the same where the values of its parts are. -/
theorem valueOfAll_map (h : ∀ p ∈ ps, (f p).value m d rows' env' = p.value m d rows env) :
    valueOfAll m d rows' env' (ps.map f) = valueOfAll m d rows env ps := by
  induction ps with
  | nil => rfl
  | cons p ps ih =>
    rw [List.map_cons, valueOfAll, valueOfAll, h p List.mem_cons_self,
      ih fun p' hp' => h p' (List.mem_cons_of_mem _ hp')]

/-- The value of a disjunction is the same where the values of its parts are. -/
theorem valueOfAny_map (h : ∀ p ∈ ps, (f p).value m d rows' env' = p.value m d rows env) :
    valueOfAny m d rows' env' (ps.map f) = valueOfAny m d rows env ps := by
  induction ps with
  | nil => rfl
  | cons p ps ih =>
    rw [List.map_cons, valueOfAny, valueOfAny, h p List.mem_cons_self,
      ih fun p' hp' => h p' (List.mem_cons_of_mem _ hp')]

end Parts

/-- **The value depends only on what is read**: the bindings of the sources that the predicate
reads, and the sub-queries that it asks for. -/
theorem value_congr {rows' : SubqueryId → Env → Bool} {env' : Env} (p : Predicate)
    (hs : ∀ s ∈ p.reads, env s = env' s)
    (hq : ∀ s ∈ p.subqueries, rows s env = rows' s env') :
    p.value m d rows env = p.value m d rows' env' := by
  have read : ∀ e : Expr, env e.source = env' e.source → e.value m env = e.value m env' := by
    intro e h
    simp [Expr.value, h]
  induction p using Predicate.induction d with
  | always => rfl
  | and ps ih =>
    have h := valueOfAll_map (f := id) fun p hp => ih p hp
      (fun s h => hs s (mem_readsAll.2 ⟨p, hp, h⟩))
      (fun s h => hq s (mem_subqueriesOfAll.2 ⟨p, hp, h⟩))
    rwa [List.map_id] at h
  | or ps ih =>
    have h := valueOfAny_map (f := id) fun p hp => ih p hp
      (fun s h => hs s (mem_readsAll.2 ⟨p, hp, h⟩))
      (fun s h => hq s (mem_subqueriesOfAll.2 ⟨p, hp, h⟩))
    rwa [List.map_id] at h
  | not p ih => exact congrArg Truth.not (ih hs hq)
  | test p e f h =>
    rw [value_of_test? h, value_of_test? h, read e (hs _ (by simp [reads_of_test? h]))]
  | equalExpr l r =>
    rw [value, value, read l (hs _ (by simp [reads])), read r (hs _ (by simp [reads]))]
  | hasRow s => simp only [value, hq s (by simp [subqueries])]

end Predicate

end EntityFilter
