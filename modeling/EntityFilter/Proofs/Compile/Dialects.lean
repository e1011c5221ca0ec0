import EntityFilter.Proofs.Compile.Texts
import EntityFilter.Proofs.Wildcard.Upper
import Mathlib.Data.List.Forall2

/-!
# Comparisons in two dialects

A comparison of a text may be compiled for one dialect and run on a store that reads it, or for the
other one. The queries are the same, and so are the predicates but for the pattern, if there is one.

* `Settings.inDialect`, `Context.inDialect`, `Store.inDialect`: the same with another dialect.
* `Predicate.ReadAlike`: predicates that come to the same on two stores.
* `Settings.equalTest_alike`: the tests for an argument are such, unless an opening bracket in the
  pattern is closed.
* `Context.select_inDialect`: so the same records are selected.
-/

namespace EntityFilter

open Query

/-- The settings for a dialect. -/
def Settings.inDialect (s : Settings) (d : Dialect) : Settings :=
  { s with dialect := d }

/-- A compilation for a dialect. -/
def Context.inDialect (ctx : Context) (d : Dialect) : Context :=
  { ctx with settings := ctx.settings.inDialect d }

/-- The same records in a store that reads patterns in a dialect. -/
def Store.inDialect (st : Store) (d : Dialect) : Store :=
  { st with dialect := d }

variable {m : Model} {st : Store} {d d' : Dialect} {q : Query} {v : String}

/-! ## Reading -/

/-- **Two predicates come to the same** on two stores: both fail, in the same way, or both have the
same truth. -/
def Predicate.ReadAlike (m : Model) (st st' : Store) (p p' : Predicate) : Prop :=
  ∀ (rows rows' : SubqueryId → Env → Except StoreError Bool) (env : Env),
    p.truth m st rows env = p'.truth m st' rows' env

namespace Predicate.ReadAlike

variable {st' : Store} {p p' : Predicate} {ps ps' : List Predicate}

/-- Tests of one expression are read alike if they agree on every value. -/
theorem test {e : Expr} {f f' : Value → Truth} (h : p.test? st.dialect = some (e, f))
    (h' : p'.test? st'.dialect = some (e, f')) (hf : ∀ w, f w = f' w) :
    ReadAlike m st st' p p' := by
  intro rows rows' env
  rw [truth_of_test? h, truth_of_test? h']
  simp only [hf]

/-- Conjunctions are read alike if their parts are. -/
theorem and (h : List.Forall₂ (ReadAlike m st st') ps ps') :
    ReadAlike m st st' (.and ps) (.and ps') := by
  intro rows rows' env
  rw [truth, truth]
  induction h with
  | nil => rfl
  | cons hp _ ih =>
    rw [truthOfAll, truthOfAll, hp rows rows' env, ih]

/-- Disjunctions are read alike if their parts are. -/
theorem or (h : List.Forall₂ (ReadAlike m st st') ps ps') :
    ReadAlike m st st' (.or ps) (.or ps') := by
  intro rows rows' env
  rw [truth, truth]
  induction h with
  | nil => rfl
  | cons hp _ ih =>
    rw [truthOfAny, truthOfAny, hp rows rows' env, ih]

end Predicate.ReadAlike

/-- What a source can be bound to has nothing to do with patterns. -/
theorem Query.allBindings_inDialect {α : Type} (visit : Env → Except StoreError (List α))
    (l : List SourceId) (env : Env) :
    q.allBindings (st.inDialect d) visit l env = q.allBindings st visit l env := by
  induction l generalizing env with
  | nil => rfl
  | cons s l ih =>
    have hcandidates : q.candidates (st.inDialect d) env s = q.candidates st env s := rfl
    simp only [allBindings, hcandidates, ih]

/-- **Predicates that are read alike select the same records**, or fail in the same way. -/
theorem Store.select_alike {p p' : Predicate}
    (h : Predicate.ReadAlike m (st.inDialect d) (st.inDialect d') p p') :
    select m (st.inDialect d) q p = select m (st.inDialect d') q p' := by
  have hselected : q.selected m (st.inDialect d) p = q.selected m (st.inDialect d') p' := by
    funext env
    unfold selected Query.truth
    rw [h _ (q.hasRow m (st.inDialect d') q.subqueries.length)]
  rw [select, select, hselected, allBindings_inDialect, allBindings_inDialect]

/-! ## Tests -/

namespace Settings

variable {s : Settings} {e : Expr}

/-- The patterns of an argument match the same texts, in upper case as well. -/
theorem matches_inDialect (s : Settings) (h : Wildcard.opensClass v = false) (text : String) :
    Like.matchesText text
        ((s.inDialect .sqlServer).caseText (Wildcard.toLike .sqlServer v)) escapeMark .sqlServer =
      Like.matchesText text
        ((s.inDialect .standard).caseText (Wildcard.toLike .standard v)) escapeMark .standard := by
  have hcase : ∀ d, (s.inDialect d).ignoreCase = s.ignoreCase := fun _ => rfl
  rw [caseText, caseText, hcase, hcase]
  split
  · rw [Wildcard.toLike_upper, Wildcard.toLike_upper]
    exact (Wildcard.matches_dialects_iff _).2 ((Wildcard.opensClass_upper v).trans h) text
  · exact (Wildcard.matches_dialects_iff v).2 h text

/-- **The tests for an argument are read alike** in the two dialects, unless they are patterns and
an opening bracket is closed. -/
theorem equalTest_alike (s : Settings) (e : Expr)
    (h : Wildcard.isPattern v = true → Wildcard.opensClass v = false) :
    Predicate.ReadAlike m (st.inDialect .sqlServer) (st.inDialect .standard)
      ((s.inDialect .sqlServer).equalTest e (.text v))
      ((s.inDialect .standard).equalTest e (.text v)) := by
  rw [equalTest, equalTest]
  by_cases hnum : Text.isNumeral v = true
  · rw [if_pos hnum, if_pos hnum]
    exact .test rfl rfl fun _ => rfl
  · rw [if_neg hnum, if_neg hnum]
    by_cases hv : v = ""
    · rw [if_pos hv, if_pos hv]
      exact .or (.cons (.test rfl rfl fun _ => rfl) (.cons (.test rfl rfl fun _ => rfl) .nil))
    · rw [if_neg hv, if_neg hv, textTest, textTest]
      by_cases hpat : Wildcard.isPattern v = true
      · rw [if_pos hpat, if_pos hpat]
        refine .test rfl rfl fun w => ?_
        exact congrArg (fun matched => if w.isNull then Truth.unknown else .ofBool matched)
          (matches_inDialect s (h hpat) w.asText)
      · rw [if_neg hpat, if_neg hpat]
        exact .test rfl rfl fun _ => rfl

/-- So are these tests on the entry of a map key. -/
theorem withKey_alike (s : Settings) (r : Reading) (key : Option String) {p p' : Predicate}
    (h : Predicate.ReadAlike m (st.inDialect .sqlServer) (st.inDialect .standard) p p') :
    Predicate.ReadAlike m (st.inDialect .sqlServer) (st.inDialect .standard)
      ((s.inDialect .sqlServer).withKey r key p) ((s.inDialect .standard).withKey r key p') := by
  have hkey : ∀ d, (s.inDialect d).keyTest r key = s.keyTest r key := fun _ => rfl
  have hself : ∀ t ∈ s.keyTest r key,
      Predicate.ReadAlike m (st.inDialect .sqlServer) (st.inDialect .standard) t t := by
    intro t ht
    unfold keyTest at ht
    split at ht
    · obtain rfl := List.mem_singleton.1 ht
      exact .test rfl rfl fun _ => rfl
    · cases ht
  rw [withKey, withKey, hkey, hkey]
  cases htests : s.keyTest r key with
  | nil => exact h
  | cons t ts =>
    rw [htests] at hself
    exact .and (List.rel_append (List.forall₂_same.2 hself) (.cons h .nil))

end Settings

/-! ## Selections -/

/-- **The dialect makes no difference unless a bracket is closed.** The pattern that an argument is
turned into matches the same texts in the two dialects exactly if no opening bracket of the argument
is closed later on. A comparison of a text with the argument compiles in both dialects, onto the
same query; and unless the argument has wildcards and such a bracket, on every store the two
predicates select the same records, or fail in the same way. -/
theorem Context.select_inDialect (ctx : Context) {selector : String} {r : ResolvedSelector}
    {terminal : Attribute} (v : String) (he : q.entity = ctx.schema.entity)
    (hresolve : ctx.schema.resolve selector = .ok r)
    (hending : (ctx.model.route (some ctx.schema.entity) r.navigation).ending = .ok terminal)
    (htype : ctx.model.comparedType? r.shape terminal = some .text)
    (hconv : r.field.converter = none) :
    ((∀ t, Like.matchesText t (Wildcard.toLike .sqlServer v) escapeMark .sqlServer =
        Like.matchesText t (Wildcard.toLike .standard v) escapeMark .standard) ↔
      Wildcard.opensClass v = false) ∧
    ∃ p p' q',
      q.compile (ctx.inDialect .sqlServer) (.compareOne .equal selector v) = (.ok p, q') ∧
      q.compile (ctx.inDialect .standard) (.compareOne .equal selector v) = (.ok p', q') ∧
      ((Wildcard.isPattern v = true → Wildcard.opensClass v = false) → ∀ st : Store,
        Store.select ctx.model (st.inDialect .sqlServer) q' p =
          Store.select ctx.model (st.inDialect .standard) q' p') := by
  have hplan := Schema.plan_text hresolve hending
    (Field.readArgument_text (v := v) (Or.inl htype) hconv) .equal
  generalize hjoins : (ctx.model.route (some ctx.schema.entity) r.navigation).joins = joins at hplan
  generalize hjoined : Progress.joinAll Query.root joins ⟨q, none, false⟩ = reached
  obtain ⟨last, joined⟩ := reached
  let reading := Reading.ofSource r.shape terminal last
  let test := fun d => (ctx.settings.inDialect d).withKey reading r.mapKey
    ((ctx.settings.inDialect d).equalTest reading.value (.text v))
  have hcompile : ∀ d, q.compile (ctx.inDialect d) (.compareOne .equal selector v) =
      (.ok (test d), (joined.query.markReferenced last).discardUnused) :=
    fun d => compile_inPlace (c := ⟨selector, Operator.equal.symbol, [v]⟩) he hplan hjoined rfl
  refine ⟨Wildcard.matches_dialects_iff v, test .sqlServer, test .standard, _,
    hcompile .sqlServer, hcompile .standard, fun h st => Store.select_alike ?_⟩
  exact Settings.withKey_alike ctx.settings reading r.mapKey
    (Settings.equalTest_alike ctx.settings reading.value h)

namespace Shop

theorem fiveStars_inDialect :
    ((∀ t, Like.matchesText t (Wildcard.toLike .sqlServer "5\\*_*") escapeMark .sqlServer =
        Like.matchesText t (Wildcard.toLike .standard "5\\*_*") escapeMark .standard) ↔
      Wildcard.opensClass "5\\*_*" = false) ∧
    ∃ p p' q',
      (recordsOf "Customer").compile (named.inDialect .sqlServer)
        (.compareOne .equal "name" "5\\*_*") = (.ok p, q') ∧
      (recordsOf "Customer").compile (named.inDialect .standard)
        (.compareOne .equal "name" "5\\*_*") = (.ok p', q') ∧
      ∀ st : Store, Store.select named.model (st.inDialect .sqlServer) q' p =
        Store.select named.model (st.inDialect .standard) q' p' := by
  have hresolve : named.schema.resolve "name" = .ok ⟨⟨byName, ["name"], none⟩, [], none⟩ := by rfl
  have hentity : (recordsOf "Customer").entity = named.schema.entity := rfl
  obtain ⟨hiff, p, p', q', hserver, hstandard, hselect⟩ :=
    named.select_inDialect (v := "5\\*_*") hentity hresolve rfl rfl rfl
  exact ⟨hiff, p, p', q', hserver, hstandard, hselect fun _ => by decide⟩

/-- One customer has the name of the class, the other one has a letter of it. -/
def lettered : Store :=
  ((Store.empty .standard).insert "Customer" 1
    (OrderedMap.ofList [("name", .scalar (.text "[ab]"))])).insert "Customer" 2
    (OrderedMap.ofList [("name", .scalar (.text "a"))])

/-- The clause for names that begin with the class. -/
def bracketed : Clause :=
  ⟨⟨⟨byName, ["name"], none⟩, [], none⟩, ⟨"name", .basic .text⟩, .equal, "[ab]*", .text "[ab]*",
    [.text "[ab]*"]⟩

/-- What the clause compiles to. -/
def beginsBracketed : Predicate := .like (.column 0 "name") "[ab]%" escapeMark

/-- **A bracket of the argument opens a class** in one dialect and stands for itself in the other
one. -/
theorem lettered_differ :
    (named.inDialect .sqlServer).Answers (lettered.inDialect .sqlServer)
        (.compareOne .equal "name" "[ab]*") [2] ∧
      (named.inDialect .standard).Answers (lettered.inDialect .standard)
        (.compareOne .equal "name" "[ab]*") [1] ∧
      Like.matchesText "a" (Wildcard.toLike .sqlServer "[ab]*") escapeMark .sqlServer ≠
        Like.matchesText "a" (Wildcard.toLike .standard "[ab]*") escapeMark .standard := by
  have hplan : ∀ d, (named.inDialect d).schema.plan (named.inDialect d).model
      ⟨"name", Operator.equal.symbol, ["[ab]*"]⟩ = ([], .ok bracketed) := fun _ => by rfl
  have hcompile : ∀ d, (recordsOf "Customer").compile (named.inDialect d)
      (.compareOne .equal "name" "[ab]*") = (.ok beginsBracketed, recordsOf "Customer") := by
    intro d
    cases d <;> exact Context.compile_local (hplan _) (by rfl)
  refine ⟨⟨_, _, hcompile .sqlServer, ?_⟩, ⟨_, _, hcompile .standard, ?_⟩, ?_⟩ <;> decide +kernel

end Shop

end EntityFilter
