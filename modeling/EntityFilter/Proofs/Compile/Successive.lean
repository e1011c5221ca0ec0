import EntityFilter.Proofs.Compile.Answers
import Mathlib.Data.List.Sort

/-!
# Compilations one after the other

Several filters may be compiled onto one query. Every compilation adds joins and sub-queries to
what the earlier ones have left, also when it fails, and in the end it drops joins.

* `Query.Succession`: a query that compilations reach, with the predicates that were returned and
  the queries that they were returned with.
* `Query.Settled`: a predicate means the same whatever is compiled later.
* `Query.Apart`: two predicates read nothing in common but the root.
* `Query.Succession.undisturbed`: no compilation changes the answer of a predicate that was returned
  before it, and predicates of different compilations select together what both of them select.
-/

namespace EntityFilter

/-- Ascending lists with the same members are the same. -/
theorem Ascending.eq_of_mem_iff {l l' : List Int} (h : Ascending id l) (h' : Ascending id l')
    (hmem : ∀ i, i ∈ l ↔ i ∈ l') : l = l' := by
  have hlt : ∀ {l : List Int}, Ascending id l → l.Pairwise (· < ·) := fun h =>
    h.imp fun hab => Std.compare_eq_lt.1 hab
  exact (hlt h).eq_of_mem_iff (hlt h') hmem

namespace Query

variable {m : Model} {st : Store} {q q' later : Query} {p p' : Predicate} {ctx : Context}
  {f : Filter} {log : List (Query × Predicate)} {entry entry' : Query × Predicate}

/-- The predicate that a compilation returns, if it does, with the query that it reaches. -/
def returned (q : Query) (ctx : Context) (f : Filter) : List (Query × Predicate) :=
  (q.compile ctx f).1.toOption.toList.map fun p => ((q.compile ctx f).2, p)

/-- **The queries that compilations over a model reach from the query of all records**, with the
predicates that they have returned on the way, the last one first. Every compilation may go by
another schema and other settings, and it may fail. -/
inductive Succession (m : Model) : Query → List (Query × Predicate) → Prop
  | start (entity : String) : Succession m (recordsOf entity) []
  | compile {q : Query} {log : List (Query × Predicate)} (ctx : Context) (f : Filter)
      (hm : ctx.model = m) (h : Succession m q log) :
      Succession m (q.compile ctx f).2 (q.returned ctx f ++ log)

theorem mem_returned (h : entry ∈ q.returned ctx f) :
    entry.1 = (q.compile ctx f).2 ∧ (q.compile ctx f).1 = .ok entry.2 := by
  obtain ⟨p, hp, rfl⟩ := List.mem_map.1 h
  refine ⟨rfl, ?_⟩
  rw [Option.mem_toList] at hp
  cases hc : (q.compile ctx f).1 with
  | error e => simp [hc, Except.toOption] at hp
  | ok p' =>
    obtain rfl : p' = p := by simpa [hc, Except.toOption] using hp
    rfl

/-- **A predicate means the same whatever is compiled later.** -/
def Settled (m : Model) (st : Store) (q : Query) (p : Predicate) : Prop :=
  ∀ later, later.Sound → q.Grows later → ∀ b ∈ st.rows q.entity,
    later.Sat m st p b ↔ q.Sat m st p b

/-- Two predicates read nothing in common but the root, nor do they below what they read. -/
def Apart (q : Query) (p p' : Predicate) : Prop :=
  ∀ t, q.Below p t → q.Below p' t → t = root

/-- Predicates stay apart. -/
theorem Apart.of_grows (h : q.Apart p p') (hq : q.Sound) (hp : q.Safe p) (hp' : q.Safe p')
    (hg : q.Grows q') : q'.Apart p p' := by
  intro t ht ht'
  rw [hp.below_iff hq hg] at ht
  rw [hp'.below_iff hq hg] at ht'
  exact h t ht ht'

/-! ## One compilation -/

/-- A compiled predicate reads joins of its own, and is settled. -/
theorem compile_settled (hq : q.Sound) (h : (q.compile ctx f).1 = .ok p) (st : Store) :
    (q.compile ctx f).2.Settled ctx.model st p := by
  obtain ⟨hsound, hgrows, -⟩ := compile_sound hq ctx f
  obtain ⟨he, -⟩ := Context.compile_ok h
  intro later hlater hg b hb
  rw [hgrows.entity.trans he] at hb
  rw [Context.compile_means hq h hlater hg hb, Context.compile_means hq h hsound (.refl _) hb]

/-- A compiled predicate reads the root and what the compilation has added. -/
theorem compile_within (hq : q.Sound) (h : (q.compile ctx f).1 = .ok p) :
    (q.compile ctx f).2.Within q.nextSource p := by
  obtain ⟨he, o, p', hrun, hcompile, rfl⟩ := Context.compile_ok h
  have hstart := ready_start ctx.model hq
  have hran := hrun.run hstart he
  have hgrows : p'.query.Grows p'.query.discardUnused := .discardUnused p'.query
  have hwithin := (hrun.proceeds hstart he).parted.within q.nextSource (Nat.le_refl _) (by
    simp [Progress.entries])
  rw [hcompile]
  intro t ht
  rw [(safe_getD hran.safe).below_iff hran.ready.sound hgrows] at ht
  cases o with
  | none =>
    obtain ⟨s, hs, -⟩ := ht
    simp [Predicate.reads] at hs
  | some part => exact hwithin part (by simp) t ht

/-! ## All compilations -/

/-- **What stays true of a predicate that was returned.** -/
structure Stands (m : Model) (q : Query) (entry : Query × Predicate) : Prop where
  sound : entry.1.Sound
  typed : entry.1.Typed m
  safe : entry.1.Safe entry.2
  grows : entry.1.Grows q
  settled : ∀ st, entry.1.Settled m st entry.2

theorem Stands.of_grows (h : Stands m q entry) (hg : q.Grows q') : Stands m q' entry :=
  ⟨h.sound, h.typed, h.safe, h.grows.trans hg, h.settled⟩

theorem Stands.safe_now (h : Stands m q entry) : q.Safe entry.2 :=
  h.safe.of_grows h.sound h.grows

/-- Every predicate that was returned stands, and two of different compilations are apart. -/
structure Standing (m : Model) (q : Query) (log : List (Query × Predicate)) : Prop where
  sound : q.Sound
  typed : q.Typed m
  stands : ∀ entry ∈ log, Stands m q entry
  apart : log.Pairwise fun entry entry' => q.Apart entry.2 entry'.2

/-- **A compilation, failed or not, leaves every predicate standing.** -/
theorem Standing.compile (h : Standing m q log) (ctx : Context) (f : Filter)
    (hm : ctx.model = m) : Standing m (q.compile ctx f).2 (q.returned ctx f ++ log) := by
  subst hm
  obtain ⟨hsound, hgrows, hsafe⟩ := compile_sound h.sound ctx f
  have htyped := compile_typed h.sound h.typed f
  have new : ∀ entry ∈ q.returned ctx f, Stands ctx.model (q.compile ctx f).2 entry := by
    rintro ⟨q', p⟩ hmem
    obtain ⟨rfl, hp⟩ := mem_returned hmem
    exact ⟨hsound, htyped, hsafe p hp, .refl _, compile_settled h.sound hp⟩
  refine ⟨hsound, htyped, fun entry hmem => ?_, List.pairwise_append.2 ⟨?_, ?_, ?_⟩⟩
  · rcases List.mem_append.1 hmem with hmem | hmem
    · exact new entry hmem
    · exact (h.stands entry hmem).of_grows hgrows
  · -- one compilation returns one predicate at most
    unfold returned
    cases (q.compile ctx f).1 <;> simp [Except.toOption]
  · refine h.apart.imp_of_mem fun {entry entry'} hmem hmem' hapart => ?_
    exact hapart.of_grows h.sound (h.stands entry hmem).safe_now (h.stands entry' hmem').safe_now
      hgrows
  · -- what is new reads joins of its own
    intro entry hmem entry' hmem' t ht ht'
    have hwithin := compile_within h.sound (mem_returned hmem).2
    exact (h.stands entry' hmem').safe_now.parts h.sound hgrows hwithin ht' ht

theorem Succession.standing (h : Succession m q log) : Standing m q log := by
  induction h with
  | start entity => exact ⟨sound_recordsOf entity, typed_recordsOf m entity, by simp, .nil⟩
  | compile ctx f hm _ ih => exact ih.compile ctx f hm

/-- What two queries say alike of every record, they select alike. -/
theorem selectDistinct_congr (hst : st.WellFormed m) (hq : q.Sound) (ht : q.Typed m)
    (hp : q.Safe p) (hq' : q'.Sound) (ht' : q'.Typed m) (hp' : q'.Safe p)
    (he : q'.entity = q.entity)
    (hsat : ∀ b ∈ st.rows q.entity, q'.Sat m st p b ↔ q.Sat m st p b) :
    ∃ ids, Store.selectDistinct m st q p = .ok ids ∧ Store.selectDistinct m st q' p = .ok ids := by
  obtain ⟨ids, hids, hasc, hmem⟩ := Store.selectDistinct_safe hst hq ht hp
  obtain ⟨ids', hids', hasc', hmem'⟩ := Store.selectDistinct_safe hst hq' ht' hp'
  have heq : ids' = ids := by
    refine hasc'.eq_of_mem_iff hasc fun id => ?_
    rw [hmem, hmem', he]
    exact exists_congr fun record => and_congr_right fun hrecord =>
      hsat _ (Store.mem_rows.2 hrecord)
  exact ⟨ids, hids, heq ▸ hids'⟩

/-- Predicates that are apart select together what both of them select. -/
theorem selectDistinct_both (hst : st.WellFormed m) (hq : q.Sound) (ht : q.Typed m)
    (hp : q.Safe p) (hp' : q.Safe p') (hapart : q.Apart p p') :
    ∃ ids ids' both, Store.selectDistinct m st q p = .ok ids ∧
      Store.selectDistinct m st q p' = .ok ids' ∧
      Store.selectDistinct m st q (.and [p, p']) = .ok both ∧
      ∀ id, id ∈ both ↔ id ∈ ids ∧ id ∈ ids' := by
  have hparts : ∀ part ∈ [p, p'], q.Safe part := by simp [hp, hp']
  have hboth : q.Safe (.all [p, p']) := .connect (Predicate.connects_all _) hparts
  have hpart : [p, p'].Pairwise fun p p' => ∀ t, q.Below p t → q.Below p' t → t = root := by
    simpa [Apart] using hapart
  obtain ⟨ids, hids, -, hmem⟩ := Store.selectDistinct_safe hst hq ht hp
  obtain ⟨ids', hids', -, hmem'⟩ := Store.selectDistinct_safe hst hq ht hp'
  obtain ⟨both, hselect, -, hmemBoth⟩ := Store.selectDistinct_safe hst hq ht hboth
  refine ⟨ids, ids', both, hids, hids', hselect, fun id => ?_⟩
  rw [hmem, hmem', hmemBoth]
  cases hrecord : st.record? q.entity id with
  | none => simp
  | some record =>
    have hall := sat_all (m := m) hq (Store.mem_rows.2 hrecord) hparts hpart
    simp [hall]

/-- **Compilations onto one query do not disturb each other.** On a well-formed store every
predicate that was returned on the way, by compilations that may fail in between, selects the
records that it selected when it was returned. Any two predicates of different compilations, in
whatever order they are put, select together the records that both of them select. -/
theorem Succession.undisturbed (h : Succession m q log) (hst : st.WellFormed m) :
    (∀ entry ∈ log, ∃ ids, Store.selectDistinct m st entry.1 entry.2 = .ok ids ∧
      Store.selectDistinct m st q entry.2 = .ok ids) ∧
    log.Pairwise fun entry entry' => ∃ ids ids' both both',
      Store.selectDistinct m st q entry.2 = .ok ids ∧
      Store.selectDistinct m st q entry'.2 = .ok ids' ∧
      Store.selectDistinct m st q (.and [entry.2, entry'.2]) = .ok both ∧
      Store.selectDistinct m st q (.and [entry'.2, entry.2]) = .ok both' ∧
      ∀ id, (id ∈ both ↔ id ∈ ids ∧ id ∈ ids') ∧ (id ∈ both' ↔ id ∈ ids ∧ id ∈ ids') := by
  obtain ⟨hsound, htyped, hstands, hapart⟩ := h.standing
  refine ⟨fun entry hmem => ?_, hapart.imp_of_mem fun {entry entry'} hmem hmem' hpart => ?_⟩
  · have hentry := hstands entry hmem
    exact selectDistinct_congr hst hentry.sound hentry.typed hentry.safe hsound htyped
      hentry.safe_now hentry.grows.entity (hentry.settled st q hsound hentry.grows)
  · have hsafe := (hstands entry hmem).safe_now
    have hsafe' := (hstands entry' hmem').safe_now
    obtain ⟨ids, ids', both, hids, hids', hboth, hmemBoth⟩ :=
      selectDistinct_both hst hsound htyped hsafe hsafe' hpart
    obtain ⟨ids₂, ids₂', both', hids₂', hids₂, hboth', hmemBoth'⟩ :=
      selectDistinct_both hst hsound htyped hsafe' hsafe fun t ht ht' => hpart t ht' ht
    obtain rfl := Except.ok.inj (hids.symm.trans hids₂)
    obtain rfl := Except.ok.inj (hids'.symm.trans hids₂')
    refine ⟨_, _, both, both', hids, hids', hboth, hboth', fun id => ⟨hmemBoth id, ?_⟩⟩
    rw [hmemBoth', and_comm]

end Query

namespace Shop

open Query

/-- One more comparison, compiled after the disjunction. -/
def two : Filter := .compareOne .equal "item.qty" "2"

/-- What the compilations of all three reach. -/
def reachedLast : Query := (reached.compile context two).2

/-- The predicate of the comparison. -/
def twoTest : Predicate := .equal (.column 5 "qty") (.text "2")

theorem reachedLast_undisturbed :
    Succession model reachedLast [(reachedLast, twoTest), (reached, itemTests)] ∧
      (∃ ids, Store.selectDistinct model store reached itemTests = .ok ids ∧
        Store.selectDistinct model store reachedLast itemTests = .ok ids) ∧
      ∃ ids ids' both, Store.selectDistinct model store reachedLast twoTest = .ok ids ∧
        Store.selectDistinct model store reachedLast itemTests = .ok ids' ∧
        Store.selectDistinct model store reachedLast (.and [twoTest, itemTests]) = .ok both ∧
        ∀ id, id ∈ both ↔ id ∈ ids ∧ id ∈ ids' := by
  have h : Succession model reachedLast [(reachedLast, twoTest), (reached, itemTests)] := by
    have h := Succession.compile context two rfl (.compile context twoOrNotThree rfl
      (.compile context failing rfl (.start "Order")))
    have hlog : returned reached context two ++
        (returned ((recordsOf "Order").compile context failing).2 context twoOrNotThree ++
          (returned (recordsOf "Order") context failing ++ [])) =
        [(reachedLast, twoTest), (reached, itemTests)] := by decide +kernel
    exact hlog ▸ h
  obtain ⟨hall, hpairs⟩ := h.undisturbed store_wellFormed
  obtain ⟨ids, ids', both, both', hids, hids', hboth, -, hmem⟩ :=
    (List.pairwise_cons.1 hpairs).1 (reached, itemTests) List.mem_cons_self
  exact ⟨h, hall (reached, itemTests) (by simp), ids, ids', both, hids, hids', hboth,
    fun id => (hmem id).1⟩

end Shop

end EntityFilter
