import EntityFilter.Proofs.Store.Evaluation

/-!
# Flags of sources

A source carries two flags: whether it has not been dropped, and whether a predicate is known to
read it. The operations set the one and the other, and what keeps them in step is that both go up
from a source to its parent.

* `source_of_markReferenced`, `source_of_discardUnused`: what marking and dropping leave of a
  source.
* `ClosedUp`: a flag goes up to parents.
* `ClosedUp.of_new`, `ClosedUp.of_kept`: it does so still when a source is added, and where the flag
  is not touched.
* `ClosedUp.markReferenced`: marking takes the parents along.
* `ClosedUp.isUnused_of_parent`, `ClosedUp.discardUnused`: dropping takes what hangs below along.
* `ReadActive.markReferenced`, `ReadActive.discardUnused`: no source is both read and dropped, if
  only sources that are not dropped are marked.
-/

namespace EntityFilter.Query

variable {q q' : Query} {s t parent : SourceId} {src src' psrc new : Source}
  {flag : Source → Bool} {scope : Scope}

/-- Marking leaves all of a source as it was but the mark, which it sets on the lineage. -/
theorem source_of_markReferenced (h : (q.markReferenced s).source? t = some src') :
    ∃ src, q.source? t = some src ∧ src'.kind = src.kind ∧ src'.active = src.active ∧
      (src'.referenced ↔ src.referenced ∨ t ∈ q.lineage s) := by
  rw [source?_markReferenced] at h
  obtain ⟨src, hsrc, rfl⟩ := Option.map_eq_some_iff.1 h
  refine ⟨src, hsrc, ?_⟩
  split <;> simp_all

/-- Dropping leaves all of a source as it was but whether it is dropped. -/
theorem source_of_discardUnused (h : q.discardUnused.source? t = some src') :
    ∃ src, q.source? t = some src ∧ src'.kind = src.kind ∧ src'.referenced = src.referenced ∧
      (src'.active ↔ src.active ∧ ¬ src.isUnused) := by
  rw [source?_discardUnused] at h
  obtain ⟨src, hsrc, rfl⟩ := Option.map_eq_some_iff.1 h
  refine ⟨src, hsrc, ?_⟩
  split <;> simp_all

/-- The parent of a source that there is after another was added was there before. -/
theorem parent_of_new (hq' : q'.Arena)
    (hs : ∀ s, q'.source? s = if s = q.nextSource then some new else q.source? s)
    (h : q'.source? s = some src) (hp : src.parent? = some parent)
    (hps : q'.source? parent = some psrc) : q.source? parent = some psrc := by
  have hlt : parent < s := (hq'.parent h hp).1
  have hold : s ≤ q.nextSource := by
    rcases old_or_new hs h with h | ⟨rfl, -⟩
    · exact Nat.le_of_lt (source?_lt h)
    · exact Nat.le_refl _
  rcases old_or_new hs hps with hps | ⟨rfl, -⟩
  · exact hps
  · exact absurd hlt (Nat.not_lt_of_le hold)

theorem mem_unusedJoins_iff (hsrc : q.source? s = some src) :
    s ∈ q.unusedJoins ↔ src.isUnused := by
  simp [unusedJoins, mem_sourcesWhere, hsrc]

/-- The root is no join. -/
theorem root_not_unused (hq : q.Arena) : root ∉ q.unusedJoins := by
  obtain ⟨marked, hroot⟩ := hq.root
  rw [mem_unusedJoins_iff hroot]
  simp [Source.isUnused, Source.parent?]

/-! ## Flags that go up -/

/-- **A flag goes up to parents.** -/
def ClosedUp (q : Query) (flag : Source → Bool) : Prop :=
  ∀ ⦃s src parent psrc⦄, q.source? s = some src → flag src → src.parent? = some parent →
    q.source? parent = some psrc → flag psrc

/-- A new source may carry the flag if its parent does. -/
theorem ClosedUp.of_new (h : q.ClosedUp flag) (hq' : q'.Arena)
    (hs : ∀ s, q'.source? s = if s = q.nextSource then some new else q.source? s)
    (hnew : ∀ parent psrc, flag new → new.parent? = some parent → q.source? parent = some psrc →
      flag psrc) : q'.ClosedUp flag := by
  intro s src parent psrc hsrc hf hp hps
  have hps := parent_of_new hq' hs hsrc hp hps
  rcases old_or_new hs hsrc with hsrc | ⟨-, rfl⟩
  · exact h hsrc hf hp hps
  · exact hnew parent psrc hf hp hps

/-- What an operation does not touch goes up as before. -/
theorem ClosedUp.of_kept (h : q.ClosedUp flag)
    (hkept : ∀ {s src'}, q'.source? s = some src' →
      ∃ src, q.source? s = some src ∧ src'.kind = src.kind ∧ flag src' = flag src) :
    q'.ClosedUp flag := by
  intro s src' parent psrc' hsrc' hf hp hps'
  obtain ⟨src, hsrc, hkind, hflag⟩ := hkept hsrc'
  obtain ⟨psrc, hps, -, hpflag⟩ := hkept hps'
  rw [hpflag]
  exact h hsrc (hflag ▸ hf) (Source.parent?_congr hkind ▸ hp) hps

/-- **Marking takes the parents along.** -/
theorem ClosedUp.markReferenced (h : q.ClosedUp Source.referenced) (hq : q.Arena) (s : SourceId) :
    (q.markReferenced s).ClosedUp Source.referenced := by
  intro t src' parent psrc' hsrc' hr hp hps'
  obtain ⟨src, hsrc, hkind, -, href⟩ := source_of_markReferenced hsrc'
  obtain ⟨psrc, hps, -, -, hpref⟩ := source_of_markReferenced hps'
  rw [Source.parent?_congr hkind] at hp
  rw [hpref]
  -- a mark is an old one, or a new one on the lineage, which goes on to the parent
  rcases href.1 hr with hr | hr
  · exact Or.inl (h hsrc hr hp hps)
  · exact Or.inr (mem_lineage_parent hq hr hsrc hp)

/-- **What hangs below an unused join is one itself**, since what stands above a source that is read
is read, too. -/
theorem ClosedUp.isUnused_of_parent (h : q.ClosedUp Source.referenced) (hq : q.Arena)
    (hsrc : q.source? s = some src) (hp : src.parent? = some parent)
    (hps : q.source? parent = some psrc) (hunused : psrc.isUnused) : src.isUnused := by
  obtain ⟨-, psrc₀, hps₀, hscope⟩ := hq.parent hsrc hp
  obtain rfl : psrc₀ = psrc := Option.some.inj (hps₀.symm.trans hps)
  simp only [Source.isUnused, Bool.and_eq_true, beq_iff_eq, Bool.not_eq_true'] at hunused ⊢
  obtain ⟨⟨houter, -⟩, hnot⟩ := hunused
  refine ⟨⟨hscope ▸ houter, by rw [hp]; rfl⟩, ?_⟩
  cases href : src.referenced with
  | false => rfl
  | true => exact absurd (h hsrc href hp hps) (by simp [hnot])

/-- **Dropping takes what hangs below along.** -/
theorem ClosedUp.discardUnused (h : q.ClosedUp Source.active) (hr : q.ClosedUp Source.referenced)
    (hq : q.Arena) : q.discardUnused.ClosedUp Source.active := by
  intro t src' parent psrc' hsrc' ha hp hps'
  obtain ⟨src, hsrc, hkind, -, hact⟩ := source_of_discardUnused hsrc'
  obtain ⟨psrc, hps, -, -, hpact⟩ := source_of_discardUnused hps'
  obtain ⟨ha, hused⟩ := hact.1 ha
  rw [Source.parent?_congr hkind] at hp
  refine hpact.2 ⟨h hsrc ha hp hps, fun hunused => hused ?_⟩
  exact hr.isUnused_of_parent hq hsrc hp hps hunused

/-- What a source that is not dropped hangs below is not dropped, and belongs to the same
selection. -/
theorem lineage_active (hq : q.Arena) (hpar : q.ParentsActive) (hs : s ∈ q.activeIn scope) :
    ∀ a ∈ q.lineage s, a ∈ q.activeIn scope :=
  lineage_induction hs fun ht hsrc hp => (parent_mem_activeIn hq hpar ht hsrc hp).2

/-! ## What is read is not dropped -/

/-- **No source that is read is dropped.** -/
def ReadActive (q : Query) : Prop :=
  ∀ ⦃s src⦄, q.source? s = some src → src.referenced → src.active

theorem ReadActive.of_new (h : q.ReadActive)
    (hs : ∀ s, q'.source? s = if s = q.nextSource then some new else q.source? s)
    (hact : new.active) : q'.ReadActive := by
  intro s src hsrc hr
  rcases old_or_new hs hsrc with hsrc | ⟨-, rfl⟩
  · exact h hsrc hr
  · exact hact

/-- A source that is not dropped may be marked. -/
theorem ReadActive.markReferenced (h : q.ReadActive) (hq : q.Arena) (hpar : q.ParentsActive)
    (hs : s ∈ q.activeIn scope) : (q.markReferenced s).ReadActive := by
  intro t src' hsrc' hr
  obtain ⟨src, hsrc, -, hact, href⟩ := source_of_markReferenced hsrc'
  rw [hact]
  rcases href.1 hr with hr | hr
  · exact h hsrc hr
  · exact ((mem_activeIn_iff hsrc).1 (lineage_active hq hpar hs t hr)).2

/-- What is read is never unused. -/
theorem ReadActive.discardUnused (h : q.ReadActive) : q.discardUnused.ReadActive := by
  intro t src' hsrc' hr
  obtain ⟨src, hsrc, -, href, hact⟩ := source_of_discardUnused hsrc'
  rw [href] at hr
  exact hact.2 ⟨h hsrc hr, by simp [Source.isUnused, hr]⟩

end EntityFilter.Query
