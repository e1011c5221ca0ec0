import EntityFilter.Proofs.Predicate.Literals
import EntityFilter.Proofs.Store.Selection

/-!
# The literals of a query's text

The text of a query with a predicate shows what the predicate holds, and in the places where it asks
for sub-queries what the restrictions of these hold. What is read off it is what it shows exactly if
there is no quotation mark in a pattern or in an escape character.

* `Query.Holds`: what a predicate holds together with the restrictions.
* `Query.NamesUnquoted`: the names that a text shows have no quotation marks.
* `Query.renders_within`: the text of a predicate shows what it holds, down to a depth at which
  nothing is cut off.
* `Query.explain_literals`: what is read off the text of a query.
-/

namespace EntityFilter

open Text

/-- The name that a source is written with. -/
def Source.name (src : Source) : String :=
  match src.kind with
  | .root entity => entity
  | .join _ relation _ => relation.name

namespace Query

/-- **What a predicate holds together with the restrictions** of the sub-queries that it asks for,
each in the place where it is asked for. -/
inductive Holds (q : Query) : Predicate → List Literal → Prop
  | mk {p : Predicate} (inside : SubqueryId → List Literal)
      (h : ∀ s ∈ p.subqueries, Holds q (q.restriction s) (inside s)) :
      Holds q p (p.literals inside)

/-- **The names that a text shows have no quotation marks**: of entities, attributes and
enumerations with their constants. -/
structure NamesUnquoted (q : Query) (p : Predicate) : Prop where
  sources : ∀ {s src}, q.source? s = some src → Unquoted src.name
  restrictions : ∀ s, ∀ name ∈ (q.restriction s).names, Unquoted name
  predicate : ∀ name ∈ p.names, Unquoted name

theorem Holds.unique {q : Query} {p : Predicate} {ls ls' : List Literal} (h : q.Holds p ls)
    (h' : q.Holds p ls') : ls = ls' := by
  induction h generalizing ls' with
  | @mk p inside _ ih =>
    cases h' with
    | mk inside' h' => exact Predicate.literals_congr p fun s hs => ih s hs (h' s hs)

end Query

/-! ## Texts of queries -/

/-- A source is written without quotation marks. -/
theorem Source.unquoted_text {src : Source} (h : Unquoted src.name) (s : SourceId) :
    Unquoted (src.text s) := by
  have hs : Unquoted (sourceName s) := unquoted_sourceName s
  obtain ⟨kind, scope, active, referenced⟩ := src
  cases kind with
  | root entity =>
    have hentity : Unquoted entity := h
    have htext : Unquoted ("SELECT " ++ sourceName s ++ " FROM " ++ entity ++ " " ++ sourceName s) :=
      .append (.append (.append (.append (.append (by decide) hs) (by decide)) hentity)
        (by decide)) hs
    exact htext
  | join parent relation kind =>
    have hparent : Unquoted (sourceName parent) := unquoted_sourceName parent
    have hrelation : Unquoted relation.name := h
    have htext : ∀ word, Unquoted word → Unquoted
        (word ++ sourceName parent ++ "." ++ relation.name ++ " " ++ sourceName s) := by
      intro word hword
      exact .append (.append (.append (.append (.append hword hparent) (by decide)) hrelation)
        (by decide)) hs
    cases kind with
    | inner => exact htext " JOIN " (by decide)
    | left => exact htext " LEFT JOIN " (by decide)

namespace Query

variable {q : Query} {p : Predicate} {ls : List Literal} {s : SubqueryId} {depth : Nat}

theorem NamesUnquoted.restriction (h : q.NamesUnquoted p) (s : SubqueryId) :
    q.NamesUnquoted (q.restriction s) :=
  ⟨h.sources, h.restrictions, h.restrictions s⟩

/-- The sources of a selection are written without quotation marks. -/
theorem NamesUnquoted.selectText (h : q.NamesUnquoted p) (scope : Scope) :
    Unquoted (q.selectText scope) := by
  unfold Unquoted Query.selectText
  rw [String.toList_join]
  intro hmem
  obtain ⟨t, ht, hquote⟩ := List.mem_flatMap.1 hmem
  obtain ⟨s, hs, rfl⟩ := List.mem_map.1 ht
  obtain ⟨src, hsrc, -⟩ := mem_activeIn.1 hs
  rw [hsrc] at hquote
  exact src.unquoted_text (h.sources hsrc) s hquote

/-- What is shown behind the sources of a selection is what the whole shows. -/
theorem NamesUnquoted.renders_where (h : q.NamesUnquoted p) (scope : Scope) {t : String}
    (ht : Renders t ls) : Renders (q.selectText scope ++ " WHERE " ++ t) ls :=
  ht.after (.append (h.selectText scope) (by decide))

/-- The text of a sub-query shows what the text of its restriction shows. -/
theorem NamesUnquoted.renders_subqueryText (h : q.NamesUnquoted p)
    (ht : Renders ((q.restriction s).text (q.subqueryText depth)) ls) :
    Renders (q.subqueryText (depth + 1) s) ls := by
  have hwhere := h.renders_where (.subquery s) ht
  have hopened := hwhere.after (s := "(") (by decide)
  have hclosed := hopened.before (t := ")") (by decide)
  simpa only [subqueryText, String.append_assoc] using hclosed

/-- A sub-query that there is not has no restriction. -/
theorem restriction_of_le (h : q.nextSubquery ≤ s) : q.restriction s = .always := by
  rw [Query.restriction, List.getElem?_eq_none h]
  rfl

/-- A sub-query that there is not shows nothing. -/
theorem NamesUnquoted.renders_of_le (h : q.NamesUnquoted p) (hs : q.nextSubquery ≤ s) :
    q.Holds (q.restriction s) [] ∧ Renders (q.subqueryText depth s) [] := by
  rw [restriction_of_le hs]
  refine ⟨.mk (fun _ => []) fun _ ht => absurd ht List.not_mem_nil, ?_⟩
  cases depth with
  | zero =>
    have hempty : Unquoted "()" := by decide
    exact .bare hempty
  | succ depth =>
    have halways : Unquoted "1 = 1" := by decide
    refine h.renders_subqueryText ?_
    rw [restriction_of_le hs]
    exact .bare halways

/-- What a predicate holds is made up of what its sub-queries hold. -/
theorem NamesUnquoted.exists_holds (h : q.NamesUnquoted p)
    (hsub : ∀ s ∈ p.subqueries, ∃ ls, q.Holds (q.restriction s) ls ∧
      Renders (q.subqueryText depth s) ls) :
    ∃ ls, q.Holds p ls ∧ Renders (p.text (q.subqueryText depth)) ls := by
  choose! inside hholds hrenders using hsub
  exact ⟨p.literals inside, .mk inside hholds, p.renders_text h.predicate hrenders⟩

/-- **The text of a predicate shows what the predicate holds**, down to a depth at which nothing is
cut off. The sub-queries entered on the way to the predicate are all different. -/
theorem renders_within (hac : q.Acyclic) (hnames : q.NamesUnquoted p) (path : List SubqueryId)
    (hlen : path.length + depth = q.nextSubquery) (hnd : path.Nodup)
    (hlt : ∀ t ∈ path, t < q.nextSubquery)
    (hpath : ∀ t ∈ path, ∀ u ∈ p.subqueries, Relation.TransGen q.Refers t u) :
    ∃ ls, q.Holds p ls ∧ Renders (p.text (q.subqueryText depth)) ls := by
  induction depth generalizing p path with
  | zero =>
    -- all sub-queries of the query have been entered, so this one is none of them
    refine hnames.exists_holds fun u hu => ?_
    have hmissing : q.nextSubquery ≤ u := by
      refine Nat.le_of_not_lt fun hu' => ?_
      have hshort := (hac.length_lt hnd hlt hu' fun t ht => hpath t ht u hu).2
      omega
    exact ⟨[], hnames.renders_of_le hmissing⟩
  | succ depth ih =>
    refine hnames.exists_holds fun u hu => ?_
    by_cases hu' : u < q.nextSubquery
    · have hlen' : (u :: path).length + depth = q.nextSubquery := by
        rw [List.length_cons]
        omega
      have hnd' := (hac.length_lt hnd hlt hu' fun t ht => hpath t ht u hu).1
      -- what is asked for within the sub-query is reached from it and from all before it
      have hpath' : ∀ t ∈ u :: path, ∀ v ∈ (q.restriction u).subqueries,
          Relation.TransGen q.Refers t v := by
        intro t ht v hv
        rcases List.mem_cons.1 ht with rfl | ht
        · exact .single hv
        · exact (hpath t ht u hu).tail hv
      obtain ⟨ls, hholds, hrenders⟩ := ih (hnames.restriction u) (u :: path) hlen' hnd'
        (List.forall_mem_cons.2 ⟨hu', hlt⟩) hpath'
      exact ⟨ls, hholds, hnames.renders_subqueryText hrenders⟩
    · exact ⟨[], hnames.renders_of_le (Nat.le_of_not_lt hu')⟩

/-- **The literals of a query's text.** If the restrictions of its sub-queries do not refer to each
other in a circle, and no name has a quotation mark in it, then a predicate holds one list of text
values, patterns and escape characters, together with the restrictions that its text shows. What is
read off the text of the query with the predicate, by the rule that a literal runs from a quotation
mark to the next one that is not doubled, is this list exactly if no pattern and no escape character
in it has a quotation mark. -/
theorem explain_literals (hq : q.Acyclic) (hnames : q.NamesUnquoted p) :
    ∃ ls, (∀ ls', q.Holds p ls' ↔ ls' = ls) ∧
      (literals? (q.explain p) = some (ls.map Literal.text) ↔ ∀ l ∈ ls, l.Plain) := by
  have hlen : ([] : List SubqueryId).length + q.subqueries.length = q.nextSubquery :=
    Nat.zero_add _
  obtain ⟨ls, hholds, hrenders⟩ := renders_within hq hnames [] hlen List.nodup_nil (by simp)
    (by simp)
  have hexplain : Renders (q.explain p) ls := hnames.renders_where .outer hrenders
  refine ⟨ls, fun ls' => ⟨fun hholds' => hholds'.unique hholds, ?_⟩, hexplain.literals?_iff⟩
  rintro rfl
  exact hholds

end Query

namespace Shop

open Query

/-- Orders with a sub-query for their items, in which another one asks for a part. -/
def partsQuery : Query :=
  ((((recordsOf "Order").openSubquery "Item").openSubquery "Part").restrict 0
    (.and [.like (.column 1 "name") "a%" '\\', .hasRow 1])).restrict 1
      (.isIn (.column 2 "kind") [.int 2, .text "it's", .text ""])

/-- Orders with a name that have no such item. -/
def withoutParts : Predicate :=
  .and [.equal (.column 0 "name") (.text "o'neil"), .not (.hasRow 0)]

theorem partsQuery_literals :
    partsQuery.Acyclic ∧ partsQuery.NamesUnquoted withoutParts ∧
      partsQuery.Holds withoutParts
        [.value "o'neil", .pattern "a%", .escape '\\', .value "it's", .value ""] ∧
      literals? (partsQuery.explain withoutParts) = some ["o'neil", "a%", "\\", "it's", ""] := by
  have inner : ∀ s, (partsQuery.restriction s).subqueries = if s = 0 then [1] else [] := by
    rintro (_ | _ | s) <;> rfl
  have hacyclic : partsQuery.Acyclic := by
    refine acyclic_of_lt fun {s t} h => ?_
    rw [Refers, inner] at h
    split at h
    · rw [‹s = 0›, List.mem_singleton.1 h]
      exact Nat.zero_lt_one
    · cases h
  have hnames : partsQuery.NamesUnquoted withoutParts := by
    refine ⟨fun {s src} hsrc => ?_, ?_, by decide⟩
    · have hmem : src ∈ [⟨.root "Order", .outer, true, true⟩,
          ⟨.root "Item", .subquery 0, true, true⟩,
          ⟨.root "Part", .subquery 1, true, true⟩] := List.mem_of_getElem? hsrc
      simp only [List.mem_cons, List.not_mem_nil, or_false] at hmem
      rcases hmem with rfl | rfl | rfl <;> decide
    · rintro (_ | _ | s)
      · decide
      · decide
      · exact fun name hname => absurd hname List.not_mem_nil
  have hholds : partsQuery.Holds withoutParts
      [.value "o'neil", .pattern "a%", .escape '\\', .value "it's", .value ""] := by
    have hpart : partsQuery.Holds (partsQuery.restriction 1) [.value "it's", .value ""] :=
      .mk (fun _ => []) fun s hs => absurd hs List.not_mem_nil
    have hitem : partsQuery.Holds (partsQuery.restriction 0)
        [.pattern "a%", .escape '\\', .value "it's", .value ""] := by
      refine .mk (fun _ => [.value "it's", .value ""]) fun s hs => ?_
      obtain rfl := List.mem_singleton.1 hs
      exact hpart
    refine .mk (fun _ => [.pattern "a%", .escape '\\', .value "it's", .value ""]) fun s hs => ?_
    obtain rfl := List.mem_singleton.1 hs
    exact hitem
  obtain ⟨ls, hunique, hread⟩ := explain_literals hacyclic hnames
  obtain rfl := (hunique _).1 hholds
  exact ⟨hacyclic, hnames, hholds, hread.2 (by decide)⟩

/-- **A quotation mark in a pattern ends the literal**: what follows it is read as no part of the
pattern, and the last quotation mark begins a literal that does not end. -/
theorem pattern_misread :
    (recordsOf "Device").Acyclic ∧
      (recordsOf "Device").NamesUnquoted (.like (.column 0 "name") "o'n%" '\\') ∧
      (recordsOf "Device").Holds (.like (.column 0 "name") "o'n%" '\\')
        [.pattern "o'n%", .escape '\\'] ∧
      (recordsOf "Device").explain (.like (.column 0 "name") "o'n%" '\\') =
        "SELECT s0 FROM Device s0 WHERE s0.name LIKE 'o'n%' ESCAPE '\\'" ∧
      literals? ((recordsOf "Device").explain (.like (.column 0 "name") "o'n%" '\\')) = none := by
  have hnone : ∀ s, (recordsOf "Device").restriction s = .always := fun _ => rfl
  refine ⟨?_, ⟨fun {s src} hsrc => ?_, fun s => ?_, by decide⟩, ?_, by rfl, by rfl⟩
  · rintro s (h | ⟨_, h⟩) <;> simp [Refers, hnone, Predicate.subqueries] at h
  · obtain ⟨-, rfl⟩ := source?_recordsOf hsrc
    decide
  · rw [hnone]
    decide
  · exact .mk (fun _ => []) fun s hs => absurd hs List.not_mem_nil

end Shop

end EntityFilter
