import EntityFilter.Proofs.Predicate.Value
import EntityFilter.Proofs.Text.Literals
import EntityFilter.Proofs.Text.Numeral
import EntityFilter.Query.Text
import Mathlib.Data.List.Forall2

/-!
# The literals of a predicate's text

The text of a predicate shows, in quotation marks, the text values, the patterns and the escape
characters that the predicate holds. Text values are quoted; patterns and escape characters stand
between the quotation marks as they are.

* `Literal`, `Predicate.literals`: what a predicate holds, in order, given what sub-queries hold.
* `Predicate.names`: the names that it is written with.
* `Renders`: a text shows literals. It has the quotation marks that they are written with, and a
  reading that meets the text gives them, if they are to be read at all.
* `Renders.literals?_iff`: which literals are to be read.
* `Predicate.renders_text`: the text of a predicate shows what the predicate holds.
-/

namespace EntityFilter

open Text

/-- **What a text shows in quotation marks.** -/
inductive Literal
  | value (s : String)
  | pattern (s : String)
  | escape (c : Char)

namespace Literal

/-- What a literal is to be read as. -/
def text : Literal → String
  | value s => s
  | pattern s => s
  | escape c => String.singleton c

/-- How a literal is written. -/
def written : Literal → String
  | value s => quoted s
  | pattern s => enclosed s
  | escape c => enclosed (String.singleton c)

/-- **A literal that may be written as it is, or is quoted.** -/
def Plain : Literal → Prop
  | value _ => True
  | pattern s => Unquoted s
  | escape c => c ≠ quoteMark

instance (l : Literal) : Decidable l.Plain :=
  match l with
  | value _ => inferInstanceAs (Decidable True)
  | pattern s => inferInstanceAs (Decidable (Unquoted s))
  | escape c => inferInstanceAs (Decidable (c ≠ quoteMark))

variable {l : Literal}

theorem plain_escape {c : Char} : Unquoted (String.singleton c) ↔ c ≠ quoteMark := by
  simp [Unquoted, eq_comm]

/-- Plain literals are written as text values are. -/
theorem Plain.written (h : l.Plain) : l.written = quoted l.text := by
  cases l with
  | value s => rfl
  | pattern s => exact enclosed_of_unquoted h
  | escape c => exact enclosed_of_unquoted (plain_escape.2 h)

/-- **A literal that has all the quotation marks** that it has when it is quoted is plain; the others
have fewer. -/
theorem count_written (l : Literal) :
    l.written.toList.count quoteMark ≤ (quoted l.text).toList.count quoteMark ∧
      (l.written.toList.count quoteMark = (quoted l.text).toList.count quoteMark → l.Plain) := by
  have raw : ∀ s, (enclosed s).toList.count quoteMark ≤ (quoted s).toList.count quoteMark ∧
      ((enclosed s).toList.count quoteMark = (quoted s).toList.count quoteMark → Unquoted s) := by
    intro s
    rw [count_enclosed, count_quoted]
    refine ⟨by omega, fun h => ?_⟩
    have hzero : s.toList.count quoteMark = 0 := by omega
    exact List.count_eq_zero.1 hzero
  cases l with
  | value s => exact ⟨Nat.le_refl _, fun _ => trivial⟩
  | pattern s => exact raw s
  | escape c =>
    obtain ⟨hle, heq⟩ := raw (String.singleton c)
    exact ⟨hle, fun h => plain_escape.1 (heq h)⟩

/-- Literals are plain that have together all the quotation marks that they have when they are
quoted. -/
theorem count_writtenAll (ls : List Literal) :
    (ls.flatMap fun l => l.written.toList).count quoteMark ≤
        ((ls.map text).flatMap fun t => (quoted t).toList).count quoteMark ∧
      ((ls.flatMap fun l => l.written.toList).count quoteMark =
        ((ls.map text).flatMap fun t => (quoted t).toList).count quoteMark →
          ∀ l ∈ ls, l.Plain) := by
  induction ls with
  | nil => simp
  | cons l ls ih =>
    obtain ⟨hfirst, hplain⟩ := count_written l
    obtain ⟨hrest, hplains⟩ := ih
    simp only [List.map_cons, List.flatMap_cons, List.count_append]
    refine ⟨by omega, fun h => ?_⟩
    -- neither the first literal nor the others can make up for what is missing elsewhere
    exact List.forall_mem_cons.2 ⟨hplain (by omega), hplains (by omega)⟩

end Literal

/-! ## What predicates hold and show -/

/-- The text of a text value. -/
def Value.literals : Value → List Literal
  | text s => [.value s]
  | _ => []

/-- The names that a value is written with. -/
def Value.names : Value → List String
  | constant variant enumeration => [variant, enumeration]
  | _ => []

/-- The names that an expression is written with. -/
def Expr.names : Expr → List String
  | column _ name => [name]
  | upper e => e.names
  | _ => []

namespace Predicate

mutual

/-- **What a predicate holds in quotation marks**, in order, given what sub-queries hold. -/
def literals (inside : SubqueryId → List Literal) : Predicate → List Literal
  | and ps => literalsOfAll inside ps
  | or ps => literalsOfAll inside ps
  | not p => p.literals inside
  | equal _ v => v.literals
  | notEqual _ v => v.literals
  | like _ pattern escape => [.pattern pattern, .escape escape]
  | notLike _ pattern escape => [.pattern pattern, .escape escape]
  | isIn _ vs => vs.flatMap Value.literals
  | order _ _ v => v.literals
  | hasRow s => inside s
  | _ => []

/-- What the predicates of a list hold. -/
def literalsOfAll (inside : SubqueryId → List Literal) : List Predicate → List Literal
  | [] => []
  | p :: ps => p.literals inside ++ literalsOfAll inside ps

end

mutual

/-- The names that a predicate is written with. -/
def names : Predicate → List String
  | always => []
  | and ps => namesOfAll ps
  | or ps => namesOfAll ps
  | not p => p.names
  | isNull e => e.names
  | isNotNull e => e.names
  | equal e v => e.names ++ v.names
  | notEqual e v => e.names ++ v.names
  | equalExpr l r => l.names ++ r.names
  | like e _ _ => e.names
  | notLike e _ _ => e.names
  | isIn e vs => e.names ++ vs.flatMap Value.names
  | order e _ v => e.names ++ v.names
  | hasRow _ => []

/-- The names that the predicates of a list are written with. -/
def namesOfAll : List Predicate → List String
  | [] => []
  | p :: ps => p.names ++ namesOfAll ps

end

mutual

/-- What a predicate holds depends on what the sub-queries hold that it asks for. -/
theorem literals_congr {inside inside' : SubqueryId → List Literal} (p : Predicate)
    (h : ∀ s ∈ p.subqueries, inside s = inside' s) : p.literals inside = p.literals inside' := by
  match p with
  | and ps => exact literalsOfAll_congr ps h
  | or ps => exact literalsOfAll_congr ps h
  | not p => exact literals_congr p h
  | hasRow s => exact h s (List.mem_singleton_self s)
  | always | isNull _ | isNotNull _ | equal _ _ | notEqual _ _ | equalExpr _ _ | like _ _ _
  | notLike _ _ _ | isIn _ _ | order _ _ _ => rfl

theorem literalsOfAll_congr {inside inside' : SubqueryId → List Literal} (ps : List Predicate)
    (h : ∀ s ∈ subqueriesOfAll ps, inside s = inside' s) :
    literalsOfAll inside ps = literalsOfAll inside' ps := by
  match ps with
  | [] => rfl
  | p :: ps =>
    obtain ⟨hp, hps⟩ := List.forall_mem_append.1 h
    rw [literalsOfAll, literalsOfAll, literals_congr p hp, literalsOfAll_congr ps hps]

end

end Predicate

/-! ## Texts that show literals -/

/-- **A text shows literals.** It has the quotation marks that these are written with; and if they
are plain, a reading that meets the text gives them and goes on behind it, unless it is a quotation
mark that it goes on with. -/
structure Renders (s : String) (ls : List Literal) : Prop where
  count : s.toList.count quoteMark = (ls.flatMap fun l => l.written.toList).count quoteMark
  reads : (∀ l ∈ ls, l.Plain) → ∀ rest : List Char, rest.head? ≠ some quoteMark →
    literalsFrom .outside (s.toList ++ rest) =
      (literalsFrom .outside rest).map (ls.map Literal.text ++ ·)

namespace Renders

variable {s t sep : String} {ls ms : List Literal}

theorem bare (h : Unquoted s) : Renders s [] where
  count := List.count_eq_zero.2 h
  reads := by
    intro _ rest _
    rw [literalsFrom_bare h]
    simp

/-- What is written of a literal shows it. -/
theorem written (l : Literal) : Renders l.written [l] where
  count := by simp
  reads := by
    intro hplain rest hrest
    rw [(hplain l (List.mem_singleton_self l)).written, literalsFrom_quoted l.text hrest]
    rfl

/-- Text without quotation marks may stand before. -/
theorem after (hs : Unquoted s) (h : Renders t ls) : Renders (s ++ t) ls where
  count := by
    rw [String.toList_append, List.count_append, List.count_eq_zero.2 hs, Nat.zero_add, h.count]
  reads := by
    intro hplain rest hrest
    rw [String.toList_append, List.append_assoc, literalsFrom_bare hs, h.reads hplain rest hrest]

/-- Literals of two texts, one after the other, are shown if the second text does not begin with a
quotation mark. -/
theorem append (h : Renders s ls) (h' : Renders t ms) (ht : t.toList.head? ≠ some quoteMark) :
    Renders (s ++ t) (ls ++ ms) where
  count := by
    rw [String.toList_append, List.count_append, h.count, h'.count, List.flatMap_append,
      List.count_append]
  reads := by
    intro hplain rest hrest
    obtain ⟨hls, hms⟩ := List.forall_mem_append.1 hplain
    -- behind the first text stands the second one, or what comes later if that is empty
    have hnext : (t.toList ++ rest).head? ≠ some quoteMark := by
      cases hl : t.toList with
      | nil => simpa using hrest
      | cons c cs => simpa [hl] using ht
    rw [String.toList_append, List.append_assoc, h.reads hls _ hnext, h'.reads hms rest hrest,
      Option.map_map]
    congr 1
    funext ts
    simp

/-- Text without quotation marks may stand behind. -/
theorem before (h : Renders s ls) (ht : Unquoted t) : Renders (s ++ t) ls := by
  have hhead : t.toList.head? ≠ some quoteMark := fun hc => ht (List.mem_of_head? hc)
  simpa using h.append (bare ht) hhead

/-- Two texts may be separated by text without quotation marks. -/
theorem separated (h : Renders s ls) (h' : Renders t ms) (hsep : Unquoted sep) (hne : sep ≠ "") :
    Renders (s ++ sep ++ t) (ls ++ ms) := by
  rw [String.append_assoc]
  refine h.append (h'.after hsep) ?_
  rw [String.toList_append]
  cases hl : sep.toList with
  | nil => exact absurd (String.toList_eq_nil_iff.1 hl) hne
  | cons c cs =>
    have hc : c ≠ quoteMark := by
      rintro rfl
      exact hsep (hl ▸ List.mem_cons_self)
    simpa using hc

/-- **Texts in parentheses** show what they show one after the other. -/
theorem grouped {texts : List String} {lss : List (List Literal)} (hsep : Unquoted sep)
    (hne : sep ≠ "") (h : List.Forall₂ Renders texts lss) :
    Renders (grouped sep texts) lss.flatten := by
  have hjoined : Renders (sep.intercalate texts) lss.flatten := by
    induction h with
    | nil =>
      have hempty : Unquoted "" := by decide
      exact bare hempty
    | @cons t ls texts lss ht hrest ih =>
      cases hrest with
      | nil => simpa using ht
      | cons _ _ =>
        -- the separator keeps the quotation marks of one text from those of the next
        rw [String.intercalate_cons_cons]
        exact ht.separated ih hsep hne
  have hopened : Renders ("(" ++ sep.intercalate texts) lss.flatten := hjoined.after (by decide)
  exact hopened.before (by decide)

end Renders

/-- **What is read off a text is what it shows exactly if the literals that it shows are plain.** -/
theorem Renders.literals?_iff {s : String} {ls : List Literal} (h : Renders s ls) :
    literals? s = some (ls.map Literal.text) ↔ ∀ l ∈ ls, l.Plain := by
  constructor
  · intro hread
    have hcount := count_of_literalsFrom hread
    rw [h.count] at hcount
    exact (Literal.count_writtenAll ls).2 hcount
  · intro hplain
    have hreads := h.reads hplain [] (by simp)
    rw [List.append_nil] at hreads
    rw [literals?, hreads, literalsFrom]
    simp

theorem unquoted_toString (n : Int) : Unquoted (toString n) := by
  obtain ⟨digits, -, hdigits, hwritten⟩ := toString_digits n
  have hfree : quoteMark ∉ digits := fun h => absurd (hdigits _ h) (by decide)
  unfold Unquoted
  rcases hwritten with h | h
  · rw [h]
    exact hfree
  · rw [h]
    exact fun hmem => (List.mem_cons.1 hmem).elim (by decide) hfree

theorem unquoted_sourceName (s : SourceId) : Unquoted (sourceName s) := by
  have hnumber : Unquoted (toString (s : Int)) := unquoted_toString s
  exact .append (by decide) hnumber

theorem Expr.unquoted_text {e : Expr} (h : ∀ name ∈ e.names, Unquoted name) : Unquoted e.text := by
  induction e with
  | column s name =>
    have hname : Unquoted name := h name (List.mem_singleton_self name)
    exact .append (.append (unquoted_sourceName s) (by decide)) hname
  | element s => exact unquoted_sourceName s
  | mapKey s => exact .append (.append (by decide) (unquoted_sourceName s)) (by decide)
  | mapValue s => exact .append (.append (by decide) (unquoted_sourceName s)) (by decide)
  | upper e ih => exact .append (.append (by decide) (ih h)) (by decide)

/-- A value shows its text, if it is one. -/
theorem Value.renders_literal {v : Value} (h : ∀ name ∈ v.names, Unquoted name) :
    Renders v.literal v.literals := by
  cases v with
  | null => exact .bare (by decide)
  | bool b => cases b <;> exact .bare (by decide)
  | int n => exact .bare (unquoted_toString n)
  | text s => exact .written (.value s)
  | constant variant enumeration =>
    have hvariant : Unquoted variant := h _ (by simp [names])
    have henumeration : Unquoted enumeration := h _ (by simp [names])
    exact .bare (.append (.append henumeration (by decide)) hvariant)

/-- A LIKE test shows its pattern and its escape character. -/
theorem Expr.renders_likeText {e : Expr} {word : String} (h : ∀ name ∈ e.names, Unquoted name)
    (hword : Unquoted word) (pattern : String) (escape : Char) :
    Renders (e.likeText word pattern escape) [.pattern pattern, .escape escape] := by
  have hbefore : Unquoted (e.text ++ word) := .append (unquoted_text h) hword
  have hpattern := (Renders.written (.pattern pattern)).after hbefore
  exact hpattern.separated (.written (.escape escape)) (by decide) (by decide)

theorem OrderTest.unquoted_symbol (test : OrderTest) : Unquoted test.symbol := by
  cases test <;> decide

namespace Predicate

variable {subquery : SubqueryId → String} {inside : SubqueryId → List Literal}

theorem literalsOfAll_eq (ps : List Predicate) :
    literalsOfAll inside ps = (ps.map (literals inside)).flatten := by
  induction ps with
  | nil => rfl
  | cons p ps ih => rw [literalsOfAll, ih]; rfl

/-- A negation is written around its part, unless this asks for a row of a sub-query. -/
theorem text_not {p : Predicate} (h : ∀ s, p ≠ hasRow s) :
    (not p).text subquery = "NOT (" ++ p.text subquery ++ ")" := by
  cases p with
  | hasRow s => exact absurd rfl (h s)
  | _ => rfl

mutual

/-- **The text of a predicate shows what the predicate holds**, if the texts of the sub-queries that
it asks for show what these hold. -/
theorem renders_text (p : Predicate) (hnames : ∀ name ∈ p.names, Unquoted name)
    (hsub : ∀ s ∈ p.subqueries, Renders (subquery s) (inside s)) :
    Renders (p.text subquery) (p.literals inside) := by
  match p with
  | always =>
    have halways : Unquoted "1 = 1" := by decide
    exact .bare halways
  | and ps =>
    have hparts := renders_texts ps hnames hsub
    rw [literals, literalsOfAll_eq]
    exact .grouped (by decide) (by decide) hparts
  | or ps =>
    have hparts := renders_texts ps hnames hsub
    rw [literals, literalsOfAll_eq]
    exact .grouped (by decide) (by decide) hparts
  | not p =>
    -- what asks for a row is negated without parentheses
    by_cases hrow : ∃ s, p = hasRow s
    · obtain ⟨s, rfl⟩ := hrow
      have hbefore : Unquoted "NOT EXISTS " := by decide
      exact .after hbefore (hsub s (List.mem_singleton_self s))
    · have hpart := renders_text p hnames hsub
      have hopened : Renders ("NOT (" ++ p.text subquery) (p.literals inside) :=
        hpart.after (by decide)
      rw [text_not fun s hs => hrow ⟨s, hs⟩]
      exact hopened.before (by decide)
  | isNull e => exact .bare (.append (Expr.unquoted_text hnames) (by decide))
  | isNotNull e => exact .bare (.append (Expr.unquoted_text hnames) (by decide))
  | equal e v =>
    obtain ⟨he, hv⟩ := List.forall_mem_append.1 hnames
    exact .after (.append (Expr.unquoted_text he) (by decide)) (Value.renders_literal hv)
  | notEqual e v =>
    obtain ⟨he, hv⟩ := List.forall_mem_append.1 hnames
    exact .after (.append (Expr.unquoted_text he) (by decide)) (Value.renders_literal hv)
  | equalExpr l r =>
    obtain ⟨hl, hr⟩ := List.forall_mem_append.1 hnames
    exact .bare (.append (.append (Expr.unquoted_text hl) (by decide)) (Expr.unquoted_text hr))
  | like e pattern escape => exact Expr.renders_likeText hnames (by decide) pattern escape
  | notLike e pattern escape => exact Expr.renders_likeText hnames (by decide) pattern escape
  | isIn e vs =>
    obtain ⟨he, hvs⟩ := List.forall_mem_append.1 hnames
    have hvalues : List.Forall₂ Renders (vs.map Value.literal) (vs.map Value.literals) := by
      rw [List.forall₂_map_left_iff, List.forall₂_map_right_iff, List.forall₂_same]
      intro v hv
      exact Value.renders_literal fun name hname => hvs name (List.mem_flatMap.2 ⟨v, hv, hname⟩)
    have hgroup : Renders (grouped ", " (vs.map Value.literal)) (vs.map Value.literals).flatten :=
      .grouped (by decide) (by decide) hvalues
    exact .after (.append (Expr.unquoted_text he) (by decide)) hgroup
  | order e test v =>
    obtain ⟨he, hv⟩ := List.forall_mem_append.1 hnames
    have hbefore : Unquoted (e.text ++ " " ++ test.symbol ++ " ") :=
      .append (.append (.append (Expr.unquoted_text he) (by decide)) test.unquoted_symbol)
        (by decide)
    exact .after hbefore (Value.renders_literal hv)
  | hasRow s => exact .after (by decide) (hsub s (List.mem_singleton_self s))

theorem renders_texts (ps : List Predicate) (hnames : ∀ name ∈ namesOfAll ps, Unquoted name)
    (hsub : ∀ s ∈ subqueriesOfAll ps, Renders (subquery s) (inside s)) :
    List.Forall₂ Renders (texts subquery ps) (ps.map (literals inside)) := by
  match ps with
  | [] => exact .nil
  | p :: ps =>
    obtain ⟨hp, hps⟩ := List.forall_mem_append.1 hnames
    obtain ⟨hsp, hsps⟩ := List.forall_mem_append.1 hsub
    exact .cons (renders_text p hp hsp) (renders_texts ps hps hsps)

end

end Predicate

end EntityFilter
