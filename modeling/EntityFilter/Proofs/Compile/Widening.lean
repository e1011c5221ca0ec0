import EntityFilter.Proofs.Compile.Membership
import EntityFilter.Proofs.Compile.Texts
import EntityFilter.Proofs.Wildcard.Upper

/-!
# Case heeded and case ignored

A comparison finds more where case is ignored, as texts that are the same stay the same in upper
case. Numbers do not: a number equals any text that writes it, but in upper case it is compared by
its own text.

* `Settings.ignoring`, `Context.ignoring`: the same with case ignored or heeded.
* `Settings.equalTest_ignoring`, `Settings.isInTest_ignoring`: what passes a test passes it where
  case is ignored, but for numbers in lists.
* `Clause.Respelled`: a number that is compared with another spelling of it.
* `Context.ignoring_keeps_iff`: no record is lost exactly if none is lost through such a number.
* `Shop.zeroTwo_lost`: one that is.
-/

namespace EntityFilter

open Query

/-- The settings with case ignored, or heeded. -/
def Settings.ignoring (s : Settings) (ignored : Bool) : Settings :=
  { s with ignoreCase := ignored }

/-- A compilation with case ignored, or heeded. -/
def Context.ignoring (ctx : Context) (ignored : Bool) : Context :=
  { ctx with settings := ctx.settings.ignoring ignored }

variable {m : Model} {b : Binding} {e : Expr} {v : Value} {t w : String}

/-! ## Values -/

namespace Value

/-- What is read out of a text is compared with the value, if there is something to be read. -/
theorem equals_read_iff {κ : Type} [Ord κ] [Std.LawfulEqOrd κ] {a : κ} {read : Option κ} :
    Truth.ofOption ((read.map (Ord.compare a)).map (· == .eq)) = .yes ↔ read = some a := by
  cases read with
  | none => simp [Truth.ofOption]
  | some k =>
    simp only [Option.map_some, Truth.ofOption, Truth.ofBool_eq_yes, beq_iff_eq,
      Std.LawfulEqCmp.compare_eq_iff_eq, Option.some.injEq]
    exact eq_comm

/-- A number is equal to the texts that write it. -/
theorem equals_int {n : Int} : (int n).equals (text t) = .yes ↔ Text.parseInt64? t = some n :=
  equals_read_iff

/-- A truth value that is read out of a text is written as the text. -/
theorem asText_of_parseBool? {truth : Bool} (h : parseBool? t = some truth) :
    (bool truth).asText = t := by
  unfold parseBool? at h
  split at h
  · rename_i ht
    rw [← Option.some.inj h, ht]
    rfl
  · split at h
    · rename_i ht
      rw [← Option.some.inj h, ht]
      rfl
    · cases h

/-- **What is equal to a text has that text**, but for numbers that are spelled in another way. -/
theorem asText_of_equals (h : v.equals (.text t) = .yes) (hv : ∀ n, v = .int n → toString n = t) :
    v ≠ .null ∧ v.asText = t := by
  cases v with
  | null => cases h
  | int n => exact ⟨nofun, hv n rfl⟩
  | text s => exact ⟨nofun, equals_text.1 h⟩
  | constant variant enumeration =>
    have hread : some t = some variant := equals_read_iff.1 h
    exact ⟨nofun, (Option.some.inj hread).symm⟩
  | bool truth =>
    have hread : parseBool? t = some truth := equals_read_iff.1 h
    exact ⟨nofun, asText_of_parseBool? hread⟩

end Value

/-- **What is equal to a text is so in upper case**, but for numbers that are spelled in another
way. -/
theorem Expr.equals_upper (h : (e.valueIn m b).equals (.text t) = .yes)
    (hv : ∀ n, e.valueIn m b = .int n → toString n = t) :
    ((Expr.upper e).valueIn m b).equals (.text (Text.upper t)) = .yes := by
  obtain ⟨hnull, htext⟩ := Value.asText_of_equals h hv
  exact Value.equals_text_upper.2 ⟨hnull, congrArg Text.upper htext⟩

/-- **What matches a pattern does so in upper case.** -/
theorem Expr.isLike_upper
    (h : (e.valueIn m b).isLike (Wildcard.toLike .standard w) escapeMark .standard = .yes) :
    ((Expr.upper e).valueIn m b).isLike (Text.upper (Wildcard.toLike .standard w)) escapeMark
      .standard = .yes := by
  have matched : ∀ {v : Value} {pattern : String},
      v.isLike pattern escapeMark .standard = .yes ↔
        v ≠ .null ∧ Like.matchesText v.asText pattern escapeMark .standard = true := by
    intro v pattern
    cases v <;> simp [Value.isLike, Value.isNull]
  rw [matched, Wildcard.matches_standard_iff] at h
  rw [matched, Wildcard.toLike_upper, Wildcard.matches_standard_iff]
  obtain ⟨hnull, hmeans⟩ := h
  rw [valueIn_upper, Value.upper_of_ne_null hnull]
  refine ⟨by simp, ?_⟩
  rw [Value.asText, Text.upper, Text.upper, String.toList_ofList, String.toList_ofList]
  exact hmeans.upper

/-- An argument without wildcards that stands for a number is a numeral. -/
theorem Wildcard.isNumeral_of_literal {n : Int} (h : Text.parseInt64? (literal w) = some n) :
    Text.isNumeral w = true := by
  have hnum := Text.isNumeral_of_parseInt64? h
  have hself : literal w = w := by
    have hplain := Text.plain_of_isNumeral hnum
    rw [literal, String.toList_ofList] at hplain
    rw [literal, literalChars_eq_self fun hmem => (hplain '*' hmem).2 rfl, String.ofList_toList]
  rwa [hself] at hnum

/-! ## Tests -/

namespace Settings

variable {s : Settings} {vs : List Value}

/-- The test for an argument that is no numeral. -/
theorem textTest_ignoring (hd : s.dialect = .standard) (hnum : Text.isNumeral w = false)
    (h : ((s.ignoring false).textTest e w).Holds m .standard b) :
    ((s.ignoring true).textTest e w).Holds m .standard b := by
  have hlike : ∀ i, (s.ignoring i).dialect = .standard := fun _ => hd
  unfold textTest at h ⊢
  rw [hlike] at h ⊢
  split
  · rw [if_pos ‹_›, Predicate.likePattern, Predicate.holds_of_test? rfl] at h
    rw [Predicate.likePattern, Predicate.holds_of_test? rfl]
    exact Expr.isLike_upper h
  · rw [if_neg ‹_›, Predicate.holds_of_test? rfl] at h
    rw [Predicate.holds_of_test? rfl]
    refine Expr.equals_upper h fun n hn => ?_
    -- a number is equal to numerals only
    have hparse : Text.parseInt64? (Wildcard.literal w) = some n :=
      Value.equals_int.1 (hn ▸ h)
    exact absurd (Wildcard.isNumeral_of_literal hparse) (by simp [hnum])

/-- **What passes the test for a value passes it where case is ignored.** -/
theorem equalTest_ignoring (hd : s.dialect = .standard)
    (h : ((s.ignoring false).equalTest e v).Holds m .standard b) :
    ((s.ignoring true).equalTest e v).Holds m .standard b := by
  cases v with
  | text w =>
    simp only [equalTest] at h ⊢
    split
    · rwa [if_pos ‹_›] at h
    · rename_i hnum
      rw [if_neg hnum] at h
      split
      · rwa [if_pos ‹_›] at h
      · rw [if_neg ‹_›] at h
        exact textTest_ignoring hd (eq_false_of_ne_true hnum) h
  | _ => exact h

/-- **What passes the test for a list passes it where case is ignored**, but for numbers that are
spelled in another way. -/
theorem isInTest_ignoring (h : ((s.ignoring false).isInTest e vs).Holds m .standard b)
    (hv : ∀ n t, .text t ∈ vs → e.valueIn m b = .int n → Text.parseInt64? t = some n →
      toString n = t) : ((s.ignoring true).isInTest e vs).Holds m .standard b := by
  by_cases hall : ∀ w ∈ vs, w.text? = none
  · rw [holds_isInTest_native _ hall] at h ⊢
    exact h
  · obtain ⟨t, ht⟩ := Value.exists_text hall
    rw [holds_isInTest_texts _ ht] at h ⊢
    obtain ⟨t', ht', hequal⟩ := h
    refine ⟨t', ht', Expr.equals_upper hequal fun n hn => ?_⟩
    exact hv n t' ht' hn (Value.equals_int.1 (hn ▸ hequal))

/-- **What has a map key has it where case is ignored**, but for numbers that are spelled in another
way. -/
theorem keyTest_ignoring {reading : Reading} {key : Option String}
    (h : ∀ test ∈ (s.ignoring false).keyTest reading key, test.Holds m .standard b)
    (hv : ∀ n e t, reading.key = some e → key = some t → e.valueIn m b = .int n →
      Text.parseInt64? t = some n → toString n = t) :
    ∀ test ∈ (s.ignoring true).keyTest reading key, test.Holds m .standard b := by
  unfold keyTest at h ⊢
  cases hkey : reading.key with
  | none => exact List.forall_mem_nil _
  | some e =>
    cases hk : key with
    | none => exact List.forall_mem_nil _
    | some k =>
      rw [hkey, hk, List.forall_mem_singleton, Predicate.holds_equal] at h
      rw [List.forall_mem_singleton, Predicate.holds_equal]
      exact Expr.equals_upper h fun n hn => hv n e k hkey hk hn (Value.equals_int.1 (hn ▸ h))

end Settings

/-! ## Comparisons -/

namespace Clause

/-- The key of what a clause compares, where it is an entry of a map. -/
def comparedKey (clause : Clause) : Option Expr :=
  (Reading.ofSource clause.selector.shape clause.terminal root).key

/-- **A text of a clause that stands for itself** where case is ignored, though it may be a numeral:
the key of a map, or a member of a list. -/
def Spells (clause : Clause) (t : String) : Prop :=
  clause.selector.mapKey = some t ∨ clause.operator = .isIn ∧ .text t ∈ clause.values

/-- **A number is compared with another spelling of it**: the number stands under the key or as the
value of what a clause compares, and one of the texts that stand for themselves writes it in another
way than numbers are written. -/
def Respelled (m : Model) (clause : Clause) (c : Binding) : Prop :=
  ∃ n t, Text.parseInt64? t = some n ∧ toString n ≠ t ∧
    ((∃ e, clause.comparedKey = some e ∧ clause.selector.mapKey = some t ∧
        e.valueIn m c = .int n) ∨
      clause.operator = .isIn ∧ .text t ∈ clause.values ∧ clause.compared.valueIn m c = .int n)

/-- No number is, where all texts that stand for themselves write numbers as they are written. -/
theorem not_respelled {clause : Clause} {c : Binding}
    (h : ∀ t, clause.Spells t → ∀ n, Text.parseInt64? t = some n → toString n = t) :
    ¬ clause.Respelled m c := by
  rintro ⟨n, t, hparse, hne, ⟨-, -, hkey, -⟩ | ⟨hop, ht, -⟩⟩
  · exact hne (h t (Or.inl hkey) n hparse)
  · exact hne (h t (Or.inr ⟨hop, ht⟩) n hparse)

end Clause

namespace Context

variable {ctx : Context} {st : Store} {clause : Clause} {joins : List Attribute} {op : Operator}
  {selector : String} {arguments : List String}

/-- **What is compared, and passes the test of a clause** for a record of the root. -/
def Finds (ctx : Context) (st : Store) (clause : Clause) (joins : List Attribute)
    (b c : Binding) : Prop :=
  clause.Related ctx.model st ctx.settings joins b c ∧
    (clause.test ctx.settings ctx.replace clause.compared).Holds ctx.model st.dialect c

/-- An equality and a membership ask for something that passes their test. -/
theorem asks_iff_finds (hop : clause.operator = .equal ∨ clause.operator = .isIn) :
    ctx.Asks st clause joins b ↔ ∃ c, ctx.Finds st clause joins b c := by
  rcases hop with hop | hop <;>
  · simp only [Asks, Clause.lower, hop, Settings.holds_withKey, Finds, Clause.test, Clause.Related,
      and_assoc]
    rfl

/-- **What is found is found where case is ignored**, unless it is a number that is spelled in
another way. -/
theorem finds_ignoring {c : Binding} (hop : clause.operator = .equal ∨ clause.operator = .isIn)
    (hd : ctx.settings.dialect = .standard) (hst : st.dialect = .standard)
    (h : (ctx.ignoring false).Finds st clause joins b c)
    (hspelled : ¬ clause.Respelled ctx.model c) :
    (ctx.ignoring true).Finds st clause joins b c := by
  obtain ⟨⟨hends, hkeys⟩, htest⟩ := h
  rw [hst] at hkeys htest
  rw [Finds, Clause.Related, hst]
  refine ⟨⟨hends, Settings.keyTest_ignoring hkeys fun n e t he hk hn hparse => ?_⟩, ?_⟩
  · by_contra hne
    exact hspelled ⟨n, t, hparse, hne, Or.inl ⟨e, he, hk, hn⟩⟩
  · unfold Clause.test at htest ⊢
    rcases hop with hop | hop
    · rw [hop] at htest ⊢
      exact Settings.equalTest_ignoring hd htest
    · rw [hop] at htest ⊢
      refine Settings.isInTest_ignoring htest fun n t ht hn hparse => ?_
      by_contra hne
      exact hspelled ⟨n, t, hparse, hne, Or.inr ⟨hop, ht, hn⟩⟩

/-- **Numbers are found in any spelling**: whatever record something is found for through a number
that is spelled in another way, something is found for it where case is ignored. -/
def RespelledKept (ctx : Context) (st : Store) (clause : Clause) (joins : List Attribute) : Prop :=
  ∀ b ∈ st.rows ctx.schema.entity,
    (∃ c, (ctx.ignoring false).Finds st clause joins b c ∧ clause.Respelled ctx.model c) →
      ∃ c, (ctx.ignoring true).Finds st clause joins b c

/-- **Where case is ignored no record is lost, exactly if numbers are found in any spelling.** In
the standard dialect, a comparison by equality or membership that passes its check selects some
records of a well-formed store, whether case is heeded or ignored. What it selects where case is
heeded it selects where case is ignored, for every kind of value and column, with wildcards or
without, in a map or outside, but for numbers that a map key or a member of a list spells in another
way than they are written. If none does, no record is lost. -/
theorem ignoring_keeps_iff (hop : op = .equal ∨ op = .isIn)
    (hd : ctx.settings.dialect = .standard) (hdialect : st.dialect = .standard)
    (hst : st.WellFormed ctx.model)
    (hplan : ctx.schema.plan ctx.model ⟨selector, op.symbol, arguments⟩ = (joins, .ok clause)) :
    ∃ heeded ignored,
      (ctx.ignoring false).Answers st (.compareMany op selector arguments) heeded ∧
      (ctx.ignoring true).Answers st (.compareMany op selector arguments) ignored ∧
      ((∀ id ∈ heeded, id ∈ ignored) ↔ ctx.RespelledKept st clause joins) ∧
      ((∀ t, clause.Spells t → ∀ n, Text.parseInt64? t = some n → toString n = t) →
        ∀ id ∈ heeded, id ∈ ignored) := by
  have hoperator : clause.operator = .equal ∨ clause.operator = .isIn := by
    rw [(Schema.plan_operator op hplan).1]
    exact hop
  have hanswer : ∀ i, ∃ ids, (ctx.ignoring i).Answers st (.compareMany op selector arguments) ids ∧
      ∀ id, id ∈ ids ↔ st.Where ctx.schema.entity
        (fun b => ∃ c, (ctx.ignoring i).Finds st clause joins b c) id := by
    intro i
    obtain ⟨ids, hids, hmem⟩ := (ctx.ignoring i).answers_of_plan hst hplan
    have hasks : ∀ b, (ctx.ignoring i).Asks st clause joins b ↔
        ∃ c, (ctx.ignoring i).Finds st clause joins b c := fun b => asks_iff_finds hoperator
    exact ⟨ids, hids, fun id => (hmem id).trans (Store.where_congr (fun b _ => hasks b) id)⟩
  obtain ⟨heeded, hheeded, hmem⟩ := hanswer false
  obtain ⟨ignored, hignored, hmem'⟩ := hanswer true
  have hkept : (∀ id ∈ heeded, id ∈ ignored) ↔ ctx.RespelledKept st clause joins := by
    simp only [hmem, hmem', Store.where_imp_iff]
    constructor
    · rintro h b hb ⟨c, hfound, -⟩
      exact h b hb ⟨c, hfound⟩
    · rintro h b hb ⟨c, hfound⟩
      by_cases hspelled : clause.Respelled ctx.model c
      · exact h b hb ⟨c, hfound, hspelled⟩
      · exact ⟨c, finds_ignoring hoperator hd hdialect hfound hspelled⟩
  refine ⟨heeded, ignored, hheeded, hignored, hkept, fun h => hkept.2 ?_⟩
  rintro b - ⟨c, -, hspelled⟩
  exact absurd hspelled (Clause.not_respelled h)

end Context

namespace Shop

/-- The clause for a list of quantities. -/
def quantityAmong (raw : String) (rest : List String) : Clause :=
  { quantity raw with operator := .isIn, values := (raw :: rest).map .text }

theorem twoOrThree_kept :
    ∃ heeded ignored,
      (context.ignoring false).Answers store (.compareMany .isIn "item.qty" ["2", "3"]) heeded ∧
      (context.ignoring true).Answers store (.compareMany .isIn "item.qty" ["2", "3"]) ignored ∧
      ∀ id ∈ heeded, id ∈ ignored := by
  have hplan : context.schema.plan context.model
      ⟨"item.qty", Operator.isIn.symbol, ["2", "3"]⟩ =
        ([items], .ok (quantityAmong "2" ["3"])) := by rfl
  have hspelled : ∀ t, (quantityAmong "2" ["3"]).Spells t → ∀ n, Text.parseInt64? t = some n →
      toString n = t := by
    rintro t (hkey | ⟨-, ht⟩) n hn
    · cases hkey
    · have htwo : Text.parseInt64? "2" = some 2 := by decide
      have hthree : Text.parseInt64? "3" = some 3 := by decide
      rcases List.mem_pair.1 ht with ht | ht <;> obtain rfl := Value.text.inj ht
      · rw [← Option.some.inj (htwo.symm.trans hn)]
        decide
      · rw [← Option.some.inj (hthree.symm.trans hn)]
        decide
  obtain ⟨heeded, ignored, hheeded, hignored, -, h⟩ :=
    context.ignoring_keeps_iff (Or.inr rfl) rfl rfl store_wellFormed hplan
  exact ⟨heeded, ignored, hheeded, hignored, h hspelled⟩

/-- **The first order has two items, and is not found by `02` where case is ignored.** -/
theorem zeroTwo_lost :
    store.WellFormed context.model ∧
      context.schema.plan context.model ⟨"item.qty", Operator.isIn.symbol, ["02"]⟩ =
        ([items], .ok (quantityAmong "02" [])) ∧
      (context.ignoring false).Answers store (.compareMany .isIn "item.qty" ["02"]) [1] ∧
      (context.ignoring true).Answers store (.compareMany .isIn "item.qty" ["02"]) [] ∧
      ¬ ∀ id : Int, id ∈ [1] → id ∈ [] := by
  refine ⟨store_wellFormed, by rfl, ?_, ?_, fun h => ?_⟩
  · refine ⟨.isIn (.column 1 "qty") [.text "02"], withItems, Prod.ext (by rfl) ?_, by rfl⟩
    decide +kernel
  · refine ⟨.isIn (.upper (.column 1 "qty")) [.text "02"], withItems, Prod.ext (by rfl) ?_,
      by rfl⟩
    decide +kernel
  · exact absurd (h 1 List.mem_cons_self) List.not_mem_nil

end Shop

end EntityFilter
