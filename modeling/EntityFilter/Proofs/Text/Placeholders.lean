import EntityFilter.Placeholder
import Mathlib.Data.List.Basic

/-!
# Texts with placeholders

A text is divided at its placeholders from left to right: a placeholder begins at the first opener
of what remains and goes on to the first closing brace behind it. The expansion of a text goes by
that division, of which there is one for every text, and puts values in the place of the closed
placeholders.

* `Placeholders.Division`: a text in pieces; `Placeholders.Division.fill` joins them again, with
  something in the place of every closed placeholder.
* `Placeholders.Division.Proper`: the pieces are cut at first openers and first closing braces.
* `Placeholders.Division.proper_iff_found`, `Placeholders.exists_found`,
  `Placeholders.Division.Found.unique`: that is what is found from left to right, and every text has
  one such division.
* `Placeholders.Division.Found.expandChars`: the expansion goes by it.
* `Placeholders.value?_ofPairs`: of the definitions of a name the last one stays.
* `Placeholders.expand_fills`: a text is expanded piece by piece.
-/

namespace EntityFilter.Placeholders

/-- What a placeholder begins with. -/
def opener : List Char := ['$', '{']

/-- The placeholder of a name. -/
def token (name : List Char) : List Char := opener ++ name ++ ['}']

/-- **A text in pieces.** -/
structure Division where
  /-- Texts, each with the name of the closed placeholder behind it. -/
  closed : List (List Char × List Char)
  /-- The text behind the last closed placeholder. -/
  last : List Char
  /-- A placeholder that is not closed, if there is one. -/
  rest : List Char

namespace Division

/-- The pieces joined again, with something in the place of every closed placeholder. -/
def fill (d : Division) (value : List Char → List Char) : List Char :=
  d.closed.flatMap (fun piece => piece.1 ++ value piece.2) ++ d.last ++ d.rest

/-- The text that is in pieces. -/
def text (d : Division) : List Char := d.fill token

end Division

/-- Whether no opener stands in a text before a place. -/
def NoneBefore (n : Nat) (cs : List Char) : Prop :=
  ∀ before after, cs = before ++ opener ++ after → n ≤ before.length

/-- **A division at first openers and first closing braces.** -/
structure Division.Proper (d : Division) : Prop where
  /-- The texts before placeholders hold no opener. -/
  plain : ∀ piece ∈ d.closed, ¬ opener <:+: piece.1
  /-- Neither does the last text. -/
  last : ¬ opener <:+: d.last
  /-- The opener of a closed placeholder is the first one in what remains. -/
  first : ∀ {before piece after}, d.closed = before ++ piece :: after →
    NoneBefore piece.1.length (text ⟨piece :: after, d.last, d.rest⟩)
  /-- The opener of the placeholder that is not closed is the first one in what remains. -/
  firstOpen : d.rest ≠ [] → NoneBefore d.last.length (d.last ++ d.rest)
  /-- Names hold no closing brace. -/
  names : ∀ piece ∈ d.closed, '}' ∉ piece.2
  /-- The rest is empty, or begins with an opener and holds no closing brace. -/
  rest : d.rest = [] ∨ opener <+: d.rest ∧ '}' ∉ d.rest

variable {d d' : Division} {cs t t' n more more' last rest : List Char} {c : Char}
  {closed closed' : List (List Char × List Char)} {value : List Char → List Char}
  {p : Placeholders} {pairs : List (String × String)}

/-! ## Openers -/

/-- What stands before the first opener holds none. -/
theorem NoneBefore.not_infix (h : NoneBefore t.length (t ++ opener ++ more)) :
    ¬ opener <:+: t := by
  rintro ⟨before, after, rfl⟩
  have hle : (before ++ opener ++ after).length ≤ before.length :=
    h before (after ++ opener ++ more) (by simp)
  have hopener : opener.length = 2 := rfl
  simp only [List.length_append] at hle
  omega

theorem NoneBefore.tail (h : NoneBefore (c :: t).length (c :: cs)) : NoneBefore t.length cs := by
  rintro before after rfl
  have hle := h (c :: before) after rfl
  simpa using hle

/-- The first opener of a text stands in one place. -/
theorem NoneBefore.unique (h : NoneBefore t.length (t ++ opener ++ more))
    (h' : NoneBefore t'.length (t' ++ opener ++ more'))
    (heq : t ++ opener ++ more = t' ++ opener ++ more') : t = t' ∧ more = more' := by
  have hle : t.length ≤ t'.length := h t' more' heq
  have hge : t'.length ≤ t.length := h' t more heq.symm
  rw [List.append_assoc, List.append_assoc] at heq
  obtain ⟨rfl, hrest⟩ := List.append_inj heq (Nat.le_antisymm hle hge)
  exact ⟨rfl, List.append_cancel_left hrest⟩

/-- **A text holds no opener, or it has a first one.** -/
theorem exists_first (cs : List Char) : ¬ opener <:+: cs ∨
    ∃ t more, cs = t ++ opener ++ more ∧ NoneBefore t.length cs := by
  induction cs with
  | nil =>
    refine Or.inl fun h => ?_
    cases List.infix_nil.1 h
  | cons c rest ih =>
    by_cases hfirst : opener <+: c :: rest
    · obtain ⟨more, hmore⟩ := hfirst
      exact Or.inr ⟨[], more, by simpa using hmore.symm, fun _ _ _ => Nat.zero_le _⟩
    · rcases ih with hnone | ⟨t, more, rfl, hbefore⟩
      · refine Or.inl fun h => ?_
        rcases List.infix_cons_iff.1 h with h | h
        · exact hfirst h
        · exact hnone h
      · refine Or.inr ⟨c :: t, more, by simp, ?_⟩
        intro before after heq
        cases before with
        | nil => exact absurd ⟨after, by simpa using heq.symm⟩ hfirst
        | cons b before =>
          have hrest := (List.cons.inj heq).2
          have hle := hbefore before after hrest
          simpa using hle

/-! ## Divisions -/

/-- A text that begins with a closed placeholder. -/
theorem Division.text_closed (t n : List Char) :
    Division.text ⟨(t, n) :: closed, last, rest⟩ =
      t ++ opener ++ (n ++ '}' :: Division.text ⟨closed, last, rest⟩) := by
  simp [Division.text, Division.fill, token]

/-- A text with an opener that nothing closes. -/
theorem Division.text_unclosed (t more : List Char) :
    Division.text ⟨[], t, opener ++ more⟩ = t ++ opener ++ more := by
  simp [Division.text, Division.fill]

/-- A text without openers. -/
theorem Division.text_nothing (t : List Char) : Division.text ⟨[], t, []⟩ = t := by
  simp [Division.text, Division.fill]

/-- **What is found in a text from left to right**: no opener, an opener that nothing closes, or a
closed placeholder with what is found behind it. -/
inductive Division.Found : Division → Prop
  | nothing {t : List Char} (h : ¬ opener <:+: t) : Found ⟨[], t, []⟩
  | unclosed {t more : List Char} (hfirst : NoneBefore t.length (t ++ opener ++ more))
      (hmore : '}' ∉ more) : Found ⟨[], t, opener ++ more⟩
  | closed {t n last rest : List Char} {closed : List (List Char × List Char)}
      (hfirst : NoneBefore t.length (text ⟨(t, n) :: closed, last, rest⟩)) (hn : '}' ∉ n)
      (h : Found ⟨closed, last, rest⟩) : Found ⟨(t, n) :: closed, last, rest⟩

/-- What remains behind a closed placeholder is divided properly, too. -/
theorem Division.Proper.tail (h : Division.Proper ⟨(t, n) :: closed, last, rest⟩) :
    Division.Proper ⟨closed, last, rest⟩ where
  plain := fun piece hpiece => h.plain piece (List.mem_cons_of_mem _ hpiece)
  last := h.last
  first := by
    intro before piece after heq
    have hbehind : (t, n) :: closed = ((t, n) :: before) ++ piece :: after :=
      congrArg ((t, n) :: ·) heq
    exact h.first hbehind
  firstOpen := h.firstOpen
  names := fun piece hpiece => h.names piece (List.mem_cons_of_mem _ hpiece)
  rest := h.rest

/-- A closed placeholder may stand before what is divided properly. -/
theorem Division.Proper.cons (h : Division.Proper ⟨closed, last, rest⟩) (hn : '}' ∉ n)
    (hfirst : NoneBefore t.length (Division.text ⟨(t, n) :: closed, last, rest⟩)) :
    Division.Proper ⟨(t, n) :: closed, last, rest⟩ where
  plain := by
    intro piece hpiece
    rcases List.mem_cons.1 hpiece with rfl | hpiece
    · rw [Division.text_closed] at hfirst
      exact hfirst.not_infix
    · exact h.plain piece hpiece
  last := h.last
  first := by
    intro before piece after heq
    cases before with
    | nil =>
      obtain ⟨rfl, rfl⟩ := List.cons.inj heq
      exact hfirst
    | cons first before => exact h.first (List.cons.inj heq).2
  firstOpen := h.firstOpen
  names := by
    intro piece hpiece
    rcases List.mem_cons.1 hpiece with rfl | hpiece
    · exact hn
    · exact h.names piece hpiece
  rest := h.rest

/-- **A division is proper exactly if it is what is found from left to right.** -/
theorem Division.proper_iff_found : d.Proper ↔ d.Found := by
  constructor
  · intro h
    obtain ⟨closed, last, rest⟩ := d
    induction closed with
    | nil =>
      rcases h.rest with hrest | ⟨⟨more, hmore⟩, hopen⟩
      · obtain rfl : rest = [] := hrest
        exact .nothing h.last
      · obtain rfl : opener ++ more = rest := hmore
        have hfirst := h.firstOpen (by simp [opener])
        rw [← List.append_assoc] at hfirst
        exact .unclosed hfirst fun hmem => hopen (List.mem_append_right _ hmem)
    | cons piece closed ih =>
      have hname := h.names piece List.mem_cons_self
      exact .closed (h.first (List.nil_append _).symm) hname (ih h.tail)
  · intro h
    induction h with
    | nothing h =>
      exact {
        plain := nofun
        last := h
        first := fun heq => by simp at heq
        firstOpen := fun hne => absurd rfl hne
        names := nofun
        rest := Or.inl rfl }
    | unclosed hfirst hmore =>
      exact {
        plain := nofun
        last := hfirst.not_infix
        first := fun heq => by simp at heq
        firstOpen := fun _ => by rwa [← List.append_assoc]
        names := nofun
        rest := Or.inr ⟨List.prefix_append _ _, by simpa [opener] using hmore⟩ }
    | closed hfirst hn _ ih => exact ih.cons hn hfirst

/-- **Something is found in every text.** -/
theorem exists_found (cs : List Char) : ∃ d : Division, d.Found ∧ d.text = cs := by
  induction hlen : cs.length using Nat.strongRecOn generalizing cs with
  | _ k ih =>
    rcases exists_first cs with hnone | ⟨t, more, rfl, hfirst⟩
    · exact ⟨_, .nothing hnone, Division.text_nothing cs⟩
    by_cases hclosed : '}' ∈ more
    · obtain ⟨n, rest, rfl, hn⟩ := List.eq_append_cons_of_mem hclosed
      simp only [List.length_append, List.length_cons] at hlen
      obtain ⟨d, hd, hrest⟩ := ih rest.length (by omega) rest rfl
      have htext : Division.text ⟨(t, n) :: d.closed, d.last, d.rest⟩ =
          t ++ opener ++ (n ++ '}' :: rest) := by rw [Division.text_closed, hrest]
      exact ⟨_, .closed (htext ▸ hfirst) hn hd, htext⟩
    · exact ⟨_, .unclosed hfirst hclosed, Division.text_unclosed t more⟩

/-- The first closing brace of a text stands in one place. -/
theorem name_unique {n n' : List Char} (hn : '}' ∉ n) (hn' : '}' ∉ n')
    (heq : n ++ '}' :: more = n' ++ '}' :: more') : n = n' ∧ more = more' := by
  induction n generalizing n' with
  | nil =>
    cases n' with
    | nil => exact ⟨rfl, (List.cons.inj heq).2⟩
    | cons c n' =>
      obtain ⟨rfl, -⟩ := List.cons.inj heq
      exact absurd List.mem_cons_self hn'
  | cons c n ih =>
    cases n' with
    | nil =>
      obtain ⟨rfl, -⟩ := List.cons.inj heq
      exact absurd List.mem_cons_self hn
    | cons c' n' =>
      obtain ⟨rfl, hrest⟩ := List.cons.inj heq
      have hn : '}' ∉ n := fun hmem => hn (List.mem_cons_of_mem _ hmem)
      have hn' : '}' ∉ n' := fun hmem => hn' (List.mem_cons_of_mem _ hmem)
      obtain ⟨rfl, rfl⟩ := ih hn hn' hrest
      exact ⟨rfl, rfl⟩

/-- **Nothing else is found in a text.** -/
theorem Division.Found.unique (h : d.Found) (h' : d'.Found) (heq : d.text = d'.text) : d = d' := by
  induction h generalizing d' with
  | nothing hnone =>
    rw [text_nothing] at heq
    cases h' with
    | nothing _ => rw [heq, text_nothing]
    | unclosed _ _ =>
      rw [text_unclosed] at heq
      exact absurd ⟨_, _, heq.symm⟩ hnone
    | closed _ _ _ =>
      rw [text_closed] at heq
      exact absurd ⟨_, _, heq.symm⟩ hnone
  | unclosed hfirst hmore =>
    rw [text_unclosed] at heq
    cases h' with
    | nothing hnone =>
      rw [text_nothing] at heq
      exact absurd ⟨_, _, heq⟩ hnone
    | unclosed hfirst' _ =>
      rw [text_unclosed] at heq
      obtain ⟨rfl, rfl⟩ := hfirst.unique hfirst' heq
      rfl
    | closed hfirst' _ _ =>
      -- the brace closes the placeholder
      rw [text_closed] at heq hfirst'
      obtain ⟨rfl, rfl⟩ := hfirst.unique hfirst' heq
      exact absurd (by simp) hmore
  | closed hfirst hn _ ih =>
    rw [text_closed] at heq hfirst
    cases h' with
    | nothing hnone =>
      rw [text_nothing] at heq
      exact absurd ⟨_, _, heq⟩ hnone
    | unclosed hfirst' hmore =>
      rw [text_unclosed] at heq
      obtain ⟨rfl, rfl⟩ := hfirst.unique hfirst' heq
      exact absurd (by simp) hmore
    | closed hfirst' hn' h' =>
      rw [text_closed] at heq hfirst'
      obtain ⟨rfl, hname⟩ := hfirst.unique hfirst' heq
      obtain ⟨rfl, hrest⟩ := name_unique hn hn' hname
      obtain ⟨rfl, rfl, rfl⟩ := Division.mk.inj (ih h' hrest)
      rfl

/-! ## Expansion -/

theorem expandChars_cons (h : ¬ opener <+: c :: rest) :
    expandChars p none (c :: rest) = c :: expandChars p none rest := by
  rw [expandChars]
  rintro more rfl rfl
  exact h ⟨more, rfl⟩

/-- A text without openers stays. -/
theorem expandChars_plain (h : ¬ opener <:+: cs) : expandChars p none cs = cs := by
  induction cs with
  | nil => rfl
  | cons c rest ih =>
    rw [expandChars_cons fun hfirst => h hfirst.isInfix,
      ih fun hinfix => h (List.infix_cons_iff.2 (Or.inr hinfix))]

/-- What stands before the first opener stays. -/
theorem expandChars_opener (h : NoneBefore t.length (t ++ opener ++ rest)) :
    expandChars p none (t ++ opener ++ rest) = t ++ expandChars p (some []) rest := by
  induction t with
  | nil => rfl
  | cons c t ih =>
    have hfirst : ¬ opener <+: c :: (t ++ opener ++ rest) := by
      rintro ⟨after, hafter⟩
      have hle := h [] after hafter.symm
      simp at hle
    rw [List.cons_append, List.cons_append, expandChars_cons hfirst, ih h.tail, List.cons_append]

/-- **A closed placeholder gives way to its value.** -/
theorem expandChars_name (hn : '}' ∉ n) (before : List Char) :
    expandChars p (some before) (n ++ '}' :: rest) =
      valueOf p (before.reverse ++ n) ++ expandChars p none rest := by
  induction n generalizing before with
  | nil => simp [expandChars]
  | cons c n ih =>
    obtain ⟨hc, hn⟩ := not_or.1 (mt List.mem_cons.2 hn)
    simp [expandChars, Ne.symm hc, ih hn]

/-- A placeholder that is not closed stays. -/
theorem expandChars_unclosed (h : '}' ∉ cs) (before : List Char) :
    expandChars p (some before) cs = opener ++ before.reverse ++ cs := by
  induction cs generalizing before with
  | nil => simp [expandChars, opener]
  | cons c rest ih =>
    obtain ⟨hc, hrest⟩ := not_or.1 (mt List.mem_cons.2 h)
    simp [expandChars, Ne.symm hc, ih hrest]

/-- **The expansion joins the pieces again**, with values in the place of closed placeholders. -/
theorem Division.Found.expandChars (h : d.Found) :
    Placeholders.expandChars p none d.text = d.fill (valueOf p) := by
  induction h with
  | nothing hnone =>
    rw [text_nothing, expandChars_plain hnone]
    simp [fill]
  | unclosed hfirst hmore =>
    rw [text_unclosed, expandChars_opener hfirst, expandChars_unclosed hmore]
    simp [fill]
  | closed hfirst hn _ ih =>
    rw [text_closed] at hfirst ⊢
    rw [expandChars_opener hfirst, expandChars_name hn, ih]
    simp [fill]

/-! ## Values -/

/-- The value in the last of the pairs whose name is the same in upper case. -/
def lastValue? (pairs : List (String × String)) (name : String) : Option String :=
  (pairs.reverse.find? fun pair => Text.upper pair.1 == Text.upper name).map Prod.snd

/-- **Of the definitions of a name the last one stays.** -/
theorem value?_ofPairs (pairs : List (String × String)) (name : String) :
    value? (ofPairs pairs) name = lastValue? pairs name := by
  obtain ⟨later, rfl⟩ : ∃ later : List (String × String), pairs = later.reverse :=
    ⟨_, (List.reverse_reverse pairs).symm⟩
  induction later with
  | nil => simp [value?, ofPairs, lastValue?]
  | cons pair later ih =>
    have hdefine : ofPairs (pair :: later).reverse =
        define (ofPairs later.reverse) pair.1 pair.2 := by
      simp [ofPairs, List.foldl_append]
    rw [hdefine, value?_define, ih]
    simp only [lastValue?, List.reverse_reverse, List.find?_cons]
    by_cases heq : Text.upper name = Text.upper pair.1
    · simp [heq]
    · simp [heq, beq_false_of_ne (Ne.symm heq)]

/-- What stands in the place of a placeholder: the last value of its name, or the placeholder
itself. -/
def replacement (pairs : List (String × String)) (name : List Char) : List Char :=
  match lastValue? pairs (String.ofList name) with
  | some value => value.toList
  | none => token name

/-- **A text is expanded piece by piece.** There is one proper division of the text. The expansion
joins its pieces again, with the last value of its name in the place of every closed placeholder, or
the placeholder itself if its name has no value. So nothing changes if no name has one. -/
theorem expand_fills (pairs : List (String × String)) (s : String) :
    ∃ d : Division, (∀ d' : Division, d'.Proper ∧ d'.text = s.toList ↔ d' = d) ∧
      ((ofPairs pairs).expand s).toList = d.fill (replacement pairs) ∧
      ((∀ piece ∈ d.closed, lastValue? pairs (String.ofList piece.2) = none) →
        (ofPairs pairs).expand s = s) := by
  obtain ⟨d, hd, htext⟩ := exists_found s.toList
  have hvalue : valueOf (ofPairs pairs) = replacement pairs := by
    funext name
    rw [valueOf, value?_ofPairs, replacement]
    cases lastValue? pairs (String.ofList name) <;> simp [token, opener]
  have hfill : ((ofPairs pairs).expand s).toList = d.fill (replacement pairs) := by
    rw [expand, String.toList_ofList, ← htext, hd.expandChars, hvalue]
  refine ⟨d, fun d' => ⟨?_, ?_⟩, hfill, fun hnone => ?_⟩
  · rintro ⟨hd', htext'⟩
    exact (Division.proper_iff_found.1 hd').unique hd (htext'.trans htext.symm)
  · rintro rfl
    exact ⟨Division.proper_iff_found.2 hd, htext⟩
  · -- every placeholder stands for itself
    have hsame : d.fill (replacement pairs) = d.text := by
      have hpieces : d.closed.flatMap (fun piece => piece.1 ++ replacement pairs piece.2) =
          d.closed.flatMap fun piece => piece.1 ++ token piece.2 := by
        refine List.flatMap_congr fun piece hpiece => ?_
        rw [replacement, hnone piece hpiece]
      rw [Division.text, Division.fill, hpieces, Division.fill]
    exact String.toList_injective (hfill.trans (hsame.trans htext))

/-- Names in either case, a dollar sign before an opener, a placeholder in another one, a value that
is not searched again, and placeholders without a value or a closing brace. -/
example : (ofPairs [("a", "1"), ("A", "$\x7bb\x7d"), ("b", "2")]).expand
    "$$\x7ba\x7d-$\x7bx$\x7bb\x7d\x7d$\x7bc\x7d$\x7bb" =
    "$$\x7bb\x7d-$\x7bx$\x7bb\x7d\x7d$\x7bc\x7d$\x7bb" := by decide

end EntityFilter.Placeholders
