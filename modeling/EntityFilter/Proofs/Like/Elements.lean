import EntityFilter.Proofs.Wildcard.Brackets
import Mathlib.Data.List.Forall2

/-!
# The elements of a LIKE pattern

A pattern is a list of elements, and a text matches it if it can be cut into parts that the elements
take in order. Here the elements are told by a grammar of their own, and the members of a class by
reading what stands in its brackets, so that what the matcher computes can be held against it.

* `Like.InClass`: the members of a class.
* `Like.Reads`: the elements of a pattern, read from left to right.
* `Like.exists_reads`, `Like.Reads.unique`: every pattern has its elements, and no others.
* `Like.Reads.pieces`: the matcher goes by these elements.
* `Like.matchesText_iff_cut`: it accepts exactly the texts that can be cut so.
-/

namespace EntityFilter.Like

/-- **An element of a pattern.** -/
inductive Element
  | anyRun
  | anyOne
  | character (c : Char)
  /-- A member of the class that is written so. -/
  | memberOf (body : List Char)
  /-- No member of the class that is written so. -/
  | noMemberOf (body : List Char)

/-- A class begins with a range from one character to another one that does not come before it. -/
def BeginsWithRange (body : List Char) : Prop :=
  ∃ lo hi rest, body = lo :: '-' :: hi :: rest ∧ lo ≤ hi

/-- **The members of a class**, which is read from left to right: those of its ranges, and the
characters that begin no range. -/
inductive InClass : List Char → Char → Prop
  | range {lo hi c : Char} {rest : List Char} (hle : lo ≤ hi) (hlo : lo ≤ c) (hhi : c ≤ hi) :
      InClass (lo :: '-' :: hi :: rest) c
  | afterRange {lo hi c : Char} {rest : List Char} (hle : lo ≤ hi) (h : InClass rest c) :
      InClass (lo :: '-' :: hi :: rest) c
  | single {c : Char} {rest : List Char} (hr : ¬ BeginsWithRange (c :: rest)) :
      InClass (c :: rest) c
  | afterSingle {a c : Char} {rest : List Char} (hr : ¬ BeginsWithRange (a :: rest))
      (h : InClass rest c) : InClass (a :: rest) c

/-- What stands in the brackets of a class: a circumflex turns it round if there is more after
it. -/
inductive ReadsClass : List Char → Element → Prop
  | noMemberOf {body : List Char} (hne : body ≠ []) : ReadsClass ('^' :: body) (.noMemberOf body)
  | memberOf {body : List Char} (h : ∀ more, body = '^' :: more → more = []) :
      ReadsClass body (.memberOf body)

/-- **The elements of a pattern**, read from left to right. The escape character comes before all
signs, be it one of them itself, and brackets are signs in one dialect only. -/
inductive Reads (escape : Char) (d : Dialect) : List Char → List Element → Prop
  | nil : Reads escape d [] []
  | escaped {c : Char} {rest : List Char} {es : List Element} (h : Reads escape d rest es) :
      Reads escape d (escape :: c :: rest) (.character c :: es)
  | trailing : Reads escape d [escape] [.character escape]
  | anyRun {rest : List Char} {es : List Element} (he : '%' ≠ escape)
      (h : Reads escape d rest es) : Reads escape d ('%' :: rest) (.anyRun :: es)
  | anyOne {rest : List Char} {es : List Element} (he : '_' ≠ escape)
      (h : Reads escape d rest es) : Reads escape d ('_' :: rest) (.anyOne :: es)
  | ofClass {body rest after : List Char} {e : Element} {es : List Element} (he : '[' ≠ escape)
      (hd : d = .sqlServer) (hafter : after = body ++ ']' :: rest) (hclosed : ']' ∉ body)
      (hbody : ReadsClass body e) (h : Reads escape d rest es) :
      Reads escape d ('[' :: after) (e :: es)
  | character {c : Char} {rest : List Char} {es : List Element} (he : c ≠ escape)
      (hrun : c ≠ '%') (hone : c ≠ '_') (hopen : c = '[' → d = .sqlServer → ']' ∉ rest)
      (h : Reads escape d rest es) : Reads escape d (c :: rest) (.character c :: es)

/-- **The parts of a text that an element takes.** -/
inductive Element.Takes : Element → List Char → Prop
  | anyRun (part : List Char) : Takes .anyRun part
  | anyOne (c : Char) : Takes .anyOne [c]
  | character (c : Char) : Takes (.character c) [c]
  | memberOf {body : List Char} {c : Char} (h : InClass body c) : Takes (.memberOf body) [c]
  | noMemberOf {body : List Char} {c : Char} (h : ¬ InClass body c) : Takes (.noMemberOf body) [c]

variable {escape : Char} {d : Dialect} {cs body rest : List Char} {e e' : Element}
  {es es' : List Element} {c : Char}

/-! ## Classes -/

theorem inClass_range_iff {lo hi : Char} (hle : lo ≤ hi) :
    InClass (lo :: '-' :: hi :: rest) c ↔ (lo ≤ c ∧ c ≤ hi) ∨ InClass rest c := by
  have hbegins : BeginsWithRange (lo :: '-' :: hi :: rest) := ⟨lo, hi, rest, rfl, hle⟩
  constructor
  · intro h
    cases h with
    | range _ hlo hhi => exact Or.inl ⟨hlo, hhi⟩
    | afterRange _ h => exact Or.inr h
    | single hr => exact absurd hbegins hr
    | afterSingle hr _ => exact absurd hbegins hr
  · rintro (⟨hlo, hhi⟩ | h)
    · exact .range hle hlo hhi
    · exact .afterRange hle h

theorem inClass_single_iff {a : Char} (hr : ¬ BeginsWithRange (a :: rest)) :
    InClass (a :: rest) c ↔ c = a ∨ InClass rest c := by
  constructor
  · intro h
    cases h with
    | range hle _ _ => exact absurd ⟨_, _, _, rfl, hle⟩ hr
    | afterRange hle _ => exact absurd ⟨_, _, _, rfl, hle⟩ hr
    | single _ => exact Or.inl rfl
    | afterSingle _ h => exact Or.inr h
  · rintro (rfl | h)
    · exact .single hr
    · exact .afterSingle hr h

theorem inRanges_cons {lo hi : Char} {ranges : List (Char × Char)} :
    inRanges ((lo, hi) :: ranges) c = true ↔ (lo ≤ c ∧ c ≤ hi) ∨ inRanges ranges c = true := by
  simp [inRanges]

/-- **The ranges of a class hold its members.** -/
theorem inRanges_classRanges (body : List Char) (c : Char) :
    inRanges (classRanges body) c = true ↔ InClass body c := by
  have hself : ∀ {a : Char}, a ≤ c ∧ c ≤ a ↔ c = a := fun {a} =>
    ⟨fun h => Char.le_antisymm h.2 h.1, fun h => h ▸ ⟨Char.le_refl _, Char.le_refl _⟩⟩
  have hnil : InClass [] c ↔ inRanges [] c = true := by
    constructor
    · intro h
      cases h
    · intro h
      cases h
  fun_induction classRanges body with
  | case1 => exact hnil.symm
  | case2 a =>
    have hr : ¬ BeginsWithRange [a] := by rintro ⟨lo, hi, rest, h, -⟩; cases h
    rw [inRanges_cons, hself, inClass_single_iff hr, hnil]
  | case3 a b =>
    have hr : ¬ BeginsWithRange [a, b] := by rintro ⟨lo, hi, rest, h, -⟩; cases h
    have hr' : ¬ BeginsWithRange [b] := by rintro ⟨lo, hi, rest, h, -⟩; cases h
    rw [inRanges_cons, inRanges_cons, hself, hself, inClass_single_iff hr, inClass_single_iff hr',
      hnil]
  | case4 a b hi rest h ih =>
    obtain ⟨hb, hle⟩ := Bool.and_eq_true_iff.1 h
    obtain rfl := eq_of_beq hb
    rw [inRanges_cons, inClass_range_iff (of_decide_eq_true hle)]
    exact or_congr_right ih
  | case5 a b hi rest h ih =>
    have hr : ¬ BeginsWithRange (a :: b :: hi :: rest) := by
      rintro ⟨lo, hi', rest', heq, hle⟩
      obtain ⟨rfl, rfl, rfl, rfl⟩ : a = lo ∧ b = '-' ∧ hi = hi' ∧ rest = rest' := by simpa using heq
      exact h (by simpa using hle)
    rw [inRanges_cons, hself, inClass_single_iff hr]
    exact or_congr_right ih

/-! ## What the matcher goes by -/

/-- The piece that an element is for the matcher. -/
def Element.piece : Element → Piece
  | anyRun => .anyRun
  | anyOne => .anyOne
  | character c => .literal c
  | memberOf body => .oneOf false (classRanges body)
  | noMemberOf body => .oneOf true (classRanges body)

theorem ReadsClass.classPiece (h : ReadsClass body e) : classPiece body = e.piece := by
  cases h with
  | @noMemberOf body hne =>
    obtain ⟨c, rest, rfl⟩ := List.exists_cons_of_ne_nil hne
    rfl
  | memberOf h =>
    unfold Like.classPiece
    split
    · exact absurd (h _ rfl) (List.cons_ne_nil _ _)
    · rfl

/-- What stands before the first closing bracket is the class. -/
theorem cutClass_closed (h : ']' ∉ body) (rest : List Char) :
    cutClass (body ++ ']' :: rest) = some (body, rest) := by
  have hcut : cutClass (']' :: rest) = some ([], rest) := rfl
  rw [cutClass_append h, hcut, Option.map_some]
  exact congrArg (fun b => some (b, rest)) (List.append_nil body)

theorem cutClass_eq_none (h : ']' ∉ rest) : cutClass rest = none := by
  have hcut := cutClass_append h []
  rwa [List.append_nil] at hcut

/-- A class that is closed is one piece. -/
theorem pieces_ofClass (he : '[' ≠ escape) (h : ']' ∉ body) (rest : List Char) :
    pieces escape .sqlServer ('[' :: (body ++ ']' :: rest)) =
      classPiece body :: pieces escape .sqlServer rest := by
  have hcut := cutClass_closed h rest
  rw [pieces.eq_def]
  simp only [beq_iff_eq, he, if_false, Char.reduceEq, beq_self_eq_true, Bool.and_self, if_true]
  split
  · rename_i hcut'
    obtain ⟨rfl, rfl⟩ := Prod.mk.inj (Option.some.inj (hcut'.symm.trans hcut))
    rfl
  · rename_i hnone
    cases hnone.symm.trans hcut

/-- A character that is no sign is a literal. -/
theorem pieces_character (he : c ≠ escape) (hrun : c ≠ '%') (hone : c ≠ '_')
    (hopen : c = '[' → d = .sqlServer → ']' ∉ rest) :
    pieces escape d (c :: rest) = .literal c :: pieces escape d rest := by
  rw [pieces.eq_def]
  simp only [beq_iff_eq, he, hrun, hone, if_false]
  by_cases hbracket : c = '[' ∧ d = .sqlServer
  · -- the bracket opens no class, since nothing closes it
    have hnone := cutClass_eq_none (hopen hbracket.1 hbracket.2)
    rw [if_pos (by simpa using hbracket)]
    split
    · rename_i hcut
      cases hnone.symm.trans hcut
    · rfl
  · rw [if_neg (by simpa using hbracket)]

/-- **The matcher goes by the elements of a pattern.** -/
theorem Reads.pieces (h : Reads escape d cs es) :
    Like.pieces escape d cs = es.map Element.piece := by
  induction h with
  | nil => rw [Like.pieces, List.map_nil]
  | escaped _ ih =>
    rw [Like.pieces.eq_def]
    simp [ih, Element.piece]
  | trailing =>
    rw [Like.pieces.eq_def]
    simp [Element.piece]
  | anyRun he _ ih =>
    rw [Like.pieces.eq_def]
    simp [ih, he, Element.piece]
  | anyOne he _ ih =>
    rw [Like.pieces.eq_def]
    simp [ih, he, Element.piece]
  | ofClass he hd hafter hclosed hbody _ ih =>
    subst hd hafter
    rw [pieces_ofClass he hclosed, hbody.classPiece, ih, List.map_cons]
  | character he hrun hone hopen _ ih =>
    rw [pieces_character he hrun hone hopen, ih, List.map_cons, Element.piece]

/-! ## Every pattern is read -/

theorem exists_readsClass (body : List Char) : ∃ e, ReadsClass body e := by
  by_cases h : ∃ more, body = '^' :: more ∧ more ≠ []
  · obtain ⟨more, rfl, hne⟩ := h
    exact ⟨_, .noMemberOf hne⟩
  · exact ⟨_, .memberOf fun more hbody => Classical.byContradiction fun hne => h ⟨more, hbody, hne⟩⟩

theorem ReadsClass.unique (h : ReadsClass body e) (h' : ReadsClass body e') : e = e' := by
  cases h with
  | noMemberOf hne =>
    cases h' with
    | noMemberOf => rfl
    | memberOf h => exact absurd (h _ rfl) hne
  | memberOf h =>
    cases h' with
    | noMemberOf hne => exact absurd (h _ rfl) hne
    | memberOf => rfl

/-- **Every pattern has its elements.** -/
theorem exists_reads (escape : Char) (d : Dialect) (cs : List Char) :
    ∃ es, Reads escape d cs es := by
  induction hn : cs.length using Nat.strongRecOn generalizing cs with
  | _ n ih =>
    cases cs with
    | nil => exact ⟨[], .nil⟩
    | cons c rest =>
      rw [List.length_cons] at hn
      obtain ⟨es, hes⟩ := ih rest.length (by omega) rest rfl
      by_cases he : c = escape
      · subst he
        cases rest with
        | nil => exact ⟨_, .trailing⟩
        | cons next rest =>
          rw [List.length_cons] at hn
          obtain ⟨es, hes⟩ := ih rest.length (by omega) rest rfl
          exact ⟨_, .escaped hes⟩
      by_cases hrun : c = '%'
      · subst hrun
        exact ⟨_, .anyRun he hes⟩
      by_cases hone : c = '_'
      · subst hone
        exact ⟨_, .anyOne he hes⟩
      by_cases hclass : c = '[' ∧ d = .sqlServer ∧ ']' ∈ rest
      · obtain ⟨rfl, hd, hmem⟩ := hclass
        obtain ⟨body, after, rfl, hclosed⟩ := List.eq_append_cons_of_mem hmem
        obtain ⟨e, hbody⟩ := exists_readsClass body
        rw [List.length_append, List.length_cons] at hn
        obtain ⟨es, hes⟩ := ih after.length (by omega) after rfl
        exact ⟨_, .ofClass he hd rfl hclosed hbody hes⟩
      · exact ⟨_, .character he hrun hone (fun hc hd hmem => hclass ⟨hc, hd, hmem⟩) hes⟩

/-- **A pattern has no other elements.** -/
theorem Reads.unique (h : Reads escape d cs es) (h' : Reads escape d cs es') : es = es' := by
  induction h generalizing es' with
  | nil => cases h'; rfl
  | escaped _ ih =>
    cases h' with
    | escaped h' => rw [ih h']
    | _ => contradiction
  | trailing =>
    cases h' with
    | trailing => rfl
    | _ => contradiction
  | anyRun he _ ih =>
    cases h' with
    | anyRun _ h' => rw [ih h']
    | _ => contradiction
  | anyOne he _ ih =>
    cases h' with
    | anyOne _ h' => rw [ih h']
    | _ => contradiction
  | @ofClass body rest after e es he hd hafter hclosed hbody _ ih =>
    cases h' with
    | ofClass _ _ hafter' hclosed' hbody' h' =>
      have hcut := cutClass_closed hclosed rest
      rw [← hafter, hafter', cutClass_closed hclosed'] at hcut
      obtain ⟨rfl, rfl⟩ := Prod.mk.inj (Option.some.inj hcut)
      rw [hbody.unique hbody', ih h']
    | character _ _ _ hopen => exact absurd (by simp [hafter]) (hopen rfl hd)
    | _ => contradiction
  | character he hrun hone hopen _ ih =>
    cases h' with
    | character _ _ _ _ h' => rw [ih h']
    | ofClass _ hd hafter => exact absurd (by simp [hafter]) (hopen rfl hd)
    | _ => contradiction

/-! ## Texts -/

/-- An element that is no run takes the characters that its piece admits. -/
theorem Element.takes_iff_admits (h : e ≠ .anyRun) {part : List Char} :
    e.Takes part ↔ ∃ c, part = [c] ∧ e.piece.admits c = true := by
  have hclass : ∀ {negated body c}, (Piece.oneOf negated (classRanges body)).admits c = true ↔
      (InClass body c ↔ negated = false) := by
    intro negated body c
    rw [Piece.admits, ← inRanges_classRanges]
    cases negated <;> simp
  constructor
  · intro htakes
    cases htakes with
    | anyRun => exact absurd rfl h
    | anyOne c => exact ⟨c, rfl, rfl⟩
    | character c => exact ⟨c, rfl, beq_self_eq_true c⟩
    | memberOf hin => exact ⟨_, rfl, hclass.2 (by simpa using hin)⟩
    | noMemberOf hout => exact ⟨_, rfl, hclass.2 (by simpa using hout)⟩
  · rintro ⟨c, rfl, hadmits⟩
    cases e with
    | anyRun => exact absurd rfl h
    | anyOne => exact .anyOne c
    | character a =>
      obtain rfl := eq_of_beq hadmits
      exact .character a
    | memberOf body => exact .memberOf ((hclass.1 hadmits).2 rfl)
    | noMemberOf body =>
      refine .noMemberOf fun hin => ?_
      cases (hclass.1 hadmits).1 hin

theorem Element.piece_ne_anyRun (h : e ≠ .anyRun) : e.piece ≠ .anyRun := by
  cases e with
  | anyRun => exact absurd rfl h
  | _ => exact nofun

/-- The first piece matches a part that its element takes. -/
theorem matches_cons_iff {ps : List Piece} {text : List Char} :
    Matches (e.piece :: ps) text ↔
      ∃ part rest, part ++ rest = text ∧ e.Takes part ∧ Matches ps rest := by
  by_cases he : e = .anyRun
  · subst he
    constructor
    · intro h
      cases h with
      | run part h => exact ⟨part, _, rfl, .anyRun part, h⟩
      | one hne => exact absurd rfl hne
    · rintro ⟨part, rest, rfl, -, h⟩
      exact .run part h
  · simp only [Element.takes_iff_admits he]
    have hne := Element.piece_ne_anyRun he
    constructor
    · intro h
      generalize e.piece = piece at h hne
      cases h with
      | run => exact absurd rfl hne
      | one _ hc h => exact ⟨_, _, rfl, ⟨_, rfl, hc⟩, h⟩
    · rintro ⟨part, rest, rfl, ⟨c, rfl, hc⟩, h⟩
      exact .one hne hc h

/-- **The pieces of some elements match what can be cut for them.** -/
theorem matches_iff_cut {text : List Char} : Matches (es.map Element.piece) text ↔
    ∃ parts : List (List Char), parts.flatten = text ∧ List.Forall₂ Element.Takes es parts := by
  induction es generalizing text with
  | nil =>
    constructor
    · intro h
      cases h
      exact ⟨[], rfl, .nil⟩
    · rintro ⟨parts, rfl, hparts⟩
      cases hparts
      exact .nil
  | cons e es ih =>
    rw [List.map_cons, matches_cons_iff]
    constructor
    · rintro ⟨part, rest, rfl, htakes, h⟩
      obtain ⟨parts, rfl, hparts⟩ := ih.1 h
      exact ⟨part :: parts, rfl, .cons htakes hparts⟩
    · rintro ⟨parts, rfl, hparts⟩
      cases hparts with
      | cons htakes hparts => exact ⟨_, _, rfl, htakes, ih.2 ⟨_, rfl, hparts⟩⟩

/-- **The matcher is exact.** Read from left to right a pattern has its elements, and no others, and
a text is accepted exactly if it can be cut into parts that the elements take in order, for every
escape character and in either dialect. -/
theorem matchesText_iff_cut (text pattern : String) (escape : Char) (d : Dialect) :
    ∃ es, (∀ es', Reads escape d pattern.toList es' ↔ es' = es) ∧
      (matchesText text pattern escape d = true ↔
        ∃ parts : List (List Char), parts.flatten = text.toList ∧
          List.Forall₂ Element.Takes es parts) := by
  obtain ⟨es, hes⟩ := exists_reads escape d pattern.toList
  refine ⟨es, fun es' => ⟨fun h => h.unique hes, fun h => h ▸ hes⟩, ?_⟩
  rw [matchesText, hes.pieces, accepts_iff, matches_iff_cut]

end EntityFilter.Like
