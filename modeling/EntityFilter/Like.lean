import EntityFilter.Dialect

/-!
# LIKE patterns

A pattern is read as a list of pieces, each of which matches a run of characters or exactly
one character.

* `Like.pieces`: the pieces of a pattern.
* `Like.cuts`: for every end part of a text, whether a list of pieces matches it.
* `Like.Matches`: what it means that a text is cut into parts that the pieces match.
* `Like.accepts_iff`: the table of cuts decides that relation.
-/

namespace EntityFilter.Like

/-- A piece of a pattern. -/
inductive Piece
  | anyRun
  | anyOne
  | literal (c : Char)
  /-- One character inside, or outside, a set of ranges. -/
  | oneOf (negated : Bool) (ranges : List (Char × Char))
  deriving DecidableEq

/-- Whether a character lies in one of the ranges. -/
def inRanges (ranges : List (Char × Char)) (c : Char) : Bool :=
  ranges.any fun (lo, hi) => lo ≤ c && c ≤ hi

/-- Whether a piece matches a single character. -/
def Piece.admits : Piece → Char → Bool
  | anyRun, _ => true
  | anyOne, _ => true
  | literal a, c => a == c
  | oneOf negated ranges, c => inRanges ranges c != negated

/-- The ranges of a class, read left to right; a character that opens no ascending range
stands for itself. -/
def classRanges : List Char → List (Char × Char)
  | [] => []
  | [a] => [(a, a)]
  | [a, b] => [(a, a), (b, b)]
  | a :: b :: c :: rest =>
    if b == '-' && a ≤ c then (a, c) :: classRanges rest
    else (a, a) :: classRanges (b :: c :: rest)

/-- The piece of the text between the brackets of a class; a leading circumflex with more
after it turns the class round. -/
def classPiece : List Char → Piece
  | '^' :: c :: rest => .oneOf true (classRanges (c :: rest))
  | body => .oneOf false (classRanges body)

/-- The part before the first closing bracket and the part after it. -/
def cutClass : List Char → Option (List Char × List Char)
  | [] => none
  | c :: rest =>
    if c == ']' then some ([], rest)
    else (cutClass rest).map fun (body, after) => (c :: body, after)

theorem cutClass_length {cs body after : List Char} (h : cutClass cs = some (body, after)) :
    after.length < cs.length := by
  induction cs generalizing body after with
  | nil => simp [cutClass] at h
  | cons c rest ih =>
    unfold cutClass at h
    split at h
    · simp only [Option.some.injEq, Prod.mk.injEq] at h
      simp [← h.2]
    · obtain ⟨⟨b, a⟩, hr, hp⟩ := Option.map_eq_some_iff.1 h
      simp only [Prod.mk.injEq] at hp
      have := ih hr
      simp only [List.length_cons, ← hp.2]
      omega

/-- **The pieces of a pattern.** The escape character makes the next character a literal and
is one itself at the end; a bracket opens a class only if it is closed. -/
def pieces (escape : Char) (d : Dialect) (cs : List Char) : List Piece :=
  match cs with
  | [] => []
  | c :: rest =>
    if c == escape then
      match rest with
      | [] => [.literal c]
      | next :: rest' => .literal next :: pieces escape d rest'
    else if c == '%' then .anyRun :: pieces escape d rest
    else if c == '_' then .anyOne :: pieces escape d rest
    else if c == '[' && d == .sqlServer then
      match _h : cutClass rest with
      | some (body, after) => classPiece body :: pieces escape d after
      | none => .literal c :: pieces escape d rest
    else .literal c :: pieces escape d rest
termination_by cs.length
decreasing_by
  all_goals simp only [List.length_cons]
  any_goals omega
  have shorter := cutClass_length _h
  omega

/-- The end parts of a list, longest first, tested one by one. -/
def endsWhere (p : List Char → Bool) : List Char → List Bool
  | [] => [p []]
  | c :: rest => p (c :: rest) :: endsWhere p rest

/-- Whether one of the truths that follow holds, for every place. -/
def anyLater : List Bool → List Bool
  | [] => []
  | b :: rest =>
    let later := anyLater rest
    (b || later.headD false) :: later

/-- Whether the first character is admitted and the truth one place later holds, for every
place. -/
def oneLater (p : Char → Bool) : List Char → List Bool → List Bool
  | c :: cs, _ :: b :: rest => (p c && b) :: oneLater p cs (b :: rest)
  | _, _ => [false]

/-- **For every end part of a text, longest first, whether the pieces match it.** -/
def cuts (text : List Char) : List Piece → List Bool
  | [] => endsWhere List.isEmpty text
  | .anyRun :: rest => anyLater (cuts text rest)
  | piece :: rest => oneLater piece.admits text (cuts text rest)

/-- Whether the pieces match a text. -/
def accepts (ps : List Piece) (text : List Char) : Bool :=
  (cuts text ps).headD false

/-- Whether a text matches a pattern. -/
def matchesText (text pattern : String) (escape : Char) (d : Dialect) : Bool :=
  accepts (pieces escape d pattern.toList) text.toList

/-- **A text cut into parts that the pieces match in order.** -/
inductive Matches : List Piece → List Char → Prop
  | nil : Matches [] []
  | run (part : List Char) {ps : List Piece} {text : List Char} :
      Matches ps text → Matches (.anyRun :: ps) (part ++ text)
  | one {piece : Piece} {c : Char} {ps : List Piece} {text : List Char} :
      piece ≠ .anyRun → piece.admits c → Matches ps text → Matches (piece :: ps) (c :: text)

/-- The end parts of a list, longest first. -/
def endParts : List Char → List (List Char)
  | [] => [[]]
  | c :: rest => (c :: rest) :: endParts rest

theorem endsWhere_eq (p : List Char → Bool) (text : List Char) :
    endsWhere p text = (endParts text).map p := by
  induction text with
  | nil => rfl
  | cons c rest ih => simp [endsWhere, endParts, ih]

theorem anyLater_endParts (p : List Char → Bool) (text : List Char) :
    anyLater ((endParts text).map p) =
      (endParts text).map fun t => (endParts t).any p := by
  induction text with
  | nil => simp [endParts, anyLater]
  | cons c rest ih =>
    simp only [endParts, List.map_cons, anyLater, ih]
    cases rest <;> simp [endParts]

theorem oneLater_endParts (q : Char → Bool) (p : List Char → Bool) (text : List Char) :
    oneLater q text ((endParts text).map p) =
      (endParts text).map fun t => match t with
        | [] => false
        | c :: rest => q c && p rest := by
  induction text with
  | nil => rfl
  | cons c rest ih => cases rest <;> simp_all [endParts, oneLater]

theorem matches_run_iff {ps : List Piece} {text : List Char} :
    Matches (.anyRun :: ps) text ↔ ∃ t ∈ endParts text, Matches ps t := by
  have ends : ∀ part t : List Char, t ∈ endParts (part ++ t) := by
    intro part t
    induction part with
    | nil => cases t <;> simp [endParts]
    | cons c rest ih => exact List.mem_cons_of_mem _ ih
  constructor
  · intro h
    cases h with
    | run part h => exact ⟨_, ends part _, h⟩
    | one hp => exact absurd rfl hp
  · rintro ⟨t, ht, h⟩
    induction text with
    | nil =>
      obtain rfl : t = [] := by simpa [endParts] using ht
      exact Matches.run [] h
    | cons c rest ih =>
      rcases List.mem_cons.1 ht with rfl | ht
      · exact Matches.run [] h
      · cases ih ht with
        | run part h => exact Matches.run (c :: part) h
        | one hp => exact absurd rfl hp

/-- **The table tells for every end part whether the pieces match it.** -/
theorem cuts_eq (ps : List Piece) (text : List Char) :
    ∃ p : List Char → Bool, cuts text ps = (endParts text).map p ∧
      ∀ t, p t = true ↔ Matches ps t := by
  induction ps with
  | nil =>
    refine ⟨List.isEmpty, endsWhere_eq _ _, fun t => ?_⟩
    cases t with
    | nil => simpa using Matches.nil
    | cons c rest => simpa using fun h => nomatch h
  | cons piece ps ih =>
    obtain ⟨p, hp, hm⟩ := ih
    by_cases hrun : piece = .anyRun
    · subst hrun
      refine ⟨_, by rw [cuts, hp, anyLater_endParts], fun t => ?_⟩
      simp only [matches_run_iff, List.any_eq_true, hm]
    · have hc : cuts text (piece :: ps) = oneLater piece.admits text (cuts text ps) := by
        cases piece <;> first | exact absurd rfl hrun | rfl
      refine ⟨_, by rw [hc, hp, oneLater_endParts], fun t => ?_⟩
      cases t with
      | nil =>
        simp only [Bool.false_eq_true, false_iff]
        intro h
        generalize e : ([] : List Char) = t at h
        cases h with
        | run => exact hrun rfl
        | one => cases e
      | cons c rest =>
        simp only [Bool.and_eq_true, hm]
        constructor
        · rintro ⟨hc, h⟩
          exact Matches.one hrun hc h
        · intro h
          generalize e : c :: rest = t at h
          cases h with
          | run => exact absurd rfl hrun
          | one _ hc h =>
            obtain ⟨rfl, rfl⟩ := List.cons.inj e
            exact ⟨hc, h⟩

/-- **The matcher decides whether a text can be cut into parts that the pieces match.** -/
theorem accepts_iff {ps : List Piece} {text : List Char} :
    accepts ps text = true ↔ Matches ps text := by
  obtain ⟨p, hp, hm⟩ := cuts_eq ps text
  rw [accepts, hp, ← hm]
  cases text <;> simp [endParts]

end EntityFilter.Like
