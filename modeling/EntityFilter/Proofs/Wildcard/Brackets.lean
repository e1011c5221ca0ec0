import EntityFilter.Proofs.Wildcard.Language

/-!
# Patterns with brackets

One dialect writes a literal percent sign or underscore in brackets, which its reader takes for a
class of one character. An opening bracket of the argument is written as it stands. So it opens a
class too where a closing bracket comes after it, be it one of the argument or one that was written,
and a class stands for one character while the signs that went into it stand for two at least.

* `Wildcard.opensClass`: an opening bracket of an argument is closed later on.
* `Wildcard.pieces_sqlServer`: if none is, every sign has its own piece.
* `Like.width`, `Wildcard.width_sqlServer`: how long the shortest texts of a pattern are; a class
  makes them shorter.
* `Wildcard.matches_dialects_iff`: the patterns of an argument in the two dialects match the same
  texts exactly if no opening bracket is closed.
-/

namespace EntityFilter

namespace Like

variable {ps : List Piece} {t : List Char}

/-- **The length of the shortest texts** that pieces may match: runs may be empty. -/
def width : List Piece → Nat
  | [] => 0
  | piece :: ps => if piece = .anyRun then width ps else width ps + 1

theorem width_append (ps qs : List Piece) : width (ps ++ qs) = width ps + width qs := by
  induction ps with
  | nil => simp [width]
  | cons piece ps ih =>
    rw [List.cons_append, width, width, ih]
    split <;> omega

/-- A text is as long as the pieces are wide, or longer. -/
theorem Matches.width_le (h : Matches ps t) : width ps ≤ t.length := by
  induction h with
  | nil => exact Nat.le_refl 0
  | run part _ ih =>
    rw [width, if_pos rfl, List.length_append]
    omega
  | one hne _ _ ih =>
    rw [width, if_neg hne, List.length_cons]
    omega

/-- Pieces that match a text match one that is as short as can be. -/
theorem Matches.exists_short (h : Matches ps t) : ∃ t', Matches ps t' ∧ t'.length = width ps := by
  induction h with
  | nil => exact ⟨[], .nil, rfl⟩
  | run part _ ih =>
    obtain ⟨t', ht', hlen⟩ := ih
    exact ⟨[] ++ t', .run [] ht', by rw [width, if_pos rfl]; exact hlen⟩
  | @one piece c ps t hne hc _ ih =>
    obtain ⟨t', ht', hlen⟩ := ih
    exact ⟨c :: t', .one hne hc ht', by rw [width, if_neg hne, List.length_cons, hlen]⟩

/-- Pieces that admit the same characters match the same texts. -/
theorem matches_map_of_alike {α : Type} {f g : α → Piece}
    (hrun : ∀ a, f a = .anyRun → g a = .anyRun) (hone : ∀ a, g a = .anyRun → f a = .anyRun)
    (hadmits : ∀ a c, (f a).admits c = true → (g a).admits c = true) {as : List α}
    (h : Matches (as.map f) t) : Matches (as.map g) t := by
  induction as generalizing t with
  | nil => exact h
  | cons a as ih =>
    rw [List.map_cons] at h ⊢
    generalize hp : f a = piece at h
    cases h with
    | run part h =>
      rw [hrun a hp]
      exact .run part (ih h)
    | one hne hc h =>
      refine .one (fun hg => hne (hp ▸ hone a hg)) (hadmits a _ ?_) (ih h)
      rwa [hp]

/-- What stands before the first closing bracket is the class. -/
theorem cutClass_append {l : List Char} (h : ']' ∉ l) (rest : List Char) :
    cutClass (l ++ rest) = (cutClass rest).map fun (body, after) => (l ++ body, after) := by
  induction l with
  | nil => cases hcut : cutClass rest <;> simp [hcut]
  | cons c l ih =>
    have hc : c ≠ ']' := fun he => h (he ▸ List.mem_cons_self)
    have hl : ']' ∉ l := fun hmem => h (List.mem_cons_of_mem c hmem)
    have hne : (c == ']') = false := beq_false_of_ne hc
    rw [List.cons_append, cutClass, hne, ih hl]
    cases cutClass rest <;> rfl

theorem classPiece_ne_anyRun (body : List Char) : classPiece body ≠ .anyRun := by
  unfold classPiece
  split <;> exact nofun

/-- An opening bracket is a class if it is closed, and itself otherwise. -/
theorem pieces_bracket (rest : List Char) :
    pieces escapeMark .sqlServer ('[' :: rest) =
      match cutClass rest with
      | some (body, after) => classPiece body :: pieces escapeMark .sqlServer after
      | none => .literal '[' :: pieces escapeMark .sqlServer rest := by
  have hescape : ('[' == escapeMark) = false := rfl
  have hrun : ('[' == '%') = false := rfl
  have hone : ('[' == '_') = false := rfl
  rw [pieces.eq_def]
  simp only [hescape, hrun, hone, Bool.false_eq_true, if_false, beq_self_eq_true, Bool.and_self,
    if_true]
  split <;> simp_all

end Like

namespace Wildcard

namespace Sign

/-- Whether a sign is written with a closing bracket, which is then the last that is written. -/
def closes : Sign → Bool
  | anyRun => false
  | literal c => c == ']' || c == '%' || c == '_'

/-- The piece that a sign is where a character in brackets is a class. -/
def classed : Sign → Like.Piece
  | anyRun => .anyRun
  | literal c => if c = '%' ∨ c = '_' then .oneOf false [(c, c)] else .literal c

end Sign

/-- Whether one of the signs is an opening bracket that is closed later on. -/
def opens : List Sign → Bool
  | [] => false
  | s :: ss => (s == .literal '[' && ss.any Sign.closes) || opens ss

/-- **Whether an opening bracket of an argument is closed later on**, by a closing bracket or by a
character that is written in brackets. -/
def opensClass (argument : String) : Bool :=
  opens (signs argument.toList)

variable {s : Sign} {ss : List Sign} {t : List Char}

/-- A class is no run. -/
theorem classed_eq_anyRun : s.classed = .anyRun ↔ s.piece = .anyRun := by
  cases s with
  | anyRun => exact Iff.rfl
  | literal c =>
    rw [Sign.classed, Sign.piece]
    split <;> simp

/-- A class of one character admits it and no other one. -/
theorem admits_classed (s : Sign) (c : Char) : s.classed.admits c = s.piece.admits c := by
  cases s with
  | anyRun => rfl
  | literal a =>
    rw [Sign.classed, Sign.piece]
    by_cases hwild : a = '%' ∨ a = '_'
    · have hself : (decide (a ≤ c) && decide (c ≤ a)) = (a == c) := by
        rw [Bool.eq_iff_iff, Bool.and_eq_true, decide_eq_true_iff, decide_eq_true_iff, beq_iff_eq]
        exact ⟨fun h => Char.le_antisymm h.1 h.2, fun h => by simp [h]⟩
      rw [if_pos hwild]
      simp [Like.Piece.admits, Like.inRanges, hself]
    · rw [if_neg hwild]

/-- An opening bracket is written as it stands. -/
theorem written_bracket (rest : List Char) :
    Sign.written .sqlServer (.literal '[') ++ rest = '[' :: rest := rfl

/-- What a sign is written with beside a closing bracket. -/
theorem written_cases (s : Sign) : ∃ l, ']' ∉ l ∧
    s.written .sqlServer = if s.closes then l ++ [']'] else l := by
  cases s with
  | anyRun => exact ⟨['%'], by decide, rfl⟩
  | literal c =>
    by_cases hmark : c = '\\' ∨ c = '*'
    · refine ⟨['\\', c], ?_, ?_⟩ <;> rcases hmark with rfl | rfl <;> decide
    · by_cases hwild : c = '%' ∨ c = '_'
      · refine ⟨['[', c], ?_, ?_⟩ <;> rcases hwild with rfl | rfl <;> decide
      · by_cases hclose : c = ']'
        · subst hclose
          exact ⟨[], by decide, by decide⟩
        · obtain ⟨hp, hu⟩ := not_or.1 hwild
          refine ⟨[c], by simpa using Ne.symm hclose, ?_⟩
          simp [Sign.written, hmark, hp, hu, Sign.closes, hclose]

/-- **A class that is opened ends with the next sign that closes it.** -/
theorem cutClass_signs (ss : List Sign) :
    (ss.any Sign.closes = false ∧ Like.cutClass (ss.flatMap (Sign.written .sqlServer)) = none) ∨
      ∃ eaten s rest body, ss = eaten ++ s :: rest ∧ s.closes = true ∧
        Like.cutClass (ss.flatMap (Sign.written .sqlServer)) =
          some (body, rest.flatMap (Sign.written .sqlServer)) := by
  induction ss with
  | nil => exact Or.inl ⟨rfl, rfl⟩
  | cons s ss ih =>
    obtain ⟨l, hl, hwritten⟩ := written_cases s
    by_cases hs : s.closes = true
    · rw [if_pos hs] at hwritten
      refine Or.inr ⟨[], s, ss, l, rfl, hs, ?_⟩
      rw [List.flatMap_cons, hwritten, List.append_assoc, Like.cutClass_append hl]
      simp [Like.cutClass]
    · rw [if_neg hs] at hwritten
      rw [List.flatMap_cons, hwritten, Like.cutClass_append hl, List.any_cons,
        eq_false_of_ne_true hs, Bool.false_or]
      rcases ih with ⟨hnone, hcut⟩ | ⟨eaten, s', rest, body, rfl, hs', hcut⟩
      · exact Or.inl ⟨hnone, by rw [hcut]; rfl⟩
      · exact Or.inr ⟨s :: eaten, s', rest, l ++ body, rfl, hs', by rw [hcut]; rfl⟩

/-- The pieces of a sign that is no opening bracket, and those after it. -/
theorem pieces_classed (hs : s ≠ .literal '[') (rest : List Char) :
    Like.pieces escapeMark .sqlServer (s.written .sqlServer ++ rest) =
      s.classed :: Like.pieces escapeMark .sqlServer rest := by
  cases s with
  | anyRun => exact pieces_percent .sqlServer rest
  | literal c =>
    rw [Sign.written, Sign.classed]
    by_cases hmark : c = '\\' ∨ c = '*'
    · rw [if_pos hmark, if_neg (by rcases hmark with rfl | rfl <;> decide)]
      exact pieces_escaped .sqlServer c rest
    · rw [if_neg hmark]
      by_cases hwild : c = '%' ∨ c = '_'
      · rw [if_pos hwild, if_pos hwild, escaped, List.cons_append, Like.pieces_bracket]
        rcases hwild with rfl | rfl <;> rfl
      · rw [if_neg hwild, if_neg hwild, List.singleton_append, Like.pieces.eq_def]
        have hb : c ≠ '[' := fun he => hs (he ▸ rfl)
        obtain ⟨hm, -⟩ := not_or.1 hmark
        obtain ⟨hp, hu⟩ := not_or.1 hwild
        simp [escapeMark, hm, hp, hu, hb]

/-- **If no opening bracket is closed, every sign has its own piece.** -/
theorem pieces_sqlServer (h : opens ss = false) :
    Like.pieces escapeMark .sqlServer (ss.flatMap (Sign.written .sqlServer)) =
      ss.map Sign.classed := by
  induction ss with
  | nil => rw [List.flatMap_nil, Like.pieces, List.map_nil]
  | cons s ss ih =>
    obtain ⟨hopen, hrest⟩ := Bool.or_eq_false_iff.1 h
    rw [List.flatMap_cons, List.map_cons, ← ih hrest]
    by_cases hs : s = .literal '['
    · subst hs
      obtain ⟨-, hcut⟩ | ⟨eaten, s', rest, -, rfl, hs', -⟩ := cutClass_signs ss
      · rw [written_bracket, Like.pieces_bracket, hcut]
        rfl
      · simp [hs'] at hopen
    · exact pieces_classed hs _

/-- **A class makes the texts of a pattern shorter** than the argument asks for. -/
theorem width_sqlServer (ss : List Sign) :
    Like.width (Like.pieces escapeMark .sqlServer (ss.flatMap (Sign.written .sqlServer))) +
      (if opens ss then 1 else 0) ≤ Like.width (ss.map Sign.piece) := by
  -- a class takes in many signs at once, so the induction is on how many are left
  induction hn : ss.length using Nat.strongRecOn generalizing ss with
  | ind n ih =>
    cases ss with
    | nil => simp [Like.pieces, Like.width, opens]
    | cons s ss =>
      rw [List.length_cons] at hn
      have hrest := ih ss.length (by omega) ss rfl
      rw [List.flatMap_cons, List.map_cons]
      by_cases hs : s = .literal '['
      · subst hs
        rw [written_bracket, Like.pieces_bracket]
        obtain ⟨hnone, hcut⟩ | ⟨eaten, s, rest, body, rfl, hs, hcut⟩ := cutClass_signs ss
        · rw [hcut, opens, hnone, Bool.and_false, Bool.false_or]
          simp only [Like.width, Sign.piece, reduceCtorEq, if_false]
          omega
        · rw [List.length_append, List.length_cons] at hn
          have hafter := ih rest.length (by omega) rest rfl
          have hlit : s.piece ≠ .anyRun := by
            cases s with
            | anyRun => cases hs
            | literal c => simp [Sign.piece]
          have hbracket : (Sign.literal '[').piece ≠ .anyRun := by simp [Sign.piece]
          have hclass := Like.classPiece_ne_anyRun body
          rw [hcut, List.map_append, List.map_cons]
          simp only [Like.width, Like.width_append, if_neg hclass, if_neg hbracket, if_neg hlit]
          split <;> omega
      · have hopens : opens (s :: ss) = opens ss := by
          rw [opens, beq_false_of_ne hs, Bool.false_and, Bool.false_or]
        rw [pieces_classed hs, hopens, Like.width, Like.width]
        simp only [classed_eq_anyRun]
        split <;> omega

/-- Classes of one character match the texts that the characters match. -/
theorem matches_classed_iff :
    Like.Matches (ss.map Sign.classed) t ↔ Like.Matches (ss.map Sign.piece) t := by
  constructor
  · exact Like.matches_map_of_alike (fun _ => classed_eq_anyRun.1) (fun _ => classed_eq_anyRun.2)
      fun s c h => (admits_classed s c).symm.trans h
  · exact Like.matches_map_of_alike (fun _ => classed_eq_anyRun.2) (fun _ => classed_eq_anyRun.1)
      fun s c h => (admits_classed s c).trans h

/-- Every argument stands for some text. -/
theorem exists_matches (ss : List Sign) : ∃ t, Like.Matches (ss.map Sign.piece) t := by
  induction ss with
  | nil => exact ⟨[], .nil⟩
  | cons s ss ih =>
    obtain ⟨t, ht⟩ := ih
    cases s with
    | anyRun => exact ⟨[] ++ t, .run [] ht⟩
    | literal c => exact ⟨c :: t, matches_literal_iff.2 ⟨t, rfl, ht⟩⟩

/-- **The patterns of an argument in the two dialects match the same texts** exactly if no opening
bracket of the argument is closed. -/
theorem matches_dialects_iff (argument : String) :
    (∀ text, Like.matchesText text (toLike .sqlServer argument) escapeMark .sqlServer =
        Like.matchesText text (toLike .standard argument) escapeMark .standard) ↔
      opensClass argument = false := by
  have hread : ∀ d text, Like.matchesText text (toLike d argument) escapeMark d = true ↔
      Like.Matches (Like.pieces escapeMark d ((signs argument.toList).flatMap (Sign.written d)))
        text.toList := by
    intro d text
    rw [Like.matchesText, toLike, String.toList_ofList, toLikeChars_eq, Like.accepts_iff]
  constructor
  · intro hsame
    rw [← Bool.not_eq_true]
    intro hopens
    have hagree : ∀ t, Like.Matches (Like.pieces escapeMark .sqlServer
        ((signs argument.toList).flatMap (Sign.written .sqlServer))) t ↔
        Like.Matches ((signs argument.toList).map Sign.piece) t := by
      intro t
      have h := hsame (String.ofList t)
      rw [Bool.eq_iff_iff, hread, hread, String.toList_ofList, pieces_standard] at h
      exact h
    obtain ⟨t, ht⟩ := exists_matches (signs argument.toList)
    obtain ⟨t', ht', hlen⟩ := ((hagree t).2 ht).exists_short
    have hwidth := width_sqlServer (signs argument.toList)
    have hle := ((hagree t').1 ht').width_le
    rw [opensClass] at hopens
    rw [if_pos hopens] at hwidth
    omega
  · intro hopens text
    rw [Bool.eq_iff_iff, hread, hread, pieces_standard, pieces_sqlServer hopens,
      matches_classed_iff]

end Wildcard

end EntityFilter
