import EntityFilter.Text.Case
import EntityFilter.Text.Dotted
import Mathlib.Data.List.Forall2

/-!
# Dotted names in letters of either case

ASCII letters of either case are alike in names, and no letter is like a point. So dotted names are
the same if they are so segment by segment.

* `Text.sameName_iff_segments`: this.
* `Text.segments_joined`: a name in front of other segments is the first segment.
* `Text.Word`: ASCII without points, what can be written as one segment.
* `Text.sameName_lower`: such a word is the same name in lower case.
-/

namespace EntityFilter.Text

variable {s t u name : String} {c : Char} {cs ds : List Char}

/-! ## Sameness -/

theorem sameName_iff :
    sameName s t = true ↔ s.toList.map Char.toLower = t.toList.map Char.toLower :=
  beq_iff_eq

theorem sameName_symm (h : sameName s t = true) : sameName t s = true :=
  sameName_iff.2 (sameName_iff.1 h).symm

theorem sameName_trans (h : sameName s t = true) (h' : sameName t u = true) :
    sameName s u = true :=
  sameName_iff.2 ((sameName_iff.1 h).trans (sameName_iff.1 h'))

/-! ## Segments -/

/-- No letter is like a point. -/
theorem toLower_eq_point : c.toLower = '.' ↔ c = '.' := by
  constructor
  · intro h
    unfold Char.toLower at h
    split at h
    · rename_i hrange
      have hval := congrArg Char.val h
      simp only [ge_iff_le, UInt32.le_iff_toNat_le, UInt32.toNat_inj.symm, UInt32.toNat_add]
        at hrange hval
      simp at hrange hval
      omega
    · exact h
  · rintro rfl
    rfl

/-- A name without points is the same as such names only. -/
theorem not_mem_of_sameName (h : sameName s t = true) (ht : '.' ∉ t.toList) : '.' ∉ s.toList := by
  intro hs
  have hmem : '.' ∈ s.toList.map Char.toLower := List.mem_map.2 ⟨_, hs, rfl⟩
  rw [sameName_iff.1 h] at hmem
  obtain ⟨c, hc, hpoint⟩ := List.mem_map.1 hmem
  exact ht (toLower_eq_point.1 hpoint ▸ hc)

/-- Cutting at points does not look at letters. -/
theorem splitDots_toLower (cs : List Char) :
    splitDots (cs.map Char.toLower) = (splitDots cs).map (List.map Char.toLower) := by
  induction cs with
  | nil => rfl
  | cons c rest ih =>
    rw [List.map_cons, splitDots, splitDots, ih]
    by_cases hc : c = '.'
    · simp [hc]
    · rw [if_neg (by simpa [toLower_eq_point] using hc), if_neg (by simpa using hc)]
      cases splitDots rest <;> rfl

/-- **Dotted names are the same if they are so segment by segment.** -/
theorem sameName_iff_segments : sameName s t = true ↔
    List.Forall₂ (fun a b => sameName a b = true) (segments s) (segments t) := by
  have hcut : s.toList.map Char.toLower = t.toList.map Char.toLower ↔
      splitDots (s.toList.map Char.toLower) = splitDots (t.toList.map Char.toLower) := by
    refine ⟨congrArg _, fun h => ?_⟩
    rw [← intercalate_splitDots (s.toList.map _), h, intercalate_splitDots]
  rw [sameName_iff, hcut, splitDots_toLower, splitDots_toLower, segments, segments,
    List.forall₂_map_left_iff, List.forall₂_map_right_iff, ← List.forall₂_eq_eq_eq,
    List.forall₂_map_left_iff, List.forall₂_map_right_iff]
  simp only [sameName_iff, String.toList_ofList]

/-- The first point ends the first segment. -/
theorem splitDots_append (h : '.' ∉ cs) : splitDots (cs ++ '.' :: ds) = cs :: splitDots ds := by
  induction cs with
  | nil => rfl
  | cons c cs ih =>
    obtain ⟨hc, hcs⟩ := not_or.1 (List.mem_cons.not.1 h)
    rw [List.cons_append, splitDots, if_neg fun h => hc (eq_of_beq h).symm, ih hcs]

/-- Without a point there is one segment. -/
theorem splitDots_of_not_mem (h : '.' ∉ cs) : splitDots cs = [cs] := by
  induction cs with
  | nil => rfl
  | cons c cs ih =>
    obtain ⟨hc, hcs⟩ := not_or.1 (List.mem_cons.not.1 h)
    rw [splitDots, if_neg fun h => hc (eq_of_beq h).symm, ih hcs]

theorem segments_single (h : '.' ∉ name.toList) : segments name = [name] := by
  rw [segments, splitDots_of_not_mem h, List.map_singleton, String.ofList_toList]

/-- **A name in front of other segments** is the first one. -/
theorem segments_joined (h : '.' ∉ name.toList) (t : String) :
    segments (name ++ "." ++ t) = name :: segments t := by
  have hpoint : (name ++ "." ++ t).toList = name.toList ++ '.' :: t.toList := by
    simp [String.toList_append]
  rw [segments, hpoint, splitDots_append h, List.map_cons, String.ofList_toList, segments]

theorem not_mem_of_splitDots {piece : List Char} (h : piece ∈ splitDots cs) : '.' ∉ piece := by
  induction cs generalizing piece with
  | nil =>
    obtain rfl := List.mem_singleton.1 h
    exact List.not_mem_nil
  | cons c rest ih =>
    unfold splitDots at h
    split at h
    · rcases List.mem_cons.1 h with rfl | h
      · exact List.not_mem_nil
      · exact ih h
    · rename_i hc
      split at h
      · exact absurd ‹_› (splitDots_ne_nil rest)
      · rename_i first pieces hrest
        rcases List.mem_cons.1 h with rfl | h
        · refine List.mem_cons.not.2 (not_or.2 ⟨fun hpoint => hc ?_, ih ?_⟩)
          · rw [← hpoint]
            rfl
          · rw [hrest]
            exact List.mem_cons_self
        · refine ih ?_
          rw [hrest]
          exact List.mem_cons_of_mem _ h

/-- There are no points in segments. -/
theorem not_mem_of_segments (h : name ∈ segments s) : '.' ∉ name.toList := by
  obtain ⟨piece, hpiece, rfl⟩ := List.mem_map.1 h
  rw [String.toList_ofList]
  exact not_mem_of_splitDots hpiece

/-! ## Words -/

/-- **A word**: ASCII without points, which can be written as one segment and in either case. -/
def Word (t : String) : Prop := ∀ c ∈ t.toList, c.toNat < 128 ∧ c ≠ '.'

instance (t : String) : Decidable (Word t) :=
  -- the letters of the word are gone through, and not all characters
  List.decidableBAll (fun c : Char => c.toNat < 128 ∧ c ≠ '.') t.toList

theorem Word.not_mem (h : Word t) : '.' ∉ t.toList :=
  fun hmem => (h _ hmem).2 rfl

/-- Without context there is no final sigma, so ASCII is lowered letter by letter. -/
theorem lowerAfter_ascii (h : ∀ c ∈ cs, c.toNat < 128) (before : List Char) :
    lowerAfter before cs = cs.map Char.toLower := by
  induction cs generalizing before with
  | nil => rfl
  | cons c cs ih =>
    obtain ⟨hc, hcs⟩ := List.forall_mem_cons.1 h
    have hsigma : c ≠ 'Σ' := by
      rintro rfl
      exact absurd hc (by decide)
    rw [lowerAfter, ih hcs, if_neg (by simpa using hsigma), lowerChar, if_pos hc, List.map_cons,
      List.singleton_append]

theorem Word.toList_lower (h : Word t) : (lower t).toList = t.toList.map Char.toLower := by
  rw [lower, String.toList_ofList, lowerAfter_ascii fun c hc => (h c hc).1]

/-- In lower case there is no point either. -/
theorem Word.not_mem_lower (h : Word t) : '.' ∉ (lower t).toList := by
  rw [h.toList_lower]
  intro hmem
  obtain ⟨c, hc, hpoint⟩ := List.mem_map.1 hmem
  exact (h c hc).2 (toLower_eq_point.1 hpoint)

/-- **A word is the same name in lower case.** -/
theorem sameName_lower (h : Word t) : sameName (lower t) t = true := by
  have hascii : ∀ n < 128, (Char.ofNat n).toLower.toLower = (Char.ofNat n).toLower := by
    decide +kernel
  rw [sameName_iff, h.toList_lower, List.map_map]
  refine List.map_congr_left fun c hc => ?_
  have hlower := hascii c.toNat (h c hc).1
  rwa [Char.ofNat_toNat] at hlower

/-- So it does not matter which of the two is compared. -/
theorem sameName_lower_iff (h : Word t) : sameName s (lower t) = true ↔ sameName t s = true :=
  ⟨fun hsame => sameName_symm (sameName_trans hsame (sameName_lower h)),
    fun hsame => sameName_symm (sameName_trans (sameName_lower h) hsame)⟩

end EntityFilter.Text
