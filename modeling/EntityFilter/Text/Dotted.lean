/-!
# Dotted names

Selectors and store paths are written as segments joined by points.

* `segments_ne_nil`: every text has a first segment.
* `joinDots_segments`: joining the segments gives the text back.
-/

namespace EntityFilter.Text

/-- The pieces of a sequence of characters between its points. -/
def splitDots : List Char → List (List Char)
  | [] => [[]]
  | c :: rest =>
    if c == '.' then [] :: splitDots rest
    else match splitDots rest with
      | [] => [[c]]
      | piece :: pieces => (c :: piece) :: pieces

/-- The segments of a dotted text. -/
def segments (s : String) : List String :=
  (splitDots s.toList).map String.ofList

/-- Segments written one after the other with points between them. -/
def joinDots (pieces : List String) : String :=
  ".".intercalate pieces

theorem splitDots_ne_nil (cs : List Char) : splitDots cs ≠ [] := by
  induction cs with
  | nil => simp [splitDots]
  | cons c rest ih =>
    unfold splitDots
    split
    · simp
    · split <;> simp

/-- **Every text has a first segment.** -/
theorem segments_ne_nil (s : String) : segments s ≠ [] := by
  simp [segments, splitDots_ne_nil]

theorem intercalate_splitDots (cs : List Char) : ['.'].intercalate (splitDots cs) = cs := by
  induction cs with
  | nil => rfl
  | cons c rest ih =>
    unfold splitDots
    split
    · rename_i hc
      cases h : splitDots rest with
      | nil => exact absurd h (splitDots_ne_nil rest)
      | cons piece pieces => rw [List.intercalate_cons_cons, ← h, ih]; simp_all
    · cases h : splitDots rest with
      | nil => exact absurd h (splitDots_ne_nil rest)
      | cons piece pieces =>
        cases pieces with
        | nil => simp_all
        | cons piece' pieces =>
          rw [List.intercalate_cons_cons, ← ih, h, List.intercalate_cons_cons]
          simp

/-- **Joining the segments gives the text back.** -/
theorem joinDots_segments (s : String) : joinDots (segments s) = s := by
  apply String.toList_injective
  have : (splitDots s.toList).map (String.toList ∘ String.ofList) = splitDots s.toList := by
    simp [Function.comp_def]
  simp only [joinDots, segments, String.toList_intercalate, List.map_map, this]
  exact intercalate_splitDots s.toList

end EntityFilter.Text
