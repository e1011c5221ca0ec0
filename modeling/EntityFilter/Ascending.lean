/-!
# Ascending lists and ordered maps

A set or a map that answers list in ascending order is kept as a list in which every key
is smaller than the keys after it.

* `insertBy_ascending`: insertion keeps a list ascending.
* `mem_distinct`: sorting without repetition keeps the members.
* `OrderedMap.find?_insert`: an inserted entry is found under its key and hides nothing
  else, so the last entry of a key wins.
-/

namespace EntityFilter

variable {α β κ : Type} [Ord κ]

/-- Inserts by ascending key; an element with the same key gives way. -/
def insertBy (key : α → κ) (a : α) : List α → List α
  | [] => [a]
  | b :: rest =>
    match compare (key a) (key b) with
    | .lt => a :: b :: rest
    | .eq => a :: rest
    | .gt => b :: insertBy key a rest

/-- Every key is smaller than all the keys after it. -/
def Ascending (key : α → κ) (l : List α) : Prop :=
  l.Pairwise fun a b => compare (key a) (key b) = .lt

theorem mem_insertBy {key : α → κ} {a x : α} {l : List α} (h : x ∈ insertBy key a l) :
    x = a ∨ x ∈ l := by
  induction l with
  | nil => simpa [insertBy] using h
  | cons b rest ih =>
    unfold insertBy at h
    split at h <;> simp only [List.mem_cons] at h ⊢ <;> grind

/-- **Insertion keeps a list ascending.** -/
theorem insertBy_ascending [Std.TransOrd κ] [Std.LawfulEqOrd κ] {key : α → κ} {l : List α}
    (a : α) (h : Ascending key l) : Ascending key (insertBy key a l) := by
  induction l with
  | nil => simp [insertBy, Ascending]
  | cons b rest ih =>
    obtain ⟨hb, hrest⟩ := List.pairwise_cons.1 h
    unfold insertBy
    split
    · rename_i hab
      refine List.pairwise_cons.2 ⟨fun x hx => ?_, h⟩
      rcases List.mem_cons.1 hx with rfl | hx
      · exact hab
      · exact Std.TransCmp.lt_trans hab (hb x hx)
    · rename_i hab
      have hkey : key a = key b := Std.LawfulEqCmp.eq_of_compare hab
      exact List.pairwise_cons.2 ⟨fun x hx => hkey ▸ hb x hx, hrest⟩
    · rename_i hab
      refine List.pairwise_cons.2 ⟨fun x hx => ?_, ih hrest⟩
      rcases mem_insertBy hx with rfl | hx
      · exact Std.OrientedCmp.gt_iff_lt.1 hab
      · exact hb x hx

/-- The members of a list in ascending order, each once. -/
def distinct (l : List κ) : List κ :=
  l.foldr (insertBy id) []

theorem distinct_ascending [Std.TransOrd κ] [Std.LawfulEqOrd κ] (l : List κ) :
    Ascending id (distinct l) := by
  induction l with
  | nil => simp [distinct, Ascending]
  | cons a rest ih => exact insertBy_ascending a ih

/-- **Sorting without repetition keeps the members.** -/
theorem mem_distinct [Std.LawfulEqOrd κ] {l : List κ} {x : κ} :
    x ∈ distinct l ↔ x ∈ l := by
  have insert : ∀ (a : κ) (m : List κ), x ∈ insertBy id a m ↔ x = a ∨ x ∈ m := by
    intro a m
    induction m with
    | nil => simp [insertBy]
    | cons b rest ih =>
      unfold insertBy
      split
      · simp
      · rename_i hab
        have : a = b := Std.LawfulEqCmp.eq_of_compare hab
        simp [this]
      · simp only [List.mem_cons, ih]
        grind
  induction l with
  | nil => simp [distinct]
  | cons a rest ih => exact (insert a (distinct rest)).trans (by simp [ih])

/-- A finite map whose entries stand in ascending order of their keys. -/
structure OrderedMap (κ α : Type) [Ord κ] where
  entries : List (κ × α)
  ascending : Ascending Prod.fst entries

namespace OrderedMap

variable [Std.TransOrd κ] [Std.LawfulEqOrd κ]

/-- The map without entries. -/
def empty : OrderedMap κ α := ⟨[], List.Pairwise.nil⟩

/-- Stores a value under a key; a value already there gives way. -/
def insert (m : OrderedMap κ α) (k : κ) (a : α) : OrderedMap κ α :=
  ⟨insertBy Prod.fst (k, a) m.entries, insertBy_ascending _ m.ascending⟩

/-- The value under a key. -/
def find? (m : OrderedMap κ α) (k : κ) : Option α :=
  (m.entries.find? fun entry => compare k entry.1 == .eq).map Prod.snd

/-- Stores the entries one after the other, so the last one of a key stays. -/
def ofList (l : List (κ × α)) : OrderedMap κ α :=
  l.foldl (fun m entry => m.insert entry.1 entry.2) empty

omit [Std.TransOrd κ] [Std.LawfulEqOrd κ] in
@[simp] theorem find?_empty (k : κ) : (empty : OrderedMap κ α).find? k = none := rfl

/-- **An inserted value is found under its key and hides nothing else.** -/
theorem find?_insert (m : OrderedMap κ α) (k k' : κ) (a : α) :
    (m.insert k a).find? k' = if compare k' k = .eq then some a else m.find? k' := by
  obtain ⟨l, hl⟩ := m
  simp only [find?, insert]
  induction l with
  | nil => by_cases h : compare k' k = .eq <;> simp [insertBy, h]
  | cons b rest ih =>
    have ih := ih (List.pairwise_cons.1 hl).2
    unfold insertBy
    split
    · by_cases h : compare k' k = .eq <;> simp [h]
    · rename_i hab
      have hkey : k = b.1 := Std.LawfulEqCmp.eq_of_compare hab
      by_cases h : compare k' k = .eq
      · simp [h]
      · simp [h, ← hkey]
    · rename_i hab
      by_cases hb : compare k' b.1 = .eq
      · have hne : compare k' k ≠ .eq := fun h => by
          have h1 : k' = b.1 := Std.LawfulEqCmp.eq_of_compare hb
          have h2 : k' = k := Std.LawfulEqCmp.eq_of_compare h
          simp [← h1, h2] at hab
        simp [hb, hne]
      · simp only [beq_eq_false_iff_ne.2 hb, List.find?_cons, ih]

end OrderedMap

end EntityFilter
