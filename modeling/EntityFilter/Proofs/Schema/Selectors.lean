import EntityFilter.Proofs.Compile.Confinement
import EntityFilter.Proofs.Compile.Trails
import EntityFilter.Proofs.Text.Names

/-!
# The selectors that are advertised

The listing of a schema has a line for every selector, and one for all the keys of a map. Selectors
are resolved without the listing, segment by segment.

* `Schema.Advertises`: what a reader of the listing may write.
* `SchemaEntry.Accepts`: what may follow the name of a field when a selector is resolved.
* `Schema.distinct_of_register`: fields of a registered schema have different names.
* `Schema.lists_iff`, `Schema.advertises_keys_iff`: the lines of the listing, segment by segment.
* `Schema.resolves_iff`: what is advertised resolves, and beside it selectors that go on with
  further attributes.
-/

namespace EntityFilter

open Text

/-! ## The listing -/

namespace Schema

/-- The lines of the listing that stand for the keys of maps. -/
def keyLines (s : Schema) : List String :=
  ((s.entries.map SchemaEntry.field).filter fun f => f.isMap).map plainSelector

/-- **A selector is listed**, letters of either case being alike, on a line that stands for itself
only. -/
def Lists (s : Schema) (selector : String) : Prop :=
  ∃ line ∈ s.expectedFields, line ∉ s.keyLines ∧ sameName selector line = true

/-- **A selector is advertised**: it is listed, or it names a key where the keys of a map are
listed. -/
inductive Advertises (s : Schema) (selector : String) : Prop
  | listed (h : s.Lists selector)
  | key {stem name key : String} (hline : stem ++ ".keyName" ∈ s.expectedFields)
      (hkeys : stem ++ ".keyName" ∈ s.keyLines) (hselector : selector = name ++ "." ++ key)
      (hname : sameName name stem = true) (hne : key ≠ "") (hdot : '.' ∉ key.toList)

/-- **A selector goes on** with two or more attributes, each of which is listed below its field. -/
def Chains (s : Schema) (selector : String) : Prop :=
  ∃ name parts, segments selector = name :: parts ∧ 2 ≤ parts.length ∧
    ∀ part ∈ parts, s.Lists (name ++ "." ++ part)

/-- **Fields are named by words**, and so is what may be named below them. -/
structure Worded (s : Schema) : Prop where
  names : ∀ entry ∈ s.entries, Text.Word entry.field.name
  subs : ∀ entry ∈ s.entries, ∀ sub ∈ entry.field.subs, Text.Word sub

/-- **Fields are told apart**: no two have the same name, and nothing is named below a map. -/
structure ToldApart (s : Schema) : Prop where
  names : s.entries.Pairwise fun entry other => sameName entry.field.name other.field.name = false
  maps : ∀ entry ∈ s.entries, entry.field.isMap = true → entry.field.subs = []

end Schema

/-- **What may follow the name of a field**: a key after that of a map, nothing where nothing may be
named below the field, and otherwise attributes that may be named. -/
def SchemaEntry.Accepts (entry : SchemaEntry) (rest : List String) : Prop :=
  if entry.field.isMap then ∃ key, key ≠ "" ∧ rest = [key]
  else (entry.field.subs ≠ [] → rest ≠ []) ∧
    ∀ part ∈ rest, ∃ sub ∈ entry.field.subs, sameName sub part = true

variable {m : Model} {s s' : Schema} {fields : List Field} {f : Field} {entry other : SchemaEntry}
  {entity selector name line : String} {parts rest : List String}

/-! ## Resolution -/

/-- Attributes are found below a field if each of them is. -/
theorem Field.mapM_sub?_isSome (f : Field) (parts : List String) :
    (parts.mapM f.sub?).isSome ↔ ∀ part ∈ parts, ∃ sub ∈ f.subs, sameName sub part = true := by
  induction parts with
  | nil => simp
  | cons part parts ih =>
    have hfirst : (f.sub? part).isSome ↔ ∃ sub ∈ f.subs, sameName sub part = true := by
      rw [sub?, List.find?_isSome]
    rw [List.mapM_cons, List.forall_mem_cons, ← hfirst, ← ih]
    cases f.sub? part <;> cases parts.mapM f.sub? <;> simp

namespace SchemaEntry

/-- After the name of a map there is a key. -/
theorem accepts_of_map (h : entry.field.isMap = true) :
    entry.Accepts rest ↔ ∃ key, key ≠ "" ∧ rest = [key] := by
  rw [Accepts, if_pos h]

/-- After any other name there are attributes, and at least one where one may be named. -/
theorem accepts_of_attributes (h : entry.field.isMap = false) :
    entry.Accepts rest ↔ (entry.field.subs ≠ [] → rest ≠ []) ∧
      ∀ part ∈ rest, ∃ sub ∈ entry.field.subs, sameName sub part = true := by
  rw [Accepts, if_neg (Bool.not_eq_true _ ▸ h)]

/-- **How many attributes there are after a name**: none, one, or more. -/
theorem accepts_iff_count (h : entry.field.isMap = false) :
    entry.Accepts rest ↔ ((entry.field.subs = [] ∧ rest = []) ∨
        ∃ part, rest = [part] ∧ ∃ sub ∈ entry.field.subs, sameName sub part = true) ∨
      2 ≤ rest.length ∧ ∀ part ∈ rest, ∃ sub ∈ entry.field.subs, sameName sub part = true := by
  rw [accepts_of_attributes h]
  match rest with
  | [] => simp
  | [part] => simp
  | first :: second :: more => simp

end SchemaEntry

namespace Schema

/-- **A selector resolves** if it begins with the name of a field that accepts what follows. -/
theorem resolves_iff_accepts (h : segments selector = name :: rest) :
    (∃ r, s.resolve selector = .ok r) ↔
      ∃ entry, s.entry? name = some entry ∧ entry.Accepts rest := by
  unfold resolve
  rw [h, resolveSegments]
  cases hentry : s.entry? name with
  | none => simp
  | some entry =>
    simp only [Option.some.injEq, exists_eq_left']
    cases hmap : entry.field.isMap with
    | true =>
      rw [SchemaEntry.accepts_of_map hmap]
      simp only [if_true]
      constructor
      · rintro ⟨r, hr⟩
        split at hr
        · split at hr
          · cases hr
          · exact ⟨_, ‹_›, rfl⟩
        · cases hr
      · rintro ⟨key, hne, rfl⟩
        exact ⟨_, if_neg hne⟩
    | false =>
      rw [SchemaEntry.accepts_of_attributes hmap]
      simp only [Bool.false_eq_true, if_false, ← Field.mapM_sub?_isSome]
      cases hsubs : rest.mapM entry.field.sub? with
      | none =>
        refine ⟨fun ⟨r, hr⟩ => ?_, fun hall => absurd hall.2 nofun⟩
        split at hr <;> cases hr
      | some subs =>
        cases hbare : !entry.field.subs.isEmpty && rest.isEmpty <;> simp_all

/-! ## Registered fields -/

/-- The names of the fields that are added are new. -/
theorem pairwise_of_extend (h : s.extend m fields = .ok s')
    (hs : s.entries.Pairwise fun entry other =>
      sameName entry.field.name other.field.name = false) :
    s'.entries.Pairwise fun entry other => sameName entry.field.name other.field.name = false := by
  induction fields generalizing s with
  | nil =>
    obtain rfl := Except.ok.inj h
    exact hs
  | cons f rest ih =>
    rw [extend] at h
    split at h
    · cases h
    rename_i hnew
    obtain ⟨added, hadded, h⟩ := bind_eq_ok.1 h
    obtain ⟨owner, terminal, hpasses⟩ := Field.check_ok hadded
    refine ih h (List.pairwise_append.2 ⟨hs, List.pairwise_singleton _ _, ?_⟩)
    intro entry he other ho
    obtain rfl := List.mem_singleton.1 ho
    rw [hpasses.field]
    unfold entry? at hnew
    rw [List.find?_isSome] at hnew
    exact Bool.eq_false_iff.2 fun hsame => hnew ⟨entry, he, hsame⟩

/-- **The fields of a registered schema are told apart.** -/
theorem toldApart_of_register (h : Schema.register m entity fields = .ok s) : s.ToldApart where
  names := pairwise_of_extend h List.Pairwise.nil
  maps entry he hmap := by
    obtain ⟨f, owner, terminal, hpasses⟩ := passes_of_register h he
    rw [hpasses.field] at hmap ⊢
    exact hpasses.subs hmap

namespace ToldApart

/-- A field is known by its name. -/
theorem eq_of_sameName (h : s.ToldApart) (he : entry ∈ s.entries) (ho : other ∈ s.entries)
    (hname : sameName entry.field.name name = true)
    (hname' : sameName other.field.name name = true) : entry = other := by
  by_contra hne
  have hsymm : Std.Symm fun entry other : SchemaEntry =>
      sameName entry.field.name other.field.name = false :=
    ⟨fun a b hab => Bool.eq_false_iff.2 fun hba => Bool.eq_false_iff.1 hab (sameName_symm hba)⟩
  have hdiffer := h.names.forall he ho hne
  exact Bool.eq_false_iff.1 hdiffer (sameName_trans hname (sameName_symm hname'))

/-- A name finds the field that has it. -/
theorem entry?_iff (h : s.ToldApart) : s.entry? name = some entry ↔
    entry ∈ s.entries ∧ sameName entry.field.name name = true := by
  have hfound : ∀ {entry}, s.entry? name = some entry →
      entry ∈ s.entries ∧ sameName entry.field.name name = true := by
    intro entry hfind
    unfold entry? at hfind
    exact ⟨List.mem_of_find?_eq_some hfind, by simpa using List.find?_some hfind⟩
  refine ⟨hfound, fun ⟨he, hname⟩ => ?_⟩
  cases hfind : s.entry? name with
  | none => exact absurd hname (List.find?_eq_none.1 hfind entry he)
  | some other => rw [h.eq_of_sameName he (hfound hfind).1 hname (hfound hfind).2]

end ToldApart

/-! ## Lines -/

theorem mem_expectedFields : line ∈ s.expectedFields ↔ ∃ entry ∈ s.entries,
    (entry.field.subs = [] ∧ line = plainSelector entry.field) ∨
      ∃ sub ∈ entry.field.subs, line = lower entry.field.name ++ "." ++ sub := by
  simp only [expectedFields, List.mem_append, List.mem_map, List.mem_filter, List.mem_flatMap,
    nestedSelectors, List.isEmpty_iff]
  constructor
  · rintro (⟨f, ⟨⟨entry, he, rfl⟩, hsubs⟩, rfl⟩ | ⟨f, ⟨entry, he, rfl⟩, sub, hsub, rfl⟩)
    · exact ⟨entry, he, Or.inl ⟨hsubs, rfl⟩⟩
    · exact ⟨entry, he, Or.inr ⟨sub, hsub, rfl⟩⟩
  · rintro ⟨entry, he, ⟨hsubs, rfl⟩ | ⟨sub, hsub, rfl⟩⟩
    · exact Or.inl ⟨_, ⟨⟨entry, he, rfl⟩, hsubs⟩, rfl⟩
    · exact Or.inr ⟨_, ⟨entry, he, rfl⟩, sub, hsub, rfl⟩

theorem plainSelector_map (h : f.isMap = true) : plainSelector f = lower f.name ++ ".keyName" :=
  if_pos h

theorem plainSelector_name (h : f.isMap = false) : plainSelector f = lower f.name := by
  rw [plainSelector, h, if_neg Bool.false_ne_true]

theorem mem_keyLines : line ∈ s.keyLines ↔ ∃ entry ∈ s.entries, entry.field.isMap = true ∧
    line = lower entry.field.name ++ ".keyName" := by
  simp only [keyLines, List.mem_map, List.mem_filter]
  constructor
  · rintro ⟨f, ⟨⟨entry, he, rfl⟩, hmap⟩, rfl⟩
    exact ⟨entry, he, hmap, plainSelector_map hmap⟩
  · rintro ⟨entry, he, hmap, rfl⟩
    exact ⟨_, ⟨⟨entry, he, rfl⟩, hmap⟩, plainSelector_map hmap⟩

/-- The segments of a line. -/
theorem segments_line (hs : s.Worded) (he : entry ∈ s.entries) {rest : String}
    (hrest : '.' ∉ rest.toList) :
    segments (lower entry.field.name ++ "." ++ rest) = [lower entry.field.name, rest] := by
  rw [segments_joined (hs.names entry he).not_mem_lower, segments_single hrest]

/-- A line of a key is no other line. -/
theorem not_mem_keyLines (hs : s.Worded) (h : s.ToldApart) (he : entry ∈ s.entries)
    (hmap : entry.field.isMap = false) {rest : List String}
    (hline : segments line = lower entry.field.name :: rest) : line ∉ s.keyLines := by
  intro hkeys
  obtain ⟨other, ho, hisMap, rfl⟩ := mem_keyLines.1 hkeys
  have hkey : "." ++ "keyName" = ".keyName" := by rfl
  rw [← hkey, ← String.append_assoc, segments_line hs ho (by decide)] at hline
  have hother := sameName_symm (sameName_lower (hs.names other ho))
  rw [(List.cons.inj hline).1] at hother
  have hentry := sameName_symm (sameName_lower (hs.names entry he))
  rw [← h.eq_of_sameName he ho hentry hother, hmap] at hisMap
  cases hisMap

/-- **The lines that stand for themselves** name a field below which nothing may be named, or one
with an attribute below it. -/
theorem mem_ownLines (hs : s.Worded) (h : s.ToldApart) :
    (line ∈ s.expectedFields ∧ line ∉ s.keyLines) ↔
      ∃ entry ∈ s.entries, entry.field.isMap = false ∧
        ((entry.field.subs = [] ∧ line = lower entry.field.name) ∨
          ∃ sub ∈ entry.field.subs, line = lower entry.field.name ++ "." ++ sub) := by
  rw [mem_expectedFields]
  constructor
  · rintro ⟨⟨entry, he, ⟨hsubs, rfl⟩ | ⟨sub, hsub, rfl⟩⟩, hkeys⟩
    · have hmap : entry.field.isMap = false := Bool.eq_false_iff.2 fun hmap =>
        hkeys (mem_keyLines.2 ⟨entry, he, hmap, plainSelector_map hmap⟩)
      exact ⟨entry, he, hmap, Or.inl ⟨hsubs, plainSelector_name hmap⟩⟩
    · -- nothing is named below a map
      have hmap : entry.field.isMap = false := Bool.eq_false_iff.2 fun hmap =>
        absurd (h.maps entry he hmap ▸ hsub) List.not_mem_nil
      exact ⟨entry, he, hmap, Or.inr ⟨sub, hsub, rfl⟩⟩
  · rintro ⟨entry, he, hmap, ⟨hsubs, rfl⟩ | ⟨sub, hsub, rfl⟩⟩
    · exact ⟨⟨entry, he, Or.inl ⟨hsubs, (plainSelector_name hmap).symm⟩⟩,
        not_mem_keyLines hs h he hmap (segments_single (hs.names entry he).not_mem_lower)⟩
    · exact ⟨⟨entry, he, Or.inr ⟨sub, hsub, rfl⟩⟩,
        not_mem_keyLines hs h he hmap (segments_line hs he (hs.subs entry he sub hsub).not_mem)⟩

/-- **What is listed**: the name of a field below which nothing may be named, or the name of another
one with an attribute below it. -/
theorem lists_iff (hs : s.Worded) (h : s.ToldApart)
    (hselector : segments selector = name :: parts) :
    s.Lists selector ↔ ∃ entry ∈ s.entries, sameName entry.field.name name = true ∧
      entry.field.isMap = false ∧ ((entry.field.subs = [] ∧ parts = []) ∨
        ∃ part, parts = [part] ∧ ∃ sub ∈ entry.field.subs, sameName sub part = true) := by
  constructor
  · rintro ⟨line, hline, hkeys, hsame⟩
    obtain ⟨entry, he, hmap, hcases⟩ := (mem_ownLines hs h).1 ⟨hline, hkeys⟩
    have hlower := sameName_lower_iff (s := name) (hs.names entry he)
    rw [sameName_iff_segments, hselector] at hsame
    rcases hcases with ⟨hsubs, rfl⟩ | ⟨sub, hsub, rfl⟩
    · rw [segments_single (hs.names entry he).not_mem_lower] at hsame
      obtain ⟨hname, hnil⟩ := List.forall₂_cons.1 hsame
      obtain rfl := List.forall₂_nil_right_iff.1 hnil
      exact ⟨entry, he, hlower.1 hname, hmap, Or.inl ⟨hsubs, rfl⟩⟩
    · rw [segments_line hs he (hs.subs entry he sub hsub).not_mem] at hsame
      obtain ⟨hname, hparts⟩ := List.forall₂_cons.1 hsame
      obtain ⟨part, _, hpart, hnil, rfl⟩ := List.forall₂_cons_right_iff.1 hparts
      obtain rfl := List.forall₂_nil_right_iff.1 hnil
      exact ⟨entry, he, hlower.1 hname, hmap, Or.inr ⟨part, rfl, sub, hsub, sameName_symm hpart⟩⟩
  · rintro ⟨entry, he, hname, hmap, hcases⟩
    have hlower := (sameName_lower_iff (hs.names entry he)).2 hname
    rcases hcases with ⟨hsubs, rfl⟩ | ⟨part, rfl, sub, hsub, hpart⟩
    · obtain ⟨hline, hkeys⟩ := (mem_ownLines hs h).2 ⟨entry, he, hmap, Or.inl ⟨hsubs, rfl⟩⟩
      refine ⟨_, hline, hkeys, ?_⟩
      rw [sameName_iff_segments, hselector, segments_single (hs.names entry he).not_mem_lower]
      exact .cons hlower .nil
    · obtain ⟨hline, hkeys⟩ := (mem_ownLines hs h).2 ⟨entry, he, hmap, Or.inr ⟨sub, hsub, rfl⟩⟩
      refine ⟨_, hline, hkeys, ?_⟩
      rw [sameName_iff_segments, hselector,
        segments_line hs he (hs.subs entry he sub hsub).not_mem]
      exact .cons hlower (.cons (sameName_symm hpart) .nil)

/-- **What the line of a key stands for**: the name of a map with any key. -/
theorem advertises_iff (hs : s.Worded) (h : s.ToldApart)
    (hselector : segments selector = name :: parts) :
    s.Advertises selector ↔ s.Lists selector ∨ ∃ entry ∈ s.entries,
      sameName entry.field.name name = true ∧ entry.field.isMap = true ∧
        ∃ key, key ≠ "" ∧ parts = [key] := by
  constructor
  · rintro (hlists | ⟨-, hkeys, rfl, hname, hne, hdot⟩)
    · exact Or.inl hlists
    · rename_i stem head key
      obtain ⟨entry, he, hmap, hline⟩ := mem_keyLines.1 hkeys
      have hword := hs.names entry he
      obtain rfl := (String.append_left_inj _).1 hline
      rw [segments_joined (not_mem_of_sameName hname hword.not_mem_lower),
        segments_single hdot] at hselector
      obtain ⟨rfl, rfl⟩ := List.cons.inj hselector
      exact Or.inr ⟨entry, he, (sameName_lower_iff hword).1 hname, hmap, key, hne, rfl⟩
  · rintro (hlists | ⟨entry, he, hname, hmap, key, hne, rfl⟩)
    · exact .listed hlists
    · have hline : plainSelector entry.field ∈ s.expectedFields :=
        mem_expectedFields.2 ⟨entry, he, Or.inl ⟨h.maps entry he hmap, rfl⟩⟩
      rw [plainSelector_map hmap] at hline
      have hdot : '.' ∉ key.toList :=
        not_mem_of_segments (hselector ▸ List.mem_cons_of_mem _ List.mem_cons_self)
      have hjoined := joinDots_segments selector
      rw [hselector] at hjoined
      exact .key hline (mem_keyLines.2 ⟨entry, he, hmap, rfl⟩) hjoined.symm
        ((sameName_lower_iff (hs.names entry he)).2 hname) hne hdot

/-- **When a selector goes on**: all that follows the name of a field may be named below it. -/
theorem chains_iff (hs : s.Worded) (h : s.ToldApart)
    (hselector : segments selector = name :: parts) :
    s.Chains selector ↔ 2 ≤ parts.length ∧ ∃ entry ∈ s.entries,
      sameName entry.field.name name = true ∧ entry.field.isMap = false ∧
        ∀ part ∈ parts, ∃ sub ∈ entry.field.subs, sameName sub part = true := by
  have hdots : ∀ segment ∈ name :: parts, '.' ∉ segment.toList :=
    fun segment hmem => not_mem_of_segments (hselector ▸ hmem)
  obtain ⟨hname, hparts⟩ := List.forall_mem_cons.1 hdots
  -- each of the parts, with the name in front, is a selector of two segments
  have hlists : ∀ part ∈ parts, s.Lists (name ++ "." ++ part) ↔ ∃ entry ∈ s.entries,
      sameName entry.field.name name = true ∧ entry.field.isMap = false ∧
        ∃ sub ∈ entry.field.subs, sameName sub part = true := by
    intro part hpart
    have hpair : segments (name ++ "." ++ part) = [name, part] := by
      rw [segments_joined hname, segments_single (hparts part hpart)]
    simp [lists_iff hs h hpair]
  constructor
  · rintro ⟨name', parts', hselector', hlong, hall⟩
    obtain ⟨rfl, rfl⟩ := List.cons.inj (hselector.symm.trans hselector')
    obtain ⟨first, more, rfl⟩ :=
      List.exists_cons_of_length_pos (Nat.lt_of_lt_of_le Nat.two_pos hlong)
    obtain ⟨entry, he, hsame, hmap, -⟩ :=
      (hlists first List.mem_cons_self).1 (hall first List.mem_cons_self)
    refine ⟨hlong, entry, he, hsame, hmap, fun part hpart => ?_⟩
    obtain ⟨other, ho, hother, -, hsub⟩ := (hlists part hpart).1 (hall part hpart)
    rwa [h.eq_of_sameName he ho hsame hother]
  · rintro ⟨hlong, entry, he, hsame, hmap, hall⟩
    exact ⟨name, parts, hselector, hlong,
      fun part hpart => (hlists part hpart).2 ⟨entry, he, hsame, hmap, hall part hpart⟩⟩

/-- **The selectors that resolve.** In a registered schema whose fields, and what may be named below
them, are named by words, a selector resolves if it is advertised: if it is on a line of the
listing, letters of either case being alike, or names a key where the keys of a map are listed. A
selector also resolves if it goes on with two or more attributes, each of which is listed below its
field by itself; such a selector is never advertised. Nothing else resolves. -/
theorem resolves_iff (hreg : Schema.register m entity fields = .ok s) (hs : s.Worded)
    (selector : String) :
    ((∃ r, s.resolve selector = .ok r) ↔ s.Advertises selector ∨ s.Chains selector) ∧
      ¬ (s.Advertises selector ∧ s.Chains selector) := by
  have h := toldApart_of_register hreg
  obtain ⟨name, parts, hselector⟩ := List.exists_cons_of_ne_nil (segments_ne_nil selector)
  rw [resolves_iff_accepts hselector, advertises_iff hs h hselector, lists_iff hs h hselector,
    chains_iff hs h hselector]
  simp only [h.entry?_iff]
  constructor
  · constructor
    · rintro ⟨entry, ⟨he, hname⟩, haccepts⟩
      cases hmap : entry.field.isMap with
      | true =>
        exact Or.inl (Or.inr ⟨entry, he, hname, hmap, (SchemaEntry.accepts_of_map hmap).1 haccepts⟩)
      | false =>
        rcases (SchemaEntry.accepts_iff_count hmap).1 haccepts with hlisted | ⟨hlong, hall⟩
        · exact Or.inl (Or.inl ⟨entry, he, hname, hmap, hlisted⟩)
        · exact Or.inr ⟨hlong, entry, he, hname, hmap, hall⟩
    · rintro ((⟨entry, he, hname, hmap, hlisted⟩ | ⟨entry, he, hname, hmap, hkey⟩) |
        ⟨hlong, entry, he, hname, hmap, hall⟩)
      · exact ⟨entry, ⟨he, hname⟩, (SchemaEntry.accepts_iff_count hmap).2 (Or.inl hlisted)⟩
      · exact ⟨entry, ⟨he, hname⟩, (SchemaEntry.accepts_of_map hmap).2 hkey⟩
      · exact ⟨entry, ⟨he, hname⟩, (SchemaEntry.accepts_iff_count hmap).2 (Or.inr ⟨hlong, hall⟩)⟩
  · -- what is advertised has two segments at most
    rintro ⟨⟨entry, he, hname, hmap, ⟨-, rfl⟩ | ⟨part, rfl, -⟩⟩ |
      ⟨entry, he, hname, hmap, key, -, rfl⟩, hlong, -⟩ <;>
      simp at hlong

end Schema

namespace Shop

theorem byCustomer_worded : byCustomer.schema.Worded := ⟨by decide +kernel, by decide +kernel⟩

theorem customerName_resolves :
    Schema.register byCustomer.model "Order" [ofCustomer, ofTag] = .ok byCustomer.schema ∧
      byCustomer.schema.Worded ∧ byCustomer.schema.Lists "CUSTOMER.Name" ∧
      ∃ r, byCustomer.schema.resolve "CUSTOMER.Name" = .ok r := by
  have hlists : byCustomer.schema.Lists "CUSTOMER.Name" :=
    ⟨"customer.name", by decide +kernel, by decide +kernel, by decide +kernel⟩
  exact ⟨byCustomer_registered, byCustomer_worded, hlists,
    (Schema.resolves_iff byCustomer_registered byCustomer_worded _).1.2 (Or.inl (.listed hlists))⟩

/-- **The name of a tag is not advertised, and yet it resolves**, below a customer who has a name
and has tags. -/
theorem tagName_unadvertised :
    Schema.register byCustomer.model "Order" [ofCustomer, ofTag] = .ok byCustomer.schema ∧
      byCustomer.schema.Worded ∧
      byCustomer.schema.expectedFields = ["customer.name", "customer.tags", "tag.tags"] ∧
      (∃ r, byCustomer.schema.resolve "customer.tags.name" = .ok r) ∧
      ¬ byCustomer.schema.Advertises "customer.tags.name" := by
  have hlisting : byCustomer.schema.expectedFields =
      ["customer.name", "customer.tags", "tag.tags"] := by decide +kernel
  refine ⟨byCustomer_registered, byCustomer_worded, hlisting, ⟨_, rfl⟩, ?_⟩
  rintro (⟨line, hline, -, hsame⟩ | ⟨-, hkeys, -⟩)
  · rw [hlisting] at hline
    revert line
    decide
  · exact absurd hkeys List.not_mem_nil

end Shop

end EntityFilter
