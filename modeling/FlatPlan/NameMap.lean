/-!
# Maps keyed by names

A `NameMap α` holds at most one entry a name and lists its entries by ascending name, where names
compare by code point. Environments, registries and catalogues all show their contents in this
order, so the order is part of the type. Main statements: `find?_insert` says what a lookup sees
after an insertion, and `mem_names_insert` which names are then bound.
-/

namespace FlatPlan

/-- The entries of a map, one a name, by ascending name. -/
structure NameMap (α : Type) where
  entries : List (String × α)
  ascending : entries.Pairwise fun a b => a.1 < b.1

namespace NameMap

variable {α β : Type}

theorem ext {m n : NameMap α} (h : m.entries = n.entries) : m = n := by
  cases m; cases n; cases h; rfl

/-- The map without entries. -/
def empty : NameMap α := ⟨[], .nil⟩

instance : EmptyCollection (NameMap α) := ⟨empty⟩

instance : Inhabited (NameMap α) := ⟨empty⟩

/-- Put an entry at its place, over the one that has the same name. -/
def place (name : String) (a : α) : List (String × α) → List (String × α)
  | [] => [(name, a)]
  | entry :: rest =>
    if name < entry.1 then (name, a) :: entry :: rest
    else if name = entry.1 then (name, a) :: rest
    else entry :: place name a rest

theorem mem_place {name : String} {a : α} {p : String × α} :
    ∀ {l : List (String × α)}, p ∈ place name a l → p = (name, a) ∨ p ∈ l
  | [], h => by simpa [place] using h
  | entry :: rest, h => by
    rw [place] at h
    split at h
    · simpa using h
    · split at h
      · rcases List.mem_cons.1 h with h | h
        · exact .inl h
        · exact .inr (List.mem_cons_of_mem _ h)
      · rcases List.mem_cons.1 h with h | h
        · exact .inr (h ▸ List.mem_cons_self)
        · rcases mem_place h with h | h
          · exact .inl h
          · exact .inr (List.mem_cons_of_mem _ h)

private theorem lt_of_not_lt_of_ne {a b : String} (h : ¬a < b) (ne : ¬a = b) : b < a :=
  Decidable.byContradiction fun h' =>
    ne (String.le_antisymm (String.not_lt.1 h') (String.not_lt.1 h))

theorem pairwise_place {name : String} {a : α} :
    ∀ {l : List (String × α)}, l.Pairwise (fun a b => a.1 < b.1) →
      (place name a l).Pairwise fun a b => a.1 < b.1
  | [], _ => by simp [place]
  | entry :: rest, h => by
    have ⟨above, tail⟩ := List.pairwise_cons.1 h
    rw [place]
    split
    case isTrue lt =>
      refine List.pairwise_cons.2 ⟨fun p hp => ?_, h⟩
      rcases List.mem_cons.1 hp with rfl | hp
      · exact lt
      · exact String.lt_trans lt (above p hp)
    case isFalse notLt =>
      split
      case isTrue eq =>
        subst eq
        exact List.pairwise_cons.2 ⟨above, tail⟩
      case isFalse ne =>
        refine List.pairwise_cons.2 ⟨fun p hp => ?_, pairwise_place tail⟩
        rcases mem_place hp with rfl | hp
        · exact lt_of_not_lt_of_ne notLt ne
        · exact above p hp

/-- Bind a name, replacing what it was bound to. -/
def insert (m : NameMap α) (name : String) (a : α) : NameMap α :=
  ⟨place name a m.entries, pairwise_place m.ascending⟩

/-- What a name is bound to. -/
def find? (m : NameMap α) (name : String) : Option α :=
  m.entries.lookup name

/-- Whether a name is bound. -/
def contains (m : NameMap α) (name : String) : Bool :=
  (m.find? name).isSome

/-- The bound names, ascending. -/
def names (m : NameMap α) : List String :=
  m.entries.map Prod.fst

/-- The number of bound names. -/
def size (m : NameMap α) : Nat :=
  m.entries.length

def isEmpty (m : NameMap α) : Bool :=
  m.entries.isEmpty

/-- Insert entries one after another, so that the last one of a name stays. -/
def insertAll (m : NameMap α) (entries : List (String × α)) : NameMap α :=
  entries.foldl (fun m entry => m.insert entry.1 entry.2) m

def ofList (entries : List (String × α)) : NameMap α :=
  empty.insertAll entries

/-- Keep the entries whose name satisfies `p`. -/
def filterNames (p : String → Bool) (m : NameMap α) : NameMap α :=
  ⟨m.entries.filter fun entry => p entry.1, m.ascending.filter _⟩

theorem lookup_place (name key : String) (a : α) :
    ∀ l : List (String × α),
      (place name a l).lookup key = if key = name then some a else l.lookup key
  | [] => by
    by_cases h : key = name <;> simp [place, List.lookup_cons, h, beq_eq_false_iff_ne.2]
  | entry :: rest => by
    obtain ⟨n, b⟩ := entry
    rw [place]
    split
    · by_cases h : key = name
      · simp [h]
      · simp [List.lookup_cons, h, beq_eq_false_iff_ne.2 h]
    · split
      case isTrue eq =>
        subst eq
        by_cases h : key = name
        · simp [h]
        · simp [List.lookup_cons, h, beq_eq_false_iff_ne.2 h]
      case isFalse ne =>
        have ih := lookup_place name key a rest
        by_cases h : key = n
        · subst h
          have : key ≠ name := fun e => ne e.symm
          simp [this]
        · simp [List.lookup_cons, beq_eq_false_iff_ne.2 h, ih]

@[simp] theorem find?_empty (name : String) : (empty : NameMap α).find? name = none := rfl

theorem find?_of_isEmpty {m : NameMap α} (h : m.isEmpty = true) (name : String) :
    m.find? name = none := by
  rw [find?, List.isEmpty_iff.1 h, List.lookup_nil]

theorem lookup_of_mem {entries : List (String × α)} (distinct : (entries.map Prod.fst).Nodup)
    {entry : String × α} (member : entry ∈ entries) : entries.lookup entry.1 = some entry.2 := by
  induction entries with
  | nil => cases member
  | cons first rest ih =>
    rw [List.map_cons, List.nodup_cons] at distinct
    rcases List.mem_cons.1 member with rfl | member
    · exact List.lookup_cons_self
    · have different : entry.1 ≠ first.1 := by
        intro equal
        exact distinct.1 (equal ▸ List.mem_map.2 ⟨entry, member, rfl⟩)
      rw [List.lookup_cons, beq_eq_false_iff_ne.2 different]
      exact ih distinct.2 member

/-- A name is bound to what stands beside it. -/
theorem find?_eq_some_iff {m : NameMap α} {name : String} {a : α} :
    m.find? name = some a ↔ (name, a) ∈ m.entries := by
  constructor
  · intro found
    obtain ⟨before, after, equal, _⟩ := List.lookup_eq_some_iff.1 found
    rw [equal]
    simp
  · intro member
    have distinct : (m.entries.map Prod.fst).Nodup := by
      rw [List.nodup_iff_pairwise_ne, List.pairwise_map]
      refine m.ascending.imp fun {a b} below same => ?_
      exact String.lt_irrefl a.1 (same ▸ below)
    exact lookup_of_mem distinct member

/-- After an insertion the inserted name has its new value and every other name its old one. -/
theorem find?_insert (m : NameMap α) (name key : String) (a : α) :
    (m.insert name a).find? key = if key = name then some a else m.find? key :=
  lookup_place name key a m.entries

@[simp] theorem find?_insert_self (m : NameMap α) (name : String) (a : α) :
    (m.insert name a).find? name = some a := by
  simp [find?_insert]

theorem find?_insert_of_ne (m : NameMap α) {name key : String} (a : α) (h : key ≠ name) :
    (m.insert name a).find? key = m.find? key := by
  simp [find?_insert, h]

theorem mem_names_place (name key : String) (a : α) :
    ∀ l : List (String × α),
      key ∈ (place name a l).map Prod.fst ↔ key = name ∨ key ∈ l.map Prod.fst
  | [] => by simp [place]
  | entry :: rest => by
    rw [place]
    split
    · simp
    · split
      case isTrue eq => simp [eq]
      case isFalse =>
        simp only [List.map_cons, List.mem_cons, mem_names_place name key a rest]
        constructor
        · rintro (h | h | h)
          · exact .inr (.inl h)
          · exact .inl h
          · exact .inr (.inr h)
        · rintro (h | h | h)
          · exact .inr (.inl h)
          · exact .inl h
          · exact .inr (.inr h)

/-- An insertion binds the inserted name and keeps the others. -/
theorem mem_names_insert (m : NameMap α) (name key : String) (a : α) :
    key ∈ (m.insert name a).names ↔ key = name ∨ key ∈ m.names :=
  mem_names_place name key a m.entries

/-- After several insertions a name has the last value inserted for it. -/
theorem find?_insertAll (m : NameMap α) (entries : List (String × α)) (key : String) :
    (m.insertAll entries).find? key = (entries.reverse.lookup key).or (m.find? key) := by
  induction entries generalizing m with
  | nil => rfl
  | cons entry entries ih =>
    obtain ⟨name, a⟩ := entry
    have step : m.insertAll ((name, a) :: entries) = (m.insert name a).insertAll entries := rfl
    rw [step, ih, List.reverse_cons, List.lookup_append, find?_insert, Option.or_assoc]
    by_cases h : key = name
    · simp [h]
    · simp [h, List.lookup_cons, beq_eq_false_iff_ne.2 h]

theorem lookup_reverse {key : String} :
    ∀ {l : List (String × α)}, l.Pairwise (fun a b => a.1 < b.1) →
    l.reverse.lookup key = l.lookup key
  | [], _ => rfl
  | (name, a) :: rest, h => by
    have ⟨above, tail⟩ := List.pairwise_cons.1 h
    rw [List.reverse_cons, List.lookup_append, lookup_reverse tail]
    by_cases equal : key = name
    · subst equal
      have absent : rest.lookup key = none := by
        rw [List.lookup_eq_none_iff]
        intro entry member
        rw [bne_iff_ne]
        intro same
        exact String.lt_irrefl key (by simpa [← same] using above entry member)
      simp [absent]
    · simp [List.lookup_cons, beq_eq_false_iff_ne.2 equal]

/-- In the union of two maps the second one counts first. -/
theorem find?_insertAll_entries (m n : NameMap α) (key : String) :
    (m.insertAll n.entries).find? key = (n.find? key).or (m.find? key) := by
  rw [find?_insertAll, lookup_reverse n.ascending]
  rfl

/-- Keeping names keeps their values. -/
theorem find?_filterNames (p : String → Bool) (m : NameMap α) (key : String) :
    (m.filterNames p).find? key = if p key then m.find? key else none := by
  change (m.entries.filter fun entry => p entry.1).lookup key =
    if p key then m.entries.lookup key else none
  generalize m.entries = entries
  induction entries with
  | nil => simp
  | cons entry entries ih =>
    obtain ⟨name, a⟩ := entry
    rw [List.filter_cons]
    by_cases h : key = name
    · subst h
      by_cases keep : p key = true
      · simp [keep]
      · simpa [keep] using ih
    · by_cases keep : p name = true <;> simp [keep, List.lookup_cons, beq_eq_false_iff_ne.2 h, ih]

end NameMap

end FlatPlan
