/-!
# Tables in order of insertion

A table gives values to names and remembers the order in which the names were first inserted. Giving
a name a new value leaves the name in its place. Each name occurs once, which the type records, so
that looking a name up does not depend on where the search starts.
-/

namespace BlockCalc

/-- Sets the value of a name: in its place if the name occurs, at the end if not. -/
def insertEntry {α : Type} (name : String) (value : α) : List (String × α) → List (String × α)
  | [] => [(name, value)]
  | (key, old) :: rest =>
      if key = name then (key, value) :: rest else (key, old) :: insertEntry name value rest

theorem map_fst_insertEntry {α : Type} (name : String) (value : α)
    (entries : List (String × α)) :
    (insertEntry name value entries).map Prod.fst =
      if name ∈ entries.map Prod.fst then entries.map Prod.fst
      else entries.map Prod.fst ++ [name] := by
  induction entries with
  | nil => simp [insertEntry]
  | cons entry rest ih =>
      obtain ⟨key, old⟩ := entry
      by_cases same : key = name
      · simp [insertEntry, same]
      · have other : name ≠ key := fun equal => same equal.symm
        by_cases member : name ∈ rest.map Prod.fst
        · simp [insertEntry, same, ih, List.mem_cons, member]
        · simp [insertEntry, same, ih, List.mem_cons, member, other]

theorem nodup_insertEntry {α : Type} (name : String) (value : α) {entries : List (String × α)}
    (nodup : (entries.map Prod.fst).Nodup) :
    ((insertEntry name value entries).map Prod.fst).Nodup := by
  rw [map_fst_insertEntry]
  split
  · exact nodup
  · rename_i absent
    refine List.nodup_append.mpr ⟨nodup, by simp, ?_⟩
    intro key member last lastMember equal
    simp only [List.mem_singleton] at lastMember
    exact absent (lastMember ▸ equal ▸ member)

theorem lookup_insertEntry {α : Type} (name other : String) (value : α)
    (entries : List (String × α)) :
    (insertEntry name value entries).lookup other =
      if other = name then some value else entries.lookup other := by
  induction entries with
  | nil =>
      by_cases same : other = name
      · simp [insertEntry, same]
      · simp [insertEntry, same, List.lookup_cons, beq_eq_false_iff_ne.mpr same]
  | cons entry rest ih =>
      obtain ⟨key, old⟩ := entry
      by_cases found : key = name
      · subst found
        by_cases same : other = key
        · simp [insertEntry, same]
        · simp [insertEntry, same, List.lookup_cons, beq_eq_false_iff_ne.mpr same]
      · by_cases same : other = key
        · subst same
          simp [insertEntry, found]
        · simp [insertEntry, found, List.lookup_cons, beq_eq_false_iff_ne.mpr same, ih]

/-- Values for names, in the order in which the names were first inserted. -/
structure Table (α : Type) where
  entries : List (String × α) := []
  nodup : (entries.map Prod.fst).Nodup := by simp
deriving DecidableEq

namespace Table

variable {α β : Type}

/-- The table without names. -/
def empty : Table α := {}

/-- The value of a name. -/
def get? (table : Table α) (name : String) : Option α :=
  table.entries.lookup name

/-- Whether a name has a value. -/
def contains (table : Table α) (name : String) : Bool :=
  (table.get? name).isSome

/-- Sets the value of a name: in its place if the name occurs, at the end if not. -/
def insert (table : Table α) (name : String) (value : α) : Table α where
  entries := insertEntry name value table.entries
  nodup := nodup_insertEntry name value table.nodup

/-- Adds a name with its value at the end unless the name has a value already. -/
def insertIfNew (table : Table α) (name : String) (value : α) : Table α :=
  if table.contains name then table else table.insert name value

/-- Sets the values of names one after the other. -/
def insertMany (table : Table α) (pairs : List (String × α)) : Table α :=
  pairs.foldl (fun table (name, value) => table.insert name value) table

/-- The table that inserting pairs one after the other gives. -/
def ofList (pairs : List (String × α)) : Table α :=
  empty.insertMany pairs

/-- The names in the order in which they were first inserted. -/
def names (table : Table α) : List String :=
  table.entries.map Prod.fst

/-- Changes every value and keeps the names in their places. -/
def map (transform : α → β) (table : Table α) : Table β where
  entries := table.entries.map fun (name, value) => (name, transform value)
  nodup := by simpa [Function.comp_def] using table.nodup

@[simp]
theorem get?_empty (name : String) : (empty : Table α).get? name = none := rfl

theorem get?_insert (table : Table α) (name other : String) (value : α) :
    (table.insert name value).get? other = if other = name then some value else table.get? other :=
  lookup_insertEntry name other value table.entries

@[simp]
theorem get?_insert_self (table : Table α) (name : String) (value : α) :
    (table.insert name value).get? name = some value := by
  simp [get?_insert]

theorem contains_iff_mem_names (table : Table α) (name : String) :
    table.contains name = true ↔ name ∈ table.names := by
  simp [contains, get?, names, List.lookup_isSome_iff]

@[simp]
theorem names_empty : (empty : Table α).names = [] := rfl

@[simp]
theorem names_insert (table : Table α) (name : String) (value : α) :
    (table.insert name value).names =
      if name ∈ table.names then table.names else table.names ++ [name] :=
  map_fst_insertEntry name value table.entries

@[simp]
theorem names_map (transform : α → β) (table : Table α) :
    (table.map transform).names = table.names := by
  simp [map, names, Function.comp_def]

end Table

end BlockCalc
