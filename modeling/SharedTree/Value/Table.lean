namespace SharedTree

-- Entries stand in the order in which their names were first written; writing a name again replaces
-- its entry in place.
structure Table (α : Type) where
  entries : List (String × α)
  distinct : (entries.map (·.1)).Nodup
  deriving Repr

namespace Table

def put (key : String) (value : α) : List (String × α) → List (String × α)
  | [] => [(key,value)]
  | entry :: rest => if entry.1 = key then (key,value) :: rest else entry :: put key value rest

theorem put_names (key : String) (value : α) (entries : List (String × α)) :
    (put key value entries).map (·.1) =
      if key ∈ entries.map (·.1) then entries.map (·.1) else entries.map (·.1) ++ [key] := by
  induction entries with
  | nil => simp [put]
  | cons entry rest ih =>
      by_cases same : entry.1 = key
      · simp [put,same]
      · have other : ¬ key = entry.1 := fun equal => same equal.symm
        simp only [put,same,↓reduceIte,List.map_cons,ih,List.mem_cons,other,false_or]
        split <;> simp

theorem put_distinct (key : String) (value : α) (entries : List (String × α))
    (distinct : (entries.map (·.1)).Nodup) : ((put key value entries).map (·.1)).Nodup := by
  rw [put_names]
  split
  · exact distinct
  · rename_i absent
    exact List.nodup_append.mpr ⟨distinct,by simp,by
      intro name present other last equal
      rw [List.mem_singleton.mp last] at equal
      exact absent (equal ▸ present)⟩

def empty : Table α := ⟨[],List.nodup_nil⟩

instance : Inhabited (Table α) := ⟨empty⟩

def insert (table : Table α) (key : String) (value : α) : Table α :=
  ⟨put key value table.entries,put_distinct key value table.entries table.distinct⟩

def erase (table : Table α) (key : String) : Table α :=
  ⟨table.entries.filter (·.1 ≠ key),table.distinct.sublist (List.filter_sublist.map _)⟩

def ofList (entries : List (String × α)) : Table α :=
  entries.foldl (fun table entry => table.insert entry.1 entry.2) empty

def toList (table : Table α) : List (String × α) := table.entries
def names (table : Table α) : List String := table.entries.map (·.1)
def size (table : Table α) : Nat := table.entries.length
def isEmpty (table : Table α) : Bool := table.entries.isEmpty
def get? (table : Table α) (key : String) : Option α := table.entries.lookup key
def contains (table : Table α) (key : String) : Bool := (table.get? key).isSome

-- Equal as unordered tables: as many entries, and each of one side is found in the other.
def agrees (same : α → α → Bool) (left right : Table α) : Bool :=
  left.size == right.size && left.entries.all fun entry =>
    match right.get? entry.1 with
    | some value => same entry.2 value
    | none => false

theorem names_insert (table : Table α) (key : String) (value : α) :
    (table.insert key value).names = if key ∈ table.names then table.names else table.names ++ [key] :=
  put_names key value table.entries

theorem lookup_put (key : String) (value : α) (entries : List (String × α)) (other : String) :
    (put key value entries).lookup other = if other = key then some value else entries.lookup other := by
  induction entries with
  | nil =>
      by_cases same : other = key
      · simp [put,same]
      · simp [put,List.lookup_cons,same,beq_eq_false_iff_ne.mpr same]
  | cons entry rest ih =>
      obtain ⟨name,held⟩ := entry
      by_cases here : name = key
      · subst here
        by_cases same : other = name
        · simp [put,same]
        · simp [put,List.lookup_cons,same,beq_eq_false_iff_ne.mpr same]
      · by_cases same : other = name
        · subst same
          simp [put,here]
        · simp [put,here,List.lookup_cons,ih,beq_eq_false_iff_ne.mpr same]

theorem get?_insert (table : Table α) (key : String) (value : α) (other : String) :
    (table.insert key value).get? other = if other = key then some value else table.get? other :=
  lookup_put key value table.entries other

end Table
end SharedTree
