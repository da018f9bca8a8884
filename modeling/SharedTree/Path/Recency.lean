namespace SharedTree

-- A store of bounded size that drops what was used longest ago. It is not part of this library: a
-- compiler is given one, and relies on what is documented of it.
structure Recency (α : Type) where
  Store : Type
  create : (capacity : Nat) → Store
  get : Store → String → Option α × Store
  push : Store → String → α → Option (String × α) × Store
  contains : Store → String → Bool
  size : Store → Nat
  clear : Store → Store

namespace Recency

-- What is documented, for stores that hold entries, the latest used one first,
-- and no more of them than their capacity.
structure Documented (lru : Recency α) (entries : lru.Store → List (String × α)) (capacity : lru.Store → Nat) : Prop where
  create_entries : 0 < bound → entries (lru.create bound) = []
  create_capacity : 0 < bound → capacity (lru.create bound) = bound
  get_value : (lru.get store key).1 = (entries store).lookup key
  get_absent : (entries store).lookup key = none → (lru.get store key).2 = store
  get_entries : (entries store).lookup key = some value →
    entries (lru.get store key).2 = (key,value) :: (entries store).filter fun entry => entry.1 != key
  get_capacity : capacity (lru.get store key).2 = capacity store
  push_room : (entries store).lookup key = none → (entries store).length < capacity store →
    entries (lru.push store key value).2 = (key,value) :: entries store
  push_full : (entries store).lookup key = none → (entries store).length = capacity store →
    entries (lru.push store key value).2 = (key,value) :: (entries store).dropLast
  push_capacity : capacity (lru.push store key value).2 = capacity store
  contains_iff : lru.contains store key = true ↔ key ∈ (entries store).map Prod.fst
  size_eq : lru.size store = (entries store).length
  clear_entries : entries (lru.clear store) = []
  clear_capacity : capacity (lru.clear store) = capacity store

structure Latest (α : Type) where
  capacity : Nat
  entries : List (String × α)

def others (entries : List (String × α)) (key : String) : List (String × α) := entries.filter fun entry => entry.1 != key

def latest : Recency α where
  Store := Latest α
  create capacity := ⟨capacity,[]⟩
  get store key :=
    match store.entries.lookup key with
    | some value => (some value,{ store with entries := (key,value) :: others store.entries key })
    | none => (none,store)
  push store key value :=
    match store.entries.lookup key with
    | some old => (some (key,old),{ store with entries := (key,value) :: others store.entries key })
    | none =>
      if store.entries.length < store.capacity then (none,{ store with entries := (key,value) :: store.entries })
      else (store.entries.getLast?,{ store with entries := (key,value) :: store.entries.dropLast })
  contains store key := store.entries.any (·.1 == key)
  size store := store.entries.length
  clear store := { store with entries := [] }

end Recency
end SharedTree
