import SharedTree.Proofs.Value.Table
import SharedTree.Value.Basic

namespace SharedTree

-- Floats that are numerically equal have one standard form: the number with these units, at the
-- least exponent.
def Binary64.standard (x : Binary64) : Binary64 := ⟨x.units < 0,x.units.natAbs,leastExponent⟩

theorem Binary64.same_standard (x y : Binary64) : x.same y = true ↔ x.standard = y.standard := by
  rw [same_iff]
  constructor
  · intro equal
    rw [standard,standard,equal]
  · intro equal
    injection equal with sign magnitude
    have signs : x.units < 0 ↔ y.units < 0 := decide_eq_decide.mp sign
    omega

def Number.standard : Number → Number
  | .int n => .int n
  | .float x => .float x.standard

theorem Number.same_standard (a b : Number) : a.same b = true ↔ a.standard = b.standard := by
  cases a <;> cases b <;> simp [same,standard,Binary64.same_standard]

namespace Value

mutual
def standard : Value → Value
  | .null => .null
  | .bool b => .bool b
  | .number n => .number n.standard
  | .string s => .string s
  | .array items => .array (standardItems items)
  | .object fields => .object (standardFields fields)

def standardItems : List Value → List Value
  | [] => []
  | item :: rest => item.standard :: standardItems rest

def standardFields : List (String × Value) → List (String × Value)
  | [] => []
  | (name,value) :: rest => (name,value.standard) :: standardFields rest
end

mutual
theorem same_standard : (a b : Value) → (a.same b = true ↔ a.standard = b.standard)
  | .null,b => by cases b <;> simp [same,standard]
  | .bool a,b => by cases b <;> simp [same,standard]
  | .number a,b => by cases b <;> simp [same,standard,Number.same_standard]
  | .string a,b => by cases b <;> simp [same,standard]
  | .array as,b => by cases b <;> simp [same,standard,sameItems_standard as]
  | .object as,b => by cases b <;> simp [same,standard,sameFields_standard as]

theorem sameItems_standard : (as bs : List Value) → (sameItems as bs = true ↔ standardItems as = standardItems bs)
  | [],bs => by cases bs <;> simp [sameItems,standardItems]
  | a :: as,bs => by cases bs <;> simp [sameItems,standardItems,same_standard a,sameItems_standard as]

theorem sameFields_standard : (as bs : List (String × Value)) →
    (sameFields as bs = true ↔ standardFields as = standardFields bs)
  | [],bs => by cases bs <;> simp [sameFields,standardFields]
  | (name,a) :: as,bs => by
      cases bs <;> simp [sameFields,standardFields,same_standard a,sameFields_standard as,and_assoc]
end

theorem same_symm {a b : Value} (equal : a.same b = true) : b.same a = true :=
  (same_standard b a).mpr ((same_standard a b).mp equal).symm

end Value

namespace Attributes

variable {a b c : Attributes}

def standard (a : Attributes) : List (String × Value) := a.toList.map fun entry => (entry.1,entry.2.standard)

theorem same_perm : a.same b = true ↔ a.standard.Perm b.standard := by
  constructor
  · exact Table.perm_of_agrees Value.standard fun x y => (Value.same_standard x y).mp
  · intro perm
    refine Table.agrees_iff.mpr ⟨?_,?_⟩
    · have length := perm.length_eq
      rwa [standard,standard,List.length_map,List.length_map] at length
    · intro entry member
      have image : (entry.1,entry.2.standard) ∈ b.standard := perm.mem_iff.mp (List.mem_map.mpr ⟨entry,member,rfl⟩)
      obtain ⟨other,held,equal⟩ := List.mem_map.mp image
      obtain ⟨names,values⟩ := Prod.mk.inj equal
      exact ⟨other.2,Table.get?_eq_some.mpr (names ▸ held),(Value.same_standard _ _).mpr values.symm⟩

theorem same_symm (equal : a.same b = true) : b.same a = true := same_perm.mpr (same_perm.mp equal).symm

theorem same_trans (first : a.same b = true) (second : b.same c = true) : a.same c = true :=
  same_perm.mpr ((same_perm.mp first).trans (same_perm.mp second))

theorem standard_erase (a : Attributes) (key : String) : standard (a.erase key) = a.standard.filter (·.1 ≠ key) := by
  rw [standard,standard,List.filter_map]
  rfl

theorem standard_insert (a : Attributes) (key : String) (value : Value) :
    (standard (a.insert key value)).Perm ((key,value.standard) :: a.standard.filter (·.1 ≠ key)) := by
  rw [← standard_erase]
  exact (Table.insert_perm a key value).map fun entry => (entry.1,entry.2.standard)

theorem same_erase (equal : a.same b = true) (key : String) : same (a.erase key) (b.erase key) = true := by
  rw [same_perm,standard_erase,standard_erase]
  exact (same_perm.mp equal).filter _

theorem same_insert (equal : a.same b = true) {v w : Value} (values : v.same w = true) (key : String) :
    same (a.insert key v) (b.insert key w) = true := by
  rw [same_perm]
  refine (standard_insert a key v).trans (.trans ?_ (standard_insert b key w).symm)
  rw [(Value.same_standard v w).mp values]
  exact .cons _ ((same_perm.mp equal).filter _)

theorem same_contains (equal : a.same b = true) (key : String) : a.contains key = b.contains key := by
  have named : ∀ c : Attributes,c.contains key = true ↔ key ∈ c.standard.map Prod.fst := by
    intro c
    rw [Table.contains_iff,standard,List.map_map]
    simp [Function.comp_def]
  rw [Bool.eq_iff_iff,named,named]
  exact ((same_perm.mp equal).map Prod.fst).mem_iff

end Attributes
end SharedTree
