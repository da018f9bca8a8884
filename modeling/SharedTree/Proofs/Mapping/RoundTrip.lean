import SharedTree.Proofs.Mapping.Reading

namespace SharedTree

theorem Entry.same_self (entry : Entry) : entry.same entry = true :=
  Bool.and_eq_true_iff.mpr ⟨beq_self_eq_true _,Attributes.same_self _⟩

namespace Mapping

theorem ofNode_toList (n : Node) : (ofNode n).toList = entriesOf (keyOf n) none n :=
  Table.toList_ofList (entriesOf_nodup _ _ _)

theorem ofNode_size (n : Node) : (ofNode n).size = n.size := by
  have same := congrArg List.length (ofNode_toList n)
  rw [entriesOf_length] at same
  exact same

theorem ofNode_outline {n : Node} (small : n.size ≤ twoTo 64) : (ofNode n).toOutline = .ok n.outline := by
  have entries := ofNode_toList n
  refine outline_exact.mpr ⟨rootKey_of_links (by rw [entries]),?_,(ofNode_size n).symm⟩
  intro k inner keyed
  have few : (inner.children.map Node.name).length ≤ twoTo 64 :=
    Nat.le_trans (Nat.le_of_lt inner.length_names) (Nat.le_trans (keyed_size keyed) small)
  refine ⟨?_,?_⟩
  · obtain ⟨above,member⟩ := keyed_entry keyed none
    rw [← entries] at member
    exact (attributesAt_of_mem member).symm
  · obtain ⟨order,_⟩ := ordered_complete (.refl (row k (inner.children.map Node.name))) few
    rw [row_names] at order
    rw [childKeys_eq,entries,listed_root keyed]
    exact order

-- A number in a key is a machine word, hence the bound on the size.
theorem toTree_ofTree (tree : Tree) (next : Nat) (fits : tree.size ≤ twoTo 64) :
    ∃ built later,(ofTree tree).toTree.run next = (.ok built,later) ∧
      built.root.outline = tree.root.outline ∧ built.same tree = true ∧
      (ofTree tree).toList = entriesOf (keyOf tree.root) none tree.root ∧
      ((entriesOf (keyOf tree.root) none tree.root).map (·.1)).Nodup ∧ (ofTree tree).size = tree.size := by
  obtain ⟨built,later,run,outlines⟩ := toTree_of_outline (ofNode_outline fits) next
  exact ⟨built,later,run,outlines,Node.same_of_outline outlines,ofNode_toList _,entriesOf_nodup _ _ _,ofNode_size _⟩

-- Two children of one name around one whose name spells their numbers, and a child without a name.
def twins : Tree :=
  ⟨.mk 0 "a.b" .empty [.mk 1 "x" (Table.empty.insert "k" .null) [],.mk 2 "x#1" .empty [],
    .mk 3 "x" .empty [.mk 4 "" .empty []]],rfl⟩

theorem toTree_twins : twins.size ≤ twoTo 64 ∧
    ∃ built later,(ofTree twins).toTree.run 7 = (.ok built,later) ∧
      built.root.outline = twins.root.outline ∧ built.same twins = true := by
  have fits : twins.size ≤ twoTo 64 := by decide
  obtain ⟨built,later,run,outlines,equal,_⟩ := toTree_ofTree twins 7 fits
  exact ⟨fits,built,later,run,outlines,equal⟩

example : (ofTree twins).names = ["a\\.b","a\\.b.x","a\\.b.x\\#1","a\\.b.x#1","a\\.b.x#1."] := by decide

-- The children of a node beside the entries that name its key as their parent:
-- `found` has the names and numbers that the keys of these spell, in entry order.
structure InEntryOrder (m : Mapping) (key : String) (n : Node) : Prop where
  names : ∃ found,found.map Sibling.key = m.childKeys key ∧ (∀ s ∈ found,Named key s) ∧
    n.children.map Node.name = found.map Sibling.name ∧ ((places key n.children).map Prod.fst).Perm found
  upwards : (places key n.children).Pairwise fun a b => a.1.name = b.1.name → a.1.index < b.1.index
  held : ∀ place ∈ places key n.children,m.get? place.1.key = some ⟨some key,place.2.attributes⟩

theorem entryOrder_of_outline {m : Mapping} {n inner : Node} (read : m.toOutline = .ok n.outline)
    (keyed : Keyed (keyOf n) n k inner) : InEntryOrder m k inner := by
  have arranged := (outline_exact.mp read).2.1 k inner keyed
  obtain ⟨found,spelled,same,perm⟩ := ordered_sound arranged.children
  obtain ⟨keys,named⟩ := siblings_sound spelled
  refine ⟨⟨found,keys,named,?_,?_⟩,?_,?_⟩
  · rw [← row_names k (inner.children.map Node.name),same,row_names]
  · rw [places_row]
    exact perm
  · have upwards := rowFrom_ordered k [] (inner.children.map Node.name)
    rw [← row,← places_row,List.pairwise_map] at upwards
    exact upwards
  · intro place member
    rw [Table.get?_eq_some,← (entries_of_outline read).mem_iff,mem_entriesOf]
    exact .inr ⟨k,inner,place,keyed,member,rfl⟩

theorem links_of_same {m : Mapping} {n : Node} (agreed : same (ofNode n) m = true) :
    n.size = m.size ∧ (m.toList.map link).Perm ((entriesOf (keyOf n) none n).map link) := by
  have parents : ∀ a b : Entry,a.same b = true → a.parent = b.parent := fun a b equal =>
    beq_iff_eq.mp (Bool.and_eq_true_iff.mp equal).1
  rw [← ofNode_toList,← ofNode_size]
  exact ⟨(Table.agrees_iff.mp agreed).1,(Table.perm_of_agrees Entry.parent parents agreed).symm⟩

theorem toTree_exact (m : Mapping) (next : Nat) (fits : m.size ≤ twoTo 64) :
    ((∃ tree,(m.toTree.run next).1 = .ok tree) ↔ ∃ tree,same (ofTree tree) m = true) ∧
    ∀ tree,(m.toTree.run next).1 = .ok tree →
      same (ofTree tree) m = true ∧ (ofTree tree).toList.Perm m.toList ∧
      (∀ key,key ∈ m.names ↔ ∃ n,Keyed (keyOf tree.root) tree.root key n) ∧
      ∀ key n,Keyed (keyOf tree.root) tree.root key n → InEntryOrder m key n := by
  have sound : ∀ tree,(m.toTree.run next).1 = .ok tree → (ofTree tree).toList.Perm m.toList := by
    intro tree read
    rw [ofTree,ofNode_toList]
    exact entries_of_outline (outline_of_toTree read)
  have agreed : ∀ tree,(m.toTree.run next).1 = .ok tree → same (ofTree tree) m = true := fun tree read =>
    Table.agrees_of_perm Entry.same_self (sound tree read)
  refine ⟨⟨?_,?_⟩,?_⟩
  · intro accepted
    obtain ⟨tree,read⟩ := accepted
    exact ⟨tree,agreed tree read⟩
  · intro image
    obtain ⟨tree,equal⟩ := image
    obtain ⟨sizes,links⟩ := links_of_same equal
    obtain ⟨other,read⟩ := outline_of_links (Nat.le_trans (Nat.le_of_eq sizes) fits) sizes links
    obtain ⟨built,later,run,_⟩ := toTree_of_outline read next
    exact ⟨built,by rw [run]⟩
  · intro tree read
    refine ⟨agreed tree read,sound tree read,?_,fun key n keyed => entryOrder_of_outline (outline_of_toTree read) keyed⟩
    intro key
    have keys := ((sound tree read).map (·.1)).mem_iff (a := key)
    rw [ofTree,ofNode_toList,mem_keys] at keys
    exact keys.symm

-- Last things first: a number before the key it counts from, and the root at the end.
def reversed : Mapping := .ofList (ofTree twins).toList.reverse

theorem toTree_reversed : reversed.size ≤ twoTo 64 ∧
    ∃ tree,(reversed.toTree.run 0).1 = .ok tree ∧ (ofTree tree).toList.Perm reversed.toList ∧
      ∀ key n,Keyed (keyOf tree.root) tree.root key n → InEntryOrder reversed key n := by
  have fits : reversed.size ≤ twoTo 64 := by decide
  obtain ⟨accepted,sound⟩ := toTree_exact reversed 0 fits
  obtain ⟨tree,read⟩ := accepted.mpr ⟨twins,by decide +kernel⟩
  obtain ⟨_,perm,_,order⟩ := sound tree read
  exact ⟨fits,tree,read,perm,order⟩

end Mapping
end SharedTree
