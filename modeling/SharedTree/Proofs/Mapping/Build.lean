import Mathlib.Data.List.Perm.Basic
import SharedTree.Proofs.Mapping.Entries
import SharedTree.Proofs.Node.Outline
import SharedTree.Proofs.Value.Table

namespace SharedTree
namespace Mapping

def attributesAt (m : Mapping) (key : String) : Attributes := (m.get? key).map (·.attributes) |>.getD .empty

theorem buildAll_exact {siblings : List Sibling} {outlines : List Outline} :
    buildAll m fuel siblings = .ok outlines ↔
      List.Forall₂ (fun s o => build m fuel s.key s.name = .ok o) siblings outlines := by
  induction siblings generalizing outlines with
  | nil =>
      rw [buildAll,List.forall₂_nil_left_iff]
      constructor
      · intro same
        cases same
        rfl
      · intro same
        rw [same]
  | cons s siblings ih =>
      rw [List.forall₂_cons_left_iff]
      constructor
      · intro built
        rw [buildAll] at built
        split at built
        · cases built
        · rename_i first here
          split at built
          · cases built
          · rename_i others rest
            cases built
            exact ⟨first,others,here,ih.mp rest,rfl⟩
      · intro built
        obtain ⟨first,others,here,rest,rfl⟩ := built
        rw [buildAll,here,ih.mpr rest]

theorem build_step {n : Node} :
    build m (fuel + 1) key name = .ok n.outline ↔ n.name = name ∧ n.attributes = m.attributesAt key ∧
      ∃ siblings,ordered key (m.childKeys key) = .ok siblings ∧
        List.Forall₂ (fun s child => build m fuel s.key s.name = .ok child.outline) siblings n.children := by
  rw [build,Node.outline_eq]
  constructor
  · intro built
    split at built
    · cases built
    · rename_i siblings order
      split at built
      · cases built
      · rename_i outlines below
        rw [Except.ok.injEq,Outline.mk.injEq] at built
        obtain ⟨names,attributes,children⟩ := built
        rw [children,buildAll_exact,List.forall₂_map_right_iff] at below
        exact ⟨names.symm,attributes.symm,siblings,order,below⟩
  · intro given
    obtain ⟨rfl,attributes,siblings,order,below⟩ := given
    have built : buildAll m fuel siblings = .ok (n.children.map Node.outline) :=
      buildAll_exact.mpr (List.forall₂_map_right_iff.mpr below)
    rw [order,attributes]
    simp only [built]
    rfl

theorem build_name {n : Node} (built : build m fuel key name = .ok n.outline) : n.name = name := by
  cases fuel with
  | zero =>
      rw [build] at built
      cases built
  | succ fuel => exact (build_step.mp built).1

-- What a mapping has to say of a node and its key: the attributes of the node
-- and, in entry order, the keys of its children.
structure Arranged (m : Mapping) (key : String) (n : Node) : Prop where
  attributes : n.attributes = m.attributesAt key
  children : ordered key (m.childKeys key) = .ok (row key (n.children.map Node.name))

def ArrangedFrom (m : Mapping) (key : String) (n : Node) : Prop :=
  ∀ k inner,Keyed key n k inner → Arranged m k inner

theorem places_forall₂ {children : List Node} {holds : Sibling → Node → Prop} :
    List.Forall₂ holds (row key (children.map Node.name)) children ↔
      ∀ place ∈ places key children,holds place.1 place.2 := by
  rw [List.forall₂_iff_zip,row_length,List.length_map]
  constructor
  · intro each place member
    exact each.2 member
  · intro each
    exact ⟨rfl,fun member => each _ member⟩

theorem names_forall₂ {siblings : List Sibling} {children : List Node}
    (named : List.Forall₂ (fun s child => child.name = s.name) siblings children) :
    children.map Node.name = siblings.map Sibling.name := by
  induction named with
  | nil => rfl
  | cons first _ ih => rw [List.map_cons,List.map_cons,first,ih]

theorem row_of_built {siblings : List Sibling} {children : List Node}
    (order : ordered key keys = .ok siblings)
    (below : List.Forall₂ (fun s child => build m fuel s.key s.name = .ok child.outline) siblings children) :
    siblings = row key (children.map Node.name) := by
  have names := names_forall₂ (below.imp fun _ _ built => build_name built)
  obtain ⟨found,_,same,_⟩ := ordered_sound order
  rw [names,same,row_names]

theorem arranged_from {n : Node} (own : Arranged m key n)
    (below : ∀ place ∈ places key n.children,ArrangedFrom m place.1.key place.2) : ArrangedFrom m key n := by
  intro k inner keyed
  cases keyed with
  | self => exact own
  | child member later => exact below _ member k inner later

theorem build_exact {n : Node} (room : n.size ≤ fuel) :
    build m fuel key name = .ok n.outline ↔ n.name = name ∧ ArrangedFrom m key n := by
  induction n using Node.children_induction generalizing fuel key name with
  | step n ih =>
      cases fuel with
      | zero =>
          rw [Node.size_eq] at room
          omega
      | succ fuel =>
          have smaller : ∀ place ∈ places key n.children,place.2.size ≤ fuel := by
            intro place member
            have less := Node.size_child (place_child member)
            omega
          rw [build_step]
          constructor
          · intro built
            obtain ⟨names,attributes,siblings,order,below⟩ := built
            cases row_of_built order below
            refine ⟨names,arranged_from ⟨attributes,order⟩ ?_⟩
            intro place member
            have here := places_forall₂.mp below place member
            exact ((ih place.2 (place_child member) (smaller place member)).mp here).2
          · intro given
            obtain ⟨names,arranged⟩ := given
            have own := arranged key n .self
            refine ⟨names,own.attributes,_,own.children,places_forall₂.mpr ?_⟩
            intro place member
            exact (ih place.2 (place_child member) (smaller place member)).mpr
              ⟨(place_name member).symm,fun k inner later => arranged k inner (.child member later)⟩

theorem attributesAt_of_mem {m : Mapping} {entry : Entry} (member : (key,entry) ∈ m.toList) :
    m.attributesAt key = entry.attributes := by
  rw [attributesAt,Table.get?_eq_some.mpr member]
  rfl

theorem arranged_child {n : Node} {place : Sibling × Node} (arranged : Arranged m key n)
    (member : place ∈ places key n.children) : ∃ entry,(place.1.key,entry) ∈ m.toList ∧ entry.parent = some key := by
  obtain ⟨found,read,_,perm⟩ := ordered_sound arranged.children
  have inside : place.1 ∈ row key (n.children.map Node.name) := by
    rw [← places_row]
    exact List.mem_map_of_mem member
  have listed : place.1.key ∈ m.childKeys key := by
    rw [← (siblings_sound read).1]
    exact List.mem_map_of_mem (perm.mem_iff.mp inside)
  obtain ⟨⟨k,entry⟩,held,rfl⟩ := List.mem_map.mp listed
  obtain ⟨held,named⟩ := List.mem_filter.mp held
  exact ⟨entry,held,by simpa using named⟩

theorem entries_held {n : Node} (arranged : ArrangedFrom m key n)
    (own : (key,⟨parent,n.attributes⟩) ∈ m.toList) : ∀ entry ∈ entriesOf key parent n,entry ∈ m.toList := by
  intro entry member
  rcases mem_entriesOf.mp member with rfl | ⟨k,inner,place,keyed,inside,rfl⟩
  · exact own
  · obtain ⟨⟨parent,attributes⟩,held,rfl⟩ := arranged_child (arranged k inner keyed) inside
    have same := (arranged _ _ (keyed_child keyed inside)).attributes
    rw [attributesAt_of_mem held] at same
    rwa [same]

theorem exists_forall₂ {holds : α → β → Prop} {items : List α} (each : ∀ item ∈ items,∃ image,holds item image) :
    ∃ images,List.Forall₂ holds items images := by
  induction items with
  | nil => exact ⟨[],.nil⟩
  | cons item items ih =>
      obtain ⟨image,here⟩ := each item (.head _)
      obtain ⟨images,rest⟩ := ih fun other member => each other (.tail _ member)
      exact ⟨image :: images,.cons here rest⟩

theorem sizeAll_forall₂ {left : List (Sibling × Node)} {right : List Node}
    (sizes : List.Forall₂ (fun place child => child.size = place.2.size) left right) :
    Node.sizeAll right = Node.sizeAll (left.map Prod.snd) := by
  induction sizes with
  | nil => rfl
  | cons first _ ih => rw [List.map_cons,Node.sizeAll,Node.sizeAll,first,ih]

theorem exists_siblings {siblings : List Sibling} (keys : found.Perm (siblings.map Sibling.key)) :
    ∃ others : List Sibling,found = others.map Sibling.key ∧ others.Perm siblings :=
  (congrFun (congrFun (List.eq_map_comp_perm Sibling.key) found) siblings).mpr keys

theorem exists_shuffled {children : List Node} {moved : List Sibling} (holds : Sibling → Node → Prop)
    (each : ∀ place ∈ places key children,∃ child : Node,child.size = place.2.size ∧ holds place.1 child)
    (shuffled : moved.Perm (row key (children.map Node.name))) :
    ∃ others : List Node,List.Forall₂ holds moved others ∧ Node.sizeAll others = Node.sizeAll children := by
  obtain ⟨nodes,made⟩ := exists_forall₂ each
  have sizes : Node.sizeAll nodes = Node.sizeAll children := by
    rw [sizeAll_forall₂ (made.imp fun _ _ facts => facts.1),places_children]
  have beside : List.Forall₂ holds (row key (children.map Node.name)) nodes := by
    rw [← places_row,List.forall₂_map_left_iff]
    exact made.imp fun _ _ facts => facts.2
  obtain ⟨others,placed,perm⟩ := List.perm_comp_forall₂ shuffled beside
  exact ⟨others,placed,(Node.sizeAll_perm perm).trans sizes⟩

theorem exists_arranged {m : Mapping} {n : Node} (small : n.size ≤ twoTo 64)
    (keys : ∀ k inner,Keyed key n k inner →
      (m.childKeys k).Perm ((row k (inner.children.map Node.name)).map Sibling.key)) :
    ∃ other : Node,other.name = n.name ∧ other.size = n.size ∧ ArrangedFrom m key other := by
  induction n using Node.children_induction generalizing key with
  | step n ih =>
      have each : ∀ place ∈ places key n.children,∃ child : Node,child.size = place.2.size ∧
          child.name = place.1.name ∧ ArrangedFrom m place.1.key child := by
        intro place member
        have less := Node.size_child (place_child member)
        obtain ⟨child,names,sizes,arranged⟩ := ih place.2 (place_child member) (by omega)
          fun k inner (keyed : Keyed place.1.key place.2 k inner) => keys k inner (.child member keyed)
        exact ⟨child,sizes,by rw [names,place_name member],arranged⟩
      have few := Nat.le_trans (Nat.le_of_lt n.length_names) small
      -- The keys stand in the order of the mapping; so do the children built from them.
      obtain ⟨found,spelled,perm⟩ := exists_siblings (keys key n .self)
      obtain ⟨order,shuffled⟩ := ordered_complete perm few
      obtain ⟨children,placed,sizes⟩ :=
        exists_shuffled (fun s child => child.name = s.name ∧ ArrangedFrom m s.key child) each shuffled
      have names := names_forall₂ (placed.imp fun _ _ facts => facts.1)
      rw [row_names] at names
      rw [← names] at placed order
      rw [← spelled] at order
      refine ⟨.mk 0 n.name (m.attributesAt key) children,rfl,?_,arranged_from ⟨rfl,order⟩ ?_⟩
      · rw [Node.size_eq,Node.size_eq,Node.children_mk,sizes]
      · intro place member
        exact (places_forall₂.mp placed place member).2

end Mapping
end SharedTree
