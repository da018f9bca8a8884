import Mathlib.Data.List.Pairwise
import SharedTree.Proofs.Mapping.RoundTrip
import SharedTree.Proofs.Value.Fields
import SharedTree.Transform.Shaper

namespace SharedTree
def Entry.ordered (entry : Entry) : Entry :=
  ⟨entry.parent,(Mapping.attributesOfValue? (.ofFields entry.attributes.toList)).getD .empty⟩

namespace Mapping

theorem ordered_attributes (entry : Entry) : entry.ordered.attributes.toList.Perm entry.attributes.toList := by
  obtain ⟨sorted,made,_,perm⟩ := Value.ofFields_sorted entry.attributes.distinct
  have distinct : (sorted.map (·.1)).Nodup := (perm.map _).nodup_iff.mpr entry.attributes.distinct
  have back : entry.ordered.attributes = Table.ofList sorted := by
    show (attributesOfValue? (.ofFields entry.attributes.entries)).getD .empty = _
    rw [made]
    rfl
  rw [back,Table.toList_ofList distinct]
  exact perm

theorem same_ordered (entry : Entry) : entry.same entry.ordered = true :=
  Bool.and_eq_true_iff.mpr ⟨beq_self_eq_true _,Table.agrees_of_perm Value.same_self (ordered_attributes entry).symm⟩

theorem entryOfValue?_entryValue (entry : Entry) : entryOfValue? (entryValue entry) = some entry.ordered := by
  obtain ⟨parent,attributes⟩ := entry
  obtain ⟨sorted,made,_,_⟩ := Value.ofFields_sorted attributes.distinct
  have held : Value.ofFields attributes.toList = .object sorted := made
  cases parent with
  | none =>
      rw [entryValue,Entry.ordered,held]
      rfl
  | some key =>
      have placed : Value.ofFields [("parent",.string key),("attrs",.object sorted)] =
          .object [("attrs",.object sorted),("parent",.string key)] := by
        have later : ("attrs" : String) < "parent" := by decide
        simp only [Value.ofFields,List.foldl_cons,List.foldl_nil,Value.insertField,if_pos later]
      rw [entryValue,Entry.ordered,held]
      simp only [placed]
      rfl

theorem mapM_entries (entries : List (String × Entry)) :
    ((entries.map fun entry => (entry.1,entryValue entry.2)).mapM fun field => (entryOfValue? field.2).map (field.1,·)) =
      some (entries.map fun entry => (entry.1,entry.2.ordered)) := by
  induction entries with
  | nil => rfl
  | cons entry rest ih =>
      rw [List.map_cons,List.mapM_cons,ih,entryOfValue?_entryValue]
      rfl

theorem ofValue?_value (m : Mapping) : ∃ (read : Mapping) (arranged : List (String × Entry)),ofValue? m.value = some read ∧ arranged.Perm m.toList ∧
    read.toList = arranged.map (fun entry => (entry.1,entry.2.ordered)) ∧ read.names.Pairwise (· < ·) := by
  have distinct : ((m.toList.map fun entry => (entry.1,entryValue entry.2)).map (·.1)).Nodup := by
    rw [List.map_map]
    exact m.distinct
  obtain ⟨fields,made,sorted,perm⟩ := Value.ofFields_sorted distinct
  have image := List.eq_map_comp_perm fun entry : String × Entry => (entry.1,entryValue entry.2)
  obtain ⟨arranged,rfl,shuffled⟩ := (congrFun (congrFun image fields) m.toList).mpr perm
  have names : ((arranged.map fun entry => (entry.1,entry.2.ordered)).map (·.1)).Nodup := by
    rw [List.map_map]
    exact (shuffled.map _).nodup_iff.mpr m.distinct
  have held := Table.toList_ofList names
  refine ⟨_,arranged,?_,shuffled,held,?_⟩
  · show ofValue? (.ofFields (m.toList.map fun entry => (entry.1,entryValue entry.2))) = _
    rw [made,ofValue?,mapM_entries]
    rfl
  · show ((Table.ofList _).toList.map (·.1)).Pairwise (· < ·)
    rw [held,List.map_map]
    rw [Value.Sorted,List.pairwise_map] at sorted
    rw [List.pairwise_map]
    exact sorted

def InKeyOrder (key : String) (names : List String) : Prop :=
  ∃ found : List Sibling,found.Perm (row key names) ∧ (found.map Sibling.key).Pairwise (· < ·) ∧ found.map Sibling.name = names

theorem inKeyOrder_of_sorted {read : Mapping} {n lower : Node} (sorted : read.names.Pairwise (· < ·))
    (outlined : read.toOutline = .ok n.outline) (keyed : Keyed (keyOf n) n k lower) :
    InKeyOrder k (lower.children.map Node.name) := by
  obtain ⟨⟨found,keys,_,names,perm⟩,_,_⟩ := entryOrder_of_outline outlined keyed
  rw [places_row] at perm
  refine ⟨found,perm.symm,?_,names.symm⟩
  rw [keys]
  exact sorted.sublist (List.filter_sublist.map _)

theorem mem_places {children : List Node} {s : Sibling} : (s,child) ∈ places key children ↔
    ∃ index : Nat,(row key (children.map Node.name))[index]? = some s ∧ children[index]? = some child := by
  rw [places,List.mem_iff_getElem?]
  simp only [List.getElem?_zip_eq_some]

theorem keyed_top (keyed : Keyed key n key m) : m = n := by
  cases keyed with
  | self => rfl
  | child member later => exact absurd (keyed_within later) (not_within_child member)

theorem keyed_inside {place : Sibling × Node} (keyed : Keyed key n k m) (member : place ∈ places key n.children)
    (within : Within place.1.key k) : Keyed place.1.key place.2 k m := by
  cases keyed with
  | self => exact absurd within (not_within_child member)
  | @child _ _ _ _ other inside later =>
      have same : place = other := by
        by_contra different
        have symmetric : Std.Symm fun a b : Sibling × Node => ∀ key,Within a.1.key key → ¬ Within b.1.key key :=
          ⟨fun _ _ separate key below above => separate key above below⟩
        exact (places_apart key n.children).forall member inside different k within (keyed_within later)
      rw [same]
      exact later

-- Nodes hold the same when at every key they have the same attributes and children of the same names.
def Corresponds (key : String) (a b : Node) : Prop :=
  ∀ k m,Keyed key a k m → ∃ other,Keyed key b k other ∧ Attributes.same m.attributes other.attributes = true ∧
    m.children.map Node.name = other.children.map Node.name

theorem names_of_same {left right : List Node}
    (same : List.Forall₂ (fun c d => c.outline.same d.outline = true) left right) :
    left.map Node.name = right.map Node.name := by
  induction same with
  | nil => rfl
  | cons first _ ih => rw [List.map_cons,List.map_cons,(Node.outline_same.mp first).1,ih]

theorem corresponds_of_same {a b : Node} (same : a.outline.same b.outline = true) : Corresponds key a b := by
  intro k m keyed
  induction keyed generalizing b with
  | self =>
      obtain ⟨_,attributes,children⟩ := Node.outline_same.mp same
      exact ⟨b,.self,attributes,names_of_same children⟩
  | @child key k m n place member later ih =>
      obtain ⟨_,_,children⟩ := Node.outline_same.mp same
      obtain ⟨index,spelled,here⟩ := mem_places.mp member
      have bound : index < b.children.length := by
        rw [← children.length_eq]
        exact (List.getElem?_eq_some_iff.mp here).1
      have there := List.getElem?_eq_getElem bound
      have pair : (place.2,b.children[index]) ∈ n.children.zip b.children :=
        List.mem_iff_getElem?.mpr ⟨index,List.getElem?_zip_eq_some.mpr ⟨here,there⟩⟩
      obtain ⟨other,found,facts⟩ := ih ((List.forall₂_iff_zip.mp children).2 pair)
      rw [names_of_same children] at spelled
      exact ⟨other,.child (mem_places.mpr ⟨index,spelled,there⟩) found,facts⟩

theorem same_of_corresponds {a b : Node} (names : a.name = b.name) (held : Corresponds key a b) :
    a.outline.same b.outline = true := by
  induction a using Node.children_induction generalizing key b with
  | step a ih =>
      obtain ⟨top,keyed,attributes,children⟩ := held key a .self
      cases keyed_top keyed
      refine Node.outline_same.mpr ⟨names,attributes,List.forall₂_iff_zip.mpr ⟨?_,?_⟩⟩
      · rw [← List.length_map Node.name,children,List.length_map]
      · intro c d pair
        obtain ⟨index,both⟩ := List.mem_iff_getElem?.mp pair
        obtain ⟨here,there⟩ := List.getElem?_zip_eq_some.mp both
        have bound : index < (row key (a.children.map Node.name)).length := by
          rw [row_length,List.length_map]
          exact (List.getElem?_eq_some_iff.mp here).1
        obtain ⟨s,spelled⟩ : ∃ s,(row key (a.children.map Node.name))[index]? = some s := ⟨_,List.getElem?_eq_getElem bound⟩
        have left := mem_places.mpr ⟨index,spelled,here⟩
        rw [children] at spelled
        have right := mem_places.mpr ⟨index,spelled,there⟩
        have lower : Corresponds s.key c d := by
          intro k m below
          obtain ⟨other,found,facts⟩ := held k m (.child left below)
          exact ⟨other,keyed_inside found right (keyed_within below),facts⟩
        exact ih c (List.mem_of_getElem? here) ((place_name left).symm.trans (place_name right)) lower

theorem named_injective {a b : Sibling} (first : Named key a) (second : Named key b) (same : a.key = b.key) : a = b := by
  have here : Within (childKey key a.name a.index) a.key := first ▸ within_self _
  have there : Within (childKey key b.name b.index) a.key := by
    rw [same]
    exact second ▸ within_self _
  obtain ⟨names,indexes⟩ := within_unique here there
  cases a
  cases b
  cases names
  cases indexes
  cases same
  rfl

theorem eq_of_keys {left right : List Sibling} (first : ∀ s ∈ left,Named key s) (second : ∀ s ∈ right,Named key s)
    (keys : left.map Sibling.key = right.map Sibling.key) : left = right := by
  induction left generalizing right with
  | nil => exact (List.map_eq_nil_iff.mp keys.symm).symm
  | cons a left ih =>
      cases right with
      | nil => cases keys
      | cons b right =>
          obtain ⟨here,later⟩ := List.cons.inj keys
          rw [named_injective (first a (.head _)) (second b (.head _)) here,
            ih (fun s member => first s (.tail _ member)) (fun s member => second s (.tail _ member)) later]

theorem inKeyOrder_unique (first : InKeyOrder key names) (second : InKeyOrder key others)
    (keys : ((row key names).map Sibling.key).Perm ((row key others).map Sibling.key)) : names = others := by
  obtain ⟨found,own,sorted,rfl⟩ := first
  obtain ⟨again,other,ordered,rfl⟩ := second
  have perm : (found.map Sibling.key).Perm (again.map Sibling.key) := (own.map _).trans (keys.trans (other.map _).symm)
  have same := perm.eq_of_pairwise (fun a b _ _ less more => absurd more (String.lt_asymm less)) sorted ordered
  have named : ∀ {siblings : List Sibling} {names : List String},siblings.Perm (row key names) →
      ∀ s ∈ siblings,Named key s := fun shuffled s member => rowFrom_named (shuffled.mem_iff.mp member)
  rw [eq_of_keys (named own) (named other) same]

theorem outline_of_value {n : Node} (small : n.size ≤ twoTo 64) : ∃ (read : Mapping) (other : Node),
    ofValue? (ofNode n).value = some read ∧ read.names.Pairwise (· < ·) ∧ read.toOutline = .ok other.outline ∧
      same (ofNode n) read = true ∧ (read.toList.map link).Perm ((entriesOf (keyOf n) none n).map link) := by
  obtain ⟨read,arranged,back,shuffled,held,sorted⟩ := ofValue?_value (ofNode n)
  have links : (read.toList.map link).Perm ((entriesOf (keyOf n) none n).map link) := by
    rw [held,List.map_map,← ofNode_toList]
    exact shuffled.map link
  have sizes : n.size = read.size := by
    rw [← ofNode_size]
    have length := shuffled.length_eq
    rw [← List.length_map fun entry : String × Entry => (entry.1,entry.2.ordered),← held] at length
    exact length.symm
  obtain ⟨other,outlined⟩ := outline_of_links small sizes links
  refine ⟨read,other,back,sorted,outlined,Table.agrees_iff.mpr ⟨by rw [← sizes,ofNode_size],?_⟩,links⟩
  intro entry member
  refine ⟨entry.2.ordered,Table.get?_eq_some.mpr ?_,same_ordered entry.2⟩
  rw [held]
  exact List.mem_map.mpr ⟨entry,shuffled.mem_iff.mpr member,rfl⟩

theorem keyOf_injective {a b : Node} (same : keyOf a = keyOf b) : a.name = b.name := by
  have spelled : Key.component a.name.toList 0 = Key.component b.name.toList 0 := String.ofList_inj.mp same
  exact String.toList_inj.mp (Key.component_injective spelled).1

section Back

variable {read : Mapping} {n other : Node} (sorted : read.names.Pairwise (· < ·))
  (outlined : read.toOutline = .ok other.outline) (held : same (ofNode n) read = true)
  (links : (read.toList.map link).Perm ((entriesOf (keyOf n) none n).map link))

include outlined links

theorem keyOf_back : keyOf other = keyOf n := by
  have first := (outline_exact.mp outlined).1
  rw [rootKey_of_links links,Except.ok.injEq] at first
  exact first.symm

theorem rows_back (left : Keyed (keyOf n) n k m) (right : Keyed (keyOf n) other k lower) :
    ((row k (m.children.map Node.name)).map Sibling.key).Perm ((row k (lower.children.map Node.name)).map Sibling.key) := by
  have built : (read.childKeys k).Perm ((row k (lower.children.map Node.name)).map Sibling.key) := by
    rw [← listed_root right,childKeys_eq,← keyOf_back outlined links]
    exact ((entries_of_outline outlined).symm.filter _).map _
  exact (childKeys_of_links links left).symm.trans built

include held

theorem keyed_back (keyed : Keyed (keyOf n) n k m) :
    ∃ lower,Keyed (keyOf n) other k lower ∧ Attributes.same m.attributes lower.attributes = true := by
  obtain ⟨above,inside⟩ := keyed_entry keyed none
  rw [← ofNode_toList] at inside
  obtain ⟨entry,found,equal⟩ := (Table.agrees_iff.mp held).2 _ inside
  have there := (entries_of_outline outlined).mem_iff.mpr (Table.get?_eq_some.mp found)
  obtain ⟨lower,again⟩ := mem_keys.mp (List.mem_map_of_mem there)
  refine ⟨lower,by rwa [keyOf_back outlined links] at again,?_⟩
  rw [((outline_exact.mp outlined).2.1 _ lower again).attributes,attributesAt_of_mem (Table.get?_eq_some.mp found)]
  exact (Bool.and_eq_true_iff.mp equal).2

include sorted

theorem same_back : n.outline.same other.outline = true ↔
    ∀ k m,Keyed (keyOf n) n k m → InKeyOrder k (m.children.map Node.name) := by
  have ordered : ∀ {k lower},Keyed (keyOf n) other k lower → InKeyOrder k (lower.children.map Node.name) := by
    intro k lower keyed
    rw [← keyOf_back outlined links] at keyed
    exact inKeyOrder_of_sorted sorted outlined keyed
  constructor
  · intro equal k m keyed
    obtain ⟨lower,there,_,names⟩ := corresponds_of_same equal k m keyed
    rw [names]
    exact ordered there
  · intro each
    have corresponds : Corresponds (keyOf n) n other := by
      intro k m keyed
      obtain ⟨lower,there,attributes⟩ := keyed_back outlined held links keyed
      exact ⟨lower,there,attributes,
        inKeyOrder_unique (each k m keyed) (ordered there) (rows_back outlined links keyed there)⟩
    exact same_of_corresponds (keyOf_injective (keyOf_back outlined links).symm) corresponds

end Back

theorem toTree_value (tree : Tree) (effects : Effects) (next : Nat) (fits : tree.size ≤ twoTo 64) :
    ∃ value read built later,(Shaper.toMapping.apply tree).run effects = (.ok value,effects) ∧
      ofValue? value = some read ∧ read.names.Pairwise (· < ·) ∧ read.toTree.run next = (.ok built,later) ∧
      same (ofTree tree) (ofTree built) = true ∧
      (∀ k n,Keyed (keyOf built.root) built.root k n → InKeyOrder k (n.children.map Node.name)) ∧
      (tree.root.outline.same built.root.outline = true ↔
        ∀ k n,Keyed (keyOf tree.root) tree.root k n → InKeyOrder k (n.children.map Node.name)) := by
  obtain ⟨read,other,back,sorted,outlined,held,links⟩ := outline_of_value fits
  obtain ⟨built,later,run,outlines⟩ := toTree_of_outline outlined next
  rw [← outlines] at outlined
  refine ⟨_,read,built,later,rfl,back,sorted,run,?_,fun k n => inKeyOrder_of_sorted sorted outlined,same_back sorted outlined held links⟩
  obtain ⟨sizes,found⟩ := Table.agrees_iff.mp held
  have entries := entries_of_outline outlined
  rw [← ofNode_toList] at entries
  refine Table.agrees_iff.mpr ⟨sizes.trans entries.length_eq.symm,?_⟩
  intro entry member
  obtain ⟨value,here,equal⟩ := found entry member
  exact ⟨value,Table.get?_eq_some.mpr (entries.mem_iff.mpr (Table.get?_eq_some.mp here)),equal⟩

-- Two children against the order of their keys come back the other way round.
def misordered : Tree := ⟨.mk 0 "root" .empty [.mk 1 "b" .empty [],.mk 2 "a" .empty []],rfl⟩

theorem toTree_misordered : misordered.size ≤ twoTo 64 ∧ ∃ value read built later,
    (Shaper.toMapping.apply misordered).run ⟨3,[]⟩ = (.ok value,⟨3,[]⟩) ∧ ofValue? value = some read ∧
      read.toTree.run 3 = (.ok built,later) ∧ ¬ misordered.root.outline.same built.root.outline = true := by
  have fits : misordered.size ≤ twoTo 64 := by decide
  obtain ⟨value,read,built,later,shaped,back,_,run,_,_,ordered⟩ := toTree_value misordered ⟨3,[]⟩ 3 fits
  refine ⟨fits,value,read,built,later,shaped,back,run,?_⟩
  intro same
  have here : InKeyOrder "root" ["b","a"] := ordered.mp same _ _ .self
  have other : InKeyOrder "root" ["a","b"] := ⟨row "root" ["a","b"],.refl _,by decide,rfl⟩
  have kept := inKeyOrder_unique here other (.swap _ _ _)
  exact absurd kept (by decide)

end Mapping
end SharedTree
