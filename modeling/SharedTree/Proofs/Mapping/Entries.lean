import SharedTree.Proofs.Mapping.Siblings
import SharedTree.Proofs.Node.Outline

namespace SharedTree
namespace Mapping

def places (key : String) (children : List Node) : List (Sibling × Node) :=
  (row key (children.map Node.name)).zip children

theorem entriesBelow_eq (key : String) (earlier : List String) (children : List Node) :
    entriesBelow key earlier children =
      ((rowFrom key earlier (children.map Node.name)).zip children).flatMap fun place =>
        entriesOf place.1.key (some key) place.2 := by
  induction children generalizing earlier with
  | nil => rfl
  | cons child children ih =>
      rw [entriesBelow,ih]
      rfl

theorem entriesOf_eq (key : String) (parent : Option String) (n : Node) :
    entriesOf key parent n = (key,⟨parent,n.attributes⟩) ::
      (places key n.children).flatMap fun place => entriesOf place.1.key (some key) place.2 := by
  cases n
  rw [entriesOf,entriesBelow_eq]
  rfl

theorem places_row (key : String) (children : List Node) :
    (places key children).map Prod.fst = row key (children.map Node.name) := by
  have length : (row key (children.map Node.name)).length = children.length := by
    rw [row_length,List.length_map]
  exact List.map_fst_zip (Nat.le_of_eq length)

theorem places_children (key : String) (children : List Node) : (places key children).map Prod.snd = children := by
  have length : (row key (children.map Node.name)).length = children.length := by
    rw [row_length,List.length_map]
  exact List.map_snd_zip (Nat.le_of_eq length.symm)

theorem place_named {place : Sibling × Node} (member : place ∈ places key children) : Named key place.1 := by
  have inside : place.1 ∈ row key (children.map Node.name) := by
    rw [← places_row]
    exact List.mem_map_of_mem member
  exact rowFrom_named inside

theorem place_child {place : Sibling × Node} (member : place ∈ places key children) : place.2 ∈ children := by
  have inside : place.2 ∈ (places key children).map Prod.snd := List.mem_map_of_mem member
  rwa [places_children] at inside

theorem place_name {place : Sibling × Node} (member : place ∈ places key children) : place.1.name = place.2.name := by
  obtain ⟨index,bound,rfl⟩ := List.getElem_of_mem member
  have left : index < (row key (children.map Node.name)).length := by
    rw [places,List.length_zip] at bound
    omega
  have right : index < children.length := by
    rw [places,List.length_zip] at bound
    omega
  have names : ((row key (children.map Node.name)).map Sibling.name)[index]? = (children.map Node.name)[index]? := by
    rw [row_names]
  simp [left,right] at names
  simpa [places] using names

def Within (key other : String) : Prop :=
  ∃ tail,other.toList = key.toList ++ tail ∧ Key.first tail = []

theorem within_self (key : String) : Within key key := ⟨[],by simp,rfl⟩

theorem within_parent (below : Within (childKey parent name index) key) : Within parent key ∧ key ≠ parent := by
  obtain ⟨tail,spelled,_⟩ := below
  rw [childKey_toList,List.append_assoc] at spelled
  refine ⟨⟨_,spelled,rfl⟩,?_⟩
  intro same
  rw [same] at spelled
  have length := congrArg List.length spelled
  simp at length

theorem within_unique (left : Within (childKey parent a i) key) (right : Within (childKey parent b j) key) :
    a = b ∧ i = j := by
  obtain ⟨tail,spelled,ends⟩ := left
  obtain ⟨other,again,stops⟩ := right
  rw [spelled,childKey_toList,childKey_toList,List.append_assoc,List.append_assoc,
    List.append_cancel_left_eq,List.cons_append,List.cons_append,List.cons.injEq] at again
  have parts := congrArg Key.first again.2
  rw [Key.first_component,Key.first_component,ends,stops,List.append_nil,List.append_nil] at parts
  obtain ⟨names,indexes⟩ := Key.component_injective parts
  exact ⟨String.toList_inj.mp names,indexes⟩

def Apart (siblings : List Sibling) : Prop :=
  siblings.Pairwise fun a b => ∀ key,Within a.key key → ¬ Within b.key key

theorem row_apart (parent : String) (names : List String) : Apart (row parent names) := by
  refine (rowFrom_ordered parent [] names).imp_of_mem ?_
  intro a b left right less key below besides
  rw [rowFrom_named left] at below
  rw [rowFrom_named right] at besides
  obtain ⟨same,indexes⟩ := within_unique below besides
  have strict := less same
  omega

theorem places_apart (parent : String) (children : List Node) :
    (places parent children).Pairwise fun a b => ∀ key,Within a.1.key key → ¬ Within b.1.key key := by
  have apart := row_apart parent (children.map Node.name)
  rwa [Apart,← places_row,List.pairwise_map] at apart

theorem entry_within {n : Node} (member : entry ∈ entriesOf key parent n) : Within key entry.1 := by
  induction n using Node.children_induction generalizing key parent with
  | step n ih =>
      rw [entriesOf_eq] at member
      rcases List.mem_cons.mp member with rfl | later
      · exact within_self key
      · obtain ⟨place,inside,below⟩ := List.mem_flatMap.mp later
        have deeper := ih place.2 (place_child inside) below
        rw [place_named inside] at deeper
        exact (within_parent deeper).1

theorem entriesOf_nodup (key : String) (parent : Option String) (n : Node) :
    ((entriesOf key parent n).map (·.1)).Nodup := by
  induction n using Node.children_induction generalizing key parent with
  | step n ih =>
      rw [entriesOf_eq,List.map_cons,List.nodup_cons,List.map_flatMap,List.nodup_flatMap]
      refine ⟨?_,fun place inside => ih place.2 (place_child inside) _ _,?_⟩
      · intro repeated
        obtain ⟨place,inside,below⟩ := List.mem_flatMap.mp repeated
        obtain ⟨entry,member,same⟩ := List.mem_map.mp below
        have deeper := entry_within member
        rw [same,place_named inside] at deeper
        exact (within_parent deeper).2 rfl
      · refine (places_apart key n.children).imp ?_
        intro a b apart other left right
        obtain ⟨entry,member,rfl⟩ := List.mem_map.mp left
        obtain ⟨again,besides,same⟩ := List.mem_map.mp right
        have below := entry_within besides
        rw [same] at below
        exact apart entry.1 (entry_within member) below

theorem entriesBelow_length {nodes : List Node}
    (each : ∀ child ∈ nodes,∀ (key : String) (parent : Option String),(entriesOf key parent child).length = child.size) :
    (entriesBelow key earlier nodes).length = Node.sizeAll nodes := by
  induction nodes generalizing earlier with
  | nil => rfl
  | cons child nodes ih =>
      rw [entriesBelow,List.length_append,each child (.head _),
        ih fun other member => each other (.tail _ member),Node.sizeAll]

theorem entriesOf_length (key : String) (parent : Option String) (n : Node) :
    (entriesOf key parent n).length = n.size := by
  induction n using Node.children_induction generalizing key parent with
  | step n ih =>
      have below : (entriesBelow key [] n.children).length = Node.sizeAll n.children := entriesBelow_length ih
      cases n
      rw [entriesOf,List.length_cons,Node.size,Nat.add_comm]
      exact congrArg (1 + ·) below

-- The nodes from a node on, each with its key.
inductive Keyed : String → Node → String → Node → Prop where
  | self : Keyed key n key n
  | child {place : Sibling × Node} (member : place ∈ places key n.children) (later : Keyed place.1.key place.2 k m) : Keyed key n k m

theorem keyed_within (keyed : Keyed key n k m) : Within key k := by
  induction keyed with
  | self => exact within_self _
  | child member _ ih =>
      rw [place_named member] at ih
      exact (within_parent ih).1

theorem keyed_child {place : Sibling × Node} (keyed : Keyed key n k m) (member : place ∈ places k m.children) :
    Keyed key n place.1.key place.2 := by
  induction keyed with
  | self => exact .child member .self
  | child first _ ih => exact .child first (ih member)

theorem keyed_size (keyed : Keyed key n k m) : m.size ≤ n.size := by
  induction keyed with
  | self => exact Nat.le_refl _
  | child member _ ih =>
      have less := Node.size_child (place_child member)
      omega

theorem not_within_child {place : Sibling × Node} (member : place ∈ places key children) : ¬ Within place.1.key key := by
  intro below
  rw [place_named member] at below
  exact (within_parent below).2 rfl

theorem mem_entriesOf {n : Node} :
    entry ∈ entriesOf key parent n ↔ entry = (key,⟨parent,n.attributes⟩) ∨
      ∃ k m place,Keyed key n k m ∧ place ∈ places k m.children ∧ entry = (place.1.key,⟨some k,place.2.attributes⟩) := by
  constructor
  · intro member
    induction n using Node.children_induction generalizing key parent with
    | step n ih =>
        rw [entriesOf_eq] at member
        rcases List.mem_cons.mp member with rfl | later
        · exact .inl rfl
        · obtain ⟨place,inside,below⟩ := List.mem_flatMap.mp later
          rcases ih place.2 (place_child inside) below with rfl | ⟨k,m,child,keyed,last,rfl⟩
          · exact .inr ⟨key,n,place,.self,inside,rfl⟩
          · exact .inr ⟨k,m,child,.child inside keyed,last,rfl⟩
  · intro found
    rcases found with rfl | ⟨k,m,child,keyed,inside,rfl⟩
    · rw [entriesOf_eq]
      exact .head _
    · induction keyed generalizing parent with
      | @self key n =>
          rw [entriesOf_eq]
          refine .tail _ (List.mem_flatMap.mpr ⟨child,inside,?_⟩)
          rw [entriesOf_eq]
          exact .head _
      | child member _ ih =>
          rw [entriesOf_eq]
          exact .tail _ (List.mem_flatMap.mpr ⟨_,member,ih inside⟩)

theorem keyed_entry (keyed : Keyed key n k m) (parent : Option String) :
    ∃ above,(k,⟨above,m.attributes⟩) ∈ entriesOf key parent n := by
  induction keyed generalizing parent with
  | self =>
      rw [entriesOf_eq]
      exact ⟨parent,.head _⟩
  | child member _ ih =>
      obtain ⟨above,inside⟩ := ih (some _)
      rw [entriesOf_eq]
      exact ⟨above,.tail _ (List.mem_flatMap.mpr ⟨_,member,inside⟩)⟩

theorem mem_keys {n : Node} : k ∈ (entriesOf key parent n).map (·.1) ↔ ∃ m,Keyed key n k m := by
  constructor
  · intro member
    obtain ⟨entry,inside,rfl⟩ := List.mem_map.mp member
    rcases mem_entriesOf.mp inside with rfl | ⟨above,m,place,keyed,child,rfl⟩
    · exact ⟨n,.self⟩
    · exact ⟨place.2,keyed_child keyed child⟩
  · intro found
    obtain ⟨m,keyed⟩ := found
    obtain ⟨above,member⟩ := keyed_entry keyed parent
    exact List.mem_map_of_mem member

def listed (above : Option String) (entries : List (String × Entry)) : List String :=
  (entries.filter (·.2.parent == above)).map (·.1)

theorem childKeys_eq (m : Mapping) (parent : String) : m.childKeys parent = listed (some parent) m.toList := rfl

theorem listed_cons (above : Option String) (entry : String × Entry) (rest : List (String × Entry)) :
    listed above (entry :: rest) = (if entry.2.parent = above then [entry.1] else []) ++ listed above rest := by
  rw [listed,List.filter_cons]
  by_cases named : entry.2.parent = above
  · simp [named,listed]
  · simp [named,listed]

theorem listed_flatMap (above : Option String) (entries : α → List (String × Entry)) (items : List α) :
    listed above (items.flatMap entries) = items.flatMap fun item => listed above (entries item) := by
  rw [listed,List.filter_flatMap,List.map_flatMap]
  rfl

theorem listed_outside {n : Node} {key : String} (outside : ∀ k,above = some k → ¬ Within key k) :
    listed above (entriesOf key parent n) = if parent = above then [key] else [] := by
  induction n using Node.children_induction generalizing key parent with
  | step n ih =>
      rw [entriesOf_eq,listed_cons,listed_flatMap]
      have below : (places key n.children).flatMap (fun place =>
          listed above (entriesOf place.1.key (some key) place.2)) = [] := by
        rw [List.flatMap_eq_nil_iff]
        intro place member
        have deeper : ∀ k,above = some k → ¬ Within place.1.key k := by
          intro k same within
          rw [place_named member] at within
          exact outside k same (within_parent within).1
        rw [ih place.2 (place_child member) deeper,if_neg]
        intro same
        exact outside key same.symm (within_self key)
      rw [below,List.append_nil]

theorem listed_top (key : String) (n : Node) : listed none (entriesOf key none n) = [key] := by
  have outside : ∀ k,none = some k → ¬ Within key k := fun _ same => nomatch same
  rw [listed_outside outside,if_pos rfl]

theorem flatMap_single {items : List α} {f : α → List β} (member : item ∈ items)
    (apart : items.Pairwise fun a b => (a = item → f b = []) ∧ (b = item → f a = [])) :
    items.flatMap f = f item := by
  induction items with
  | nil => cases member
  | cons first items ih =>
      obtain ⟨here,later⟩ := List.pairwise_cons.mp apart
      rw [List.flatMap_cons]
      rcases List.mem_cons.mp member with rfl | inside
      · have rest : items.flatMap f = [] := List.flatMap_eq_nil_iff.mpr fun other after => (here other after).1 rfl
        rw [rest,List.append_nil]
      · rw [(here item inside).2 rfl,ih inside later,List.nil_append]

theorem listed_keyed (keyed : Keyed key n k m) (apart : ∀ other,parent = some other → ¬ Within key other) :
    listed (some k) (entriesOf key parent n) = (row k (m.children.map Node.name)).map Sibling.key := by
  have beside : ∀ {other : String},¬ Within other k → ∀ up,some k = some up → ¬ Within other up := by
    intro other outside up same
    cases same
    exact outside
  induction keyed generalizing parent with
  | @self key n =>
      have foreign : ¬ parent = some key := fun same => apart key same (within_self key)
      rw [entriesOf_eq,listed_cons,listed_flatMap,if_neg foreign,List.nil_append,← places_row,List.map_map]
      rw [List.flatMap_congr (g := fun place => [place.1.key])]
      · exact List.map_eq_flatMap.symm
      · intro place member
        rw [listed_outside (beside (not_within_child member)),if_pos rfl]
  | @child key k m n place member later ih =>
      have within := keyed_within later
      have foreign : ¬ parent = some k := by
        intro same
        rw [place_named member] at within
        exact apart k same (within_parent within).1
      have other : ¬ key = k := by
        intro same
        rw [← same] at within
        exact not_within_child member within
      have empty : ∀ place : Sibling × Node,¬ Within place.1.key k →
          listed (some k) (entriesOf place.1.key (some key) place.2) = [] := by
        intro place outside
        rw [listed_outside (beside outside),if_neg]
        intro same
        exact other (Option.some.inj same)
      rw [entriesOf_eq,listed_cons,listed_flatMap,if_neg foreign,List.nil_append,flatMap_single member]
      · exact ih (fun outer same => by cases same; exact not_within_child member) beside
      · refine (places_apart key n.children).imp fun {a b} separate => ⟨?_,?_⟩
        · intro same
          exact empty b (separate k (same ▸ within))
        · intro same
          exact empty a fun inside => separate k inside (same ▸ within)

theorem listed_root (keyed : Keyed key n k m) :
    listed (some k) (entriesOf key none n) = (row k (m.children.map Node.name)).map Sibling.key :=
  listed_keyed keyed fun _ above => nomatch above

end Mapping
end SharedTree
