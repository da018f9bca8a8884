import SharedTree.Proofs.Node.Update

namespace SharedTree.Node

inductive Relinked (moved old parent : Node) : Node → Node → Prop
  | kept {n : Node} : old ∉ n.subtree → parent ∉ n.subtree → Relinked moved old parent n n
  | rebuilt {n m : Node} {children last : List Node} : old ∈ n.subtree ∨ parent ∈ n.subtree →
      List.Forall₂ (Relinked moved old parent) (n.children.filter fun child => !child.is moved) children →
      (n = parent → last = [moved]) → (n ≠ parent → last = []) →
      Refilled (children ++ last) n m → Relinked moved old parent n m

def Away (a n : Node) : Prop := a.serial ∉ n.serials

variable {a n m moved old parent : Node}

theorem Away.not_mem (away : Away a n) : a ∉ n.subtree := fun inside => away (List.mem_map_of_mem inside)

theorem Away.ne (away : Away a n) : n ≠ a := fun same => away.not_mem (same ▸ n.mem_subtree_self)

theorem ne_below {child : Node} (member : child ∈ n.children) (inside : a ∈ child.subtree) : n ≠ a := by
  rintro rfl
  exact not_mem_below member inside

theorem Away.child {child : Node} (away : Away a n) (member : child ∈ n.children) : Away a child := by
  intro inside
  obtain ⟨m,below,same⟩ := List.mem_map.mp inside
  exact away (List.mem_map.mpr ⟨m,mem_subtree_below member below,same⟩)

theorem Away.not_is {child : Node} (away : Away a n) (member : child ∈ n.children) : child.is a = false := by
  refine beq_eq_false_iff_ne.mpr fun same => away ?_
  rw [← same]
  exact List.mem_map_of_mem (mem_subtree_child member)

theorem away_below {child : Node} (distinct : n.Distinct) (member : child ∈ n.children) : Away n child := by
  intro inside
  obtain ⟨m,below,same⟩ := List.mem_map.mp inside
  exact (distinct_iff.mp distinct).1 (List.mem_map.mpr ⟨m,mem_subtreeAll.mpr ⟨child,member,below⟩,same⟩)

theorem away_beside {child sibling : Node} {index other : Nat} (distinct : n.Distinct)
    (here : n.child? index = some child) (inside : a ∈ child.subtree)
    (there : n.child? other = some sibling) (apart : other ≠ index) : Away a sibling := by
  intro repeated
  obtain ⟨m,below,same⟩ := List.mem_map.mp repeated
  exact apart (index_unique (distinct_iff.mp distinct).2 there here below inside same)

theorem distinct_child {child : Node} (distinct : n.Distinct) (here : n.child? index = some child) : child.Distinct :=
  distinct_of_mem (distinct_iff.mp distinct).2 (List.mem_of_getElem? here)

theorem Relinked.kept_away (source : Away old n) (target : Away parent n) : Relinked moved old parent n n :=
  .kept source.not_mem target.not_mem

theorem Relinked.through {children : List Node} (inside : old ∈ n.subtree ∨ parent ∈ n.subtree) (other : n ≠ parent)
    (related : List.Forall₂ (Relinked moved old parent) (n.children.filter fun child => !child.is moved) children)
    (refilled : Refilled children n m) : Relinked moved old parent n m :=
  .rebuilt inside related (fun same => absurd same other) (fun _ => rfl) (by rwa [List.append_nil])

theorem Relinked.ending {children : List Node}
    (related : List.Forall₂ (Relinked moved old parent) (parent.children.filter fun child => !child.is moved) children)
    (refilled : Refilled (children ++ [moved]) parent m) : Relinked moved old parent parent m :=
  .rebuilt (.inr parent.mem_subtree_self) related (fun _ => rfl) (fun other => absurd rfl other) refilled

theorem forall₂_set {related : Node → Node → Prop} {before after : List Node} (here : before[index]? = some n)
    (one : related n m) (same : after.length = before.length)
    (rest : ∀ place a b,place ≠ index → before[place]? = some a → after[place]? = some b → related a b) :
    List.Forall₂ related before (after.set index m) := by
  rw [List.forall₂_iff_get]
  refine ⟨by rw [List.length_set,same],?_⟩
  intro place first second
  rw [List.get_eq_getElem,List.get_eq_getElem,List.getElem_set]
  split
  · rename_i equal
    subst equal
    rwa [(List.getElem?_eq_some_iff.mp here).2]
  · rename_i apart
    rw [List.length_set] at second
    exact rest place _ _ (Ne.symm apart) (List.getElem?_eq_getElem _) (List.getElem?_eq_getElem _)

theorem filter_moved {nodes : List Node} (distinct : (nodes.map serial).Nodup) (here : nodes[index]? = some moved) :
    (nodes.filter fun child => !child.is moved) = nodes.eraseIdx index := by
  induction nodes generalizing index with
  | nil => cases here
  | cons first nodes ih =>
      obtain ⟨absent,distinct⟩ := List.nodup_cons.mp distinct
      cases index with
      | zero =>
          cases Option.some.inj here
          have others : ∀ child ∈ nodes,(!child.is moved) = true := by
            intro child member
            have apart : child.serial ≠ moved.serial := fun same => absent (same ▸ List.mem_map_of_mem member)
            simpa [is] using apart
          rw [List.filter_cons_of_neg (by simp [is]),List.filter_eq_self.mpr others]
          rfl
      | succ index =>
          have apart : first.serial ≠ moved.serial := fun same => absent (same ▸ List.mem_map_of_mem (List.mem_of_getElem? here))
          rw [List.filter_cons_of_pos (by simpa [is] using apart),ih distinct here]
          rfl

theorem children_distinct (distinct : n.Distinct) : (n.children.map serial).Nodup := by
  have perm := serials_belowAll fun child (_ : child ∈ n.children) => child.serials_below
  exact (List.nodup_append.mp (perm.nodup_iff.mp (distinct_iff.mp distinct).2)).1

theorem filter_away (away : Away moved n) : (n.children.filter fun child => !child.is moved) = n.children :=
  List.filter_eq_self.mpr fun child member => by rw [away.not_is member]; rfl

theorem filter_below {child : Node} (distinct : n.Distinct) (here : n.child? index = some child)
    (deeper : moved ∈ subtreeAll child.children) : (n.children.filter fun child => !child.is moved) = n.children := by
  refine List.filter_eq_self.mpr fun sibling member => ?_
  obtain ⟨place,there⟩ := List.mem_iff_getElem?.mp member
  obtain ⟨under,among,below⟩ := mem_subtreeAll.mp deeper
  have apart : sibling.serial ≠ moved.serial := by
    intro same
    by_cases one : place = index
    · rw [one] at there
      cases here.symm.trans there
      exact (distinct_iff.mp (distinct_child distinct here)).1 (List.mem_map.mpr ⟨moved,deeper,same.symm⟩)
    · refine away_beside distinct here (mem_subtree_below among below) there one ?_
      rw [← same]
      exact List.mem_map_of_mem sibling.mem_subtree_self
  simpa [is] using apart

theorem mem_below {k : Node} (inside : k ∈ n.subtree) (member : m ∈ k.children) : m ∈ subtreeAll n.children := by
  rcases mem_subtree.mp inside with rfl | ⟨child,among,deeper⟩
  · exact mem_subtreeAll.mpr ⟨m,member,m.mem_subtree_self⟩
  · exact mem_subtreeAll.mpr ⟨child,among,mem_subtree_trans (mem_subtree_child member) deeper⟩

theorem relinked_detached {path : List Nat} (distinct : n.Distinct) (source : n.at? path = some old)
    (here : old.child? index = some moved) (target : Away parent n) (edited : Edited (·.eraseIdx index) path n m) :
    Relinked moved old parent n m := by
  induction path generalizing n m with
  | nil =>
      cases Option.some.inj source
      cases edited with
      | here refilled =>
          refine .through (.inl old.mem_subtree_self) target.ne ?_ refilled
          rw [filter_moved (children_distinct distinct) here]
          refine List.forall₂_same.mpr fun child member => ?_
          have among := List.mem_of_mem_eraseIdx member
          exact .kept_away (away_below distinct among) (target.child among)
  | cons place path ih =>
      obtain ⟨child,there,later⟩ := at?_cons.mp source
      obtain ⟨changed,edited,refilled⟩ := edited.on_way there
      have among := List.mem_of_getElem? there
      have below := at?_mem later
      refine .through (.inl (mem_subtree_below among below)) target.ne ?_ refilled
      rw [filter_below distinct there (mem_below below (List.mem_of_getElem? here))]
      refine forall₂_set there (ih (distinct_child distinct there) later (target.child among) edited) rfl ?_
      intro beside a b apart first second
      cases first.symm.trans second
      exact .kept_away (away_beside distinct there below first apart) (target.child (List.mem_of_getElem? first))

theorem relinked_attached {path : List Nat} (distinct : n.Distinct) (target : n.at? path = some parent)
    (source : Away old n) (gone : Away moved n) (edited : Edited (· ++ [moved]) path n m) :
    Relinked moved old parent n m := by
  induction path generalizing n m with
  | nil =>
      cases Option.some.inj target
      cases edited with
      | here refilled =>
          refine .ending ?_ refilled
          rw [filter_away gone]
          exact List.forall₂_same.mpr fun child member => .kept_away (source.child member) (away_below distinct member)
  | cons place path ih =>
      obtain ⟨child,there,later⟩ := at?_cons.mp target
      obtain ⟨changed,edited,refilled⟩ := edited.on_way there
      have among := List.mem_of_getElem? there
      have below := at?_mem later
      refine .through (.inr (mem_subtree_below among below)) (ne_below among below) ?_ refilled
      rw [filter_away gone]
      refine forall₂_set there (ih (distinct_child distinct there) later (source.child among) (gone.child among) edited) rfl ?_
      intro beside a b apart first second
      cases first.symm.trans second
      exact .kept_away (source.child (List.mem_of_getElem? first)) (away_beside distinct there below first apart)

theorem Refilled.again {k : Node} {before after : List Node} (first : Refilled before n m) (second : Refilled after m k) :
    Refilled after n k :=
  ⟨second.name.trans first.name,second.attributes.trans first.attributes,second.children⟩

end SharedTree.Node
