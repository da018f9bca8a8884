import SharedTree.Proofs.Node.Relinked
import SharedTree.Proofs.Tree.Index
import SharedTree.Tree.Reparent

namespace SharedTree.Tree
open Node

theorem pathWithout_nil (parent : List Nat) (index : Nat) : pathWithout parent index [] = [] := by
  rw [pathWithout,List.drop_nil]

theorem pathWithout_here (index place : Nat) (rest : List Nat) :
    pathWithout [] index (place :: rest) = (if index < place then place - 1 else place) :: rest := by
  simp only [pathWithout,List.length_nil,List.drop_zero,List.take_zero,true_and,List.nil_append]
  split <;> rfl

theorem pathWithout_down (parent : List Nat) (index place : Nat) (path : List Nat) :
    pathWithout (place :: parent) index (place :: path) = place :: pathWithout parent index path := by
  simp only [pathWithout,List.length_cons,List.drop_succ_cons,List.take_succ_cons,List.cons.injEq,true_and]
  split
  · split <;> rfl
  · rfl

theorem pathWithout_apart {place other : Nat} (apart : other ≠ place) (parent : List Nat) (index : Nat) (path : List Nat) :
    pathWithout (place :: parent) index (other :: path) = other :: path := by
  simp only [pathWithout,List.length_cons,List.drop_succ_cons,List.take_succ_cons,List.cons.injEq,apart,false_and,if_false]
  split <;> rfl

variable {n m a child moved old parent : Node} {index place : Nat} {path rest : List Nat}

-- Once the moved node is gone, the path leads to a node, and appending the moved
-- node there completes the move.
def Completes (moved old parent n m : Node) (path : List Nat) : Prop :=
  (∃ target,m.at? path = some target) ∧
    ∀ k,Edited (· ++ [moved]) path m k → Relinked moved old parent n k

theorem completes_own (distinct : old.Distinct) (here : old.child? index = some moved)
    (detached : Refilled (old.children.eraseIdx index) old m) : Completes moved old old old m [] := by
  refine ⟨⟨m,rfl⟩,?_⟩
  intro k edited
  cases edited with
  | here attached =>
      rw [detached.children] at attached
      refine .ending ?_ (detached.again attached)
      rw [filter_moved (children_distinct distinct) here]
      refine List.forall₂_same.mpr fun child member => ?_
      have away := away_below distinct (List.mem_of_mem_eraseIdx member)
      exact .kept_away away away

theorem eraseIdx_shifted (nodes : List Node) (apart : place ≠ index) :
    (nodes.eraseIdx index)[if index < place then place - 1 else place]? = nodes[place]? := by
  rw [List.getElem?_eraseIdx]
  split
  · obtain ⟨before,rfl⟩ := Nat.exists_eq_add_of_lt ‹index < place›
    rw [if_neg (by omega)]
    rfl
  · rw [if_pos (by omega)]

theorem eraseIdx_beside {nodes : List Node} {beside : Nat}
    (other : beside ≠ if index < place then place - 1 else place) (found : (nodes.eraseIdx index)[beside]? = some child) :
    ∃ before,before ≠ place ∧ nodes[before]? = some child := by
  rw [List.getElem?_eraseIdx] at found
  split at found
  · exact ⟨beside,by split at other <;> omega,found⟩
  · exact ⟨beside + 1,by split at other <;> omega,found⟩

theorem completes_beside (distinct : old.Distinct) (here : old.child? index = some moved)
    (there : old.child? place = some child) (target : child.at? path = some parent) (apart : place ≠ index)
    (detached : Refilled (old.children.eraseIdx index) old m) :
    Completes moved old parent old m (pathWithout [] index (place :: path)) := by
  rw [pathWithout_here]
  have shifted := (eraseIdx_shifted old.children apart).trans there
  have found : m.child? (if index < place then place - 1 else place) = some child := by
    rwa [child?,detached.children]
  have among := List.mem_of_getElem? there
  have below := at?_mem target
  refine ⟨⟨parent,at?_cons.mpr ⟨child,found,target⟩⟩,?_⟩
  intro k edited
  obtain ⟨changed,edited,attached⟩ := edited.on_way found
  rw [detached.children] at attached
  have gone := away_beside distinct here moved.mem_subtree_self there apart
  have attachedBelow := relinked_attached (distinct_child distinct there) target (away_below distinct among) gone edited
  refine .through (.inl old.mem_subtree_self) (ne_below among below) ?_ (detached.again attached)
  rw [filter_moved (children_distinct distinct) here]
  refine forall₂_set shifted attachedBelow rfl ?_
  intro beside a b other first second
  cases first.symm.trans second
  obtain ⟨before,unequal,kept⟩ := eraseIdx_beside other first
  exact .kept_away (away_below distinct (List.mem_of_getElem? kept)) (away_beside distinct there below kept unequal)

theorem completes_above (distinct : parent.Distinct) (there : parent.child? place = some child)
    (source : child.at? path = some old) (here : old.child? index = some moved) (edited : Edited (·.eraseIdx index) path child a)
    (detached : Refilled (parent.children.set place a) parent m) : Completes moved old parent parent m [] := by
  have among := List.mem_of_getElem? there
  have below := at?_mem source
  have detachedBelow := relinked_detached (distinct_child distinct there) source here (away_below distinct among) edited
  refine ⟨⟨m,rfl⟩,?_⟩
  intro k edited
  cases edited with
  | here attached =>
      rw [detached.children] at attached
      refine .ending ?_ (detached.again attached)
      rw [filter_below distinct there (mem_below below (List.mem_of_getElem? here))]
      refine forall₂_set there detachedBelow rfl ?_
      intro beside a b apart first second
      cases first.symm.trans second
      exact .kept_away (away_beside distinct there below first apart) (away_below distinct (List.mem_of_getElem? first))

theorem completes_fork {other : Nat} {sibling : Node} (distinct : n.Distinct) (there : n.child? place = some child)
    (source : child.at? path = some old) (here : old.child? index = some moved) (edited : Edited (·.eraseIdx index) path child a)
    (detached : Refilled (n.children.set place a) n m) (aside : n.child? other = some sibling)
    (target : sibling.at? rest = some parent) (apart : other ≠ place) :
    Completes moved old parent n m (other :: rest) := by
  have found : m.child? other = some sibling := by
    rw [child?,detached.children,List.getElem?_set_ne (Ne.symm apart)]
    exact aside
  have inside := at?_mem source
  have below := at?_mem target
  have among := List.mem_of_getElem? aside
  have deeper := mem_below inside (List.mem_of_getElem? here)
  have movedInside : moved ∈ child.subtree := mem_subtree_trans (mem_subtree_child (List.mem_of_getElem? here)) inside
  have detachedBelow := relinked_detached (distinct_child distinct there) source here
    (away_beside distinct aside below there (Ne.symm apart)) edited
  refine ⟨⟨parent,at?_cons.mpr ⟨sibling,found,target⟩⟩,?_⟩
  intro k edited
  obtain ⟨changed,edited,attached⟩ := edited.on_way found
  rw [detached.children] at attached
  have attachedBelow := relinked_attached (distinct_child distinct aside) target
    (away_beside distinct there inside aside apart) (away_beside distinct there movedInside aside apart) edited
  refine .through (.inr (mem_subtree_below among below)) (ne_below among below) ?_ (detached.again attached)
  rw [filter_below distinct there deeper]
  refine forall₂_set aside attachedBelow (List.length_set ..) ?_
  intro beside a b unequal first second
  by_cases one : beside = place
  · subst one
    cases there.symm.trans first
    rw [List.getElem?_set_self (List.getElem?_eq_some_iff.mp there).1] at second
    cases Option.some.inj second
    exact detachedBelow
  · rw [List.getElem?_set_ne (Ne.symm one)] at second
    cases first.symm.trans second
    exact .kept_away (away_beside distinct there inside first one) (away_beside distinct aside below first unequal)

theorem completes_below {lower : Node} (distinct : n.Distinct) (there : n.child? place = some child) (source : old ∈ child.subtree)
    (here : moved ∈ old.children) (target : parent ∈ child.subtree) (detached : Refilled (n.children.set place lower) n m)
    (completes : Completes moved old parent child lower path) : Completes moved old parent n m (place :: path) := by
  obtain ⟨⟨last,reached⟩,attach⟩ := completes
  have found : m.child? place = some lower := by
    rw [child?,detached.children,List.getElem?_set_self (List.getElem?_eq_some_iff.mp there).1]
  have among := List.mem_of_getElem? there
  refine ⟨⟨last,at?_cons.mpr ⟨lower,found,reached⟩⟩,?_⟩
  intro k edited
  obtain ⟨changed,edited,attached⟩ := edited.on_way found
  rw [detached.children,List.set_set] at attached
  refine .through (.inl (mem_subtree_below among source)) (ne_below among target) ?_ (detached.again attached)
  rw [filter_below distinct there (mem_below source here)]
  refine forall₂_set there (attach changed edited) rfl ?_
  intro beside a b apart first second
  cases first.symm.trans second
  exact .kept_away (away_beside distinct there source first apart) (away_beside distinct there target first apart)

-- Down both paths as long as they are one; where they part, one of the other cases holds.
theorem completes_exact {parentPath targetPath : List Nat} (distinct : n.Distinct) (source : n.at? parentPath = some old)
    (here : old.child? index = some moved) (target : n.at? targetPath = some parent)
    (outside : ¬ parentPath ++ [index] <+: targetPath) (detached : Edited (·.eraseIdx index) parentPath n m) :
    Completes moved old parent n m (pathWithout parentPath index targetPath) := by
  induction parentPath generalizing n m targetPath with
  | nil =>
      cases Option.some.inj source
      cases detached with
      | here detached =>
          cases targetPath with
          | nil =>
              cases Option.some.inj target
              rw [pathWithout_nil]
              exact completes_own distinct here detached
          | cons place rest =>
              obtain ⟨child,there,later⟩ := at?_cons.mp target
              have apart : place ≠ index := by
                rintro rfl
                exact outside (by simp)
              exact completes_beside distinct here there later apart detached
  | cons place parentPath ih =>
      obtain ⟨child,there,deeper⟩ := at?_cons.mp source
      obtain ⟨lower,edited,detached⟩ := detached.on_way there
      cases targetPath with
      | nil =>
          cases Option.some.inj target
          rw [pathWithout_nil]
          exact completes_above distinct there deeper here edited detached
      | cons other targetPath =>
          obtain ⟨sibling,aside,later⟩ := at?_cons.mp target
          by_cases one : other = place
          · subst one
            cases there.symm.trans aside
            rw [pathWithout_down]
            have completes := ih (distinct_child distinct there) deeper later
              (fun shorter => outside (List.cons_prefix_cons.mpr ⟨rfl,shorter⟩)) edited
            exact completes_below distinct there (at?_mem deeper) (List.mem_of_getElem? here) (at?_mem later) detached completes
          · rw [pathWithout_apart one]
            exact completes_fork distinct there deeper here edited detached aside later one

theorem moved_distinct {gone replaced : List Nat} {next detaching attaching : Nat} (distinct : n.Distinct)
    (older : ∀ k ∈ n.subtree,k.serial < next)
    (before : (m.serials ++ (gone ++ moved.serials)).Perm (n.serials ++ ([] ++ List.range' next detaching)))
    (after : (a.serials ++ (replaced ++ [])).Perm
      (m.serials ++ (moved.serials ++ List.range' (next + detaching) attaching))) : a.Distinct := by
  have whole : (a.serials ++ (replaced ++ gone)).Perm (n.serials ++ List.range' next (detaching + attaching)) := by
    rw [List.perm_iff_count] at before after ⊢
    intro number
    have lost := before number
    have gained := after number
    rw [← List.range'_append_1]
    simp only [List.count_append,List.count_nil] at lost gained ⊢
    omega
  have fresh : (n.serials ++ List.range' next (detaching + attaching)).Nodup := by
    rw [List.nodup_append]
    refine ⟨distinct,List.nodup_range',?_⟩
    intro number inside made among same
    obtain ⟨k,below,rfl⟩ := List.mem_map.mp inside
    have less := older k below
    have more := (List.mem_range'_1.mp among).1
    omega
  exact (List.nodup_append.mp (whole.nodup_iff.mpr fresh)).1

theorem move_run {tree : Tree} {parentPath targetPath : List Nat} {node middle root : Node} {targetName : String}
    {next detached attached : Nat}
    (ran : (updateAt? (fun n => do return (← n.removeChild? index).getD n) parentPath tree.root).run next =
      (some middle,detached))
    (again : (updateAt? (·.pushChild node) (pathWithout parentPath index targetPath) middle).run detached =
      (some root,attached)) :
    (tree.move node parentPath index targetPath targetName).run next = (ofRoot root,attached) := by
  rw [move]
  show StateT.run (updateAt? _ parentPath tree.root >>= _) next = _
  rw [StateT.run_bind,ran]
  show StateT.run (updateAt? _ _ middle >>= _) detached = _
  rw [StateT.run_bind,again]
  rfl

theorem move_exact {tree : Tree} {parentPath targetPath : List Nat} {index next : Nat} {node parent old : Node}
    {targetName : String} (distinct : tree.root.Distinct) (older : ∀ m ∈ tree.root.subtree,m.serial < next)
    (source : tree.root.at? parentPath = some old) (here : old.child? index = some node)
    (target : tree.root.at? targetPath = some parent) (outside : ¬ parentPath ++ [index] <+: targetPath) :
    ∃ out later,(tree.move node parentPath index targetPath targetName).run next = (.ok out,later) ∧
      Relinked node old parent tree.root out.root := by
  have bound : index < old.children.length := (List.getElem?_eq_some_iff.mp here).1
  have removed : ∀ next,StateT.run (do return (← old.removeChild? index).getD old) next =
      ((.mk next old.name old.attributes (old.children.eraseIdx index) : Node),next + 1) := by
    intro next
    rw [removeChild?,if_pos bound]
    rfl
  have lost : (serialsAll (old.children.eraseIdx index) ++ node.serials).Perm (serialsAll old.children ++ []) := by
    rw [List.append_nil]
    exact serialsAll_eraseIdx here
  obtain ⟨middle,gone,ran,detached,before⟩ := updateAt?_exact (fun n => do return (← n.removeChild? index).getD n)
    (·.eraseIdx index) source removed lost next
  obtain ⟨⟨last,reached⟩,completes⟩ := completes_exact distinct source here target outside detached
  have gained : (serialsAll (last.children ++ [node]) ++ []).Perm (serialsAll last.children ++ node.serials) := by
    rw [List.append_nil,serialsAll_append,serialsAll_singleton]
  obtain ⟨root,replaced,again,attached,after⟩ := updateAt?_exact (·.pushChild node) (· ++ [node]) reached (fun _ => rfl)
    gained (next + (parentPath.length + 1))
  have apart := moved_distinct distinct older before after
  obtain ⟨out,built,rfl⟩ := ofRoot_distinct apart
  exact ⟨out,_,(move_run ran again).trans (by rw [built]),completes _ attached⟩

variable {tree : Tree} {p q : Position} {other : List Nat}

theorem below_iff (distinct : tree.root.Distinct) (found : tree.at? path = some p) (reached : tree.at? other = some q) :
    q.node ∈ p.node.subtree ↔ path <+: other := by
  rw [Position.mem_subtree_at?]
  constructor
  · intro given
    obtain ⟨rest,below,deeper,same⟩ := given
    have whole : tree.at? (path ++ rest) = some below := by rw [at?_below found,deeper]
    rw [path_unique distinct reached whole (by rw [same])]
    exact List.prefix_append _ _
  · intro shorter
    obtain ⟨rest,rfl⟩ := shorter
    rw [at?_below found] at reached
    exact ⟨rest,q,reached,rfl⟩

theorem is_above_iff (distinct : tree.root.Distinct) (found : tree.at? path = some p) (reached : tree.at? other = some q) :
    (q.node.is p.node || q.ancestors.any (·.node.is p.node)) = true ↔ path <+: other := by
  rw [Bool.or_eq_true,List.any_eq_true]
  constructor
  · intro either
    rcases either with same | ⟨a,above,same⟩
    · have one := path_unique distinct found reached (beq_iff_eq.mp same).symm
      exact one ▸ List.prefix_rfl
    · obtain ⟨before,nearer,here⟩ := (mem_ancestors reached).mp above
      rw [path_unique distinct found here (beq_iff_eq.mp same).symm]
      exact nearer.1
  · intro shorter
    by_cases same : path = other
    · rw [same,reached] at found
      cases Option.some.inj found
      exact .inl (beq_self_eq_true _)
    · exact .inr ⟨p,(mem_ancestors reached).mpr ⟨path,⟨shorter,same⟩,found⟩,beq_self_eq_true _⟩

theorem reparent_run {node parent : Node} {next : Nat} (distinct : tree.root.Distinct) (found : tree.at? path = some p)
    (reached : tree.at? other = some q) (first : tree.locate? node = some p) (second : tree.locate? parent = some q) :
    (tree.reparent node parent).run next =
      if path = [] then (.error (.reparentRoot node.name),next)
      else if path <+: other then (.error (.cycle node.name),next)
      else (tree.move node path.dropLast (path.getLast?.getD 0) other parent.name).run next := by
  rw [reparent,first,second]
  show StateT.run (if p.isRoot = true then _ else if (q.node.is p.node || q.ancestors.any (·.node.is p.node)) = true
    then _ else _) next = _
  simp only [isRoot_iff found,is_above_iff distinct found reached,indexPath_eq distinct found,indexPath_eq distinct reached]
  by_cases root : path = []
  · rw [if_pos root,if_pos root]
    rfl
  · rw [if_neg root,if_neg root,List.getLast?_eq_some_getLast root]
    split <;> rfl

-- The four refusals in the order they are made, and what is made otherwise.
theorem reparent_exact (tree : Tree) (node parent : Node) (next : Nat) (memory : Memory next [tree.root,node,parent]) :
    (node ∉ tree.root.subtree →
      (tree.reparent node parent).run next = (.error (.notInTree node.name),next)) ∧
    (node ∈ tree.root.subtree → parent ∉ tree.root.subtree →
      (tree.reparent node parent).run next = (.error (.notInTree parent.name),next)) ∧
    (node = tree.root → parent ∈ tree.root.subtree →
      (tree.reparent node parent).run next = (.error (.reparentRoot node.name),next)) ∧
    (node ∈ tree.root.subtree → node ≠ tree.root → parent ∈ node.subtree →
      (tree.reparent node parent).run next = (.error (.cycle node.name),next)) ∧
    (node ∈ tree.root.subtree → parent ∈ tree.root.subtree → parent ∉ node.subtree →
      ∃ out later old,(tree.reparent node parent).run next = (.ok out,later) ∧
        (old ∈ tree.root.subtree ∧ node ∈ old.children) ∧ Relinked node old parent tree.root out.root) := by
  have own : tree.root ∈ [tree.root,node,parent] := by simp
  have known : node ∈ [tree.root,node,parent] := by simp
  have target : parent ∈ [tree.root,node,parent] := by simp
  have distinct := tree.distinct memory own
  refine ⟨?_,?_,?_,?_,?_⟩
  · intro outside
    rw [reparent,(locate?_none memory own known).mpr outside]
    rfl
  · intro inside outside
    obtain ⟨_,_,_,_,first⟩ := located memory own known inside
    rw [reparent,first,(locate?_none memory own target).mpr outside]
    rfl
  · rintro rfl inside
    obtain ⟨path,p,found,same,first⟩ := located memory own known tree.root.mem_subtree_self
    obtain ⟨other,q,reached,_,second⟩ := located memory own target inside
    rw [reparent_run distinct found reached first second,if_pos]
    exact path_unique distinct found rfl (by rw [same]; rfl)
  · intro inside lower below
    obtain ⟨path,p,found,rfl,first⟩ := located memory own known inside
    obtain ⟨other,q,reached,rfl,second⟩ := located memory own target (mem_subtree_trans below inside)
    have deeper : path ≠ [] := fun top => lower (by rw [top] at found; rw [← Option.some.inj found]; rfl)
    rw [reparent_run distinct found reached first second,if_neg deeper,
      if_pos ((below_iff distinct found reached).mp below)]
  · intro inside among outside
    obtain ⟨path,p,found,rfl,first⟩ := located memory own known inside
    obtain ⟨other,q,reached,rfl,second⟩ := located memory own target among
    have apart : ¬ path <+: other := fun shorter => outside ((below_iff distinct found reached).mpr shorter)
    have deeper : path ≠ [] := by
      rintro rfl
      exact apart List.nil_prefix
    rw [reparent_run distinct found reached first second,if_neg deeper,if_neg apart]
    obtain ⟨parentPath,index,rfl⟩ := (List.eq_nil_or_concat' path).resolve_left deeper
    obtain ⟨old,child,above,here,rfl⟩ := Position.at?_concat found
    rw [List.dropLast_concat,List.getLast?_concat,Option.getD_some]
    obtain ⟨out,later,moved,relinked⟩ := move_exact distinct (memory.older own) (at?_node above) here (at?_node reached) apart
    exact ⟨out,later,old.node,moved,⟨node_mem above,List.mem_of_getElem? here⟩,relinked⟩

-- The first child of a root goes below the second one, which stands one place further left then.
theorem reparent_forward : ∃ x z,family.root.children = [x,z] ∧ Memory 4 [family.root,x,z] ∧
    ∃ out later old,(family.reparent x z).run 4 = (.ok out,later) ∧
      (old ∈ family.root.subtree ∧ x ∈ old.children) ∧ Relinked x old z family.root out.root := by
  refine ⟨_,_,rfl,?_⟩
  have first : family.root.child? 0 = some (.mk 1 "x" .empty [.mk 0 "y" .empty []]) := rfl
  have second : family.root.child? 1 = some (.mk 2 "z" .empty []) := rfl
  have x := mem_subtree_child (List.mem_of_getElem? first)
  have z := mem_subtree_child (List.mem_of_getElem? second)
  have memory := family_memory (List.forall_mem_cons.mpr ⟨family.root.mem_subtree_self,List.forall_mem_cons.mpr
    ⟨x,List.forall_mem_cons.mpr ⟨z,fun _ member => (List.not_mem_nil member).elim⟩⟩⟩)
  exact ⟨memory,(reparent_exact family _ _ 4 memory).2.2.2.2 x z (by simp [subtree,subtreeAll])⟩

end SharedTree.Tree
