import SharedTree.Proofs.Node.Memory
import SharedTree.Tree.Walk

namespace SharedTree

-- What an iterator gives, step by step until there is no step left.
inductive Yields (next? : σ → Option (α × σ)) : σ → List α → Prop where
  | stop : next? s = none → Yields next? s []
  | step : next? s = some (item,rest) → Yields next? rest items → Yields next? s (item :: items)

theorem Yields.unique (one : Yields next? s items) (other : Yields next? s others) : items = others := by
  induction one generalizing others with
  | stop ended =>
      cases other with
      | stop => rfl
      | step took => cases ended.symm.trans took
  | step took _ ih =>
      cases other with
      | stop ended => cases ended.symm.trans took
      | step again later =>
          cases took.symm.trans again
          rw [ih later]

theorem Yields.of_left {next? : σ → Option (α × σ)} {left : σ → List α} (ends : ∀ s,next? s = none → left s = [])
    (takes : ∀ s item rest,next? s = some (item,rest) → left s = item :: left rest) (s : σ) : Yields next? s (left s) := by
  induction items : left s generalizing s with
  | nil =>
      cases here : next? s with
      | none => exact .stop here
      | some taken =>
          have first := takes s taken.1 taken.2 here
          rw [items] at first
          cases first
  | cons item items ih =>
      cases here : next? s with
      | none =>
          rw [ends s here] at items
          cases items
      | some taken =>
          have first := takes s taken.1 taken.2 here
          rw [items] at first
          obtain ⟨rfl,rest⟩ := List.cons.inj first
          exact .step here (ih taken.2 rest.symm)

namespace Order

def around (order : Order) (item : α) (below : List α) : List α :=
  match order with
  | .preorder => item :: below
  | .postorder => below ++ [item]

theorem around_perm (order : Order) (item : α) (below : List α) : (order.around item below).Perm (item :: below) := by
  cases order with
  | preorder => exact .refl _
  | postorder => exact List.perm_append_singleton item below

end Order

namespace Node

mutual
def visited (order : Order) (above : List Node) : Node → List Position
  | .mk serial name attributes children =>
    order.around ⟨.mk serial name attributes children,above⟩
      (visitedAll order (.mk serial name attributes children :: above) children)

def visitedAll (order : Order) (above : List Node) : List Node → List Position
  | [] => []
  | child :: rest => child.visited order above ++ visitedAll order above rest
end

end Node

namespace Position

def visited (order : Order) (p : Position) : List Position := p.node.visited order p.above

theorem visitedAll_eq (order : Order) (p : Position) (nodes : List Node) :
    Node.visitedAll order (p.node :: p.above) nodes = (nodes.map p.under).flatMap (visited order) := by
  induction nodes with
  | nil => rfl
  | cons child nodes ih =>
      rw [Node.visitedAll,ih,List.map_cons,List.flatMap_cons]
      rfl

theorem visited_eq (order : Order) (p : Position) : p.visited order = order.around p (p.children.flatMap (visited order)) := by
  obtain ⟨⟨serial,name,attributes,children⟩,above⟩ := p
  rw [visited,Node.visited]
  exact congrArg _ (visitedAll_eq order ⟨.mk serial name attributes children,above⟩ children)

theorem visited_preorder (p : Position) : p.visited .preorder = p :: p.children.flatMap (visited .preorder) :=
  p.visited_eq .preorder

theorem visited_postorder (p : Position) : p.visited .postorder = p.children.flatMap (visited .postorder) ++ [p] :=
  p.visited_eq .postorder

end Position

namespace Preorder
open Position (visited)

-- What a walk has still to give: all that is at and below what is pending.
def left (walk : Preorder) : List Position := walk.pending.flatMap (visited .preorder)

theorem left_ends (walk : Preorder) (ended : walk.next? = none) : walk.left = [] := by
  obtain ⟨pending⟩ := walk
  cases pending with
  | nil => rfl
  | cons p pending => cases ended

theorem left_takes (walk : Preorder) (p : Position) (rest : Preorder) (took : walk.next? = some (p,rest)) :
    walk.left = p :: rest.left := by
  obtain ⟨pending⟩ := walk
  cases pending with
  | nil => cases took
  | cons q pending =>
      cases took
      rw [left,left,List.flatMap_cons,Position.visited_preorder,List.flatMap_append,List.cons_append]

theorem yields_left (walk : Preorder) : Yields next? walk walk.left := .of_left left_ends left_takes walk

theorem yields_toList (walk : Preorder) : Yields next? walk walk.toList := by
  induction measured : walk.weight using Nat.strongRecOn generalizing walk with
  | ind weight ih =>
      rw [toList]
      split
      · rename_i ended
        exact .stop ended
      · rename_i p rest took
        exact .step took (ih _ (measured ▸ next?_lighter took) rest rfl)

theorem toList_left (walk : Preorder) : walk.toList = walk.left := walk.yields_toList.unique walk.yields_left

end Preorder

namespace Postorder
open Position (visited)

-- Of a marked node only itself, as all below it is pending before it or given.
def leftOf (entry : Position × Bool) : List Position := if entry.2 then [entry.1] else entry.1.visited .postorder

def left (walk : Postorder) : List Position := walk.pending.flatMap leftOf

theorem left_expand (p : Position) (rest : List (Position × Bool)) :
    (⟨(p,false) :: rest⟩ : Postorder).left = (⟨expand p rest⟩ : Postorder).left := by
  have below : (p.children.map (·,false)).flatMap leftOf = p.children.flatMap (visited .postorder) := by
    rw [List.flatMap_map]
    rfl
  have own : leftOf (p,false) = p.children.flatMap (visited .postorder) ++ [p] := p.visited_postorder
  rw [left,left,expand,List.flatMap_cons,List.flatMap_append,List.flatMap_cons,below,own,List.append_assoc]
  rfl

theorem left_ends (walk : Postorder) (ended : walk.next? = none) : walk.left = [] := by
  induction walk using next?.induct with
  | case1 => rfl
  | case2 p rest =>
      rw [next?] at ended
      cases ended
  | case3 p rest ih =>
      rw [next?] at ended
      rw [left_expand,ih ended]

theorem left_takes (walk : Postorder) (p : Position) (rest : Postorder) (took : walk.next? = some (p,rest)) :
    walk.left = p :: rest.left := by
  induction walk using next?.induct with
  | case1 =>
      rw [next?] at took
      cases took
  | case2 q pending =>
      rw [next?] at took
      cases took
      rfl
  | case3 q pending ih =>
      rw [next?] at took
      rw [left_expand,ih took]

theorem yields_left (walk : Postorder) : Yields next? walk walk.left := .of_left left_ends left_takes walk

theorem toList_left (walk : Postorder) : walk.toList = walk.left := by
  induction walk using toList.induct with
  | case1 => rw [toList]; rfl
  | case2 p rest ih => rw [toList,ih]; rfl
  | case3 p rest ih => rw [toList,ih,left_expand]

end Postorder

namespace Position

variable {p q d : Position} {order : Order}

theorem inOrder_visited (order : Order) (p : Position) : p.inOrder order = p.visited order := by
  cases order with
  | preorder => exact ((Preorder.start p).toList_left).trans (List.append_nil _)
  | postorder => exact ((Postorder.start p).toList_left).trans (List.append_nil _)

theorem visited_perm (order : Order) (p : Position) : (p.visited order).Perm p.preorder := by
  obtain ⟨n,above⟩ := p
  induction n using Node.children_induction generalizing above with
  | step n ih =>
      rw [visited_eq,preorder_eq]
      refine (order.around_perm _ _).trans (.cons _ (List.Perm.flatMap_left _ fun q member => ?_))
      obtain ⟨child,among,rfl⟩ := List.mem_map.mp member
      exact ih child among _

theorem mem_visited : q ∈ p.visited order ↔ ∃ path,p.at? path = some q :=
  (visited_perm order p).mem_iff.trans mem_preorder

theorem visited_node (member : q ∈ p.visited order) : q.node ∈ p.node.subtree := by
  obtain ⟨path,found⟩ := mem_visited.mp member
  exact node_mem_subtree found

theorem visited_length (order : Order) (p : Position) : (p.visited order).length = p.node.size := by
  have places := congrArg List.length (preorder_paths p)
  rw [List.length_map,List.length_map,Node.paths_length] at places
  rw [(visited_perm order p).length_eq,places]

theorem visited_once (distinct : p.node.Distinct) (order : Order) : ((p.visited order).map (·.node.serial)).Nodup := by
  have nodes : (p.preorder.map (·.node.serial)) = p.node.subtree.map Node.serial := by
    rw [← preorder_nodes,List.map_map]
    rfl
  rw [((visited_perm order p).map _).nodup_iff,nodes]
  exact distinct

theorem below_node {path : List Nat} (found : q.at? path = some d) (proper : path ≠ []) :
    d.node ∈ Node.subtreeAll q.node.children := by
  cases path with
  | nil => exact absurd rfl proper
  | cons index path =>
      cases here : q.node.child? index with
      | none => simp [at?,here] at found
      | some child =>
          rw [at?_child here] at found
          exact Node.mem_subtreeAll.mpr ⟨child,List.mem_of_getElem? here,node_mem_subtree found⟩

end Position

namespace Node

theorem not_mem_own (n : Node) : n ∉ subtreeAll n.children := by
  intro below
  obtain ⟨child,member,inside⟩ := mem_subtreeAll.mp below
  exact not_mem_below member inside

theorem siblings_apart {nodes : List Node} (distinct : ((subtreeAll nodes).map serial).Nodup) :
    nodes.Pairwise fun a b => ∀ n ∈ a.subtree,∀ m ∈ b.subtree,n.serial ≠ m.serial := by
  refine List.pairwise_iff_getElem.mpr fun i j one other less n inside m below same => ?_
  have place := index_unique distinct (List.getElem?_eq_getElem one) (List.getElem?_eq_getElem other) inside below same
  exact Nat.ne_of_lt less place

end Node

namespace Order

-- That `a` may come before `b`: it is not below it, or `b` is not below `a`.
def Allows (order : Order) (a b : Position) : Prop :=
  match order with
  | .preorder => a.node ∉ Node.subtreeAll b.node.children
  | .postorder => b.node ∉ Node.subtreeAll a.node.children

theorem around_allowed {order : Order} {p : Position} {below : List Position} (rest : below.Pairwise order.Allows)
    (own : ∀ q ∈ below,p.node ∉ Node.subtreeAll q.node.children) : (order.around p below).Pairwise order.Allows := by
  cases order with
  | preorder => exact .cons own rest
  | postorder =>
      refine List.pairwise_append.mpr ⟨rest,List.pairwise_singleton _ _,?_⟩
      intro q member last same
      rw [List.mem_singleton.mp same]
      exact own q member

-- Which of two places in the order is that of a node and which that of one below it.
def Before (order : Order) (i j : Nat) : Prop :=
  match order with
  | .preorder => i < j
  | .postorder => j < i

end Order

namespace Position

variable {p q d : Position} {order : Order}

theorem visited_allowed (distinct : p.node.Distinct) (order : Order) : (p.visited order).Pairwise order.Allows := by
  obtain ⟨n,above⟩ := p
  induction n using Node.children_induction generalizing above with
  | step n ih =>
      have below := (Node.distinct_iff.mp distinct).2
      rw [visited_eq]
      refine Order.around_allowed (List.pairwise_flatMap.mpr ⟨?_,?_⟩) ?_
      · intro q member
        obtain ⟨child,among,rfl⟩ := List.mem_map.mp member
        exact ih child among _ (Node.distinct_of_mem below among)
      -- What stands at and below different children has no number in common.
      · refine List.pairwise_map.mpr ((Node.siblings_apart below).imp fun {a b} apart x first y second => ?_)
        have one := visited_node first
        have other := visited_node second
        cases order with
        | preorder => exact fun inside => apart _ one _ (Node.mem_subtree_trans (Node.mem_subtree_all inside) other) rfl
        | postorder => exact fun inside => apart _ (Node.mem_subtree_trans (Node.mem_subtree_all inside) one) _ other rfl
      · intro q member inside
        obtain ⟨child,among,under⟩ := List.mem_flatMap.mp member
        obtain ⟨c,own,rfl⟩ := List.mem_map.mp among
        exact Node.not_mem_below own (Node.mem_subtree_trans (Node.mem_subtree_all inside) (visited_node under))

theorem visited_before (distinct : p.node.Distinct) {i j : Nat} {path : List Nat}
    (first : (p.visited order)[i]? = some q) (second : (p.visited order)[j]? = some d) (proper : path ≠ [])
    (found : q.at? path = some d) : order.Before i j := by
  have below := below_node found proper
  have allowed := List.pairwise_iff_getElem.mp (visited_allowed distinct order)
  obtain ⟨one,rfl⟩ := List.getElem?_eq_some_iff.mp first
  obtain ⟨other,rfl⟩ := List.getElem?_eq_some_iff.mp second
  rcases Nat.lt_trichotomy i j with less | same | more
  · cases order with
    | preorder => exact less
    | postorder => exact absurd below (allowed i j one other less)
  · subst same
    exact absurd below (Node.not_mem_own _)
  · cases order with
    | preorder => exact absurd below (allowed j i other one more)
    | postorder => exact more

structure Visits (p : Position) (order : Order) (given : List Position) : Prop where
  size : given.length = p.node.size
  each : ∀ q,q ∈ given ↔ ∃ path,p.at? path = some q
  once : (given.map (·.node.serial)).Nodup
  before : ∀ i j q d path,given[i]? = some q → given[j]? = some d → path ≠ [] → q.at? path = some d → order.Before i j

theorem visits (distinct : p.node.Distinct) (order : Order) : Visits p order (p.visited order) where
  size := visited_length order p
  each _ := mem_visited
  once := visited_once distinct order
  before _ _ _ _ _ first second proper found := visited_before distinct first second proper found

theorem postorder_eq (p : Position) : p.postorder = p.children.flatMap postorder ++ [p] := by
  have same : postorder = visited .postorder := funext fun q => inOrder_visited .postorder q
  rw [same]
  exact p.visited_postorder

theorem descendants_tail (p : Position) : p.descendants = p.preorder.tail := by
  rw [preorder_eq]
  exact Preorder.toList_eq p.children

end Position

namespace Tree

theorem walks_exact {tree : Tree} {path : List Nat} {p : Position} (found : tree.at? path = some p)
    (memory : Node.Memory next held) (own : tree.root ∈ held) :
    (Yields Preorder.next? (.start p) p.preorder ∧ Yields Postorder.next? (.start p) p.postorder ∧
      ∃ rest,(Preorder.start p).next? = some (p,rest) ∧ Yields Preorder.next? rest p.descendants) ∧
    (p.preorder = p :: p.children.flatMap Position.preorder ∧ p.postorder = p.children.flatMap Position.postorder ++ [p] ∧
      p.descendants = p.preorder.tail ∧ p.leaves = p.preorder.filter fun q => q.node.children.isEmpty) ∧
    (∀ order,p.inOrder order = p.visited order ∧ Position.Visits p order (p.inOrder order)) ∧
    p.postorder.Perm p.preorder ∧
    ∀ (β : Type u) (order : Order) (start : β) (combine : β → Position → β),
      p.fold order start combine = (p.visited order).foldl combine start := by
  have distinct : p.node.Distinct := Node.distinct_subtree (tree.distinct memory own) (Position.node_mem_subtree found)
  refine ⟨⟨(Preorder.start p).yields_toList,?_,_,rfl,?_⟩,⟨p.preorder_eq,p.postorder_eq,p.descendants_tail,rfl⟩,?_,?_,?_⟩
  · have given : p.postorder = (Postorder.start p).left := (Postorder.start p).toList_left
    rw [given]
    exact (Postorder.start p).yields_left
  · rw [List.append_nil]
    exact Preorder.yields_toList ⟨p.children⟩
  · intro order
    rw [Position.inOrder_visited]
    exact ⟨rfl,Position.visits distinct order⟩
  · have same : p.postorder = p.visited .postorder := Position.inOrder_visited .postorder p
    rw [same]
    exact Position.visited_perm .postorder p
  · intro β order start combine
    rw [Position.fold,Position.inOrder_visited]

theorem walks_family : ∃ p,family.at? [] = some p ∧ p.preorder.map Position.name = ["root","x","y","z"] ∧
    p.postorder.map Position.name = ["y","x","z","root"] ∧ Yields Postorder.next? (.start p) p.postorder ∧
    Position.Visits p .postorder p.postorder ∧ p.fold .postorder "" (fun text q => text ++ q.name) = "yxzroot" := by
  have memory := family_memory (List.forall_mem_singleton.mpr family.root.mem_subtree_self)
  have found : family.at? [] = some family.top := rfl
  obtain ⟨⟨_,yields,_⟩,_,visits,_,folded⟩ := walks_exact found memory (List.mem_singleton.mpr rfl)
  obtain ⟨first,_⟩ := visits .preorder
  obtain ⟨last,all⟩ := visits .postorder
  have downward : family.top.preorder = family.top.visited .preorder := first
  have upward : family.top.postorder = family.top.visited .postorder := last
  refine ⟨family.top,found,by rw [downward]; rfl,by rw [upward]; rfl,yields,all,?_⟩
  rw [folded String .postorder "" fun text q => text ++ q.name]
  rfl

end Tree
end SharedTree
