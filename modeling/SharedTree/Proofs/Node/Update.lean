import SharedTree.Proofs.Node.Memory

namespace SharedTree.Node

def at? (n : Node) : List Nat → Option Node
  | [] => some n
  | index :: path => (n.child? index).bind fun child => child.at? path

theorem at?_cons {n : Node} :
    n.at? (index :: path) = some m ↔ ∃ child,n.child? index = some child ∧ child.at? path = some m := by
  rw [at?,Option.bind_eq_some_iff]

theorem at?_child {n child : Node} (here : n.child? index = some child) (path : List Nat) :
    n.at? (index :: path) = child.at? path := by
  rw [at?,here,Option.bind_some]

theorem at?_append (n : Node) (path rest : List Nat) : n.at? (path ++ rest) = (n.at? path).bind (·.at? rest) := by
  induction path generalizing n with
  | nil => rfl
  | cons index path ih =>
      cases here : n.child? index with
      | none => simp [at?,here]
      | some child => rw [List.cons_append,at?_child here,at?_child here,ih]

theorem at?_node {p : Position} {path : List Nat} (found : p.at? path = some q) : p.node.at? path = some q.node := by
  induction path generalizing p with
  | nil => rw [Option.some.inj found]; rfl
  | cons index path ih =>
      obtain ⟨child,here,later⟩ := Option.bind_eq_some_iff.mp found
      exact at?_cons.mpr ⟨child,here,ih later⟩

theorem at?_mem {n m : Node} {path : List Nat} (found : n.at? path = some m) : m ∈ n.subtree := by
  induction path generalizing n with
  | nil =>
      cases Option.some.inj found
      exact m.mem_subtree_self
  | cons index path ih =>
      obtain ⟨child,here,later⟩ := at?_cons.mp found
      exact mem_subtree_below (List.mem_of_getElem? here) (ih later)

def serials (n : Node) : List Nat := n.subtree.map serial

def serialsAll (nodes : List Node) : List Nat := (subtreeAll nodes).map serial

theorem serials_eq (n : Node) : n.serials = n.serial :: serialsAll n.children := by
  rw [serials,subtree_eq,List.map_cons,serialsAll]

theorem serialsAll_cons (n : Node) (nodes : List Node) : serialsAll (n :: nodes) = n.serials ++ serialsAll nodes := by
  rw [serialsAll,subtreeAll,List.map_append,serials,serialsAll]

theorem serialsAll_append (left right : List Node) : serialsAll (left ++ right) = serialsAll left ++ serialsAll right := by
  rw [serialsAll,subtreeAll_append,List.map_append,serialsAll,serialsAll]

theorem serialsAll_singleton (n : Node) : serialsAll [n] = n.serials := by
  rw [serialsAll,subtreeAll_singleton,serials]

theorem serialsAll_set {nodes : List Node} {child : Node} (changed : Node) (here : nodes[index]? = some child) :
    (serialsAll (nodes.set index changed) ++ child.serials).Perm (serialsAll nodes ++ changed.serials) := by
  induction nodes generalizing index with
  | nil => cases here
  | cons first nodes ih =>
      cases index with
      | zero =>
          cases Option.some.inj here
          rw [List.set_cons_zero,serialsAll_cons,serialsAll_cons,List.perm_iff_count]
          intro number
          simp only [List.count_append]
          omega
      | succ index =>
          rw [List.set_cons_succ,serialsAll_cons,serialsAll_cons,List.append_assoc,List.append_assoc]
          exact (ih here).append_left _

theorem serialsAll_eraseIdx {nodes : List Node} {child : Node} (here : nodes[index]? = some child) :
    (serialsAll (nodes.eraseIdx index) ++ child.serials).Perm (serialsAll nodes) := by
  induction nodes generalizing index with
  | nil => cases here
  | cons first nodes ih =>
      cases index with
      | zero =>
          cases Option.some.inj here
          rw [List.eraseIdx_cons_zero,serialsAll_cons]
          exact List.perm_append_comm
      | succ index =>
          rw [List.eraseIdx_cons_succ,serialsAll_cons,serialsAll_cons,List.append_assoc]
          exact (ih here).append_left _

structure Refilled (children : List Node) (n m : Node) : Prop where
  name : m.name = n.name
  attributes : m.attributes = n.attributes
  children : m.children = children

-- The children are refilled where the path ends; on the way one child is replaced.
inductive Edited (refill : List Node → List Node) : List Nat → Node → Node → Prop
  | here : Refilled (refill n.children) n m → Edited refill [] n m
  | onward : n.child? index = some child → Edited refill path child changed →
      Refilled (n.children.set index changed) n m → Edited refill (index :: path) n m

theorem Edited.on_way {refill : List Node → List Node} {n m child : Node} (edited : Edited refill (index :: path) n m)
    (here : n.child? index = some child) : ∃ changed,Edited refill path child changed ∧
      Refilled (n.children.set index changed) n m := by
  cases edited with
  | onward found edited refilled =>
      cases here.symm.trans found
      exact ⟨_,edited,refilled⟩

theorem updateAt?_below {change : Node → Fresh Node} {n child changed : Node} (here : n.child? index = some child)
    (ran : (updateAt? change path child).run next = (some changed,later)) :
    (updateAt? change (index :: path) n).run next =
      (some (.mk later n.name n.attributes (n.children.set index changed)),later + 1) := by
  have bound : index < n.children.length := (List.getElem?_eq_some_iff.mp here).1
  rw [updateAt?,here]
  show StateT.run (updateAt? change path child >>= _) next = _
  rw [StateT.run_bind,ran]
  show StateT.run (n.replaceChild? index changed) later = _
  rw [replaceChild?,if_pos bound]
  rfl

theorem updateAt?_missing {change : Node → Fresh Node} {n : Node} {path : List Nat} (missing : n.at? path = none)
    (next : Nat) : (updateAt? change path n).run next = (none,next) := by
  induction path generalizing n with
  | nil => cases missing
  | cons index path ih =>
      rw [updateAt?]
      cases here : n.child? index with
      | none => rfl
      | some child =>
          rw [at?_child here] at missing
          show StateT.run (updateAt? change path child >>= _) next = _
          rw [StateT.run_bind,ih missing]
          rfl

theorem updateAt?_exact (change : Node → Fresh Node) (refill : List Node → List Node) {n target : Node} {path : List Nat}
    (found : n.at? path = some target) (changed : ∀ next,(change target).run next =
      (.mk next target.name target.attributes (refill target.children),next + 1))
    (traded : (serialsAll (refill target.children) ++ lost).Perm (serialsAll target.children ++ gained)) (next : Nat) :
    ∃ m gone,(updateAt? change path n).run next = (some m,next + (path.length + 1)) ∧ Edited refill path n m ∧
      (m.serials ++ (gone ++ lost)).Perm (n.serials ++ (gained ++ List.range' next (path.length + 1))) := by
  induction path generalizing n with
  | nil =>
      cases Option.some.inj found
      refine ⟨.mk next target.name target.attributes (refill target.children),[target.serial],?_,.here ⟨rfl,rfl,rfl⟩,?_⟩
      · rw [updateAt?_root,map_eq_pure_bind,StateT.run_bind,changed]
        rfl
      · rw [List.perm_iff_count] at traded ⊢
        intro number
        have balance := traded number
        simp only [serials_eq,serial_mk,children_mk,List.count_append,List.count_cons,List.range'_one,List.length_nil,
          Nat.zero_add] at balance ⊢
        omega
  | cons index path ih =>
      obtain ⟨child,here,later⟩ := at?_cons.mp found
      obtain ⟨changed,gone,ran,edited,balance⟩ := ih later
      have replaced := serialsAll_set changed here
      refine ⟨.mk (next + (path.length + 1)) n.name n.attributes (n.children.set index changed),n.serial :: gone,
        updateAt?_below here ran,.onward here edited ⟨rfl,rfl,rfl⟩,?_⟩
      rw [List.perm_iff_count] at balance replaced ⊢
      intro number
      have inner := balance number
      have outer := replaced number
      simp only [serials_eq n,serials_eq (.mk _ _ _ _),serial_mk,children_mk,List.count_append,List.count_cons,
        List.range'_concat,List.length_cons,List.count_nil,Nat.one_mul] at inner outer ⊢
      omega

end SharedTree.Node
