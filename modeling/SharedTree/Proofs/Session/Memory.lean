import SharedTree.Proofs.Node.Keeps
import SharedTree.Proofs.Value.Table
import SharedTree.Session.Basic

namespace SharedTree
open Node

theorem Table.mem_put {entries : List (String × α)} (member : entry ∈ Table.put key value entries) :
    entry = (key,value) ∨ entry ∈ entries := by
  induction entries with
  | nil => exact .inl (List.mem_singleton.mp member)
  | cons first rest ih =>
      rw [Table.put] at member
      split at member
      · exact (List.mem_cons.mp member).imp_right (.tail _)
      · rcases List.mem_cons.mp member with rfl | later
        · exact .inr (.head _)
        · exact (ih later).imp_right (.tail _)

namespace Tree

variable {tree : Tree} {node parent : Node} {held : List Node}

def made : Except TreeError Tree → List Node
  | .ok tree => [tree.root]
  | .error _ => []

theorem made_ofRoot (root : Node) : ∀ k ∈ made (ofRoot root),k = root := by
  intro k member
  cases built : ofRoot root with
  | error e =>
      rw [built] at member
      cases member
  | ok tree =>
      rw [built] at member
      rw [List.mem_singleton.mp member,ofRoot_root built]

theorem keeps_error (e : TreeError) : Keeps held (pure (.error e)) made := .pure fun _ member => (List.not_mem_nil member).elim

theorem keeps_move (own : tree.root ∈ subtreeAll held) (known : node ∈ subtreeAll held) (parentPath : List Nat)
    (index : Nat) (target : List Nat) (name : String) :
    Keeps held (tree.move node parentPath index target name) made := by
  unfold move
  refine (keeps_update parentPath own fun m inside => keeps_getD inside (keeps_remove inside index)).bind fun answer => ?_
  cases answer with
  | none => exact keeps_error _
  | some detached =>
      have pushed : KeepsAny ([detached] ++ held) (updateAt? (·.pushChild node) (pathWithout parentPath index target) detached) :=
        keeps_update _ (reach_held (.head _)) fun m inside => keeps_push inside (reach_after known [detached])
      refine pushed.bind fun answer => ?_
      cases answer with
      | none => exact keeps_error _
      | some attached =>
          refine .pure fun k member => ?_
          rw [made_ofRoot attached k member]
          exact reach_held (.head _)

theorem keeps_reparent (own : tree.root ∈ subtreeAll held) (known : node ∈ subtreeAll held) :
    Keeps held (tree.reparent node parent) made := by
  unfold reparent
  split
  · exact keeps_error _
  · exact keeps_error _
  · split
    · exact keeps_error _
    · split
      · exact keeps_error _
      · split
        · exact keeps_error _
        · exact keeps_move own known _ _ _ _

end Tree

namespace Session

-- All a session can come back to.
def held (s : Session) : List Node := s.tree.root :: (s.earlier.map Tree.root ++ s.handles.toList.map Prod.snd)

def Sound (s : Session) : Prop := Memory s.next s.held

variable {s : Session} {handle into : String}

theorem root_known (s : Session) : s.tree.root ∈ subtreeAll s.held := reach_held (.head _)

theorem handle_known (found : s.handle? handle = some n) : n ∈ subtreeAll s.held := by
  have entry := Table.mem_of_lookup found
  exact reach_held (.tail _ (List.mem_append_right _ (List.mem_map.mpr ⟨_,entry,rfl⟩)))

theorem earlier_known {tree : Tree} {version : Nat} (found : s.earlier[version]? = some tree) : tree.root ∈ subtreeAll s.held :=
  reach_held (.tail _ (List.mem_append_left _ (List.mem_map_of_mem (List.mem_of_getElem? found))))

theorem fresh_memory (sound : s.Sound) {make : Fresh α} {nodes : α → List Node} (keeps : Keeps s.held make nodes) :
    Memory (s.fresh make).2.next (nodes (s.fresh make).1 ++ (s.fresh make).2.held) := keeps s.next sound

theorem keep_sound (sound : s.Sound) {make : Fresh (Option Node)} (keeps : KeepsAny s.held make) :
    (s.keep into make).2.Sound := by
  have after := fresh_memory sound keeps
  unfold keep
  generalize s.fresh make = ran at after ⊢
  obtain ⟨answer,s⟩ := ran
  cases answer with
  | none => exact after
  | some n =>
      refine after.mono fun k member => ?_
      rcases List.mem_cons.mp member with rfl | other
      · exact reach_held (.tail _ (.head _))
      · rcases List.mem_append.mp other with old | stored
        · exact reach_held (.tail _ (.tail _ (List.mem_append_left _ old)))
        · obtain ⟨entry,inside,rfl⟩ := List.mem_map.mp stored
          rcases Table.mem_put inside with rfl | known
          · exact reach_held (.head _)
          · exact reach_held (.tail _ (.tail _ (List.mem_append_right _ (List.mem_map_of_mem known))))

theorem adopt_sound {tree : Tree} (memory : Memory s.next (tree.root :: s.held)) : (s.adopt tree).2.Sound := by
  refine memory.mono fun k member => ?_
  rcases List.mem_cons.mp member with rfl | other
  · exact reach_held (.head _)
  · rcases List.mem_append.mp other with old | stored
    · have split : k ∈ s.earlier.map Tree.root ++ [s.tree.root] := by
        rw [← List.map_singleton,← List.map_append]
        exact old
      rcases List.mem_append.mp split with before | last
      · exact reach_held (.tail _ (.tail _ (List.mem_append_left _ before)))
      · rw [List.mem_singleton.mp last]
        exact reach_held (.tail _ (.head _))
    · exact reach_held (.tail _ (.tail _ (List.mem_append_right _ stored)))

theorem settle_sound {result : Except TreeError Tree} (memory : Memory s.next (Tree.made result ++ s.held)) :
    (s.settle result).2.Sound := by
  cases result with
  | error e => exact memory
  | ok tree => exact adopt_sound memory

theorem ofRoot_sound {root : Node} (memory : Memory s.next (root :: s.held)) : (s.settle (Tree.ofRoot root)).2.Sound := by
  refine settle_sound (memory.mono fun k member => ?_)
  rcases List.mem_append.mp member with new | old
  · rw [Tree.made_ofRoot root k new]
    exact reach_held (.head _)
  · exact reach_held (.tail _ old)

theorem withHandle_sound {go : Node → Reply × Session} (sound : s.Sound)
    (each : ∀ n ∈ subtreeAll s.held,(go n).2.Sound) : (s.withHandle handle go).2.Sound := by
  unfold withHandle
  split
  · rename_i n found
    exact each n (handle_known found)
  · exact sound

theorem known_sound (sound : s.Sound) {n : Node} (inside : n ∈ subtreeAll s.held) : Memory s.next (n :: s.held) := by
  refine sound.mono fun k member => ?_
  rcases List.mem_cons.mp member with rfl | old
  · exact inside
  · exact reach_held old

theorem update_sound (sound : s.Sound) (path : List Nat) (edits : List Edit) : (s.perform (.update path edits)).2.Sound := by
  have after := fresh_memory sound (keeps_update path s.root_known fun m inside => Edit.run_keeps edits inside)
  rw [perform]
  generalize s.fresh _ = ran at after ⊢
  obtain ⟨answer,s⟩ := ran
  cases answer with
  | none => exact after
  | some root => exact ofRoot_sound after

theorem mem_mapM {names : List String} {nodes : List Node} {find : String → Option Node}
    (found : names.mapM find = some nodes) (member : n ∈ nodes) : ∃ name,find name = some n := by
  induction names generalizing nodes with
  | nil =>
      cases found
      cases member
  | cons name names ih =>
      rw [List.mapM_cons] at found
      obtain ⟨first,here,found⟩ := Option.bind_eq_some_iff.mp found
      obtain ⟨rest,later,same⟩ := Option.bind_eq_some_iff.mp found
      cases same
      rcases List.mem_cons.mp member with rfl | other
      · exact ⟨name,here⟩
      · exact ih later other

theorem rebuild_sound (sound : s.Sound) (handle into : String) (children : List String) :
    (s.perform (.rebuild handle children into)).2.Sound := by
  refine withHandle_sound sound fun n inside => ?_
  cases found : children.mapM s.handle? with
  | none => exact sound
  | some nodes =>
      refine keep_sound sound (.map (keeps_rebuild inside fun k member => ?_))
      obtain ⟨name,here⟩ := mem_mapM found member
      exact handle_known here

theorem save_sound (sound : s.Sound) (handle : String) (path : List Nat) : (s.perform (.save handle path)).2.Sound := by
  refine keep_sound sound (.pure fun k member => ?_)
  obtain ⟨p,found,rfl⟩ := Option.map_eq_some_iff.mp (Option.mem_toList.mp member)
  have below : p.node ∈ s.tree.root.subtree := Position.node_mem_subtree found
  exact mem_subtreeAll.mpr ⟨_,.head _,below⟩

theorem revert_sound (sound : s.Sound) (version : Nat) : (s.perform (.revert version)).2.Sound := by
  rw [perform]
  split
  · rename_i tree found
    exact adopt_sound (known_sound sound (earlier_known found))
  · exact sound

theorem perform_sound (sound : s.Sound) (step : Step) : (s.perform step).2.Sound := by
  cases step with
  | new handle name attributes => exact keep_sound sound (.map (keeps_leaf name attributes))
  | save handle path => exact save_sound sound handle path
  | edit handle edits into => exact withHandle_sound sound fun n inside => keep_sound sound (.map (Edit.run_keeps edits inside))
  | push handle child into =>
      exact withHandle_sound sound fun n inside => withHandle_sound sound fun c known =>
        keep_sound sound (.map (keeps_push inside known))
  | replace handle index child into =>
      exact withHandle_sound sound fun n inside => withHandle_sound sound fun c known =>
        keep_sound sound (keeps_replace inside known index)
  | remove handle index into => exact withHandle_sound sound fun n inside => keep_sound sound (keeps_remove inside index)
  | rebuild handle children into => exact rebuild_sound sound handle into children
  | setRoot handle => exact withHandle_sound sound fun n inside => ofRoot_sound (known_sound sound inside)
  | update path edits => exact update_sound sound path edits
  | reparent handle parent =>
      exact withHandle_sound sound fun n inside => withHandle_sound sound fun p known =>
        settle_sound (fresh_memory sound (Tree.keeps_reparent s.root_known inside))
  | revert version => exact revert_sound sound version
  | contains handle | locate handle | parent handle | size handle => exact withHandle_sound sound fun _ _ => sound
  | same left right => exact withHandle_sound sound fun _ _ => withHandle_sound sound fun _ _ => sound
  | «at» path => exact sound
  | mapping => exact sound

def after (s : Session) (steps : List Step) : Session := steps.foldl (fun s step => (s.perform step).2) s

theorem after_sound (sound : s.Sound) (steps : List Step) : (s.after steps).Sound := by
  induction steps generalizing s with
  | nil => exact sound
  | cons step steps ih => exact ih (perform_sound sound step)

theorem made_sound (o : Outline) (first : Nat) (steps : List Step) : ∃ tree next,
    o.make.run first = (tree.root,next) ∧ ((start tree next).after steps).Sound := by
  obtain ⟨n,later,ran,_,_,less,apart,bounds⟩ := Outline.make_serials o first
  have distinct : n.Distinct := by
    rw [Node.Distinct,n.serials_below.nodup_iff,List.nodup_cons]
    exact ⟨fun inside => Nat.lt_irrefl _ (bounds _ inside).2,apart⟩
  obtain ⟨tree,_,rfl⟩ := Tree.ofRoot_distinct distinct
  refine ⟨tree,later,ran,after_sound (.of_distinct distinct ?_ ?_) steps⟩
  · intro number member
    rcases List.mem_cons.mp (tree.root.serials_below.mem_iff.mp member) with rfl | inside
    · exact less
    · exact Nat.lt_trans (bounds number inside).2 less
  · intro k member
    rw [List.mem_singleton.mp member]
    exact tree.root.mem_subtree_self

end Session
end SharedTree
