import SharedTree.Proofs.Node.Renewed
import SharedTree.Proofs.Transform.Remains

namespace SharedTree.Transform
open Node (subtreeAll Renewed)

theorem splice_run {s : Selector} {n : Node} (ran : (spliceEach s (n :: above) n.children).run effects = (kept,middle)) :
    (splice s above n).run effects =
      if s.selects ⟨n,above⟩ then (kept,{ middle with calls := middle.calls ++ (s.verdict ⟨n,above⟩).calls })
      else ([((n.rebuild kept).run middle.next).1],
        ⟨((n.rebuild kept).run middle.next).2,middle.calls ++ (s.verdict ⟨n,above⟩).calls⟩) := by
  cases n
  rw [Node.children_mk] at ran
  rw [splice,StateT.run_bind,ran]
  show StateT.run (Work.judge s _ >>= _) middle = _
  rw [StateT.run_bind]
  show StateT.run (if s.selects _ then _ else _) _ = _
  split <;> rfl

theorem spliceEach_run {s : Selector} (ran : (splice s above child).run effects = (first,middle))
    (again : (spliceEach s above rest).run middle = (others,later)) :
    (spliceEach s above (child :: rest)).run effects = (first ++ others,later) := by
  rw [spliceEach,StateT.run_bind,ran]
  show StateT.run (spliceEach s above rest >>= fun others => pure (first ++ others)) middle = _
  rw [StateT.run_bind,again]
  rfl

mutual
theorem splice_exact (s : Selector) : (n : Node) → (above : List Node) → (effects : Effects) → n.Distinct →
    (∀ m ∈ n.subtree,m.serial < effects.next) →
    ∃ nodes later,(splice s above n).run effects = (nodes,later) ∧ nodes.map Node.outline = remains s above n ∧
      Renewed n.subtree effects.next later.next nodes
  | .mk serial name attributes children,above,effects,distinct,older => by
      have inside : ∀ m ∈ subtreeAll children,m ∈ (Node.mk serial name attributes children).subtree :=
        fun m member => .tail _ member
      obtain ⟨kept,middle,ran,outlines,renewed⟩ := spliceEach_exact s children (.mk serial name attributes children :: above)
        effects (Node.distinct_iff.mp distinct).2 fun m member => older m (inside m member)
      rw [splice_run ran]
      cases selected : s.selects ⟨.mk serial name attributes children,above⟩ with
      | true => exact ⟨kept,_,rfl,outlines.trans (remains_selected selected).symm,renewed.mono inside⟩
      | false =>
          obtain ⟨m,later,rebuilt,named,held,children,renewed⟩ := Node.rebuild_exact distinct older renewed
          rw [rebuilt]
          refine ⟨[m],_,rfl,?_,renewed⟩
          rw [remains_kept selected,List.map_singleton,Node.outline_eq,named,held,children,outlines]
          rfl

theorem spliceEach_exact (s : Selector) : (nodes : List Node) → (above : List Node) → (effects : Effects) →
    ((subtreeAll nodes).map Node.serial).Nodup → (∀ m ∈ subtreeAll nodes,m.serial < effects.next) →
    ∃ kept later,(spliceEach s above nodes).run effects = (kept,later) ∧ kept.map Node.outline = remainsEach s above nodes ∧
      Renewed (subtreeAll nodes) effects.next later.next kept
  | [],_,effects,_,_ => ⟨[],effects,rfl,rfl,.nil _⟩
  | child :: rest,above,effects,distinct,older => by
      have own : child.Distinct := Node.distinct_of_mem distinct (.head _)
      rw [subtreeAll] at older
      have apart := distinct
      rw [subtreeAll,List.map_append] at distinct
      obtain ⟨first,middle,ran,left,renewed⟩ := splice_exact s child above effects own
        fun m member => older m (List.mem_append_left _ member)
      have grown := renewed.grown
      obtain ⟨others,later,again,right,rest⟩ := spliceEach_exact s rest above middle (List.nodup_append.mp distinct).2.1
        fun m member => Nat.lt_of_lt_of_le (older m (List.mem_append_right _ member)) renewed.grown
      refine ⟨first ++ others,later,spliceEach_run ran again,?_,renewed.append rest older apart⟩
      rw [List.map_append,left,right]
      rfl
end

theorem finish_exact {tree : Tree} {m : Node} {first last : Nat} (distinct : tree.root.Distinct)
    (older : ∀ n ∈ tree.root.subtree,n.serial < first) (renewed : Renewed tree.root.subtree first last [m]) :
    ∃ out,finish tree m = .ok out ∧ out.root = m := by
  have own : m.Distinct := Node.distinct_of_mem renewed.distinct (.head _)
  unfold finish
  cases same : m.is tree.root with
  | false =>
      obtain ⟨out,built,root⟩ := Tree.ofRoot_distinct own
      exact ⟨out,by rw [built]; rfl,root⟩
  | true =>
      have equal : m.serial = tree.root.serial := by simpa [Node.is] using same
      have inside : m ∈ subtreeAll [m] := Node.mem_subtreeAll.mpr ⟨m,.head _,m.mem_subtree_self⟩
      refine ⟨tree,rfl,?_⟩
      rcases renewed.origin m inside with held | made
      · exact (Node.eq_of_serial distinct held tree.root.mem_subtree_self equal).symm
      · have bound := older tree.root tree.root.mem_subtree_self
        omega

theorem sparingRoot_run (s : Selector) (rebuild : Node → Work Node) (tree : Tree) (effects : Effects) :
    (sparingRoot s rebuild tree).run effects =
      let judged := { effects with calls := effects.calls ++ (s.verdict tree.top).calls }
      if s.selects tree.top then (.error (.tree (.reparentRoot tree.root.name)),judged)
      else (finish tree ((rebuild tree.root).run judged).1,((rebuild tree.root).run judged).2) := by
  rw [sparingRoot,StateT.run_bind]
  show StateT.run (if s.selects tree.top then _ else _) _ = _
  split <;> rfl

theorem filter_run {s : Selector} {tree : Tree} {effects middle : Effects} {nodes : List Node} {m : Node} {last : Nat}
    (kept : s.selects tree.top = false)
    (ran : (spliceEach s [tree.root] tree.root.children).run
      { effects with calls := effects.calls ++ (s.verdict tree.top).calls } = (nodes,middle))
    (rebuilt : (tree.root.rebuild nodes).run middle.next = (m,last)) :
    (((Transform.filter s).apply tree).run effects).1 = finish tree m := by
  rw [Transform.filter,sparingRoot_run,kept]
  show finish tree (StateT.run (spliceEach s [tree.root] tree.root.children >>= _) _).1 = _
  rw [StateT.run_bind,ran]
  show finish tree ((tree.root.rebuild nodes).run middle.next).1 = _
  rw [rebuilt]

theorem filter_kept {s : Selector} {tree : Tree} {effects : Effects} (memory : Node.Memory effects.next [tree.root])
    (kept : s.selects tree.top = false) : ∃ out : Tree,(((Transform.filter s).apply tree).run effects).1 = .ok out ∧
      out.root.Distinct ∧ [out.root].map Node.outline = remains s [] tree.root := by
  have distinct := Tree.distinct memory (.head _)
  have older := memory.older (.head _)
  obtain ⟨nodes,later,ran,outlines,renewed⟩ := spliceEach_exact s tree.root.children [tree.root]
    { effects with calls := effects.calls ++ (s.verdict tree.top).calls } (Node.distinct_iff.mp distinct).2
    fun m member => older m (Node.mem_subtree_all member)
  obtain ⟨m,last,rebuilt,named,held,children,result⟩ := Node.rebuild_exact distinct older renewed
  obtain ⟨out,finished,rfl⟩ := finish_exact distinct older result
  refine ⟨out,?_,Node.distinct_of_mem result.distinct (.head _),?_⟩
  · rw [filter_run kept ran rebuilt]
    exact finished
  · rw [remains_kept kept,List.map_singleton,Node.outline_eq,named,held,children,outlines]

-- Only a selection of the root is refused. The other nodes keep their names and
-- attributes, their order, and which of them stand above which.
theorem filter_exact (s : Selector) (tree : Tree) (effects : Effects) (memory : Node.Memory effects.next [tree.root]) :
    (s.selects tree.top = true →
      (((Transform.filter s).apply tree).run effects).1 = .error (.tree (.reparentRoot tree.root.name))) ∧
    (s.selects tree.top = false → ∃ out : Tree,
      (((Transform.filter s).apply tree).run effects).1 = .ok out ∧
      out.top.preorder.map (·.node.content) = (survivors s tree).map (·.node.content) ∧
      ∀ (i j : Nat) (a b c d : Position),(survivors s tree)[i]? = some a → (survivors s tree)[j]? = some b →
        out.top.preorder[i]? = some c → out.top.preorder[j]? = some d → (c ∈ d.ancestors ↔ a ∈ b.ancestors)) := by
  refine ⟨?_,?_⟩
  · intro selected
    rw [Transform.filter,sparingRoot_run,selected]
    rfl
  · intro kept
    obtain ⟨out,ran,apart,outline⟩ := filter_kept memory kept
    have distinct := Tree.distinct memory (.head _)
    refine ⟨out,ran,?_,?_⟩
    · have contents := remains_contents outline
      rw [Node.subtreeAll_singleton] at contents
      have listed : out.top.preorder.map (·.node.content) = out.root.subtree.map Node.content := by
        have nodes : out.top.preorder.map Position.node = out.root.subtree := Position.preorder_nodes out.top
        rw [← nodes,List.map_map]
        rfl
      exact listed.trans contents
    · intro i j a b c d first second third fourth
      obtain ⟨m,same,_,_,outlines⟩ := node_of_kept kept outline
      cases same
      have placed := placed_kept kept (remainsEach_placed (by simp [Node.child?])
        (fun child _ nodes index => remains_placed index) 0 outlines)
      obtain ⟨_,one,two⟩ := survivors_paths_at first
      obtain ⟨_,three,four⟩ := survivors_paths_at second
      obtain ⟨_,five,six⟩ := preorder_at third
      obtain ⟨_,seven,eight⟩ := preorder_at fourth
      rw [Tree.above_iff distinct two four,Tree.above_iff apart six eight]
      exact placed.above one three five seven

-- Both children of a root are taken away, and the child of the first one comes in its place.
theorem filter_level : Node.Memory 4 [Tree.family.root] ∧ ∃ out : Tree,
    (((Transform.filter (.depth 1)).apply Tree.family).run ⟨4,[]⟩).1 = .ok out ∧
      out.top.preorder.map (·.node.content) = [("root",.empty),("y",.empty)] := by
  have memory := Tree.family_memory (List.forall_mem_singleton.mpr Tree.family.root.mem_subtree_self)
  obtain ⟨out,ran,contents,_⟩ := (filter_exact (.depth 1) Tree.family ⟨4,[]⟩ memory).2 (by decide)
  refine ⟨memory,out,ran,contents.trans ?_⟩
  have walk : Tree.family.top.preorder.filter (fun p => !(Selector.depth 1).selects p) =
      [Tree.family.top,⟨.mk 0 "y" .empty [],[.mk 1 "x" .empty [.mk 0 "y" .empty []],Tree.family.root]⟩] := by
    simp [Position.preorder_eq,Position.children,Position.under,Tree.family,Tree.top,Selector.selects,Selector.verdict,
      Verdict.silent,Position.depth]
  rw [survivors,walk]
  rfl

end SharedTree.Transform
