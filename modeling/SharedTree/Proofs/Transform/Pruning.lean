import SharedTree.Proofs.Transform.Removal

namespace SharedTree

abbrev Selector.withBelow (s : Selector) : Selector := .or s (.descendantOf s)

namespace Position

theorem upward_depth {above : List Node} {a : Position} (member : a ∈ upward above) : a.depth < above.length := by
  induction above with
  | nil => cases member
  | cons n above ih =>
      cases List.mem_cons.mp member with
      | inl here => simp [here,depth]
      | inr higher =>
          have bound := ih higher
          simp only [List.length_cons]
          omega

theorem ancestors_depth {p a : Position} (member : a ∈ p.ancestors) : a.depth < p.depth := upward_depth member

theorem upward_trans {above : List Node} {a k : Position} (member : k ∈ upward above) (higher : a ∈ k.ancestors) :
    a ∈ upward above := by
  induction above with
  | nil => cases member
  | cons n above ih =>
      cases List.mem_cons.mp member with
      | inl here =>
          subst here
          exact .tail _ higher
      | inr later => exact .tail _ (ih later)

theorem ancestors_trans {p a k : Position} (member : k ∈ p.ancestors) (higher : a ∈ k.ancestors) : a ∈ p.ancestors :=
  upward_trans member higher

theorem parent?_iff {p a : Position} : p.parent? = some a ↔ a ∈ p.ancestors ∧ ∀ k ∈ p.ancestors,a ∉ k.ancestors := by
  obtain ⟨n,above⟩ := p
  cases above with
  | nil => simp [parent?,ancestors,upward]
  | cons parent above =>
      have nearest : (⟨n,parent :: above⟩ : Position).parent? = some ⟨parent,above⟩ := rfl
      have listed : (⟨n,parent :: above⟩ : Position).ancestors = ⟨parent,above⟩ :: upward above := rfl
      rw [nearest,listed]
      constructor
      · intro same
        cases same
        refine ⟨.head _,?_⟩
        intro k member higher
        have less := ancestors_depth higher
        cases List.mem_cons.mp member with
        | inl here =>
            subst here
            exact Nat.lt_irrefl _ less
        | inr later =>
            have bound := upward_depth later
            simp only [depth] at less bound
            omega
      · intro given
        obtain ⟨member,none⟩ := given
        cases List.mem_cons.mp member with
        | inl here => rw [here]
        | inr later => exact absurd later (none _ (.head _))

end Position

namespace Selector

theorem withBelow_selects (s : Selector) (p : Position) :
    s.withBelow.selects p = (s.selects p || p.ancestors.any s.selects) := by
  simp only [selects,verdict,Verdict.either_answer,Verdict.anyOf_answer]
  rfl

theorem withBelow_under (s : Selector) (p : Position) (child : Node) :
    s.withBelow.selects (p.under child) = (s.selects (p.under child) || s.withBelow.selects p) := by
  rw [withBelow_selects,withBelow_selects]
  rfl

theorem withBelow_top (s : Selector) (tree : Tree) : s.withBelow.selects tree.top = s.selects tree.top := by
  rw [withBelow_selects]
  exact Bool.or_false _

end Selector

namespace Transform

theorem cut_run {s : Selector} {n : Node} (ran : (cutEach s (n :: above) n.children).run effects = (kept,middle)) :
    (cut s above n).run effects = (((n.rebuild kept).run middle.next).1,⟨((n.rebuild kept).run middle.next).2,middle.calls⟩) := by
  cases n
  rw [Node.children_mk] at ran
  rw [cut,StateT.run_bind,ran]
  rfl

theorem cutEach_selected {s : Selector} {child : Node} (selected : s.selects ⟨child,above⟩ = true)
    (ran : (cutEach s above rest).run { effects with calls := effects.calls ++ (s.verdict ⟨child,above⟩).calls } = (kept,last)) :
    (cutEach s above (child :: rest)).run effects = (kept,last) := by
  rw [cutEach,StateT.run_bind]
  show StateT.run (if s.selects _ then _ else _) _ = _
  rw [if_pos selected]
  exact ran

theorem cutEach_kept {s : Selector} {child m : Node} (unselected : s.selects ⟨child,above⟩ = false)
    (ran : (cut s above child).run { effects with calls := effects.calls ++ (s.verdict ⟨child,above⟩).calls } = (m,middle))
    (again : (cutEach s above rest).run middle = (kept,last)) :
    (cutEach s above (child :: rest)).run effects = (m :: kept,last) := by
  rw [cutEach,StateT.run_bind]
  show StateT.run (if s.selects _ then _ else _) _ = _
  rw [unselected]
  show StateT.run (cut s above child >>= _) { effects with calls := effects.calls ++ (s.verdict ⟨child,above⟩).calls } = _
  rw [StateT.run_bind,ran]
  show StateT.run (cutEach s above rest >>= _) middle = _
  rw [StateT.run_bind,again]
  rfl

mutual
theorem splice_covered (s : Selector) : (n : Node) → (above : List Node) → (effects : Effects) →
    s.withBelow.selects ⟨n,above⟩ = true → ∃ calls,(splice s.withBelow above n).run effects = ([],⟨effects.next,calls⟩)
  | .mk serial name attributes children,above,effects,covered => by
      obtain ⟨calls,ran⟩ := spliceEach_covered s children (.mk serial name attributes children) above effects covered
      rw [splice_run ran,if_pos covered]
      exact ⟨_,rfl⟩

theorem spliceEach_covered (s : Selector) : (nodes : List Node) → (parent : Node) → (above : List Node) →
    (effects : Effects) → s.withBelow.selects ⟨parent,above⟩ = true →
    ∃ calls,(spliceEach s.withBelow (parent :: above) nodes).run effects = ([],⟨effects.next,calls⟩)
  | [],_,_,effects,_ => ⟨effects.calls,rfl⟩
  | child :: rest,parent,above,effects,covered => by
      have below : s.withBelow.selects ⟨child,parent :: above⟩ = true := by
        have known := s.withBelow_under ⟨parent,above⟩ child
        rw [covered,Bool.or_true] at known
        exact known
      obtain ⟨calls,ran⟩ := splice_covered s child (parent :: above) effects below
      obtain ⟨more,again⟩ := spliceEach_covered s rest parent above ⟨effects.next,calls⟩ covered
      exact ⟨more,spliceEach_run ran again⟩
end

-- What is cut is never looked into, what is spliced is. Nodes and numbers agree, only the calls differ.
mutual
theorem cut_spliced (s : Selector) : (n : Node) → (above : List Node) → (effects other : Effects) →
    s.withBelow.selects ⟨n,above⟩ = false → effects.next = other.next →
    ∃ m last calls more,(cut s above n).run effects = (m,⟨last,calls⟩) ∧
      (splice s.withBelow above n).run other = ([m],⟨last,more⟩)
  | .mk serial name attributes children,above,effects,other,uncovered,same => by
      obtain ⟨kept,last,calls,more,ran,spliced⟩ :=
        cutEach_spliced s children (.mk serial name attributes children) above effects other uncovered same
      rw [cut_run ran,splice_run spliced,uncovered]
      exact ⟨_,_,_,_,rfl,rfl⟩

theorem cutEach_spliced (s : Selector) : (nodes : List Node) → (parent : Node) → (above : List Node) →
    (effects other : Effects) → s.withBelow.selects ⟨parent,above⟩ = false → effects.next = other.next →
    ∃ kept last calls more,(cutEach s (parent :: above) nodes).run effects = (kept,⟨last,calls⟩) ∧
      (spliceEach s.withBelow (parent :: above) nodes).run other = (kept,⟨last,more⟩)
  | [],_,_,effects,other,_,same => ⟨[],effects.next,effects.calls,other.calls,rfl,by rw [same]; rfl⟩
  | child :: rest,parent,above,effects,other,uncovered,same => by
      have below : s.withBelow.selects ⟨child,parent :: above⟩ = s.selects ⟨child,parent :: above⟩ := by
        have known := s.withBelow_under ⟨parent,above⟩ child
        rw [uncovered,Bool.or_false] at known
        exact known
      cases selected : s.selects ⟨child,parent :: above⟩ with
      | true =>
          obtain ⟨gone,removed⟩ := splice_covered s child (parent :: above) other (below.trans selected)
          obtain ⟨kept,last,calls,more,ran,spliced⟩ := cutEach_spliced s rest parent above
            { effects with calls := effects.calls ++ (s.verdict ⟨child,parent :: above⟩).calls } ⟨other.next,gone⟩ uncovered same
          exact ⟨kept,last,calls,more,cutEach_selected selected ran,spliceEach_run removed spliced⟩
      | false =>
          obtain ⟨m,middle,first,second,made,left⟩ := cut_spliced s child (parent :: above)
            { effects with calls := effects.calls ++ (s.verdict ⟨child,parent :: above⟩).calls } other (below.trans selected) same
          obtain ⟨kept,last,calls,more,ran,spliced⟩ :=
            cutEach_spliced s rest parent above ⟨middle,first⟩ ⟨middle,second⟩ uncovered rfl
          exact ⟨m :: kept,last,calls,more,cutEach_kept selected made ran,spliceEach_run left spliced⟩
end

theorem prune_run (s : Selector) (tree : Tree) {effects other : Effects} (same : effects.next = other.next) :
    (((prune s).apply tree).run effects).1 = (((Transform.filter s.withBelow).apply tree).run other).1 := by
  rw [prune,sparingRoot_run]
  cases selected : s.selects tree.top with
  | true =>
      rw [Transform.filter,sparingRoot_run,s.withBelow_top,selected]
      rfl
  | false =>
      have uncovered : s.withBelow.selects tree.top = false := by rw [s.withBelow_top,selected]
      obtain ⟨kept,last,calls,more,ran,spliced⟩ := cutEach_spliced s tree.root.children tree.root []
        { effects with calls := effects.calls ++ (s.verdict tree.top).calls }
        { other with calls := other.calls ++ (s.withBelow.verdict tree.top).calls } uncovered same
      cases rebuilt : (tree.root.rebuild kept).run last with
      | mk m final =>
          rw [filter_run uncovered spliced rebuilt]
          show finish tree ((cut s [] tree.root).run _).1 = _
          rw [cut_run ran,rebuilt]

theorem survivors_closed {s : Selector} {tree : Tree} {p k : Position} (member : p ∈ survivors s.withBelow tree)
    (above : k ∈ p.ancestors) : k ∈ survivors s.withBelow tree := by
  obtain ⟨inside,kept⟩ := List.mem_filter.mp member
  obtain ⟨path,found⟩ := Position.mem_preorder.mp inside
  obtain ⟨before,_,here⟩ := (Tree.mem_ancestors found).mp above
  refine List.mem_filter.mpr ⟨Position.mem_preorder.mpr ⟨before,here⟩,?_⟩
  simp only [Selector.withBelow_selects,Bool.not_eq_true',Bool.or_eq_false_iff,List.any_eq_false] at kept ⊢
  exact ⟨by simpa using kept.2 k above,fun a higher => kept.2 a (Position.ancestors_trans above higher)⟩

theorem preorder_closed {tree : Tree} {p k : Position} (member : p ∈ tree.top.preorder) (above : k ∈ p.ancestors) :
    k ∈ tree.top.preorder := by
  obtain ⟨path,found⟩ := Position.mem_preorder.mp member
  obtain ⟨before,_,here⟩ := (Tree.mem_ancestors found).mp above
  exact Position.mem_preorder.mpr ⟨before,here⟩

section

variable {s : Selector} {tree out : Tree}

theorem kept_contents (outline : [out.root].map Node.outline = remains s [] tree.root) :
    out.top.preorder.map (·.node.content) = (survivors s tree).map (·.node.content) := by
  have contents := remains_contents outline
  have nodes : out.top.preorder.map Position.node = out.root.subtree := Position.preorder_nodes out.top
  rw [Node.subtreeAll_singleton,← nodes,List.map_map] at contents
  exact contents

theorem kept_above (kept : s.selects tree.top = false) (distinct : tree.root.Distinct) (apart : out.root.Distinct)
    (outline : [out.root].map Node.outline = remains s [] tree.root) {i j : Nat} {a b c d : Position}
    (first : (survivors s tree)[i]? = some a) (second : (survivors s tree)[j]? = some b)
    (third : out.top.preorder[i]? = some c) (fourth : out.top.preorder[j]? = some d) :
    c ∈ d.ancestors ↔ a ∈ b.ancestors := by
  obtain ⟨m,same,_,_,outlines⟩ := node_of_kept kept outline
  cases same
  have placed := placed_kept kept (remainsEach_placed (by simp [Node.child?])
    (fun child _ nodes index => remains_placed index) 0 outlines)
  obtain ⟨_,one,two⟩ := survivors_paths_at first
  obtain ⟨_,three,four⟩ := survivors_paths_at second
  obtain ⟨_,five,six⟩ := preorder_at third
  obtain ⟨_,seven,eight⟩ := preorder_at fourth
  rw [Tree.above_iff distinct two four,Tree.above_iff apart six eight]
  exact placed.above one three five seven

end

theorem parents_of_ancestors {before after : List Position} (length : after.length = before.length)
    (above : ∀ {i j : Nat} {a b c d : Position},before[i]? = some a → before[j]? = some b → after[i]? = some c →
      after[j]? = some d → (c ∈ d.ancestors ↔ a ∈ b.ancestors))
    (closed : ∀ p ∈ before,∀ k ∈ p.ancestors,k ∈ before) (also : ∀ p ∈ after,∀ k ∈ p.ancestors,k ∈ after)
    {i j : Nat} {a b c d : Position} (first : before[i]? = some a) (second : before[j]? = some b)
    (third : after[i]? = some c) (fourth : after[j]? = some d) : d.parent? = some c ↔ b.parent? = some a := by
  rw [Position.parent?_iff,Position.parent?_iff,above first second third fourth]
  refine and_congr_right fun _ => ?_
  constructor
  · intro none k higher between
    obtain ⟨index,here⟩ := List.mem_iff_getElem?.mp (closed b (List.mem_of_getElem? second) k higher)
    have bound : index < after.length := by rw [length]; exact (List.getElem?_eq_some_iff.mp here).1
    have there := List.getElem?_eq_getElem bound
    exact none _ ((above here second there fourth).mpr higher) ((above first here third there).mpr between)
  · intro none k higher between
    obtain ⟨index,there⟩ := List.mem_iff_getElem?.mp (also d (List.mem_of_getElem? fourth) k higher)
    have bound : index < before.length := by rw [← length]; exact (List.getElem?_eq_some_iff.mp there).1
    have here := List.getElem?_eq_getElem bound
    exact none _ ((above here second there fourth).mp higher) ((above first here third there).mp between)

-- Cutting and removal fail together, at the root only, and make the same trees.
-- What is left is listed as before, each node under its parent.
theorem prune_exact (s : Selector) (tree : Tree) (effects other : Effects) (memory : Node.Memory effects.next [tree.root])
    (known : Node.Memory other.next [tree.root]) :
    (s.selects tree.top = true →
      (((prune s).apply tree).run effects).1 = .error (.tree (.reparentRoot tree.root.name)) ∧
      (((Transform.filter (.or s (.descendantOf s))).apply tree).run other).1 =
        .error (.tree (.reparentRoot tree.root.name))) ∧
    (s.selects tree.top = false → ∃ pruned filtered : Tree,
      (((prune s).apply tree).run effects).1 = .ok pruned ∧
      (((Transform.filter (.or s (.descendantOf s))).apply tree).run other).1 = .ok filtered ∧
      pruned.same filtered = true ∧
      let kept := tree.top.preorder.filter fun p => !(p :: p.ancestors).any s.selects
      pruned.top.preorder.map (·.node.content) = kept.map (·.node.content) ∧
      ∀ (i j : Nat) (a b c d : Position),kept[i]? = some a → kept[j]? = some b →
        pruned.top.preorder[i]? = some c → pruned.top.preorder[j]? = some d →
        (d.parent? = some c ↔ b.parent? = some a)) := by
  refine ⟨?_,?_⟩
  · intro selected
    have covered : s.withBelow.selects tree.top = true := by rw [s.withBelow_top,selected]
    have refused : ∀ effects,(((Transform.filter s.withBelow).apply tree).run effects).1 =
        .error (.tree (.reparentRoot tree.root.name)) := by
      intro effects
      rw [Transform.filter,sparingRoot_run,covered]
      rfl
    exact ⟨(prune_run s tree rfl).trans (refused effects),refused other⟩
  · intro unselected
    have uncovered : s.withBelow.selects tree.top = false := by rw [s.withBelow_top,unselected]
    obtain ⟨pruned,ran,apart,outline⟩ := filter_kept memory uncovered
    obtain ⟨filtered,again,_,outlines⟩ := filter_kept known uncovered
    have kept : (tree.top.preorder.filter fun p => !(p :: p.ancestors).any s.selects) = survivors s.withBelow tree :=
      List.filter_congr fun p _ => by rw [Selector.withBelow_selects,List.any_cons]
    have contents := kept_contents outline
    rw [kept]
    refine ⟨pruned,filtered,(prune_run s tree rfl).trans ran,again,?_,contents,?_⟩
    · have roots : pruned.root.outline = filtered.root.outline := by simpa using outline.trans outlines.symm
      exact Node.same_of_outline roots
    · intro i j a b c d
      have lengths := congrArg List.length contents
      rw [List.length_map,List.length_map] at lengths
      exact parents_of_ancestors lengths (kept_above uncovered (Tree.distinct memory (.head _)) apart outline)
        (fun p member k => survivors_closed member) fun p member k => preorder_closed member

theorem family_preorder : Tree.family.top.preorder = [Tree.family.top,
    ⟨.mk 1 "x" .empty [.mk 0 "y" .empty []],[Tree.family.root]⟩,
    ⟨.mk 0 "y" .empty [],[.mk 1 "x" .empty [.mk 0 "y" .empty []],Tree.family.root]⟩,
    ⟨.mk 2 "z" .empty [],[Tree.family.root]⟩] := by
  simp [Position.preorder_eq,Position.children,Position.under,Tree.family,Tree.top]

theorem prune_level : Node.Memory 4 [Tree.family.root] ∧ Node.Memory 9 [Tree.family.root] ∧ ∃ pruned filtered : Tree,
    (((prune (.name "x")).apply Tree.family).run ⟨4,[]⟩).1 = .ok pruned ∧
    (((Transform.filter (.or (.name "x") (.descendantOf (.name "x")))).apply Tree.family).run ⟨9,[]⟩).1 = .ok filtered ∧
    pruned.same filtered = true ∧ pruned.top.preorder.map (·.node.content) = [("root",.empty),("z",.empty)] := by
  have among : ∀ k ∈ [Tree.family.root],k ∈ Tree.family.root.subtree :=
    List.forall_mem_singleton.mpr Tree.family.root.mem_subtree_self
  have memory := Tree.family_memory among
  have later : Node.Memory 9 [Tree.family.root] :=
    ⟨fun m inside => Nat.lt_trans (memory.given m inside) (by decide),memory.single⟩
  obtain ⟨pruned,filtered,ran,again,same,contents,_⟩ :=
    (prune_exact (.name "x") Tree.family ⟨4,[]⟩ ⟨9,[]⟩ memory later).2 (by decide)
  refine ⟨memory,later,pruned,filtered,ran,again,same,contents.trans ?_⟩
  rw [family_preorder]
  rfl

end Transform
end SharedTree
