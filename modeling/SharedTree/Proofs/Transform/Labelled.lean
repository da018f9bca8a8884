import SharedTree.Proofs.Transform.Changed
import SharedTree.Proofs.Transform.Removal
import SharedTree.Proofs.Tree.Standing
import SharedTree.Proofs.Value.Equality

namespace SharedTree.Transform
open Node (subtreeAll Renewed)

def relabel (label : String × Attributes → String × Attributes) (n : Node) : Fresh Node :=
  Node.make (label n.content).1 (label n.content).2 n.children

-- What a node shows after that. One that would show the same is not replaced.
def relabelled (label : String × Attributes → String × Attributes) (c : String × Attributes) : String × Attributes :=
  if (label c).1 = c.1 ∧ Attributes.same (label c).2 c.2 = true then c else label c

def labelAt (s : Selector) (label : String × Attributes → String × Attributes) (p : Position) : String × Attributes :=
  if s.selects p then relabelled label p.node.content else p.node.content

def Shows (shown : Position → String × Attributes) (p : Position) (m : Node) : Prop :=
  ∀ path,(m.follow? path).map Node.content = (p.at? path).map shown

section

variable {label : String × Attributes → String × Attributes} {s : Selector} {shown : Position → String × Attributes}
  {p parent : Position} {n m : Node} {nodes ms : List Node} {first middle last : Nat}

theorem shows_below (below : List.Forall₂ (fun child c => Shows shown (parent.under child) c) nodes ms) (index : Nat)
    (path : List Nat) : ((ms[index]?).bind (·.follow? path)).map Node.content =
      ((nodes[index]?).bind fun child => (parent.under child).at? path).map shown := by
  induction below generalizing index with
  | nil => rfl
  | cons own _ ih =>
      cases index with
      | zero => exact own path
      | succ index => exact ih index

theorem shows_over (own : m.content = shown p)
    (below : List.Forall₂ (fun child c => Shows shown (p.under child) c) p.node.children m.children) : Shows shown p m := by
  intro path
  cases path with
  | nil => exact congrArg some own
  | cons index path => exact shows_below below index path

-- The node to be relabelled is old, or was made just before, so it is not taken for the new one.
theorem relabel_kept (label : String × Attributes → String × Attributes) {next : Nat} (older : n.serial < next) :
    ∃ m,(keepIfAlike (relabel label) n).run next = (m,next + 1) ∧ m.content = relabelled label n.content ∧
      m.children = n.children ∧ (m = n ∨ ∃ name attributes,m = .mk next name attributes n.children) := by
  have apart : ¬ next = n.serial := Nat.ne_of_gt older
  have alike : (Node.mk next (label n.content).1 (label n.content).2 n.children).alike n = true ↔
      (label n.content).1 = n.content.1 ∧ Attributes.same (label n.content).2 n.content.2 = true := by
    simp [Node.alike,Node.is,Node.identicalAll,Node.content,apart]
  rw [keepIfAlike_run]
  show ∃ m,(if (Node.mk next (label n.content).1 (label n.content).2 n.children).alike n then n
    else .mk next (label n.content).1 (label n.content).2 n.children,next + 1) = (m,next + 1) ∧ _
  cases kept : (Node.mk next (label n.content).1 (label n.content).2 n.children).alike n with
  | true => exact ⟨n,rfl,(if_pos (alike.mp kept)).symm,rfl,.inl rfl⟩
  | false =>
      have changed : ¬ ((label n.content).1 = n.content.1 ∧ Attributes.same (label n.content).2 n.content.2 = true) := by
        rw [← alike,kept]
        exact Bool.false_ne_true
      exact ⟨_,rfl,(if_neg changed).symm,rfl,.inr ⟨_,_,rfl⟩⟩

def LabelledOne (s : Selector) (label : String × Attributes → String × Attributes) (p : Position) (first : Nat) (m : Node)
    (last : Nat) : Prop :=
  p.node.Distinct → (∀ k ∈ p.node.subtree,k.serial < first) →
    Renewed p.node.subtree first last [m] ∧ Shows (labelAt s label) p m

def LabelledAll (s : Selector) (label : String × Attributes → String × Attributes) (parent : Position) (nodes : List Node)
    (first : Nat) (ms : List Node) (last : Nat) : Prop :=
  ((subtreeAll nodes).map Node.serial).Nodup → (∀ k ∈ subtreeAll nodes,k.serial < first) →
    Renewed (subtreeAll nodes) first last ms ∧
      List.Forall₂ (fun child m => Shows (labelAt s label) (parent.under child) m) nodes ms

theorem labelled_more {child : Node} (own : LabelledOne s label (parent.under child) first m middle)
    (others : LabelledAll s label parent nodes middle ms last) : LabelledAll s label parent (child :: nodes) first (m :: ms) last := by
  intro distinct older
  have apart := distinct
  rw [subtreeAll,List.map_append] at distinct
  rw [subtreeAll] at older
  obtain ⟨renewed,shows⟩ := own (Node.distinct_of_mem apart (.head _)) fun k member => older k (List.mem_append_left _ member)
  obtain ⟨rest,show_rest⟩ := others (List.nodup_append.mp distinct).2.1 fun k member =>
    Nat.lt_of_lt_of_le (older k (List.mem_append_right _ member)) renewed.grown
  exact ⟨renewed.append rest older apart,.cons shows show_rest⟩

theorem labelled_settled (below : LabelledAll s label p p.node.children first ms middle) :
    LabelledOne s label p first ((settle s (relabel label) p ms).run middle).1 ((settle s (relabel label) p ms).run middle).2 := by
  intro distinct older
  have inside : ∀ k ∈ subtreeAll p.node.children,k ∈ p.node.subtree := fun _ => Node.mem_subtree_all
  obtain ⟨renewed,shows⟩ := below (Node.distinct_iff.mp distinct).2 fun k member => older k (inside k member)
  obtain ⟨rebuilt,later,ran,named,held,children,again⟩ := Node.rebuild_exact distinct older renewed
  have content : rebuilt.content = p.node.content := Prod.ext named held
  have newer : rebuilt.serial < later := by
    refine again.below older rebuilt ?_
    rw [Node.subtreeAll_singleton]
    exact rebuilt.mem_subtree_self
  rw [← children] at shows
  rw [settle_run ran]
  cases selected : s.selects p with
  | false =>
      have shown : labelAt s label p = p.node.content := if_neg (by simp [selected])
      exact ⟨again,shows_over (content.trans shown.symm) shows⟩
  | true =>
      have shown : labelAt s label p = relabelled label rebuilt.content := (if_pos selected).trans (by rw [content])
      obtain ⟨m,ran,new_content,new_children,origin⟩ := relabel_kept label newer
      rw [if_pos rfl,ran]
      refine ⟨?_,shows_over (new_content.trans shown.symm) (new_children ▸ shows)⟩
      rcases origin with rfl | ⟨name,attributes,rfl⟩
      · exact again.later (Nat.le_succ later)
      · exact again.children.make older name attributes

theorem labelled_carries (s : Selector) (label : String × Attributes → String × Attributes) :
    Carries s (relabel label) (LabelledOne s label) (LabelledAll s label) where
  none _ first _ _ := ⟨.nil first,.nil⟩
  more := labelled_more
  settled := labelled_settled

theorem labelled_run (title : String) (s : Selector) (label : String × Attributes → String × Attributes) (tree : Tree)
    (effects : Effects) (memory : Node.Memory effects.next [tree.root]) :
    ∃ out later,((mapSelected title s (relabel label)).apply tree).run effects = (.ok out,later) ∧
      ∀ path,(out.at? path).map (·.node.content) = (tree.at? path).map (labelAt s label) := by
  have distinct := Tree.distinct memory (.head _)
  have older := memory.older (.head _)
  obtain ⟨renewed,shows⟩ := (labelled_carries s label).selected tree.root [] effects distinct older
  obtain ⟨out,finished,root⟩ := finish_exact distinct older renewed
  refine ⟨out,_,Prod.ext finished rfl,fun path => ?_⟩
  have there := shows path
  rw [← root,Tree.follow?_eq,Option.map_map] at there
  exact there

theorem same_paths {shown : Position → String × Attributes} {tree out : Tree}
    (shows : ∀ path,(out.at? path).map (·.node.content) = (tree.at? path).map shown) (path : List Nat) :
    path ∈ out.root.paths ↔ path ∈ tree.root.paths := by
  have there := congrArg Option.isSome (shows path)
  rw [Option.isSome_map,Option.isSome_map] at there
  rw [Tree.mem_paths,Tree.mem_paths,← Option.isSome_iff_exists,← Option.isSome_iff_exists,there]

theorem shown_at {shown : Position → String × Attributes} {tree out : Tree}
    (shows : ∀ path,(out.at? path).map (·.node.content) = (tree.at? path).map shown) (found : tree.at? path = some p) :
    ∃ q,out.at? path = some q ∧ q.node.content = shown p := by
  have there := shows path
  rw [found] at there
  exact Option.map_eq_some_iff.mp there

end

def named (name : String) (c : String × Attributes) : String × Attributes := (name,c.2)

def noted (key : String) (value : Value) (c : String × Attributes) : String × Attributes := (c.1,c.2.insert key value)

structure Written (key : String) (value : Value) (before after : Attributes) : Prop where
  written : ∃ held,after.get? key = some held ∧ held.same value = true
  beside : ∀ other,other ≠ key → after.get? other = before.get? other
  names : after.names = (before.insert key value).names

theorem relabelled_name (name : String) (c : String × Attributes) : relabelled (named name) c = named name c := by
  unfold relabelled
  split
  · rename_i same
    exact Prod.ext same.1.symm rfl
  · rfl

theorem relabelled_attribute (key : String) (value : Value) (c : String × Attributes) :
    (relabelled (noted key value) c).1 = c.1 ∧ Written key value c.2 (relabelled (noted key value) c).2 := by
  have inserted : ∀ other,(c.2.insert key value).get? other = if other = key then some value else c.2.get? other :=
    Table.get?_insert c.2 key value
  unfold relabelled
  split
  · rename_i same
    have entry : (key,value) ∈ (c.2.insert key value).toList := Table.get?_eq_some.mp (by rw [inserted,if_pos rfl])
    obtain ⟨held,before,equal⟩ := (Table.agrees_iff.mp same.2).2 _ entry
    have known : key ∈ c.2.names := List.mem_map.mpr ⟨_,Table.get?_eq_some.mp before,rfl⟩
    refine ⟨rfl,⟨held,before,Value.same_symm equal⟩,fun _ _ => rfl,?_⟩
    rw [Table.names_insert,if_pos known]
  · refine ⟨rfl,⟨value,(inserted key).trans (if_pos rfl),value.same_self⟩,?_,rfl⟩
    intro other apart
    exact (inserted other).trans (if_neg apart)

theorem labels_exact (s : Selector) (tree : Tree) (effects : Effects) (memory : Node.Memory effects.next [tree.root]) :
    (∀ name,∃ out later,((rename s name).apply tree).run effects = (.ok out,later) ∧
      (∀ path,path ∈ out.root.paths ↔ path ∈ tree.root.paths) ∧
      ∀ path p,tree.at? path = some p → ∃ q,out.at? path = some q ∧
        q.name = (if s.selects p then name else p.name) ∧ q.node.attributes = p.node.attributes) ∧
    ∀ key value,∃ out later,((setAttribute s key value).apply tree).run effects = (.ok out,later) ∧
      (∀ path,path ∈ out.root.paths ↔ path ∈ tree.root.paths) ∧
      ∀ path p,tree.at? path = some p → ∃ q,out.at? path = some q ∧ q.name = p.name ∧
        if s.selects p then Written key value p.node.attributes q.node.attributes
        else q.node.attributes = p.node.attributes := by
  constructor
  · intro name
    obtain ⟨out,later,ran,shows⟩ := labelled_run (rename s name).label s (named name) tree effects memory
    refine ⟨out,later,ran,same_paths shows,fun path p found => ?_⟩
    obtain ⟨q,there,content⟩ := shown_at shows found
    rw [labelAt,relabelled_name] at content
    refine ⟨q,there,(congrArg Prod.fst content).trans ?_,(congrArg Prod.snd content).trans ?_⟩ <;> split <;> rfl
  · intro key value
    obtain ⟨out,later,ran,shows⟩ :=
      labelled_run (setAttribute s key value).label s (noted key value) tree effects memory
    refine ⟨out,later,ran,same_paths shows,fun path p found => ?_⟩
    obtain ⟨q,there,content⟩ := shown_at shows found
    have names : q.name = (labelAt s (noted key value) p).1 := congrArg Prod.fst content
    have attributes : q.node.attributes = (labelAt s (noted key value) p).2 := congrArg Prod.snd content
    obtain ⟨kept,written⟩ := relabelled_attribute key value p.node.content
    refine ⟨q,there,?_⟩
    rw [names,attributes,labelAt]
    split
    · exact ⟨kept,written⟩
    · exact ⟨rfl,rfl⟩

-- A node and its child get one name. The child is still taken for the child of "x".
theorem labels_nested : Node.Memory 4 [Tree.family.root] ∧ ∃ out later x y z,
    ((rename (.or (.name "x") (.childOf (.name "x"))) "n").apply Tree.family).run ⟨4,[]⟩ = (.ok out,later) ∧
      out.at? [0] = some x ∧ x.name = "n" ∧ out.at? [0,0] = some y ∧ y.name = "n" ∧ out.at? [1] = some z ∧ z.name = "z" := by
  have memory := Tree.family_memory (List.forall_mem_singleton.mpr Tree.family.root.mem_subtree_self)
  obtain ⟨out,later,ran,_,at_path⟩ := (labels_exact (.or (.name "x") (.childOf (.name "x"))) Tree.family ⟨4,[]⟩ memory).1 "n"
  obtain ⟨x,first,named,_⟩ := at_path [0] _ rfl
  obtain ⟨y,below,again,_⟩ := at_path [0,0] _ rfl
  obtain ⟨z,second,kept,_⟩ := at_path [1] _ rfl
  exact ⟨memory,out,later,x,y,z,ran,first,named.trans (by decide),below,again.trans (by decide),second,kept.trans (by decide)⟩

end SharedTree.Transform
