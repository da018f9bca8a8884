import SharedTree.Proofs.Node.Memory
import SharedTree.Transform.Removal

namespace SharedTree

def Node.content (n : Node) : String × Attributes := (n.name,n.attributes)

namespace Transform
open Node (subtreeAll)

mutual
def remains (s : Selector) (above : List Node) : Node → List Outline
  | n@(.mk _ name attributes children) =>
    let kept := remainsEach s (n :: above) children
    if s.selects ⟨n,above⟩ then kept else [.mk name attributes kept]

def remainsEach (s : Selector) (above : List Node) : List Node → List Outline
  | [] => []
  | child :: rest => remains s above child ++ remainsEach s above rest
end

theorem remains_selected {s : Selector} {n : Node} (selected : s.selects ⟨n,above⟩ = true) :
    remains s above n = remainsEach s (n :: above) n.children := by
  cases n
  rw [remains,selected]
  rfl

theorem remains_kept {s : Selector} {n : Node} (kept : s.selects ⟨n,above⟩ = false) :
    remains s above n = [.mk n.name n.attributes (remainsEach s (n :: above) n.children)] := by
  cases n
  rw [remains,kept]
  rfl

theorem node_of_kept {s : Selector} {n : Node} {nodes : List Node} (kept : s.selects ⟨n,above⟩ = false)
    (outlines : nodes.map Node.outline = remains s above n) :
    ∃ m,nodes = [m] ∧ m.name = n.name ∧ m.attributes = n.attributes ∧
      m.children.map Node.outline = remainsEach s (n :: above) n.children := by
  rw [remains_kept kept] at outlines
  obtain ⟨m,rfl,outline⟩ := List.map_eq_singleton_iff.mp outlines
  rw [Node.outline_eq] at outline
  injection outline with name attributes children
  exact ⟨m,rfl,name,attributes,children⟩

def stays (s : Selector) (p : Position) (path : List Nat) : Bool := !(p.at? path).any s.selects

theorem remainsEach_contents {s : Selector} {p : Position} {children nodes : List Node}
    (each : ∀ child ∈ children,∀ nodes : List Node,nodes.map Node.outline = remains s (p.node :: p.above) child →
      (subtreeAll nodes).map Node.content = ((p.under child).preorder.filter fun q => !s.selects q).map (·.node.content))
    (outlines : nodes.map Node.outline = remainsEach s (p.node :: p.above) children) :
    (subtreeAll nodes).map Node.content =
      (((children.map p.under).flatMap Position.preorder).filter fun q => !s.selects q).map (·.node.content) := by
  induction children generalizing nodes with
  | nil =>
      rw [List.map_eq_nil_iff.mp outlines]
      rfl
  | cons child children ih =>
      obtain ⟨first,others,rfl,left,right⟩ := List.map_eq_append_iff.mp outlines
      rw [Node.subtreeAll_append,List.map_append,each child (.head _) first left,
        ih (fun node member => each node (.tail _ member)) right,List.map_cons,List.flatMap_cons,List.filter_append,
        List.map_append]

theorem remains_contents {s : Selector} {n : Node} {above nodes : List Node}
    (outlines : nodes.map Node.outline = remains s above n) :
    (subtreeAll nodes).map Node.content =
      ((⟨n,above⟩ : Position).preorder.filter fun q => !s.selects q).map (·.node.content) := by
  induction n using Node.children_induction generalizing above nodes with
  | step n ih =>
      have below : ∀ {kept : List Node},kept.map Node.outline = remainsEach s (n :: above) n.children →
          (subtreeAll kept).map Node.content = (((n.children.map (Position.under ⟨n,above⟩)).flatMap
            Position.preorder).filter fun q => !s.selects q).map (·.node.content) :=
        fun outlines => remainsEach_contents (p := ⟨n,above⟩) (fun child member nodes => ih child member) outlines
      rw [Position.preorder_eq,List.filter_cons]
      cases selected : s.selects ⟨n,above⟩ with
      | true =>
          rw [remains_selected selected] at outlines
          exact below outlines
      | false =>
          obtain ⟨m,rfl,named,held,outlines⟩ := node_of_kept selected outlines
          rw [Node.subtreeAll_singleton,Node.subtree_eq,List.map_cons,below outlines]
          simp only [Node.content,named,held]
          rfl

-- Two places before and after, the first one of each pair: one stands above the
-- other before exactly when it does after, and never the other way round.
def Agree (early late : List Nat × List Nat) : Prop :=
  (early.1 <+: late.1 ↔ early.2 <+: late.2) ∧ ¬ late.1 <+: early.1 ∧ ¬ late.2 <+: early.2

theorem pathsFrom_append (left right : List Node) (index : Nat) :
    Node.pathsFrom index (left ++ right) = Node.pathsFrom index left ++ Node.pathsFrom (index + left.length) right := by
  induction left generalizing index with
  | nil => rfl
  | cons n left ih =>
      rw [List.cons_append,Node.pathsFrom,Node.pathsFrom,ih,List.append_assoc,List.length_cons,Nat.add_assoc,
        Nat.add_comm 1]

theorem pathsFrom_apart {left right : List Node} {path other : List Nat} (first : path ∈ Node.pathsFrom index left)
    (second : other ∈ Node.pathsFrom (index + left.length) right) : ¬ path <+: other ∧ ¬ other <+: path := by
  obtain ⟨offset,child,rest,rfl,here,_⟩ := Node.mem_pathsFrom.mp first
  obtain ⟨further,sibling,tail,rfl,_,_⟩ := Node.mem_pathsFrom.mp second
  have bound : offset < left.length := (List.getElem?_eq_some_iff.mp here).1
  rw [List.cons_prefix_cons,List.cons_prefix_cons]
  omega

-- Places of the nodes that stay, each with its place in what is left behind.
def Placed (before after : List (List Nat)) : Prop :=
  ∃ pairs : List (List Nat × List Nat),pairs.map Prod.fst = before ∧ pairs.map Prod.snd = after ∧ pairs.Pairwise Agree

namespace Placed

variable {before after others rest : List (List Nat)}

theorem nil : Placed [] [] := ⟨[],rfl,rfl,.nil⟩

theorem left (placed : Placed before after) (index : Nat) : Placed (before.map (index :: ·)) after := by
  obtain ⟨pairs,rfl,rfl,agree⟩ := placed
  refine ⟨pairs.map fun pair => (index :: pair.1,pair.2),by simp,by simp,?_⟩
  rw [List.pairwise_map]
  exact agree.imp fun both => by simpa [Agree,List.cons_prefix_cons] using both

theorem right (placed : Placed before after) (index : Nat) : Placed before (after.map (index :: ·)) := by
  obtain ⟨pairs,rfl,rfl,agree⟩ := placed
  refine ⟨pairs.map fun pair => (pair.1,index :: pair.2),by simp,by simp,?_⟩
  rw [List.pairwise_map]
  exact agree.imp fun both => by simpa [Agree,List.cons_prefix_cons] using both

theorem cons (placed : Placed before after) (below : [] ∉ before) (under : [] ∉ after) :
    Placed ([] :: before) ([] :: after) := by
  obtain ⟨pairs,rfl,rfl,agree⟩ := placed
  refine ⟨([],[]) :: pairs,rfl,rfl,.cons ?_ agree⟩
  intro pair member
  have first : pair.1 ≠ [] := fun empty => below (empty ▸ List.mem_map_of_mem member)
  have second : pair.2 ≠ [] := fun empty => under (empty ▸ List.mem_map_of_mem member)
  simp [Agree,first,second]

theorem append (placed : Placed before after) (more : Placed others rest)
    (apart : ∀ path ∈ before,∀ other ∈ others,¬ path <+: other ∧ ¬ other <+: path)
    (separate : ∀ path ∈ after,∀ other ∈ rest,¬ path <+: other ∧ ¬ other <+: path) :
    Placed (before ++ others) (after ++ rest) := by
  obtain ⟨pairs,rfl,rfl,agree⟩ := placed
  obtain ⟨further,rfl,rfl,also⟩ := more
  refine ⟨pairs ++ further,List.map_append,List.map_append,List.pairwise_append.mpr ⟨agree,also,?_⟩⟩
  intro early member late later
  have first := apart _ (List.mem_map_of_mem member) _ (List.mem_map_of_mem later)
  have second := separate _ (List.mem_map_of_mem member) _ (List.mem_map_of_mem later)
  exact ⟨iff_of_false first.1 second.1,first.2,second.2⟩

end Placed

theorem nil_not_mem_pathsFrom (nodes : List Node) (index : Nat) : [] ∉ Node.pathsFrom index nodes := by
  intro inside
  obtain ⟨_,_,_,same,_,_⟩ := Node.mem_pathsFrom.mp inside
  cases same

theorem paths_singleton (n : Node) (index : Nat) : Node.pathsFrom index [n] = n.paths.map (index :: ·) :=
  List.append_nil _

theorem remainsEach_placed {s : Selector} {p : Position} {children nodes : List Node} {offset : Nat}
    (here : ∀ next,children[next]? = p.node.child? (offset + next))
    (each : ∀ child ∈ children,∀ (nodes : List Node) (index : Nat),
      nodes.map Node.outline = remains s (p.node :: p.above) child →
      Placed (child.paths.filter (stays s (p.under child))) (Node.pathsFrom index nodes)) (index : Nat)
    (outlines : nodes.map Node.outline = remainsEach s (p.node :: p.above) children) :
    Placed ((Node.pathsFrom offset children).filter (stays s p)) (Node.pathsFrom index nodes) := by
  induction children generalizing nodes offset index with
  | nil =>
      rw [List.map_eq_nil_iff.mp outlines]
      exact .nil
  | cons child children ih =>
      obtain ⟨first,others,rfl,left,right⟩ := List.map_eq_append_iff.mp outlines
      have next : p.node.child? offset = some child := (here 0).symm
      have later : ∀ further,children[further]? = p.node.child? (offset + 1 + further) := by
        intro further
        rw [Nat.add_assoc,Nat.add_comm 1]
        exact here (further + 1)
      have own : ((child.paths.map (offset :: ·)).filter (stays s p)) =
          (child.paths.filter (stays s (p.under child))).map (offset :: ·) := by
        rw [List.filter_map]
        congr 1
        exact List.filter_congr fun path _ => by simp only [Function.comp,stays,Position.at?_child next]
      rw [Node.pathsFrom,List.filter_append,own,pathsFrom_append]
      refine ((each child (.head _) first index left).left offset).append
        (ih later (fun node member => each node (.tail _ member)) _ right) ?_ fun path inside other => pathsFrom_apart inside
      intro path inside other member
      obtain ⟨tail,_,rfl⟩ := List.mem_map.mp inside
      obtain ⟨further,_,rest,rfl,_,_⟩ := Node.mem_pathsFrom.mp (List.mem_filter.mp member).1
      rw [List.cons_prefix_cons,List.cons_prefix_cons]
      omega

theorem placed_kept {s : Selector} {n m : Node} (kept : s.selects ⟨n,above⟩ = false)
    (below : Placed ((Node.pathsFrom 0 n.children).filter (stays s ⟨n,above⟩)) (Node.pathsFrom 0 m.children)) :
    Placed (n.paths.filter (stays s ⟨n,above⟩)) m.paths := by
  have first : stays s ⟨n,above⟩ [] = true := by
    rw [stays,Position.at?,Option.any_some,kept]
    rfl
  rw [Node.paths_eq,Node.paths_eq,List.filter_cons_of_pos first]
  refine below.cons ?_ (nil_not_mem_pathsFrom _ _)
  exact fun inside => nil_not_mem_pathsFrom _ _ (List.mem_filter.mp inside).1

theorem remains_placed {s : Selector} {n : Node} {above nodes : List Node} (index : Nat)
    (outlines : nodes.map Node.outline = remains s above n) :
    Placed (n.paths.filter (stays s ⟨n,above⟩)) (Node.pathsFrom index nodes) := by
  induction n using Node.children_induction generalizing above nodes index with
  | step n ih =>
      have below : ∀ {kept : List Node} (index : Nat),kept.map Node.outline = remainsEach s (n :: above) n.children →
          Placed ((Node.pathsFrom 0 n.children).filter (stays s ⟨n,above⟩)) (Node.pathsFrom index kept) := fun index =>
        remainsEach_placed (p := ⟨n,above⟩) (by simp [Node.child?]) (fun child member nodes index => ih child member index) index
      cases selected : s.selects ⟨n,above⟩ with
      | true =>
          have first : ¬ stays s ⟨n,above⟩ [] = true := by
            rw [stays,Position.at?,Option.any_some,selected]
            simp
          rw [remains_selected selected] at outlines
          rw [Node.paths_eq,List.filter_cons_of_neg first]
          exact below index outlines
      | false =>
          obtain ⟨m,rfl,_,_,outlines⟩ := node_of_kept selected outlines
          rw [paths_singleton]
          exact (placed_kept selected (below 0 outlines)).right index

def survivors (s : Selector) (tree : Tree) : List Position := tree.top.preorder.filter fun p => !s.selects p

theorem survivors_paths (s : Selector) (tree : Tree) :
    (survivors s tree).map some = (tree.root.paths.filter (stays s tree.top)).map tree.at? := by
  have kept : (survivors s tree).map some = (tree.top.preorder.map some).filter fun found => !found.any s.selects := by
    rw [survivors,List.filter_map]
    rfl
  rw [kept,Position.preorder_paths,List.filter_map]
  rfl

theorem survivors_paths_at {s : Selector} {tree : Tree} {index : Nat} {p : Position} (found : (survivors s tree)[index]? = some p) :
    ∃ path,(tree.root.paths.filter (stays s tree.top))[index]? = some path ∧ tree.at? path = some p := by
  have input : ((survivors s tree).map some)[index]? = some (some p) := by
    rw [List.getElem?_map,found]
    rfl
  rw [survivors_paths,List.getElem?_map] at input
  exact Option.map_eq_some_iff.mp input

theorem preorder_at {tree : Tree} {index : Nat} {p : Position} (found : tree.top.preorder[index]? = some p) :
    ∃ path,tree.root.paths[index]? = some path ∧ tree.at? path = some p := by
  have output : (tree.top.preorder.map some)[index]? = some (some p) := by
    rw [List.getElem?_map,found]
    rfl
  rw [Position.preorder_paths,List.getElem?_map] at output
  exact Option.map_eq_some_iff.mp output

theorem Placed.above {before after : List (List Nat)} (placed : Placed before after) {i j : Nat} {a b c d : List Nat}
    (first : before[i]? = some a) (second : before[j]? = some b) (third : after[i]? = some c) (fourth : after[j]? = some d) :
    (c <+: d ∧ c ≠ d) ↔ (a <+: b ∧ a ≠ b) := by
  obtain ⟨pairs,rfl,rfl,agree⟩ := placed
  rw [List.getElem?_map] at first second third fourth
  obtain ⟨early,here,rfl⟩ := Option.map_eq_some_iff.mp first
  obtain ⟨late,there,rfl⟩ := Option.map_eq_some_iff.mp second
  rw [here] at third
  rw [there] at fourth
  cases Option.some.inj third
  cases Option.some.inj fourth
  obtain ⟨_,rfl⟩ := List.getElem?_eq_some_iff.mp here
  obtain ⟨_,rfl⟩ := List.getElem?_eq_some_iff.mp there
  rcases Nat.lt_trichotomy i j with less | rfl | more
  · obtain ⟨above,never,neither⟩ := List.pairwise_iff_getElem.mp agree _ _ _ _ less
    have apart : ∀ {x y : List Nat},¬ y <+: x → x ≠ y := fun never same => never (same ▸ List.prefix_rfl)
    exact ⟨fun given => ⟨above.mpr given.1,apart never⟩,fun given => ⟨above.mp given.1,apart neither⟩⟩
  · simp
  · obtain ⟨_,never,neither⟩ := List.pairwise_iff_getElem.mp agree _ _ _ _ more
    exact iff_of_false (fun given => neither given.1) fun given => never given.1

end Transform
end SharedTree
