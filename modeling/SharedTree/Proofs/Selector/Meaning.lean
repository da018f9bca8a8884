import Mathlib.Data.List.Lex
import SharedTree.Proofs.Path.Meaning
import SharedTree.Proofs.Tree.Places
import SharedTree.Selector.Find

namespace SharedTree
namespace Selector

def There (tree : Tree) (place : List Nat) (test : Position → Bool) : Prop :=
  ∃ p,tree.at? place = some p ∧ test p = true

-- Atoms of structure look at the index path alone, and move along it: `dropLast`
-- leads to the parent, a longer path that begins with it to a descendant.
def Holds (tree : Tree) : Selector → List Nat → Prop
  | any,_ => True
  | nothing,_ => False
  | name glob,place => There tree place fun p => Glob.accepts glob p.name
  | regex _ compiled,place => There tree place fun p => compiled.found p.name
  | attributes test,place => There tree place fun p => (test p.attributes).answer
  | type tag,place => There tree place fun p => p.node.typeTag? == some tag
  | custom test,place => There tree place fun p => (test p).answer
  | leaf,place => ∀ beyond ∈ tree.root.paths,place <+: beyond → beyond = place
  | root,place => place = []
  | depth level,place => place.length = level
  | childOf parent,place => place ≠ [] ∧ parent.Holds tree place.dropLast
  | ancestorOf below,place => ∃ beyond ∈ tree.root.paths,(place <+: beyond ∧ beyond ≠ place) ∧ below.Holds tree beyond
  | descendantOf above,place => ∃ before,(before <+: place ∧ before ≠ place) ∧ above.Holds tree before
  | path e,place => Path.Reads e.segments none (tree.root.along place)
  | and a b,place => a.Holds tree place ∧ b.Holds tree place
  | or a b,place => a.Holds tree place ∨ b.Holds tree place
  | not a,place => ¬ a.Holds tree place
  | xor a b,place => ¬ (a.Holds tree place ↔ b.Holds tree place)

variable {tree : Tree} {p : Position} {path : List Nat}

theorem there_iff (found : tree.at? path = some p) (test : Position → Bool) : There tree path test ↔ test p = true := by
  constructor
  · intro given
    obtain ⟨q,here,passed⟩ := given
    rw [found] at here
    cases here
    exact passed
  · intro passed
    exact ⟨p,found,passed⟩

theorem childOf_iff {parent : Selector} (found : tree.at? path = some p)
    (ih : ∀ {path p},tree.at? path = some p → (parent.selects p = true ↔ parent.Holds tree path)) :
    (childOf parent).selects p = true ↔ (childOf parent).Holds tree path := by
  rw [selects,verdict,Tree.parent?_eq found,Holds]
  by_cases top : path = []
  · simp [top,Verdict.silent]
  · obtain ⟨above,here⟩ := Tree.at?_before found (List.dropLast_prefix path)
    rw [if_neg top,here]
    exact (ih here).trans ⟨fun held => ⟨top,held⟩,And.right⟩

theorem ancestorOf_iff {below : Selector} (found : tree.at? path = some p)
    (ih : ∀ {path p},tree.at? path = some p → (below.selects p = true ↔ below.Holds tree path)) :
    (ancestorOf below).selects p = true ↔ (ancestorOf below).Holds tree path := by
  rw [selects,verdict,Verdict.anyOf_answer,List.any_eq_true,Holds]
  constructor
  · intro given
    obtain ⟨q,member,passed⟩ := given
    obtain ⟨beyond,further,here⟩ := (Tree.mem_descendants found).mp member
    exact ⟨beyond,Tree.mem_paths.mpr ⟨q,here⟩,further,(ih here).mp passed⟩
  · intro given
    obtain ⟨beyond,inside,further,held⟩ := given
    obtain ⟨q,here⟩ := Tree.mem_paths.mp inside
    exact ⟨q,(Tree.mem_descendants found).mpr ⟨beyond,further,here⟩,(ih here).mpr held⟩

theorem descendantOf_iff {above : Selector} (found : tree.at? path = some p)
    (ih : ∀ {path p},tree.at? path = some p → (above.selects p = true ↔ above.Holds tree path)) :
    (descendantOf above).selects p = true ↔ (descendantOf above).Holds tree path := by
  rw [selects,verdict,Verdict.anyOf_answer,List.any_eq_true,Holds]
  constructor
  · intro given
    obtain ⟨q,member,passed⟩ := given
    obtain ⟨before,nearer,here⟩ := (Tree.mem_ancestors found).mp member
    exact ⟨before,nearer,(ih here).mp passed⟩
  · intro given
    obtain ⟨before,nearer,held⟩ := given
    obtain ⟨q,here⟩ := Tree.at?_before found nearer.1
    exact ⟨q,(Tree.mem_ancestors found).mpr ⟨before,nearer,here⟩,(ih here).mpr held⟩

theorem selects_iff (s : Selector) (found : tree.at? path = some p) : s.selects p = true ↔ s.Holds tree path := by
  induction s generalizing path p with
  | any => simp [selects,verdict,Verdict.silent,Holds]
  | nothing => simp [selects,verdict,Verdict.silent,Holds]
  | name | regex | attributes | type | custom => exact (there_iff found _).symm
  | leaf => exact Tree.isLeaf_iff found
  | root => exact Tree.isRoot_iff found
  | depth level =>
      have depth : (Selector.depth level).selects p = (p.depth == level) := rfl
      rw [depth,Tree.depth_eq found,beq_iff_eq,Holds]
  | childOf parent ih => exact childOf_iff found ih
  | ancestorOf below ih => exact ancestorOf_iff found ih
  | descendantOf above ih => exact descendantOf_iff found ih
  | path e =>
      have accepted : (Selector.path e).selects p = e.accepts p.chain := rfl
      rw [accepted,Tree.chain_eq found,Path.accepts_exact,Holds]
  | and a b first second =>
      rw [selects,verdict,Verdict.both_answer,Bool.and_eq_true,Holds,← first found,← second found]
      rfl
  | or a b first second =>
      rw [selects,verdict,Verdict.either_answer,Bool.or_eq_true,Holds,← first found,← second found]
      rfl
  | not a ih =>
      rw [Holds,← ih found,Bool.not_eq_true,← Bool.not_eq_true']
      rfl
  | xor a b first second =>
      have differ : (xor a b).selects p = (a.selects p != b.selects p) := rfl
      rw [differ,Holds,← first found,← second found,bne_iff_ne,ne_eq,Bool.eq_iff_iff]

theorem find_eq_head (s : Selector) (start : Position) : (s.find start).1 = (s.findAll start).1.head? := by
  rw [find,findAll,firstAmong_found,among_found,List.head?_filter]

def placesBelow (s : Selector) (path : List Nat) (start : Position) : List (List Nat) :=
  (start.node.paths.filter fun rest => (start.at? rest).any s.selects).map (path ++ ·)

theorem placesBelow_ordered (s : Selector) (path : List Nat) (start : Position) :
    (s.placesBelow path start).Pairwise (List.Lex (· < ·)) := by
  rw [placesBelow,List.pairwise_map]
  exact (start.node.paths_ordered.filter _).imp fun before => List.Lex.append_left _ before path

theorem mem_placesBelow (s : Selector) (here : tree.at? path = some p) :
    place ∈ s.placesBelow path p ↔ place ∈ tree.root.paths ∧ path <+: place ∧ s.Holds tree place := by
  rw [placesBelow,List.mem_map]
  constructor
  · intro given
    obtain ⟨rest,kept,rfl⟩ := given
    obtain ⟨inside,selected⟩ := List.mem_filter.mp kept
    obtain ⟨q,found⟩ := Option.isSome_iff_exists.mp (Position.mem_paths.mp inside)
    rw [found,Option.any_some] at selected
    have known : tree.at? (path ++ rest) = some q := by rw [Tree.at?_below here,found]
    exact ⟨Tree.mem_paths.mpr ⟨q,known⟩,List.prefix_append _ _,(selects_iff s known).mp selected⟩
  · intro given
    obtain ⟨inside,⟨rest,rfl⟩,held⟩ := given
    obtain ⟨q,found⟩ := Tree.mem_paths.mp inside
    have selected := (selects_iff s found).mpr held
    rw [Tree.at?_below here] at found
    refine ⟨rest,List.mem_filter.mpr ⟨Position.mem_paths.mpr (by rw [found]; rfl),?_⟩,rfl⟩
    rw [found]
    exact selected

theorem findAll_places (s : Selector) (here : tree.at? path = some p) :
    (s.findAll p).1.map some = (s.placesBelow path p).map tree.at? := by
  have visited : (s.findAll p).1.map some = (p.preorder.map some).filter fun found => found.any s.selects := by
    rw [findAll,among_found,List.filter_map]
    rfl
  rw [visited,Position.preorder_paths,List.filter_map,placesBelow,List.map_map]
  exact List.map_congr_left fun rest _ => (Tree.at?_below here rest).symm

-- The found nodes are given by their index paths in the whole tree, in
-- lexicographic order, which is preorder.
theorem findAll_exact (s : Selector) {start : Position} (here : tree.at? path = some start) :
    ∃ places : List (List Nat),places.Pairwise (List.Lex (· < ·)) ∧
      (∀ place,place ∈ places ↔ place ∈ tree.root.paths ∧ path <+: place ∧ s.Holds tree place) ∧
      (s.findAll start).1.map some = places.map tree.at? ∧
      (s.find start).1 = (s.findAll start).1.head? :=
  ⟨s.placesBelow path start,s.placesBelow_ordered path start,fun _ => s.mem_placesBelow here,s.findAll_places here,
    s.find_eq_head start⟩

theorem findAll_family : ∃ start,∃ places : List (List Nat),Tree.family.at? [0] = some start ∧
    (leaf.findAll start).1.map some = places.map Tree.family.at? ∧
    [0,0] ∈ places ∧ [0] ∉ places ∧ [1] ∉ places := by
  have here : Tree.family.at? [0] = some ⟨.mk 1 "x" .empty [.mk 0 "y" .empty []],[Tree.family.root]⟩ := rfl
  obtain ⟨places,_,exact,found,_⟩ := findAll_exact leaf here
  refine ⟨_,places,here,found,(exact _).mpr ⟨by decide,by decide,?_⟩,?_,?_⟩
  · show ∀ beyond ∈ Tree.family.root.paths,[0,0] <+: beyond → beyond = [0,0]
    decide
  · intro member
    have last : ∀ beyond ∈ Tree.family.root.paths,[0] <+: beyond → beyond = [0] := ((exact _).mp member).2.2
    revert last
    decide
  · intro member
    have below := ((exact _).mp member).2.1
    revert below
    decide

end Selector
end SharedTree
