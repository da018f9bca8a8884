import Mathlib.Data.List.Basic
import SharedTree.Proofs.Path.Meaning
import SharedTree.Proofs.Tree.Paths
import SharedTree.Selector.Find

namespace SharedTree
namespace Position

def chainFrom (start p : Position) : List Node := p.chain.drop start.depth

theorem chainFrom_at? {start p : Position} {path : List Nat} (found : start.at? path = some p) :
    start.chainFrom p = start.node.along path := by
  rw [chainFrom,chain_at? found,depth,← List.length_reverse,List.drop_left]

theorem chainFrom_self (p : Position) : p.chainFrom p = [p.node] := by
  have found : p.at? [] = some p := rfl
  exact chainFrom_at? found

theorem chainFrom_under {p q : Position} {child : Node} (below : q ∈ (p.under child).preorder) :
    p.chainFrom q = p.node :: (p.under child).chainFrom q := by
  obtain ⟨path,found⟩ := mem_preorder.mp below
  rw [chainFrom_at? found,chainFrom,chain_at? found]
  simp [under,depth]

theorem chainFrom_root {start p : Position} (root : start.isRoot = true) : start.chainFrom p = p.chain := by
  have top : start.above = [] := by simpa [isRoot] using root
  simp [chainFrom,depth,top]

end Position

namespace PathExpr

theorem search_nil (e : PathExpr) : e.search ⟨[]⟩ = [] := by rw [search]

def later (p : Position) (marks : Marks) : List (Position × Marks) :=
  if Marks.unfinished marks then p.children.map (·,marks) else []

theorem search_skipped {e : PathExpr} (skipped : e.advance? above p.node = none) :
    e.search ⟨(p,above) :: rest⟩ = e.search ⟨rest⟩ := by
  rw [search,skipped]

theorem search_visited {e : PathExpr} (visited : e.advance? above p.node = some marks) :
    e.search ⟨(p,above) :: rest⟩ =
      (if Marks.complete marks then [p] else []) ++ e.search ⟨later p marks ++ rest⟩ := by
  rw [search,visited,later]
  by_cases complete : Marks.complete marks = true <;> by_cases unfinished : Marks.unfinished marks = true <;>
    simp [complete,unfinished]

theorem weight_later (p : Position) (above marks : Marks) (rest : List (Position × Marks)) :
    (⟨later p marks ++ rest⟩ : Search).weight < (⟨(p,above) :: rest⟩ : Search).weight := by
  rw [Search.weight_cons,later]
  split
  · rw [Search.weight_children]; omega
  · rw [List.nil_append]; omega

theorem search_append (e : PathExpr) (first rest : List (Position × Marks)) :
    e.search ⟨first ++ rest⟩ = e.search ⟨first⟩ ++ e.search ⟨rest⟩ := by
  induction measured : (⟨first⟩ : Search).weight using Nat.strongRecOn generalizing first with
  | ind size ih =>
      match first with
      | [] => rw [search_nil]; rfl
      | (p,above) :: first =>
          cases step : e.advance? above p.node with
          | none =>
              have lighter : (⟨first⟩ : Search).weight < size := by rw [← measured,Search.weight_cons]; omega
              rw [List.cons_append,search_skipped step,search_skipped step]
              exact ih _ lighter _ rfl
          | some marks =>
              have lighter := weight_later p above marks first
              rw [measured] at lighter
              rw [List.cons_append,search_visited step,search_visited step,← List.append_assoc (later p marks),
                ih _ lighter _ rfl,List.append_assoc]

theorem search_eq (e : PathExpr) (marks : Marks) (ps : List Position) :
    e.search ⟨ps.map (·,marks)⟩ = ps.flatMap fun p => e.search ⟨[(p,marks)]⟩ := by
  induction ps with
  | nil => exact search_nil e
  | cons p ps ih => rw [List.map_cons,← List.singleton_append,search_append,ih]; rfl

theorem consume_finished {segments : List Segment} (fits : Path.Fits segments marks) (finished : Marks.unfinished marks = false) :
    Marks.any (Marks.consume name false segments marks) = false := by
  induction segments generalizing marks with
  | nil => cases marks <;> rfl
  | cons segment segments ih =>
      match marks with
      | [] | [_] => simp [Path.Fits] at fits
      | live :: next :: marks =>
          obtain ⟨rfl,rest⟩ : live = false ∧ Marks.unfinished (next :: marks) = false := by
            simpa [Marks.unfinished,Marks.any] using finished
          have others := ih (by simpa [Path.Fits] using fits) rest
          simpa [Marks.consume,Marks.any] using others

theorem advance?_finished {e : PathExpr} (fits : Path.Fits e.segments marks)
    (finished : Marks.unfinished marks = false) : e.advance? marks n = none := by
  rw [advance?]
  simp [consume_finished fits finished]

theorem advance?_fits {e : PathExpr} (fits : Path.Fits e.segments above) (step : e.advance? above n = some marks) :
    Path.Fits e.segments marks := by
  unfold advance? at step
  dsimp only at step
  split at step
  · cases Option.some.inj step
    exact (Path.settle_length _ _ _).trans (Path.consume_length fits)
  · cases step

theorem acceptsFrom_skipped {e : PathExpr} (skipped : e.advance? marks n = none) :
    e.acceptsFrom marks (n :: chain) = false := by
  rw [acceptsFrom,skipped]

theorem acceptsFrom_visited {e : PathExpr} (visited : e.advance? above n = some marks) :
    e.acceptsFrom above (n :: chain) = e.acceptsFrom marks chain := by
  rw [acceptsFrom,visited]

theorem filter_skipped {e : PathExpr} {p : Position} (skipped : e.advance? above p.node = none) :
    (p.preorder.filter fun q => e.acceptsFrom above (p.chainFrom q)) = [] := by
  rw [List.filter_eq_nil_iff]
  intro q below
  obtain ⟨path,found⟩ := Position.mem_preorder.mp below
  rw [Position.chainFrom_at? found]
  cases path <;> simp [Node.along,acceptsFrom_skipped skipped]

theorem filter_visited {e : PathExpr} {p : Position} (visited : e.advance? above p.node = some marks) :
    (p.preorder.filter fun q => e.acceptsFrom above (p.chainFrom q)) =
      (if Marks.complete marks then [p] else []) ++
        p.children.flatMap fun child => child.preorder.filter fun q => e.acceptsFrom marks (child.chainFrom q) := by
  have self : e.acceptsFrom above (p.chainFrom p) = Marks.complete marks := by
    rw [Position.chainFrom_self,acceptsFrom_visited visited]
    rfl
  have below : ((p.children.flatMap Position.preorder).filter fun q => e.acceptsFrom above (p.chainFrom q)) =
      p.children.flatMap fun child => child.preorder.filter fun q => e.acceptsFrom marks (child.chainFrom q) := by
    rw [List.filter_flatMap]
    refine List.flatMap_congr fun child member => List.filter_congr fun q inside => ?_
    obtain ⟨n,_,rfl⟩ := List.mem_map.mp member
    rw [Position.chainFrom_under inside,acceptsFrom_visited visited]
  rw [Position.preorder_eq,List.filter_cons,self,below]
  split <;> rfl

-- The invariant of the search: an entry stands for the nodes below it whose
-- chain is accepted from the marks it carries.
theorem search_exact {e : PathExpr} (fits : Path.Fits e.segments marks) (p : Position) :
    e.search ⟨[(p,marks)]⟩ = p.preorder.filter fun q => e.acceptsFrom marks (p.chainFrom q) := by
  obtain ⟨n,above⟩ := p
  induction n using Node.children_induction generalizing above marks with
  | step n ih =>
      cases step : e.advance? marks n with
      | none =>
          rw [search_skipped step,search_nil]
          exact (filter_skipped (p := ⟨n,above⟩) step).symm
      | some next =>
          have fitsNext := advance?_fits fits step
          rw [search_visited step,List.append_nil,filter_visited (p := ⟨n,above⟩) step,later]
          congr 1
          split
          · rw [search_eq]
            refine List.flatMap_congr fun child member => ?_
            obtain ⟨m,inside,rfl⟩ := List.mem_map.mp member
            exact ih m inside fitsNext _
          · rename_i finished
            rw [search_nil]
            refine (List.flatMap_eq_nil_iff.mpr fun child member => ?_).symm
            exact filter_skipped (advance?_finished fitsNext (by simpa using finished))

theorem evaluate_eq (e : PathExpr) (start : Position) :
    e.evaluate start = start.preorder.filter fun p => e.accepts (start.chainFrom p) :=
  search_exact ((Path.settle_length _ _ _).trans (Path.fits_start _)) start

theorem evaluate_root (e : PathExpr) {start : Position} (root : start.isRoot = true) :
    e.evaluate start = start.preorder.filter e.selects := by
  rw [evaluate_eq]
  exact List.filter_congr fun p _ => by rw [Position.chainFrom_root root]; rfl

theorem evaluate_paths (e : PathExpr) (start : Position) :
    (e.evaluate start).map some =
      (start.node.paths.filter fun path => e.accepts (start.node.along path)).map start.at? := by
  have chains : ∀ path ∈ start.node.paths,
      (start.at? path).any (fun p => e.accepts (start.chainFrom p)) = e.accepts (start.node.along path) := by
    intro path inside
    obtain ⟨p,found⟩ := Option.isSome_iff_exists.mp (Position.mem_paths.mp inside)
    rw [found,Option.any_some,Position.chainFrom_at? found]
  rw [evaluate_eq,← List.filter_congr chains]
  have kept : (start.preorder.filter fun p => e.accepts (start.chainFrom p)).map some =
      (start.preorder.map some).filter fun found => found.any fun p => e.accepts (start.chainFrom p) := by
    rw [List.filter_map]
    rfl
  rw [kept,Position.preorder_paths,List.filter_map]
  rfl

-- From a start node on: the accepted index paths in lexicographic order, which
-- is preorder. From the root: the preorder filtered by the test of one node.
theorem evaluate_exact (e : PathExpr) (start : Position) (tree : Tree) :
    (∃ places : List (List Nat),places.Pairwise (List.Lex (· < ·)) ∧
      (∀ path,path ∈ places ↔ (start.at? path).isSome = true ∧ e.accepts (start.node.along path) = true) ∧
      (e.evaluate start).map some = places.map start.at?) ∧
    e.evaluate tree.top = tree.top.preorder.filter e.selects ∧
    e.evaluate tree.top = ((Selector.path e).findAll tree.top).1 := by
  refine ⟨⟨_,start.node.paths_ordered.filter _,?_,evaluate_paths e start⟩,evaluate_root e rfl,?_⟩
  · intro path
    rw [List.mem_filter,Position.mem_paths]
  · rw [Selector.findAll,Selector.among_found]
    exact evaluate_root e rfl

end PathExpr
end SharedTree
