import SharedTree.Proofs.Node.Equal

namespace SharedTree
namespace Node

-- Two nodes hold the same: one name, under every key equal values or none on either side,
-- and as many children, which hold the same one by one. Nothing asks for a number.
inductive Plain : Node → Node → Prop where
  | intro (names : n.name = m.name)
      (attributes : ∀ key,Option.Rel (fun v w => v.same w = true) (n.attribute? key) (m.attribute? key))
      (children : List.Forall₂ Plain n.children m.children) : Plain n m

variable {n m a b x y : Node} {held : List Node} {next : Nat}

theorem plain_iff : Plain n m ↔ n.name = m.name ∧
    (∀ key,Option.Rel (fun v w => v.same w = true) (n.attribute? key) (m.attribute? key)) ∧
      List.Forall₂ Plain n.children m.children := by
  constructor
  · intro plain
    cases plain with
    | intro names attributes children => exact ⟨names,attributes,children⟩
  · rintro ⟨names,attributes,children⟩
    exact .intro names attributes children

theorem plain_equal : Plain n m ↔ Equal n m := by
  induction n using children_induction generalizing m with
  | step n ih =>
      rw [plain_iff,equal_iff]
      exact and_congr_right fun _ => and_congr Table.agrees_keys.symm (all_alike fun child member _ _ => ih child member)

theorem Memory.same_equal (memory : Memory next held) (first : a ∈ subtreeAll held) (second : b ∈ subtreeAll held) :
    a.same b = true ↔ Equal a b := by
  rw [memory.same_outline first second]
  rfl

theorem equal_either (first : Equal x a) (second : Equal y b) : Equal x y ↔ Equal a b :=
  ⟨fun equal => equal_trans (equal_symm first) (equal_trans equal second),
    fun equal => equal_trans first (equal_trans equal (equal_symm second))⟩

-- Equality at hand is the plain comparison: it is an equivalence, and neither the numbers
-- nor the sharing on either side have a say in it, here or in any other memory.
theorem Memory.same_plain (memory : Memory next held) :
    (∀ a ∈ subtreeAll held,∀ b ∈ subtreeAll held,a.same b = a.outline.same b.outline ∧ (a.same b = true ↔ Plain a b)) ∧
    Equivalence (fun a b : { n // n ∈ subtreeAll held } => a.1.same b.1 = true) ∧
    (∀ start others,Memory start others → ∀ a ∈ subtreeAll held,∀ b ∈ subtreeAll held,∀ x ∈ subtreeAll others,
      ∀ y ∈ subtreeAll others,Plain x a → Plain y b → x.same y = a.same b) ∧
    ∀ s t : Tree,s.root ∈ subtreeAll held → t.root ∈ subtreeAll held → (s.same t = true ↔ Plain s.root t.root) := by
  have equal : ∀ a ∈ subtreeAll held,∀ b ∈ subtreeAll held,(a.same b = true ↔ Plain a b) := fun a first b second =>
    (memory.same_equal first second).trans plain_equal.symm
  refine ⟨fun a first b second => ⟨memory.same_outline first second,equal a first b second⟩,⟨?_,?_,?_⟩,?_,?_⟩
  · intro a
    exact (memory.same_equal a.2 a.2).mpr (equal_self a.1)
  · intro a b same
    exact (memory.same_equal b.2 a.2).mpr (equal_symm ((memory.same_equal a.2 b.2).mp same))
  · intro a b c first second
    exact (memory.same_equal a.2 c.2).mpr
      (equal_trans ((memory.same_equal a.2 b.2).mp first) ((memory.same_equal b.2 c.2).mp second))
  · intro start others apart a first b second x inside y among like alike
    rw [Bool.eq_iff_iff,apart.same_equal inside among,memory.same_equal first second]
    exact equal_either (plain_equal.mp like) (plain_equal.mp alike)
  · intro s t first second
    exact equal s.root first t.root second

-- Two leaves whose attributes stand in another order, and two nodes over them: the first
-- has one leaf twice, the second has both.
def early : Node := .mk 0 "x" (.ofList [("k",.int 1),("l",.null)]) []
def late : Node := .mk 1 "x" (.ofList [("l",.null),("k",.int 1)]) []
def twice : Node := .mk 2 "p" .empty [early,early]
def paired : Node := .mk 3 "p" .empty [early,late]

theorem Memory.same_plain_twice : Memory 4 [paired,twice,late,early] ∧
    twice.same paired = true ∧ Plain twice paired ∧ paired.same twice = true := by
  have nothing : Memory 0 [] := ⟨List.forall_mem_nil _,List.forall_mem_nil _⟩
  have first : Memory 1 [early] := nothing.make (List.forall_mem_nil _) _ _
  have second : Memory 2 [late,early] := first.make (List.forall_mem_nil _) _ _
  have one (more : List Node) : early ∈ subtreeAll (more ++ [late,early]) := reach_after (reach_held (.tail _ (.head _))) more
  have two (more : List Node) : late ∈ subtreeAll (more ++ [late,early]) := reach_after (reach_held (.head _)) more
  have third : Memory 3 [twice,late,early] :=
    second.make (List.forall_mem_cons.mpr ⟨one [],List.forall_mem_singleton.mpr (one [])⟩) _ _
  have memory : Memory 4 [paired,twice,late,early] :=
    third.make (List.forall_mem_cons.mpr ⟨one [twice],List.forall_mem_singleton.mpr (two [twice])⟩) _ _
  have left : twice ∈ subtreeAll [paired,twice,late,early] := reach_held (.tail _ (.head _))
  have right : paired ∈ subtreeAll [paired,twice,late,early] := reach_held (.head _)
  have same : twice.same paired = true := by decide
  obtain ⟨plain,equivalence,_⟩ := memory.same_plain
  exact ⟨memory,same,(plain _ left _ right).2.mp same,equivalence.symm (x := ⟨_,left⟩) (y := ⟨_,right⟩) same⟩

end Node
end SharedTree
