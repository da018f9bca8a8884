import Mathlib.Data.Finset.Card
import SharedTree.Proofs.Tree.Standing

namespace SharedTree
namespace Node

def StandsOnce (root : Node) : Prop :=
  ∀ path other n m,root.follow? path = some n → root.follow? other = some m → n.is m = true → path = other

def different (root : Node) : Nat := (root.subtree.map serial).toFinset.card

theorem subtree_paths (n : Node) : n.subtree.map some = n.paths.map n.follow? := by
  have nodes := congrArg (List.map some) (Position.preorder_nodes ⟨n,[]⟩)
  have visited := congrArg (List.map (Option.map Position.node)) (Position.preorder_paths ⟨n,[]⟩)
  rw [List.map_map,List.map_map] at visited
  rw [List.map_map] at nodes
  refine nodes.symm.trans (visited.trans (List.map_congr_left fun path _ => ?_))
  exact (Position.follow?_eq ⟨n,[]⟩ path).symm

theorem serials_paths (n : Node) : (n.subtree.map serial).map some = n.paths.map fun path => (n.follow? path).map serial := by
  have nodes := congrArg (List.map (Option.map serial)) n.subtree_paths
  rw [List.map_map,List.map_map] at nodes
  rw [List.map_map]
  exact nodes

theorem distinct_iff_once {root : Node} : root.Distinct ↔ root.StandsOnce := by
  constructor
  · intro distinct path other n m first second same
    have one := (Position.follow?_eq ⟨root,[]⟩ path).symm.trans first
    have two := (Position.follow?_eq ⟨root,[]⟩ other).symm.trans second
    obtain ⟨p,here,rfl⟩ := Option.map_eq_some_iff.mp one
    obtain ⟨q,there,rfl⟩ := Option.map_eq_some_iff.mp two
    exact Position.path_unique distinct here there (beq_iff_eq.mp same)
  · intro once
    have nodup : ((root.subtree.map serial).map some).Nodup := by
      rw [serials_paths]
      refine root.paths_nodup.map_on fun path inside other besides same => ?_
      obtain ⟨n,found⟩ := Option.isSome_iff_exists.mp (Position.mem_paths (p := ⟨root,[]⟩).mp inside)
      obtain ⟨m,again⟩ := Option.isSome_iff_exists.mp (Position.mem_paths (p := ⟨root,[]⟩).mp besides)
      have first : root.follow? path = some n.node := by rw [Position.follow?_eq ⟨root,[]⟩,found]; rfl
      have second : root.follow? other = some m.node := by rw [Position.follow?_eq ⟨root,[]⟩,again]; rfl
      rw [first,second] at same
      exact once path other n.node m.node first second (beq_iff_eq.mpr (Option.some.inj same))
    exact List.Nodup.of_map _ nodup

theorem two_places {root : Node} (twice : 2 ≤ (root.subtree.map serial).count number) :
    ∃ path other,path ≠ other ∧ (root.follow? path).map serial = some number ∧ (root.follow? other).map serial = some number := by
  have counted : (root.paths.filter fun path => (root.follow? path).map serial == some number).length =
      (root.subtree.map serial).count number := by
    rw [← List.count_map_of_injective _ some (Option.some_injective _),serials_paths,List.count_eq_countP,List.countP_map,
      List.countP_eq_length_filter]
    rfl
  have apart := root.paths_nodup.filter fun path => (root.follow? path).map serial == some number
  rw [← counted] at twice
  match split : root.paths.filter fun path => (root.follow? path).map serial == some number with
  | [] | [_] =>
      rw [split] at twice
      simp at twice
  | path :: other :: rest =>
      rw [split] at apart
      have meets : ∀ place ∈ path :: other :: rest,(root.follow? place).map serial = some number := by
        intro place member
        rw [← split] at member
        exact beq_iff_eq.mp (List.mem_filter.mp member).2
      refine ⟨path,other,?_,meets path (.head _),meets other (.tail _ (.head _))⟩
      intro same
      exact (List.nodup_cons.mp apart).1 (same ▸ .head _)

theorem note_error {nodes : List Node} {seen : List Nat} (stopped : note seen nodes = .error child) :
    child ∈ nodes ∧ 2 ≤ (nodes.map serial ++ seen).count child.serial := by
  induction nodes generalizing seen with
  | nil => cases stopped
  | cons first nodes ih =>
      rw [note] at stopped
      split at stopped
      · rename_i again
        cases stopped
        have before : 1 ≤ seen.count child.serial := List.count_pos_iff.mpr (by simpa using again)
        rw [List.map_cons,List.cons_append,List.count_cons_self,List.count_append]
        exact ⟨.head _,by omega⟩
      · obtain ⟨member,twice⟩ := ih stopped
        rw [List.perm_middle.count_eq] at twice
        exact ⟨.tail _ member,twice⟩

theorem noteBelowAll_error {nodes : List Node} {seen : List Nat} {n : Node}
    (each : ∀ child ∈ nodes,∀ {seen : List Nat},noteBelow seen child = .error n → seen.Nodup →
      n ∈ child.subtree ∧ 2 ≤ (child.serialsBelow ++ seen).count n.serial)
    (stopped : noteBelowAll seen nodes = .error n) (start : seen.Nodup) :
    n ∈ subtreeAll nodes ∧ 2 ≤ (serialsBelowAll nodes ++ seen).count n.serial := by
  induction nodes with
  | nil => cases stopped
  | cons child nodes ih =>
      rw [noteBelowAll] at stopped
      rw [subtreeAll,serialsBelowAll,List.append_assoc,List.mem_append,List.count_append]
      split at stopped
      · rename_i other later
        cases stopped
        obtain ⟨inside,twice⟩ := ih (fun node member => each node (.tail _ member)) later
        exact ⟨.inr inside,by omega⟩
      · rename_i middle later
        obtain ⟨distinct,perm⟩ := noteBelowAll_nodup (fun node _ _ _ noted => noteBelow_nodup noted) later start
        obtain ⟨inside,twice⟩ := each child (.head _) stopped distinct
        rw [List.count_append,perm.count_eq] at twice
        exact ⟨.inl inside,twice⟩

theorem noteBelow_error {n child : Node} {seen : List Nat} (stopped : noteBelow seen n = .error child) (start : seen.Nodup) :
    child ∈ n.subtree ∧ 2 ≤ (n.serialsBelow ++ seen).count child.serial := by
  induction n using children_induction generalizing seen with
  | step n ih =>
      rw [noteBelow_eq] at stopped
      rw [serialsBelow_eq]
      cases first : note seen n.children with
      | error other =>
          rw [first] at stopped
          cases stopped
          obtain ⟨member,twice⟩ := note_error first
          rw [List.count_append] at twice
          rw [List.count_append,List.count_append]
          exact ⟨mem_subtree_child member,by omega⟩
      | ok middle =>
          rw [first] at stopped
          obtain ⟨distinct,perm⟩ := note_nodup first start
          obtain ⟨inside,twice⟩ := noteBelowAll_error ih stopped distinct
          rw [List.count_append,perm.count_eq,List.count_append] at twice
          rw [List.count_append,List.count_append]
          exact ⟨mem_subtree_all inside,by omega⟩

theorem repeated_twice {root child : Node} (found : root.repeated? = some child) :
    child ∈ root.subtree ∧ 2 ≤ (root.subtree.map serial).count child.serial := by
  rw [repeated?] at found
  split at found
  · rename_i node stopped
    cases found
    obtain ⟨inside,twice⟩ := noteBelow_error stopped .nil
    rw [List.append_nil] at twice
    rw [root.serials_below.count_eq,List.count_cons]
    exact ⟨inside,by omega⟩
  · cases found

end Node

namespace Survey

-- How the filling of an index comes to its end, and after how many turns.
inductive Ends : Survey → Nat → Except Node (List (Nat × Node)) → Prop where
  | done {parents : List (Nat × Node)} : Ends ⟨[],parents⟩ 0 (.ok parents)
  | stopped {parents : List (Nat × Node)} (refused : enroll n ⟨rest,parents⟩ n.children = .error child) :
      Ends ⟨n :: rest,parents⟩ 1 (.error child)
  | taken {parents : List (Nat × Node)} (enrolled : enroll n ⟨rest,parents⟩ n.children = .ok later)
      (ends : Ends later turns outcome) : Ends ⟨n :: rest,parents⟩ (turns + 1) outcome

variable {survey later : Survey} {n child : Node} {rest : List Node} {parents : List (Nat × Node)} {numbers : Finset Nat}

theorem ends_run (ends : Ends survey turns outcome) : survey.run = outcome := by
  induction ends with
  | done => rw [run]
  | stopped refused => exact run_stopped refused
  | taken enrolled _ ih => rw [run_taken enrolled,ih]

theorem exists_ends (survey : Survey) : ∃ turns,Ends survey turns survey.run := by
  induction survey using run.induct with
  | case1 parents =>
      rw [run]
      exact ⟨0,.done⟩
  | case2 n rest parents child refused =>
      rw [run_stopped refused]
      exact ⟨1,.stopped refused⟩
  | case3 n rest parents later enrolled ih =>
      obtain ⟨turns,ends⟩ := ih
      rw [run_taken enrolled]
      exact ⟨turns + 1,.taken enrolled ends⟩

-- Nothing is noted twice, and only what has one of the given numbers is noted, now or later.
structure Inside (numbers : Finset Nat) (survey : Survey) : Prop where
  once : (noted survey.parents).Nodup
  known : ∀ number ∈ noted survey.parents,number ∈ numbers
  pending : ∀ n ∈ survey.pending,∀ m ∈ Node.subtreeAll n.children,m.serial ∈ numbers

theorem enroll_inside (inside : Inside numbers ⟨n :: rest,parents⟩)
    (took : enroll n ⟨rest,parents⟩ n.children = .ok later) :
    Inside numbers later ∧ later.parents.length + rest.length = parents.length + later.pending.length := by
  obtain ⟨failed,passed⟩ := enroll_note n rest parents n.children
  cases first : Node.note (noted parents) n.children with
  | error child => cases took.symm.trans (failed child first)
  | ok seen =>
      obtain ⟨rfl,same⟩ := passed seen first
      cases took.symm.trans same
      obtain ⟨once,perm⟩ := Node.note_nodup first inside.once
      refine ⟨⟨once,?_,?_⟩,?_⟩
      · intro number member
        rcases List.mem_append.mp (perm.mem_iff.mp member) with own | before
        · obtain ⟨child,among,rfl⟩ := List.mem_map.mp own
          exact inside.pending n (.head _) child (Node.mem_subtreeAll.mpr ⟨child,among,child.mem_subtree_self⟩)
        · exact inside.known number before
      · intro m member k below
        rcases List.mem_append.mp member with own | before
        · have among : m ∈ n.children := List.mem_reverse.mp own
          exact inside.pending n (.head _) k (Node.mem_subtreeAll.mpr ⟨m,among,Node.mem_subtree_all below⟩)
        · exact inside.pending m (.tail _ before) k below
      · have grown := perm.length_eq
        rw [noted,List.length_map,List.length_append,List.length_append,List.length_map,noted,List.length_map] at grown
        show (enrolled n n.children ++ parents).length + rest.length = parents.length + (n.children.reverse ++ rest).length
        rw [List.length_append,grown,List.length_append,List.length_reverse]
        omega

theorem turns_bound (ends : Ends survey turns outcome) (inside : Inside numbers survey) :
    turns + survey.parents.length ≤ numbers.card + survey.pending.length := by
  have few : ∀ {survey : Survey},Inside numbers survey → survey.parents.length ≤ numbers.card := by
    intro survey inside
    have counted : (noted survey.parents).toFinset.card = survey.parents.length := by
      rw [List.toFinset_card_of_nodup inside.once,noted,List.length_map]
    rw [← counted]
    exact Finset.card_le_card fun number member => inside.known number (List.mem_toFinset.mp member)
  induction ends with
  | done =>
      rw [Nat.zero_add]
      exact few inside
  | stopped _ =>
      have bound := few inside
      simp only [List.length_cons] at bound ⊢
      omega
  | taken enrolled _ ih =>
      obtain ⟨within_,balance⟩ := enroll_inside inside enrolled
      have bound := ih within_
      simp only [List.length_cons] at bound ⊢
      omega

end Survey

namespace Node

theorem different_eq {root : Node} (apart : root.serial ∉ (subtreeAll root.children).map serial) :
    root.different = ((subtreeAll root.children).map serial).toFinset.card + 1 := by
  rw [different,subtree_eq,List.map_cons,List.toFinset_cons]
  exact Finset.card_insert_of_notMem fun member => apart (List.mem_toFinset.mp member)

theorem survey_turns {root : Node} (apart : root.serial ∉ (subtreeAll root.children).map serial)
    (ends : Survey.Ends (Survey.start root) turns outcome) : turns ≤ root.different := by
  have inside : Survey.Inside ((subtreeAll root.children).map serial).toFinset (Survey.start root) := by
    refine ⟨.nil,fun number member => (nomatch member),?_⟩
    intro n member m below
    cases List.mem_singleton.mp member
    exact List.mem_toFinset.mpr (List.mem_map_of_mem below)
  rw [different_eq apart]
  exact Survey.turns_bound ends inside

end Node

namespace Tree

variable {root : Node} {next : Nat} {held : List Node}

theorem ofRoot_some : (∃ tree,ofRoot root = .ok tree ∧ tree.root = root) ↔ root.repeated? = none := by
  constructor
  · intro made
    obtain ⟨tree,_,rfl⟩ := made
    exact tree.unshared
  · intro unshared
    exact ⟨⟨root,unshared⟩,ofRoot_own ⟨root,unshared⟩,rfl⟩

theorem ofRoot_once (memory : Node.Memory next held) (own : root ∈ held) :
    (∃ tree,ofRoot root = .ok tree ∧ tree.root = root) ↔ root.StandsOnce := by
  rw [← Node.distinct_iff_once]
  constructor
  · intro made
    obtain ⟨tree,_,rfl⟩ := made
    exact tree.distinct memory own
  · intro distinct
    exact ofRoot_some.mpr (Node.unrepeated_of_distinct distinct)

theorem ofRoot_twice (memory : Node.Memory next held) (own : root ∈ held) (refused : ofRoot root = .error error) :
    ∃ child path other,error = .duplicateParent child.name ∧ path ≠ other ∧
      root.follow? path = some child ∧ root.follow? other = some child := by
  obtain ⟨child,stopped,rfl⟩ := ofRoot_error.mp refused
  obtain ⟨inside,twice⟩ := Node.repeated_twice (Survey.run_error.mp stopped)
  obtain ⟨path,other,apart,first,second⟩ := Node.two_places twice
  have itself : ∀ place,(root.follow? place).map Node.serial = some child.serial → root.follow? place = some child := by
    intro place met
    obtain ⟨n,found,same⟩ := Option.map_eq_some_iff.mp met
    rw [Position.follow?_eq ⟨root,[]⟩] at found
    obtain ⟨p,there,rfl⟩ := Option.map_eq_some_iff.mp found
    have reached : p.node ∈ root.subtree := Position.node_mem_subtree there
    have known : ∀ {m : Node},m ∈ root.subtree → m ∈ Node.subtreeAll held := fun below =>
      Node.mem_subtreeAll.mpr ⟨root,own,below⟩
    rw [Position.follow?_eq ⟨root,[]⟩,there,← memory.single p.node (known reached) child (known inside) same]
    rfl
  exact ⟨child,path,other,rfl,apart,itself path first,itself other second⟩

theorem ofRoot_exact (memory : Node.Memory next held) (own : root ∈ held) :
    ((∃ tree,ofRoot root = .ok tree ∧ tree.root = root) ↔ root.StandsOnce) ∧
    (∀ error,ofRoot root = .error error → ∃ child path other,error = .duplicateParent child.name ∧ path ≠ other ∧
      root.follow? path = some child ∧ root.follow? other = some child) ∧
    ∃ turns outcome,Survey.Ends (Survey.start root) turns outcome ∧ turns ≤ root.different ∧
      (∀ error,ofRoot root = .error error ↔ ∃ child,outcome = .error child ∧ error = .duplicateParent child.name) ∧
      ∀ tree,ofRoot root = .ok tree →
        ∃ parents,outcome = .ok parents ∧ ∀ node,tree.parentOf? node = parents.lookup node.serial := by
  refine ⟨ofRoot_once memory own,fun error refused => ofRoot_twice memory own refused,?_⟩
  obtain ⟨turns,ends⟩ := Survey.exists_ends (Survey.start root)
  refine ⟨turns,_,ends,Node.survey_turns (memory.apart own) ends,fun error => ofRoot_error,?_⟩
  intro tree made
  cases ofRoot_root made
  obtain ⟨parents,filled,_,index⟩ := tree.surveyed
  exact ⟨parents,filled,index⟩

end Tree

namespace Node

-- One more node for each level, and twice as many places.
def doubled : Nat → Node
  | 0 => .mk 0 "leaf" .empty []
  | level + 1 => .mk (level + 1) "fork" .empty [doubled level,doubled level]

theorem doubled_serial (level : Nat) : (doubled level).serial = level := by
  cases level <;> rfl

theorem doubled_size (level : Nat) : (doubled level).size + 1 = twoTo (level + 1) := by
  induction level with
  | zero => rfl
  | succ level ih =>
      rw [twoTo_succ,← ih,doubled,size,sizeAll,sizeAll,sizeAll]
      omega

theorem mem_doubled {level : Nat} {n : Node} : n ∈ (doubled level).subtree ↔ ∃ below,below ≤ level ∧ n = doubled below := by
  induction level with
  | zero =>
      rw [doubled,subtree,subtreeAll,List.mem_singleton]
      constructor
      · rintro rfl
        exact ⟨0,Nat.le_refl _,rfl⟩
      · rintro ⟨below,bound,rfl⟩
        rw [Nat.le_zero.mp bound]
        rfl
  | succ level ih =>
      rw [subtree_eq,List.mem_cons,doubled,children_mk,subtreeAll,subtreeAll,subtreeAll,List.append_nil,List.mem_append,
        or_self,ih]
      constructor
      · rintro (rfl | ⟨below,bound,rfl⟩)
        · exact ⟨level + 1,Nat.le_refl _,rfl⟩
        · exact ⟨below,Nat.le_succ_of_le bound,rfl⟩
      · rintro ⟨below,bound,rfl⟩
        rcases Nat.le_succ_iff.mp bound with lower | rfl
        · exact .inr ⟨below,lower,rfl⟩
        · exact .inl rfl

theorem doubled_memory (level : Nat) : Memory (level + 1) [doubled level] := by
  have known : ∀ {n : Node},n ∈ subtreeAll [doubled level] → ∃ below,below ≤ level ∧ n = doubled below := by
    intro n member
    rw [subtreeAll_singleton] at member
    exact mem_doubled.mp member
  constructor
  · intro n member
    obtain ⟨below,bound,rfl⟩ := known member
    rw [doubled_serial]
    exact Nat.lt_succ_of_le bound
  · intro n first m second same
    obtain ⟨below,_,rfl⟩ := known first
    obtain ⟨other,_,rfl⟩ := known second
    rw [doubled_serial,doubled_serial] at same
    rw [same]

theorem doubled_different (level : Nat) : (doubled level).different = level + 1 := by
  have numbers : ((doubled level).subtree.map serial).toFinset = Finset.range (level + 1) := by
    ext number
    rw [List.mem_toFinset,List.mem_map,Finset.mem_range]
    constructor
    · rintro ⟨n,member,rfl⟩
      obtain ⟨below,bound,rfl⟩ := mem_doubled.mp member
      rw [doubled_serial]
      exact Nat.lt_succ_of_le bound
    · intro bound
      exact ⟨doubled number,mem_doubled.mpr ⟨number,Nat.le_of_lt_succ bound,rfl⟩,doubled_serial number⟩
  rw [different,numbers,Finset.card_range]

theorem doubled_shared (level : Nat) : ¬ (doubled (level + 1)).StandsOnce := by
  intro once
  cases once [0] [1] (doubled level) (doubled level) rfl rfl (beq_self_eq_true _)

end Node

namespace Tree

-- Sixty-four nodes with almost as many places as a word has values.
theorem ofRoot_doubled : Node.Memory 64 [Node.doubled 63] ∧ (Node.doubled 63).size + 1 = twoTo 64 ∧
    (∃ child path other,ofRoot (Node.doubled 63) = .error (.duplicateParent child.name) ∧ path ≠ other ∧
      (Node.doubled 63).follow? path = some child ∧ (Node.doubled 63).follow? other = some child) ∧
    ∃ turns outcome,Survey.Ends (Survey.start (Node.doubled 63)) turns outcome ∧ turns ≤ 64 := by
  have memory := Node.doubled_memory 63
  obtain ⟨once,twice,turns,outcome,ends,bound,_⟩ := ofRoot_exact memory (List.mem_singleton.mpr rfl)
  rw [Node.doubled_different] at bound
  refine ⟨memory,Node.doubled_size 63,?_,turns,outcome,ends,bound⟩
  cases made : ofRoot (Node.doubled 63) with
  | error error =>
      obtain ⟨child,path,other,rfl,places⟩ := twice error made
      exact ⟨child,path,other,rfl,places⟩
  | ok tree => exact absurd (once.mp ⟨tree,made,ofRoot_root made⟩) (Node.doubled_shared 62)

end Tree
end SharedTree
