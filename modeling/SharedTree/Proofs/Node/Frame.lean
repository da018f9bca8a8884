import Mathlib.Data.Multiset.Defs
import SharedTree.Proofs.Node.Equal
import SharedTree.Proofs.Node.Update

namespace SharedTree.Node

variable {n m old new : Node} {path other : List Nat}

def shell (n : Node) : String × Multiset (String × Value) × Nat := (n.name,n.attributes.standard,n.children.length)

theorem shell_eq : n.shell = m.shell ↔ n.name = m.name ∧ Attributes.same n.attributes m.attributes = true ∧
    n.children.length = m.children.length := by
  rw [shell,shell,Prod.mk.injEq,Prod.mk.injEq,Multiset.coe_eq_coe,Attributes.same_perm]

theorem shells_of_equal (same : Equal n m) (path : List Nat) : (n.at? path).map shell = (m.at? path).map shell := by
  induction path generalizing n m with
  | nil =>
      obtain ⟨names,attributes,children⟩ := equal_iff.mp same
      exact congrArg some (shell_eq.mpr ⟨names,attributes,children.length_eq⟩)
  | cons index path ih =>
      rw [at?,at?]
      rcases equals_at (equal_iff.mp same).2.2 index with ⟨first,second⟩ | ⟨a,b,first,second,equal⟩
      · rw [child?,child?,first,second]
      · rw [child?,child?,first,second]
        exact ih equal

theorem equal_of_shells (shells : ∀ path,(n.at? path).map shell = (m.at? path).map shell) : Equal n m := by
  induction n using children_induction generalizing m with
  | step n ih =>
      obtain ⟨names,attributes,length⟩ := shell_eq.mp (Option.some.inj (shells []))
      refine equal_iff.mpr ⟨names,attributes,List.forall₂_iff_get.mpr ⟨length,fun index first second => ?_⟩⟩
      have one : n.child? index = some (n.children.get ⟨index,first⟩) := List.getElem?_eq_getElem first
      have two : m.child? index = some (m.children.get ⟨index,second⟩) := List.getElem?_eq_getElem second
      refine ih _ (List.get_mem _ _) fun path => ?_
      have below := shells (index :: path)
      rwa [at?_child one,at?_child two] at below

theorem equal_around (each : ∀ path,(n.at? path).map shell = (m.at? path).map shell ∨
      ∃ before a b,before <+: path ∧ n.at? before = some a ∧ m.at? before = some b ∧ Equal a b) : Equal n m := by
  refine equal_of_shells fun path => ?_
  rcases each path with same | ⟨before,a,b,⟨rest,rfl⟩,first,second,equal⟩
  · exact same
  · rw [at?_append,at?_append,first,second]
    exact shells_of_equal equal rest

-- `m` is `n` with `new` at the path. The nodes on the way there were made anew under numbers
-- from `first` on; a place beside the path has the very node it had, if any.
structure Replaced (first : Nat) (path : List Nat) (new n m : Node) : Prop where
  here : m.at? path = some new
  onway : ∀ before,before <+: path → before ≠ path → ∃ a b,n.at? before = some a ∧ m.at? before = some b ∧
    b.name = a.name ∧ b.attributes = a.attributes ∧ b.children.length = a.children.length ∧ first ≤ b.serial
  beside : ∀ other,¬ path <+: other → ¬ other <+: path → m.at? other = n.at? other

theorem replaced_root (first : Nat) (new n : Node) : Replaced first [] new n new where
  here := rfl
  onway _ shorter proper := absurd (List.prefix_nil.mp shorter) proper
  beside _ apart _ := absurd List.nil_prefix apart

theorem Replaced.below {first : Nat} {child changed : Node} (replaced : Replaced first path new child changed)
    (here : n.child? index = some child) (refilled : Refilled (n.children.set index changed) n m)
    (fresh : first ≤ m.serial) : Replaced first (index :: path) new n m := by
  have bound : index < n.children.length := (List.getElem?_eq_some_iff.mp here).1
  have there : m.child? index = some changed := by
    rw [child?,refilled.children]
    exact List.getElem?_set_self bound
  have others : ∀ place,place ≠ index → m.child? place = n.child? place := by
    intro place other
    rw [child?,refilled.children]
    exact List.getElem?_set_ne other.symm
  refine ⟨(at?_child there path).trans replaced.here,?_,?_⟩
  · intro before shorter proper
    cases before with
    | nil =>
        have length : m.children.length = n.children.length := by rw [refilled.children,List.length_set]
        exact ⟨n,m,rfl,rfl,refilled.name,refilled.attributes,length,fresh⟩
    | cons place before =>
        obtain ⟨rfl,inside⟩ := List.cons_prefix_cons.mp shorter
        rw [at?_child here,at?_child there]
        exact replaced.onway before inside fun same => proper (same ▸ rfl)
  -- Another child is the very node it was; in this one the place is beside the rest of the path.
  · intro other apart away
    cases other with
    | nil => exact absurd List.nil_prefix away
    | cons place other =>
        by_cases same : place = index
        · subst same
          rw [List.cons_prefix_cons,not_and] at apart away
          rw [at?_child here,at?_child there]
          exact replaced.beside other (apart rfl) (away rfl)
        · rw [at?,at?,others place same]

theorem updateAt?_replaced (change : Node → Fresh Node) (next : Nat) (found : n.at? path = some old) :
    ∃ m,(updateAt? change path n).run next = (some m,((change old).run next).2 + path.length) ∧
      Replaced ((change old).run next).2 path ((change old).run next).1 n m := by
  induction path generalizing n with
  | nil =>
      cases Option.some.inj found
      refine ⟨_,?_,replaced_root _ _ _⟩
      rw [updateAt?_root,map_eq_pure_bind,StateT.run_bind]
      rfl
  | cons index path ih =>
      obtain ⟨child,here,later⟩ := at?_cons.mp found
      obtain ⟨changed,ran,replaced⟩ := ih later
      refine ⟨_,updateAt?_below here ran,replaced.below here ⟨rfl,rfl,rfl⟩ ?_⟩
      exact Nat.le_add_right _ path.length

theorem Replaced.shells {first : Nat} (replaced : Replaced first path new n m) (outside : ¬ path <+: other) :
    (m.at? other).map shell = (n.at? other).map shell := by
  by_cases above : other <+: path
  · have proper : other ≠ path := fun same => outside (same ▸ List.prefix_rfl)
    obtain ⟨a,b,before,after,name,attributes,length,_⟩ := replaced.onway other above proper
    rw [before,after]
    refine congrArg some (shell_eq.mpr ⟨name,?_,length⟩)
    rw [attributes]
    exact Attributes.same_self _
  · rw [replaced.beside other outside above]

def updateBoth? (first : Node → Fresh Node) (path : List Nat) (second : Node → Fresh Node) (other : List Nat) (n : Node) :
    Fresh (Option Node) := do
  match ← updateAt? first path n with
  | none => pure none
  | some m => updateAt? second other m

-- A change that is a function of the node: what its answer holds does not depend on the
-- numbers that are free.
def Steady (change : Node → Fresh Node) : Prop := ∀ n next start,Equal ((change n).run next).1 ((change n).run start).1

theorem steady_pure (change : Node → Node) : Steady fun n => pure (change n) := fun n _ _ => equal_self (change n)

theorem steady_edits (edits : List Edit) : Steady (Edit.run edits) := fun n next start =>
  Edit.run_equal edits (equal_self n) next start

variable {first second : Node → Fresh Node} {one two : Node} {next middle : Nat}

theorem updateBoth?_run (ran : (updateAt? first path n).run next = (some m,middle)) :
    (updateBoth? first path second other n).run next = (updateAt? second other m).run middle := by
  rw [updateBoth?,StateT.run_bind,ran]
  rfl

theorem updateBoth?_none (missing : n.at? path = none) (next : Nat) :
    (updateBoth? first path second other n).run next = (none,next) := by
  rw [updateBoth?,StateT.run_bind,updateAt?_missing missing]
  rfl

theorem updateBoth?_some (next : Nat) (found : n.at? path = some one)
    (there : ∀ m,Replaced ((first one).run next).2 path ((first one).run next).1 n m → m.at? other = some two) :
    ∃ m k start,((updateBoth? first path second other n).run next).1 = some k ∧
      Replaced ((first one).run next).2 path ((first one).run next).1 n m ∧
      Replaced ((second two).run start).2 other ((second two).run start).1 m k := by
  obtain ⟨m,ran,replaced⟩ := updateAt?_replaced first next found
  obtain ⟨k,again,later⟩ := updateAt?_replaced second (((first one).run next).2 + path.length) (there m replaced)
  refine ⟨m,k,_,?_,replaced,later⟩
  rw [updateBoth?_run ran,again]

theorem updateBoth?_same (steady : Steady second) (n : Node) (path : List Nat) (next : Nat) :
    Option.Rel Equal ((updateBoth? first path second path n).run next).1
      ((updateAt? (fun old => first old >>= second) path n).run next).1 := by
  cases found : n.at? path with
  | none =>
      rw [updateBoth?_none found,updateAt?_missing found]
      exact .none
  | some one =>
      obtain ⟨m,k,start,ran,replaced,later⟩ := updateBoth?_some next found
        fun m (replaced : Replaced _ _ _ n m) => replaced.here
      obtain ⟨together,again,whole⟩ := updateAt?_replaced (fun old => first old >>= second) next found
      rw [ran,again]
      refine .some (equal_around fun place => ?_)
      by_cases beyond : path <+: place
      · exact .inr ⟨path,_,_,beyond,later.here,whole.here,steady _ _ _⟩
      · exact .inl ((later.shells beyond).trans ((replaced.shells beyond).trans (whole.shells beyond).symm))

section

variable (apart : ¬ path <+: other) (away : ¬ other <+: path)

include apart away

theorem updateBoth?_gone (missing : n.at? other = none) (next : Nat) :
    ((updateBoth? first path second other n).run next).1 = none := by
  cases found : n.at? path with
  | none => rw [updateBoth?_none found]
  | some one =>
      obtain ⟨m,ran,replaced⟩ := updateAt?_replaced first next found
      rw [updateBoth?_run ran,updateAt?_missing ((replaced.beside other apart away).trans missing)]

theorem updateBoth?_apart (first second : Node → Fresh Node) (found : n.at? path = some one) (also : n.at? other = some two)
    (next : Nat) :
    ∃ k start,((updateBoth? first path second other n).run next).1 = some k ∧
      k.at? path = some ((first one).run next).1 ∧ k.at? other = some ((second two).run start).1 ∧
      ∀ place,¬ path <+: place → ¬ other <+: place → (k.at? place).map shell = (n.at? place).map shell := by
  obtain ⟨m,k,start,ran,replaced,later⟩ := updateBoth?_some next found fun m (replaced : Replaced _ _ _ n m) =>
    (replaced.beside other apart away).trans also
  refine ⟨k,start,ran,(later.beside path away apart).trans replaced.here,later.here,fun place outside beside => ?_⟩
  exact (later.shells beside).trans (replaced.shells outside)

theorem updateBoth?_swapped (steady : Steady first) (calm : Steady second) (n : Node) (next start : Nat) :
    Option.Rel Equal ((updateBoth? first path second other n).run next).1
      ((updateBoth? second other first path n).run start).1 := by
  cases found : n.at? path with
  | none =>
      rw [updateBoth?_none found,updateBoth?_gone away apart found]
      exact .none
  | some one =>
      cases also : n.at? other with
      | none =>
          rw [updateBoth?_gone apart away also,updateBoth?_none also]
          exact .none
      | some two =>
          obtain ⟨k,_,ran,left,right,outside⟩ := updateBoth?_apart apart away first second found also next
          obtain ⟨j,_,again,early,late,beside⟩ := updateBoth?_apart away apart second first also found start
          rw [ran,again]
          refine .some (equal_around fun place => ?_)
          by_cases inFirst : path <+: place
          · exact .inr ⟨path,_,_,inFirst,left,late,steady _ _ _⟩
          by_cases inSecond : other <+: place
          · exact .inr ⟨other,_,_,inSecond,right,early,calm _ _ _⟩
          exact .inl ((outside place inFirst inSecond).trans (beside place inSecond inFirst).symm)

end

theorem updates_exact (n : Node) (path : List Nat) (first : Node → Fresh Node) (next : Nat) :
    (((updateAt? first path n).run next).1 = none ↔ n.at? path = none) ∧
    (∀ old,n.at? path = some old → ∃ m,((updateAt? first path n).run next).1 = some m ∧
      Replaced ((first old).run next).2 path ((first old).run next).1 n m) ∧
    (∀ second,Steady second → Option.Rel Equal ((updateBoth? first path second path n).run next).1
      ((updateAt? (fun old => first old >>= second) path n).run next).1) ∧
    ∀ second other,¬ path <+: other → ¬ other <+: path → Steady first → Steady second → ∀ start,
      Option.Rel Equal ((updateBoth? first path second other n).run next).1
        ((updateBoth? second other first path n).run start).1 := by
  have made : ∀ old,n.at? path = some old → ∃ m,((updateAt? first path n).run next).1 = some m ∧
      Replaced ((first old).run next).2 path ((first old).run next).1 n m := by
    intro old found
    obtain ⟨m,ran,replaced⟩ := updateAt?_replaced first next found
    exact ⟨m,by rw [ran],replaced⟩
  refine ⟨⟨fun gone => ?_,fun missing => by rw [updateAt?_missing missing]⟩,made,?_,?_⟩
  · cases found : n.at? path with
    | none => rfl
    | some old =>
        obtain ⟨m,ran,_⟩ := made old found
        rw [ran] at gone
        cases gone
  · exact fun second steady => updateBoth?_same steady n path next
  · exact fun second other apart away steady calm start => updateBoth?_swapped apart away steady calm n next start

theorem updates_family : ∃ m,((updateAt? (Edit.run [.rename "w"]) [0,0] Tree.family.root).run 4).1 = some m ∧
    m.at? [0,0] = some (.mk 4 "w" .empty []) ∧ m.at? [1] = Tree.family.root.at? [1] ∧
    Option.Rel Equal
      ((updateBoth? (Edit.run [.rename "w"]) [0,0] (Edit.run [.push "v"]) [1] Tree.family.root).run 4).1
      ((updateBoth? (Edit.run [.push "v"]) [1] (Edit.run [.rename "w"]) [0,0] Tree.family.root).run 9).1 := by
  obtain ⟨_,found,_,swapped⟩ := updates_exact Tree.family.root [0,0] (Edit.run [.rename "w"]) 4
  obtain ⟨m,made,replaced⟩ := found (.mk 0 "y" .empty []) rfl
  have apart : ¬ [0,0] <+: [1] := by decide
  have away : ¬ [1] <+: [0,0] := by decide
  exact ⟨m,made,replaced.here,replaced.beside [1] apart away,
    swapped (Edit.run [.push "v"]) [1] apart away (steady_edits _) (steady_edits _) 9⟩

end SharedTree.Node
