import SharedTree.Proofs.Node.Memory
import SharedTree.Transform.Change

namespace SharedTree

theorem Tree.same_self (tree : Tree) : tree.same tree = true := Node.same_of_outline rfl

inductive Alternatives where
  | one (t : Transform)
  | either (first fallback : Alternatives)

namespace Alternatives

def transform : Alternatives → Transform
  | one t => t
  | either first fallback => first.transform.orElse fallback.transform

def listed : Alternatives → List Transform
  | one t => [t]
  | either first fallback => first.listed ++ fallback.listed

end Alternatives

namespace Transform

-- What becomes of an input on which transforms are tried in turn. Each of them
-- gets the input and the effects of those before it; the others are never run.
inductive Tried (input : Tree) : List Transform → Effects → Except TransformError Tree → Effects → Prop where
  | failed (ran : (t.apply input).run effects = (.error error,later)) : Tried input (t :: rest) effects (.error error) later
  | changed {tree : Tree} (ran : (t.apply input).run effects = (.ok tree,later)) (differs : tree.same input = false) :
      Tried input (t :: rest) effects (.ok tree) later
  | unchanged {tree : Tree} (ran : (t.apply input).run effects = (.ok tree,middle)) (alike : tree.same input = true)
      (others : Tried input rest middle outcome later) : Tried input (t :: rest) effects outcome later
  | exhausted : Tried input [] effects (.ok input) effects

variable {input : Tree}

def onward (input : Tree) (go : Effects → Except TransformError Tree × Effects) :
    Except TransformError Tree × Effects → Except TransformError Tree × Effects
  | (.error error,later) => (.error error,later)
  | (.ok tree,later) => if tree.same input then go later else (.ok tree,later)

def tryEach (input : Tree) : List Transform → Effects → Except TransformError Tree × Effects
  | [],effects => (.ok input,effects)
  | t :: rest,effects => onward input (tryEach input rest) ((t.apply input).run effects)

theorem onward_onward (go more : Effects → Except TransformError Tree × Effects)
    (outcome : Except TransformError Tree × Effects) :
    onward input more (onward input go outcome) = onward input (fun effects => onward input more (go effects)) outcome := by
  rcases outcome with ⟨_ | tree,later⟩
  · rfl
  · cases alike : tree.same input <;> simp [onward,alike]

theorem onward_input (go : Effects → Except TransformError Tree × Effects) (effects : Effects) :
    onward input go (.ok input,effects) = go effects := if_pos input.same_self

theorem tryEach_append (first rest : List Transform) (effects : Effects) :
    tryEach input (first ++ rest) effects = onward input (tryEach input rest) (tryEach input first effects) := by
  induction first generalizing effects with
  | nil => exact (onward_input _ effects).symm
  | cons t first ih =>
      rw [List.cons_append,tryEach,tryEach,onward_onward]
      congr 1
      funext later
      exact ih later

theorem orElse_run (t u : Transform) (effects : Effects) : ((t.orElse u).apply input).run effects =
    onward input (fun later => onward input (tryEach input []) ((u.apply input).run later)) ((t.apply input).run effects) := by
  show StateT.run (t.apply input >>= _) effects = _
  rw [StateT.run_bind]
  rcases (t.apply input).run effects with ⟨_ | tree,later⟩
  · rfl
  · show StateT.run (if tree.same input then _ else pure (Except.ok tree)) later = if tree.same input then _ else _
    split
    · show StateT.run (u.apply input >>= _) later = _
      rw [StateT.run_bind]
      rcases (u.apply input).run later with ⟨_ | other,last⟩
      · rfl
      · show (Except.ok (if other.same input then input else other),last) = if other.same input then _ else _
        split <;> rfl
    · rfl

theorem tryEach_settled (ts : List Transform) (effects : Effects) :
    onward input (tryEach input []) (tryEach input ts effects) = tryEach input ts effects := by
  rw [← tryEach_append,List.append_nil]

theorem alternatives_run (choice : Alternatives) (effects : Effects) :
    onward input (tryEach input []) ((choice.transform.apply input).run effects) = tryEach input choice.listed effects := by
  induction choice generalizing effects with
  | one t => rfl
  | either first fallback left right =>
      rw [Alternatives.transform,orElse_run,Alternatives.listed,tryEach_append,← left,onward_onward,onward_onward]
      congr 1
      funext later
      rw [right,tryEach_settled,tryEach,onward_input]

theorem either_run (first fallback : Alternatives) (effects : Effects) :
    (((Alternatives.either first fallback).transform.apply input).run effects) =
      tryEach input (Alternatives.either first fallback).listed effects := by
  rw [Alternatives.transform,orElse_run,Alternatives.listed,tryEach_append,← alternatives_run first,onward_onward]
  congr 1
  funext later
  rw [alternatives_run,tryEach,onward_input]

theorem tried_iff {ts : List Transform} :
    tryEach input ts effects = (outcome,later) ↔ Tried input ts effects outcome later := by
  constructor
  · intro tried
    induction ts generalizing effects with
    | nil =>
        cases tried
        exact .exhausted
    | cons t rest ih =>
        rw [tryEach] at tried
        rcases ran : (t.apply input).run effects with ⟨error | tree,middle⟩
        · rw [ran] at tried
          cases tried
          exact .failed ran
        · cases alike : tree.same input with
          | false =>
              simp only [ran,onward,alike] at tried
              cases tried
              exact .changed ran alike
          | true =>
              simp only [ran,onward,alike] at tried
              exact .unchanged ran alike (ih tried)
  · intro tried
    induction tried with
    | failed ran => rw [tryEach,ran]; rfl
    | changed ran differs => simp [tryEach,ran,onward,differs]
    | unchanged ran alike _ ih => simp [tryEach,ran,onward,alike,ih]
    | exhausted => rfl

theorem orElse_assoc (t u v : Transform) : (t.orElse u).orElse v = t.orElse (u.orElse v) := by
  have applied : ((t.orElse u).orElse v).apply = (t.orElse (u.orElse v)).apply := by
    funext input effects
    have left : (((t.orElse u).orElse v).apply input).run effects = tryEach input [t,u,v] effects :=
      either_run (.either (.one t) (.one u)) (.one v) effects
    exact left.trans (either_run (.one t) (.either (.one u) (.one v)) effects).symm
  have labels : ((t.orElse u).orElse v).label = (t.orElse (u.orElse v)).label := by
    simp only [orElse,String.append_assoc]
  exact (Transform.mk.injEq ..).mpr ⟨labels,applied⟩

inductive Coincide : Except TransformError Tree × Effects → Except TransformError Tree × Effects → Prop where
  | failed : Coincide (.error error,effects) (.error error,effects)
  | made (alike : left.same right = true) : Coincide (.ok left,effects) (.ok right,effects)

theorem coincide_settled (outcome : Except TransformError Tree × Effects) :
    Coincide outcome (onward input (tryEach input []) outcome) := by
  rcases outcome with ⟨error | tree,later⟩
  · exact .failed
  · show Coincide _ (if tree.same input then (.ok input,later) else (.ok tree,later))
    split
    · rename_i alike
      exact .made alike
    · exact .made tree.same_self

theorem identity_orElse (t : Transform) (effects : Effects) :
    Coincide ((t.apply input).run effects) (((identity.orElse t).apply input).run effects) := by
  have settled : ((identity.orElse t).apply input).run effects = onward input (tryEach input []) ((t.apply input).run effects) := by
    rw [orElse_run]
    exact onward_input _ effects
  rw [settled]
  exact coincide_settled _

theorem orElse_identity (t : Transform) (effects : Effects) :
    Coincide ((t.apply input).run effects) (((t.orElse identity).apply input).run effects) := by
  have settled : ((t.orElse identity).apply input).run effects = onward input (tryEach input []) ((t.apply input).run effects) := by
    rw [orElse_run]
    congr 1
    funext later
    exact onward_input _ later
  rw [settled]
  exact coincide_settled _

theorem tryEach_unchanged {ts : List Transform}
    (each : ∀ t ∈ ts,∀ effects,∃ tree later,(t.apply input).run effects = (.ok tree,later) ∧ tree.same input = true)
    (effects : Effects) : ∃ later,tryEach input ts effects = (.ok input,later) := by
  induction ts generalizing effects with
  | nil => exact ⟨effects,rfl⟩
  | cons t rest ih =>
      obtain ⟨tree,middle,ran,alike⟩ := each t (.head _) effects
      obtain ⟨later,others⟩ := ih (fun u member => each u (.tail _ member)) middle
      refine ⟨later,?_⟩
      rw [tryEach,ran,← others]
      exact if_pos alike

theorem alternatives_exact (first fallback : Alternatives) (input : Tree) :
    (∀ effects outcome later,((Alternatives.either first fallback).transform.apply input).run effects = (outcome,later) ↔
      Tried input (Alternatives.either first fallback).listed effects outcome later) ∧
    ((∀ t ∈ (Alternatives.either first fallback).listed,∀ effects,∃ tree later,
        (t.apply input).run effects = (.ok tree,later) ∧ tree.same input = true) →
      ∀ effects,∃ later,((Alternatives.either first fallback).transform.apply input).run effects = (.ok input,later)) ∧
    (∀ t u v : Transform,(t.orElse u).orElse v = t.orElse (u.orElse v)) ∧
    (∀ (t : Transform) effects,
      Coincide ((t.apply input).run effects) (((identity.orElse t).apply input).run effects) ∧
      Coincide ((t.apply input).run effects) (((t.orElse identity).apply input).run effects)) ∧
    ∀ next held (tree : Tree),Node.Memory next held → input.root ∈ held → tree.root ∈ held →
      tree.same input = tree.root.outline.same input.root.outline := by
  refine ⟨?_,?_,orElse_assoc,fun t effects => ⟨identity_orElse t effects,orElse_identity t effects⟩,?_⟩
  · intro effects outcome later
    rw [either_run]
    exact tried_iff
  · intro each effects
    rw [either_run]
    exact tryEach_unchanged each effects
  · intro next held tree memory own known
    exact memory.same_outline (Node.mem_subtreeAll.mpr ⟨_,known,tree.root.mem_subtree_self⟩)
      (Node.mem_subtreeAll.mpr ⟨_,own,input.root.mem_subtree_self⟩)

def copied : Transform := editRoot fun n => n.withName n.name

theorem copied_family (effects : Effects) : ∃ tree later,(copied.apply .family).run effects = (.ok tree,later) ∧
    tree.same .family = true ∧ tree.root.serial = effects.next :=
  ⟨⟨.mk effects.next _ _ Tree.family.root.children,rfl⟩,_,rfl,Node.same_of_outline rfl,rfl⟩

theorem alternatives_copied :
    (∃ tree later,(copied.apply .family).run ⟨4,[]⟩ = (.ok tree,later) ∧ tree.root.is Tree.family.root = false) ∧
    (∃ later,
      ((Alternatives.either (.either (.one identity) (.one copied)) (.one copied)).transform.apply .family).run ⟨4,[]⟩ =
        (.ok .family,later)) ∧
    Tree.family.same .family = Tree.family.root.outline.same Tree.family.root.outline := by
  have exact_ := alternatives_exact (.either (.one identity) (.one copied)) (.one copied) .family
  refine ⟨?_,exact_.2.1 ?_ ⟨4,[]⟩,?_⟩
  · obtain ⟨tree,later,ran,_,number⟩ := copied_family ⟨4,[]⟩
    exact ⟨tree,later,ran,by rw [Node.is,number]; rfl⟩
  · intro t member effects
    have either : t = identity ∨ t = copied := by simpa [Alternatives.listed] using member
    rcases either with rfl | rfl
    · exact ⟨.family,effects,rfl,Tree.same_self _⟩
    · obtain ⟨tree,later,ran,alike,_⟩ := copied_family effects
      exact ⟨tree,later,ran,alike⟩
  · have own := List.mem_singleton.mpr (rfl : Tree.family.root = Tree.family.root)
    exact exact_.2.2.2.2 4 _ .family (Tree.family_memory (List.forall_mem_singleton.mpr Tree.family.root.mem_subtree_self)) own own

end Transform
end SharedTree
