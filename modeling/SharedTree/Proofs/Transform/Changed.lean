import SharedTree.Transform.Change

namespace SharedTree.Transform

variable {s : Selector} {change : Node → Fresh Node} {n child : Node} {above rest children : List Node}

theorem keepIfAlike_run (change : Node → Fresh Node) (n : Node) (next : Nat) : (keepIfAlike change n).run next =
    (if ((change n).run next).1.alike n then n else ((change n).run next).1,((change n).run next).2) := rfl

def settle (s : Selector) (change : Node → Fresh Node) (p : Position) (children : List Node) : Fresh Node := do
  let rebuilt ← p.node.rebuild children
  if s.selects p then keepIfAlike change rebuilt else pure rebuilt

theorem settle_run {p : Position} (rebuilt : (p.node.rebuild children).run next = (n,later)) :
    (settle s change p children).run next = if s.selects p then (keepIfAlike change n).run later else (n,later) := by
  rw [settle,StateT.run_bind,rebuilt]
  show StateT.run (if s.selects p then keepIfAlike change n else pure n) later = _
  split <;> rfl

theorem bind_run {σ : Type} {work : StateM σ α} {go : α → StateM σ β} {start middle : σ} {a : α}
    (ran : work.run start = (a,middle)) : (work >>= go).run start = (go a).run middle := by
  rw [StateT.run_bind,ran]
  rfl

theorem fresh_eq (make : Fresh α) (effects : Effects) :
    (Work.fresh make).run effects = ((make.run effects.next).1,{ effects with next := (make.run effects.next).2 }) := rfl

theorem fresh_run {make : Fresh α} {effects : Effects} {a : α} (ran : make.run effects.next = (a,later)) :
    (Work.fresh make).run effects = (a,{ effects with next := later }) := by
  rw [fresh_eq,ran]

theorem judge_run (s : Selector) (p : Position) (effects : Effects) :
    (Work.judge s p).run effects = (s.selects p,{ effects with calls := effects.calls ++ (s.verdict p).calls }) := rfl

theorem changeSelected_settle {effects middle : Effects}
    (ran : (changeEachSelected s change (n :: above) n.children).run effects = (children,middle)) :
    (changeSelected s change above n).run effects =
      (((settle s change ⟨n,above⟩ children).run middle.next).1,
        ⟨((settle s change ⟨n,above⟩ children).run middle.next).2,middle.calls ++ (s.verdict ⟨n,above⟩).calls⟩) := by
  cases rebuilt : (n.rebuild children).run middle.next with
  | mk m later =>
      rw [settle_run (p := ⟨n,above⟩) rebuilt]
      cases n
      rw [Node.children_mk] at ran
      rw [changeSelected,bind_run ran,bind_run (fresh_run rebuilt),bind_run (judge_run s _ _)]
      split <;> rfl

-- A statement about every run: `none` and `more` are about children one after the other,
-- `settled` is about a node whose children are done. Only the numbers given out matter.
structure Carries (s : Selector) (change : Node → Fresh Node) (one : Position → Nat → Node → Nat → Prop)
    (all : Position → List Node → Nat → List Node → Nat → Prop) : Prop where
  none (parent : Position) (next : Nat) : all parent [] next [] next
  more {parent : Position} {child : Node} {rest : List Node} {first middle last : Nat} {m : Node} {ms : List Node}
    (own : one (parent.under child) first m middle) (others : all parent rest middle ms last) :
    all parent (child :: rest) first (m :: ms) last
  settled {p : Position} {first middle : Nat} {ms : List Node} (below : all p p.node.children first ms middle) :
    one p first ((settle s change p ms).run middle).1 ((settle s change p ms).run middle).2

section

variable {one : Position → Nat → Node → Nat → Prop} {all : Position → List Node → Nat → List Node → Nat → Prop}

mutual
theorem Carries.selected (carries : Carries s change one all) : (n : Node) → (above : List Node) → (effects : Effects) →
    one ⟨n,above⟩ effects.next ((changeSelected s change above n).run effects).1
      ((changeSelected s change above n).run effects).2.next
  | .mk serial name attributes children,above,effects => by
      rw [changeSelected_settle (n := .mk serial name attributes children) rfl]
      exact carries.settled (carries.each children (.mk serial name attributes children) above effects)

theorem Carries.each (carries : Carries s change one all) : (nodes : List Node) → (parent : Node) → (above : List Node) →
    (effects : Effects) → all ⟨parent,above⟩ nodes effects.next
      ((changeEachSelected s change (parent :: above) nodes).run effects).1
      ((changeEachSelected s change (parent :: above) nodes).run effects).2.next
  | [],parent,above,effects => carries.none ⟨parent,above⟩ effects.next
  | child :: rest,parent,above,effects => by
      have own := carries.selected child (parent :: above) effects
      exact carries.more own (carries.each rest parent above ((changeSelected s change (parent :: above) child).run effects).2)
end

end

theorem changeBelow_settle (ran : (changeEach change n.children).run next = (children,middle)) (above : List Node) :
    (changeBelow change n).run next = (settle .any change ⟨n,above⟩ children).run middle := by
  cases n
  rw [Node.children_mk] at ran
  rw [changeBelow,bind_run ran]
  rfl

mutual
theorem changeSelected_any (change : Node → Fresh Node) : (n : Node) → (above : List Node) → (effects : Effects) →
    (changeSelected .any change above n).run effects = (Work.fresh (changeBelow change n)).run effects
  | .mk serial name attributes children,above,effects => by
      have each := changeEachSelected_any change children (.mk serial name attributes children :: above) effects
      cases ran : (changeEach change children).run effects.next with
      | mk ms middle =>
          rw [fresh_run ran] at each
          rw [changeSelected_settle (n := .mk serial name attributes children) each]
          have below := changeBelow_settle (n := .mk serial name attributes children) ran above
          rw [fresh_eq,below]
          show (_,(⟨_,effects.calls ++ []⟩ : Effects)) = _
          rw [List.append_nil]

theorem changeEachSelected_any (change : Node → Fresh Node) : (nodes : List Node) → (above : List Node) → (effects : Effects) →
    (changeEachSelected .any change above nodes).run effects = (Work.fresh (changeEach change nodes)).run effects
  | [],_,_ => rfl
  | child :: rest,above,effects => by
      have own := changeSelected_any change child above effects
      have others := changeEachSelected_any change rest above { effects with next := ((changeBelow change child).run effects.next).2 }
      rw [fresh_eq] at own others
      rw [changeEachSelected,bind_run own,bind_run others,changeEach]
      rfl
end

theorem mapSelected_any (label : String) (change : Node → Fresh Node) :
    (mapSelected label .any change).apply = (mapNodes change).apply := by
  funext tree effects
  show (changeSelected .any change [] tree.root >>= fun root => pure (finish tree root)).run effects =
    (Work.fresh (changeBelow change tree.root) >>= fun root => pure (finish tree root)).run effects
  rw [StateT.run_bind,StateT.run_bind,changeSelected_any]

end SharedTree.Transform
