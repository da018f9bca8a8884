import SharedTree.Proofs.Tree.Paths
import SharedTree.Selector.Find

namespace SharedTree

def upTo (passes : α → Bool) (items : List α) : List α :=
  items.takeWhile (fun item => !passes item) ++ (items.find? passes).toList

theorem upTo_cons (passes : α → Bool) (item : α) (rest : List α) :
    upTo passes (item :: rest) = item :: if passes item then [] else upTo passes rest := by
  cases passed : passes item <;> simp [upTo,passed]

theorem upTo_prefix (passes : α → Bool) (items : List α) : upTo passes items <+: items := by
  induction items with
  | nil => exact List.prefix_refl []
  | cons item rest ih =>
      rw [upTo_cons]
      split
      · exact List.prefix_append [item] rest
      · exact (List.prefix_cons_inj item).mpr ih

namespace Verdict

theorem both_calls (first : Verdict) (second : Unit → Verdict) :
    (first.both second).calls = first.calls ++ if first.answer then (second ()).calls else [] := by
  cases passed : first.answer <;> simp [both,before,passed]

theorem either_calls (first : Verdict) (second : Unit → Verdict) :
    (first.either second).calls = first.calls ++ if first.answer then [] else (second ()).calls := by
  cases passed : first.answer <;> simp [either,before,passed]

theorem anyOf_calls (test : α → Verdict) (items : List α) :
    (anyOf test items).calls = (upTo (fun item => (test item).answer) items).flatMap fun item => (test item).calls := by
  induction items with
  | nil => rfl
  | cons item rest ih =>
      rw [anyOf,either_calls,ih,upTo_cons,List.flatMap_cons]
      split <;> rfl

theorem both_assoc (first : Verdict) (second third : Unit → Verdict) :
    (first.both second).both third = first.both fun _ => (second ()).both third := by
  cases passed : first.answer
  · simp [both,passed]
  · cases again : (second ()).answer <;> simp [both,before,passed,again]

theorem either_assoc (first : Verdict) (second third : Unit → Verdict) :
    (first.either second).either third = first.either fun _ => (second ()).either third := by
  cases passed : first.answer
  · cases again : (second ()).answer <;> simp [either,before,passed,again]
  · simp [either,passed]

theorem not_both (first : Verdict) (second : Unit → Verdict) :
    (first.both second).not = first.not.either fun _ => (second ()).not := by
  cases passed : first.answer <;> simp [both,either,before,Verdict.not,passed]

theorem not_either (first : Verdict) (second : Unit → Verdict) :
    (first.either second).not = first.not.both fun _ => (second ()).not := by
  cases passed : first.answer <;> simp [both,either,before,Verdict.not,passed]

end Verdict

namespace Selector

inductive Call where
  | attributes (test : Attributes → Verdict) (held : Attributes)
  | custom (test : Position → Verdict) (place : Position)

def Call.marks : Call → List String
  | .attributes test held => (test held).calls
  | .custom test place => (test place).calls

-- The calls of a selector at a node, the tests of other nodes included.
def made : Selector → Position → List Call
  | attributes test,p => [.attributes test p.attributes]
  | custom test,p => [.custom test p]
  | childOf parent,p => match p.parent? with
    | some above => parent.made above
    | none => []
  | ancestorOf below,p => (upTo below.selects p.descendants).flatMap below.made
  | descendantOf above,p => (upTo above.selects p.ancestors).flatMap above.made
  | and a b,p => a.made p ++ if a.selects p then b.made p else []
  | or a b,p => a.made p ++ if a.selects p then [] else b.made p
  | not a,p => a.made p
  | xor a b,p => a.made p ++ b.made p
  | _,_ => []

variable {p : Position}

theorem anyOf_made {s : Selector} (made : ∀ p,(s.verdict p).calls = (s.made p).flatMap Call.marks) (places : List Position) :
    (Verdict.anyOf s.verdict places).calls = ((upTo s.selects places).flatMap s.made).flatMap Call.marks := by
  rw [Verdict.anyOf_calls,List.flatMap_assoc]
  exact List.flatMap_congr fun p _ => made p

theorem verdict_made (s : Selector) (p : Position) : (s.verdict p).calls = (s.made p).flatMap Call.marks := by
  induction s generalizing p with
  | attributes test => exact (List.append_nil _).symm
  | custom test => exact (List.append_nil _).symm
  | any | nothing | name | regex | type | leaf | root | depth | path => rfl
  | childOf parent ih =>
      rw [verdict,made]
      cases p.parent? with
      | none => rfl
      | some above => exact ih above
  | ancestorOf below ih => exact anyOf_made ih p.descendants
  | descendantOf above ih => exact anyOf_made ih p.ancestors
  | and a b first second =>
      rw [verdict,made,Verdict.both_calls,List.flatMap_append,first,second,selects]
      split <;> rfl
  | or a b first second =>
      rw [verdict,made,Verdict.either_calls,List.flatMap_append,first,second,selects]
      split <;> rfl
  | not a ih => exact ih p
  | xor a b first second =>
      rw [made,List.flatMap_append,← first,← second]
      rfl

-- Neither an answer nor a call tells which of the two was asked.
def Indistinct (x y : Selector) : Prop := ∀ p,x.made p = y.made p ∧ x.verdict p = y.verdict p

theorem Indistinct.refl (x : Selector) : Indistinct x x := fun _ => ⟨rfl,rfl⟩

theorem Indistinct.trans {x y z : Selector} (first : Indistinct x y) (second : Indistinct y z) : Indistinct x z := fun p =>
  ⟨(first p).1.trans (second p).1,(first p).2.trans (second p).2⟩

theorem and_selects (a b : Selector) (p : Position) : (and a b).selects p = (a.selects p && b.selects p) :=
  Verdict.both_answer _ _

theorem or_selects (a b : Selector) (p : Position) : (or a b).selects p = (a.selects p || b.selects p) :=
  Verdict.either_answer _ _

theorem not_selects (a : Selector) (p : Position) : (not a).selects p = !a.selects p := rfl

theorem and_made (a b : Selector) (p : Position) : (and a b).made p = a.made p ++ if a.selects p then b.made p else [] := rfl

theorem or_made (a b : Selector) (p : Position) : (or a b).made p = a.made p ++ if a.selects p then [] else b.made p := rfl

theorem not_made (a : Selector) (p : Position) : (not a).made p = a.made p := rfl

theorem and_regroup (a b c : Selector) : Indistinct (and (and a b) c) (and a (and b c)) := by
  intro p
  refine ⟨?_,Verdict.both_assoc _ _ _⟩
  cases first : a.selects p <;> cases second : b.selects p <;> simp [and_made,and_selects,first,second]

theorem or_regroup (a b c : Selector) : Indistinct (or (or a b) c) (or a (or b c)) := by
  intro p
  refine ⟨?_,Verdict.either_assoc _ _ _⟩
  cases first : a.selects p <;> cases second : b.selects p <;> simp [or_made,or_selects,first,second]

theorem not_and_or (a b : Selector) : Indistinct (not (and a b)) (or (not a) (not b)) := by
  intro p
  refine ⟨?_,Verdict.not_both _ _⟩
  cases first : a.selects p <;> simp [and_made,or_made,not_made,not_selects,first]

theorem not_or_and (a b : Selector) : Indistinct (not (or a b)) (and (not a) (not b)) := by
  intro p
  refine ⟨?_,Verdict.not_either _ _⟩
  cases first : a.selects p <;> simp [and_made,or_made,not_made,not_selects,first]

def chain (join : Selector → Selector → Selector) : Selector → List Selector → Selector
  | first,[] => first
  | first,second :: rest => join first (chain join second rest)

theorem foldl_chain {join : Selector → Selector → Selector}
    (regroup : ∀ a b c,Indistinct (join (join a b) c) (join a (join b c))) (first : Selector) (rest : List Selector) :
    Indistinct (rest.foldl join first) (chain join first rest) := by
  induction rest generalizing first with
  | nil => exact .refl first
  | cons second rest ih =>
      refine (ih (join first second)).trans ?_
      cases rest with
      | nil => exact .refl _
      | cons third rest => exact regroup first second _

theorem chain_made {join : Selector → Selector → Selector} (opens : Selector → Bool)
    (made_join : ∀ a b : Selector,(join a b).made p = a.made p ++ if opens a then b.made p else []) (first : Selector)
    (rest : List Selector) :
    (chain join first rest).made p = (upTo (fun s => !opens s) (first :: rest)).flatMap fun s => s.made p := by
  induction rest generalizing first with
  | nil => cases opened : opens first <;> simp [chain,upTo,opened]
  | cons second rest ih => cases opened : opens first <;> simp [chain,made_join,upTo_cons _ first,ih,opened]

theorem allOf_made (operands : List Selector) (p : Position) :
    (allOf operands).made p = (upTo (fun s => !s.selects p) operands).flatMap fun s => s.made p := by
  cases operands with
  | nil => rfl
  | cons first rest =>
      rw [allOf,(foldl_chain and_regroup first rest p).1]
      exact chain_made (fun s => s.selects p) (fun _ _ => rfl) first rest

theorem anyOf_asked (operands : List Selector) (p : Position) :
    (anyOf operands).made p = (upTo (fun s => s.selects p) operands).flatMap fun s => s.made p := by
  cases operands with
  | nil => rfl
  | cons first rest =>
      rw [anyOf,(foldl_chain or_regroup first rest p).1,chain_made (fun s => !s.selects p) ?_ first rest]
      · simp
      · intro a b
        cases first : a.selects p <;> simp [or_made,first]

theorem among_calls (s : Selector) (places : List Position) :
    (s.among places).2 = places.flatMap fun p => (s.verdict p).calls := by
  induction places with
  | nil => rfl
  | cons p rest ih =>
      rw [among,List.flatMap_cons,← ih]

theorem firstAmong_calls (s : Selector) (places : List Position) :
    (s.firstAmong places).2 = (upTo s.selects places).flatMap fun p => (s.verdict p).calls := by
  induction places with
  | nil => rfl
  | cons p rest ih =>
      cases passed : (s.verdict p).answer <;> simp [firstAmong,upTo_cons,selects,passed,ih]

theorem calls_of_made {s : Selector} {operands : List Selector} (asked : s.made p = operands.flatMap fun a => a.made p) :
    (s.verdict p).calls = operands.flatMap fun a => (a.verdict p).calls := by
  rw [verdict_made,asked,List.flatMap_assoc]
  exact List.flatMap_congr fun a _ => (verdict_made a p).symm

theorem find_prefix (s : Selector) (start : Position) : (s.find start).2 <+: (s.findAll start).2 := by
  rw [find,findAll,firstAmong_calls,among_calls]
  obtain ⟨later,whole⟩ := upTo_prefix s.selects start.preorder
  rw [← whole,List.flatMap_append,whole]
  exact List.prefix_append _ _

theorem descendants_eq (p : Position) : p.descendants = p.children.flatMap Position.preorder := Preorder.toList_eq p.children

-- The calls of every nesting are those of its operands; then the laws of regrouping and
-- of negation, what decides and what is always asked, and the order of every search.
theorem calls_exact :
    (∀ (s : Selector) (p : Position),(s.verdict p).calls = (s.made p).flatMap Call.marks) ∧
    (∀ a b c,Indistinct (and (and a b) c) (and a (and b c)) ∧ Indistinct (or (or a b) c) (or a (or b c))) ∧
    (∀ a b,Indistinct (not (and a b)) (or (not a) (not b)) ∧ Indistinct (not (or a b)) (and (not a) (not b))) ∧
    (∀ first rest,Indistinct (allOf (first :: rest)) (chain and first rest) ∧
      Indistinct (anyOf (first :: rest)) (chain or first rest)) ∧
    (∀ operands p,
      ((allOf operands).verdict p).calls = (upTo (fun s => !s.selects p) operands).flatMap (fun s => (s.verdict p).calls) ∧
      ((anyOf operands).verdict p).calls = (upTo (fun s => s.selects p) operands).flatMap fun s => (s.verdict p).calls) ∧
    (∀ a b p,((xor a b).verdict p).calls = (a.verdict p).calls ++ (b.verdict p).calls) ∧
    (∀ (s : Selector) (p : Position),
      ((childOf s).verdict p).calls = p.parent?.toList.flatMap (fun above => (s.verdict above).calls) ∧
      ((ancestorOf s).verdict p).calls = (upTo s.selects p.descendants).flatMap (fun below => (s.verdict below).calls) ∧
      ((descendantOf s).verdict p).calls = (upTo s.selects p.ancestors).flatMap fun above => (s.verdict above).calls) ∧
    (∀ (s : Selector) (start : Position),
      (s.find start).2 = (upTo s.selects start.preorder).flatMap (fun p => (s.verdict p).calls) ∧
      (s.findAll start).2 = start.preorder.flatMap (fun p => (s.verdict p).calls) ∧
      (s.find start).2 <+: (s.findAll start).2) ∧
    ∀ p : Position,p.preorder = p :: p.descendants ∧ p.descendants = p.children.flatMap Position.preorder ∧
      p.ancestors = p.parent?.toList.flatMap fun above => above :: above.ancestors := by
  refine ⟨verdict_made,fun a b c => ⟨and_regroup a b c,or_regroup a b c⟩,fun a b => ⟨not_and_or a b,not_or_and a b⟩,
    fun first rest => ⟨foldl_chain and_regroup first rest,foldl_chain or_regroup first rest⟩,
    fun operands p => ⟨calls_of_made (allOf_made operands p),calls_of_made (anyOf_asked operands p)⟩,fun _ _ _ => rfl,?_,?_,?_⟩
  · intro s p
    refine ⟨?_,Verdict.anyOf_calls _ _,Verdict.anyOf_calls _ _⟩
    rw [verdict]
    cases p.parent? <;> simp [Verdict.silent]
  · intro s start
    exact ⟨firstAmong_calls s start.preorder,among_calls s start.preorder,s.find_prefix start⟩
  · intro p
    refine ⟨?_,descendants_eq p,?_⟩
    · rw [Position.preorder_eq,descendants_eq]
    · obtain ⟨n,_ | ⟨parent,above⟩⟩ := p <;> simp [Position.ancestors,Position.upward,Position.parent?]

end Selector
end SharedTree
