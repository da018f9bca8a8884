import SharedTree.Pipeline.Basic
import SharedTree.Proofs.Tree.Places
import SharedTree.Transform.Removal

namespace SharedTree

namespace Stage

def apply : Stage → Tree → Work (Except TransformError Output)
  | transform t,tree => (·.map Output.tree) <$> t.apply tree
  | shaper s,tree => (·.map Output.value) <$> s.apply tree

-- Two stages as one. Nothing comes after a shaper.
def join : Stage → Stage → Stage
  | transform t,transform u => transform (t.followedBy u)
  | transform t,shaper s => shaper (t.shape s)
  | shaper s,_ => shaper s

def composed : List Stage → Stage
  | [] => transform .identity
  | stage :: rest => rest.foldl join stage

def proceed (go : Tree → Effects → Except TransformError Output × Effects) :
    Except TransformError Output × Effects → Except TransformError Output × Effects
  | (.ok (.tree tree),effects) => go tree effects
  | (.ok (.value value),effects) => (.ok (.value value),effects)
  | (.error error,effects) => (.error error,effects)

variable {tree : Tree} {effects : Effects}

theorem transform_run (t : Transform) : ((transform t).apply tree).run effects =
    (((t.apply tree).run effects).1.map .tree,((t.apply tree).run effects).2) := rfl

theorem shaper_run (s : Shaper) : ((shaper s).apply tree).run effects =
    (((s.apply tree).run effects).1.map .value,((s.apply tree).run effects).2) := rfl

theorem followedBy_run (t u : Transform) : ((t.followedBy u).apply tree).run effects =
    match (t.apply tree).run effects with
    | (.ok next,later) => (u.apply next).run later
    | (.error error,later) => (.error error,later) := by
  show StateT.run (t.apply tree >>= _) effects = _
  rw [StateT.run_bind]
  rcases (t.apply tree).run effects with ⟨_ | _,_⟩ <;> rfl

theorem shape_run (t : Transform) (s : Shaper) : ((t.shape s).apply tree).run effects =
    match (t.apply tree).run effects with
    | (.ok next,later) => (s.apply next).run later
    | (.error error,later) => (.error error,later) := by
  show StateT.run (t.apply tree >>= _) effects = _
  rw [StateT.run_bind]
  rcases (t.apply tree).run effects with ⟨_ | _,_⟩ <;> rfl

theorem join_run (first second : Stage) : ((first.join second).apply tree).run effects =
    proceed (fun next => (second.apply next).run) ((first.apply tree).run effects) := by
  cases first with
  | transform t =>
      cases second with
      | transform u =>
          rw [join,transform_run,transform_run,followedBy_run]
          rcases (t.apply tree).run effects with ⟨_ | _,_⟩ <;> rfl
      | shaper s =>
          rw [join,shaper_run,transform_run,shape_run]
          rcases (t.apply tree).run effects with ⟨_ | _,_⟩ <;> rfl
  | shaper s =>
      rw [join,shaper_run]
      rcases (s.apply tree).run effects with ⟨_ | _,_⟩ <;> rfl

theorem proceed_trans (go more : Tree → Effects → Except TransformError Output × Effects)
    (outcome : Except TransformError Output × Effects) :
    proceed more (proceed go outcome) = proceed (fun tree effects => proceed more (go tree effects)) outcome := by
  rcases outcome with ⟨_ | (_ | _),_⟩ <;> rfl

theorem proceed_self (outcome : Except TransformError Output × Effects) :
    proceed (fun tree effects => (.ok (.tree tree),effects)) outcome = outcome := by
  rcases outcome with ⟨_ | (_ | _),_⟩ <;> rfl

theorem composed_run (stage : Stage) (rest : List Stage) : ((composed (stage :: rest)).apply tree).run effects =
    proceed (fun next => ((composed rest).apply next).run) ((stage.apply tree).run effects) := by
  induction rest generalizing stage tree effects with
  | nil => exact (proceed_self _).symm
  | cons second rest ih =>
      have joined : composed (stage :: second :: rest) = composed (stage.join second :: rest) := rfl
      rw [joined,ih,join_run,proceed_trans]
      congr 1
      funext next later
      exact (ih second).symm

theorem composed_isShaper (stages : List Stage) : (composed stages).isShaper = stages.any isShaper := by
  have joined : ∀ (rest : List Stage) (stage : Stage),(rest.foldl join stage).isShaper = (stage :: rest).any isShaper := by
    intro rest
    induction rest with
    | nil => simp
    | cons second rest ih =>
        intro stage
        rw [List.foldl_cons,ih]
        cases stage <;> cases second <;> simp [join,isShaper]
  cases stages with
  | nil => rfl
  | cons stage rest => exact joined rest stage

theorem apply_value {stage : Stage} {value : Value} (made : ((stage.apply tree).run effects).1 = .ok (.value value)) :
    stage.isShaper = true := by
  cases stage with
  | transform t =>
      rw [transform_run] at made
      cases outcome : ((t.apply tree).run effects).1 <;> simp [outcome,Except.map] at made
  | shaper s => rfl

theorem apply_tree {stage : Stage} {next : Tree} (made : ((stage.apply tree).run effects).1 = .ok (.tree next)) :
    stage.isShaper = false := by
  cases stage with
  | transform t => rfl
  | shaper s =>
      rw [shaper_run] at made
      cases outcome : ((s.apply tree).run effects).1 <;> simp [outcome,Except.map] at made

end Stage

def Output.size? : Output → Option Nat
  | .tree t => some t.size
  | .value _ => none

namespace Pipeline
open Stage (composed proceed)

inductive Built : Pipeline → Prop where
  | empty : Built .empty
  | ofTransform : Built (.ofTransform t)
  | ofShaper : Built (.ofShaper s)
  | append : Built p → p.append stage = .ok q → Built q
  | withDebug (debug : Bool) : Built p → Built (p.withDebug debug)
  | withObserver : Built p → Built p.withObserver

def ShaperLast (stages : List Stage) : Prop :=
  ∀ place s,stages[place]? = some (.shaper s) → place + 1 = stages.length

theorem append_error {p : Pipeline} : p.append stage = .error error ↔
    ∃ s,p.stages.getLast? = some (.shaper s) ∧ error = .typeMismatch s.label stage.label := by
  unfold append
  split
  · rename_i s last
    rw [last]
    constructor
    · intro failed
      cases failed
      exact ⟨s,rfl,rfl⟩
    · rintro ⟨_,same,rfl⟩
      cases same
      rfl
  · rename_i other
    refine iff_of_false nofun ?_
    rintro ⟨s,last,_⟩
    exact other s last

theorem append_ok {p q : Pipeline} : p.append stage = .ok q ↔
    p.isTerminal = false ∧ q = { p with stages := p.stages ++ [stage] } := by
  unfold append isTerminal
  split
  · rename_i s last
    rw [last]
    exact iff_of_false nofun fun given => nomatch given.1
  · rename_i other
    have unended : p.stages.getLast?.any Stage.isShaper = false := by
      cases last : p.stages.getLast? with
      | none => rfl
      | some stage =>
          cases stage with
          | transform t => rfl
          | shaper s => exact absurd last (other s)
    rw [unended,Except.ok.injEq,eq_comm]
    simp

theorem built_shaperLast (built : Built p) : ShaperLast p.stages := by
  induction built with
  | empty => intro place s here; cases here
  | ofTransform =>
      intro place s here
      cases place with
      | zero => cases here
      | succ place => cases here
  | ofShaper =>
      intro place s here
      cases place with
      | zero => rfl
      | succ place => cases here
  | withDebug _ _ ih => exact ih
  | withObserver _ ih => exact ih
  | append _ appended ih =>
      rename_i p stage q _
      obtain ⟨unended,rfl⟩ := append_ok.mp appended
      intro place s here
      rw [List.getElem?_append] at here
      split at here
      · have last := ih place s here
        rw [isTerminal,List.getLast?_eq_getElem?,← last,Nat.add_sub_cancel,here] at unended
        cases unended
      · have bound := (List.getElem?_eq_some_iff.mp here).1
        simp at bound ⊢
        omega

theorem isTerminal_eq {p : Pipeline} (last : ShaperLast p.stages) : p.isTerminal = p.stages.any Stage.isShaper := by
  rw [Bool.eq_iff_iff,List.any_eq_true,isTerminal,Option.any_eq_true]
  constructor
  · rintro ⟨stage,here,shapes⟩
    exact ⟨stage,List.mem_of_getLast? here,shapes⟩
  · rintro ⟨stage,member,shapes⟩
    cases stage with
    | transform t => cases shapes
    | shaper s =>
        obtain ⟨place,here⟩ := List.mem_iff_getElem?.mp member
        refine ⟨_,?_,shapes⟩
        rw [List.getLast?_eq_getElem?,← last place s here,Nat.add_sub_cancel,here]

def reached (stages : List Stage) (place : Nat) (input : Tree) (effects : Effects) :
    Except TransformError Output × Effects := ((composed (stages.take place)).apply input).run effects

theorem reached_first (stages : List Stage) (input : Tree) (effects : Effects) :
    reached stages 0 input effects = (.ok (.tree input),effects) := rfl

theorem reached_later (stage : Stage) (rest : List Stage) (place : Nat) (input : Tree) (effects : Effects) :
    reached (stage :: rest) (place + 1) input effects =
      proceed (fun next => reached rest place next) ((stage.apply input).run effects) := Stage.composed_run stage _

theorem reached_next {stages : List Stage} (here : stages[place]? = some stage) (input : Tree) (effects : Effects) :
    reached stages (place + 1) input effects =
      proceed (fun next => (stage.apply next).run) (reached stages place input effects) := by
  induction stages generalizing place input effects with
  | nil => cases here
  | cons first rest ih =>
      rw [reached_later]
      cases place with
      | zero =>
          cases Option.some.inj here
          exact Stage.proceed_self _
      | succ place =>
          rw [reached_later,Stage.proceed_trans]
          congr 1
          funext next later
          exact ih here next later

def ComesTo (stages : List Stage) (place : Nat) (input : Tree) (effects : Effects) (stage : Stage) (before : Tree)
    (outcome : Except TransformError Output) : Prop :=
  stages[place]? = some stage ∧ ∃ middle,reached stages place input effects = (.ok (.tree before),middle) ∧
    ((stage.apply before).run middle).1 = outcome

theorem comesTo_first {input : Tree} {effects : Effects} : ComesTo (first :: rest) 0 input effects stage before outcome ↔
    first = stage ∧ input = before ∧ ((stage.apply before).run effects).1 = outcome := by
  rw [ComesTo,reached_first,List.getElem?_cons_zero,Option.some.injEq]
  constructor
  · rintro ⟨same,_,given,came⟩
    cases given
    exact ⟨same,rfl,came⟩
  · rintro ⟨same,rfl,came⟩
    exact ⟨same,_,rfl,came⟩

theorem comesTo_later {input next : Tree} {effects middle : Effects}
    (made : (first.apply input).run effects = (.ok (.tree next),middle)) :
    ComesTo (first :: rest) (place + 1) input effects stage before outcome ↔
      ComesTo rest place next middle stage before outcome := by
  rw [ComesTo,ComesTo,reached_later,made,List.getElem?_cons_succ]
  rfl

theorem not_comesTo_later {input : Tree} {effects : Effects}
    (stopped : ∀ next,((first.apply input).run effects).1 ≠ .ok (.tree next)) :
    ¬ ComesTo (first :: rest) (place + 1) input effects stage before outcome := by
  rintro ⟨_,middle,given,_⟩
  rw [reached_later] at given
  rcases made : (first.apply input).run effects with ⟨_ | (next | _),_⟩
  · rw [made] at given
    cases given
  · exact stopped next (by rw [made])
  · rw [made] at given
    cases given

theorem runFrom_run (index : Nat) (stage : Stage) (rest : List Stage) (tree : Tree) (effects : Effects) :
    (runFrom index (stage :: rest) tree).run effects =
      match (stage.apply tree).run effects with
      | (.ok (.tree next),later) =>
        let ran := (runFrom (index + 1) rest next).run later
        ((ran.1.1,⟨index,stage.label,tree.size,some next.size⟩ :: ran.1.2),ran.2)
      | (.ok (.value value),later) => ((.ok (.value value),[⟨index,stage.label,tree.size,none⟩]),later)
      | (.error error,later) => ((.error error,[]),later) := by
  cases stage with
  | transform t =>
      rw [runFrom,StateT.run_bind,Stage.transform_run]
      rcases (t.apply tree).run effects with ⟨_ | _,_⟩ <;> rfl
  | shaper s =>
      rw [runFrom,StateT.run_bind,Stage.shaper_run]
      rcases (s.apply tree).run effects with ⟨_ | _,_⟩ <;> rfl

theorem runFrom_outcome (index : Nat) (stages : List Stage) (tree : Tree) (effects : Effects) :
    (((runFrom index stages tree).run effects).1.1,((runFrom index stages tree).run effects).2) =
      ((composed stages).apply tree).run effects := by
  induction stages generalizing index tree effects with
  | nil => rfl
  | cons stage rest ih =>
      rw [runFrom_run,Stage.composed_run]
      rcases (stage.apply tree).run effects with ⟨_ | (next | _),later⟩
      · rfl
      · exact ih (index + 1) next later
      · rfl

def rows (index : Nat) (stages : List Stage) (tree : Tree) (effects : Effects) : List Report :=
  ((runFrom index stages tree).run effects).1.2

theorem rows_none (index : Nat) (tree : Tree) (effects : Effects) : rows index [] tree effects = [] := rfl

theorem rows_failed {tree : Tree} {effects : Effects} (made : (stage.apply tree).run effects = (.error error,later)) :
    rows index (stage :: rest) tree effects = [] := by rw [rows,runFrom_run,made]

theorem rows_value {tree : Tree} {effects : Effects} (made : (stage.apply tree).run effects = (.ok (.value value),later)) :
    rows index (stage :: rest) tree effects = [⟨index,stage.label,tree.size,none⟩] := by rw [rows,runFrom_run,made]

theorem rows_tree {tree next : Tree} {effects : Effects}
    (made : (stage.apply tree).run effects = (.ok (.tree next),later)) :
    rows index (stage :: rest) tree effects =
      ⟨index,stage.label,tree.size,some next.size⟩ :: rows (index + 1) rest next later := by
  rw [rows,runFrom_run,made]
  rfl

theorem row_first {tree : Tree} {effects : Effects} (made : ((stage.apply tree).run effects).1 = .ok output) :
    (rows index (stage :: rest) tree effects)[0]? = some ⟨index,stage.label,tree.size,output.size?⟩ := by
  rcases whole : (stage.apply tree).run effects with ⟨result,later⟩
  rw [whole] at made
  cases made
  cases output with
  | tree next => rw [rows_tree whole]; rfl
  | value value => rw [rows_value whole]; rfl

theorem rows_exact (index : Nat) (stages : List Stage) (tree : Tree) (effects : Effects) (place : Nat) (row : Report) :
    (rows index stages tree effects)[place]? = some row ↔
      ∃ stage before output,ComesTo stages place tree effects stage before (.ok output) ∧
        row = ⟨index + place,stage.label,before.size,output.size?⟩ := by
  induction stages generalizing index tree effects place with
  | nil => simp [rows_none,ComesTo]
  | cons first rest ih =>
      cases place with
      | zero =>
          simp only [comesTo_first]
          cases made : ((first.apply tree).run effects).1 with
          | error error =>
              rw [rows_failed (Prod.ext made rfl)]
              refine iff_of_false nofun ?_
              rintro ⟨_,_,_,⟨rfl,rfl,came⟩,_⟩
              cases made.symm.trans came
          | ok output =>
              rw [row_first made]
              constructor
              · intro same
                cases same
                exact ⟨first,tree,output,⟨rfl,rfl,made⟩,rfl⟩
              · rintro ⟨_,_,_,⟨rfl,rfl,came⟩,rfl⟩
                cases made.symm.trans came
                rfl
      | succ place =>
          rcases made : (first.apply tree).run effects with ⟨error | (next | value),later⟩
          · rw [rows_failed made]
            refine iff_of_false nofun ?_
            rintro ⟨_,_,_,came,_⟩
            exact not_comesTo_later (by rw [made]; nofun) came
          · rw [rows_tree made,List.getElem?_cons_succ,ih,Nat.add_assoc,Nat.add_comm 1]
            simp only [comesTo_later made]
          · rw [rows_value made]
            refine iff_of_false nofun ?_
            rintro ⟨_,_,_,came,_⟩
            exact not_comesTo_later (by rw [made]; nofun) came

theorem failed_exact (index : Nat) (stages : List Stage) (tree : Tree) (effects : Effects) (error : TransformError) :
    (((composed stages).apply tree).run effects).1 = .error error ↔
      ∃ stage before,ComesTo stages (rows index stages tree effects).length tree effects stage before (.error error) := by
  induction stages generalizing index tree effects with
  | nil => exact iff_of_false nofun fun ⟨_,_,here,_⟩ => nomatch here
  | cons first rest ih =>
      rw [Stage.composed_run]
      rcases made : (first.apply tree).run effects with ⟨other | (next | value),later⟩
      · rw [rows_failed made,List.length_nil]
        simp only [comesTo_first]
        constructor
        · intro same
          exact ⟨first,tree,rfl,rfl,by rw [made]; exact same⟩
        · rintro ⟨_,_,rfl,rfl,came⟩
          rw [made] at came
          exact came
      · rw [rows_tree made,List.length_cons]
        simp only [comesTo_later made]
        exact ih (index + 1) next later
      · rw [rows_value made]
        refine iff_of_false nofun ?_
        rintro ⟨_,_,came⟩
        exact not_comesTo_later (by rw [made]; nofun) came

theorem rows_length {index : Nat} {stages : List Stage} {tree : Tree} {effects : Effects} (last : ShaperLast stages)
    (made : (((composed stages).apply tree).run effects).1 = .ok output) :
    (rows index stages tree effects).length = stages.length := by
  induction stages generalizing index tree effects with
  | nil => rfl
  | cons first rest ih =>
      rw [Stage.composed_run] at made
      rcases ran : (first.apply tree).run effects with ⟨error | (next | value),later⟩
      · rw [ran] at made
        cases made
      · rw [ran] at made
        have later_last : ShaperLast rest := by
          intro place s here
          exact Nat.succ.inj (last (place + 1) s here)
        rw [rows_tree ran,List.length_cons,List.length_cons,ih later_last made]
      · have shapes := Stage.apply_value (congrArg Prod.fst ran)
        cases first with
        | transform t => cases shapes
        | shaper s => rw [rows_value ran,← last 0 s rfl]; rfl

theorem rows_linked {index : Nat} {stages : List Stage} {tree : Tree} {effects : Effects}
    (first : (rows index stages tree effects)[place]? = some row)
    (second : (rows index stages tree effects)[place + 1]? = some next) : row.nodesOut = some next.nodesIn := by
  obtain ⟨stage,before,output,⟨here,middle,given,came⟩,rfl⟩ := (rows_exact _ _ _ _ _ _).mp first
  obtain ⟨_,after,_,⟨_,_,again,_⟩,rfl⟩ := (rows_exact _ _ _ _ _ _).mp second
  rw [reached_next here,given] at again
  have same := came.symm.trans (congrArg Prod.fst again)
  cases same
  rfl

-- What a run of the stages comes to, and the rows of the stages that complete.
structure RunsAs (stages : List Stage) (input : Tree) (effects : Effects) (result : Except TransformError Output)
    (later : Effects) (completed : List Report) : Prop where
  composition : ((composed stages).apply input).run effects = (result,later)
  ends : ∀ output,result = .ok output →
    if stages.any Stage.isShaper then ∃ value,output = .value value else ∃ tree,output = .tree tree
  row : ∀ place row,completed[place]? = some row ↔
    ∃ stage before output,ComesTo stages place input effects stage before (.ok output) ∧
      row = ⟨place,stage.label,before.size,output.size?⟩
  linked : ∀ place row next,completed[place]? = some row → completed[place + 1]? = some next →
    row.nodesOut = some next.nodesIn
  all : ∀ output,result = .ok output → completed.length = stages.length
  fails : ∀ error,result = .error error ↔
    ∃ stage before,ComesTo stages completed.length input effects stage before (.error error)

theorem runs_as {stages : List Stage} (last : ShaperLast stages) (input : Tree) (effects : Effects) :
    RunsAs stages input effects (((composed stages).apply input).run effects).1 (((composed stages).apply input).run effects).2
      (rows 0 stages input effects) where
  composition := rfl
  ends output made := by
    rw [← Stage.composed_isShaper]
    cases output with
    | tree tree => rw [Stage.apply_tree made]; exact ⟨tree,rfl⟩
    | value value => rw [Stage.apply_value made]; exact ⟨value,rfl⟩
  row place row := by
    have numbered := rows_exact 0 stages input effects place row
    rwa [Nat.zero_add] at numbered
  linked _ _ _ := rows_linked
  all _ := rows_length last
  fails := failed_exact 0 stages input effects

theorem run_rows (p : Pipeline) (input : Tree) (effects : Effects) :
    (p.run input).run effects =
      (((((composed p.stages).apply input).run effects).1,if p.debug && p.observed then rows 0 p.stages input effects else []),
        (((composed p.stages).apply input).run effects).2) := by
  rw [← runFrom_outcome 0]
  rfl

theorem run_exact (built : Built p) :
    ShaperLast p.stages ∧
    (∀ stage error,p.append stage = .error error ↔
      ∃ s,p.stages.getLast? = some (.shaper s) ∧ error = .typeMismatch s.label stage.label) ∧
    (∀ stage q,p.append stage = .ok q ↔ p.isTerminal = false ∧ q = { p with stages := p.stages ++ [stage] }) ∧
    p.isTerminal = p.stages.any Stage.isShaper ∧
    ∀ input effects,∃ result later completed,RunsAs p.stages input effects result later completed ∧
      (p.run input).run effects = ((result,if p.debug && p.observed then completed else []),later) ∧
      ∀ debug,∃ reports,((p.withDebug debug).run input).run effects = ((result,reports),later) := by
  have last := built_shaperLast built
  refine ⟨last,fun _ _ => append_error,fun _ _ => append_ok,isTerminal_eq last,?_⟩
  intro input effects
  exact ⟨_,_,_,runs_as last input effects,run_rows p input effects,fun debug => ⟨_,run_rows (p.withDebug debug) input effects⟩⟩

-- The second stage is to remove the root, so the first one alone is reported.
def failing : Pipeline :=
  ⟨[.transform .identity,.transform (.prune .any),.shaper .toMapping],true,true⟩

theorem run_failing : Built failing ∧
    (failing.run Tree.family).run ⟨4,[]⟩ = ((.error (.tree (.reparentRoot "root")),[⟨0,"identity",4,some 4⟩]),⟨4,[]⟩) ∧
    ∃ stage before,ComesTo failing.stages 1 Tree.family ⟨4,[]⟩ stage before (.error (.tree (.reparentRoot "root"))) := by
  have first : Built ⟨[.transform .identity],false,false⟩ := .append .empty rfl
  have second : Built ⟨[.transform .identity,.transform (.prune .any)],false,false⟩ := .append first rfl
  have third : Built ⟨failing.stages,false,false⟩ := .append second rfl
  have built : Built failing := .withObserver (.withDebug true third)
  have ran : (failing.run Tree.family).run ⟨4,[]⟩ =
      ((.error (.tree (.reparentRoot "root")),[⟨0,"identity",4,some 4⟩]),⟨4,[]⟩) := rfl
  obtain ⟨_,_,_,_,runs⟩ := run_exact built
  obtain ⟨result,later,completed,as,same,_⟩ := runs Tree.family ⟨4,[]⟩
  cases same.symm.trans ran
  exact ⟨built,ran,(as.fails _).mp rfl⟩

end Pipeline
end SharedTree
