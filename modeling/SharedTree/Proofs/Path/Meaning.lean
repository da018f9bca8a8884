import SharedTree.Path.Evaluate
import SharedTree.Proofs.Tree.Paths

namespace SharedTree
namespace Path

-- `current` is the node taken last, none at the start. A deep wildcard takes
-- any number of nodes, a filter tests the current one and takes none, and a
-- step takes one node by its name.
def Reads : List Segment → Option Node → List Node → Prop
  | [],_,chain => chain = []
  | .deep :: rest,current,chain =>
    ∃ taken left,chain = taken ++ left ∧ Reads rest (taken.getLast?.or current) left
  | segment :: rest,current,chain =>
    if segment.isFilter then
      ∃ node,current = some node ∧ segment.acceptsAttributes node.attributes = true ∧ Reads rest current chain
    else
      ∃ node left,chain = node :: left ∧ segment.acceptsName node.name = true ∧ Reads rest (some node) left

def Passes (current : Option Node) (segment : Segment) : Prop :=
  Marks.passes (current.map Node.attributes) segment = true

variable {segment : Segment}

theorem reads_filter (filter : segment.isFilter = true) :
    Reads (segment :: rest) current chain ↔
      ∃ node,current = some node ∧ segment.acceptsAttributes node.attributes = true ∧ Reads rest current chain := by
  cases segment <;> simp [Segment.isFilter] at filter <;> simp [Reads,Segment.isFilter]

theorem reads_step (step : segment.isStep = true) :
    Reads (segment :: rest) current chain ↔
      ∃ node left,chain = node :: left ∧ segment.acceptsName node.name = true ∧ Reads rest (some node) left := by
  cases segment <;> simp [Segment.isStep] at step <;> simp [Reads,Segment.isFilter]

theorem passes_filter (filter : segment.isFilter = true) :
    Passes current segment ↔ ∃ node,current = some node ∧ segment.acceptsAttributes node.attributes = true := by
  cases segment <;> simp [Segment.isFilter] at filter <;> cases current <;> simp [Passes,Marks.passes]

theorem not_passes_step (step : segment.isStep = true) : ¬ Passes current segment := by
  cases segment <;> simp [Segment.isStep] at step <;> cases current <;>
    simp [Passes,Marks.passes,Segment.acceptsAttributes]

theorem passes_deep : Passes current .deep := rfl

theorem deep_or_filter_or_step (segment : Segment) :
    segment = .deep ∨ segment.isFilter = true ∨ segment.isStep = true := by
  cases segment <;> simp [Segment.isFilter,Segment.isStep]

theorem reads_of_passes (passes : Passes current segment) (reads : Reads rest current chain) :
    Reads (segment :: rest) current chain := by
  rcases deep_or_filter_or_step segment with rfl | filter | step
  · exact ⟨[],chain,rfl,reads⟩
  · obtain ⟨node,here,accepted⟩ := (passes_filter filter).mp passes
    exact (reads_filter filter).mpr ⟨node,here,accepted,reads⟩
  · exact absurd passes (not_passes_step step)

theorem reads_nil : Reads (segment :: rest) current [] ↔ Passes current segment ∧ Reads rest current [] := by
  constructor
  · intro reads
    rcases deep_or_filter_or_step segment with rfl | filter | step
    · obtain ⟨taken,left,split,reads⟩ := reads
      obtain ⟨rfl,rfl⟩ := List.append_eq_nil_iff.mp split.symm
      exact ⟨passes_deep,reads⟩
    · obtain ⟨node,here,accepted,reads⟩ := (reads_filter filter).mp reads
      exact ⟨(passes_filter filter).mpr ⟨node,here,accepted⟩,reads⟩
    · obtain ⟨node,left,split,_⟩ := (reads_step step).mp reads
      cases split
  · intro given
    obtain ⟨passes,reads⟩ := given
    exact reads_of_passes passes reads

-- The next node is taken by a deep wildcard that stays, by a step, or after
-- the first segment has been passed.
theorem reads_cons : Reads (segment :: rest) current (node :: chain) ↔
    (segment = .deep ∧ Reads (segment :: rest) (some node) chain) ∨
      (segment.acceptsName node.name = true ∧ Reads rest (some node) chain) ∨
      (Passes current segment ∧ Reads rest current (node :: chain)) := by
  constructor
  · intro reads
    rcases deep_or_filter_or_step segment with rfl | filter | step
    · obtain ⟨taken,left,split,reads⟩ := reads
      cases taken with
      | nil =>
          rw [List.nil_append] at split
          subst split
          exact .inr (.inr ⟨passes_deep,reads⟩)
      | cons first taken =>
          obtain ⟨rfl,rfl⟩ := List.cons.inj split
          refine .inl ⟨rfl,taken,left,rfl,?_⟩
          cases taken with
          | nil => exact reads
          | cons second taken => simpa [List.getLast?_cons] using reads
    · obtain ⟨other,here,accepted,reads⟩ := (reads_filter filter).mp reads
      exact .inr (.inr ⟨(passes_filter filter).mpr ⟨other,here,accepted⟩,reads⟩)
    · obtain ⟨first,left,split,accepted,reads⟩ := (reads_step step).mp reads
      obtain ⟨rfl,rfl⟩ := List.cons.inj split
      exact .inr (.inl ⟨accepted,reads⟩)
  · intro either
    rcases either with ⟨rfl,taken,left,rfl,reads⟩ | ⟨accepted,reads⟩ | ⟨passes,reads⟩
    · refine ⟨node :: taken,left,rfl,?_⟩
      cases taken with
      | nil => exact reads
      | cons second taken => simpa [List.getLast?_cons] using reads
    · rcases deep_or_filter_or_step segment with rfl | filter | step
      · cases accepted
      · rw [Segment.acceptsName_of_filter filter] at accepted
        cases accepted
      · exact (reads_step step).mpr ⟨node,chain,rfl,accepted,reads⟩
    · exact reads_of_passes passes reads

-- Some set mark stands in front of segments that read the rest of the chain.
-- This is what the marks of a node are kept for.
def Live (segments : List Segment) (marks : Marks) (current : Option Node) (chain : List Node) : Prop :=
  ∃ place,marks[place]? = some true ∧ Reads (segments.drop place) current chain

theorem live_nil : Live [] [last] current chain ↔ last = true ∧ chain = [] := by
  constructor
  · intro given
    obtain ⟨place,set,reads⟩ := given
    cases place with
    | zero => exact ⟨by simpa using set,by simpa [Reads] using reads⟩
    | succ place => simp at set
  · intro given
    obtain ⟨rfl,rfl⟩ := given
    exact ⟨0,rfl,by simp [Reads]⟩

theorem live_cons : Live (segment :: rest) (live :: marks) current chain ↔
    (live = true ∧ Reads (segment :: rest) current chain) ∨ Live rest marks current chain := by
  constructor
  · intro given
    obtain ⟨place,set,reads⟩ := given
    cases place with
    | zero => exact .inl ⟨by simpa using set,reads⟩
    | succ place => exact .inr ⟨place,by simpa using set,reads⟩
  · intro either
    rcases either with ⟨rfl,reads⟩ | ⟨place,set,reads⟩
    · exact ⟨0,rfl,reads⟩
    · exact ⟨place + 1,by simpa using set,reads⟩

theorem live_head (first : Bool) (marks : Marks) : Live segments (first :: marks) current chain ↔
    (first = true ∧ Reads segments current chain) ∨ Live segments (false :: marks) current chain := by
  constructor
  · intro given
    obtain ⟨place,set,reads⟩ := given
    cases place with
    | zero => exact .inl ⟨by simpa using set,reads⟩
    | succ place => exact .inr ⟨place + 1,by simpa using set,reads⟩
  · intro either
    rcases either with ⟨rfl,reads⟩ | ⟨place,set,reads⟩
    · exact ⟨0,rfl,reads⟩
    · cases place with
      | zero => simp at set
      | succ place => exact ⟨place + 1,by simpa using set,reads⟩

theorem live_of_head (reads : Reads segments current chain) : Live segments (true :: marks) current chain :=
  ⟨0,rfl,reads⟩

theorem not_live_of_dead (dead : Marks.any marks = false) : ¬ Live segments marks current chain := by
  intro given
  obtain ⟨place,set,_⟩ := given
  have present : true ∈ marks := List.mem_of_getElem? set
  simp [Marks.any] at dead
  exact absurd present (by simpa using dead)

-- No mark is missing behind a segment that can be passed.
def Closed (current : Option Node) : List Segment → Marks → Prop
  | segment :: segments,live :: next :: marks =>
    (live = true → Passes current segment → next = true) ∧ Closed current segments (next :: marks)
  | _,_ => True

def Fits (segments : List Segment) (marks : Marks) : Prop := marks.length = segments.length + 1

theorem fits_start (segments : List Segment) : Fits segments (Marks.start segments) := by
  simp [Fits,Marks.start]

theorem settle_length (attributes : Option Attributes) (segments : List Segment) (marks : Marks) :
    (Marks.settle attributes segments marks).length = marks.length := by
  induction segments generalizing marks with
  | nil => rfl
  | cons segment segments ih =>
      match marks with
      | [] | [_] => rfl
      | live :: next :: marks => simp [Marks.settle,ih]

theorem consume_length (fits : Fits segments marks) :
    (Marks.consume name moved segments marks).length = segments.length + 1 := by
  induction segments generalizing marks moved with
  | nil => cases marks <;> rfl
  | cons segment segments ih =>
      cases marks with
      | nil => simp [Fits] at fits
      | cons live marks =>
          have rest : Fits segments marks := by simpa [Fits] using fits
          simp [Marks.consume,ih rest]

theorem settle_head (attributes : Option Attributes) (segments : List Segment) (first : Bool) (marks : Marks) :
    ∃ others,Marks.settle attributes segments (first :: marks) = first :: others := by
  match segments,marks with
  | [],_ | _ :: _,[] => exact ⟨_,rfl⟩
  | _ :: _,_ :: _ => exact ⟨_,rfl⟩

theorem settle_closed (current : Option Node) (segments : List Segment) (marks : Marks) :
    Closed current segments (Marks.settle (current.map Node.attributes) segments marks) := by
  induction segments generalizing marks with
  | nil => trivial
  | cons segment segments ih =>
      match marks with
      | [] | [_] => trivial
      | live :: next :: marks =>
          have rest := ih ((next || (live && Marks.passes (current.map Node.attributes) segment)) :: marks)
          obtain ⟨others,settled⟩ := settle_head (current.map Node.attributes) segments
            (next || (live && Marks.passes (current.map Node.attributes) segment)) marks
          rw [settled] at rest
          simp only [Marks.settle,settled]
          refine ⟨?_,rest⟩
          intro set passes
          unfold Passes at passes
          simp [set,passes]

theorem live_settle (fits : Fits segments marks) (current : Option Node) (chain : List Node) :
    Live segments (Marks.settle (current.map Node.attributes) segments marks) current chain ↔
      Live segments marks current chain := by
  induction segments generalizing marks with
  | nil => rfl
  | cons segment segments ih =>
      match marks with
      | [] | [_] => simp [Fits] at fits
      | live :: next :: marks =>
          rw [Marks.settle,live_cons,live_cons,ih (by simpa [Fits] using fits),live_head,live_head next]
          have moved : (next || (live && Marks.passes (current.map Node.attributes) segment)) = true ↔
              next = true ∨ (live = true ∧ Passes current segment) := by simp [Passes]
          rw [moved]
          constructor
          · intro either
            rcases either with here | ⟨set | ⟨set,passes⟩,reads⟩ | later
            · exact .inl here
            · exact .inr (.inl ⟨set,reads⟩)
            · exact .inl ⟨set,reads_of_passes passes reads⟩
            · exact .inr (.inr later)
          · intro either
            rcases either with here | ⟨set,reads⟩ | later
            · exact .inl here
            · exact .inr (.inl ⟨.inl set,reads⟩)
            · exact .inr (.inr later)

theorem consume_cons (name : String) (moved live : Bool) (segment : Segment) (segments : List Segment) (marks : Marks) :
    ∃ stays,(stays = true ↔ moved = true ∨ (live = true ∧ segment = .deep)) ∧
      Marks.consume name moved (segment :: segments) (live :: marks) =
        stays :: Marks.consume name (live && segment.acceptsName name) segments marks := by
  cases segment <;> exact ⟨_,by simp,rfl⟩

-- Taking a node keeps exactly the readings that take this node next. `moved`
-- stands for the step before the first segment, whose reading goes on here.
theorem live_consume (fits : Fits segments marks) (closed : Closed current segments marks)
    (node : Node) (moved : Bool) (chain : List Node) :
    Live segments (Marks.consume node.name moved segments marks) (some node) chain ↔
      (moved = true ∧ Reads segments (some node) chain) ∨ Live segments marks current (node :: chain) := by
  induction segments generalizing marks moved with
  | nil =>
      match marks with
      | [] => simp [Fits] at fits
      | [last] => simp [Marks.consume,live_nil,Reads]
      | _ :: _ :: _ => simp [Fits] at fits
  | cons segment segments ih =>
      match marks with
      | [] | [_] => simp [Fits] at fits
      | live :: next :: marks =>
          obtain ⟨follows,closed⟩ := closed
          obtain ⟨first,stays,consumed⟩ := consume_cons node.name moved live segment segments (next :: marks)
          rw [consumed,live_cons,live_cons,ih (by simpa [Fits] using fits) closed,reads_cons]
          have steps : (live && segment.acceptsName node.name) = true ↔
              live = true ∧ segment.acceptsName node.name = true := by simp
          rw [stays,steps]
          constructor
          · intro either
            rcases either with ⟨set | ⟨set,deep⟩,reads⟩ | ⟨⟨set,accepted⟩,reads⟩ | later
            · exact .inl ⟨set,reads⟩
            · exact .inr (.inl ⟨set,.inl ⟨deep,reads⟩⟩)
            · exact .inr (.inl ⟨set,.inr (.inl ⟨accepted,reads⟩)⟩)
            · exact .inr (.inr later)
          · intro either
            rcases either with ⟨set,reads⟩ | ⟨set,⟨deep,reads⟩ | ⟨accepted,reads⟩ | ⟨passes,reads⟩⟩ | later
            · exact .inl ⟨.inl set,reads⟩
            · exact .inl ⟨.inr ⟨set,deep⟩,reads⟩
            · exact .inr (.inl ⟨⟨set,accepted⟩,reads⟩)
            · rw [follows set passes]
              exact .inr (.inr (live_of_head reads))
            · exact .inr (.inr later)

theorem live_complete (fits : Fits segments marks) (closed : Closed current segments marks) :
    Live segments marks current [] ↔ Marks.complete marks = true := by
  induction segments generalizing marks with
  | nil =>
      match marks with
      | [] => simp [Fits] at fits
      | [last] => simp [live_nil,Marks.complete]
      | _ :: _ :: _ => simp [Fits] at fits
  | cons segment segments ih =>
      match marks with
      | [] | [_] => simp [Fits] at fits
      | live :: next :: marks =>
          obtain ⟨follows,closed⟩ := closed
          have last : Marks.complete (live :: next :: marks) = Marks.complete (next :: marks) := by
            simp [Marks.complete]
          rw [live_cons,reads_nil,ih (by simpa [Fits] using fits) closed,last]
          constructor
          · intro either
            rcases either with ⟨set,passes,reads⟩ | later
            · have here : Live segments (next :: marks) current [] := by
                rw [follows set passes]
                exact live_of_head reads
              exact (ih (by simpa [Fits] using fits) closed).mp here
            · exact later
          · exact .inr

theorem live_start : Live segments (Marks.start segments) current chain ↔ Reads segments current chain := by
  constructor
  · intro given
    obtain ⟨place,set,reads⟩ := given
    cases place with
    | zero => exact reads
    | succ place =>
        rw [Marks.start,List.getElem?_cons_succ] at set
        obtain ⟨_,_,dead⟩ := List.mem_map.mp (List.mem_of_getElem? set)
        cases dead
  · exact live_of_head

-- The invariant of a run: marks that fit and are closed accept what they can read.
theorem acceptsFrom_exact (e : PathExpr) (fits : Fits e.segments marks) (closed : Closed current e.segments marks) :
    e.acceptsFrom marks chain = true ↔ Live e.segments marks current chain := by
  induction chain generalizing marks current with
  | nil => exact (live_complete fits closed).symm
  | cons node chain ih =>
      have consumed : Live e.segments (Marks.consume node.name false e.segments marks) (some node) chain ↔
          Live e.segments marks current (node :: chain) := by
        simpa using live_consume fits closed node false chain
      rw [← consumed,PathExpr.acceptsFrom,PathExpr.advance?]
      cases alive : Marks.any (Marks.consume node.name false e.segments marks) with
      | false =>
          simp only [Bool.false_eq_true,↓reduceIte,false_iff]
          exact not_live_of_dead alive
      | true =>
          have fits : Fits e.segments (Marks.consume node.name false e.segments marks) := consume_length fits
          simp only [↓reduceIte]
          have run := ih ((settle_length _ _ _).trans fits) (settle_closed (some node) e.segments _)
          exact run.trans (live_settle fits (some node) chain)

theorem accepts_exact (e : PathExpr) (chain : List Node) :
    e.accepts chain = true ↔ Reads e.segments none chain := by
  have fits := fits_start e.segments
  have closed := settle_closed none e.segments (Marks.start e.segments)
  have run : e.accepts chain = true ↔ Live e.segments e.initial none chain :=
    acceptsFrom_exact e ((settle_length _ _ _).trans fits) closed
  have settled : Live e.segments e.initial none chain ↔ Live e.segments (Marks.start e.segments) none chain :=
    live_settle fits none chain
  rw [run,settled,live_start]

-- The marks neither lose nor invent a reading.
theorem selects_exact (e : PathExpr) {tree : Tree} (found : tree.at? path = some p) :
    e.selects p = true ↔ Reads e.segments none (tree.root.along path) := by
  rw [PathExpr.selects,Tree.chain_eq found]
  exact accepts_exact e _

-- Only the first child of the root has an attribute, and only that child has a child.
def marked : Tree :=
  ⟨.mk 3 "root" .empty [.mk 1 "x" (Table.empty.insert "k" .null) [.mk 0 "y" .empty []],.mk 2 "z" .empty []],rfl⟩

def belowMarked : PathExpr := ⟨"**[k].*",[.deep,.present "k",.one]⟩

theorem selects_marked : ∃ y z,marked.at? [0,0] = some y ∧ marked.at? [1] = some z ∧
    belowMarked.selects y = true ∧ Reads belowMarked.segments none (marked.root.along [0,0]) ∧
    belowMarked.selects z = false ∧ ¬ Reads belowMarked.segments none (marked.root.along [1]) := by
  have within : marked.at? [0,0] = some ⟨.mk 0 "y" .empty [],[.mk 1 "x" (Table.empty.insert "k" .null)
    [.mk 0 "y" .empty []],marked.root]⟩ := rfl
  have beside : marked.at? [1] = some ⟨.mk 2 "z" .empty [],[marked.root]⟩ := rfl
  refine ⟨_,_,within,beside,by decide +kernel,(selects_exact _ within).mp (by decide +kernel),by decide +kernel,?_⟩
  intro reads
  have selected := (selects_exact _ beside).mpr reads
  revert selected
  decide +kernel

end Path
end SharedTree
