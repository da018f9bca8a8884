import Mathlib.Data.List.Basic
import SharedTree.Path.Compile

namespace SharedTree
namespace Path

namespace RawSegment

def unplaced (s : RawSegment) : RawSegment := { s with start := 0 }

theorem unplaced_iff {r r' : RawSegment} :
    r.unplaced = r'.unplaced ↔ r.name = r'.name ∧ r.regex = r'.regex ∧ r.filters = r'.filters := by simp [unplaced]

def head [Regex.Engine] (settings : Settings) (raw : RawSegment) : Except PathFault Segment :=
  if raw.regex then regexOf (String.ofList raw.name) else classify settings raw.start raw.name

end RawSegment

theorem segmentsOf_ok [Regex.Engine] : segmentsOf settings raw = .ok segments ↔
    raw.name ≠ [] ∧ ∃ head filters,raw.head settings = .ok head ∧ filtersOf raw.filters = .ok filters ∧
      segments = head :: filters := by
  constructor
  · intro compiled
    unfold segmentsOf at compiled
    split at compiled
    · cases compiled
    · rename_i named
      dsimp only at compiled
      split at compiled
      · cases compiled
      · rename_i head read
        split at compiled
        · cases compiled
        · rename_i filters tests
          cases compiled
          exact ⟨by simpa using named,head,filters,read,tests,rfl⟩
  · intro given
    obtain ⟨named,head,filters,read,tests,rfl⟩ := given
    unfold RawSegment.head at read
    simp [segmentsOf,named,read,tests]

theorem allSegments_cons [Regex.Engine] : allSegments settings (raw :: rest) = .ok segments ↔
    ∃ first others,segmentsOf settings raw = .ok first ∧ allSegments settings rest = .ok others ∧
      segments = first ++ others := by
  rw [allSegments]
  cases segmentsOf settings raw with
  | error fault => simp
  | ok first =>
      cases allSegments settings rest with
      | error fault => simp
      | ok others => simp [eq_comm]

theorem allSegments_append [Regex.Engine] (compiled : allSegments settings raws = .ok segments)
    (after : allSegments settings more = .ok others) :
    allSegments settings (raws ++ more) = .ok (segments ++ others) := by
  induction raws generalizing segments with
  | nil =>
      cases compiled
      exact after
  | cons raw raws ih =>
      obtain ⟨first,rest,own,left,rfl⟩ := allSegments_cons.mp compiled
      rw [List.cons_append,List.append_assoc]
      exact allSegments_cons.mpr ⟨first,_,own,ih left,rfl⟩

variable {segment : Segment}

theorem ofFilter_isFilter (read : ofFilter filter = .ok segment) : segment.isFilter = true := by
  unfold ofFilter at read
  dsimp only at read
  repeat' split at read
  all_goals cases read
  all_goals rfl

theorem filtersOf_isFilter (read : filtersOf filters = .ok segments) : ∀ segment ∈ segments,segment.isFilter = true := by
  induction filters generalizing segments with
  | nil =>
      cases read
      simp
  | cons filter filters ih =>
      unfold filtersOf at read
      cases first : ofFilter filter with
      | error fault => simp [first] at read
      | ok segment =>
          cases rest : filtersOf filters with
          | error fault => simp [first,rest] at read
          | ok others =>
              simp only [first,rest] at read
              cases read
              simp [ofFilter_isFilter first]
              exact ih rest

theorem fuzzy_ok (read : fuzzy settings start body = .ok segment) :
    ∃ name threshold,segment = .fuzzy name threshold ∧ ∀ start',fuzzy settings start' body = .ok segment := by
  unfold fuzzy at read ⊢
  cases after : RawSegment.afterColon? body with
  | none =>
      simp only [after] at read ⊢
      split at read
      · cases read
      · cases read
        simp_all
  | some text =>
      cases found : threshold? text with
      | none => simp [after,found] at read
      | some threshold =>
          simp only [after,found] at read ⊢
          split at read
          · cases read
          · cases read
            simp_all

theorem classify_ok (read : classify settings start name = .ok segment) :
    segment.isFilter = false ∧ ∀ start',classify settings start' name = .ok segment := by
  unfold classify at read ⊢
  split at read
  · cases read
    simp [Segment.isFilter]
  · cases read
    simp [Segment.isFilter]
  · obtain ⟨name,threshold,rfl,anywhere⟩ := fuzzy_ok read
    exact ⟨rfl,anywhere⟩
  · split at read <;> cases read
    · simp_all [Segment.isFilter]
    · simp_all [Segment.isFilter]

theorem regexOf_ok [Regex.Engine] (read : regexOf source = .ok segment) : ∃ pattern,segment = .regex source pattern := by
  unfold regexOf at read
  split at read
  · cases read
    exact ⟨_,rfl⟩
  · cases read

theorem head_isFilter [Regex.Engine] {raw : RawSegment} (read : raw.head settings = .ok segment) : segment.isFilter = false := by
  unfold RawSegment.head at read
  split at read
  · obtain ⟨pattern,rfl⟩ := regexOf_ok read
    rfl
  · exact (classify_ok read).1

theorem head_unplaced [Regex.Engine] {raw raw' : RawSegment} (same : raw.unplaced = raw'.unplaced)
    (read : raw.head settings = .ok segment) : raw'.head settings = .ok segment := by
  obtain ⟨name,regex,_⟩ := RawSegment.unplaced_iff.mp same
  unfold RawSegment.head at read ⊢
  rw [← name,← regex]
  split at read
  · rename_i yes
    rw [if_pos yes]
    exact read
  · rename_i no
    rw [if_neg no]
    exact (classify_ok read).2 raw'.start

theorem allSegments_heads [Regex.Engine] (compiled : allSegments settings raws = .ok segments) :
    (segments.filter fun segment => !segment.isFilter).length = raws.length := by
  induction raws generalizing segments with
  | nil =>
      cases compiled
      rfl
  | cons raw raws ih =>
      obtain ⟨first,rest,own,left,rfl⟩ := allSegments_cons.mp compiled
      obtain ⟨_,head,filters,read,tests,rfl⟩ := segmentsOf_ok.mp own
      have dropped : (filters.filter fun segment => !segment.isFilter) = [] := by
        simpa using filtersOf_isFilter tests
      simp [head_isFilter read,dropped,ih left]

theorem allSegments_unplaced [Regex.Engine] (same : raws.map RawSegment.unplaced = raws'.map RawSegment.unplaced)
    (compiled : allSegments settings raws = .ok segments) : allSegments settings raws' = .ok segments := by
  induction raws generalizing raws' segments with
  | nil =>
      cases List.map_eq_nil_iff.mp same.symm
      exact compiled
  | cons raw raws ih =>
      cases raws' with
      | nil => cases same
      | cons raw' raws' =>
          simp only [List.map_cons,List.cons.injEq] at same
          obtain ⟨first,rest,own,left,rfl⟩ := allSegments_cons.mp compiled
          obtain ⟨named,head,filters,read,tests,rfl⟩ := segmentsOf_ok.mp own
          obtain ⟨name,_,kept⟩ := RawSegment.unplaced_iff.mp same.1
          rw [name] at named
          rw [kept] at tests
          have again := segmentsOf_ok.mpr ⟨named,head,filters,head_unplaced same.1 read,tests,rfl⟩
          exact allSegments_cons.mpr ⟨_,_,again,ih same.2 left,rfl⟩

end Path

theorem PathExpr.compileWith_ok [Regex.Engine] {source : String} : compileWith settings source = .ok e ↔
    e.source = source ∧ ∃ raws,Path.rawSegments source.toList = .ok raws ∧ Path.allSegments settings raws = .ok e.segments := by
  obtain ⟨source',segments⟩ := e
  unfold compileWith
  cases Path.rawSegments source.toList with
  | error fault => simp
  | ok raws =>
      cases compiled : Path.allSegments settings raws with
      | error fault => simp [compiled]
      | ok segments => simp [compiled,eq_comm]

end SharedTree
