import SharedTree.Pattern.Reader
import SharedTree.Proofs.Path.Pieces

namespace SharedTree
namespace PathFault

def position? : PathFault → Option Nat
  | unbalanced _ position | invalidEscape position | emptySegment position => some position
  | _ => none

end PathFault

namespace Path

def Begins (source : List Char) (position : Nat) : Prop := position = 0 ∨ ∃ p,StandsAt source '.' p ∧ position = p + 1

def Placed (source : List Char) : PathFault → Prop
  | .unbalanced bracket position => (bracket = '[' ∨ bracket = ']') ∧ StandsAt source bracket position
  | .invalidEscape position => StandsAt source '\\' position
  | .emptySegment position => Begins source position
  | _ => True

inductive Fails : Place → PathFault → Prop
  | unfinished (failed : s.finish = .error fault) : Fails ⟨s,position,[]⟩ fault
  | dangling : Fails ⟨s,position,['\\']⟩ (.invalidEscape position)
  | escape : Fails ⟨s,position,'\\' :: c :: rest⟩ (.invalidEscape position)
  | closing : Fails ⟨s,position,']' :: rest⟩ (.unbalanced ']' position)
  | trailing (last : s.current.filters.getLast? = some filter) :
      Fails ⟨s,position,rest⟩ (.invalidFilter (String.ofList filter) (.trailing c))

variable {source text : List Char} {c : Char} {s : Scan} {m n : Place} {fault : PathFault} {position : Nat}
  {settings : Settings} {raw : RawSegment} {raws : List RawSegment}

theorem Scan.push_error (failed : s.push c = .error fault) :
    ∃ filter,s.current.filters.getLast? = some filter ∧ fault = .invalidFilter (String.ofList filter) (.trailing c) := by
  unfold push RawSegment.push at failed
  cases last : s.current.filters.getLast? with
  | none => simp [last] at failed
  | some filter =>
      simp only [last] at failed
      cases failed
      exact ⟨filter,rfl,rfl⟩

theorem Scan.push2_error (failed : s.push2 c d = .error fault) :
    ∃ filter,s.current.filters.getLast? = some filter ∧ fault = .invalidFilter (String.ofList filter) (.trailing c) := by
  unfold push2 at failed
  split at failed
  · rename_i step
    obtain ⟨bare,rfl⟩ := push_ok step
    have again : (s.add [c]).current.filters = [] := bare
    rw [push_bare again] at failed
    cases failed
  · rename_i step
    cases failed
    exact push_error step

theorem Scan.escaped_error (failed : s.escaped position c = .error fault) : Fails ⟨s,position,'\\' :: c :: rest⟩ fault := by
  unfold escaped at failed
  repeat' split at failed
  · obtain ⟨filter,last,rfl⟩ := push_error failed
    exact .trailing last
  · obtain ⟨filter,last,rfl⟩ := push2_error failed
    exact .trailing last
  · obtain ⟨filter,last,rfl⟩ := push_error failed
    exact .trailing last
  · cases failed
    exact .escape

theorem Scan.plain_error (failed : s.plain position c next = .error fault) : Fails ⟨s,position,c :: rest⟩ fault := by
  unfold plain at failed
  repeat' split at failed
  all_goals first
    | (obtain ⟨filter,last,rfl⟩ := push_error failed; exact .trailing last)
    | cases failed
  rename_i closes _
  subst closes
  exact .closing

theorem move_or_stop (failed : m.run = .error fault) : (∃ n,Move m n) ∨ Fails m fault := by
  obtain ⟨s,position,text⟩ := m
  cases text with
  | nil => exact .inr (.unfinished failed)
  | cons c rest =>
      cases free : s.filter with
      | some f => exact .inl ⟨_,.reading free⟩
      | none =>
          rw [Place.run,Scan.run.eq_def] at failed
          simp only [free] at failed
          split at failed
          · rename_i escape
            subst escape
            cases rest with
            | nil =>
                cases failed
                exact .inr .dangling
            | cons e rest =>
                cases step : s.escaped position e with
                | ok t => exact .inl ⟨_,Scan.escaped_move free step⟩
                | error first =>
                    simp only [step] at failed
                    cases failed
                    exact .inr (Scan.escaped_error step)
          · rename_i usual
            cases step : s.plain position c rest.head? with
            | ok t => exact .inl ⟨_,Scan.plain_move free usual step⟩
            | error first =>
                simp only [step] at failed
                cases failed
                exact .inr (Scan.plain_error step)

theorem reached_stop (failed : m.run = .error fault) : ∃ n,Reached m n ∧ Fails n fault := by
  induction measured : m.text.length using Nat.strongRecOn generalizing m with
  | ind size ih =>
      rcases move_or_stop failed with ⟨n,step⟩ | fails
      · have shorter := step.shorter
        rw [measured] at shorter
        obtain ⟨last,reached,fails⟩ := ih _ shorter (step.run_eq.symm.trans failed) rfl
        exact ⟨last,.move step reached,fails⟩
      · exact ⟨m,.stay,fails⟩

theorem Fails.placed (fails : Fails m fault) (standing : m.Standing source front piece) : Placed source fault := by
  cases fails with
  | unfinished failed =>
      unfold Scan.finish at failed
      split at failed
      · rename_i f open_
        cases failed
        obtain ⟨a,opened,start⟩ := standing.filter f open_
        refine ⟨.inl rfl,front ++ a,f.text,?_,start⟩
        rw [standing.whole,opened]
        simp
      · rename_i p _ first
        cases failed
        exact ⟨.inl rfl,standing.classes p (List.mem_of_getLast? first)⟩
      · cases failed
  | dangling => exact standing.here rfl
  | escape => exact standing.here rfl
  | closing => exact ⟨.inr rfl,standing.here rfl⟩
  | trailing last => trivial

theorem rawSegments_placed (failed : rawSegments source = .error fault) : Placed source fault := by
  obtain ⟨n,reached,fails⟩ := reached_stop (m := ⟨.start,0,source⟩) failed
  obtain ⟨front,piece,standing⟩ := reached.stands (start_stands source)
  exact fails.placed standing

theorem rawSegments_begin (cut : rawSegments source = .ok raws) : ∀ raw ∈ raws,Begins source raw.start := by
  obtain ⟨dots,starts,_,separate⟩ := rawSegments_starts cut
  intro raw member
  have started : raw.start ∈ raws.map RawSegment.start := List.mem_map_of_mem member
  rw [starts] at started
  rcases List.mem_cons.mp started with first | later
  · exact .inl first
  · obtain ⟨p,dot,behind⟩ := List.mem_map.mp later
    exact .inr ⟨p,((separate p).mp dot).dot,behind.symm⟩

theorem filtersOf_placed (failed : filtersOf filters = .error fault) : Placed source fault := by
  induction filters with
  | nil => cases failed
  | cons filter filters ih =>
      rw [filtersOf] at failed
      split at failed
      · cases failed
        trivial
      · split at failed
        · rename_i rest
          cases failed
          exact ih rest
        · cases failed

theorem fuzzy_placed (begins : Begins source position) (failed : fuzzy settings position body = .error fault) :
    Placed source fault := by
  unfold fuzzy at failed
  split at failed
  · split at failed
    · cases failed
      exact begins
    · cases failed
  · split at failed
    · cases failed
      trivial
    · dsimp only at failed
      split at failed
      · cases failed
        exact begins
      · cases failed

theorem head_placed [Regex.Engine] (begins : Begins source raw.start) (failed : raw.head settings = .error fault) : Placed source fault := by
  unfold RawSegment.head at failed
  split at failed
  · unfold regexOf at failed
    split at failed
    · cases failed
    · cases failed
      trivial
  · unfold classify at failed
    split at failed
    · cases failed
    · cases failed
    · exact fuzzy_placed begins failed
    · cases failed

theorem segmentsOf_placed [Regex.Engine] (begins : Begins source raw.start) (failed : segmentsOf settings raw = .error fault) :
    Placed source fault := by
  unfold segmentsOf at failed
  split at failed
  · cases failed
    exact begins
  · dsimp only at failed
    split at failed
    · rename_i read
      cases failed
      exact head_placed begins read
    · split at failed
      · rename_i tests
        cases failed
        exact filtersOf_placed tests
      · cases failed

theorem allSegments_placed [Regex.Engine] (begins : ∀ raw ∈ raws,Begins source raw.start) (failed : allSegments settings raws = .error fault) :
    Placed source fault := by
  induction raws with
  | nil => cases failed
  | cons raw raws ih =>
      obtain ⟨own,others⟩ := List.forall_mem_cons.mp begins
      rw [allSegments] at failed
      split at failed
      · rename_i first
        cases failed
        exact segmentsOf_placed own first
      · split at failed
        · rename_i rest
          cases failed
          exact ih others rest
        · cases failed

theorem valid_bytes {source : String} (whole : source.toList = front ++ back) : String.Pos.Raw.IsValid source ⟨bytes front⟩ := by
  refine String.Pos.Raw.isValid_iff_exists_append.mpr ⟨.ofList front,.ofList back,?_,?_⟩
  · rw [← String.ofList_append,← whole,String.ofList_toList]
  · rw [String.rawEndPos,bytes_ofList]

theorem Placed.valid {source : String} (placed : Placed source.toList fault) :
    ∀ p ∈ fault.position?,String.Pos.Raw.IsValid source ⟨p⟩ := by
  intro p pointed
  cases fault with
  | unbalanced bracket position =>
      cases pointed
      obtain ⟨_,front,back,whole,rfl⟩ := placed
      exact valid_bytes whole
  | invalidEscape position =>
      cases pointed
      obtain ⟨front,back,whole,rfl⟩ := placed
      exact valid_bytes whole
  | emptySegment position =>
      cases pointed
      rcases placed with rfl | ⟨_,⟨front,back,whole,rfl⟩,rfl⟩
      · exact valid_bytes (List.nil_append _).symm
      · have behind : bytes (front ++ ['.']) = bytes front + 1 := bytes_append front ['.']
        have split : source.toList = (front ++ ['.']) ++ back := by rw [whole,List.append_assoc]; rfl
        rw [← behind]
        exact valid_bytes split
  | invalidRegex pattern => cases pointed
  | threshold text => cases pointed
  | invalidFilter filter fault => cases pointed

end Path

namespace PathExpr

theorem compileWith_error [Regex.Engine] {source : String} (failed : compileWith settings source = .error e) :
    e.expression = source ∧ Path.Placed source.toList e.fault := by
  unfold compileWith at failed
  split at failed
  · rename_i cut
    cases failed
    exact ⟨rfl,Path.rawSegments_placed cut⟩
  · rename_i raws cut
    split at failed
    · rename_i compiled
      cases failed
      exact ⟨rfl,Path.allSegments_placed (Path.rawSegments_begin cut) compiled⟩
    · cases failed

theorem compile_faults [Regex.Engine] (settings : Path.Settings) (source : String) :
    compileByOffsets? settings source = some (compileWith settings source) ∧
      ∀ e,compileWith settings source = .error e → e.expression = source ∧ Path.Placed source.toList e.fault ∧
        ∀ p ∈ e.fault.position?,String.Pos.Raw.IsValid source ⟨p⟩ := by
  refine ⟨compileByOffsets?_eq settings source,fun e failed => ?_⟩
  obtain ⟨own,placed⟩ := compileWith_error failed
  exact ⟨own,placed,placed.valid⟩

-- The letter takes two bytes, so the bracket that is left open is the fifth one.
theorem compile_faults_class : compile "é.~[ab" = .error ⟨"é.~[ab",.unbalanced '[' 4⟩ ∧
    compileByOffsets? .default "é.~[ab" = some (compile "é.~[ab") ∧
      Path.StandsAt "é.~[ab".toList '[' 4 ∧ String.Pos.Raw.IsValid "é.~[ab" ⟨4⟩ := by
  have cut : Path.rawSegments "é.~[ab".toList = .error (.unbalanced '[' 4) := by decide +kernel
  have failed : compile "é.~[ab" = .error ⟨"é.~[ab",.unbalanced '[' 4⟩ := by rw [compile,compileWith,cut]
  obtain ⟨total,faults⟩ := compile_faults .default "é.~[ab"
  obtain ⟨_,placed,valid⟩ := faults _ failed
  exact ⟨failed,total,placed.2,valid 4 rfl⟩

end PathExpr
end SharedTree
