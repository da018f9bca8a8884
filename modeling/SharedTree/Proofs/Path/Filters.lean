import SharedTree.Proofs.Path.Moves
import SharedTree.Proofs.Path.Segments

namespace SharedTree.Path

namespace Scan

def texts (s : Scan) : List (List Char) := (s.current :: s.done).flatMap RawSegment.filters

def size (s : Scan) : Nat := s.done.length + s.texts.length + if s.filter.isSome then 1 else 0

def closed (s : Scan) (text : List Char) : Scan :=
  { s with filter := none, current := { s.current with filters := s.current.filters ++ [text] } }

variable {s : Scan} {f : OpenFilter} {c : Char} {text w : List Char}

theorem inFilter_cases (s : Scan) (f : OpenFilter) (c : Char) :
    (∃ g : OpenFilter,g.text = f.text ++ [c] ∧ s.inFilter f c = { s with filter := some g } ∧ g.start = f.start) ∨
      (c = ']' ∧ s.inFilter f c = s.closed f.text) := by
  unfold inFilter
  cases f.quote with
  | some quote =>
      refine .inl ⟨_,?_,rfl,?_⟩ <;> split <;> rfl
  | none =>
      dsimp only
      split
      · exact .inl ⟨_,rfl,rfl,rfl⟩
      · split
        · exact .inl ⟨_,rfl,rfl,rfl⟩
        · split
          · rename_i bracket
            split
            · exact .inr ⟨bracket,rfl⟩
            · exact .inl ⟨_,rfl,rfl,rfl⟩
          · exact .inl ⟨_,rfl,rfl,rfl⟩

theorem mem_closed : text ∈ (s.closed w).texts ↔ text = w ∨ text ∈ s.texts := by
  simp only [closed,texts,List.flatMap_cons,List.mem_append,List.mem_singleton]
  rw [or_comm (a := text ∈ s.current.filters),or_assoc]

theorem length_closed (s : Scan) (text : List Char) : (s.closed text).texts.length = s.texts.length + 1 := by
  simp only [closed,texts,List.flatMap_cons,List.length_append,List.length_singleton]
  omega

end Scan

-- What a move does to the filters: it takes a character into the open one, opens
-- one, or goes on elsewhere, which in a segment with filters only ends it.
inductive Progress (m n : Place) : Prop
  | reading (started : m.scan.filter = some f) (text : m.text = c :: n.text) (scan : n.scan = m.scan.inFilter f c)
  | opening (free : m.scan.filter = none) (text : m.text = '[' :: n.text)
      (scan : n.scan = { m.scan with filter := some f }) (empty : f.text = [])
  | elsewhere (taken : List Char) (free : m.scan.filter = none ∧ n.scan.filter = none) (text : m.text = taken ++ n.text)
      (same : n.scan.texts = m.scan.texts) (more : m.scan.done.length ≤ n.scan.done.length)
      (ends : m.scan.current.filters = [] ∨ m.scan.done.length < n.scan.done.length)

theorem Move.progress {m n : Place} (step : Move m n) : Progress m n := by
  cases step with
  | reading started => exact .reading started rfl rfl
  | escape free bare plain known => exact .elsewhere ['\\',_] ⟨free,free⟩ rfl rfl (Nat.le_refl _) (.inl bare)
  | wildcard free bare regex => exact .elsewhere ['\\','.'] ⟨free,free⟩ rfl rfl (Nat.le_refl _) (.inl bare)
  | kept free bare regex other => exact .elsewhere ['\\',_] ⟨free,free⟩ rfl rfl (Nat.le_refl _) (.inl bare)
  | @regex s position rest free blank =>
      have bare : s.current.filters = [] := by simpa using (Bool.and_eq_true_iff.mp blank).2
      exact .elsewhere ['~'] ⟨free,free⟩ rfl rfl (Nat.le_refl _) (.inl bare)
  | classDot free bare within => exact .elsewhere [_] ⟨free,free⟩ rfl rfl (Nat.le_refl _) (.inl bare)
  | point free bare outside decimal => exact .elsewhere [_] ⟨free,free⟩ rfl rfl (Nat.le_refl _) (.inl bare)
  | separator free outside ends => exact .elsewhere [_] ⟨free,free⟩ rfl rfl (Nat.le_succ _) (.inr (Nat.lt_succ_self _))
  | openClass free bare regex => exact .elsewhere [_] ⟨free,free⟩ rfl rfl (Nat.le_refl _) (.inl bare)
  | closeClass free bare regex within => exact .elsewhere [_] ⟨free,free⟩ rfl rfl (Nat.le_refl _) (.inl bare)
  | openFilter free plain => exact .opening free rfl rfl rfl
  | other free bare usual begun => exact .elsewhere [_] ⟨free,free⟩ rfl rfl (Nat.le_refl _) (.inl bare)

theorem Progress.size_le {m n : Place} (progress : Progress m n) : m.scan.size ≤ n.scan.size ∧
    (m.scan.filter = none → m.scan.current.filters ≠ [] → m.scan.size < n.scan.size) := by
  cases progress with
  | @reading f c started text scan =>
      rw [scan]
      refine ⟨?_,fun free => by simp [free] at started⟩
      rcases m.scan.inFilter_cases f c with ⟨g,_,taken,_⟩ | ⟨_,closed⟩
      · rw [taken]
        simp [Scan.size,Scan.texts,started]
      · rw [closed,Scan.size,Scan.size,Scan.length_closed,started]
        exact Nat.le_refl _
  | opening free text scan empty =>
      rw [scan]
      simp [Scan.size,Scan.texts,free]
  | elsewhere taken free text same more ends =>
      rw [Scan.size,Scan.size,same,free.1,free.2]
      refine ⟨by omega,fun _ filtered => ?_⟩
      have fewer := ends.resolve_left filtered
      omega

theorem Reached.size_le {m n : Place} (reached : Reached m n) : m.scan.size ≤ n.scan.size := by
  induction reached with
  | stay => exact Nat.le_refl _
  | move step _ ih => exact Nat.le_trans step.progress.size_le.1 ih

theorem Reached.filtered_end {m n : Place} (reached : Reached m n) (free : m.scan.filter = none)
    (filtered : m.scan.current.filters ≠ []) (same : n.scan.size ≤ m.scan.size) : n = m := by
  cases reached with
  | stay => rfl
  | move step more =>
      have grown := step.progress.size_le.2 free filtered
      have after := more.size_le
      omega

theorem filter_end {m n : Place} (reached : Reached m n) (started : m.scan.filter = some f) (free : n.scan.filter = none)
    (ended : n.text = []) (same : n.scan.size ≤ m.scan.size) :
    ∃ w,m.text = w ++ [']'] ∧ n.scan = m.scan.closed (f.text ++ w) := by
  induction reached generalizing f with
  | stay =>
      rw [started] at free
      cases free
  | @move m o n step more ih =>
      have grows := step.progress.size_le.1
      cases step.progress with
      | opening free' => simp [started] at free'
      | elsewhere _ free' => simp [started] at free'
      | @reading f' c started' text scan =>
          cases started.symm.trans started'
          rcases m.scan.inFilter_cases f c with ⟨g,longer,taken,_⟩ | ⟨rfl,closed⟩
          · rw [taken] at scan
            obtain ⟨w,whole,last⟩ := ih (f := g) (by rw [scan]) free ended (by omega)
            refine ⟨c :: w,by rw [text,whole,List.cons_append],?_⟩
            rw [last,scan,longer]
            simp [Scan.closed]
          · rw [closed] at scan
            have stays := more.filtered_end (by rw [scan]; rfl) (by rw [scan]; simp [Scan.closed]) (by omega)
            subst stays
            exact ⟨[],by rw [text,ended]; rfl,by rw [scan,List.append_nil]⟩

def Within (front text : List Char) : Prop := ∃ a b,front = a ++ '[' :: text ++ ']' :: b

structure Scan.Standing (s : Scan) (front : List Char) : Prop where
  texts : ∀ text ∈ s.texts,Within front text
  filter : ∀ f ∈ s.filter,∃ a,front = a ++ '[' :: f.text

theorem Within.append {front text : List Char} (within : Within front text) (more : List Char) : Within (front ++ more) text := by
  obtain ⟨a,b,rfl⟩ := within
  exact ⟨a,b ++ more,by simp⟩

theorem Progress.standing {m n : Place} (progress : Progress m n) (standing : m.scan.Standing front) :
    ∃ taken,m.text = taken ++ n.text ∧ n.scan.Standing (front ++ taken) := by
  cases progress with
  | @reading f c started text scan =>
      obtain ⟨a,opened⟩ := standing.filter f started
      refine ⟨[c],text,?_⟩
      rw [scan]
      rcases m.scan.inFilter_cases f c with ⟨g,longer,taken,_⟩ | ⟨rfl,closed⟩
      · rw [taken]
        refine ⟨fun text member => (standing.texts text member).append _,?_⟩
        intro h same
        cases same
        exact ⟨a,by rw [opened,longer]; simp⟩
      · rw [closed]
        refine ⟨fun text member => ?_,nofun⟩
        rcases Scan.mem_closed.mp member with rfl | earlier
        · exact ⟨a,[],by rw [opened]⟩
        · exact (standing.texts text earlier).append _
  | @opening f free text scan empty =>
      refine ⟨['['],text,?_⟩
      rw [scan]
      refine ⟨fun text member => (standing.texts text member).append _,?_⟩
      intro g same
      cases same
      exact ⟨front,by rw [empty]⟩
  | elsewhere taken free text same more ends =>
      refine ⟨taken,text,fun text member => ?_,by simp [free.2]⟩
      rw [same] at member
      exact (standing.texts text member).append _

theorem Reached.standing {m n : Place} (reached : Reached m n) (standing : m.scan.Standing front) :
    ∃ taken,m.text = taken ++ n.text ∧ n.scan.Standing (front ++ taken) := by
  induction reached generalizing front with
  | stay => exact ⟨[],rfl,by simpa using standing⟩
  | move step _ ih =>
      obtain ⟨first,same,later⟩ := step.progress.standing standing
      obtain ⟨second,same',last⟩ := ih later
      exact ⟨first ++ second,by rw [same,same',List.append_assoc],by rwa [← List.append_assoc]⟩

theorem filter_within (cut : rawSegments source = .ok raws) (member : raw ∈ raws) (held : text ∈ raw.filters) :
    Within source text := by
  obtain ⟨t,position,reached,finished⟩ := reached_end (m := ⟨.start,0,source⟩) cut
  obtain ⟨_,_,rfl⟩ := finish_ok finished
  have nothing : Scan.start.Standing [] := ⟨nofun,nofun⟩
  obtain ⟨taken,whole,standing⟩ := reached.standing nothing
  have listed : text ∈ t.texts := List.mem_flatMap.mpr ⟨raw,List.mem_reverse.mp member,held⟩
  have within := standing.texts text listed
  rw [List.append_nil] at whole
  dsimp only at whole
  rwa [List.nil_append,← whole] at within

theorem filtersOf_each (read : filtersOf texts = .ok segments) : texts.map ofFilter = segments.map .ok := by
  induction texts generalizing segments with
  | nil =>
      cases read
      rfl
  | cons text texts ih =>
      rw [filtersOf] at read
      split at read
      · cases read
      · rename_i segment first
        split at read
        · cases read
        · rename_i others rest
          cases read
          rw [List.map_cons,List.map_cons,first,ih rest]

theorem allSegments_length [Regex.Engine] (compiled : allSegments settings raws = .ok segments) :
    segments.length = raws.length + (raws.flatMap RawSegment.filters).length := by
  induction raws generalizing segments with
  | nil =>
      cases compiled
      rfl
  | cons raw raws ih =>
      obtain ⟨first,others,own,left,rfl⟩ := allSegments_cons.mp compiled
      obtain ⟨_,head,filters,_,tests,rfl⟩ := segmentsOf_ok.mp own
      have fewer := ih left
      have each := congrArg List.length (filtersOf_each tests)
      simp only [List.length_map] at each
      simp only [List.length_append,List.length_cons,List.flatMap_cons]
      omega

theorem allSegments_filter [Regex.Engine] {segment : Segment} (compiled : allSegments settings raws = .ok segments) (member : segment ∈ segments)
    (filter : segment.isFilter = true) : ∃ raw ∈ raws,∃ text ∈ raw.filters,ofFilter text = .ok segment := by
  induction raws generalizing segments with
  | nil =>
      cases compiled
      cases member
  | cons raw raws ih =>
      obtain ⟨first,others,own,left,rfl⟩ := allSegments_cons.mp compiled
      obtain ⟨_,head,filters,read,tests,rfl⟩ := segmentsOf_ok.mp own
      rcases List.mem_append.mp member with here | there
      · rcases List.mem_cons.mp here with rfl | held
        · cases (head_isFilter read).symm.trans filter
        · have present : Except.ok segment ∈ raw.filters.map ofFilter := by
            rw [filtersOf_each tests]
            exact List.mem_map_of_mem held
          obtain ⟨text,listed,compiles⟩ := List.mem_map.mp present
          exact ⟨raw,.head _,text,listed,compiles⟩
      · obtain ⟨raw,listed,found⟩ := ih left there
        exact ⟨raw,.tail _ listed,found⟩

end SharedTree.Path
