import SharedTree.Proofs.Path.Filters
import SharedTree.Proofs.Path.Offsets

namespace SharedTree.Path

def StandsAt (source : List Char) (c : Char) (position : Nat) : Prop :=
  ∃ front back,source = front ++ c :: back ∧ position = bytes front

def Separates (source : List Char) (position : Nat) : Prop :=
  ∃ s rest,Reached ⟨.start,0,source⟩ ⟨s,position,'.' :: rest⟩ ∧ s.filter = none ∧ s.classes = [] ∧ s.atPoint rest = false

def RawSegment.Held (raw : RawSegment) (piece : List Char) : Prop := ∀ text ∈ raw.filters,Within piece text

-- A text from an offset on, cut into the pieces of its segments.
inductive Pieces (source : List Char) : Nat → List RawSegment → List Char → Prop
  | last (held : raw.Held piece) (begins : raw.start = position) : Pieces source position [raw] piece
  | more (held : raw.Held piece) (begins : raw.start = position) (ends : Separates source (position + bytes piece))
      (others : Pieces source (position + bytes piece + 1) raws text) :
      Pieces source position (raw :: raws) (piece ++ '.' :: text)

-- What has been read: the finished pieces and that of the current segment.
structure Place.Standing (source front piece : List Char) (m : Place) : Prop where
  whole : source = front ++ piece ++ m.text
  placed : m.position = bytes (front ++ piece)
  begins : m.scan.current.start = bytes front
  held : m.scan.current.Held piece
  classes : ∀ p ∈ m.scan.classes,StandsAt source '[' p
  filter : ∀ f ∈ m.scan.filter,∃ a,piece = a ++ '[' :: f.text ∧ f.start = bytes (front ++ a)

variable {source front piece text rest : List Char} {c : Char} {m n : Place} {s t : Scan} {raw : RawSegment}
  {raws : List RawSegment} {position : Nat}

theorem RawSegment.Held.append (held : raw.Held piece) (more : List Char) : raw.Held (piece ++ more) :=
  fun text member => (held text member).append more

theorem start_stands (source : List Char) : Place.Standing source [] [] ⟨.start,0,source⟩ :=
  ⟨rfl,rfl,rfl,nofun,nofun,nofun⟩

namespace Place.Standing

theorem here (standing : m.Standing source front piece) (next : m.text = c :: rest) : StandsAt source c m.position :=
  ⟨front ++ piece,rest,by rw [standing.whole,next],standing.placed⟩

theorem take (standing : m.Standing source front piece) (taken : List Char) (text : m.text = taken ++ n.text)
    (position : n.position = m.position + bytes taken) (start : n.scan.current.start = m.scan.current.start)
    (filters : n.scan.current.filters = m.scan.current.filters) (free : n.scan.filter = none)
    (classes : ∀ p ∈ n.scan.classes,StandsAt source '[' p) : n.Standing source front (piece ++ taken) where
  whole := by rw [standing.whole,text]; simp only [List.append_assoc]
  placed := by rw [position,standing.placed]; simp only [bytes_append,Nat.add_assoc]
  begins := start.trans standing.begins
  held := fun text member => standing.held.append taken text (filters ▸ member)
  classes := classes
  filter := by simp [free]

theorem next (standing : Place.Standing source front piece ⟨s,position,c :: rest⟩) :
    source = front ++ (piece ++ [c]) ++ rest ∧ position + c.utf8Size = bytes (front ++ (piece ++ [c])) := by
  have placed : position = bytes (front ++ piece) := standing.placed
  refine ⟨by rw [standing.whole]; simp,?_⟩
  rw [placed]
  simp only [bytes_append,bytes,Nat.add_zero,Nat.add_assoc]

theorem read (standing : Place.Standing source front piece ⟨s,position,c :: rest⟩) (started : s.filter = some f) :
    Place.Standing source front (piece ++ [c]) ⟨s.inFilter f c,position + c.utf8Size,rest⟩ := by
  obtain ⟨whole,placed⟩ := standing.next
  obtain ⟨a,opened,start⟩ := standing.filter f started
  rcases s.inFilter_cases f c with ⟨g,longer,taken,same⟩ | ⟨rfl,closed⟩
  · rw [taken]
    refine ⟨whole,placed,standing.begins,standing.held.append [c],standing.classes,?_⟩
    intro h reading
    cases reading
    exact ⟨a,by rw [opened,longer]; simp,same.trans start⟩
  · rw [closed]
    refine ⟨whole,placed,standing.begins,fun text member => ?_,standing.classes,fun g reading => by cases reading⟩
    rcases List.mem_append.mp member with earlier | last
    · exact standing.held.append [']'] text earlier
    · cases List.mem_singleton.mp last
      exact ⟨a,[],by rw [opened]⟩

theorem opening (standing : Place.Standing source front piece ⟨s,position,'[' :: rest⟩) :
    Place.Standing source front (piece ++ ['['])
      ⟨{ s with filter := some ⟨position,0,none,[]⟩ },position + '['.utf8Size,rest⟩ := by
  obtain ⟨whole,placed⟩ := standing.next
  refine ⟨whole,placed,standing.begins,standing.held.append _,standing.classes,?_⟩
  intro f reading
  cases reading
  exact ⟨piece,rfl,standing.placed⟩

theorem separate (standing : Place.Standing source front piece ⟨s,position,'.' :: rest⟩) (free : s.filter = none)
    (outside : s.classes = []) :
    Place.Standing source (front ++ piece ++ ['.']) [] ⟨s.separate position,position + '.'.utf8Size,rest⟩ := by
  obtain ⟨whole,placed⟩ := standing.next
  rw [← List.append_assoc] at whole placed
  refine ⟨?_,?_,placed,nofun,?_,?_⟩
  · rw [List.append_nil]
    exact whole
  · rw [List.append_nil]
    exact placed
  · simp [Scan.separate,outside]
  · simp [Scan.separate,free]

end Place.Standing

theorem Move.stands (step : Move m n) (standing : m.Standing source front piece) :
    (∃ taken,m.text = taken ++ n.text ∧ n.scan.done = m.scan.done ∧ n.Standing source front (piece ++ taken)) ∨
      (m.text = '.' :: n.text ∧ (m.scan.filter = none ∧ m.scan.classes = [] ∧ m.scan.atPoint n.text = false) ∧
        n.scan.done = m.scan.current :: m.scan.done ∧ n.Standing source (front ++ piece ++ ['.']) []) := by
  have held := standing.classes
  have here : ∀ c rest,m.text = c :: rest → StandsAt source c m.position := fun _ _ => standing.here
  cases step with
  | reading started => exact .inl ⟨[_],rfl,(inFilter_rest _ _ _).1,standing.read started⟩
  | escape free bare plain known =>
      exact .inl ⟨_,rfl,rfl,standing.take ['\\',_] rfl (Nat.add_assoc _ _ _) rfl rfl free held⟩
  | wildcard free bare regex =>
      exact .inl ⟨_,rfl,rfl,standing.take ['\\','.'] rfl (Nat.add_assoc _ _ _) rfl rfl free held⟩
  | kept free bare regex other =>
      exact .inl ⟨_,rfl,rfl,standing.take ['\\',_] rfl (Nat.add_assoc _ _ _) rfl rfl free held⟩
  | regex free blank => exact .inl ⟨_,rfl,rfl,standing.take ['~'] rfl rfl rfl rfl free held⟩
  | classDot free bare within => exact .inl ⟨_,rfl,rfl,standing.take ['.'] rfl rfl rfl rfl free held⟩
  | point free bare outside decimal => exact .inl ⟨_,rfl,rfl,standing.take ['.'] rfl rfl rfl rfl free held⟩
  | separator free outside ends => exact .inr ⟨rfl,⟨free,outside,ends⟩,rfl,standing.separate free outside⟩
  | openClass free bare regex =>
      refine .inl ⟨_,rfl,rfl,standing.take ['['] rfl rfl rfl rfl free fun p member => ?_⟩
      rcases List.mem_cons.mp member with rfl | before
      · exact here _ _ rfl
      · exact held p before
  | closeClass free bare regex within =>
      exact .inl ⟨_,rfl,rfl,standing.take [']'] rfl rfl rfl rfl free fun p member => held p (List.mem_of_mem_drop member)⟩
  | openFilter free plain => exact .inl ⟨['['],rfl,rfl,standing.opening⟩
  | other free bare usual begun => exact .inl ⟨_,rfl,rfl,standing.take [_] rfl rfl rfl rfl free held⟩

theorem Reached.stands (reached : Reached m n) (standing : m.Standing source front piece) :
    ∃ front piece,n.Standing source front piece := by
  induction reached generalizing front piece with
  | stay => exact ⟨front,piece,standing⟩
  | move step _ ih =>
      rcases step.stands standing with ⟨taken,_,_,later⟩ | ⟨_,_,_,later⟩
      · exact ih later
      · exact ih later

theorem Reached.trans (reached : Reached m n) (more : Reached n o) : Reached m o := by
  induction reached with
  | stay => exact more
  | move step _ ih => exact .move step (ih more)

theorem Separates.dot (ends : Separates source position) : StandsAt source '.' position := by
  obtain ⟨s,rest,reached,_⟩ := ends
  obtain ⟨front,piece,standing⟩ := reached.stands (start_stands source)
  exact standing.here rfl

theorem Reached.pieces (before : Reached ⟨.start,0,source⟩ m) (reached : Reached m n) (ended : n.text = [])
    (standing : m.Standing source front piece) :
    ∃ raws,(n.scan.current :: n.scan.done).reverse = m.scan.done.reverse ++ raws ∧
      Pieces source (bytes front) raws (piece ++ m.text) := by
  induction reached generalizing front piece with
  | @stay m =>
      refine ⟨[m.scan.current],List.reverse_cons,?_⟩
      rw [ended,List.append_nil]
      exact .last standing.held standing.begins
  | @move m o n step more ih =>
      have later := before.trans (.move step .stay)
      rcases step.stands standing with ⟨taken,text,same,next⟩ | ⟨text,⟨free,outside,ends⟩,done,next⟩
      · obtain ⟨raws,all,pieces⟩ := ih later ended next
        refine ⟨raws,same ▸ all,?_⟩
        rw [text,← List.append_assoc]
        exact pieces
      · obtain ⟨raws,all,pieces⟩ := ih later ended next
        have placed := standing.placed
        rw [bytes_append] at placed
        have dot : Separates source (bytes front + bytes piece) := by
          obtain ⟨s,position,rest⟩ := m
          cases text
          cases placed
          exact ⟨s,_,before,free,outside,ends⟩
        have behind : bytes (front ++ piece ++ ['.']) = bytes front + bytes piece + 1 := by
          rw [bytes_append,bytes_append]
          rfl
        refine ⟨m.scan.current :: raws,by rw [all,done,List.reverse_cons,List.append_assoc]; rfl,?_⟩
        rw [behind] at pieces
        rw [text]
        exact .more standing.held standing.begins dot pieces

theorem rawSegments_pieces (cut : rawSegments source = .ok raws) : Pieces source 0 raws source := by
  obtain ⟨t,position,reached,finished⟩ := reached_end (m := ⟨.start,0,source⟩) cut
  obtain ⟨_,_,rfl⟩ := finish_ok finished
  obtain ⟨raws,all,pieces⟩ := Reached.pieces .stay reached rfl (start_stands source)
  obtain rfl : _ = raws := all
  exact pieces

theorem Pieces.starts (pieces : Pieces source position raws text) :
    ∃ dots : List Nat,raws.map RawSegment.start = position :: dots.map (· + 1) ∧ (position :: dots.map (· + 1)).Pairwise (· < ·) ∧
      ∀ p ∈ dots,Separates source p := by
  induction pieces with
  | last held begins => exact ⟨[],by simp [begins],by simp,nofun⟩
  | @more position piece raws text raw held begins ends others ih =>
      obtain ⟨dots,starts,increasing,separate⟩ := ih
      have next : position < position + bytes piece + 1 := by omega
      refine ⟨_ :: dots,?_,?_,List.forall_mem_cons.mpr ⟨ends,separate⟩⟩
      · rw [List.map_cons,begins,starts]
        rfl
      · refine List.pairwise_cons.mpr ⟨?_,increasing⟩
        intro p later
        have behind := (List.pairwise_cons.mp increasing).1
        rcases List.mem_cons.mp later with rfl | beyond
        · exact next
        · exact Nat.lt_trans next (behind p beyond)

theorem separator_starts (cut : rawSegments source = .ok raws) (ends : Separates source position) :
    position + 1 ∈ raws.map RawSegment.start := by
  obtain ⟨s,rest,before,free,outside,point⟩ := ends
  have step : Move ⟨s,position,'.' :: rest⟩ ⟨s.separate position,position + '.'.utf8Size,rest⟩ := .separator free outside point
  have later := before.trans (.move step .stay)
  obtain ⟨front,piece,standing⟩ := before.stands (start_stands source)
  obtain ⟨t,stop,reached,finished⟩ := reached_end (later.run_eq.symm.trans cut)
  obtain ⟨_,_,rfl⟩ := finish_ok finished
  have next := standing.separate free outside
  obtain ⟨others,all,pieces⟩ := Reached.pieces later reached rfl next
  obtain ⟨dots,starts,_⟩ := pieces.starts
  have all : (t.current :: t.done).reverse = _ := all
  rw [all,List.map_append,starts,← next.begins]
  simp [Scan.separate,RawSegment.fresh]

theorem rawSegments_starts (cut : rawSegments source = .ok raws) :
    ∃ dots : List Nat,raws.map RawSegment.start = 0 :: dots.map (· + 1) ∧ dots.Pairwise (· < ·) ∧
      ∀ p,p ∈ dots ↔ Separates source p := by
  obtain ⟨dots,starts,increasing,separate⟩ := (rawSegments_pieces cut).starts
  refine ⟨dots,starts,?_,fun p => ⟨separate p,fun ends => ?_⟩⟩
  · have behind := (List.pairwise_cons.mp increasing).2
    rw [List.pairwise_map] at behind
    exact behind.imp Nat.lt_of_add_lt_add_right
  · have member := separator_starts cut ends
    rw [starts] at member
    simpa using member

end SharedTree.Path
