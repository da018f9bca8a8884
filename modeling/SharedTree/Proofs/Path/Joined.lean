import Mathlib.Data.List.TakeWhile
import SharedTree.Pattern.Reader
import SharedTree.Proofs.Path.Moves
import SharedTree.Proofs.Path.Segments

namespace SharedTree
namespace Path

-- Byte positions only serve the texts of errors.
def OpenFilter.unplaced (f : OpenFilter) : OpenFilter := { f with start := 0 }

-- The scan is neutral at the end of every segment, so a second source is read as if it stood alone.
-- Alike are two scans in the same state but for positions, which have since added the same segments
-- to what each had finished before.
structure Alike (before before' : List RawSegment) (s s' : Scan) : Prop where
  done : ∃ more more',s.done = more ++ before ∧ s'.done = more' ++ before' ∧
    more.map RawSegment.unplaced = more'.map RawSegment.unplaced
  current : s.current.unplaced = s'.current.unplaced
  classes : s.classes.length = s'.classes.length
  filter : s.filter.map OpenFilter.unplaced = s'.filter.map OpenFilter.unplaced

namespace Alike

variable {before before' : List RawSegment} {s s' : Scan}

theorem parts (alike : Alike before before' s s') : s.current.name = s'.current.name ∧
    s.current.regex = s'.current.regex ∧ s.current.filters = s'.current.filters := RawSegment.unplaced_iff.mp alike.current

theorem regex (alike : Alike before before' s s') : s'.current.regex = s.current.regex := alike.parts.2.1.symm

theorem filters (alike : Alike before before' s s') : s'.current.filters = s.current.filters := alike.parts.2.2.symm

theorem blank (alike : Alike before before' s s') : s'.current.isBlank = s.current.isBlank := by
  simp [RawSegment.isBlank,alike.parts]

theorem atPoint (alike : Alike before before' s s') : s'.atPoint rest = s.atPoint rest := by
  simp [Scan.atPoint,RawSegment.inThreshold,alike.parts]

theorem free (alike : Alike before before' s s') (free : s.filter = none) : s'.filter = none := by
  simpa [free] using alike.filter.symm

theorem outside (alike : Alike before before' s s') (outside : s.classes = []) : s'.classes = [] := by
  simpa [outside] using alike.classes.symm

theorem within (alike : Alike before before' s s') (within : s.classes ≠ []) : s'.classes ≠ [] := by
  intro outside
  exact within (List.length_eq_zero_iff.mp (by simp [alike.classes,outside]))

theorem add (alike : Alike before before' s s') (added : List Char) : Alike before before' (s.add added) (s'.add added) := by
  refine ⟨alike.done,RawSegment.unplaced_iff.mpr ?_,alike.classes,alike.filter⟩
  simp [Scan.add,alike.parts]

theorem asRegex (alike : Alike before before' s s') : Alike before before' s.asRegex s'.asRegex := by
  refine ⟨alike.done,RawSegment.unplaced_iff.mpr ?_,alike.classes,alike.filter⟩
  simp [Scan.asRegex,alike.parts]

theorem separate (alike : Alike before before' s s') (position position' : Nat) :
    Alike before before' (s.separate position) (s'.separate position') := by
  obtain ⟨⟨more,more',done,done',same⟩,current,classes,filter⟩ := alike
  refine ⟨⟨s.current :: more,s'.current :: more',?_,?_,?_⟩,rfl,classes,filter⟩
  · simp [Scan.separate,done]
  · simp [Scan.separate,done']
  · simp [current,same]

theorem withFilter (alike : Alike before before' s s') (f f' : OpenFilter) (same : f.unplaced = f'.unplaced) :
    Alike before before' { s with filter := some f } { s' with filter := some f' } :=
  ⟨alike.done,alike.current,alike.classes,by simp [same]⟩

theorem withClasses (alike : Alike before before' s s') {opens opens' : List Nat} (same : opens.length = opens'.length) :
    Alike before before' { s with classes := opens } { s' with classes := opens' } :=
  ⟨alike.done,alike.current,same,alike.filter⟩

theorem closed (alike : Alike before before' s s') (text : List Char) :
    Alike before before' { s with filter := none, current := { s.current with filters := s.current.filters ++ [text] } }
      { s' with filter := none, current := { s'.current with filters := s'.current.filters ++ [text] } } := by
  refine ⟨alike.done,RawSegment.unplaced_iff.mpr ?_,alike.classes,rfl⟩
  simp [alike.parts]

theorem reading (alike : Alike before before' s s') (started : s.filter = some f) :
    ∃ f',s'.filter = some f' ∧ Alike before before' (s.inFilter f c) (s'.inFilter f' c) := by
  cases started' : s'.filter with
  | none => simpa [started,started'] using alike.filter
  | some f' =>
      have same : f.unplaced = f'.unplaced := by simpa [started,started'] using alike.filter
      obtain ⟨start,depth,quote,text⟩ := f
      obtain ⟨start',depth',quote',text'⟩ := f'
      simp only [OpenFilter.unplaced,OpenFilter.mk.injEq,true_and] at same
      obtain ⟨rfl,rfl,rfl⟩ := same
      refine ⟨_,rfl,?_⟩
      unfold Scan.inFilter
      cases quote with
      | some quote =>
          apply alike.withFilter
          split <;> rfl
      | none =>
          dsimp only
          split
          · exact alike.withFilter _ _ rfl
          · split
            · exact alike.withFilter _ _ rfl
            · split
              · split
                · exact alike.closed text
                · exact alike.withFilter _ _ rfl
              · exact alike.withFilter _ _ rfl

end Alike

theorem Move.alike {m n : Place} (step : Move m n) (alike : Alike before before' m.scan s') (position' : Nat) :
    ∃ t' next,Move ⟨s',position',m.text⟩ ⟨t',next,n.text⟩ ∧ Alike before before' n.scan t' := by
  cases step with
  | reading started =>
      obtain ⟨f',started',reads⟩ := alike.reading started
      exact ⟨_,_,.reading started',reads⟩
  | escape free bare plain known =>
      exact ⟨_,_,.escape (alike.free free) (alike.filters.trans bare) (alike.regex.trans plain) known,alike.add _⟩
  | wildcard free bare regex =>
      exact ⟨_,_,.wildcard (alike.free free) (alike.filters.trans bare) (alike.regex.trans regex),alike.add _⟩
  | kept free bare regex other =>
      exact ⟨_,_,.kept (alike.free free) (alike.filters.trans bare) (alike.regex.trans regex) other,alike.add _⟩
  | regex free blank => exact ⟨_,_,.regex (alike.free free) (alike.blank.trans blank),alike.asRegex⟩
  | classDot free bare within =>
      exact ⟨_,_,.classDot (alike.free free) (alike.filters.trans bare) (alike.within within),alike.add _⟩
  | point free bare outside decimal =>
      exact ⟨_,_,.point (alike.free free) (alike.filters.trans bare) (alike.outside outside)
        (alike.atPoint.trans decimal),alike.add _⟩
  | separator free outside ends =>
      exact ⟨_,_,.separator (alike.free free) (alike.outside outside) (alike.atPoint.trans ends),alike.separate _ _⟩
  | openClass free bare regex =>
      refine ⟨_,_,.openClass (alike.free free) (alike.filters.trans bare) (alike.regex.trans regex),?_⟩
      exact (alike.withClasses (by simp [alike.classes])).add _
  | closeClass free bare regex within =>
      refine ⟨_,_,.closeClass (alike.free free) (alike.filters.trans bare) (alike.regex.trans regex) (alike.within within),?_⟩
      exact (alike.withClasses (by simp [alike.classes])).add _
  | openFilter free plain =>
      exact ⟨_,_,.openFilter (alike.free free) (alike.regex.trans plain),alike.withFilter _ _ rfl⟩
  | other free bare usual begun =>
      refine ⟨_,_,.other (alike.free free) (alike.filters.trans bare) usual ?_,alike.add _⟩
      intro tilde
      exact alike.blank.trans (begun tilde)

theorem Reached.alike {m n : Place} (reached : Reached m n) (alike : Alike before before' m.scan s') (position' : Nat) :
    ∃ t' next,Reached ⟨s',position',m.text⟩ ⟨t',next,n.text⟩ ∧ Alike before before' n.scan t' := by
  induction reached generalizing s' position' with
  | stay => exact ⟨s',position',.stay,alike⟩
  | move step _ ih =>
      obtain ⟨t',next,step',alike⟩ := step.alike alike position'
      obtain ⟨u',last,reached,alike⟩ := ih alike next
      exact ⟨u',last,.move step' reached,alike⟩

theorem alike_fresh {t : Scan} (free : t.filter = none) (outside : t.classes = []) (position : Nat) :
    Alike [] (t.current :: t.done) .start (t.separate position) := by
  refine ⟨⟨[],[],rfl,rfl,rfl⟩,rfl,?_,?_⟩
  · simp [Scan.start,Scan.separate,outside]
  · simp [Scan.start,Scan.separate,free]

theorem separated_run {t : Scan} (free : t.filter = none) (outside : t.classes = []) (ends : t.atPoint text = false)
    (cut : rawSegments text = .ok raws) (position : Nat) :
    ∃ raws',t.run position ('.' :: text) = .ok ((t.current :: t.done).reverse ++ raws') ∧
      raws.map RawSegment.unplaced = raws'.map RawSegment.unplaced := by
  obtain ⟨u,stop,reached,finished⟩ := reached_end (m := ⟨.start,0,text⟩) cut
  obtain ⟨free',outside',rfl⟩ := finish_ok finished
  obtain ⟨u',stop',reached',alike⟩ := reached.alike (alike_fresh free outside position) (position + '.'.utf8Size)
  obtain ⟨more,more',done,done',same⟩ := alike.done
  rw [List.append_nil] at done
  dsimp only at done
  refine ⟨(u'.current :: more').reverse,?_,?_⟩
  · have step : Move ⟨t,position,'.' :: text⟩ _ := .separator free outside ends
    have run := run_of_reached reached'
    rw [finish_neutral (alike.free free') (alike.outside outside'),done'] at run
    have appended : (u'.current :: (more' ++ t.current :: t.done)).reverse =
        (t.current :: t.done).reverse ++ (u'.current :: more').reverse := by simp
    rw [← appended]
    exact step.run_eq.trans run
  · simp [done,alike.current,same]

theorem cut_first {c : Char} {text : List Char} (inside : c ∈ text) :
    ∃ rest,text = text.takeWhile (· != c) ++ c :: rest ∧ c ∉ text.takeWhile (· != c) := by
  have parts := List.takeWhile_append_dropWhile (p := (· != c)) (l := text)
  have absent : c ∉ text.takeWhile (· != c) := by
    intro taken
    simpa using List.mem_takeWhile_imp taken
  cases last : text.dropWhile (· != c) with
  | nil =>
      rw [last,List.append_nil] at parts
      rw [parts] at absent
      exact absurd inside absent
  | cons d rest =>
      have head := List.head_dropWhile_not (p := (· != c)) (l := text) (by simp [last])
      have same : d = c := by simpa [last] using head
      rw [last,same] at parts
      exact ⟨rest,parts.symm,absent⟩

theorem afterColon?_iff : RawSegment.afterColon? name = some text ↔
    ∃ front,name = front ++ ':' :: text ∧ ':' ∉ text := by
  unfold RawSegment.afterColon?
  constructor
  · intro found
    split at found
    · rename_i colon
      cases found
      have present : ':' ∈ name.reverse := by simpa using colon
      obtain ⟨rest,parts,absent⟩ := cut_first present
      refine ⟨rest.reverse,?_,by simpa using absent⟩
      simpa using congrArg List.reverse parts
    · cases found
  · intro given
    obtain ⟨front,rfl,absent⟩ := given
    have others : ∀ c ∈ text.reverse,(c != ':') = true := by
      intro c inside
      simp only [bne_iff_ne,ne_eq]
      rintro rfl
      exact absent (List.mem_reverse.mp inside)
    have taken : (front ++ ':' :: text).reverse.takeWhile (· != ':') = text.reverse := by
      rw [List.reverse_append,List.reverse_cons,List.append_assoc,List.takeWhile_append_of_pos others]
      simp
    rw [taken]
    simp

theorem digits_iff {text : List Char} :
    (text.dropWhile RawSegment.isSign ≠ [] ∧ ∀ c ∈ text.dropWhile RawSegment.isSign,Decimal.isDigit c = true) ↔
      ∃ signs digits,text = signs ++ digits ∧ (∀ c ∈ signs,c = '+' ∨ c = '-') ∧ digits ≠ [] ∧
        ∀ c ∈ digits,Decimal.isDigit c = true := by
  constructor
  · intro given
    refine ⟨text.takeWhile RawSegment.isSign,_,List.takeWhile_append_dropWhile.symm,?_,given⟩
    intro c inside
    simpa [RawSegment.isSign,or_comm] using List.mem_takeWhile_imp inside
  · intro given
    obtain ⟨signs,digits,rfl,sign,nonempty,digit⟩ := given
    have whole : (signs ++ digits).dropWhile RawSegment.isSign = digits := by
      rw [List.dropWhile_append_of_pos (fun c inside => by simpa [RawSegment.isSign,or_comm] using sign c inside)]
      cases digits with
      | nil => exact absurd rfl nonempty
      | cons first digits =>
          have decimal := digit first List.mem_cons_self
          apply List.dropWhile_cons_of_neg
          intro sign
          simp only [RawSegment.isSign,Bool.or_eq_true,beq_iff_eq] at sign
          rcases sign with rfl | rfl <;> simp [Decimal.isDigit] at decimal
    rw [whole]
    exact ⟨nonempty,digit⟩

structure RawSegment.EndsInThreshold (raw : RawSegment) : Prop where
  plain : raw.regex = false
  bare : raw.filters = []
  spelled : ∃ front signs digits,raw.name = '%' :: front ++ ':' :: (signs ++ digits) ∧
    (∀ c ∈ signs,c = '+' ∨ c = '-') ∧ digits ≠ [] ∧ ∀ c ∈ digits,Decimal.isDigit c = true

theorem colon_absent {signs digits : List Char} (sign : ∀ c ∈ signs,c = '+' ∨ c = '-')
    (digit : ∀ c ∈ digits,Decimal.isDigit c = true) : ':' ∉ signs ++ digits := by
  intro inside
  rcases List.mem_append.mp inside with inside | inside
  · simpa using sign _ inside
  · simpa [Decimal.isDigit] using digit _ inside

theorem inThreshold_iff {raw : RawSegment} : raw.inThreshold = true ↔ raw.EndsInThreshold := by
  have unfolded : raw.inThreshold = true ↔ ((raw.regex = false ∧ raw.name.head? = some '%') ∧ raw.filters = []) ∧
      ∃ text,RawSegment.afterColon? raw.name = some text ∧ text.dropWhile RawSegment.isSign ≠ [] ∧
        ∀ c ∈ text.dropWhile RawSegment.isSign,Decimal.isDigit c = true := by
    unfold RawSegment.inThreshold
    cases RawSegment.afterColon? raw.name <;> simp
  rw [unfolded]
  constructor
  · intro given
    obtain ⟨⟨⟨plain,percent⟩,bare⟩,text,after,signed⟩ := given
    obtain ⟨front,name,_⟩ := afterColon?_iff.mp after
    obtain ⟨signs,digits,rfl,threshold⟩ := digits_iff.mp signed
    cases front with
    | nil => simp [name] at percent
    | cons first front =>
        have first : first = '%' := by simpa [name] using percent
        rw [first] at name
        exact ⟨plain,bare,front,signs,digits,name,threshold⟩
  · intro given
    obtain ⟨plain,bare,front,signs,digits,name,sign,nonempty,digit⟩ := given
    have after := afterColon?_iff.mpr ⟨_,name,colon_absent sign digit⟩
    exact ⟨⟨⟨plain,by simp [name]⟩,bare⟩,_,after,digits_iff.mpr ⟨signs,digits,rfl,sign,nonempty,digit⟩⟩

def Scan.nameless (s : Scan) : Scan := { s with done := [], current := { s.current with name := [] } }

theorem nameless_inFilter (s : Scan) (f : OpenFilter) (c : Char) : (s.inFilter f c).nameless = s.nameless.inFilter f c := by
  unfold Scan.inFilter
  cases f.quote with
  | some quote => rfl
  | none =>
      dsimp only
      repeat' split
      all_goals rfl

-- After a decimal point `m` still spells a fuzzy name where `s`, which reads
-- the same text by itself, spells one that starts with a digit. `m` has fewer
-- segments, those before the point counted for `s` as well.
structure Behind (before : Nat) (m s : Scan) (text : List Char) : Prop where
  same : Alike [] [] m.nameless s.nameless
  plain : m.current.regex = false
  outside : m.classes = []
  fuzzy : m.current.name.head? = some '%'
  begun : s.current.name.head?.any Decimal.isDigit = true ∨
    (s.current.name = [] ∧ s.filter = none ∧ text.head?.any Decimal.isDigit = true)
  fewer : m.done.length < s.done.length + before

theorem head_append {name : List Char} (begun : name.head?.any Decimal.isDigit = true) :
    (name ++ added).head?.any Decimal.isDigit = true := by
  cases name with
  | nil => simp at begun
  | cons first rest => exact begun

namespace Behind

variable {m s : Scan}

theorem free (behind : Behind before m s text) (free : m.filter = none) : s.filter = none := behind.same.free free
theorem apart (behind : Behind before m s text) : s.classes = [] := behind.same.outside behind.outside
theorem plain' (behind : Behind before m s text) : s.current.regex = false := behind.same.regex.trans behind.plain
theorem filters (behind : Behind before m s text) : s.current.filters = m.current.filters := behind.same.filters

theorem blank (behind : Behind before m s text) : m.current.isBlank = false := by
  cases name : m.current.name with
  | nil => simpa [name] using behind.fuzzy
  | cons first rest => simp [RawSegment.isBlank,name]

theorem started (behind : Behind before m s (c :: rest)) (other : Decimal.isDigit c = false) :
    s.current.name.head?.any Decimal.isDigit = true := by
  rcases behind.begun with begun | ⟨_,_,digit⟩
  · exact begun
  · simp [other] at digit

theorem atPoint (behind : Behind before m s ('.' :: rest)) : s.atPoint rest = false := by
  have begun := behind.started rfl
  cases name : s.current.name with
  | nil => simp [name] at begun
  | cons first rest =>
      rw [name] at begun
      have usual : first ≠ '%' := by
        intro percent
        simp [percent,Decimal.isDigit] at begun
      simp [Scan.atPoint,RawSegment.inThreshold,name,usual]

theorem add (behind : Behind before m s text) (added : List Char)
    (begun : (s.current.name ++ added).head?.any Decimal.isDigit = true) :
    Behind before (m.add added) (s.add added) rest := by
  obtain ⟨same,plain,outside,fuzzy,_,fewer⟩ := behind
  refine ⟨same,plain,outside,?_,.inl begun,fewer⟩
  simp [Scan.add,fuzzy]

theorem withFilter (behind : Behind before m s text) (begun : s.current.name.head?.any Decimal.isDigit = true)
    (f f' : OpenFilter) (same : f.unplaced = f'.unplaced) :
    Behind before { m with filter := some f } { s with filter := some f' } rest :=
  ⟨behind.same.withFilter f f' same,behind.plain,behind.outside,behind.fuzzy,.inl begun,behind.fewer⟩

theorem reading (behind : Behind before m s text) (started : m.filter = some f) (c : Char) :
    ∃ f',s.filter = some f' ∧ Behind before (m.inFilter f c) (s.inFilter f' c) rest := by
  obtain ⟨f',started',alike⟩ := behind.same.reading (c := c) started
  obtain ⟨done,classes,name,regex⟩ := inFilter_rest m f c
  obtain ⟨done',_,name',_⟩ := inFilter_rest s f' c
  rw [← nameless_inFilter,← nameless_inFilter] at alike
  have begun : s.current.name.head?.any Decimal.isDigit = true := by
    rcases behind.begun with begun | ⟨_,free,_⟩
    · exact begun
    · have busy : s.filter = some f' := started'
      simp [free] at busy
  refine ⟨f',started',alike,?_,?_,?_,.inl ?_,?_⟩
  · exact regex.trans behind.plain
  · exact classes.trans behind.outside
  · rw [name]; exact behind.fuzzy
  · rw [name']; exact begun
  · rw [done,done']; exact behind.fewer

theorem point (behind : Behind before m s text) (free : m.filter = none) (bare : m.current.filters = [])
    (decimal : m.atPoint rest = true) (position' : Nat) :
    Behind before (m.add ['.']) (s.separate position') rest := by
  have digit : rest.head?.any Decimal.isDigit = true := by
    simp only [Scan.atPoint,Bool.and_eq_true] at decimal
    exact decimal.2
  refine ⟨⟨⟨[],[],rfl,rfl,rfl⟩,?_,behind.same.classes,behind.same.filter⟩,behind.plain,behind.outside,?_,.inr ?_,?_⟩
  · simp [Scan.nameless,Scan.add,Scan.separate,RawSegment.unplaced,RawSegment.fresh,behind.plain,bare]
  · simp [Scan.add,behind.fuzzy]
  · exact ⟨rfl,behind.free free,digit⟩
  · have fewer := behind.fewer
    simp only [Scan.add,Scan.separate,List.length_cons]
    omega

end Behind

theorem Behind.move {m n : Place} (behind : Behind before m.scan s m.text) (step : Move m n) (position' : Nat) :
    ∃ t next,Move ⟨s,position',m.text⟩ ⟨t,next,n.text⟩ ∧ n.scan.done.length < t.done.length + before ∧
      (Behind before n.scan t n.text ∨ Alike n.scan.done t.done n.scan t) := by
  cases step with
  | reading started =>
      obtain ⟨f',started',reads⟩ := behind.reading started _
      exact ⟨_,_,.reading started',reads.fewer,.inl reads⟩
  | escape free bare plain known =>
      have begun := behind.started rfl
      refine ⟨_,_,.escape (behind.free free) (behind.filters.trans bare) behind.plain' known,behind.fewer,.inl ?_⟩
      exact behind.add _ (head_append begun)
  | wildcard free bare regex => cases behind.plain.symm.trans regex
  | kept free bare regex other => cases behind.plain.symm.trans regex
  | regex free blank => cases behind.blank.symm.trans blank
  | classDot free bare within => exact absurd behind.outside within
  | point free bare outside decimal =>
      have reads := behind.point free bare decimal position'
      exact ⟨_,_,.separator (behind.free free) behind.apart behind.atPoint,reads.fewer,.inl reads⟩
  | separator free outside ends =>
      refine ⟨_,_,.separator (behind.free free) behind.apart behind.atPoint,?_,.inr ?_⟩
      · have fewer := behind.fewer
        dsimp only at fewer
        simp only [Scan.separate,List.length_cons]
        omega
      · exact ⟨⟨[],[],rfl,rfl,rfl⟩,rfl,behind.same.classes,behind.same.filter⟩
  | openClass free bare regex => cases behind.plain.symm.trans regex
  | closeClass free bare regex within => cases behind.plain.symm.trans regex
  | openFilter free plain =>
      have begun := behind.started rfl
      exact ⟨_,_,.openFilter (behind.free free) behind.plain',behind.fewer,.inl (behind.withFilter begun _ _ rfl)⟩
  | @other c _ _ _ free bare usual begun =>
      have first : (s.current.name ++ [c]).head?.any Decimal.isDigit = true := by
        rcases behind.begun with begun | ⟨empty,_,digit⟩
        · exact head_append begun
        · simpa [empty] using digit
      refine ⟨_,_,.other (behind.free free) (behind.filters.trans bare) usual ?_,behind.fewer,.inl (behind.add _ first)⟩
      intro tilde
      subst tilde
      have named := behind.started rfl
      cases name : s.current.name with
      | nil => simp [name] at named
      | cons first rest => simp [RawSegment.isBlank,name]

theorem Behind.reached {m n : Place} (behind : Behind before m.scan s m.text) (reached : Reached m n) (position' : Nat) :
    ∃ t next,Reached ⟨s,position',m.text⟩ ⟨t,next,n.text⟩ ∧ n.scan.done.length < t.done.length + before := by
  induction reached generalizing s position' with
  | stay => exact ⟨s,position',.stay,behind.fewer⟩
  | move step more ih =>
      obtain ⟨t,next,step',fewer,behind | alike⟩ := behind.move step position'
      · obtain ⟨u,last,reached,fewer⟩ := ih behind next
        exact ⟨u,last,.move step' reached,fewer⟩
      · obtain ⟨u,last,reached,alike⟩ := more.alike alike next
        obtain ⟨added,added',done,done',same⟩ := alike.done
        have equal : added.length = added'.length := by simpa using congrArg List.length same
        refine ⟨u,last,.move step' reached,?_⟩
        rw [done,done',List.length_append,List.length_append]
        omega

-- The dot between two sources stands in a threshold of the first one.
def DecimalPoint (a b : String) : Prop :=
  b.toList.head?.any Decimal.isDigit = true ∧
    ∃ raws raw,rawSegments a.toList = .ok raws ∧ raws.getLast? = some raw ∧ raw.EndsInThreshold

theorem point_behind {t : Scan} (free : t.filter = none) (outside : t.classes = [])
    (within : t.current.EndsInThreshold) (digit : text.head?.any Decimal.isDigit = true) :
    Behind (t.done.length + 1) (t.add ['.']) .start text := by
  obtain ⟨plain,bare,front,signs,digits,name,_⟩ := within
  refine ⟨⟨⟨[],[],rfl,rfl,rfl⟩,?_,?_,?_⟩,plain,outside,?_,.inr ⟨rfl,rfl,digit⟩,?_⟩
  · simp [Scan.nameless,Scan.add,Scan.start,RawSegment.unplaced,RawSegment.fresh,plain,bare]
  · simp [Scan.nameless,Scan.add,Scan.start,outside]
  · simp [Scan.nameless,Scan.add,Scan.start,free]
  · simp [Scan.add,name]
  · simp [Scan.add,Scan.start]

theorem joined_text (a b : String) : (a ++ "." ++ b).toList = a.toList ++ '.' :: b.toList := by
  simp [String.toList_append]

theorem joined_reached (cut : rawSegments a.toList = .ok raws) (b : String) :
    ∃ t position,Reached ⟨.start,0,(a ++ "." ++ b).toList⟩ ⟨t,position,'.' :: b.toList⟩ ∧
      t.filter = none ∧ t.classes = [] ∧ raws = (t.current :: t.done).reverse := by
  obtain ⟨t,position,reached,finished⟩ := reached_end (m := ⟨.start,0,a.toList⟩) cut
  have quiet : ('.' :: b.toList).head?.any Decimal.isDigit = false := rfl
  rw [joined_text]
  exact ⟨t,position,reached.after quiet,finish_ok finished⟩

theorem joined_cut (first : rawSegments a.toList = .ok raws) (second : rawSegments b.toList = .ok others)
    (separator : ¬ DecimalPoint a b) :
    ∃ others',rawSegments (a ++ "." ++ b).toList = .ok (raws ++ others') ∧
      others.map RawSegment.unplaced = others'.map RawSegment.unplaced := by
  obtain ⟨t,position,reached,free,outside,rfl⟩ := joined_reached first b
  have ends : t.atPoint b.toList = false := by
    rw [Bool.eq_false_iff]
    intro decimal
    simp only [Scan.atPoint,Bool.and_eq_true] at decimal
    exact separator ⟨decimal.2,_,t.current,first,by simp,inThreshold_iff.mp decimal.1⟩
  obtain ⟨others',run,same⟩ := separated_run free outside ends second position
  exact ⟨others',reached.run_eq.trans run,same⟩

theorem joined_fewer (first : rawSegments a.toList = .ok raws) (second : rawSegments b.toList = .ok others)
    (point : DecimalPoint a b) (whole : rawSegments (a ++ "." ++ b).toList = .ok joined) :
    joined.length < raws.length + others.length := by
  obtain ⟨t,position,reached,free,outside,rfl⟩ := joined_reached first b
  obtain ⟨digit,raws,raw,first',last,within⟩ := point
  cases first.symm.trans first'
  have same : t.current = raw := by simpa using last
  subst same
  have decimal : t.atPoint b.toList = true := by
    simp [Scan.atPoint,digit,inThreshold_iff.mpr within]
  have step : Move ⟨t,position,'.' :: b.toList⟩ _ := .point free within.bare outside decimal
  have run := (reached.run_eq.trans step.run_eq).symm.trans whole
  obtain ⟨n,stop,reads,finished⟩ := reached_end run
  obtain ⟨u,next,alone,fewer⟩ := (point_behind free outside within digit).reached reads 0
  have cut : u.finish = .ok others := (run_of_reached alone).symm.trans second
  obtain ⟨_,_,rfl⟩ := finish_ok finished
  obtain ⟨_,_,rfl⟩ := finish_ok cut
  dsimp only at fewer
  simp only [List.length_reverse,List.length_cons]
  omega

end Path

-- Joined by a dot, two expressions have the segments of both, unless the dot is
-- read as a decimal point; then there are fewer of them.
theorem PathExpr.joined_exact [Regex.Engine] (first : compileWith settings a = .ok e) (second : compileWith settings b = .ok f) :
    (∃ g,compileWith settings (a ++ "." ++ b) = .ok g ∧ g.segments = e.segments ++ f.segments) ↔
      ¬ Path.DecimalPoint a b := by
  obtain ⟨_,raws,cut,compiled⟩ := compileWith_ok.mp first
  obtain ⟨_,others,cut',compiled'⟩ := compileWith_ok.mp second
  constructor
  · intro given point
    obtain ⟨g,whole,segments⟩ := given
    obtain ⟨_,joined,cutWhole,compiledWhole⟩ := compileWith_ok.mp whole
    have fewer := Path.joined_fewer cut cut' point cutWhole
    have heads := Path.allSegments_heads compiledWhole
    rw [segments,List.filter_append,List.length_append,Path.allSegments_heads compiled,
      Path.allSegments_heads compiled'] at heads
    omega
  · intro separator
    obtain ⟨others',cutWhole,same⟩ := Path.joined_cut cut cut' separator
    have compiledWhole := Path.allSegments_append compiled (Path.allSegments_unplaced same compiled')
    exact ⟨⟨a ++ "." ++ b,e.segments ++ f.segments⟩,compileWith_ok.mpr ⟨rfl,_,cutWhole,compiledWhole⟩,rfl⟩

-- A name with a whole threshold, and one that begins with a digit.
theorem PathExpr.joined_point : ∃ e f,
    compileWith .default "%confg:0" = .ok e ∧ compileWith .default "8" = .ok f ∧
      ¬ ∃ g,compileWith .default ("%confg:0" ++ "." ++ "8") = .ok g ∧ g.segments = e.segments ++ f.segments := by
  have accepted : (compileWith .default "%confg:0").isOk = true := by decide +kernel
  cases first : compileWith .default "%confg:0" with
  | error fault => rw [first] at accepted; cases accepted
  | ok e =>
      have second : compileWith .default "8" = .ok ⟨"8",[.literal "8"]⟩ := rfl
      have cut : Path.rawSegments "%confg:0".toList = .ok [⟨0,"%confg:0".toList,false,[]⟩] := by decide +kernel
      refine ⟨e,_,rfl,second,fun joined => (joined_exact first second).mp joined ⟨by decide,_,_,cut,rfl,rfl,rfl,?_⟩⟩
      exact ⟨"confg".toList,[],['0'],by decide,by simp,by simp,by simp [Decimal.isDigit]⟩

end SharedTree
