import SharedTree.Pattern.Reader
import SharedTree.Proofs.Path.Null
import SharedTree.Proofs.Path.Pieces

namespace SharedTree

structure GlobText (pattern : List Char) : Prop where
  glob : '*' ∈ pattern
  other : pattern ≠ ['*'] ∧ pattern ≠ ['*','*']
  noFilter : '[' ∉ pattern ∧ ']' ∉ pattern
  first : pattern.head? ≠ some '~' ∧ pattern.head? ≠ some '%'

structure KeyText (key : List Char) : Prop where
  spelled : key ≠ []
  trimmed : Path.trim key = key
  single : '=' ∉ key
  first : key.head? ≠ some '?'

namespace Segment

def Sound (settings : Path.Settings) : Segment → Prop
  | literal name => PlainName name.toList
  | glob pattern => GlobText pattern.toList
  | fuzzy name threshold =>
    name ≠ "" ∧ (threshold = settings.threshold ∨ (0 ≤ threshold.units ∧ threshold.units ≤ Binary64.one.units))
  | equals key _ _ | present key => KeyText key.toList
  | one | deep | regex _ _ | predicate _ => True

theorem filter_or_head (segment : Segment) : segment.isFilter = false ↔ segment.isStep = true ∨ segment = .deep := by
  cases segment <;> simp [isFilter,isStep]

end Segment

namespace Path

variable {settings : Settings} {raw : RawSegment} {raws : List RawSegment} {name w key : List Char} {segment : Segment}
  {segments : List Segment} {start : Nat}

theorem fuzzy_sound (read : fuzzy settings start w = .ok segment) : segment.Sound settings := by
  unfold fuzzy at read
  split at read
  · split at read
    · cases read
    · rename_i spelled
      cases read
      exact ⟨by simpa using spelled,.inl rfl⟩
  · split at read
    · cases read
    · rename_i threshold accepted
      dsimp only at read
      split at read
      · cases read
      · rename_i spelled
        cases read
        have fraction := (Option.filter_eq_some_iff.mp accepted).2
        rw [isFraction,Bool.and_eq_true,decide_eq_true_eq,decide_eq_true_eq] at fraction
        exact ⟨by simpa using spelled,.inr fraction⟩

theorem classify_sound (noFilter : '[' ∉ name ∧ ']' ∉ name) (tilde : name.head? ≠ some '~') (spelled : name ≠ [])
    (read : classify settings start name = .ok segment) : segment.Sound settings := by
  unfold classify at read
  split at read
  · cases read
    trivial
  · cases read
    trivial
  · exact fuzzy_sound read
  · rename_i one deep percent
    have other : name.head? ≠ some '%' := by
      intro first
      cases name with
      | nil => cases first
      | cons c body =>
          cases first
          exact percent body rfl
    split at read
    · rename_i glob
      cases read
      rw [Segment.Sound,String.toList_ofList]
      exact ⟨by simpa using glob,⟨one,deep⟩,noFilter,tilde,other⟩
    · rename_i noGlob
      cases read
      rw [Segment.Sound,String.toList_ofList]
      exact ⟨spelled,by simpa using noGlob,noFilter,tilde,other⟩

theorem head_sound [Regex.Engine] (usual : raw.Usual) (spelled : raw.name ≠ []) (read : raw.head settings = .ok segment) :
    segment.Sound settings := by
  unfold RawSegment.head at read
  split at read
  · obtain ⟨pattern,rfl⟩ := regexOf_ok read
    trivial
  · rename_i plain
    obtain ⟨noFilter,tilde⟩ := usual (by simpa using plain)
    exact classify_sound noFilter tilde spelled read

theorem trim_front (w : List Char) : trim w <+: w.dropWhile Unicode.isBlank := List.rdropWhile_prefix _ _

theorem head_front (front : v <+: w) : ∀ c ∈ v.head?,c ∈ w.head? := by
  obtain ⟨rest,rfl⟩ := front
  cases v with
  | nil => nofun
  | cons d v => exact fun c first => first

theorem trim_trim (w : List Char) : trim (trim w) = trim w := by
  refine trim_eq.mpr ⟨fun c first => head_dropWhile _ w c (head_front (trim_front w) c first),fun c last => ?_⟩
  obtain ⟨spelled,rfl⟩ := List.mem_getLast?_eq_getLast last
  exact Bool.eq_false_iff.mpr (List.rdropWhile_last_not _ _ spelled)

theorem mem_trim (member : c ∈ trim w) : c ∈ w := by
  obtain ⟨b,e,whole,_⟩ := trim_split w
  rw [whole]
  simp [member]

theorem trim_key (whole : trim w = key ++ rest) (spelled : trim key ≠ []) (single : '=' ∉ key)
    (other : ∀ v,trim w ≠ '?' :: v) : KeyText (trim key) where
  spelled := spelled
  trimmed := trim_trim key
  single := fun member => single (mem_trim member)
  first := by
    intro first
    cases key with
    | nil => exact spelled rfl
    | cons c key =>
        have begins := (trim_eq.mp (trim_trim w)).1 c (by rw [whole]; rfl)
        have front := head_front (trim_front (c :: key)) _ first
        rw [List.dropWhile_cons_of_neg (by simp [begins])] at front
        cases front
        exact other (key ++ rest) whole

theorem ofFilter_sound (read : ofFilter w = .ok segment) : segment.Sound settings := by
  unfold ofFilter at read
  dsimp only at read
  split at read
  · split at read
    · cases read
      trivial
    · cases read
    · cases read
  · rename_i other
    split at read
    · rename_i key sign raw cut
      obtain ⟨whole,_,single⟩ := until_taken cut
      split at read
      · cases read
      · rename_i spelled
        cases read
        rw [Segment.Sound,String.toList_ofList]
        exact trim_key whole (by simpa using spelled) single other
    · rename_i key cut
      obtain ⟨whole,before,_⟩ := span_taken cut
      split at read
      · cases read
      · rename_i spelled
        cases read
        have trimmed : trim key = key := by rw [← List.append_nil key,← whole,trim_trim]
        rw [Segment.Sound,String.toList_ofList,← trimmed]
        refine trim_key whole ?_ (fun member => by simpa using before '=' member) other
        rw [trimmed]
        simpa using spelled

def Grouped (raw : RawSegment) (group : List Segment) : Prop :=
  ∃ step filters,group = step :: filters ∧ step.isFilter = false ∧ raw.filters.map ofFilter = filters.map .ok

theorem allSegments_grouped [Regex.Engine] (compiled : allSegments settings raws = .ok segments) :
    ∃ groups,List.Forall₂ Grouped raws groups ∧ segments = groups.flatten := by
  induction raws generalizing segments with
  | nil =>
      cases compiled
      exact ⟨[],.nil,rfl⟩
  | cons raw raws ih =>
      obtain ⟨first,others,own,left,rfl⟩ := allSegments_cons.mp compiled
      obtain ⟨_,step,filters,read,tests,rfl⟩ := segmentsOf_ok.mp own
      obtain ⟨groups,grouped,rfl⟩ := ih left
      exact ⟨(step :: filters) :: groups,.cons ⟨step,filters,rfl,head_isFilter read,filtersOf_each tests⟩ grouped,rfl⟩

theorem segmentsOf_sound [Regex.Engine] (usual : raw.Usual) (compiled : segmentsOf settings raw = .ok segments) :
    ∀ segment ∈ segments,segment.Sound settings := by
  obtain ⟨spelled,step,filters,read,tests,rfl⟩ := segmentsOf_ok.mp compiled
  refine List.forall_mem_cons.mpr ⟨head_sound usual spelled read,fun segment member => ?_⟩
  have listed : Except.ok segment ∈ raw.filters.map ofFilter := by
    rw [filtersOf_each tests]
    exact List.mem_map_of_mem member
  obtain ⟨text,_,own⟩ := List.mem_map.mp listed
  exact ofFilter_sound own

theorem allSegments_sound [Regex.Engine] (usual : ∀ raw ∈ raws,raw.Usual) (compiled : allSegments settings raws = .ok segments) :
    ∀ segment ∈ segments,segment.Sound settings := by
  induction raws generalizing segments with
  | nil =>
      cases compiled
      nofun
  | cons raw raws ih =>
      obtain ⟨own,others⟩ := List.forall_mem_cons.mp usual
      obtain ⟨first,rest,here,left,rfl⟩ := allSegments_cons.mp compiled
      exact List.forall_mem_append.mpr ⟨segmentsOf_sound own here,ih others left⟩

structure WellFormed (settings : Settings) (source : List Char) (segments : List Segment) : Prop where
  begins : ∃ first rest,segments = first :: rest ∧ (first.isStep = true ∨ first = .deep)
  -- One step or deep wildcard more than separating dots.
  counted : ∃ dots : List Nat,dots.Pairwise (· < ·) ∧ (∀ p,p ∈ dots ↔ Separates source p) ∧
    (segments.filter fun segment => !segment.isFilter).length = dots.length + 1
  -- Filters directly behind the step whose piece of the text they stand in.
  grouped : ∃ raws groups,rawSegments source = .ok raws ∧ Pieces source 0 raws source ∧
    List.Forall₂ Grouped raws groups ∧ segments = groups.flatten
  sound : ∀ segment ∈ segments,segment.Sound settings

end Path

theorem PathExpr.compile_wellFormed [Regex.Engine] {source : String} (compiled : compileWith settings source = .ok e) :
    Path.WellFormed settings source.toList e.segments := by
  obtain ⟨_,raws,cut,segments⟩ := compileWith_ok.mp compiled
  have pieces := Path.rawSegments_pieces cut
  obtain ⟨dots,starts,increasing,separate⟩ := Path.rawSegments_starts cut
  obtain ⟨groups,grouped,flat⟩ := Path.allSegments_grouped segments
  refine ⟨?_,⟨dots,increasing,separate,?_⟩,⟨raws,groups,cut,pieces,grouped,flat⟩,
    Path.allSegments_sound (Path.rawSegments_usual cut) segments⟩
  · cases grouped with
    | nil => cases starts
    | cons own others =>
        obtain ⟨step,filters,rfl,head,_⟩ := own
        exact ⟨step,_,flat,step.filter_or_head.mp head⟩
  · have counted := congrArg List.length starts
    rw [List.length_map] at counted
    rw [Path.allSegments_heads segments,counted]
    simp

-- The dot in the brackets separates nothing.
theorem PathExpr.compile_wellFormed_dots : ∃ e,compile "a[x.y].**" = .ok e ∧
    e.segments = [.literal "a",.present "x.y",.deep] ∧ Path.WellFormed .default "a[x.y].**".toList e.segments := by
  have cut : Path.rawSegments "a[x.y].**".toList = .ok [⟨0,['a'],false,[['x','.','y']]⟩,⟨7,['*','*'],false,[]⟩] := by
    decide +kernel
  have compiled : compile "a[x.y].**" = .ok ⟨"a[x.y].**",[.literal "a",.present "x.y",.deep]⟩ :=
    compileWith_ok.mpr ⟨rfl,_,cut,rfl⟩
  exact ⟨_,compiled,rfl,compile_wellFormed compiled⟩

end SharedTree
