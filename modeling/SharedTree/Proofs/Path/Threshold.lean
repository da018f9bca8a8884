import SharedTree.Pattern.Reader
import SharedTree.Proofs.Path.Joined
import SharedTree.Proofs.Path.Null

namespace SharedTree
namespace Path

structure FuzzyName (name : List Char) : Prop where
  spelled : name ≠ []
  usual : ∀ c ∈ name,c ∉ ['\\','.',':','[',']']

-- What the scan takes for the whole part of a threshold.
def WholePart (front : List Char) : Prop :=
  ∃ signs digits,front = signs ++ digits ∧ (∀ c ∈ signs,c = '+' ∨ c = '-') ∧ digits ≠ [] ∧
    ∀ c ∈ digits,Decimal.isDigit c = true

def Pointed (t : List Char) : Prop := ∀ front rest,t = front ++ '.' :: rest → rest.head?.any Decimal.isDigit = true

inductive PointText : List Char → Prop
  | none : PointText []
  | point (digits : ∀ c ∈ w,Decimal.isDigit c = true) : PointText ('.' :: w)

variable {t name front rest w : List Char} {c : Char} {v : Binary64} {start : Nat}

theorem thresholdOf?_taken (read : thresholdOf? t = some v) :
    ∃ sign whole point power e,t = sign ++ (whole ++ (point ++ power)) ∧ (∀ c ∈ sign,c = '-' ∨ c = '+') ∧
      (∀ c ∈ whole,Decimal.isDigit c = true) ∧ PointText point ∧ ExponentText e power := by
  unfold thresholdOf? at read
  split at read
  rename_i negative behind signed
  have sign : ∃ sign,t = sign ++ behind ∧ ∀ c ∈ sign,c = '-' ∨ c = '+' := by
    split at signed
    · cases signed
      exact ⟨['-'],rfl,by simp⟩
    · cases signed
      exact ⟨['+'],rfl,by simp⟩
    · cases signed
      exact ⟨[],rfl,by simp⟩
  obtain ⟨sign,rfl,signs⟩ := sign
  split at read
  rename_i whole after cut
  obtain ⟨rfl,digits,_⟩ := span_taken cut
  split at read
  rename_i fraction last pointed
  have point : ∃ point,after = point ++ last ∧ PointText point := by
    split at pointed
    · obtain ⟨rfl,decimals,_⟩ := span_taken pointed
      exact ⟨'.' :: fraction,rfl,.point decimals⟩
    · cases pointed
      exact ⟨[],rfl,.none⟩
  obtain ⟨point,rfl,pointText⟩ := point
  split at read
  · cases read
  · split at read
    · exact ⟨sign,whole,point,[],none,rfl,signs,digits,pointText,.none⟩
    · rename_i below power raised
      obtain ⟨x,rfl,text⟩ := exponentPart?_taken raised
      exact ⟨sign,whole,point,x,_,by rw [List.append_nil],signs,digits,pointText,text⟩
    · cases read

-- A character of a number other than its point, or one that is trimmed away.
def isQuiet (c : Char) : Bool := Unicode.isBlank c || Decimal.isDigit c || ['-','+','e','E'].contains c

theorem quiet_blank (blank : Unicode.isBlank c = true) : isQuiet c = true := by simp [isQuiet,blank]

theorem quiet_digit (digit : Decimal.isDigit c = true) : isQuiet c = true := by simp [isQuiet,digit]

theorem quiet_sign (sign : c = '-' ∨ c = '+') : isQuiet c = true := by rcases sign with rfl | rfl <;> decide

theorem quiet_letter (letter : c = 'e' ∨ c = 'E') : isQuiet c = true := by rcases letter with rfl | rfl <;> decide

theorem quiet_apart (quiet : isQuiet c = true) : c ∉ ['\\','.',':','[',']','*'] := by
  have loud : (['\\','.',':','[',']','*'].all fun c => !isQuiet c) = true := by decide
  intro member
  simpa [quiet] using List.all_eq_true.mp loud c member

theorem ExponentText.quiet (text : ExponentText e w) : ∀ c ∈ w,isQuiet c = true := by
  cases text with
  | none => simp
  | bare letter digits => exact List.forall_mem_cons.mpr ⟨quiet_letter letter,fun c member => quiet_digit (digits.2 c member)⟩
  | plus letter digits =>
      exact List.forall_mem_cons.mpr ⟨quiet_letter letter,List.forall_mem_cons.mpr
        ⟨quiet_sign (.inr rfl),fun c member => quiet_digit (digits.2 c member)⟩⟩
  | minus letter digits =>
      exact List.forall_mem_cons.mpr ⟨quiet_letter letter,List.forall_mem_cons.mpr
        ⟨quiet_sign (.inl rfl),fun c member => quiet_digit (digits.2 c member)⟩⟩

structure ThresholdText (t : List Char) : Prop where
  known : ∀ c ∈ t,c = '.' ∨ isQuiet c = true
  single : t.count '.' ≤ 1

theorem quiet_text (quiet : ∀ c ∈ w,isQuiet c = true) : ThresholdText w ∧ w.count '.' = 0 := by
  have none_ : w.count '.' = 0 := List.count_eq_zero.mpr fun member => absurd (quiet '.' member) (by decide)
  exact ⟨⟨fun c member => .inr (quiet c member),by omega⟩,none_⟩

theorem ThresholdText.around (text : ThresholdText t) (before : ∀ c ∈ front,isQuiet c = true)
    (after : ∀ c ∈ rest,isQuiet c = true) : ThresholdText (front ++ (t ++ rest)) := by
  refine ⟨fun c member => ?_,?_⟩
  · rcases List.mem_append.mp member with first | later
    · exact .inr (before c first)
    · rcases List.mem_append.mp later with inside | last
      · exact text.known c inside
      · exact .inr (after c last)
  · rw [List.count_append,List.count_append,(quiet_text before).2,(quiet_text after).2]
    simpa using text.single

theorem PointText.text (point : PointText w) : ThresholdText w := by
  cases point with
  | none => exact ⟨by simp,by simp⟩
  | @point w digits =>
      have quiet := fun c member => quiet_digit (digits c member)
      refine ⟨List.forall_mem_cons.mpr ⟨.inl rfl,fun c member => .inr (quiet c member)⟩,?_⟩
      rw [List.count_cons_self,(quiet_text quiet).2]

theorem threshold?_text (accepted : threshold? t = some v) : ThresholdText t := by
  obtain ⟨read,_⟩ := Option.filter_eq_some_iff.mp accepted
  obtain ⟨sign,whole,point,power,e,spelled,signs,digits,pointed,raised⟩ := thresholdOf?_taken read
  obtain ⟨b,c,same,before,after⟩ := trim_split t
  have front : ∀ d ∈ b ++ (sign ++ whole),isQuiet d = true := by
    intro d member
    simp only [List.mem_append] at member
    rcases member with blank | sign | digit
    · exact quiet_blank (before d blank)
    · exact quiet_sign (signs d sign)
    · exact quiet_digit (digits d digit)
  have back : ∀ d ∈ power ++ c,isQuiet d = true := by
    intro d member
    rcases List.mem_append.mp member with raise | blank
    · exact raised.quiet d raise
    · exact quiet_blank (after d blank)
  have text := pointed.text.around front back
  rw [same,spelled]
  simpa only [List.append_assoc] using text

theorem ThresholdText.parts (text : ThresholdText (front ++ '.' :: rest)) :
    (∀ c ∈ front,isQuiet c = true) ∧ ∀ c ∈ rest,isQuiet c = true := by
  have single := text.single
  rw [List.count_append,List.count_cons_self] at single
  have first : '.' ∉ front := List.count_eq_zero.mp (by omega)
  have second : '.' ∉ rest := List.count_eq_zero.mp (by omega)
  refine ⟨fun c member => ?_,fun c member => ?_⟩
  · rcases text.known c (List.mem_append_left _ member) with rfl | quiet
    · exact absurd member first
    · exact quiet
  · rcases text.known c (List.mem_append_right _ (.tail _ member)) with rfl | quiet
    · exact absurd member second
    · exact quiet

theorem ThresholdText.pointless (text : ThresholdText t) (absent : '.' ∉ t) : ∀ c ∈ t,isQuiet c = true := by
  intro c member
  rcases text.known c member with rfl | quiet
  · exact absurd member absent
  · exact quiet

theorem ThresholdText.colon (text : ThresholdText t) : ':' ∉ t := by
  intro member
  rcases text.known ':' member with same | quiet
  · cases same
  · exact absurd quiet (by decide)

theorem afterColon?_append (absent : ':' ∉ t) (name : List Char) : RawSegment.afterColon? (name ++ ':' :: t) = some t :=
  afterColon?_iff.mpr ⟨name,rfl,absent⟩

theorem beforeColon_append (absent : ':' ∉ t) (name : List Char) : RawSegment.beforeColon (name ++ ':' :: t) = name := by
  have others : ∀ c ∈ t.reverse,(c != ':') = true := by
    intro c inside
    simpa using fun same : c = ':' => absent (same ▸ List.mem_reverse.mp inside)
  rw [RawSegment.beforeColon,List.reverse_append,List.reverse_cons,List.append_assoc,List.dropWhile_append_of_pos others]
  simp

theorem fuzzy_colon (settings : Settings) (absent : ':' ∉ t) (spelled : name ≠ []) :
    fuzzy settings start (name ++ ':' :: t) = match threshold? t with
      | some v => .ok (.fuzzy (String.ofList name) v)
      | none => .error (.threshold (String.ofList t)) := by
  rw [fuzzy,afterColon?_append absent]
  simp only [beforeColon_append absent]
  cases threshold? t with
  | none => rfl
  | some v => simp [spelled]

def fuzzyText (name t : List Char) : List Char := '%' :: (name ++ ':' :: t)

theorem segmentsOf_fuzzy [Regex.Engine] (settings : Settings) (start : Nat) (absent : ':' ∉ t) (spelled : name ≠ []) :
    segmentsOf settings ⟨start,fuzzyText name t,false,[]⟩ = match threshold? t with
      | some v => .ok [.fuzzy (String.ofList name) v]
      | none => .error (.threshold (String.ofList t)) := by
  have head : classify settings start (fuzzyText name t) = fuzzy settings start (name ++ ':' :: t) := rfl
  have named : (fuzzyText name t).isEmpty = false := rfl
  rw [segmentsOf,named]
  simp only [head,fuzzy_colon settings absent spelled]
  cases threshold? t <;> rfl

theorem segmentsOf_digit [Regex.Engine] (settings : Settings) (start : Nat) (quiet : ∀ c ∈ rest,isQuiet c = true)
    (digit : rest.head?.any Decimal.isDigit = true) :
    segmentsOf settings ⟨start,rest,false,[]⟩ = .ok [.literal (String.ofList rest)] := by
  have spelled : rest ≠ [] := by
    rintro rfl
    cases digit
  have noGlob : '*' ∉ rest := fun member => absurd (quiet '*' member) (by decide)
  have first : rest.head? ≠ some '%' := by
    intro percent
    rw [percent] at digit
    cases digit
  exact segmentsOf_ok.mpr ⟨spelled,_,_,classify_literal.mpr ⟨rfl,noGlob,first⟩,rfl,rfl⟩

theorem bare_reached {s : Scan} (free : s.filter = none) (plain : s.current.regex = false) (bare : s.current.filters = [])
    (usual : ∀ c ∈ w,c ∉ ['\\','.','[',']']) (begun : w.head? = some '~' → s.current.name ≠ []) (position : Nat)
    (rest : List Char) : ∃ next,Reached ⟨s,position,w ++ rest⟩ ⟨s.add w,next,rest⟩ := by
  have noFilter : '[' ∉ w ∧ ']' ∉ w := ⟨fun member => usual _ member (by simp),fun member => usual _ member (by simp)⟩
  have unescaped : ∀ c ∈ w,c ≠ '\\' ∧ c ≠ '.' := by
    intro c member
    have other := usual c member
    simp only [List.mem_cons,not_or] at other
    exact ⟨other.1,other.2.1⟩
  have reached := escaped_reached free plain bare noFilter begun position rest
  rwa [escaped_bare unescaped] at reached

theorem quiet_usual (quiet : ∀ c ∈ w,isQuiet c = true) : ∀ c ∈ w,c ∉ ['\\','.','[',']'] := by
  intro c member
  have apart := quiet_apart (quiet c member)
  simp only [List.mem_cons,not_or] at apart ⊢
  exact ⟨apart.1,apart.2.1,apart.2.2.2.1,apart.2.2.2.2.1,apart.2.2.2.2.2.2⟩

theorem fuzzy_reached (named : FuzzyName name) (quiet : ∀ c ∈ front,isQuiet c = true) (rest : List Char) :
    ∃ next,Reached ⟨.start,0,fuzzyText name front ++ rest⟩ ⟨Scan.start.add (fuzzyText name front),next,rest⟩ := by
  refine bare_reached rfl rfl rfl (fun c member => ?_) (by simp [fuzzyText]) 0 rest
  simp only [fuzzyText,List.mem_cons,List.mem_append] at member
  rcases member with rfl | inside | rfl | behind
  · decide
  · have other := named.usual c inside
    simp only [List.mem_cons,not_or] at other ⊢
    exact ⟨other.1,other.2.1,other.2.2.2⟩
  · decide
  · exact quiet_usual quiet c behind

theorem fuzzy_atPoint (absent : ':' ∉ front) (digit : rest.head?.any Decimal.isDigit = true) :
    (Scan.start.add (fuzzyText name front)).atPoint rest = true ↔ WholePart front := by
  have after : RawSegment.afterColon? (fuzzyText name front) = some front := afterColon?_append absent ('%' :: name)
  have current : (Scan.start.add (fuzzyText name front)).current = ⟨0,fuzzyText name front,false,[]⟩ := rfl
  have first : (fuzzyText name front).head? = some '%' := rfl
  rw [WholePart,← digits_iff,Scan.atPoint,current,RawSegment.inThreshold,after,digit,first]
  simp

theorem fuzzyText_append (name front rest : List Char) : fuzzyText name (front ++ rest) = fuzzyText name front ++ rest := by
  simp [fuzzyText]

theorem pointless_cut (named : FuzzyName name) (quiet : ∀ c ∈ t,isQuiet c = true) :
    rawSegments (fuzzyText name t) = .ok [⟨0,fuzzyText name t,false,[]⟩] := by
  obtain ⟨next,reached⟩ := fuzzy_reached named quiet []
  rw [List.append_nil] at reached
  exact run_of_reached reached

variable (named : FuzzyName name) (quiet : ∀ c ∈ front,isQuiet c = true) (quiet' : ∀ c ∈ rest,isQuiet c = true)
  (digit : rest.head?.any Decimal.isDigit = true)
include named quiet quiet' digit

theorem point_cut (whole : WholePart front) :
    rawSegments (fuzzyText name (front ++ '.' :: rest)) = .ok [⟨0,fuzzyText name (front ++ '.' :: rest),false,[]⟩] := by
  obtain ⟨next,reached⟩ := fuzzy_reached named quiet ('.' :: rest)
  have colon : ':' ∉ front := fun member => absurd (quiet ':' member) (by decide)
  have step : Move ⟨Scan.start.add (fuzzyText name front),next,'.' :: rest⟩ _ :=
    .point rfl rfl rfl ((fuzzy_atPoint colon digit).mpr whole)
  obtain ⟨last,behind⟩ := bare_reached (s := (Scan.start.add (fuzzyText name front)).add ['.']) rfl rfl rfl
    (quiet_usual quiet') (by simp [Scan.add]) (next + '.'.utf8Size) []
  rw [List.append_nil] at behind
  have run := (reached.run_eq.trans step.run_eq).trans (run_of_reached behind)
  rw [fuzzyText_append]
  simpa [Place.run,rawSegments,Scan.finish,Scan.add,Scan.start,RawSegment.fresh] using run

theorem apart_cut (apart : ¬ WholePart front) : ∃ start,
    rawSegments (fuzzyText name (front ++ '.' :: rest)) = .ok [⟨0,fuzzyText name front,false,[]⟩,⟨start,rest,false,[]⟩] := by
  obtain ⟨next,reached⟩ := fuzzy_reached named quiet ('.' :: rest)
  have colon : ':' ∉ front := fun member => absurd (quiet ':' member) (by decide)
  have ends : (Scan.start.add (fuzzyText name front)).atPoint rest = false :=
    Bool.eq_false_iff.mpr fun point => apart ((fuzzy_atPoint colon digit).mp point)
  have step : Move ⟨Scan.start.add (fuzzyText name front),next,'.' :: rest⟩ _ := .separator rfl rfl ends
  have untilded : rest.head? = some '~' → (RawSegment.fresh (next + 1)).name ≠ [] := by
    intro tilde
    rw [tilde] at digit
    cases digit
  obtain ⟨last,behind⟩ := bare_reached (s := (Scan.start.add (fuzzyText name front)).separate next) rfl rfl rfl
    (quiet_usual quiet') untilded (next + '.'.utf8Size) []
  rw [List.append_nil] at behind
  have run := (reached.run_eq.trans step.run_eq).trans (run_of_reached behind)
  refine ⟨next + 1,?_⟩
  rw [fuzzyText_append]
  simpa [Place.run,rawSegments,Scan.finish,Scan.add,Scan.start,Scan.separate,RawSegment.fresh] using run

end Path

namespace PathExpr

open SharedTree.Path

def fuzzySource (name t : List Char) : String := String.ofList (fuzzyText name t)

variable {name t front rest : List Char} {v : Binary64}

theorem compile_whole [Regex.Engine] (settings : Path.Settings) (named : FuzzyName name) (accepted : threshold? t = some v)
    (cut : rawSegments (fuzzyText name t) = .ok [⟨0,fuzzyText name t,false,[]⟩]) :
    compileWith settings (fuzzySource name t) = .ok ⟨fuzzySource name t,[.fuzzy (String.ofList name) v]⟩ := by
  have own := segmentsOf_fuzzy settings 0 (threshold?_text accepted).colon named.spelled
  rw [accepted] at own
  refine compileWith_ok.mpr ⟨rfl,_,by rw [fuzzySource,String.toList_ofList]; exact cut,?_⟩
  exact allSegments_cons.mpr ⟨_,[],own,rfl,rfl⟩

theorem compile_apart [Regex.Engine] (settings : Path.Settings) (named : FuzzyName name) (quiet : ∀ c ∈ front,isQuiet c = true)
    (quiet' : ∀ c ∈ rest,isQuiet c = true) (digit : rest.head?.any Decimal.isDigit = true) (apart : ¬ WholePart front) :
    compileWith settings (fuzzySource name (front ++ '.' :: rest)) = match threshold? front with
      | some other => .ok ⟨fuzzySource name (front ++ '.' :: rest),
          [.fuzzy (String.ofList name) other,.literal (String.ofList rest)]⟩
      | none => .error ⟨fuzzySource name (front ++ '.' :: rest),.threshold (String.ofList front)⟩ := by
  obtain ⟨start,cut⟩ := apart_cut named quiet quiet' digit apart
  have colon : ':' ∉ front := fun member => absurd (quiet ':' member) (by decide)
  have first := segmentsOf_fuzzy settings 0 colon named.spelled
  have second := segmentsOf_digit settings start quiet' digit
  have source : (fuzzySource name (front ++ '.' :: rest)).toList = fuzzyText name (front ++ '.' :: rest) := String.toList_ofList
  rw [compileWith,source,cut]
  cases read : threshold? front with
  | none =>
      rw [read] at first
      simp only [allSegments,first]
  | some other =>
      rw [read] at first
      simp only [allSegments,first,second]
      rfl

-- A threshold is found by the scan, character by character, and then read as a number. The two
-- agree on a dot where only signs and at least one digit stand before it.
theorem compile_threshold [Regex.Engine] (settings : Path.Settings) (named : FuzzyName name) (accepted : threshold? t = some v)
    (pointed : Pointed t) :
    (compileWith settings (fuzzySource name t) = .ok ⟨fuzzySource name t,[.fuzzy (String.ofList name) v]⟩ ↔
      ∀ front rest,t = front ++ '.' :: rest → WholePart front) ∧
    ∀ front rest,t = front ++ '.' :: rest → ¬ WholePart front →
      compileWith settings (fuzzySource name t) = match threshold? front with
        | some other => .ok ⟨fuzzySource name t,[.fuzzy (String.ofList name) other,.literal (String.ofList rest)]⟩
        | none => .error ⟨fuzzySource name t,.threshold (String.ofList front)⟩ := by
  have text := threshold?_text accepted
  have second : ∀ front rest,t = front ++ '.' :: rest → ¬ WholePart front →
      compileWith settings (fuzzySource name t) = match threshold? front with
        | some other => .ok ⟨fuzzySource name t,[.fuzzy (String.ofList name) other,.literal (String.ofList rest)]⟩
        | none => .error ⟨fuzzySource name t,.threshold (String.ofList front)⟩ := by
    rintro front rest rfl apart
    exact compile_apart settings named text.parts.1 text.parts.2 (pointed front rest rfl) apart
  refine ⟨⟨fun compiled front rest spelled => ?_,fun whole => ?_⟩,second⟩
  · by_contra apart
    have cut := compiled.symm.trans (second front rest spelled apart)
    split at cut <;> cases cut
  · refine compile_whole settings named accepted ?_
    by_cases point : '.' ∈ t
    · obtain ⟨front,rest,rfl⟩ := List.append_of_mem point
      exact point_cut named text.parts.1 text.parts.2 (pointed front rest rfl) (whole front rest rfl)
    · exact pointless_cut named (text.pointless point)

-- A blank before the threshold: the scan ends the segment at its decimal point.
theorem compile_threshold_blank :
    threshold? [' ','0','.','5'] = some ⟨false,twoTo 52,-53⟩ ∧
      ¬ compile (fuzzySource ['n'] [' ','0','.','5']) =
        .ok ⟨fuzzySource ['n'] [' ','0','.','5'],[.fuzzy "n" ⟨false,twoTo 52,-53⟩]⟩ ∧
      compile (fuzzySource ['n'] [' ','0','.','5']) =
        .ok ⟨fuzzySource ['n'] [' ','0','.','5'],[.fuzzy "n" (.zero false),.literal "5"]⟩ := by
  have named : FuzzyName ['n'] := ⟨by decide,by simp⟩
  have accepted : threshold? [' ','0','.','5'] = some ⟨false,twoTo 52,-53⟩ := by decide +kernel
  have pointed : Pointed [' ','0','.','5'] := by
    intro front rest spelled
    have only : front = [' ','0'] ∧ rest = ['5'] := by simpa [List.cons_eq_append_iff] using spelled
    rw [only.2]
    rfl
  have apart : ¬ WholePart [' ','0'] := by
    rintro ⟨signs,digits,spelled,sign,_,digit⟩
    have blank : ' ' ∈ signs ++ digits := spelled ▸ List.mem_cons_self
    rcases List.mem_append.mp blank with first | later
    · exact absurd (sign ' ' first) (by decide)
    · exact absurd (digit ' ' later) (by decide)
  obtain ⟨whole,cut⟩ := compile_threshold .default named accepted pointed
  refine ⟨accepted,fun compiled => apart (whole.mp compiled _ _ rfl),?_⟩
  have zero : threshold? [' ','0'] = some (.zero false) := by decide +kernel
  have made := cut [' ','0'] ['5'] rfl apart
  rw [zero] at made
  exact made

end PathExpr
end SharedTree
