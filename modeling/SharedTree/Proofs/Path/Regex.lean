import SharedTree.Pattern.Reader
import SharedTree.Proofs.Path.Moves
import SharedTree.Proofs.Path.Segments

namespace SharedTree
namespace Path

-- The scan takes a regular expression in pieces, an escape with the character behind it or a single
-- character, and keeps count of the open brackets.
inductive RegexPiece where
  | escape (c : Char)
  | single (c : Char)
  deriving DecidableEq, Repr

namespace RegexPiece

def text : RegexPiece → List Char
  | escape c => ['\\',c]
  | single c => [c]

def written : RegexPiece → List Char
  | escape c => ['\\',c]
  | single c => if c = '.' then ['\\','.'] else [c]

def Whole : RegexPiece → Prop
  | escape _ => True
  | single c => c ≠ '\\'

def Sound (p : RegexPiece) : Prop := p.Whole ∧ p ≠ escape '.'

theorem sound_single (usual : c ≠ '\\') : (single c).Sound := ⟨usual,nofun⟩

theorem sound_escape (other : c ≠ '.') : (escape c).Sound := ⟨trivial,by simpa using other⟩

def depth? (depth : Nat) : RegexPiece → Option Nat
  | escape _ => some depth
  | single c =>
    if c = '[' then some (depth + 1)
    else if c = ']' then if depth = 0 then none else some (depth - 1)
    else some depth

end RegexPiece

def textOf (pieces : List RegexPiece) : List Char := pieces.flatMap RegexPiece.text

def depthAfter? (depth : Nat) (pieces : List RegexPiece) : Option Nat := pieces.foldlM RegexPiece.depth? depth

-- The text of sound pieces that leave `depth` brackets open.
structure RegexText (pieces : List RegexPiece) (depth : Nat) (text : List Char) : Prop where
  spelled : textOf pieces = text
  sound : ∀ p ∈ pieces,p.Sound
  balanced : depthAfter? 0 pieces = some depth

-- The ways to write pieces where `depth` brackets are open.
inductive Spelled : Nat → List RegexPiece → List Char → Prop
  | done : Spelled depth [] []
  | piece (next : p.depth? depth = some after) (rest : Spelled after pieces w) : Spelled depth (p :: pieces) (p.written ++ w)
  | dot (within : depth ≠ 0) (rest : Spelled depth pieces w) : Spelled depth (.single '.' :: pieces) ('.' :: w)

variable {pieces others : List RegexPiece} {p : RegexPiece} {s : Scan} {depth after : Nat}

theorem textOf_cons (p : RegexPiece) (pieces : List RegexPiece) : textOf (p :: pieces) = p.text ++ textOf pieces := rfl

theorem textOf_snoc (pieces : List RegexPiece) (p : RegexPiece) : textOf (pieces ++ [p]) = textOf pieces ++ p.text := by
  simp [textOf]

theorem depthAfter?_cons (depth : Nat) (p : RegexPiece) (pieces : List RegexPiece) :
    depthAfter? depth (p :: pieces) = (p.depth? depth).bind fun after => depthAfter? after pieces := rfl

theorem depthAfter?_snoc (depth : Nat) (pieces : List RegexPiece) (p : RegexPiece) :
    depthAfter? depth (pieces ++ [p]) = (depthAfter? depth pieces).bind fun after => p.depth? after := by
  simp only [depthAfter?,List.foldlM_append,List.foldlM_cons,List.foldlM_nil]
  exact congrArg _ (funext fun _ => bind_pure _)

theorem spelled_written (closed : depthAfter? depth pieces = some after) :
    Spelled depth pieces (pieces.flatMap RegexPiece.written) := by
  induction pieces generalizing depth with
  | nil => exact .done
  | cons p pieces ih =>
      rw [depthAfter?_cons] at closed
      obtain ⟨middle,next,rest⟩ := Option.bind_eq_some_iff.mp closed
      exact .piece next (ih rest)

theorem pieces_unique (whole : ∀ p ∈ pieces,p.Whole) (others_ : ∀ p ∈ others,p.Whole) (same : textOf pieces = textOf others) :
    pieces = others := by
  induction pieces generalizing others with
  | nil =>
      cases others with
      | nil => rfl
      | cons q others => cases q <;> simp [textOf,RegexPiece.text] at same
  | cons p pieces ih =>
      cases others with
      | nil => cases p <;> simp [textOf,RegexPiece.text] at same
      | cons q others =>
          rw [textOf_cons,textOf_cons] at same
          have left := fun r member => whole r (List.mem_cons_of_mem p member)
          have right := fun r member => others_ r (List.mem_cons_of_mem q member)
          have first := whole p List.mem_cons_self
          have first' := others_ q List.mem_cons_self
          cases p with
          | escape c =>
              cases q with
              | escape d =>
                  simp only [RegexPiece.text,List.cons_append,List.nil_append,List.cons.injEq,true_and] at same
                  rw [same.1,ih left right same.2]
              | single d => exact absurd (List.cons.inj same).1.symm first'
          | single c =>
              cases q with
              | escape d => exact absurd (List.cons.inj same).1 first
              | single d =>
                  simp only [RegexPiece.text,List.cons_append,List.nil_append,List.cons.injEq] at same
                  rw [same.1,ih left right same.2]

theorem RegexText.add {name : List Char} (whole : RegexText pieces depth name) (sound : p.Sound)
    (next : p.depth? depth = some after) : RegexText (pieces ++ [p]) after (name ++ p.text) := by
  refine ⟨by rw [textOf_snoc,whole.spelled],?_,by rw [depthAfter?_snoc,whole.balanced]; exact next⟩
  intro q member
  rcases List.mem_append.mp member with before | here
  · exact whole.sound q before
  · rw [List.mem_singleton.mp here]
    exact sound

def Scan.inClasses (s : Scan) (opens : List Nat) : Scan := { s with classes := opens }

theorem piece_move (free : s.filter = none) (bare : s.current.filters = []) (regex : s.current.regex = true) (sound : p.Sound)
    (next : p.depth? s.classes.length = some after) (position : Nat) (rest : List Char) :
    ∃ opens position',opens.length = after ∧
      Move ⟨s,position,p.written ++ rest⟩ ⟨(s.inClasses opens).add p.text,position',rest⟩ := by
  cases p with
  | escape c =>
      have other : c ≠ '.' := fun dot => sound.2 (by rw [dot])
      exact ⟨s.classes,_,Option.some.inj next,.kept free bare regex other⟩
  | single c =>
      by_cases dot : c = '.'
      · subst dot
        exact ⟨s.classes,_,Option.some.inj next,.wildcard free bare regex⟩
      have plain : (RegexPiece.single c).written = [c] := if_neg dot
      rw [plain]
      by_cases opens : c = '['
      · subst opens
        exact ⟨position :: s.classes,_,Option.some.inj next,.openClass free bare regex⟩
      by_cases closes : c = ']'
      · subst closes
        have within : s.classes ≠ [] := by
          rintro outside
          simp [RegexPiece.depth?,outside] at next
        refine ⟨s.classes.drop 1,_,?_,.closeClass free bare regex within⟩
        simpa [RegexPiece.depth?,within] using next
      · refine ⟨s.classes,_,by simpa [RegexPiece.depth?,opens,closes] using next,.other free bare ?_ ?_⟩
        · have usual : c ≠ '\\' := sound.1
          simp [usual,dot,opens,closes]
        · intro _
          simp [RawSegment.isBlank,regex]

theorem spelled_reached (spelled : Spelled depth pieces w) (sound : ∀ p ∈ pieces,p.Sound) (free : s.filter = none)
    (bare : s.current.filters = []) (regex : s.current.regex = true) (deep : s.classes.length = depth) (position : Nat)
    (rest : List Char) :
    ∃ opens position',depthAfter? depth pieces = some opens.length ∧
      Reached ⟨s,position,w ++ rest⟩ ⟨(s.inClasses opens).add (textOf pieces),position',rest⟩ := by
  induction spelled generalizing s position with
  | done =>
      have same : (s.inClasses s.classes).add (textOf []) = s := by simp [Scan.inClasses,Scan.add,textOf]
      refine ⟨s.classes,position,by rw [deep]; rfl,?_⟩
      rw [same]
      exact .stay
  | @piece after pieces w depth p next more ih =>
      rw [← deep] at next
      obtain ⟨opens,middle,length,step⟩ := piece_move free bare regex (sound p List.mem_cons_self) next position (w ++ rest)
      obtain ⟨opens',last,closed,reached⟩ := ih (s := (s.inClasses opens).add p.text)
        (fun q member => sound q (List.mem_cons_of_mem p member)) free bare regex length middle
      refine ⟨opens',last,?_,?_⟩
      · rw [depthAfter?_cons,← deep,next]
        exact closed
      · have same : (((s.inClasses opens).add p.text).inClasses opens').add (textOf pieces) =
            (s.inClasses opens').add (textOf (p :: pieces)) := by simp [Scan.inClasses,Scan.add,textOf_cons]
        rw [List.append_assoc,← same]
        exact .move step reached
  | @dot depth pieces w within more ih =>
      have inside : s.classes ≠ [] := by
        rintro outside
        rw [← deep,outside] at within
        exact within rfl
      obtain ⟨opens,last,closed,reached⟩ := ih (s := s.add ['.']) (fun q member => sound q (List.mem_cons_of_mem _ member))
        free bare regex deep (position + '.'.utf8Size)
      have same : ((s.add ['.']).inClasses opens).add (textOf pieces) =
          (s.inClasses opens).add (textOf (.single '.' :: pieces)) := by
        simp [Scan.inClasses,Scan.add,textOf_cons,RegexPiece.text]
      refine ⟨opens,last,closed,?_⟩
      rw [← same]
      exact .move (.classDot free bare inside) reached

theorem regex_cut {r : List Char} (whole : RegexText pieces 0 r) (spelled : Spelled 0 pieces w) :
    rawSegments ('~' :: w) = .ok [⟨0,r,true,[]⟩] := by
  obtain ⟨opens,position,closed,reached⟩ := spelled_reached (s := Scan.start.asRegex) spelled whole.sound rfl rfl rfl rfl
    (0 + '~'.utf8Size) []
  have none_ : opens = [] := List.length_eq_zero_iff.mp (Option.some.inj (closed.symm.trans whole.balanced))
  have begun : Move ⟨.start,0,'~' :: w⟩ _ := .regex rfl rfl
  rw [List.append_nil] at reached
  rw [none_,whole.spelled] at reached
  exact begun.run_eq.trans (run_of_reached reached)

structure Scan.Pieced (s : Scan) : Prop where
  current : s.current.regex = true → s.filter = none ∧ ∃ pieces,RegexText pieces s.classes.length s.current.name
  outside : s.current.regex = false → s.classes = []
  done : ∀ raw ∈ s.done,raw.regex = true → ∃ pieces,RegexText pieces 0 raw.name

theorem Scan.Pieced.within (pieced : s.Pieced) (inside : s.classes ≠ []) : s.current.regex = true := by
  cases regex : s.current.regex with
  | true => rfl
  | false => exact absurd (pieced.outside regex) inside

theorem Scan.Pieced.plain (pieced : s.Pieced) (plain : s.current.regex = false) (added : List Char) : (s.add added).Pieced :=
  ⟨fun regex => (nomatch plain.symm.trans regex),pieced.outside,pieced.done⟩

theorem Scan.Pieced.add (pieced : s.Pieced) (regex : s.current.regex = true) (sound : p.Sound) {opens : List Nat}
    (next : p.depth? s.classes.length = some opens.length) : ((s.inClasses opens).add p.text).Pieced := by
  obtain ⟨free,pieces,whole⟩ := pieced.current regex
  exact ⟨fun _ => ⟨free,_,whole.add sound next⟩,fun plain => (nomatch regex.symm.trans plain),pieced.done⟩

theorem Move.pieced {m n : Place} (step : Move m n) (pieced : m.scan.Pieced) : n.scan.Pieced := by
  cases step with
  | reading started =>
      obtain ⟨done,classes,_,regex⟩ := inFilter_rest _ _ _
      have plain := fun yes => started.symm.trans (pieced.current yes).1
      refine ⟨fun yes => ?_,fun no => ?_,fun raw member => ?_⟩
      · cases plain (regex.symm.trans yes)
      · exact classes.trans (pieced.outside (regex.symm.trans no))
      · rw [done] at member
        exact pieced.done raw member
  | escape free bare plain known => exact pieced.plain plain _
  | wildcard free bare regex => exact pieced.add (p := .single '.') regex (RegexPiece.sound_single (by decide)) rfl
  | kept free bare regex other => exact pieced.add (p := .escape _) regex (RegexPiece.sound_escape other) rfl
  | @regex s position rest free blank =>
      have empty : s.current.name = [] ∧ s.current.regex = false := by
        simp only [RawSegment.isBlank,Bool.and_eq_true,List.isEmpty_iff,Bool.not_eq_true'] at blank
        exact blank.1
      have none_ : s.classes = [] := pieced.outside empty.2
      refine ⟨fun _ => ⟨free,[],?_⟩,fun plain => Bool.noConfusion plain,pieced.done⟩
      exact ⟨empty.1.symm,by simp,by rw [Scan.asRegex,none_]; rfl⟩
  | classDot free bare within => exact pieced.add (p := .single '.') (pieced.within within) (RegexPiece.sound_single (by decide)) rfl
  | @point s rest position free bare outside decimal =>
      have plain : s.current.regex = false := by
        simp only [Scan.atPoint,RawSegment.inThreshold,Bool.and_eq_true,Bool.not_eq_true'] at decimal
        exact decimal.1.1.1.1
      exact pieced.plain plain _
  | separator free outside ends =>
      refine ⟨fun regex => Bool.noConfusion regex,fun _ => outside,fun raw member regex => ?_⟩
      rcases List.mem_cons.mp member with rfl | before
      · obtain ⟨_,pieces,whole⟩ := pieced.current regex
        dsimp only at whole
        rw [outside] at whole
        exact ⟨pieces,whole⟩
      · exact pieced.done raw before regex
  | openClass free bare regex => exact pieced.add (p := .single '[') regex (RegexPiece.sound_single (by decide)) rfl
  | @closeClass s position rest free bare regex within =>
      refine pieced.add (p := .single ']') regex (RegexPiece.sound_single (by decide)) ?_
      simp [RegexPiece.depth?,within]
  | openFilter free plain =>
      exact ⟨fun regex => absurd (plain.symm.trans regex) Bool.false_ne_true,pieced.outside,pieced.done⟩
  | @other c s position rest free bare usual begun =>
      simp only [List.mem_cons,List.not_mem_nil,or_false,not_or] at usual
      cases regex : s.current.regex with
      | false => exact pieced.plain regex _
      | true => exact pieced.add (p := .single c) regex (RegexPiece.sound_single usual.1) (by simp [RegexPiece.depth?,usual])

theorem Reached.pieced {m n : Place} (reached : Reached m n) (pieced : m.scan.Pieced) : n.scan.Pieced := by
  induction reached with
  | stay => exact pieced
  | move step _ ih => exact ih (step.pieced pieced)

theorem rawSegments_pieced (cut : rawSegments text = .ok raws) : ∀ raw ∈ raws,raw.regex = true → ∃ pieces,RegexText pieces 0 raw.name := by
  obtain ⟨t,position,reached,finished⟩ := reached_end (m := ⟨.start,0,text⟩) cut
  have pieced : t.Pieced := reached.pieced ⟨nofun,fun _ => rfl,nofun⟩
  obtain ⟨_,outside,rfl⟩ := finish_ok finished
  intro raw member regex
  rcases List.mem_cons.mp (List.mem_reverse.mp member) with rfl | before
  · obtain ⟨_,pieces,whole⟩ := pieced.current regex
    rw [outside] at whole
    exact ⟨pieces,whole⟩
  · exact pieced.done raw before regex

theorem classify_regex : classify settings start name ≠ .ok (.regex source expression) := by
  intro read
  unfold classify at read
  split at read
  · cases read
  · cases read
  · obtain ⟨_,_,other,_⟩ := fuzzy_ok read
    cases other
  · split at read <;> cases read

theorem segmentsOf_regex [Regex.Engine] {raw : RawSegment} (compiled : segmentsOf settings raw = .ok segments)
    (member : .regex source expression ∈ segments) :
    raw.regex = true ∧ raw.name ≠ [] ∧ source = String.ofList raw.name ∧ Regex.anchored? source = some expression := by
  obtain ⟨spelled,head,filters,read,tests,rfl⟩ := segmentsOf_ok.mp compiled
  rcases List.mem_cons.mp member with rfl | filter
  · unfold RawSegment.head at read
    split at read
    · rename_i regex
      obtain ⟨_,same⟩ := regexOf_ok read
      cases same
      refine ⟨regex,spelled,rfl,?_⟩
      unfold regexOf at read
      split at read
      · rename_i found
        cases read
        exact found
      · cases read
    · exact absurd read classify_regex
  · cases filtersOf_isFilter tests _ filter

theorem allSegments_regex [Regex.Engine] (compiled : allSegments settings raws = .ok segments)
    (member : .regex source expression ∈ segments) :
    ∃ raw ∈ raws,raw.regex = true ∧ raw.name ≠ [] ∧ source = String.ofList raw.name ∧
      Regex.anchored? source = some expression := by
  induction raws generalizing segments with
  | nil =>
      cases compiled
      cases member
  | cons raw raws ih =>
      obtain ⟨first,others,own,left,rfl⟩ := allSegments_cons.mp compiled
      rcases List.mem_append.mp member with here | later
      · exact ⟨raw,List.mem_cons_self,segmentsOf_regex own here⟩
      · obtain ⟨found,inside,known⟩ := ih left later
        exact ⟨found,List.mem_cons_of_mem _ inside,known⟩

end Path

namespace PathExpr

open SharedTree.Path

def regexSource (written : List Char) : String := String.ofList ('~' :: written)

theorem compile_spelled [Regex.Engine] (settings : Path.Settings) {r : List Char} (whole : RegexText pieces 0 r) (nonempty : r ≠ [])
    (spelled : Spelled 0 pieces w) :
    compileWith settings (regexSource w) = match Regex.anchored? (String.ofList r) with
      | some expression => .ok ⟨regexSource w,[.regex (String.ofList r) expression]⟩
      | none => .error ⟨regexSource w,.invalidRegex (String.ofList r)⟩ := by
  have cut := regex_cut whole spelled
  have source : (regexSource w).toList = '~' :: w := String.toList_ofList
  unfold compileWith
  rw [source,cut]
  cases read : Regex.anchored? (String.ofList r) <;>
    simp [allSegments,segmentsOf,nonempty,regexOf,read,filtersOf]

-- Written behind its mark, the text of sound and balanced pieces is one segment,
-- and no other text becomes a regular expression; in its pieces no dot is escaped.
theorem compile_regex [Regex.Engine] (settings : Path.Settings) :
    (∀ pieces r w,RegexText pieces 0 r → r ≠ [] → Spelled 0 pieces w →
      rawSegments ('~' :: w) = .ok [⟨0,r,true,[]⟩] ∧
      compileWith settings (regexSource w) = match Regex.anchored? (String.ofList r) with
        | some expression => .ok ⟨regexSource w,[.regex (String.ofList r) expression]⟩
        | none => .error ⟨regexSource w,.invalidRegex (String.ofList r)⟩) ∧
    (∀ pieces r,RegexText pieces 0 r → Spelled 0 pieces (pieces.flatMap RegexPiece.written)) ∧
    (∀ source e text expression,compileWith settings source = .ok e → .regex text expression ∈ e.segments →
      text ≠ "" ∧ Regex.anchored? text = some expression ∧ ∃ pieces,RegexText pieces 0 text.toList) ∧
    ∀ pieces r,RegexText pieces 0 r → ∀ others,(∀ p ∈ others,p.Whole) → textOf others = r → .escape '.' ∉ others := by
  refine ⟨?_,?_,?_,?_⟩
  · intro pieces r w whole nonempty spelled
    exact ⟨regex_cut whole spelled,compile_spelled settings whole nonempty spelled⟩
  · intro pieces r whole
    exact spelled_written whole.balanced
  · intro source e text expression compiled member
    obtain ⟨_,raws,cut,made⟩ := compileWith_ok.mp compiled
    obtain ⟨raw,inside,regex,nonempty,rfl,read⟩ := allSegments_regex made member
    obtain ⟨pieces,whole⟩ := rawSegments_pieced cut raw inside regex
    refine ⟨?_,read,pieces,?_⟩
    · rw [Ne,String.ofList_eq_empty_iff]
      exact nonempty
    · rw [String.toList_ofList]
      exact whole
  · intro pieces r whole others whole' same member
    have equal : others = pieces := pieces_unique whole' (fun p inside => (whole.sound p inside).1) (same.trans whole.spelled.symm)
    exact (whole.sound _ (equal ▸ member)).2 rfl

-- An escaped backslash before a dot, an escaped bracket, and dots in and around a class.
theorem compile_escapes :
    Path.rawSegments "~a\\\\\\.\\[[.]".toList = .ok [⟨0,"a\\\\.\\[[.]".toList,true,[]⟩] := by
  have whole : RegexText [.single 'a',.escape '\\',.single '.',.escape '[',.single '[',.single '.',.single ']'] 0
      "a\\\\.\\[[.]".toList := by
    refine ⟨by decide,?_,by decide⟩
    simp [RegexPiece.Sound,RegexPiece.Whole]
  have spelled : Spelled 0 [.single 'a',.escape '\\',.single '.',.escape '[',.single '[',.single '.',.single ']']
      "a\\\\\\.\\[[.]".toList :=
    .piece rfl (.piece rfl (.piece rfl (.piece rfl (.piece rfl (.dot (by decide) (.piece rfl .done))))))
  exact ((compile_regex .default).1 _ _ _ whole (by decide) spelled).1

end PathExpr
end SharedTree
