import SharedTree.Proofs.Path.Regex
import SharedTree.Proofs.Pattern.Counts
import SharedTree.Selector.Basic

namespace SharedTree
namespace Pattern

variable {r r' : Reading} {c : Char} {s u w rest front back : List Char} {b b' : Branch} {outer : OpenGroup} {p q : Pattern}

-- A parenthesis in place of the end of a text changes no step before it, except behind an
-- open brace, and that ends no text.
theorem near_beyond (u back : List Char) : Near u (u ++ ')' :: back) := by
  constructor
  · intro free tail same
    cases u with
    | nil => cases same
    | cons c u =>
        cases same
        obtain ⟨d,first,other⟩ := free u rfl
        obtain ⟨v,rfl⟩ := List.head?_eq_some_iff.mp first
        exact ⟨d,rfl,other⟩
  · intro unmarked
    cases u with
    | nil => simp
    | cons c u => exact unmarked

theorem near_before (other : u ≠ ['\x7b']) (back : List Char) : Near (u ++ ')' :: back) u := by
  constructor
  · rintro free tail rfl
    obtain ⟨d,first,outside⟩ := free _ rfl
    cases tail with
    | nil => exact absurd rfl other
    | cons c tail => exact ⟨d,first,outside⟩
  · intro unmarked
    cases u with
    | nil => simp
    | cons c u => exact unmarked

theorem Reads.unbraced (reads : Reads r s b) : s ≠ ['\x7b'] := by
  rintro rfl
  cases reads with
  | step first others => cases first

theorem step_unopened (outside : r.groups = []) (s : List Char) : r.step? ')' s = none := by
  show r.close?.map (·,s) = none
  rw [Reading.close?,outside]
  rfl

theorem Reads.stops (reads : Reads r front b) (back : List Char) (b' : Branch) : ¬ Reads r (front ++ ')' :: back) b' := by
  induction reads with
  | done outside =>
      intro further
      cases further with
      | step first others => cases (step_unopened outside _).symm.trans first
  | @step r' rest b r c s first others ih =>
      obtain ⟨w,rfl,again⟩ := step_decided _ _ _ _ _ first
      have same := again _ (near_beyond rest back)
      intro further
      rw [List.cons_append,List.append_assoc] at further
      cases further with
      | step first' others' =>
          rw [same] at first'
          cases first'
          exact ih others'

def enclosing : OpenGroup := ⟨none,[⟨some (.assert .textStart),0⟩],[],Flags.none⟩

def enclosed (b : Branch) : Branch :=
  alternatives [] [⟨some (.assert .textEnd),0⟩,⟨some (.group none b.pattern),b.height + 1⟩,⟨some (.assert .textStart),0⟩]

theorem reads_open : ¬ Reads (r.within outer) [] b := by
  intro reads
  generalize same : r.within outer = q at reads
  cases reads with
  | done outside =>
      subst same
      exact absurd outside (List.append_ne_nil_of_right_ne_nil _ (List.cons_ne_nil _ _))

theorem reads_unclosed : ¬ Reads (r.within outer) ['$'] b := by
  intro reads
  cases reads with
  | step first others =>
      rw [step_within (.inl (by decide))] at first
      obtain ⟨⟨closed,behind⟩,known,same⟩ := Option.map_eq_some_iff.mp first
      cases same
      cases known
      exact reads_open others

-- By induction on the steps: the group keeps what can be read by itself together.
theorem Reads.enclose (reads : Reads r s b) : Reads (r.within enclosing) (s ++ [')','$']) (enclosed b) := by
  induction reads with
  | @done r outside =>
      obtain ⟨flags,names,captures,groups,branches,items⟩ := r
      cases outside
      exact .step rfl (.step rfl (.done rfl))
  | @step r' rest b r c s first others ih =>
      have inside : c ≠ ')' ∨ r.groups ≠ [] := by
        by_contra closes
        rw [not_or,not_not,not_not] at closes
        obtain ⟨rfl,outside⟩ := closes
        cases (step_unopened outside _).symm.trans first
      obtain ⟨w,rfl,again⟩ := step_decided _ _ _ _ _ first
      have same := again _ (near_beyond rest ['$'])
      rw [List.cons_append,List.append_assoc]
      refine .step ?_ ih
      rw [step_within inside,same]
      rfl

theorem reads_ending (whole : ['$'] = w ++ rest) : ¬ Reads (r.within outer) rest b := by
  cases w with
  | nil =>
      cases whole
      exact reads_unclosed
  | cons c w =>
      rw [(List.append_eq_nil_iff.mp (List.cons.inj whole).2.symm).2]
      exact reads_open

-- By induction on the steps: inside the group they are those of the text alone, up to
-- where the group is closed.
theorem Reads.inside (reads : Reads (r.within enclosing) (s ++ [')','$']) b) :
    ∃ b',Reads r s b' ∨ ∃ front back,s = front ++ ')' :: back ∧ Reads r front b' := by
  generalize whole : s ++ [')','$'] = text at reads
  generalize same : r.within enclosing = q at reads
  induction reads generalizing r s with
  | done outside => cases (List.append_eq_nil_iff.mp whole).2
  | @step q' rest b q c text first others ih =>
      subst same
      by_cases closes : c = ')' ∧ r.groups = []
      · obtain ⟨rfl,outside⟩ := closes
        refine ⟨alternatives r.branches r.items,?_⟩
        cases s with
        | nil =>
            cases whole
            exact .inl (.done outside)
        | cons d s =>
            cases whole
            exact .inr ⟨[],s,rfl,.done outside⟩
      · rw [not_and_or] at closes
        rw [step_within closes] at first
        obtain ⟨⟨r',behind⟩,own,same⟩ := Option.map_eq_some_iff.mp first
        cases same
        obtain ⟨w,rfl,again⟩ := step_decided _ _ _ _ _ own
        have before : ∃ v,c :: w ++ v = s ∧ behind = v ++ [')','$'] := by
          cases s with
          | nil => exact absurd others (reads_ending (List.cons.inj whole).2)
          | cons d s =>
              obtain ⟨rfl,tail⟩ := List.cons.inj whole
              rcases List.append_eq_append_iff.mp tail with ⟨v,rfl,ends⟩ | ⟨v,rfl,ends⟩
              · cases v with
                | nil => exact ⟨[],by simp,ends.symm⟩
                | cons d v => exact absurd others (reads_ending (List.cons.inj ends).2)
              · exact ⟨v,rfl,ends⟩
        obtain ⟨v,rfl,rfl⟩ := before
        obtain ⟨b',reads | ⟨front,back,rfl,reads⟩⟩ := ih rfl rfl
        · have step := again v (near_before reads.unbraced _)
          exact ⟨b',.inl (.step step reads)⟩
        · rw [List.append_assoc] at again
          have step := again front (near_before reads.unbraced _)
          exact ⟨b',.inr ⟨c :: w ++ front,back,by simp,.step step reads⟩⟩

-- What a text is as an expression by itself, without the limits on the size.
def alone? (text : String) : Option Pattern := (readFrom? text.toList.length ⟨.none,[],0,[],[],[]⟩ text.toList).map Branch.pattern

def delimited (p : Pattern) : Pattern := .seq (.assert .textStart) (.seq (.group none p) (.assert .textEnd))

theorem alone_iff {text : String} : alone? text = some p ↔ ∃ b,Reads ⟨.none,[],0,[],[],[]⟩ text.toList b ∧ b.pattern = p := by
  simp only [alone?,Option.map_eq_some_iff,readFrom_iff]

theorem read_alone {text : String} (read : read? text = some p) : alone? text = some p := by
  unfold read? at read
  dsimp only at read
  split at read
  · rename_i found
    split at read
    · cases read
      rw [alone?,found]
      rfl
    · cases read
  · cases read

theorem spliced_toList (source : String) :
    (Regex.spliced source).toList = '^' :: '(' :: '?' :: ':' :: (source.toList ++ [')','$']) := by
  simp [Regex.spliced,String.toList_append]

theorem spliced_alone (alone : alone? source = some q) : alone? (Regex.spliced source) = some (delimited q) := by
  obtain ⟨b,reads,rfl⟩ := alone_iff.mp alone
  refine alone_iff.mpr ⟨enclosed b,?_,rfl⟩
  rw [spliced_toList]
  exact .step rfl (.step rfl reads.enclose)

theorem spliced_inside (read : alone? (Regex.spliced source) = some p) :
    ∃ q,alone? source = some q ∨ ∃ front back,source = front ++ ")" ++ back ∧ alone? front = some q := by
  obtain ⟨b,reads,rfl⟩ := alone_iff.mp read
  rw [spliced_toList] at reads
  cases reads with
  | step first reads =>
      cases first
      cases reads with
      | step first reads =>
          cases first
          obtain ⟨b',alone | ⟨front,back,split,alone⟩⟩ := Reads.inside (r := ⟨.none,[],0,[],[],[]⟩) reads
          · exact ⟨b'.pattern,.inl (alone_iff.mpr ⟨b',alone,rfl⟩)⟩
          · refine ⟨b'.pattern,.inr ⟨String.ofList front,String.ofList back,?_,alone_iff.mpr ⟨b',?_,rfl⟩⟩⟩
            · apply String.toList_inj.mp
              rw [split]
              simp
            · rw [String.toList_ofList]
              exact alone

theorem alone_stops {front back : String} (alone : alone? front = some q) : alone? (front ++ ")" ++ back) = none := by
  obtain ⟨b,reads,_⟩ := alone_iff.mp alone
  rw [Option.eq_none_iff_forall_ne_some]
  intro p read
  obtain ⟨b',reads',_⟩ := alone_iff.mp read
  have text : (front ++ ")" ++ back).toList = front.toList ++ ')' :: back.toList := by simp
  rw [text] at reads'
  exact reads.stops _ _ reads'

theorem matches_delimited {text : List Char} (within : i ≤ text.length) :
    Matches text (delimited q) i k ↔ i = 0 ∧ k = text.length ∧ Matches text q 0 text.length := by
  simp only [delimited,matches_seq,matches_assert,matches_group]
  constructor
  · rintro ⟨j,⟨starts,rfl⟩,m,given,ends,rfl⟩
    have start : j = 0 := by
      by_contra later
      have before : boundary text j = ⟨text[j - 1]?,text[j]?⟩ := by rw [boundary,if_neg later]
      simp only [before,Assertion.holds,Option.isNone_iff_eq_none,List.getElem?_eq_none_iff] at starts
      omega
    simp only [boundary,Assertion.holds,Option.isNone_iff_eq_none,List.getElem?_eq_none_iff] at ends
    have last : k = text.length := Nat.le_antisymm (matches_bound _ _ _ given within) ends
    subst start last
    exact ⟨rfl,rfl,given⟩
  · rintro ⟨rfl,rfl,given⟩
    exact ⟨0,⟨rfl,rfl⟩,_,given,by simp [Assertion.holds,boundary],rfl⟩

-- The texts whose meaning as expressions is laid down here.
def Listed (text : String) : Prop := ∃ p,alone? text = some p

-- How an accepted expression tests names. The search runs over the spliced text; where the
-- expression can be read by itself, that is a match of the whole name.
structure Anchors (source : String) (accepts : String → Bool) : Prop where
  searches : ∀ p,alone? (Regex.spliced source) = some p →
    ∀ name : String,accepts name = true ↔ ∃ i k,i ≤ name.toList.length ∧ Matches name.toList p i k
  whole : ∀ q,alone? source = some q → ∀ name : String,accepts name = true ↔ Matches name.toList q 0 name.toList.length
  escapes : Listed (Regex.spliced source) →
    (alone? source = none ↔ ∃ front back q,source = front ++ ")" ++ back ∧ alone? front = some q)

-- An engine may know more than the listed syntax, and may give up on what is too large for
-- it. The expressions of the listed syntax that it compiles are searched for in the whole
-- text, as documented.
structure Documented [Regex.Engine] : Prop where
  searches : ∀ {text r p},Regex.Engine.compile? text = some r → alone? text = some p →
    ∀ name : String,r.found name = true ↔ ∃ i k,i ≤ name.toList.length ∧ Matches name.toList p i k

theorem listed_documented : @Documented listed := by
  refine @Documented.mk listed ?_
  intro text r p compiled alone name
  obtain ⟨q,read,rfl⟩ := Option.map_eq_some_iff.mp compiled
  cases (read_alone read).symm.trans alone
  exact found_iff (read_proper read) name.toList

section
variable [Regex.Engine] (documented : Documented)
include documented

theorem anchored_anchors {r : Regex} (compiled : Regex.anchored? source = some r) : Anchors source r.found := by
  have found := fun p => documented.searches (p := p) compiled
  refine ⟨found,fun q own name => ?_,fun known => ⟨fun fails => ?_,?_⟩⟩
  · rw [found _ (spliced_alone own) name]
    constructor
    · rintro ⟨i,k,within,given⟩
      exact ((matches_delimited within).mp given).2.2
    · intro given
      exact ⟨0,_,Nat.zero_le _,(matches_delimited (Nat.zero_le _)).mpr ⟨rfl,rfl,given⟩⟩
  · obtain ⟨p,alone⟩ := known
    obtain ⟨q,own | ⟨front,back,split,before⟩⟩ := spliced_inside alone
    · cases fails.symm.trans own
    · exact ⟨front,back,q,split,before⟩
  · rintro ⟨front,back,q,rfl,before⟩
    exact alone_stops before

-- Regular expressions in segments and in selectors test names as they anchor them.
theorem names_anchored (settings : Path.Settings) :
    (∀ written e source r,PathExpr.compileWith settings written = .ok e → .regex source r ∈ e.segments →
      Anchors source fun name => Segment.acceptsName name (.regex source r)) ∧
    ∀ source s,Selector.byRegex source = .ok s → ∃ accepts,Anchors source accepts ∧ ∀ place,s.selects place = accepts place.name := by
  constructor
  · intro written e source r compiled member
    obtain ⟨_,raws,_,made⟩ := PathExpr.compileWith_ok.mp compiled
    obtain ⟨_,_,_,_,_,read⟩ := Path.allSegments_regex made member
    exact anchored_anchors documented read
  · intro source s built
    unfold Selector.byRegex at built
    split at built
    · rename_i r read
      cases built
      exact ⟨_,anchored_anchors documented read,fun place => rfl⟩
    · cases built

end

-- An expression that is none by itself: it closes the group and opens another.
theorem names_anchored_early :
    Documented ∧ alone? "a)|(?:b" = none ∧ Listed (Regex.spliced "a)|(?:b") ∧
    (∃ e r,PathExpr.compileWith .default "~a)|(?:b" = .ok e ∧ .regex "a)|(?:b" r ∈ e.segments ∧ r.found "ax" = true ∧
      Anchors "a)|(?:b" fun name => Segment.acceptsName name (.regex "a)|(?:b" r)) ∧
    ∃ s,Selector.byRegex "a)|(?:b" = .ok s ∧
      ∃ accepts,Anchors "a)|(?:b" accepts ∧ ∀ place,s.selects place = accepts place.name := by
  have known : Listed (Regex.spliced "a)|(?:b") := Option.isSome_iff_exists.mp (by decide +kernel)
  have found : (Regex.anchored? "a)|(?:b").any (·.found "ax") = true := by decide +kernel
  obtain ⟨r,read,matching⟩ := (Option.any_eq_true _ _).mp found
  have text : Path.RegexText ("a)|(?:b".toList.map Path.RegexPiece.single) 0 "a)|(?:b".toList := by
    refine ⟨by decide,?_,by decide⟩
    simp [Path.RegexPiece.Sound,Path.RegexPiece.Whole]
  have spelled := Path.spelled_written text.balanced
  have compiled := PathExpr.compile_spelled .default text (by decide) spelled
  rw [String.ofList_toList,read] at compiled
  have segment := (names_anchored listed_documented .default).1 _ _ _ r compiled List.mem_cons_self
  have built : Selector.byRegex "a)|(?:b" = .ok (.regex "a)|(?:b" r) := by rw [Selector.byRegex,read]
  exact ⟨listed_documented,by decide +kernel,known,⟨_,r,compiled,List.mem_cons_self,matching,segment⟩,
    _,built,(names_anchored listed_documented .default).2 _ _ built⟩

end Pattern
end SharedTree
