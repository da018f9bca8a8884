import SharedTree.Pattern.Reader
import SharedTree.Proofs.Path.Numeral

namespace SharedTree.Pattern

open SharedTree.Path (span_taken span_all span_until until_taken head_dropWhile)

-- `near` tells which texts may stand behind in place of each other.
def Decided (near : List Char → List Char → Prop) (read : List Char → Option (α × List Char)) : Prop :=
  ∀ s a rest,read s = some (a,rest) → ∃ w,s = w ++ rest ∧ ∀ rest',near rest rest' → read (w ++ rest') = some (a,rest')

def Any (_ _ : List Char) : Prop := True

variable {s v w rest : List Char} {c : Char}

theorem code_taken {code : Option Nat} (read : (do pure (Atom.char (← charOf? (← code)),v) : Option (Atom × List Char)) = some (a,rest)) :
    rest = v ∧ ∀ u,(do pure (Atom.char (← charOf? (← code)),u) : Option (Atom × List Char)) = some (a,u) := by
  simp only [Option.bind_eq_bind,Option.bind_eq_some_iff,Option.pure_def,Option.some.injEq,Prod.mk.injEq] at read
  obtain ⟨n,number,c,known,rfl,rfl⟩ := read
  exact ⟨rfl,fun u => by simp [number,known]⟩

theorem hexChar_decided (positive : 0 < count) : Decided Any (hexChar? count) := by
  intro s a rest read
  unfold hexChar? at read
  split at read
  · rename_i tail
    split at read
    rename_i digits after cut
    split at read
    · rename_i d behind
      obtain ⟨rfl,rfl,absent⟩ := until_taken cut
      split at read
      · cases read
      · rename_i some_
        obtain ⟨rfl,known⟩ := code_taken read
        refine ⟨'\x7b' :: (digits ++ ['\x7d']),by simp,fun rest' _ => ?_⟩
        rw [List.cons_append,List.append_assoc,List.singleton_append,hexChar?]
        simp only [span_until absent,if_neg some_]
        exact known rest'
    · cases read
  · rename_i other
    split at read
    · cases read
    · rename_i enough
      obtain ⟨rfl,known⟩ := code_taken read
      have size : (s.take count).length = count := by
        rw [List.length_take]
        omega
      refine ⟨s.take count,(List.take_append_drop count s).symm,fun rest' _ => ?_⟩
      have begun : ∀ tail,s.take count ++ rest' ≠ '\x7b' :: tail := by
        intro tail same
        cases s with
        | nil =>
            rw [List.take_nil,List.length_nil] at size
            omega
        | cons c s =>
            obtain ⟨fewer,rfl⟩ := Nat.exists_eq_add_of_le' positive
            cases same
            exact other s rfl
      rw [hexChar?,if_neg (by rw [List.length_append]; omega),List.take_left' size,List.drop_left' size]
      · exact known rest'
      · exact begun

-- Behind a word boundary a brace has to be no beginning of the name of one.
def Free (s : List Char) : Prop := ∀ tail,s = '\x7b' :: tail → ∃ c ∈ tail.head?,¬ (c.isAlpha = true ∨ c = '-')

def Freer (rest rest' : List Char) : Prop := Free rest → Free rest'

theorem boundary_free (free : Free s) : boundary? s = some (.wordBoundary,s) := by
  unfold boundary?
  split
  · rename_i c tail
    obtain ⟨d,first,other⟩ := free _ rfl
    cases first
    rw [if_neg other]
  · obtain ⟨d,first,_⟩ := free _ rfl
    cases first
  · rfl

theorem boundary_decided : Decided Freer boundary? := by
  intro s a rest read
  unfold boundary? at read
  split at read
  · rename_i c tail
    split at read
    · rename_i begun
      split at read
      rename_i name after cut
      split at read
      · rename_i behind
        obtain ⟨whole,letters,_⟩ := span_taken cut
        have same : behind = rest := by
          split at read
          all_goals cases read
          all_goals rfl
        subst same
        cases name with
        | nil =>
            cases whole
            exact absurd begun (by decide)
        | cons d name =>
            obtain ⟨rfl,rfl⟩ := List.cons.inj whole
            refine ⟨'\x7b' :: c :: (name ++ ['\x7d']),by simp,fun rest' _ => ?_⟩
            have cut' := span_all (s := '\x7d' :: rest') letters (by simp)
            rw [List.cons_append] at cut'
            rw [List.cons_append,List.cons_append,List.append_assoc,List.singleton_append,boundary?,if_pos begun]
            simp only [cut']
            split at read
            all_goals cases read
            all_goals rfl
      · cases read
    · rename_i other
      cases read
      have free : Free ('\x7b' :: c :: tail) := by
        intro u same
        cases same
        exact ⟨c,rfl,other⟩
      exact ⟨[],rfl,fun rest' near => boundary_free (near free)⟩
  · cases read
  · rename_i other single
    cases read
    refine ⟨[],rfl,fun rest' near => boundary_free (near ?_)⟩
    intro tail same
    cases tail with
    | nil => exact absurd same single
    | cons c tail => exact absurd same (other c tail)

theorem escape_decided : Decided Freer escape? := by
  intro s a rest read
  unfold escape? at read
  split at read
  · cases read
  · rename_i c tail
    split at read
    · obtain ⟨w,rfl,same⟩ := hexChar_decided (by decide) _ _ _ read
      exact ⟨'x' :: w,rfl,fun rest' _ => same rest' trivial⟩
    · obtain ⟨w,rfl,same⟩ := hexChar_decided (by decide) _ _ _ read
      exact ⟨'u' :: w,rfl,fun rest' _ => same rest' trivial⟩
    · obtain ⟨w,rfl,same⟩ := hexChar_decided (by decide) _ _ _ read
      exact ⟨'U' :: w,rfl,fun rest' _ => same rest' trivial⟩
    case h_18 =>
      obtain ⟨⟨b,behind⟩,named,same⟩ := Option.map_eq_some_iff.mp read
      cases same
      obtain ⟨w,rfl,again⟩ := boundary_decided _ _ _ named
      exact ⟨'b' :: w,rfl,fun rest' near => by rw [List.cons_append,escape?,again rest' near]; rfl⟩
    case h_22 =>
      split at read
      · rename_i known
        cases read
        refine ⟨[c],rfl,fun rest' _ => ?_⟩
        rw [List.singleton_append,escape?]
        · rw [if_pos known]
        all_goals assumption
      · cases read
    all_goals cases read
    all_goals exact ⟨[_],rfl,fun _ _ => rfl⟩

theorem flags_decided (seen : List Char) (flags : Flags) (s : List Char) {found : Flags} {inside : Bool}
    (read : flags? seen flags s = some (found,inside,rest)) :
    ∃ w,s = w ++ rest ∧ ∀ rest',flags? seen flags (w ++ rest') = some (found,inside,rest') := by
  induction s generalizing seen flags with
  | nil => cases read
  | cons c s ih =>
      rw [flags?] at read
      split at read
      · rename_i ending
        split at read
        · cases read
        · rename_i last
          cases read
          exact ⟨[c],rfl,fun rest' => by rw [List.singleton_append,flags?,if_pos ending,if_neg last]⟩
      · rename_i further
        split at read
        · cases read
        · rename_i new
          split at read
          · rename_i minus
            obtain ⟨w,rfl,again⟩ := ih _ _ read
            exact ⟨c :: w,rfl,fun rest' => by
              rw [List.cons_append,flags?,if_neg further,if_neg new,if_pos minus,again rest']⟩
          · rename_i flag
            obtain ⟨set,known,read⟩ := Option.bind_eq_some_iff.mp read
            obtain ⟨w,rfl,again⟩ := ih _ _ read
            refine ⟨c :: w,rfl,fun rest' => ?_⟩
            rw [List.cons_append,flags?,if_neg further,if_neg new,if_neg flag,known,Option.bind_some,again rest']

theorem groupName_decided : Decided Any groupName? := by
  intro s a rest read
  unfold groupName? at read
  split at read
  rename_i name after cut
  split at read
  · rename_i first others d behind
    split at read
    · rename_i letters
      cases read
      obtain ⟨rfl,rfl,absent⟩ := until_taken cut
      refine ⟨first :: (others ++ ['>']),by simp,fun rest' _ => ?_⟩
      have cut' := span_until absent rest'
      rw [List.cons_append] at cut'
      rw [List.cons_append,List.append_assoc,List.singleton_append,groupName?]
      simp only [cut',if_pos letters]
    · cases read
  · cases read

theorem dropWhile_taken {keeps : Char → Bool} (all : ∀ c ∈ w,keeps c = true) (ends : ∀ c ∈ rest.head?,keeps c = false) :
    (w ++ rest).dropWhile keeps = rest := by
  rw [List.dropWhile_append_of_pos all]
  cases rest with
  | nil => rfl
  | cons c rest => exact List.dropWhile_cons_of_neg (by simp [ends c rfl])

theorem countNumber_decided : Decided (fun rest rest' => rest.head? = rest'.head?) countNumber? := by
  intro s n rest read
  unfold countNumber? at read
  split at read
  rename_i digits after cut
  dsimp only at read
  split at read
  · cases read
  · rename_i known
    cases read
    obtain ⟨whole,digit,ends⟩ := span_taken cut
    have before : ∀ c ∈ s.takeWhile Unicode.isBlank,Unicode.isBlank c = true := fun _ => List.mem_takeWhile_imp
    have between : ∀ c ∈ after.takeWhile Unicode.isBlank,Unicode.isBlank c = true := fun _ => List.mem_takeWhile_imp
    have begins := head_dropWhile Unicode.isBlank s
    have stops := head_dropWhile Unicode.isBlank after
    have split_ : after.takeWhile Unicode.isBlank ++ after.dropWhile Unicode.isBlank = after := List.takeWhile_append_dropWhile
    obtain ⟨d,others,rfl⟩ := List.exists_cons_of_ne_nil (l := digits) (by simpa using (not_or.mp known).1)
    refine ⟨s.takeWhile Unicode.isBlank ++ (d :: others ++ after.takeWhile Unicode.isBlank),?_,fun rest' near => ?_⟩
    · rw [List.append_assoc,List.append_assoc,split_,← whole,List.takeWhile_append_dropWhile]
    · rw [whole] at begins
      have first : (after.takeWhile Unicode.isBlank ++ rest').head? = after.head? := by
        rw [List.head?_append,← near,← List.head?_append,split_]
      have skipped : (_ ++ (d :: others ++ (after.takeWhile Unicode.isBlank ++ rest'))).dropWhile Unicode.isBlank = _ :=
        dropWhile_taken before begins
      have cut' := span_all digit (s := after.takeWhile Unicode.isBlank ++ rest') (by rwa [first])
      have ended : (_ ++ rest').dropWhile Unicode.isBlank = _ := dropWhile_taken between (by rwa [← near])
      rw [List.append_assoc,List.append_assoc,countNumber?,skipped,cut']
      simp only [if_neg known,ended]

theorem count_decided : Decided Any count? := by
  intro s count rest read
  simp only [count?,Option.bind_eq_bind,Option.bind_eq_some_iff] at read
  obtain ⟨⟨least,after⟩,number,read⟩ := read
  obtain ⟨w,rfl,again⟩ := countNumber_decided _ _ _ number
  dsimp only at read
  split at read
  · rename_i behind
    cases read
    refine ⟨w ++ ['\x7d'],by simp,fun rest' _ => ?_⟩
    have number' := again ('\x7d' :: rest') rfl
    rw [List.append_assoc,List.singleton_append]
    simp only [count?,number',Option.bind_eq_bind,Option.bind_some]
    rfl
  · rename_i behind
    cases read
    refine ⟨w ++ [',','\x7d'],by simp,fun rest' _ => ?_⟩
    have number' := again (',' :: '\x7d' :: rest') rfl
    rw [List.append_assoc,List.cons_append,List.singleton_append]
    simp only [count?,number',Option.bind_eq_bind,Option.bind_some]
    rfl
  · rename_i behind other
    obtain ⟨⟨most,last⟩,number',read⟩ := Option.bind_eq_some_iff.mp read
    obtain ⟨v,rfl,again'⟩ := countNumber_decided _ _ _ number'
    dsimp only at read
    split at read
    · rename_i after
      split at read
      · rename_i ordered
        cases read
        refine ⟨w ++ ',' :: (v ++ ['\x7d']),by simp,fun rest' _ => ?_⟩
        have first := again (',' :: (v ++ '\x7d' :: rest')) rfl
        have second := again' ('\x7d' :: rest') rfl
        have spelled : ∀ tail,v ++ '\x7d' :: rest' ≠ '\x7d' :: tail := by
          intro tail same
          cases v with
          | nil => exact other _ rfl
          | cons c v =>
              cases (List.cons.inj same).1
              exact other _ rfl
        rw [List.append_assoc,List.cons_append,List.append_assoc,List.singleton_append]
        simp only [count?,first,Option.bind_eq_bind,Option.bind_some]
        simp only [second,Option.bind_some,if_pos ordered]
        rfl
      · cases read
    · cases read
  · cases read

end SharedTree.Pattern
