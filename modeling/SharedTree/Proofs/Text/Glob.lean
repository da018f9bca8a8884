import Mathlib.Data.List.Forall2
import SharedTree.Text.Glob

namespace SharedTree.Glob

def StandsFor (c : Char) (piece : List Char) : Prop := c = '*' ∨ piece = [c]

def Fits (pattern name : List Char) : Prop :=
  ∃ pieces : List (List Char),List.Forall₂ StandsFor pattern pieces ∧ pieces.flatten = name

def Stuck (pattern : List Char) (c : Char) : Prop := ∀ d ∈ pattern.head?,d ≠ '*' ∧ d ≠ c

-- The loop between two turns: what is left of the pattern and of the name, and for the
-- last star seen the pattern behind it and the text it was tried at.
structure Attempt where
  pattern : List Char
  name : List Char
  star : Option (List Char × List Char)

-- How the loop comes to its end, and after how many turns. Where the pattern is stuck
-- the last star takes one more character, and the name is read again from there.
inductive Ends : Attempt → Nat → Bool → Prop where
  | ended : Ends ⟨pattern,[],earlier⟩ 0 (onlyStars pattern)
  | star (ends : Ends ⟨behind,c :: name,some (behind,c :: name)⟩ turns answer) :
      Ends ⟨'*' :: behind,c :: name,earlier⟩ (turns + 1) answer
  | same (usual : c ≠ '*') (ends : Ends ⟨behind,name,earlier⟩ turns answer) :
      Ends ⟨c :: behind,c :: name,earlier⟩ (turns + 1) answer
  | again (stuck : Stuck pattern c) (ends : Ends ⟨rest,later,some (rest,later)⟩ turns answer) :
      Ends ⟨pattern,c :: name,some (rest,first :: later)⟩ (turns + 1) answer
  | stopped (stuck : Stuck pattern c) : Ends ⟨pattern,c :: name,none⟩ 1 false

variable {pattern name rest later shared behind : List Char} {c d : Char}

theorem fits_nil : Fits [] name ↔ name = [] := by
  constructor
  · rintro ⟨pieces,stand,rfl⟩
    cases stand
    rfl
  · rintro rfl
    exact ⟨[],.nil,rfl⟩

theorem fits_star : Fits ('*' :: rest) name ↔ ∃ later,later <:+ name ∧ Fits rest later := by
  constructor
  · rintro ⟨pieces,stand,rfl⟩
    cases stand with
    | cons _ others => exact ⟨_,List.suffix_append _ _,_,others,rfl⟩
  · rintro ⟨later,⟨run,rfl⟩,pieces,stand,rfl⟩
    exact ⟨run :: pieces,.cons (.inl rfl) stand,rfl⟩

theorem fits_usual (usual : d ≠ '*') : Fits (d :: rest) name ↔ ∃ later,name = d :: later ∧ Fits rest later := by
  constructor
  · rintro ⟨pieces,stand,rfl⟩
    cases stand with
    | cons own others =>
        cases own.resolve_left usual
        exact ⟨_,rfl,_,others,rfl⟩
  · rintro ⟨later,rfl,pieces,stand,rfl⟩
    exact ⟨[d] :: pieces,.cons (.inr rfl) stand,rfl⟩

theorem fits_first : Fits ('*' :: rest) (c :: name) ↔ Fits rest (c :: name) ∨ Fits ('*' :: rest) name := by
  simp only [fits_star,List.suffix_cons_iff]
  constructor
  · rintro ⟨later,rfl | inside,fits⟩
    · exact .inl fits
    · exact .inr ⟨later,inside,fits⟩
  · rintro (fits | ⟨later,inside,fits⟩)
    · exact ⟨_,.inl rfl,fits⟩
    · exact ⟨later,.inr inside,fits⟩

theorem fits_longer (inside : later <:+ name) (fits : Fits ('*' :: rest) later) : Fits ('*' :: rest) name := by
  obtain ⟨last,below,fits⟩ := fits_star.mp fits
  exact fits_star.mpr ⟨last,below.trans inside,fits⟩

theorem fits_append (usual : '*' ∉ shared) : Fits (shared ++ pattern) name ↔ ∃ later,name = shared ++ later ∧ Fits pattern later := by
  induction shared generalizing name with
  | nil => simp
  | cons d shared ih =>
      obtain ⟨first,others⟩ := List.mem_cons.not.mp usual |> not_or.mp
      rw [List.cons_append,fits_usual (Ne.symm first)]
      constructor
      · rintro ⟨following,rfl,fits⟩
        obtain ⟨later,rfl,left⟩ := (ih others).mp fits
        exact ⟨later,rfl,left⟩
      · rintro ⟨later,rfl,fits⟩
        exact ⟨shared ++ later,rfl,(ih others).mpr ⟨later,rfl,fits⟩⟩

theorem fits_shared (usual : '*' ∉ shared) : Fits (shared ++ pattern) (shared ++ name) ↔ Fits pattern name := by
  rw [fits_append usual]
  constructor
  · rintro ⟨later,same,fits⟩
    rwa [List.append_cancel_left same]
  · intro fits
    exact ⟨name,rfl,fits⟩

theorem onlyStars_iff : onlyStars pattern = true ↔ Fits pattern [] := by
  induction pattern with
  | nil => simp [onlyStars,fits_nil]
  | cons d rest ih =>
      by_cases star : d = '*'
      · subst star
        simpa [onlyStars,fits_star] using ih
      · simp [onlyStars,star,fits_usual star]

theorem fits_ended (usual : '*' ∉ shared) : Fits ('*' :: (shared ++ pattern)) shared ↔ Fits pattern [] := by
  rw [fits_star]
  constructor
  · rintro ⟨later,inside,fits⟩
    obtain ⟨more,rfl,left⟩ := (fits_append usual).mp fits
    have short := inside.length_le
    rw [List.length_append] at short
    have none_left : more = [] := List.length_eq_zero_iff.mp (by omega)
    rwa [none_left] at left
  · intro fits
    exact ⟨shared,List.suffix_refl _,(fits_append usual).mpr ⟨[],(List.append_nil _).symm,fits⟩⟩

-- The star in front may as well have taken nothing: what it took, the star behind can take.
theorem fits_last (usual : '*' ∉ shared) :
    Fits ('*' :: (shared ++ '*' :: behind)) (shared ++ name) ↔ Fits ('*' :: behind) name := by
  rw [fits_star]
  constructor
  · rintro ⟨later,inside,fits⟩
    obtain ⟨more,rfl,left⟩ := (fits_append usual).mp fits
    have short := inside.length_le
    rw [List.length_append,List.length_append] at short
    have below : more <:+ name := List.suffix_of_suffix_length_le ((List.suffix_append _ _).trans inside)
      (List.suffix_append _ _) (by omega)
    exact fits_longer below left
  · intro fits
    exact ⟨shared ++ name,List.suffix_refl _,(fits_shared usual).mpr fits⟩

theorem fits_again {first : Char} (usual : '*' ∉ shared) (met : first :: later = shared ++ name) (misfit : ¬ Fits pattern name) :
    Fits ('*' :: (shared ++ pattern)) (first :: later) ↔ Fits ('*' :: (shared ++ pattern)) later := by
  have now : ¬ Fits (shared ++ pattern) (first :: later) := by rwa [met,fits_shared usual]
  rw [fits_first]
  exact or_iff_right now

section

variable {tried following : List Char} {first : Char}

theorem afterStar_over {within_ : pattern.length ≤ rest.length} : afterStar rest tried pattern [] within_ = onlyStars pattern := by
  cases tried <;> rw [afterStar]

theorem afterStar_star {within_ : ('*' :: behind).length ≤ rest.length} :
    afterStar rest (first :: later) ('*' :: behind) (c :: name) within_ =
      afterStar behind (c :: name) behind (c :: name) (Nat.le_refl _) := by
  rw [afterStar,if_pos rfl]

theorem afterStar_same (usual : c ≠ '*') {within_ : (c :: behind).length ≤ rest.length} :
    afterStar rest (first :: later) (c :: behind) (c :: name) within_ =
      afterStar rest (first :: later) behind name (Nat.le_trans (Nat.le_succ _) within_) := by
  rw [afterStar,if_neg usual,if_pos rfl]

theorem stuck_misfit (stuck : Stuck pattern c) : ¬ Fits pattern (c :: name) := by
  intro fits
  cases pattern with
  | nil => cases fits_nil.mp fits
  | cons d pattern =>
      obtain ⟨usual,other⟩ := stuck d rfl
      obtain ⟨later,same,_⟩ := (fits_usual usual).mp fits
      exact other (List.cons.inj same).1.symm

theorem afterStar_again (stuck : Stuck pattern c) {within_ : pattern.length ≤ rest.length} :
    afterStar rest (first :: later) pattern (c :: name) within_ = afterStar rest later rest later (Nat.le_refl _) := by
  cases pattern with
  | nil => rw [afterStar]
  | cons d pattern =>
      obtain ⟨usual,other⟩ := stuck d rfl
      rw [afterStar,if_neg usual,if_neg (Ne.symm other)]

theorem stuck_nil : Stuck [] c := fun _ member => nomatch member

theorem stuck_cons (usual : d ≠ '*') (other : c ≠ d) : Stuck (d :: behind) c := by
  intro e member
  cases member
  exact ⟨usual,Ne.symm other⟩

end

-- `shared` is what the pattern behind the last star and the text it was tried at have
-- begun with alike, so far without another star.
theorem afterStar_exact (shared : List Char) {tried : List Char} (within_ : pattern.length ≤ rest.length) (usual : '*' ∉ shared)
    (read : rest = shared ++ pattern) (met : tried = shared ++ name) :
    afterStar rest tried pattern name within_ = true ↔ Fits ('*' :: rest) tried := by
  induction rest, tried, pattern, name, within_ using afterStar.induct generalizing shared with
  | case1 rest pattern name =>
      obtain ⟨rfl,rfl⟩ := List.append_eq_nil_iff.mp met.symm
      subst read
      rw [afterStar_over,onlyStars_iff,← fits_ended usual]
      rfl
  | case2 rest pattern =>
      subst read
      rw [afterStar_over,onlyStars_iff,met,List.append_nil,fits_ended usual]
  | case3 rest first later c following _ _ ih =>
      rw [afterStar_again stuck_nil,ih [] List.not_mem_nil rfl rfl,read]
      exact (fits_again usual met (stuck_misfit stuck_nil)).symm
  | case4 rest first later c following behind _ _ ih =>
      rw [afterStar_star,ih [] List.not_mem_nil rfl rfl,read,met]
      exact (fits_last usual).symm
  | case5 rest first later following d behind _ star _ ih =>
      rw [afterStar_same star]
      refine ih (shared ++ [d]) ?_ (by simp [read]) (by simp [met])
      simp [usual,Ne.symm star]
  | case6 rest first later c following d behind _ star other _ ih =>
      have stuck : Stuck (d :: behind) c := stuck_cons star other
      rw [afterStar_again stuck,ih [] List.not_mem_nil rfl rfl,read]
      exact (fits_again usual met (stuck_misfit stuck)).symm

theorem begins_exact : begins pattern name = true ↔ Fits pattern name := by
  fun_induction begins pattern name with
  | case1 pattern name => exact afterStar_exact [] (Nat.le_refl _) List.not_mem_nil rfl rfl
  | case2 d pattern c name usual ih =>
      rw [fits_usual usual,Bool.and_eq_true,beq_iff_eq,ih]
      constructor
      · rintro ⟨rfl,fits⟩
        exact ⟨name,rfl,fits⟩
      · rintro ⟨later,same,fits⟩
        cases same
        exact ⟨rfl,fits⟩
  | case3 => simp [fits_nil]
  | case4 pattern name unstarred unpaired unended =>
      refine iff_of_false Bool.false_ne_true fun fits => ?_
      cases pattern with
      | nil => exact unended rfl (fits_nil.mp fits)
      | cons d pattern =>
          have usual : d ≠ '*' := fun star => unstarred pattern (by rw [star])
          obtain ⟨later,rfl,_⟩ := (fits_usual usual).mp fits
          exact unpaired d pattern d later rfl rfl

theorem stuck_apart (stuck : Stuck pattern c) : pattern ≠ '*' :: behind ∧ pattern ≠ c :: behind := by
  constructor <;> rintro rfl
  · exact (stuck _ rfl).1 rfl
  · exact (stuck _ rfl).2 rfl

theorem ends_unique {attempt : Attempt} {turns other : Nat} {answer reply : Bool} (ends : Ends attempt turns answer)
    (again : Ends attempt other reply) : turns = other ∧ answer = reply := by
  induction ends generalizing other reply with
  | ended =>
      cases again
      exact ⟨rfl,rfl⟩
  | star ends ih =>
      cases again with
      | star again => exact (ih again).imp_left (congrArg (· + 1))
      | same usual => exact absurd rfl usual
      | again stuck | stopped stuck => exact absurd rfl (stuck_apart stuck).1
  | same usual ends ih =>
      cases again with
      | star => exact absurd rfl usual
      | same _ again => exact (ih again).imp_left (congrArg (· + 1))
      | again stuck | stopped stuck => exact absurd rfl (stuck_apart stuck).2
  | again stuck ends ih =>
      cases again with
      | star => exact absurd rfl (stuck_apart stuck).1
      | same => exact absurd rfl (stuck_apart stuck).2
      | again _ again => exact (ih again).imp_left (congrArg (· + 1))
  | stopped stuck =>
      cases again with
      | star => exact absurd rfl (stuck_apart stuck).1
      | same => exact absurd rfl (stuck_apart stuck).2
      | stopped => exact ⟨rfl,rfl⟩

theorem tries_bound (met left behind : Nat) (some_left : 0 < left) :
    left * behind + met + 1 ≤ (met + left) * (met + behind + 1) := by
  rw [Nat.add_mul,Nat.mul_add,Nat.mul_add,Nat.mul_add,Nat.mul_add]
  omega

-- A star is tried at no more places than the text has characters, and each time for no
-- longer than the pattern behind it, less what is already met this time.
theorem afterStar_ends (shared : List Char) {tried : List Char} (within_ : pattern.length ≤ rest.length)
    (read : rest = shared ++ pattern) (met : tried = shared ++ name) :
    ∃ turns,Ends ⟨pattern,name,some (rest,tried)⟩ turns (afterStar rest tried pattern name within_) ∧
      turns + shared.length ≤ tried.length * (rest.length + 1) := by
  have reads := congrArg List.length read
  have meets := congrArg List.length met
  rw [List.length_append] at reads meets
  induction rest, tried, pattern, name, within_ using afterStar.induct generalizing shared with
  | case1 rest pattern name =>
      obtain ⟨rfl,rfl⟩ := List.append_eq_nil_iff.mp met.symm
      rw [afterStar_over]
      exact ⟨0,.ended,Nat.zero_le _⟩
  | case2 rest pattern _ first later =>
      rw [afterStar_over]
      refine ⟨0,.ended,?_⟩
      rw [Nat.zero_add,meets]
      exact Nat.le_mul_of_pos_right _ (Nat.succ_pos _)
  | case3 rest first later c following _ _ ih =>
      obtain ⟨turns,ends,bound⟩ := ih [] rfl rfl (Nat.zero_add _).symm (Nat.zero_add _).symm
      rw [afterStar_again stuck_nil]
      refine ⟨turns + 1,.again stuck_nil ends,?_⟩
      rw [List.length_cons,Nat.succ_mul]
      rw [List.length_nil] at bound
      omega
  | case4 rest first later c following behind _ _ ih =>
      obtain ⟨turns,ends,bound⟩ := ih [] rfl rfl (Nat.zero_add _).symm (Nat.zero_add _).symm
      rw [afterStar_star]
      refine ⟨turns + 1,.star ends,?_⟩
      have enough := tries_bound shared.length (c :: following).length (behind.length + 1) (Nat.succ_pos _)
      rw [List.length_cons] at reads
      rw [List.length_nil] at bound
      rw [reads,meets]
      omega
  | case5 rest first later following d behind _ usual _ ih =>
      obtain ⟨turns,ends,bound⟩ := ih (shared ++ [d]) (by simp [read]) (by simp [met])
        (by simp [read]; omega) (by simp [met]; omega)
      rw [afterStar_same usual]
      refine ⟨turns + 1,.same usual ends,?_⟩
      rw [List.length_append,List.length_singleton] at bound
      omega
  | case6 rest first later c following d behind _ usual other _ ih =>
      have stuck : Stuck (d :: behind) c := stuck_cons usual other
      obtain ⟨turns,ends,bound⟩ := ih [] rfl rfl (Nat.zero_add _).symm (Nat.zero_add _).symm
      rw [afterStar_again stuck]
      refine ⟨turns + 1,.again stuck ends,?_⟩
      rw [List.length_cons,Nat.succ_mul]
      rw [List.length_nil] at bound
      omega

theorem begins_ends (pattern name : List Char) :
    ∃ turns,Ends ⟨pattern,name,none⟩ turns (begins pattern name) ∧ turns ≤ pattern.length * name.length + 1 := by
  fun_induction begins pattern name with
  | case1 pattern name =>
      cases name with
      | nil =>
          rw [afterStar_over]
          exact ⟨0,.ended,Nat.zero_le _⟩
      | cons c name =>
          obtain ⟨turns,ends,bound⟩ := afterStar_ends [] (Nat.le_refl pattern.length) rfl (rfl : c :: name = _)
          refine ⟨turns + 1,.star ends,?_⟩
          rw [List.length_cons,Nat.mul_comm]
          exact Nat.succ_le_succ bound
  | case2 d pattern c name usual ih =>
      by_cases same : c = d
      · subst same
        obtain ⟨turns,ends,bound⟩ := ih
        rw [beq_self_eq_true,Bool.true_and]
        refine ⟨turns + 1,.same usual ends,?_⟩
        rw [List.length_cons,List.length_cons,Nat.add_mul,Nat.mul_add]
        omega
      · rw [beq_eq_false_iff_ne.mpr same,Bool.false_and]
        exact ⟨1,.stopped (stuck_cons usual same),Nat.le_add_left _ _⟩
  | case3 => exact ⟨0,.ended,Nat.zero_le _⟩
  | case4 pattern name unstarred unpaired unended =>
      cases name with
      | nil =>
          have misfit : onlyStars pattern = false := by
            cases pattern with
            | nil => exact (unended rfl rfl).elim
            | cons d pattern =>
                have usual : d ≠ '*' := fun star => unstarred pattern (by rw [star])
                simp [onlyStars,usual]
          rw [← misfit]
          exact ⟨0,.ended,Nat.zero_le _⟩
      | cons c name =>
          cases pattern with
          | nil => exact ⟨1,.stopped stuck_nil,Nat.le_add_left _ _⟩
          | cons d pattern => exact (unpaired d pattern c name rfl rfl).elim

-- The loop has one run, it ends, and its answer is whether the name can be cut so.
theorem accepts_pieces (pattern name : String) :
    (accepts pattern name = true ↔
      ∃ pieces : List (List Char),List.Forall₂ StandsFor pattern.toList pieces ∧ pieces.flatten = name.toList) ∧
    ∃ turns ≤ pattern.length * name.length + 1,Ends ⟨pattern.toList,name.toList,none⟩ turns (accepts pattern name) ∧
      ∀ other answer,Ends ⟨pattern.toList,name.toList,none⟩ other answer → other = turns ∧ answer = accepts pattern name := by
  refine ⟨begins_exact,?_⟩
  obtain ⟨turns,ends,bound⟩ := begins_ends pattern.toList name.toList
  rw [String.length_toList,String.length_toList] at bound
  exact ⟨turns,bound,ends,fun _ _ again => ends_unique again ends⟩

end SharedTree.Glob
