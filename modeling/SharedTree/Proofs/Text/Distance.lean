import Mathlib.Order.Bounds.Basic
import Mathlib.Order.MinMax
import SharedTree.Text.Distance

namespace SharedTree.Distance

inductive Edit : List Char → List Char → Prop
  | insertion (front back : List Char) (c : Char) : Edit (front ++ back) (front ++ c :: back)
  | deletion (front back : List Char) (c : Char) : Edit (front ++ c :: back) (front ++ back)
  | substitution (front back : List Char) (c d : Char) : Edit (front ++ c :: back) (front ++ d :: back)

inductive Edits : Nat → List Char → List Char → Prop
  | done : Edits 0 a a
  | more (first : Edit a b) (rest : Edits n b c) : Edits (n + 1) a c

-- The recursion behind the rows. A text is taken from its end, so the cells of a
-- row are the values at the beginnings of the texts, turned around.
def fewest : List Char → List Char → Nat
  | [],b => b.length
  | a,[] => a.length
  | c :: a,d :: b => min (min (fewest a b + if c = d then 0 else 1) (fewest a (d :: b) + 1)) (fewest (c :: a) b + 1)

variable {a b text other : List Char} {c d : Char} {m n width : Nat} {rows : Rows width}

theorem fewest_nil (b : List Char) : fewest [] b = b.length := by rw [fewest]

theorem fewest_of_nil (a : List Char) : fewest a [] = a.length := by
  cases a <;> simp [fewest]

theorem fewest_cons (c d : Char) (a b : List Char) : fewest (c :: a) (d :: b) =
    min (min (fewest a b + if c = d then 0 else 1) (fewest a (d :: b) + 1)) (fewest (c :: a) b + 1) := by rw [fewest]

-- From the rows to the recursion. A row stands for the text above it, and its
-- column `j` for the first `j` characters of the other one.
def column (other : List Char) (j : Nat) : List Char := (other.take j).reverse

theorem column_succ (left : other.drop j = d :: rest) : column other (j + 1) = d :: column other j := by
  obtain ⟨within,same⟩ := List.getElem?_eq_some_iff.mp (by simpa using congrArg List.head? left)
  rw [column,List.take_succ_eq_append_getElem within,same,List.reverse_append]
  rfl

def RowOf (a other : List Char) (row : Vector Nat (width + 1)) (upto : Nat) : Prop :=
  ∀ k (within : k < width + 1),k ≤ upto → row[k] = fewest a (column other k)

theorem cell_row (within : j < width) (left : other.drop j = d :: rest) (above : RowOf a other rows.previous width)
    (before : RowOf (c :: a) other rows.current j) : RowOf (c :: a) other (rows.cell c d j within).current (j + 1) := by
  intro k inside upto
  by_cases last : k = j + 1
  · subst last
    have diagonal := above j (by omega) (by omega)
    have up := above (j + 1) inside (by omega)
    have beside := before j (by omega) (Nat.le_refl _)
    simp only [Rows.cell,Vector.getElem_set_self,diagonal,up,beside,column_succ left,fewest_cons]
  · have earlier := before k inside (by omega)
    simpa only [Rows.cell,Vector.getElem_set_ne _ _ (Ne.symm last)] using earlier

theorem fill_row {rows : Rows other.length} (fits : j + rest.length = other.length) (left : other.drop j = rest)
    (above : RowOf a other rows.previous other.length) (before : RowOf (c :: a) other rows.current j) :
    (rows.fill c j rest fits).previous = rows.previous ∧
      RowOf (c :: a) other (rows.fill c j rest fits).current other.length := by
  induction rest generalizing rows j with
  | nil =>
      have all : j = other.length := fits
      subst all
      exact ⟨rfl,before⟩
  | cons d rest ih =>
      have within : j < other.length := by simp only [List.length_cons] at fits; omega
      have further : other.drop (j + 1) = rest := by rw [← List.drop_drop,left]; rfl
      rw [Rows.fill]
      exact ih _ further above (cell_row within left above before)

theorem begin_row {rows : Rows other.length} : RowOf (c :: a) other (rows.begin a.length).current 0 := by
  intro k within first
  obtain rfl : k = 0 := Nat.le_zero.mp first
  simp [Rows.begin,column,fewest_of_nil]

theorem descend_row {rows : Rows other.length} (above : RowOf a other rows.previous other.length) :
    RowOf (text.reverse ++ a) other (rows.descend other a.length text).previous other.length := by
  induction text generalizing rows a with
  | nil => exact above
  | cons c text ih =>
      have begun : RowOf a other (rows.begin a.length).previous other.length := above
      obtain ⟨_,full⟩ := fill_row (Nat.zero_add _) rfl begun (begin_row (c := c))
      rw [List.reverse_cons,List.append_assoc,List.singleton_append,Rows.descend]
      exact ih (a := c :: a) full

theorem distance_eq (text other : List Char) : distance text other = fewest text.reverse other.reverse := by
  have above : RowOf [] other (Rows.start other.length).previous other.length := by
    intro k within _
    have shorter : k ≤ other.length := Nat.lt_succ_iff.mp within
    simp [Rows.start,column,fewest_nil,shorter]
  have full : RowOf (text.reverse ++ []) other ((Rows.start other.length).descend other 0 text).previous other.length :=
    descend_row above
  have last := full other.length (Nat.lt_succ_self _) (Nat.le_refl _)
  rwa [List.append_nil,column,List.take_length] at last

theorem fewest_longer (a b : List Char) (d : Char) : fewest a (d :: b) ≤ fewest a b + 1 := by
  cases a with
  | nil => simp [fewest_nil]
  | cons c a => rw [fewest_cons]; omega

theorem fewest_above (a b : List Char) (c : Char) : fewest (c :: a) b ≤ fewest a b + 1 := by
  cases b with
  | nil => simp [fewest_of_nil]
  | cons d b => rw [fewest_cons]; omega

theorem fewest_shorter (a b : List Char) (d : Char) : fewest a b ≤ fewest a (d :: b) + 1 := by
  induction a with
  | nil => simp only [fewest_nil,List.length_cons]; omega
  | cons c a ih =>
      have above := fewest_above a b c
      rw [fewest_cons]
      omega

theorem fewest_other (a b : List Char) (c d : Char) : fewest a (d :: b) ≤ fewest a (c :: b) + 1 := by
  induction a with
  | nil => simp [fewest_nil]
  | cons e a ih =>
      rw [fewest_cons,fewest_cons]
      split <;> split <;> omega

def Near (b b' : List Char) : Prop := ∀ a,fewest a b' ≤ fewest a b + 1

theorem Near.cons {b' : List Char} (near : Near b b') (d : Char) : Near (d :: b) (d :: b') := by
  intro a
  induction a with
  | nil =>
      have shorter := near []
      simp only [fewest_nil,List.length_cons] at shorter ⊢
      omega
  | cons c a ih =>
      have diagonal := near a
      have left := near (c :: a)
      rw [fewest_cons,fewest_cons]
      omega

theorem Near.append {b' : List Char} (near : Near b b') (front : List Char) : Near (front ++ b) (front ++ b') := by
  induction front with
  | nil => exact near
  | cons d front ih => exact ih.cons d

theorem Edit.near (edit : Edit a b) : Near a b := by
  cases edit with
  | insertion front back c => exact Near.append (fun a => fewest_longer a back c) front
  | deletion front back c => exact Near.append (fun a => fewest_shorter a back c) front
  | substitution front back c d => exact Near.append (fun a => fewest_other a back c d) front

theorem fewest_self (a : List Char) : fewest a a = 0 := by
  induction a with
  | nil => rw [fewest_nil]; rfl
  | cons c a ih => rw [fewest_cons,ih,if_pos rfl]; omega

theorem Edits.fewest_le (edits : Edits n a b) (start : List Char) : fewest start b ≤ fewest start a + n := by
  induction edits with
  | done => exact Nat.le_refl _
  | more first rest ih =>
      have near := first.near start
      omega

theorem Edit.cons (edit : Edit a b) (c : Char) : Edit (c :: a) (c :: b) := by
  cases edit with
  | insertion front back d => exact .insertion (c :: front) back d
  | deletion front back d => exact .deletion (c :: front) back d
  | substitution front back d e => exact .substitution (c :: front) back d e

theorem Edits.cons (edits : Edits n a b) (c : Char) : Edits n (c :: a) (c :: b) := by
  induction edits with
  | done => exact .done
  | more first rest ih => exact .more (first.cons c) ih

theorem Edits.trans (first : Edits m a b) (second : Edits n b other) : Edits (m + n) a other := by
  induction first with
  | done => rwa [Nat.zero_add]
  | more edit rest ih =>
      rw [Nat.add_right_comm]
      exact .more edit (ih second)

theorem Edits.last (edits : Edits n a b) (edit : Edit b other) : Edits (n + 1) a other := edits.trans (.more edit .done)

theorem edits_to (b : List Char) : Edits b.length [] b := by
  induction b with
  | nil => exact .done
  | cons d b ih => exact ih.last (.insertion [] b d)

theorem edits_from (a : List Char) : Edits a.length a [] := by
  induction a with
  | nil => exact .done
  | cons c a ih => exact .more (.deletion [] a c) ih

theorem edits_fewest (a b : List Char) : Edits (fewest a b) a b := by
  induction a,b using fewest.induct with
  | case1 b => rw [fewest_nil]; exact edits_to b
  | case2 a => rw [fewest_of_nil]; exact edits_from a
  | case3 c a d b diagonal up left =>
      have kept : Edits (fewest a b + if c = d then 0 else 1) (c :: a) (d :: b) := by
        split
        · rename_i same
          rw [← same]
          exact diagonal.cons c
        · exact (diagonal.cons c).last (.substitution [] b c d)
      have deleted : Edits (fewest a (d :: b) + 1) (c :: a) (d :: b) := .more (.deletion [] a c) up
      have inserted : Edits (fewest (c :: a) b + 1) (c :: a) (d :: b) := left.last (.insertion [] b d)
      rw [fewest_cons]
      exact min_rec' (Edits · (c :: a) (d :: b)) (min_rec' (Edits · (c :: a) (d :: b)) kept deleted) inserted

theorem fewest_least (a b : List Char) : IsLeast {n | Edits n a b} (fewest a b) := by
  refine ⟨edits_fewest a b,fun n edits => ?_⟩
  have bound := edits.fewest_le a
  rwa [fewest_self,Nat.zero_add] at bound

theorem Edit.symm (edit : Edit a b) : Edit b a := by
  cases edit with
  | insertion front back c => exact .deletion front back c
  | deletion front back c => exact .insertion front back c
  | substitution front back c d => exact .substitution front back d c

theorem Edits.symm (edits : Edits n a b) : Edits n b a := by
  induction edits with
  | done => exact .done
  | more first rest ih => exact ih.last first.symm

theorem Edit.reverse (edit : Edit a b) : Edit a.reverse b.reverse := by
  cases edit with
  | insertion front back c => simpa using Edit.insertion back.reverse front.reverse c
  | deletion front back c => simpa using Edit.deletion back.reverse front.reverse c
  | substitution front back c d => simpa using Edit.substitution back.reverse front.reverse c d

theorem Edits.reverse (edits : Edits n a b) : Edits n a.reverse b.reverse := by
  induction edits with
  | done => exact .done
  | more first rest ih => exact .more first.reverse ih

theorem edits_none : Edits 0 a b ↔ a = b := by
  constructor
  · intro edits
    cases edits
    rfl
  · rintro rfl
    exact .done

theorem edits_least (a b : List Char) : IsLeast {n | Edits n a b} (distance a b) := by
  rw [distance_eq]
  have least := fewest_least a.reverse b.reverse
  refine ⟨by simpa using least.1.reverse,fun n edits => least.2 edits.reverse⟩

theorem fewest_le_max (a b : List Char) : fewest a b ≤ max a.length b.length := by
  induction a,b using fewest.induct with
  | case1 b => rw [fewest_nil]; omega
  | case2 a => rw [fewest_of_nil]; omega
  | case3 c a d b diagonal _ _ =>
      rw [fewest_cons]
      simp only [List.length_cons]
      split <;> omega

theorem least_changes (a b : String) :
    IsLeast {n | Edits n a.toList b.toList} (distance a.toList b.toList) ∧
      distance a.toList b.toList ≤ max a.length b.length ∧
      (distance a.toList b.toList = 0 ↔ a = b) ∧
      distance a.toList b.toList = distance b.toList a.toList ∧
      ∀ c : String,distance a.toList c.toList ≤ distance a.toList b.toList + distance b.toList c.toList := by
  have least := fun a b : String => edits_least a.toList b.toList
  refine ⟨least a b,?_,?_,?_,fun c => ?_⟩
  · have bound := fewest_le_max a.toList.reverse b.toList.reverse
    rwa [← distance_eq,List.length_reverse,List.length_reverse,String.length_toList,String.length_toList] at bound
  · rw [← String.toList_inj,← edits_none]
    exact ⟨fun none_ => none_ ▸ (least a b).1,fun none_ => Nat.le_zero.mp ((least a b).2 none_)⟩
  · exact Nat.le_antisymm ((least a b).2 (least b a).1.symm) ((least b a).2 (least a b).1.symm)
  · exact (least a c).2 ((least a b).1.trans (least b c).1)

-- A character is one change, however many bytes it has.
example : distance ['c','a','f','é'] ['c','a','f','e','s'] = 2 := by decide

end SharedTree.Distance
