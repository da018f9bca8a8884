namespace SharedTree

structure Verdict where
  answer : Bool
  calls : List String
  deriving DecidableEq, Repr

namespace Verdict

def silent (answer : Bool) : Verdict := ⟨answer,[]⟩
def not (v : Verdict) : Verdict := ⟨!v.answer,v.calls⟩
def before (calls : List String) (v : Verdict) : Verdict := ⟨v.answer,calls ++ v.calls⟩

def both (first : Verdict) (second : Unit → Verdict) : Verdict :=
  if first.answer then (second ()).before first.calls else first

def either (first : Verdict) (second : Unit → Verdict) : Verdict :=
  if first.answer then first else (second ()).before first.calls

def differ (first second : Verdict) : Verdict := ⟨first.answer != second.answer,first.calls ++ second.calls⟩

def anyOf (test : α → Verdict) : List α → Verdict
  | [] => silent false
  | item :: rest => (test item).either fun _ => anyOf test rest

theorem both_answer (first : Verdict) (second : Unit → Verdict) :
    (first.both second).answer = (first.answer && (second ()).answer) := by
  unfold both
  cases passed : first.answer with
  | false => exact passed
  | true => rfl

theorem either_answer (first : Verdict) (second : Unit → Verdict) :
    (first.either second).answer = (first.answer || (second ()).answer) := by
  unfold either
  cases passed : first.answer with
  | false => rfl
  | true => exact passed

theorem anyOf_answer (test : α → Verdict) (items : List α) :
    (anyOf test items).answer = items.any fun item => (test item).answer := by
  induction items with
  | nil => rfl
  | cons item rest ih =>
      simp only [anyOf,either,List.any_cons]
      cases passed : (test item).answer
      · simpa [before] using ih
      · simp [passed]

end Verdict
end SharedTree
