import SharedTree.Selector.Basic

namespace SharedTree.Selector

def among (s : Selector) : List Position → List Position × List String
  | [] => ([],[])
  | p :: rest =>
    let verdict := s.verdict p
    let (found,calls) := s.among rest
    (if verdict.answer then p :: found else found,verdict.calls ++ calls)

def firstAmong (s : Selector) : List Position → Option Position × List String
  | [] => (none,[])
  | p :: rest =>
    let verdict := s.verdict p
    if verdict.answer then (some p,verdict.calls)
    else
      let (found,calls) := s.firstAmong rest
      (found,verdict.calls ++ calls)

def findAll (s : Selector) (start : Position) : List Position × List String := s.among start.preorder
def find (s : Selector) (start : Position) : Option Position × List String := s.firstAmong start.preorder

theorem among_found (s : Selector) (ps : List Position) : (s.among ps).1 = ps.filter s.selects := by
  induction ps with
  | nil => rfl
  | cons p rest ih =>
      simp only [among,List.filter_cons,selects,ih]
      rfl

theorem firstAmong_found (s : Selector) (ps : List Position) : (s.firstAmong ps).1 = ps.find? s.selects := by
  induction ps with
  | nil => rfl
  | cons p rest ih =>
      cases passed : (s.verdict p).answer <;> simp [firstAmong,selects,passed,ih]

end SharedTree.Selector
