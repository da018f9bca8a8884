namespace SharedTree.Unicode

def within (ranges : List (Nat × Nat)) (c : Char) : Bool :=
  ranges.any fun range => range.1 ≤ c.toNat && c.toNat ≤ range.2

def among {α : Type} : List (Nat × Nat) → List (Nat × α) → List (Nat × α)
  | [],_ => []
  | (first,last) :: ranges,entries =>
    let entries := entries.dropWhile (·.1 < first)
    entries.takeWhile (·.1 ≤ last) ++ among ranges (entries.dropWhile (·.1 ≤ last))

def joined (first last : Nat) : List (Nat × Nat) → List (Nat × Nat)
  | [] => [(first,last)]
  | (next,stop) :: rest =>
    if next ≤ last + 1 then joined first (max last stop) rest else (first,last) :: joined next stop rest

def gaps (low high : Nat) : List (Nat × Nat) → List (Nat × Nat)
  | [] => if low ≤ high then [(low,high)] else []
  | (first,last) :: rest =>
    if last < low then gaps low high rest
    else if high < first then if low ≤ high then [(low,high)] else []
    else if low < first then (low,first - 1) :: gaps (last + 1) high rest
    else gaps (last + 1) high rest

end SharedTree.Unicode
