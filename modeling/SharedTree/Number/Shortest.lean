import SharedTree.Number.Decimal

namespace SharedTree.Binary64

def leadingPlace (num den : Nat) : Int :=
  if den ≤ num then (Decimal.length (num / den) : Int) - 1
  else
    let zeros := Decimal.length (den / num)
    if num * tenTo (zeros - 1) = den then 1 - (zeros : Int) else -(zeros : Int)

-- The neighbours of the value on the grid of step `10 ^ place`, nearest first;
-- on a tie the even one first.
def neighbours (num den : Nat) (place : Int) : List Nat :=
  let num := num * tenTo (-place).toNat
  let den := den * tenTo place.toNat
  let below := num / den
  let rest := num % den
  if rest = 0 then [below]
  else if 2 * rest < den ∨ (2 * rest = den ∧ below % 2 = 0) then [below,below + 1]
  else [below + 1,below]

def readsBack (x : Binary64) (digits : Nat) (place : Int) : Bool :=
  (Decimal.nearest? ⟨x.negative,digits,place⟩) == some x

-- Tries one digit, then two, and so on; seventeen always suffice.
def shortestFrom (x : Binary64) (top : Int) : Nat → Nat → Nat × Int
  | 0,_ => (x.numerator / x.denominator,0)
  | fuel + 1,count =>
    let place := top - count
    match (neighbours x.numerator x.denominator place).find? (x.readsBack · place) with
    | some digits => (digits,place)
    | none => shortestFrom x top fuel (count + 1)

def trimZeros : Nat → Nat → Int → Nat × Int
  | 0,digits,place => (digits,place)
  | fuel + 1,digits,place =>
    if digits % 10 = 0 then trimZeros fuel (digits / 10) (place + 1) else (digits,place)

def shortest (x : Binary64) : Nat × Int :=
  if x.isZero then (0,0) else
    let (digits,place) := shortestFrom x (leadingPlace x.numerator x.denominator) 18 0
    trimZeros 20 digits place

def text (x : Binary64) : String :=
  let sign := if x.negative then "-" else ""
  if x.isZero then sign ++ "0.0" else
    let (digits,place) := x.shortest
    let written := Nat.toDigits 10 digits
    let count : Int := written.length
    let point := count + place
    let body :=
      if 0 ≤ place ∧ point ≤ 16 then written ++ List.replicate place.toNat '0' ++ ['.','0']
      else if 0 < point ∧ point ≤ 16 then written.take point.toNat ++ '.' :: written.drop point.toNat
      else if -5 < point ∧ point ≤ 0 then '0' :: '.' :: List.replicate (-point).toNat '0' ++ written
      else
        let exponent := point - 1
        let mark := if exponent < 0 then '-' else '+'
        let lead := if written.length = 1 then written else written.take 1 ++ '.' :: written.drop 1
        lead ++ 'e' :: mark :: Nat.toDigits 10 exponent.natAbs
    sign ++ String.ofList body

end SharedTree.Binary64
