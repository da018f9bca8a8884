namespace SharedTree.Unicode

structure ByteRange where
  first : Nat
  last : Nat
  deriving DecidableEq, Repr

def encoded (code : Nat) : List Nat :=
  if code ≤ 0x7F then [code]
  else if code ≤ 0x7FF then [0xC0 + code / 64,0x80 + code % 64]
  else if code ≤ 0xFFFF then [0xE0 + code / 4096,0x80 + code / 64 % 64,0x80 + code % 64]
  else [0xF0 + code / 262144,0x80 + code / 4096 % 64,0x80 + code / 64 % 64,0x80 + code % 64]

def lengthCut? (low high : Nat) : Option Nat :=
  [0x7F,0x7FF,0xFFFF].find? fun last => low ≤ last && last < high

def placeCut? (low high : Nat) : Option Nat :=
  [64,4096,262144].findSome? fun size =>
    if low / size = high / size then none
    else if low % size ≠ 0 then some (low / size * size + size - 1)
    else if high % size ≠ size - 1 then some (high / size * size - 1)
    else none

def blocksWithin : Nat → Nat → Nat → List (List ByteRange)
  | 0,_,_ => []
  | fuel + 1,low,high =>
    match lengthCut? low high with
    | some cut => blocksWithin fuel low cut ++ blocksWithin fuel (cut + 1) high
    | none =>
      if high ≤ 0x7F then [[⟨low,high⟩]]
      else match placeCut? low high with
        | some cut => blocksWithin fuel low cut ++ blocksWithin fuel (cut + 1) high
        | none => [(encoded low).zipWith ByteRange.mk (encoded high)]

-- The blocks of a range without surrogates, in increasing order. Three cuts by
-- length and two at each of three places are the most there can be.
def blocks (low high : Nat) : List (List ByteRange) := blocksWithin 16 low high

end SharedTree.Unicode
