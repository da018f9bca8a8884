import SharedTree.Number.Binary64

namespace SharedTree.Distance

-- Row `i` holds the distances of the first `i` characters of one text from every beginning of the
-- other. Only two rows are kept: the cells of the one before last are overwritten.
structure Rows (width : Nat) where
  previous : Vector Nat (width + 1)
  current : Vector Nat (width + 1)

namespace Rows

def start (width : Nat) : Rows width := ⟨Vector.range (width + 1),Vector.replicate (width + 1) 0⟩

def begin (rows : Rows width) (i : Nat) : Rows width := { rows with current := rows.current.set 0 (i + 1) }

def cell (rows : Rows width) (c d : Char) (j : Nat) (within : j < width) : Rows width :=
  let substitution := rows.previous[j] + if c = d then 0 else 1
  let value := min (min substitution (rows.previous[j + 1] + 1)) (rows.current[j] + 1)
  { rows with current := rows.current.set (j + 1) value }

def fill (rows : Rows width) (c : Char) (j : Nat) (other : List Char) (fits : j + other.length = width) : Rows width :=
  match other,fits with
  | [],_ => rows
  | d :: other,fits =>
    have fits : j + 1 + other.length = width := by simpa [Nat.add_assoc,Nat.add_comm 1] using fits
    (rows.cell c d j (by omega)).fill c (j + 1) other fits

def swap (rows : Rows width) : Rows width := ⟨rows.current,rows.previous⟩

def descend (other : List Char) (rows : Rows other.length) (i : Nat) : List Char → Rows other.length
  | [] => rows
  | c :: text => descend other (((rows.begin i).fill c 0 other (Nat.zero_add _)).swap) (i + 1) text

end Rows

def distance (text other : List Char) : Nat := ((Rows.start other.length).descend other 0 text).previous[other.length]

end SharedTree.Distance

namespace SharedTree

-- One minus the share of characters that have to change; both steps are rounded.
def similarity (a b : String) : Binary64 :=
  let (a,b) := (a.toList,b.toList)
  let longest := max a.length b.length
  if longest = 0 then .one
  else (Binary64.round false (Distance.distance a b) longest).complement

end SharedTree
