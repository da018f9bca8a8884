import SharedTree.Unicode.Blank
import SharedTree.Unicode.Folding
import SharedTree.Unicode.Numeric
import SharedTree.Unicode.Word

namespace SharedTree

-- Increasing ranges of code points that do not touch and leave the surrogates out.
structure CharSet where
  ranges : List (Nat × Nat)
  deriving DecidableEq, Repr

namespace CharSet

def contains (s : CharSet) (c : Char) : Bool := Unicode.within s.ranges c

def empty : CharSet := ⟨[]⟩
def all : CharSet := ⟨[(0,0xD7FF),(0xE000,0x10FFFF)]⟩
def digit : CharSet := ⟨Unicode.decimalDigits⟩
def blank : CharSet := ⟨Unicode.blanks⟩
def word : CharSet := ⟨Unicode.word⟩
def single (c : Char) : CharSet := ⟨[(c.toNat,c.toNat)]⟩

def range (first last : Char) : CharSet :=
  if first.toNat ≤ 0xD7FF ∧ 0xE000 ≤ last.toNat then ⟨[(first.toNat,0xD7FF),(0xE000,last.toNat)]⟩
  else ⟨[(first.toNat,last.toNat)]⟩

def ofSorted : List (Nat × Nat) → CharSet
  | [] => empty
  | (first,last) :: rest => ⟨Unicode.joined first last rest⟩

def ofCodes (codes : List Nat) : CharSet := ofSorted (codes.mergeSort.map fun code => (code,code))

def union (a b : CharSet) : CharSet := ofSorted (a.ranges.merge b.ranges fun x y => x.1 ≤ y.1)
def outside (s : CharSet) : CharSet := ⟨Unicode.gaps 0 0xD7FF s.ranges ++ Unicode.gaps 0xE000 0x10FFFF s.ranges⟩
def inter (a b : CharSet) : CharSet := (a.outside.union b.outside).outside
def minus (a b : CharSet) : CharSet := (a.outside.union b).outside
def differ (a b : CharSet) : CharSet := (a.minus b).union (b.minus a)

-- First the folded forms of what the set has, then all that folds to what it has by then.
def folded (s : CharSet) : CharSet :=
  let s := s.union (ofCodes ((Unicode.among s.ranges Unicode.foldedForms).map Prod.snd))
  s.union (ofCodes ((Unicode.among s.ranges Unicode.unfoldedForms).map Prod.snd))

def named? : String → Option CharSet
  | "alnum" => some ⟨[(0x30,0x39),(0x41,0x5A),(0x61,0x7A)]⟩
  | "alpha" => some ⟨[(0x41,0x5A),(0x61,0x7A)]⟩
  | "ascii" => some ⟨[(0,0x7F)]⟩
  | "blank" => some ⟨[(0x09,0x09),(0x20,0x20)]⟩
  | "cntrl" => some ⟨[(0,0x1F),(0x7F,0x7F)]⟩
  | "digit" => some ⟨[(0x30,0x39)]⟩
  | "graph" => some ⟨[(0x21,0x7E)]⟩
  | "lower" => some ⟨[(0x61,0x7A)]⟩
  | "print" => some ⟨[(0x20,0x7E)]⟩
  | "punct" => some ⟨[(0x21,0x2F),(0x3A,0x40),(0x5B,0x60),(0x7B,0x7E)]⟩
  | "space" => some ⟨[(0x09,0x0D),(0x20,0x20)]⟩
  | "upper" => some ⟨[(0x41,0x5A)]⟩
  | "word" => some ⟨[(0x30,0x39),(0x41,0x5A),(0x5F,0x5F),(0x61,0x7A)]⟩
  | "xdigit" => some ⟨[(0x30,0x39),(0x41,0x46),(0x61,0x66)]⟩
  | _ => none

end CharSet
end SharedTree
