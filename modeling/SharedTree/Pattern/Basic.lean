import SharedTree.Pattern.CharSet

namespace SharedTree

inductive Assertion where
  | textStart
  | textEnd
  | lineStart
  | lineEnd
  | wordBoundary
  | wordInside
  | wordStart
  | wordEnd
  | wordStartHalf
  | wordEndHalf
  deriving DecidableEq, Repr

-- The characters on the two sides of a boundary.
structure Boundary where
  before : Option Char
  after : Option Char

def boundary (text : List Char) (i : Nat) : Boundary := ⟨if i = 0 then none else text[i - 1]?,text[i]?⟩

namespace Assertion

def holds (b : Boundary) : Assertion → Bool
  | textStart => b.before.isNone
  | textEnd => b.after.isNone
  | lineStart => b.before.all (· == '\n')
  | lineEnd => b.after.all (· == '\n')
  | wordBoundary => b.before.any Unicode.isWord != b.after.any Unicode.isWord
  | wordInside => b.before.any Unicode.isWord == b.after.any Unicode.isWord
  | wordStart => !b.before.any Unicode.isWord && b.after.any Unicode.isWord
  | wordEnd => b.before.any Unicode.isWord && !b.after.any Unicode.isWord
  | wordStartHalf => !b.before.any Unicode.isWord
  | wordEndHalf => !b.after.any Unicode.isWord

end Assertion

structure Count where
  least : Nat
  most : Option Nat
  deriving DecidableEq, Repr

-- A greedy loop prefers more rounds and a group may have a number; neither
-- changes what is matched.
inductive Pattern where
  | empty
  | chars (allowed : CharSet)
  | assert (a : Assertion)
  | seq (a b : Pattern)
  | either (a b : Pattern)
  | loop (p : Pattern) (count : Count) (greedy : Bool)
  | group (capture : Option Nat) (p : Pattern)
  deriving DecidableEq, Repr

namespace Pattern

-- The meaning of an expression; `Repeats n` is the meaning of `n` rounds of a loop.
mutual
inductive Matches (text : List Char) : Pattern → Nat → Nat → Prop where
  | empty : Matches text .empty i i
  | chars : text[i]? = some c → allowed.contains c = true → Matches text (.chars allowed) i (i + 1)
  | assert : a.holds (boundary text i) = true → Matches text (.assert a) i i
  | seq : Matches text a i j → Matches text b j k → Matches text (.seq a b) i k
  | left : Matches text a i j → Matches text (.either a b) i j
  | right : Matches text b i j → Matches text (.either a b) i j
  | loop : Repeats text p n i j → count.least ≤ n → (∀ m, count.most = some m → n ≤ m) →
      Matches text (.loop p count greedy) i j
  | group : Matches text p i j → Matches text (.group capture p) i j

inductive Repeats (text : List Char) : Pattern → Nat → Nat → Nat → Prop where
  | done : Repeats text p 0 i i
  | next : Matches text p i j → Repeats text p n j k → Repeats text p (n + 1) i k
end

end Pattern
end SharedTree
