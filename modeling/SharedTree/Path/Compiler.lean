import SharedTree.Path.Compile
import SharedTree.Path.Evaluate
import SharedTree.Path.Recency
import SharedTree.Pattern.Reader

namespace SharedTree

-- Every compilation makes an expression with a number of its own; a use of a kept one gives the
-- very same number again.
structure Compiled where
  serial : Nat
  expression : PathExpr

structure CachingCompiler (lru : Recency Compiled) where
  settings : Path.Settings
  kept : Option lru.Store
  hits : Nat
  misses : Nat
  next : Nat

abbrev Compiler := CachingCompiler .latest

namespace Compiler

inductive Request where
  | compile (source : String)
  | evaluate (source : String)
  | contains (source : String)
  | clear

inductive Reply where
  | compiled (answer : Except PathError Compiled)
  | found (answer : Except PathError (List Position))
  | flag (answer : Bool)
  | cleared

end Compiler

namespace CachingCompiler

variable {lru : Recency Compiled}

def start (settings : Path.Settings) : CachingCompiler lru :=
  ⟨settings,if settings.capacity = 0 then none else some (lru.create settings.capacity),0,0,0⟩

def size (c : CachingCompiler lru) : Nat := (c.kept.map lru.size).getD 0
def isEmpty (c : CachingCompiler lru) : Bool := c.size == 0

def contains (c : CachingCompiler lru) (source : String) : Bool := c.kept.any fun store => lru.contains store source
def clear (c : CachingCompiler lru) : CachingCompiler lru := { c with kept := c.kept.map lru.clear }

def lookup (c : CachingCompiler lru) (source : String) : Option Compiled × CachingCompiler lru :=
  match c.kept with
  | none => (none,c)
  | some store =>
    let (found,store) := lru.get store source
    (found,{ c with kept := some store })

def store (c : CachingCompiler lru) (source : String) (made : Compiled) : CachingCompiler lru :=
  match c.kept with
  | none => c
  | some store =>
    match lru.get store source with
    | (some _,store) => { c with kept := some store }
    | (none,store) => { c with kept := some (lru.push store source made).2 }

def compile [Regex.Engine] (c : CachingCompiler lru) (source : String) : Except PathError Compiled × CachingCompiler lru :=
  match c.lookup source with
  | (some found,c) => (.ok found,{ c with hits := c.hits + 1 })
  | (none,c) =>
    let missed := { c with misses := c.misses + 1 }
    match PathExpr.compileWith c.settings source with
    | .error e => (.error e,missed)
    | .ok expression =>
      let made : Compiled := ⟨c.next,expression⟩
      (.ok made,{ missed with next := c.next + 1 }.store source made)

def evaluate [Regex.Engine] (c : CachingCompiler lru) (start : Position) (source : String) :
    Except PathError (List Position) × CachingCompiler lru :=
  let (compiled,c) := c.compile source
  (compiled.map fun k => k.expression.evaluate start,c)

open Compiler in
def serve [Regex.Engine] (c : CachingCompiler lru) (start : Position) : Request → Reply × CachingCompiler lru
  | .compile source => let (answer,c) := c.compile source; (.compiled answer,c)
  | .evaluate source => let (answer,c) := c.evaluate start source; (.found answer,c)
  | .contains source => (.flag (c.contains source),c)
  | .clear => (.cleared,c.clear)

end CachingCompiler
end SharedTree
