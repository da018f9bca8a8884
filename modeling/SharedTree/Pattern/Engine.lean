namespace SharedTree

structure Regex where
  found : String → Bool

namespace Regex

-- Regular expressions are compiled by an engine that is not part of this library: which
-- texts it accepts, and what is found with them, is up to the engine.
class Engine where
  compile? : String → Option Regex

def spliced (source : String) : String := "^(?:" ++ source ++ ")$"

def anchored? [Engine] (source : String) : Option Regex := Engine.compile? (spliced source)

end Regex
end SharedTree
