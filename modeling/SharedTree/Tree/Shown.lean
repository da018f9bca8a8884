import SharedTree.Json.Writer
import SharedTree.Tree.Position

namespace SharedTree

def Attributes.shown (a : Attributes) : String :=
  "\x7b" ++ String.intercalate ", " (Value.shownFields a.toList) ++ "\x7d"

mutual
def Node.shown : Node → String
  | .mk _ name attributes children =>
    let held := if attributes.isEmpty then "" else ", attrs: " ++ attributes.shown
    let below := if children.isEmpty then "" else ", children: [" ++ String.intercalate ", " (Node.shownAll children) ++ "]"
    "Node \x7b name: " ++ Text.quoted name ++ held ++ below ++ " \x7d"

def Node.shownAll : List Node → List String
  | [] => []
  | child :: rest => child.shown :: Node.shownAll rest
end

def Tree.shown (t : Tree) : String := "Tree(" ++ t.root.shown ++ ")"
def Position.shown (p : Position) : String := "NodeRef(" ++ p.path ++ ")"

end SharedTree
