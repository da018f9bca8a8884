import SharedTree.Path.Compile
import SharedTree.Path.Evaluate
import SharedTree.Selector.Verdict

namespace SharedTree

-- Tests that the caller brings along report their own calls; operands are tested from left to right
-- and only as far as needed.
inductive Selector where
  | any
  | nothing
  | name (glob : String)
  | regex (source : String) (compiled : Regex)
  | attributes (test : Attributes → Verdict)
  | type (tag : String)
  | custom (test : Position → Verdict)
  | leaf
  | root
  | depth (level : Nat)
  | childOf (parent : Selector)
  | ancestorOf (below : Selector)
  | descendantOf (above : Selector)
  | path (e : PathExpr)
  | and (a b : Selector)
  | or (a b : Selector)
  | not (a : Selector)
  | xor (a b : Selector)

namespace Selector

def verdict : Selector → Position → Verdict
  | any,_ => .silent true
  | nothing,_ => .silent false
  | name glob,p => .silent (Glob.accepts glob p.name)
  | regex _ compiled,p => .silent (compiled.found p.name)
  | attributes test,p => test p.attributes
  | type tag,p => .silent (p.node.typeTag? == some tag)
  | custom test,p => test p
  | leaf,p => .silent p.isLeaf
  | root,p => .silent p.isRoot
  | depth level,p => .silent (p.depth == level)
  | childOf parent,p => match p.parent? with
    | some above => parent.verdict above
    | none => .silent false
  | ancestorOf below,p => .anyOf below.verdict p.descendants
  | descendantOf above,p => .anyOf above.verdict p.ancestors
  | path e,p => .silent (e.selects p)
  | and a b,p => (a.verdict p).both fun _ => b.verdict p
  | or a b,p => (a.verdict p).either fun _ => b.verdict p
  | not a,p => (a.verdict p).not
  | xor a b,p => (a.verdict p).differ (b.verdict p)

def selects (s : Selector) (p : Position) : Bool := (s.verdict p).answer

def byRegex [Regex.Engine] (source : String) : Except PathError Selector :=
  match Regex.anchored? source with
  | some compiled => .ok (.regex source compiled)
  | none => .error ⟨source,.invalidRegex source⟩

def byPath [Regex.Engine] (source : String) : Except PathError Selector := (PathExpr.compile source).map .path

def attributeEquals (key : String) (value : Value) : Selector :=
  .attributes fun a => .silent ((a.get? key).any (·.agrees value))

def hasAttribute (key : String) : Selector := .attributes fun a => .silent (a.contains key)

def allOf : List Selector → Selector
  | [] => any
  | first :: rest => rest.foldl and first

def anyOf : List Selector → Selector
  | [] => nothing
  | first :: rest => rest.foldl or first

def shown : Selector → String
  | any => "Any"
  | nothing => "Nothing"
  | name glob => "Name(" ++ Text.quoted glob ++ ")"
  | regex source _ => "NameRegex(" ++ Text.quoted ("^(?:" ++ source ++ ")$") ++ ")"
  | attributes _ => "Attrs(<fn>)"
  | type tag => "Type(" ++ Text.quoted tag ++ ")"
  | custom _ => "Custom(<fn>)"
  | leaf => "Leaf"
  | root => "Root"
  | depth level => s!"Depth({level})"
  | childOf parent => "ChildOf(" ++ parent.shown ++ ")"
  | ancestorOf below => "AncestorOf(" ++ below.shown ++ ")"
  | descendantOf above => "DescendantOf(" ++ above.shown ++ ")"
  | path e => "Path(" ++ Text.quoted e.source ++ ")"
  | and a b => "And(" ++ a.shown ++ ", " ++ b.shown ++ ")"
  | or a b => "Or(" ++ a.shown ++ ", " ++ b.shown ++ ")"
  | not a => "Not(" ++ a.shown ++ ")"
  | xor a b => "Xor(" ++ a.shown ++ ", " ++ b.shown ++ ")"

end Selector
end SharedTree
