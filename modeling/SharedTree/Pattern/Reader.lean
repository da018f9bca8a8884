import SharedTree.Number.Decimal
import SharedTree.Number.Hexadecimal
import SharedTree.Pattern.Automaton
import SharedTree.Pattern.Engine
import SharedTree.Pattern.Search
import SharedTree.Unicode.Alphabetic

namespace SharedTree.Pattern

-- With `lazy` a loop is greedy only when it is marked.
structure Flags where
  ignoreCase : Bool
  multiline : Bool
  dotAll : Bool
  lazy : Bool
  deriving DecidableEq, Repr

def Flags.none : Flags := ⟨false,false,false,false⟩

inductive Atom where
  | char (c : Char)
  | chars (allowed : CharSet)
  | assert (a : Assertion)
  deriving DecidableEq, Repr

def charOf? (code : Nat) : Option Char :=
  if h : code.isValidChar then some (Char.ofNatAux code h) else none

def escapable (c : Char) : Bool :=
  c.toNat < 0x80 && !(c.isAlphanum || c == '<' || c == '>')

def hexChar? (count : Nat) : List Char → Option (Atom × List Char)
  | '\x7b' :: rest =>
    let (digits,rest) := rest.span (· != '\x7d')
    match rest with
    | _ :: rest =>
      if digits.isEmpty then none
      else do pure (.char (← charOf? (← Hexadecimal.number? digits)),rest)
    | [] => none
  | rest =>
    if rest.length < count then none
    else do pure (.char (← charOf? (← Hexadecimal.number? (rest.take count))),rest.drop count)

-- After `\b` a brace that starts with a letter or a dash names a kind of word boundary.
def boundary? : List Char → Option (Assertion × List Char)
  | '\x7b' :: c :: rest =>
    if c.isAlpha ∨ c = '-' then
      let (name,rest) := (c :: rest).span fun c => c.isAlpha || c == '-'
      match rest with
      | '\x7d' :: rest =>
        match String.ofList name with
        | "start" => some (.wordStart,rest)
        | "end" => some (.wordEnd,rest)
        | "start-half" => some (.wordStartHalf,rest)
        | "end-half" => some (.wordEndHalf,rest)
        | _ => none
      | _ => none
    else some (.wordBoundary,'\x7b' :: c :: rest)
  | ['\x7b'] => none
  | rest => some (.wordBoundary,rest)

def escape? : List Char → Option (Atom × List Char)
  | [] => none
  | c :: rest =>
    match c with
    | 'x' => hexChar? 2 rest
    | 'u' => hexChar? 4 rest
    | 'U' => hexChar? 8 rest
    | 'd' => some (.chars .digit,rest)
    | 'D' => some (.chars CharSet.digit.outside,rest)
    | 's' => some (.chars .blank,rest)
    | 'S' => some (.chars CharSet.blank.outside,rest)
    | 'w' => some (.chars .word,rest)
    | 'W' => some (.chars CharSet.word.outside,rest)
    | 'a' => some (.char '\x07',rest)
    | 'f' => some (.char '\x0c',rest)
    | 't' => some (.char '\t',rest)
    | 'n' => some (.char '\n',rest)
    | 'r' => some (.char '\r',rest)
    | 'v' => some (.char '\x0b',rest)
    | 'A' => some (.assert .textStart,rest)
    | 'z' => some (.assert .textEnd,rest)
    | 'b' => (boundary? rest).map fun (a,rest) => (.assert a,rest)
    | 'B' => some (.assert .wordInside,rest)
    | '<' => some (.assert .wordStart,rest)
    | '>' => some (.assert .wordEnd,rest)
    | c => if escapable c then some (.char c,rest) else none

inductive ClassOp where
  | inter
  | minus
  | differ
  deriving DecidableEq, Repr

-- A set and how deep the text that it was read from is nested.
structure ClassPart where
  set : CharSet
  height : Nat

-- What stands side by side in a class. Several items are nested one deeper than the deepest of them.
structure ClassItems where
  set : CharSet
  count : Nat
  deepest : Nat

def ClassItems.none : ClassItems := ⟨.empty,0,0⟩

def ClassItems.add (items : ClassItems) (part : ClassPart) : ClassItems :=
  ⟨items.set.union part.set,items.count + 1,max items.deepest part.height⟩

def ClassItems.part (items : ClassItems) : ClassPart :=
  ⟨items.set,if items.count ≤ 1 then items.deepest else items.deepest + 1⟩

def ClassOp.apply (op : ClassOp) (ignoreCase : Bool) (a b : ClassPart) : ClassPart :=
  let left := if ignoreCase then a.set.folded else a.set
  let right := if ignoreCase then b.set.folded else b.set
  let set := match op with
    | inter => left.inter right
    | minus => left.minus right
    | differ => left.differ right
  ⟨set,max a.height b.height + 1⟩

-- An open bracket: what the enclosing class had so far, whether this one is
-- negated, and the operand waiting on the left of an operator.
structure OpenClass where
  outer : ClassItems
  negated : Bool
  left : Option (ClassOp × ClassPart)

def OpenClass.operand (o : OpenClass) (ignoreCase : Bool) (right : ClassItems) : ClassPart :=
  match o.left with
  | some (op,left) => op.apply ignoreCase left right.part
  | none => right.part

def closed (ignoreCase negated : Bool) (set : CharSet) : CharSet :=
  let set := if ignoreCase then set.folded else set
  if negated then set.outside else set

def OpenClass.close (o : OpenClass) (ignoreCase : Bool) (right : ClassItems) : ClassPart :=
  let part := o.operand ignoreCase right
  ⟨closed ignoreCase o.negated part.set,part.height + 1⟩

def dashes (found : ClassItems) : List Char → ClassItems × List Char
  | '-' :: rest => dashes (found.add ⟨.single '-',0⟩) rest
  | rest => (found,rest)

-- What may stand first in a bracket: a negation, dashes, or a closing bracket
-- that stands for itself. The bracket must not end there.
def openClass? (outer : ClassItems) (rest : List Char) : Option (OpenClass × ClassItems × List Char) :=
  let (negated,rest) := match rest with
    | '^' :: rest => (true,rest)
    | rest => (false,rest)
  let dashed := dashes .none rest
  let (found,rest) := match rest with
    | ']' :: rest => (ClassItems.none.add ⟨.single ']',0⟩,rest)
    | _ => dashed
  if rest.isEmpty then none else some (⟨outer,negated,none⟩,found,rest)

def named? (ignoreCase : Bool) : List Char → Option (CharSet × List Char)
  | '[' :: ':' :: rest =>
    let (negated,rest) := match rest with
      | '^' :: rest => (true,rest)
      | rest => (false,rest)
    let (name,rest) := rest.span (· != ':')
    match rest with
    | ':' :: ']' :: rest => (CharSet.named? (String.ofList name)).map fun set => (closed ignoreCase negated set,rest)
    | _ => none
  | _ => none

def classAtom? : List Char → Option (Atom × List Char)
  | '\\' :: rest => escape? rest
  | c :: rest => some (.char c,rest)
  | [] => none

def Atom.chars? : Atom → Option CharSet
  | .char c => some (.single c)
  | .chars allowed => some allowed
  | .assert _ => none

-- One item or a range. A dash in front of a closing bracket or of another dash is no range.
def classItem? (rest : List Char) : Option (CharSet × List Char) := do
  let (first,rest) ← classAtom? rest
  match rest with
  | [] => none
  | ['-'] => none
  | '-' :: next :: after =>
    if next = ']' ∨ next = '-' then pure (← first.chars?,rest)
    else
      match first,← classAtom? (next :: after) with
      | .char a,(.char b,rest) => if a ≤ b then pure (.range a b,rest) else none
      | _,_ => none
  | _ => pure (← first.chars?,rest)

def classFrom? (ignoreCase : Bool) : Nat → List OpenClass → ClassItems → List Char → Option (ClassPart × List Char)
  | 0,_,_,_ => none
  | _ + 1,[],_,_ => none
  | fuel + 1,top :: stack,found,rest =>
    let operator := fun op rest =>
      classFrom? ignoreCase fuel ({ top with left := some (op,top.operand ignoreCase found) } :: stack) .none rest
    match rest with
    | [] => none
    | ']' :: rest =>
      let part := top.close ignoreCase found
      match stack with
      | [] => some (part,rest)
      | _ => classFrom? ignoreCase fuel stack (top.outer.add part) rest
    | '&' :: '&' :: rest => operator .inter rest
    | '-' :: '-' :: rest => operator .minus rest
    | '~' :: '~' :: rest => operator .differ rest
    | '[' :: rest =>
      match named? ignoreCase ('[' :: rest) with
      | some (set,rest) => classFrom? ignoreCase fuel (top :: stack) (found.add ⟨set,0⟩) rest
      | none => do
        let (opened,found,rest) ← openClass? found rest
        classFrom? ignoreCase fuel (opened :: top :: stack) found rest
    | rest => do
      let (set,rest) ← classItem? rest
      classFrom? ignoreCase fuel (top :: stack) (found.add ⟨set,0⟩) rest

def class? (ignoreCase : Bool) (rest : List Char) : Option (ClassPart × List Char) := do
  let (opened,found,rest) ← openClass? .none rest
  classFrom? ignoreCase (rest.length + 1) [opened] found rest

-- Texts are always Unicode, so a flag that turns that off is not read.
def setFlag? (flags : Flags) (on : Bool) : Char → Option Flags
  | 'i' => some { flags with ignoreCase := on }
  | 'm' => some { flags with multiline := on }
  | 's' => some { flags with dotAll := on }
  | 'U' => some { flags with lazy := on }
  | 'u' => if on then some flags else none
  | _ => none

-- Flags up to a colon or a closing parenthesis. No flag stands twice, and a
-- negation stands once and before a flag.
def flags? (seen : List Char) (flags : Flags) : List Char → Option (Flags × Bool × List Char)
  | [] => none
  | c :: rest =>
    if c = ':' ∨ c = ')' then
      if seen.head? = some '-' then none else some (flags,c = ':',rest)
    else if seen.contains c then none
    else if c = '-' then flags? (c :: seen) flags rest
    else (setFlag? flags (!seen.contains '-') c).bind fun flags => flags? (c :: seen) flags rest

def countNumber? (rest : List Char) : Option (Nat × List Char) :=
  let (digits,rest) := (rest.dropWhile Unicode.isBlank).span Decimal.isDigit
  let n := Decimal.value 0 digits
  if digits.isEmpty ∨ twoTo 32 ≤ n then none else some (n,rest.dropWhile Unicode.isBlank)

def count? (rest : List Char) : Option (Count × List Char) := do
  let (least,rest) ← countNumber? rest
  match rest with
  | '\x7d' :: rest => pure (⟨least,some least⟩,rest)
  | ',' :: '\x7d' :: rest => pure (⟨least,none⟩,rest)
  | ',' :: rest =>
    let (most,rest) ← countNumber? rest
    match rest with
    | '\x7d' :: rest => if least ≤ most then pure (⟨least,some most⟩,rest) else none
    | _ => none
  | _ => none

structure Item where
  pattern : Option Pattern
  height : Nat

structure Branch where
  pattern : Pattern
  height : Nat

structure OpenGroup where
  capture : Option Nat
  before : List Item
  branches : List Branch
  flags : Flags

-- Items of the current branch, last first. Groups are numbered from one in the
-- order in which they are opened.
structure Reading where
  flags : Flags
  names : List String
  captures : Nat
  groups : List OpenGroup
  branches : List Branch
  items : List Item

-- Several parts are nested one deeper than the deepest of them.
def heightOf (heights : List Nat) : Nat :=
  match heights with
  | [] => 0
  | [height] => height
  | heights => heights.foldl max 0 + 1

def sequence (items : List Item) : Branch :=
  let pattern := match items.filterMap Item.pattern with
    | [] => .empty
    | last :: before => before.foldl (fun rest item => .seq item rest) last
  ⟨pattern,heightOf (items.map Item.height)⟩

def alternatives (branches : List Branch) (items : List Item) : Branch :=
  let last := sequence items
  ⟨branches.foldl (fun rest branch => .either branch.pattern rest) last.pattern,
    heightOf (last.height :: branches.map Branch.height)⟩

def Reading.add (r : Reading) (p : Pattern) (height : Nat) : Reading :=
  { r with items := ⟨some p,height⟩ :: r.items }

def Reading.chars (r : Reading) (allowed : CharSet) : Reading :=
  r.add (.chars (if r.flags.ignoreCase then allowed.folded else allowed)) 0

def Reading.openGroup (r : Reading) (capture : Option Nat) (inner : Flags) : Reading :=
  { r with flags := inner, groups := ⟨capture,r.items,r.branches,r.flags⟩ :: r.groups, branches := [], items := [] }

def Reading.openCapture (r : Reading) : Reading :=
  { r with captures := r.captures + 1 }.openGroup (some (r.captures + 1)) r.flags

def Reading.close? (r : Reading) : Option Reading :=
  match r.groups with
  | [] => none
  | opened :: groups =>
    let inner := alternatives r.branches r.items
    some { r with
      flags := opened.flags
      groups := groups
      branches := opened.branches
      items := ⟨some (.group opened.capture inner.pattern),inner.height + 1⟩ :: opened.before }

-- A loop needs an expression in front of it. A question mark behind it makes it lazy, or greedy where loops are lazy.
def Reading.repeat? (r : Reading) (count : Count) (rest : List Char) : Option (Reading × List Char) :=
  match r.items with
  | ⟨some p,height⟩ :: items =>
    let (greedy,rest) := match rest with
      | '?' :: rest => (r.flags.lazy,rest)
      | rest => (!r.flags.lazy,rest)
    some ({ r with items := ⟨some (.loop p count greedy),height + 1⟩ :: items },rest)
  | _ => none

def nameChar (first : Bool) (c : Char) : Bool :=
  if first then c == '_' || Unicode.isAlphabetic c
  else c == '_' || c == '.' || c == '[' || c == ']' || Unicode.isAlphanumeric c

def groupName? (rest : List Char) : Option (String × List Char) :=
  let (name,rest) := rest.span (· != '>')
  match name,rest with
  | first :: others,_ :: rest =>
    if nameChar true first ∧ others.all (nameChar false) then some (String.ofList name,rest) else none
  | _,_ => none

def Reading.namedGroup? (r : Reading) (rest : List Char) : Option (Reading × List Char) := do
  let (name,rest) ← groupName? rest
  if r.names.contains name then none
  else pure ({ r with names := name :: r.names }.openCapture,rest)

-- What follows an opening parenthesis. Looking around is not supported.
def Reading.group? (r : Reading) : List Char → Option (Reading × List Char)
  | '?' :: '=' :: _ => none
  | '?' :: '!' :: _ => none
  | '?' :: '<' :: '=' :: _ => none
  | '?' :: '<' :: '!' :: _ => none
  | '?' :: 'P' :: '<' :: rest => r.namedGroup? rest
  | '?' :: '<' :: rest => r.namedGroup? rest
  | '?' :: ')' :: _ => none
  | '?' :: rest => do
    let (flags,inside,rest) ← flags? [] r.flags rest
    if inside then pure (r.openGroup none flags,rest)
    else pure ({ r with flags := flags, items := ⟨none,0⟩ :: r.items },rest)
  | rest => some (r.openCapture,rest)

def Reading.atom (r : Reading) : Atom → Reading
  | .char c => r.chars (.single c)
  | .chars allowed => r.add (.chars allowed) 0
  | .assert a => r.add (.assert a) 0

def Reading.step? (r : Reading) (c : Char) (rest : List Char) : Option (Reading × List Char) :=
  match c with
  | '(' => r.group? rest
  | ')' => r.close?.map (·,rest)
  | '|' => some ({ r with branches := sequence r.items :: r.branches, items := [] },rest)
  | '[' => (class? r.flags.ignoreCase rest).map fun (part,rest) => (r.add (.chars part.set) part.height,rest)
  | '?' => r.repeat? ⟨0,some 1⟩ rest
  | '*' => r.repeat? ⟨0,none⟩ rest
  | '+' => r.repeat? ⟨1,none⟩ rest
  | '\x7b' => do
    let (count,rest) ← count? rest
    r.repeat? count rest
  | '\\' => (escape? rest).map fun (atom,rest) => (r.atom atom,rest)
  | '.' =>
    let allowed := if r.flags.dotAll then .all else (CharSet.single '\n').outside
    some (r.add (.chars allowed) 0,rest)
  | '^' => some (r.add (.assert (if r.flags.multiline then .lineStart else .textStart)) 0,rest)
  | '$' => some (r.add (.assert (if r.flags.multiline then .lineEnd else .textEnd)) 0,rest)
  | c => some (r.chars (.single c),rest)

def readFrom? : Nat → Reading → List Char → Option Branch
  | _,r,[] => if r.groups.isEmpty then some (alternatives r.branches r.items) else none
  | 0,_,_ => none
  | fuel + 1,r,c :: rest => (r.step? c rest).bind fun (r,rest) => readFrom? fuel r rest

def heightLimit : Nat := 250

-- Every step takes at least one character, so the length of the text is fuel enough. What is nested
-- too deep or stands for too large an automaton is not read.
def read? (text : String) : Option Pattern :=
  let s := text.toList
  match readFrom? s.length ⟨.none,[],0,[],[],[]⟩ s with
  | some ⟨p,height⟩ => if height ≤ heightLimit && p.reduced.fits then some p else none
  | none => none

-- The engine of this library, for the syntax that is read here.
instance listed : Regex.Engine := ⟨fun text => (read? text).map fun p => ⟨fun name => p.found name.toList⟩⟩

end SharedTree.Pattern
