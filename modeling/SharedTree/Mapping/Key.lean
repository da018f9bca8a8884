import SharedTree.Number.Decimal

namespace SharedTree.Key

inductive Fault where
  | invalidEscape (c : Char)
  | danglingEscape
  | unescapedDot
  | suffix
  | spelling (expected : String)
  | rootSuffix
  | foreign (parent : String)
  | gap (name : String)
  deriving DecidableEq, Repr

def Fault.message : Fault → String
  | .invalidEscape c => s!"invalid escape sequence '\\{c}'"
  | .danglingEscape => "dangling escape"
  | .unescapedDot => "unescaped '.' in a key component"
  | .suffix => "sibling suffix must be a positive number"
  | .spelling expected => s!"expected '{expected}'"
  | .rootSuffix => "the root key takes no sibling suffix"
  | .foreign parent => s!"key does not extend its parent '{parent}'"
  | .gap name => s!"siblings named '{name}' must be numbered without gaps"

def escapes (c : Char) : Bool := c == '\\' || c == '.' || c == '#'

def escape (name : List Char) : List Char := name.flatMap fun c => if escapes c then ['\\',c] else [c]

def decimal (n : Nat) : List Char := Nat.toDigits 10 n

-- The second and later siblings of one name carry a number. Only this spelling is read back.
def component (name : List Char) (index : Nat) : List Char :=
  if index = 0 then escape name else escape name ++ '#' :: decimal index

def cut : List Char → Except Fault (List Char × Option (List Char))
  | [] => .ok ([],none)
  | ['\\'] => .error .danglingEscape
  | '\\' :: c :: rest =>
    if escapes c then
      match cut rest with
      | .ok (name,suffix) => .ok (c :: name,suffix)
      | .error fault => .error fault
    else .error (.invalidEscape c)
  | c :: rest =>
    if c = '.' then .error .unescapedDot
    else if c = '#' then if rest.contains '.' then .error .unescapedDot else .ok ([],some rest)
    else
      match cut rest with
      | .ok (name,suffix) => .ok (c :: name,suffix)
      | .error fault => .error fault

def natural? (digits : List Char) : Option Nat :=
  if digits.isEmpty || !digits.all Decimal.isDigit then none
  else
    let n := Decimal.value 0 digits
    if n < twoTo 64 then some n else none

-- A plus sign is read here; the spelling of the whole component refuses it.
def index? : Option (List Char) → Option Nat
  | none => some 0
  | some digits =>
    let digits := match digits with
      | '+' :: rest => rest
      | digits => digits
    (natural? digits).bind fun n => if n = 0 then none else some n

def read (written : List Char) : Except Fault (List Char × Nat) :=
  match cut written with
  | .error fault => .error fault
  | .ok (name,suffix) =>
    match index? suffix with
    | none => .error .suffix
    | some index =>
      if component name index = written then .ok (name,index)
      else .error (.spelling (String.ofList (component name index)))

def lastFrom (found : List Char) : List Char → List Char
  | '\\' :: _ :: rest => lastFrom found rest
  | '.' :: rest => lastFrom rest rest
  | _ :: rest => lastFrom found rest
  | [] => found

def last (key : List Char) : List Char := lastFrom key key

def name (key : String) : Except Fault String :=
  match read (last key.toList) with
  | .ok (name,_) => .ok (String.ofList name)
  | .error fault => .error fault

def below? (parent key : String) : Option (List Char) :=
  if parent.toList.isPrefixOf key.toList then
    match key.toList.drop parent.toList.length with
    | '.' :: component => some component
    | _ => none
  else none

end SharedTree.Key
