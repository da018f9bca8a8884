import SharedTree.Path.Filter
import SharedTree.Path.Scan

namespace SharedTree
namespace Path

structure Settings where
  capacity : Nat
  threshold : Binary64
  deriving DecidableEq, Repr

def Settings.default : Settings := ⟨256,.round false 8 10⟩

def thresholdOf? (text : List Char) : Option Binary64 :=
  let (negative,rest) := match text with
    | '-' :: rest => (true,rest)
    | '+' :: rest => (false,rest)
    | rest => (false,rest)
  let (whole,rest) := rest.span Decimal.isDigit
  let (fraction,rest) := match rest with
    | '.' :: rest => rest.span Decimal.isDigit
    | rest => ([],rest)
  if whole.isEmpty ∧ fraction.isEmpty then none
  else
    match rest,exponentPart? rest with
    | [],_ => (decimalOf negative whole fraction false []).nearest?
    | _,some ((below,digits),[]) => (decimalOf negative whole fraction below digits).nearest?
    | _,_ => none

def isFraction (x : Binary64) : Bool := 0 ≤ x.units && x.units ≤ Binary64.one.units

def threshold? (text : List Char) : Option Binary64 :=
  (thresholdOf? (trim text)).filter isFraction

def fuzzy (settings : Settings) (start : Nat) (body : List Char) : Except PathFault Segment :=
  match RawSegment.afterColon? body with
  | none => if body.isEmpty then .error (.emptySegment start) else .ok (.fuzzy (String.ofList body) settings.threshold)
  | some text =>
    match threshold? text with
    | none => .error (.threshold (String.ofList text))
    | some threshold =>
      let name := RawSegment.beforeColon body
      if name.isEmpty then .error (.emptySegment start) else .ok (.fuzzy (String.ofList name) threshold)

def classify (settings : Settings) (start : Nat) (name : List Char) : Except PathFault Segment :=
  match name with
  | ['*'] => .ok .one
  | ['*','*'] => .ok .deep
  | '%' :: body => fuzzy settings start body
  | _ => .ok (if name.contains '*' then .glob (String.ofList name) else .literal (String.ofList name))

def regexOf [Regex.Engine] (source : String) : Except PathFault Segment :=
  match Regex.anchored? source with
  | some compiled => .ok (.regex source compiled)
  | none => .error (.invalidRegex source)

def filtersOf : List (List Char) → Except PathFault (List Segment)
  | [] => .ok []
  | filter :: rest =>
    match ofFilter filter with
    | .error fault => .error (.invalidFilter (String.ofList filter) fault)
    | .ok segment =>
      match filtersOf rest with
      | .error fault => .error fault
      | .ok segments => .ok (segment :: segments)

def segmentsOf [Regex.Engine] (settings : Settings) (raw : RawSegment) : Except PathFault (List Segment) :=
  if raw.name.isEmpty then .error (.emptySegment raw.start)
  else
    let head := if raw.regex then regexOf (String.ofList raw.name) else classify settings raw.start raw.name
    match head with
    | .error fault => .error fault
    | .ok head =>
      match filtersOf raw.filters with
      | .error fault => .error fault
      | .ok filters => .ok (head :: filters)

def allSegments [Regex.Engine] (settings : Settings) : List RawSegment → Except PathFault (List Segment)
  | [] => .ok []
  | raw :: rest =>
    match segmentsOf settings raw with
    | .error fault => .error fault
    | .ok first =>
      match allSegments settings rest with
      | .error fault => .error fault
      | .ok others => .ok (first ++ others)

end Path

namespace PathExpr

def compileWith [Regex.Engine] (settings : Path.Settings) (source : String) : Except PathError PathExpr :=
  match Path.rawSegments source.toList with
  | .error fault => .error ⟨source,fault⟩
  | .ok raw =>
    match Path.allSegments settings raw with
    | .error fault => .error ⟨source,fault⟩
    | .ok segments => .ok ⟨source,segments⟩

def compile [Regex.Engine] (source : String) : Except PathError PathExpr := compileWith .default source

end PathExpr
end SharedTree
