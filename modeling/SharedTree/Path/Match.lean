import SharedTree.Path.Segment
import SharedTree.Text.Distance
import SharedTree.Text.Glob

namespace SharedTree

def Operand.value? (attributes : Attributes) : Operand → Option Value
  | .attribute key => attributes.get? key
  | .literal value => some value

namespace Comparison

def holds (left right : Value) : Comparison → Bool
  | equal => left.agrees right
  | notEqual => !left.agrees right
  | less => left.order? right == some .lt
  | atMost => left.order? right == some .lt || left.order? right == some .eq
  | greater => left.order? right == some .gt
  | atLeast => left.order? right == some .gt || left.order? right == some .eq

end Comparison

namespace Predicate

def holds (attributes : Attributes) : Predicate → Bool
  | or a b => a.holds attributes || b.holds attributes
  | and a b => a.holds attributes && b.holds attributes
  | compare left op right =>
    match left.value? attributes,right.value? attributes with
    | some l,some r => op.holds l r
    | _,_ => false
  | truthy operand => (operand.value? attributes).any Value.truthy

end Predicate

namespace Segment

def acceptsName (name : String) : Segment → Bool
  | literal text => text == name
  | one => true
  | glob pattern => Glob.accepts pattern name
  | regex _ compiled => compiled.found name
  | fuzzy target threshold => threshold.units ≤ (similarity target name).units
  | _ => false

-- A bare text also equals a string that spells it.
def acceptsAttributes (attributes : Attributes) : Segment → Bool
  | equals key value bare => (attributes.get? key).any fun actual =>
      actual.agrees value || bare.any fun text => actual.string? == some text
  | present key => attributes.contains key
  | predicate p => p.holds attributes
  | _ => false

theorem acceptsName_of_filter {s : Segment} (filter : s.isFilter = true) : s.acceptsName name = false := by
  cases s <;> simp_all [isFilter,acceptsName]

end Segment
end SharedTree
