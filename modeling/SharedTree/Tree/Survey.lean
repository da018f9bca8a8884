import SharedTree.Node.Basic

namespace SharedTree

-- The nodes still to be taken stand next first; taking a node notes it as the parent of its
-- children, which are then pending in front of the others.
structure Survey where
  pending : List Node
  parents : List (Nat × Node)

namespace Survey

def start (root : Node) : Survey := ⟨[root],[]⟩

def enroll (parent : Node) (survey : Survey) : List Node → Except Node Survey
  | [] => .ok survey
  | child :: rest =>
    if (survey.parents.lookup child.serial).isSome then .error child
    else enroll parent ⟨child :: survey.pending,(child.serial,parent) :: survey.parents⟩ rest

theorem enroll_pending {parent : Node} {survey later : Survey} {children : List Node}
    (enrolled : enroll parent survey children = .ok later) : later.pending = children.reverse ++ survey.pending := by
  induction children generalizing survey with
  | nil =>
      cases enrolled
      rfl
  | cons child rest ih =>
      rw [enroll] at enrolled
      split at enrolled
      · cases enrolled
      · rw [ih enrolled,List.reverse_cons,List.append_assoc]
        rfl

theorem sizeAll_reverse (nodes : List Node) : Node.sizeAll nodes.reverse = Node.sizeAll nodes := by
  induction nodes with
  | nil => rfl
  | cons n nodes ih =>
      rw [List.reverse_cons,Node.sizeAll_append,ih,Node.sizeAll,Node.sizeAll,Node.sizeAll]
      omega

theorem enroll_lighter {n : Node} {rest : List Node} {parents : List (Nat × Node)} {later : Survey}
    (enrolled : enroll n ⟨rest,parents⟩ n.children = .ok later) :
    Node.sizeAll later.pending < Node.sizeAll (n :: rest) := by
  have taken : Node.sizeAll later.pending = Node.sizeAll n.children + Node.sizeAll rest := by
    rw [enroll_pending enrolled,Node.sizeAll_append,sizeAll_reverse]
  rw [taken,Node.sizeAll,Node.size_eq]
  omega

def run : Survey → Except Node (List (Nat × Node))
  | ⟨[],parents⟩ => .ok parents
  | ⟨n :: rest,parents⟩ =>
    match _enrolled : enroll n ⟨rest,parents⟩ n.children with
    | .error child => .error child
    | .ok later => later.run
termination_by survey => Node.sizeAll survey.pending
decreasing_by exact enroll_lighter _enrolled

end Survey
end SharedTree
