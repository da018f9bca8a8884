import SharedTree.Tree.Position

namespace SharedTree

-- A walk holds what is still pending, next first, so it can be stopped after any step.
structure Preorder where
  pending : List Position

namespace Preorder

def start (p : Position) : Preorder := ⟨[p]⟩

def next? : Preorder → Option (Position × Preorder)
  | ⟨[]⟩ => none
  | ⟨p :: rest⟩ => some (p,⟨p.children ++ rest⟩)

def weight (walk : Preorder) : Nat := Node.sizeAll (walk.pending.map (·.node))

theorem next?_lighter {walk rest : Preorder} {p : Position} (step : walk.next? = some (p,rest)) :
    rest.weight < walk.weight := by
  obtain ⟨pending⟩ := walk
  cases pending with
  | nil => simp [next?] at step
  | cons q pending =>
      simp only [next?,Option.some.injEq,Prod.mk.injEq] at step
      obtain ⟨rfl,rfl⟩ := step
      have below : (q.children ++ pending).map (·.node) = q.node.children ++ pending.map (·.node) := by
        simp [Position.children,Position.under,Function.comp_def]
      simp only [weight,below,List.map_cons,Node.sizeAll,Node.sizeAll_append,Node.size_eq]
      omega

def toList (walk : Preorder) : List Position :=
  match _step : walk.next? with
  | none => []
  | some (p,rest) => p :: rest.toList
termination_by walk.weight
decreasing_by exact next?_lighter _step

end Preorder

-- A pending node is marked once its children are pending in front of it.
structure Postorder where
  pending : List (Position × Bool)

namespace Postorder

def start (p : Position) : Postorder := ⟨[(p,false)]⟩

def entryWeight (entry : Position × Bool) : Nat := if entry.2 then 1 else 2 * entry.1.node.size

def weightAll : List (Position × Bool) → Nat
  | [] => 0
  | entry :: rest => entryWeight entry + weightAll rest

theorem weightAll_append (a b : List (Position × Bool)) : weightAll (a ++ b) = weightAll a + weightAll b := by
  induction a with
  | nil => simp [weightAll]
  | cons entry rest ih => simp only [List.cons_append,weightAll,ih]; omega

def weight (walk : Postorder) : Nat := weightAll walk.pending

def expand (p : Position) (rest : List (Position × Bool)) : List (Position × Bool) :=
  p.children.map (·,false) ++ (p,true) :: rest

theorem expand_lighter (p : Position) (rest : List (Position × Bool)) :
    (⟨expand p rest⟩ : Postorder).weight < (⟨(p,false) :: rest⟩ : Postorder).weight := by
  have below : ∀ nodes : List Node,
      weightAll ((nodes.map p.under).map (·,false)) = 2 * Node.sizeAll nodes := by
    intro nodes
    induction nodes with
    | nil => rfl
    | cons n nodes ih =>
        simp only [List.map_cons,weightAll,Node.sizeAll,ih]
        simp only [entryWeight,Position.under,Bool.false_eq_true,↓reduceIte]
        omega
  simp only [weight,expand,Position.children,weightAll_append,weightAll,below]
  simp only [entryWeight,Bool.false_eq_true,↓reduceIte,Node.size_eq p.node]
  omega

def next? : Postorder → Option (Position × Postorder)
  | ⟨[]⟩ => none
  | ⟨(p,true) :: rest⟩ => some (p,⟨rest⟩)
  | ⟨(p,false) :: rest⟩ => (⟨expand p rest⟩ : Postorder).next?
termination_by walk => walk.weight
decreasing_by exact expand_lighter p rest

def toList : Postorder → List Position
  | ⟨[]⟩ => []
  | ⟨(p,true) :: rest⟩ => p :: (⟨rest⟩ : Postorder).toList
  | ⟨(p,false) :: rest⟩ => (⟨expand p rest⟩ : Postorder).toList
termination_by walk => walk.weight
decreasing_by
  · simp [weight,weightAll,entryWeight]
  · exact expand_lighter p rest

end Postorder

inductive Order where
  | preorder
  | postorder
  deriving DecidableEq, Repr

namespace Position

def preorder (p : Position) : List Position := (Preorder.start p).toList
def postorder (p : Position) : List Position := (Postorder.start p).toList

def descendants (p : Position) : List Position := (⟨p.children⟩ : Preorder).toList
def leaves (p : Position) : List Position := p.preorder.filter isLeaf

def inOrder (p : Position) : Order → List Position
  | .preorder => p.preorder
  | .postorder => p.postorder

def fold (p : Position) (order : Order) (start : α) (combine : α → Position → α) : α :=
  (p.inOrder order).foldl combine start

end Position

end SharedTree
