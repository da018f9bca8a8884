namespace SharedTree.Glob

def onlyStars (pattern : List Char) : Bool := pattern.all (· == '*')

-- Only the last star is kept: `rest` is the pattern after it and `tried` the text it was tried at,
-- while `pattern` and `name` are what is left of both.
def afterStar (rest tried pattern name : List Char) (within : pattern.length ≤ rest.length) : Bool :=
  match tried with
  | [] => onlyStars pattern
  | first :: later =>
    match name with
    | [] => onlyStars pattern
    | c :: following =>
      match pattern with
      | [] => afterStar rest later rest later (Nat.le_refl _)
      | d :: behind =>
        if d = '*' then afterStar behind (c :: following) behind (c :: following) (Nat.le_refl _)
        else if c = d then
          afterStar rest (first :: later) behind following (Nat.le_trans (Nat.le_succ _) within)
        else afterStar rest later rest later (Nat.le_refl _)
termination_by (rest.length,tried.length,name.length)
decreasing_by
  · exact .right _ (.left _ _ (Nat.lt_succ_self _))
  · exact .left _ _ within
  · exact .right _ (.right _ (Nat.lt_succ_self _))
  · exact .right _ (.left _ _ (Nat.lt_succ_self _))

def begins : List Char → List Char → Bool
  | '*' :: pattern,name => afterStar pattern name pattern name (Nat.le_refl _)
  | d :: pattern,c :: name => c == d && begins pattern name
  | [],[] => true
  | _,_ => false

def accepts (pattern name : String) : Bool := begins pattern.toList name.toList

end SharedTree.Glob
