import Mathlib.Data.List.Pairwise
import SharedTree.Proofs.Mapping.RoundTrip
import SharedTree.Proofs.Mapping.Walk

namespace SharedTree
namespace Key

theorem lastFrom_plain (slash : c ≠ '\\') (dot : c ≠ '.') (found rest : List Char) :
    lastFrom found (c :: rest) = lastFrom found rest := by
  rw [lastFrom]
  · exact fun _ _ same => absurd same slash
  · exact dot

theorem lastFrom_escape (name found rest : List Char) : lastFrom found (escape name ++ rest) = lastFrom found rest := by
  induction name with
  | nil => rfl
  | cons c name ih =>
      rw [escape_cons,List.append_assoc]
      cases special : escapes c with
      | true =>
          show lastFrom found ('\\' :: c :: (escape name ++ rest)) = _
          rw [lastFrom,ih]
      | false =>
          obtain ⟨slash,dot,_⟩ := plain_of_not_escapes special
          exact (lastFrom_plain slash dot found _).trans ih

theorem lastFrom_digits {digits : List Char} (all : ∀ c ∈ digits,c.isDigit = true) (found rest : List Char) :
    lastFrom found (digits ++ rest) = lastFrom found rest := by
  induction digits with
  | nil => rfl
  | cons c digits ih =>
      have digit := all c (.head _)
      have slash : c ≠ '\\' := by rintro rfl; cases digit
      have dot : c ≠ '.' := by rintro rfl; cases digit
      exact (lastFrom_plain slash dot found _).trans (ih fun d member => all d (.tail _ member))

theorem lastFrom_component (name : List Char) (index : Nat) (found rest : List Char) :
    lastFrom found (component name index ++ rest) = lastFrom found rest := by
  unfold component
  split
  · exact lastFrom_escape name found rest
  · have digits := lastFrom_digits (fun c (member : c ∈ decimal index) => decimal_digits member) found rest
    rw [List.append_assoc,lastFrom_escape,List.cons_append,lastFrom_plain (by decide) (by decide),digits]

-- A dot behind the key separates, so nothing in the key matters for what follows.
def Closed (key : List Char) : Prop := ∀ found rest,lastFrom found (key ++ '.' :: rest) = lastFrom rest rest

theorem closed_component (name : List Char) (index : Nat) : Closed (component name index) := by
  intro found rest
  rw [lastFrom_component,lastFrom]

theorem Closed.below {key : List Char} (closed : Closed key) (name : List Char) (index : Nat) :
    Closed (key ++ '.' :: component name index) := by
  intro found rest
  rw [List.append_assoc,List.cons_append,closed]
  exact closed_component name index _ rest

theorem last_component (name : List Char) (index : Nat) : last (component name index) = component name index := by
  have whole := lastFrom_component name index (component name index) []
  rwa [List.append_nil,lastFrom] at whole

theorem Closed.last_below {key : List Char} (closed : Closed key) (name : List Char) (index : Nat) :
    last (key ++ '.' :: component name index) = component name index := by
  rw [last,closed]
  exact last_component name index

theorem name_of_read {key : String} (spelled : read (last key.toList) = .ok (found,index)) :
    name key = .ok (String.ofList found) := by
  rw [name,spelled]

end Key

namespace Mapping

inductive Built (m : Mapping) : String → Node → String → Node → Prop where
  | self : Built m key n key n
  | child {line : List Sibling} (order : ordered key (m.childKeys key) = .ok line)
      (member : (s,child) ∈ line.zip n.children) (later : Built m s.key child k deep) : Built m key n k deep

variable {m : Mapping} {n inner other : Node} {s : Sibling} {line : List Sibling}

theorem siblings_spelled (read : siblings parent keys = .ok found) (member : s ∈ found) :
    ∃ component,Key.below? parent s.key = some component ∧ Key.read component = .ok (s.name.toList,s.index) := by
  induction keys generalizing found with
  | nil =>
      cases read
      cases member
  | cons key keys ih =>
      unfold siblings at read
      split at read
      · cases read
      · rename_i component below
        split at read
        · cases read
        · rename_i name index spelled
          split at read
          · cases read
          · rename_i others rest
            cases read
            rcases List.mem_cons.mp member with rfl | later
            · exact ⟨component,below,by rw [spelled,String.toList_ofList]⟩
            · exact ih rest later

-- What both readers find in the key of a node named `name`: the rest of the key behind that
-- of the parent is what stands behind the last separating dot, and it spells the name.
structure Spells (m : Mapping) (key name : String) : Prop where
  closed : Key.Closed key.toList
  component : ∀ parent,m.Above key parent → Key.below? parent key = some (Key.last key.toList)
  named : Key.name key = .ok name

theorem spells_root (top : m.Top root) (spelled : Key.read root.toList = .ok (name,0)) :
    Spells m root (String.ofList name) := by
  have written := Key.component_of_read spelled
  have last : Key.last root.toList = root.toList := by
    rw [written]
    exact Key.last_component name 0
  refine ⟨?_,fun parent above => absurd above (top_not_above top),Key.name_of_read (by rw [last]; exact spelled)⟩
  rw [written]
  exact Key.closed_component name 0

theorem spells_child (closed : Key.Closed parent.toList) (order : ordered parent (m.childKeys parent) = .ok line)
    (member : s ∈ line) : Spells m s.key s.name := by
  obtain ⟨named,above⟩ := ordered_child order member
  obtain ⟨found,read,_,perm⟩ := ordered_sound order
  obtain ⟨component,below,spelled⟩ := siblings_spelled read (perm.mem_iff.mp member)
  have written := Key.component_of_read spelled
  have key := eq_of_below? below
  rw [written] at key
  have last : Key.last s.key.toList = component := by rw [key,closed.last_below,← written]
  refine ⟨?_,?_,?_⟩
  · rw [key]
    exact closed.below _ _
  · intro other also
    rw [above_unique also above,below,last]
  · have name : Key.name s.key = .ok (String.ofList s.name.toList) := Key.name_of_read (by rw [last]; exact spelled)
    rwa [String.ofList_toList] at name

theorem built_keyed (built : Built m key n k inner) : ArrangedFrom m key n → Keyed key n k inner := by
  induction built with
  | self => exact fun _ => .self
  | child order member _ ih =>
      intro arranged
      cases order.symm.trans (arranged _ _ .self).children
      exact .child member (ih fun k inner later => arranged k inner (.child member later))

theorem keyed_built (keyed : Keyed key n k inner) : ArrangedFrom m key n → Built m key n k inner := by
  induction keyed with
  | self => exact fun _ => .self
  | child member _ ih =>
      intro arranged
      exact .child (arranged _ _ .self).children member (ih fun k inner later => arranged k inner (.child member later))

theorem built_spells (built : Built m key n k inner) : ArrangedFrom m key n → Spells m key n.name → Spells m k inner.name := by
  induction built with
  | self => exact fun _ spells => spells
  | @child key s child n k inner line order member later ih =>
      intro arranged spells
      have same := order.symm.trans (arranged _ _ .self).children
      cases same
      have name : s.name = child.name := place_name member
      refine ih (fun k inner later => arranged k inner (.child member later)) ?_
      rw [← name]
      exact spells_child spells.closed order (List.of_mem_zip member).1

theorem place_apart {place also : Sibling × Node} (member : place ∈ places key children) (among : also ∈ places key children)
    (other : place ≠ also) (below : Within place.1.key k) : ¬ Within also.1.key k := by
  have symmetric : Std.Symm fun a b : Sibling × Node => ∀ key,Within a.1.key key → ¬ Within b.1.key key :=
    ⟨fun _ _ apart key below besides => apart key besides below⟩
  exact (places_apart key children).forall member among other k below

theorem keyed_unique (first : Keyed key n k inner) (second : Keyed key n k other) : inner = other := by
  induction first with
  | self =>
      cases second with
      | self => rfl
      | child member later => exact absurd (keyed_within later) (not_within_child member)
  | @child key k inner n place member later ih =>
      have within := keyed_within later
      -- No key is within those of two children, so both ways down take the same one.
      cases second with
      | self => exact absurd within (not_within_child member)
      | @child _ _ _ _ also among beyond =>
          by_cases one : place = also
          · subst one
            exact ih beyond
          · exact absurd (keyed_within beyond) (place_apart member among one within)

theorem names_of_outline (read : m.toOutline = .ok n.outline) (member : key ∈ m.names) :
    ∃ inner,Built m (keyOf n) n key inner ∧ (∀ other,Built m (keyOf n) n key other → other = inner) ∧
      inner.attributes = m.attributesAt key ∧ Spells m key inner.name := by
  obtain ⟨first,arranged,_⟩ := outline_exact.mp read
  obtain ⟨root,name,again,spelled,built,_⟩ := toOutline_exact.mp read
  cases first.symm.trans again
  have keys := ((entries_of_outline read).map (·.1)).mem_iff (a := key)
  obtain ⟨inner,keyed⟩ := mem_keys.mp (keys.mpr member)
  have top := spells_root (rootKey_exact.mp first).2 spelled
  rw [← build_name built] at top
  have made := keyed_built keyed arranged
  exact ⟨inner,made,fun other also => keyed_unique (built_keyed also arranged) keyed,(arranged key inner keyed).attributes,
    built_spells made arranged top⟩

theorem readers_agree (m : Mapping) (next : Nat) :
    (∀ tree,(m.toTree.run next).1 = .ok tree → ∃ root,m.rootKey = .ok root ∧ ∀ key ∈ m.names,∃ n,
      (Built m root tree.root key n ∧ ∀ other,Built m root tree.root key other → other = n) ∧
      n.attributes = m.attributesAt key ∧ Key.name key = .ok n.name ∧
        ∀ parent,m.Above key parent → Key.below? parent key = some (Key.last key.toList)) ∧
    ∀ tree : Tree,tree.size ≤ twoTo 64 → ∀ key,
      (key ∈ (ofTree tree).names ↔ ∃ n,Keyed (keyOf tree.root) tree.root key n) ∧
      ∀ n,Keyed (keyOf tree.root) tree.root key n → Key.name key = .ok n.name := by
  refine ⟨?_,?_⟩
  · intro tree read
    have outline := outline_of_toTree read
    refine ⟨_,(outline_exact.mp outline).1,fun key member => ?_⟩
    obtain ⟨n,built,single,attributes,spells⟩ := names_of_outline outline member
    exact ⟨n,⟨built,single⟩,attributes,spells.named,spells.component⟩
  · intro tree fits key
    have outline : (ofTree tree).toOutline = .ok tree.root.outline := ofNode_outline fits
    have arranged := (outline_exact.mp outline).2.1
    have keys : key ∈ (ofTree tree).names ↔ ∃ n,Keyed (keyOf tree.root) tree.root key n := by
      rw [← mem_keys,← ofNode_toList]
      rfl
    refine ⟨keys,fun n keyed => ?_⟩
    obtain ⟨inner,_,single,_,spells⟩ := names_of_outline outline (keys.mpr ⟨n,keyed⟩)
    rw [single n (keyed_built keyed arranged)]
    exact spells.named

-- The key of the child without a name, behind that of a parent whose name is numbered.
theorem readers_agree_twins : twins.size ≤ twoTo 64 ∧ ∃ tree n inner,((ofTree twins).toTree.run 7).1 = .ok tree ∧
    Built (ofTree twins) "a\\.b" tree.root "a\\.b.x#1." n ∧ Keyed "a\\.b" twins.root "a\\.b.x#1." inner ∧
      n.name = "" ∧ inner.name = "" := by
  have fits : twins.size ≤ twoTo 64 := by decide
  obtain ⟨tree,later,run,_⟩ := toTree_of_outline (ofNode_outline fits) 7
  have read : ((ofTree twins).toTree.run 7).1 = .ok tree := congrArg Prod.fst run
  have listed : "a\\.b.x#1." ∈ (ofTree twins).names := by decide
  have spelled : Key.name "a\\.b.x#1." = .ok "" := by decide
  have top : (ofTree twins).rootKey = .ok "a\\.b" := by decide
  obtain ⟨accepted,written⟩ := readers_agree (ofTree twins) 7
  obtain ⟨root,first,each⟩ := accepted tree read
  cases first.symm.trans top
  obtain ⟨n,⟨built,_⟩,_,named,_⟩ := each _ listed
  obtain ⟨keys,names⟩ := written twins fits "a\\.b.x#1."
  obtain ⟨inner,keyed⟩ := keys.mp listed
  exact ⟨fits,tree,n,inner,read,built,keyed,(Except.ok.inj (spelled.symm.trans named)).symm,
    (Except.ok.inj (spelled.symm.trans (names inner keyed))).symm⟩

end Mapping
end SharedTree
