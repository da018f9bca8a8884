import SharedTree.Pattern.Reader
import SharedTree.Proofs.Path.Evaluate
import SharedTree.Proofs.Path.Moves
import SharedTree.Proofs.Path.Segments

namespace SharedTree
namespace Position

def names (p : Position) : List String := p.chain.map Node.name

def escaped (name : List Char) : List Char := name.flatMap fun c => if c = '\\' ∨ c = '.' then ['\\',c] else [c]

def written (names : List (List Char)) : List Char := List.intercalate ['.'] (names.map escaped)

theorem escaped_special (special : c = '\\' ∨ c = '.') (name : List Char) :
    escaped (c :: name) = '\\' :: c :: escaped name := by simp [escaped,special]

theorem escaped_usual (usual : ¬ (c = '\\' ∨ c = '.')) (name : List Char) :
    escaped (c :: name) = c :: escaped name := by simp [escaped,usual]

theorem written_single (name : List Char) : written [name] = escaped name := by simp [written]

theorem written_cons (name next : List Char) (names : List (List Char)) :
    written (name :: next :: names) = escaped name ++ '.' :: written (next :: names) := by
  simp [written,List.intercalate_cons_cons]

theorem path_written (p : Position) : p.path.toList = written (p.names.map String.toList) := by
  simp only [path,names,written,String.toList_intercalate,List.map_map]
  congr 1
  apply List.map_congr_left
  intro n _
  simp [escape,escaped]

def spelled : List Char → List (List Char)
  | [] => [[]]
  | '\\' :: c :: rest => (spelled rest).modifyHead (c :: ·)
  | c :: rest => if c = '.' then [] :: spelled rest else (spelled rest).modifyHead (c :: ·)

theorem spelled_escaped (name rest : List Char) : spelled (escaped name ++ rest) = (spelled rest).modifyHead (name ++ ·) := by
  induction name with
  | nil => cases read : spelled rest <;> simp [escaped,read]
  | cons c name ih =>
      by_cases special : c = '\\' ∨ c = '.'
      · rw [escaped_special special,List.cons_append,List.cons_append,spelled,ih]
        cases spelled rest <;> simp
      · rw [escaped_usual special,List.cons_append,spelled]
        · rw [if_neg (not_or.mp special).2,ih]
          cases spelled rest <;> simp
        · simp_all

theorem spelled_written (name : List Char) (names : List (List Char)) : spelled (written (name :: names)) = name :: names := by
  induction names generalizing name with
  | nil =>
      have read := spelled_escaped name []
      rw [written_single]
      simpa [spelled] using read
  | cons next names ih =>
      rw [written_cons,spelled_escaped]
      simp [spelled,ih]

theorem names_cons (p : Position) : ∃ name names,p.names = name :: names := by
  cases named : p.names with
  | nil => simp [names,chain] at named
  | cons name names => exact ⟨name,names,rfl⟩

theorem path_eq_iff {p q : Position} : p.path = q.path ↔ p.names = q.names := by
  have reads : ∀ r : Position,spelled r.path.toList = r.names.map String.toList := by
    intro r
    obtain ⟨name,names,named⟩ := r.names_cons
    rw [path_written,named]
    exact spelled_written _ _
  constructor
  · intro same
    have equal := (reads p).symm.trans ((congrArg (fun path => spelled path.toList) same).trans (reads q))
    exact List.map_injective_iff.mpr (fun _ _ => String.toList_inj.mp) equal
  · intro same
    apply String.toList_inj.mp
    rw [path_written,path_written,same]

end Position

structure PlainName (name : List Char) : Prop where
  spelled : name ≠ []
  noGlob : '*' ∉ name
  noFilter : '[' ∉ name ∧ ']' ∉ name
  first : name.head? ≠ some '~' ∧ name.head? ≠ some '%'

namespace Path

def RawSegment.Usual (raw : RawSegment) : Prop :=
  raw.regex = false → ('[' ∉ raw.name ∧ ']' ∉ raw.name) ∧ raw.name.head? ≠ some '~'

structure Scan.Usual (s : Scan) : Prop where
  current : s.current.Usual
  done : ∀ raw ∈ s.done,raw.Usual

theorem usual_fresh (position : Nat) : (RawSegment.fresh position).Usual := by simp [RawSegment.Usual,RawSegment.fresh]

theorem usual_classes {s : Scan} (usual : s.Usual) (opens : List Nat) : Scan.Usual { s with classes := opens } :=
  ⟨usual.current,usual.done⟩

theorem usual_regex {s : Scan} (usual : s.Usual) (regex : s.current.regex = true) (added : List Char) :
    (s.add added).Usual := by
  refine ⟨?_,usual.done⟩
  intro plain
  cases regex.symm.trans plain

theorem usual_add {s : Scan} (usual : s.Usual) (c : Char) (outside : c ≠ '[' ∧ c ≠ ']')
    (begun : s.current.regex = false → c = '~' → s.current.name ≠ []) : (s.add [c]).Usual := by
  refine ⟨?_,usual.done⟩
  intro plain
  obtain ⟨noFilter,first⟩ := usual.current plain
  refine ⟨by simp [Scan.add,noFilter,outside.1.symm,outside.2.symm],?_⟩
  cases name : s.current.name with
  | nil =>
      have other : c ≠ '~' := fun tilde => begun plain tilde name
      simp [Scan.add,name,other]
  | cons d rest =>
      rw [name] at first
      simpa [Scan.add,name] using first

theorem Move.usual {m n : Place} (step : Move m n) (usual : m.scan.Usual) : n.scan.Usual := by
  cases step with
  | reading started =>
      obtain ⟨done,_,name,regex⟩ := inFilter_rest _ _ _
      refine ⟨?_,?_⟩
      · unfold RawSegment.Usual
        rw [name,regex]
        exact usual.current
      · rw [done]
        exact usual.done
  | escape free bare plain known =>
      apply usual_add usual
      · rcases known with rfl | rfl <;> decide
      · rintro _ rfl
        simp at known
  | wildcard free bare regex => exact usual_regex usual regex _
  | kept free bare regex other => exact usual_regex usual regex _
  | regex free blank => exact ⟨fun plain => Bool.noConfusion plain,usual.done⟩
  | classDot free bare within => exact usual_add usual _ (by decide) (by simp)
  | point free bare outside decimal => exact usual_add usual _ (by decide) (by simp)
  | separator free outside ends =>
      refine ⟨usual_fresh _,?_⟩
      intro raw member
      rcases List.mem_cons.mp member with rfl | before
      · exact usual.current
      · exact usual.done raw before
  | openClass free bare regex =>
      apply usual_regex
      · exact usual_classes usual _
      · exact regex
  | closeClass free bare regex within =>
      apply usual_regex
      · exact usual_classes usual _
      · exact regex
  | openFilter free plain => exact ⟨usual.current,usual.done⟩
  | other free bare other begun =>
      simp only [List.mem_cons,List.not_mem_nil,not_or] at other
      apply usual_add usual _ ⟨other.2.2.1,other.2.2.2.1⟩
      intro plain tilde name
      have blank := begun tilde
      dsimp only at plain name
      simp [RawSegment.isBlank,name,plain,bare] at blank

theorem Reached.usual {m n : Place} (reached : Reached m n) (usual : m.scan.Usual) : n.scan.Usual := by
  induction reached with
  | stay => exact usual
  | move step _ ih => exact ih (step.usual usual)

theorem rawSegments_usual (cut : rawSegments text = .ok raws) : ∀ raw ∈ raws,raw.Usual := by
  obtain ⟨t,position,reached,finished⟩ := reached_end (m := ⟨.start,0,text⟩) cut
  have usual : t.Usual := reached.usual ⟨usual_fresh 0,by simp [Scan.start]⟩
  obtain ⟨_,_,rfl⟩ := finish_ok finished
  intro raw member
  rcases List.mem_cons.mp (List.mem_reverse.mp member) with rfl | before
  · exact usual.current
  · exact usual.done raw before

theorem classify_literal : classify settings start name = .ok (.literal text) ↔
    text = String.ofList name ∧ '*' ∉ name ∧ name.head? ≠ some '%' := by
  constructor
  · intro read
    unfold classify at read
    split at read
    · cases read
    · cases read
    · obtain ⟨_,_,other,_⟩ := fuzzy_ok read
      cases other
    · rename_i one deep percent
      split at read
      · cases read
      · rename_i noGlob
        cases read
        refine ⟨rfl,by simpa using noGlob,?_⟩
        intro first
        cases name with
        | nil => cases first
        | cons c body =>
            cases first
            exact percent body rfl
  · intro given
    obtain ⟨rfl,noGlob,first⟩ := given
    unfold classify
    split
    · simp at noGlob
    · simp at noGlob
    · simp at first
    · simp [noGlob]

theorem segmentsOf_plain [Regex.Engine] (usual : RawSegment.Usual raw) (compiled : segmentsOf settings raw = .ok segments)
    (member : .literal text ∈ segments) : PlainName text.toList := by
  obtain ⟨spelled,head,filters,read,tests,rfl⟩ := segmentsOf_ok.mp compiled
  rcases List.mem_cons.mp member with rfl | filter
  · unfold RawSegment.head at read
    split at read
    · obtain ⟨_,other⟩ := regexOf_ok read
      cases other
    · rename_i plain
      obtain ⟨rfl,noGlob,first⟩ := classify_literal.mp read
      obtain ⟨noFilter,tilde⟩ := usual (by simpa using plain)
      rw [String.toList_ofList]
      exact ⟨spelled,noGlob,noFilter,tilde,first⟩
  · cases filtersOf_isFilter tests _ filter

theorem allSegments_plain [Regex.Engine] (usual : ∀ raw ∈ raws,raw.Usual) (compiled : allSegments settings raws = .ok segments)
    (member : .literal text ∈ segments) : PlainName text.toList := by
  induction raws generalizing segments with
  | nil =>
      cases compiled
      cases member
  | cons raw raws ih =>
      obtain ⟨first,others,own,left,rfl⟩ := allSegments_cons.mp compiled
      rcases List.mem_append.mp member with here | later
      · exact segmentsOf_plain (usual raw List.mem_cons_self) own here
      · exact ih (fun raw inside => usual raw (List.mem_cons_of_mem _ inside)) left later

theorem escaped_reached {s : Scan} (free : s.filter = none) (plain : s.current.regex = false) (bare : s.current.filters = [])
    (noFilter : '[' ∉ name ∧ ']' ∉ name) (begun : name.head? = some '~' → s.current.name ≠ [])
    (position : Nat) (rest : List Char) :
    ∃ next,Reached ⟨s,position,Position.escaped name ++ rest⟩ ⟨s.add name,next,rest⟩ := by
  induction name generalizing s position with
  | nil =>
      have same : s.add [] = s := by simp [Scan.add]
      rw [same]
      exact ⟨position,.stay⟩
  | cons c name ih =>
      have further : (s.add [c]).add name = s.add (c :: name) := by simp [Scan.add]
      have left : '[' ∉ name ∧ ']' ∉ name := by
        simp only [List.mem_cons,not_or] at noFilter
        exact ⟨noFilter.1.2,noFilter.2.2⟩
      have named : name.head? = some '~' → (s.add [c]).current.name ≠ [] := by simp [Scan.add]
      have go := ih (s := s.add [c]) free plain bare left named
      rw [further] at go
      by_cases special : c = '\\' ∨ c = '.'
      · obtain ⟨next,reached⟩ := go (position + '\\'.utf8Size + c.utf8Size)
        rw [Position.escaped_special special]
        exact ⟨next,.move (.escape free bare plain special.symm) reached⟩
      · obtain ⟨next,reached⟩ := go (position + c.utf8Size)
        rw [Position.escaped_usual special]
        refine ⟨next,.move (.other free bare ?_ ?_) reached⟩
        · simp only [List.mem_cons,not_or] at noFilter
          simp [not_or.mp special,Ne.symm noFilter.1.1,Ne.symm noFilter.2.1]
        · intro tilde
          have spelled := begun (by simp [tilde])
          simp [RawSegment.isBlank,spelled]

def RawSegment.ofName (name : List Char) : RawSegment := ⟨0,name,false,[]⟩

theorem atPoint_plain {s : Scan} (first : s.current.name.head? ≠ some '%') (rest : List Char) : s.atPoint rest = false := by
  simp [Scan.atPoint,RawSegment.inThreshold,first]

theorem plain_reached (plain : PlainName name) (done : List RawSegment) (start position : Nat) (rest : List Char) :
    ∃ next,Reached ⟨⟨done,.fresh start,[],none⟩,position,Position.escaped name ++ rest⟩
      ⟨⟨done,⟨start,name,false,[]⟩,[],none⟩,next,rest⟩ := by
  apply escaped_reached (s := ⟨done,.fresh start,[],none⟩) rfl rfl rfl plain.noFilter
  intro tilde
  exact absurd tilde plain.first.1

theorem written_run (name : List Char) (names : List (List Char)) (plain : ∀ n ∈ name :: names,PlainName n)
    (done : List RawSegment) (start position : Nat) :
    ∃ raws,Scan.run ⟨done,.fresh start,[],none⟩ position (Position.written (name :: names)) = .ok (done.reverse ++ raws) ∧
      raws.map RawSegment.unplaced = (name :: names).map .ofName := by
  have here := plain name List.mem_cons_self
  induction names generalizing name done start position with
  | nil =>
      obtain ⟨next,reached⟩ := plain_reached here done start position []
      rw [List.append_nil] at reached
      rw [Position.written_single]
      refine ⟨[⟨start,name,false,[]⟩],reached.run_eq.trans ?_,rfl⟩
      simp [Place.run,Scan.run,Scan.finish]
  | cons following names ih =>
      obtain ⟨next,reached⟩ := plain_reached here done start position ('.' :: Position.written (following :: names))
      have step : Move ⟨⟨done,⟨start,name,false,[]⟩,[],none⟩,next,'.' :: Position.written (following :: names)⟩ _ :=
        .separator rfl rfl (atPoint_plain here.first.2 _)
      have others : ∀ n ∈ following :: names,PlainName n := fun n member => plain n (List.mem_cons_of_mem _ member)
      obtain ⟨raws,run,same⟩ := ih following others (⟨start,name,false,[]⟩ :: done) (next + 1) (next + '.'.utf8Size)
        (others following List.mem_cons_self)
      rw [Position.written_cons]
      refine ⟨⟨start,name,false,[]⟩ :: raws,(reached.run_eq.trans step.run_eq).trans (run.trans ?_),?_⟩
      · simp
      · rw [List.map_cons,same]
        rfl

theorem allSegments_names [Regex.Engine] (settings : Settings) {names : List String} (plain : ∀ name ∈ names,PlainName name.toList) :
    allSegments settings (names.map fun name => .ofName name.toList) = .ok (names.map .literal) := by
  induction names with
  | nil => rfl
  | cons name names ih =>
      have here := plain name List.mem_cons_self
      have head : (RawSegment.ofName name.toList).head settings = .ok (.literal name) :=
        classify_literal.mpr ⟨String.ofList_toList.symm,here.noGlob,here.first.2⟩
      have own := segmentsOf_ok.mpr ⟨here.spelled,_,_,head,rfl,rfl⟩
      exact allSegments_cons.mpr ⟨_,_,own,ih fun n member => plain n (List.mem_cons_of_mem _ member),rfl⟩

end Path

namespace PathExpr

theorem compile_path [Regex.Engine] (settings : Path.Settings) (p : Position) :
    (∃ e,compileWith settings p.path = .ok e ∧ e.segments = p.names.map .literal) ↔
      ∀ name ∈ p.names,PlainName name.toList := by
  constructor
  · intro given name member
    obtain ⟨e,compiled,segments⟩ := given
    obtain ⟨_,raws,cut,made⟩ := compileWith_ok.mp compiled
    apply Path.allSegments_plain (Path.rawSegments_usual cut) made
    rw [segments]
    exact List.mem_map_of_mem member
  · intro plain
    obtain ⟨name,names,named⟩ := p.names_cons
    have spelled : ∀ n ∈ name.toList :: names.map String.toList,PlainName n := by
      rw [named] at plain
      simpa using plain
    obtain ⟨raws,run,same⟩ := Path.written_run name.toList (names.map String.toList) spelled [] 0 0
    have cut : Path.rawSegments p.path.toList = .ok raws := by
      rw [Position.path_written,named]
      exact run
    have again : (p.names.map fun name => Path.RawSegment.ofName name.toList).map Path.RawSegment.unplaced =
        raws.map Path.RawSegment.unplaced := by
      rw [same,named,List.map_map]
      simp [Path.RawSegment.ofName,Path.RawSegment.unplaced]
    have made := Path.allSegments_unplaced again (Path.allSegments_names settings plain)
    exact ⟨⟨p.path,p.names.map .literal⟩,compileWith_ok.mpr ⟨rfl,raws,cut,made⟩,rfl⟩

end PathExpr

namespace Path

theorem reads_literals {names : List String} :
    Reads (names.map .literal) current chain ↔ chain.map Node.name = names := by
  induction names generalizing current chain with
  | nil => simp [Reads]
  | cons name names ih =>
      rw [List.map_cons,reads_step rfl]
      constructor
      · intro given
        obtain ⟨n,left,rfl,accepted,reads⟩ := given
        have equal : name = n.name := by simpa [Segment.acceptsName] using accepted
        rw [List.map_cons,equal,ih.mp reads]
      · intro spelled
        cases chain with
        | nil => cases spelled
        | cons n left =>
            obtain ⟨here,others⟩ := List.cons.inj spelled
            exact ⟨n,left,rfl,by simp [Segment.acceptsName,here],ih.mpr others⟩

end Path

namespace PathExpr

theorem literal_selects {e : PathExpr} (segments : e.segments = names.map .literal) (q : Position) :
    e.selects q = decide (q.names = names) := by
  have reads : e.selects q = true ↔ q.names = names := by
    have accepts := Path.accepts_exact e q.chain
    rwa [segments,Path.reads_literals] at accepts
  rw [Bool.eq_iff_iff,decide_eq_true_iff]
  exact reads

theorem literal_evaluate {e : PathExpr} (segments : e.segments = names.map .literal) (tree : Tree) :
    e.evaluate tree.top = tree.top.preorder.filter fun q => q.names = names := by
  rw [evaluate_root e rfl]
  apply List.filter_congr
  intro q _
  exact literal_selects segments q

end PathExpr

namespace Position

def Single (parent n : Node) : Prop := (parent.children.map Node.name).count n.name ≤ 1

def Unrivalled (p : Position) : Prop := p.chain.IsChain Single

theorem flatMap_named {children : List Node} {f : Node → List β} (member : child ∈ children)
    (once : (children.map Node.name).count child.name ≤ 1) (others : ∀ n ∈ children,n.name ≠ child.name → f n = []) :
    children.flatMap f = f child := by
  induction children with
  | nil => cases member
  | cons first rest ih =>
      rw [List.map_cons,List.count_cons] at once
      rw [List.flatMap_cons]
      rcases List.mem_cons.mp member with rfl | inside
      · have absent : child.name ∉ rest.map Node.name := List.count_eq_zero.mp (by simpa using once)
        have nothing : rest.flatMap f = [] := by
          refine List.flatMap_eq_nil_iff.mpr fun n later => others n (List.mem_cons_of_mem _ later) ?_
          intro same
          exact absent (same ▸ List.mem_map_of_mem later)
        rw [nothing,List.append_nil]
      · have present : 0 < (rest.map Node.name).count child.name := List.count_pos_iff.mpr (List.mem_map_of_mem inside)
        have other : first.name ≠ child.name := by
          intro same
          simp [same] at once
          omega
        rw [others first List.mem_cons_self other,List.nil_append]
        exact ih inside (by omega) fun n later => others n (List.mem_cons_of_mem _ later)

def namesFrom (start q : Position) : List String := (start.chainFrom q).map Node.name

theorem namesFrom_self (p : Position) : p.namesFrom p = [p.name] := by simp [namesFrom,chainFrom_self,name]

theorem namesFrom_under {p q : Position} (below : q ∈ (p.under child).preorder) :
    p.namesFrom q = p.name :: (p.under child).namesFrom q := by
  simp [namesFrom,chainFrom_under below,name]

theorem namesFrom_first {start q : Position} (below : q ∈ start.preorder) : ∃ names,start.namesFrom q = start.name :: names := by
  obtain ⟨path,found⟩ := mem_preorder.mp below
  rw [namesFrom,chainFrom_at? found]
  cases path <;> exact ⟨_,rfl⟩

theorem filter_names (start : Position) (wanted : List String) :
    (start.preorder.filter fun q => start.namesFrom q = wanted) =
      (if wanted = [start.name] then [start] else []) ++ start.node.children.flatMap fun n =>
        (start.under n).preorder.filter fun q => start.name :: (start.under n).namesFrom q = wanted := by
  rw [preorder_eq,List.filter_cons,namesFrom_self,children,List.flatMap_map,List.filter_flatMap]
  have below : (start.node.children.flatMap fun n => (start.under n).preorder.filter fun q => start.namesFrom q = wanted) =
      start.node.children.flatMap fun n =>
        (start.under n).preorder.filter fun q => start.name :: (start.under n).namesFrom q = wanted := by
    refine List.flatMap_congr fun n _ => List.filter_congr fun q inside => ?_
    rw [namesFrom_under inside]
  rw [below]
  by_cases own : wanted = [start.name]
  · simp [own]
  · simp [own,eq_comm]

theorem unrivalled_cons {start p : Position} (below : p ∈ (start.under child).preorder)
    (unrivalled : (start.node :: (start.under child).chainFrom p).IsChain Single) :
    Single start.node child ∧ ((start.under child).chainFrom p).IsChain Single := by
  obtain ⟨path,found⟩ := mem_preorder.mp below
  rw [chainFrom_at? found] at unrivalled ⊢
  cases path <;> exact List.isChain_cons_cons.mp unrivalled

theorem alone_below {start p : Position} {path : List Nat} (found : start.at? path = some p)
    (unrivalled : (start.chainFrom p).IsChain Single) :
    (start.preorder.filter fun q => start.namesFrom q = start.namesFrom p) = [p] := by
  induction path generalizing start with
  | nil =>
      have same : start = p := Option.some.inj found
      subst same
      have nothing : (start.node.children.flatMap fun n =>
          (start.under n).preorder.filter fun q => start.name :: (start.under n).namesFrom q = [start.name]) = [] := by
        refine List.flatMap_eq_nil_iff.mpr fun n _ => List.filter_eq_nil_iff.mpr fun q inside => ?_
        obtain ⟨names,first⟩ := namesFrom_first inside
        simp [first]
      rw [filter_names,namesFrom_self,if_pos rfl,nothing]
      rfl
  | cons index path ih =>
      cases here : start.node.child? index with
      | none => simp [at?,here] at found
      | some child =>
          rw [at?_child here] at found
          have below : p ∈ (start.under child).preorder := mem_preorder.mpr ⟨path,found⟩
          obtain ⟨names,first⟩ := namesFrom_first below
          have apart : start.name :: (start.under child).namesFrom p ≠ [start.name] := by simp [first]
          have member : child ∈ start.node.children := List.mem_of_getElem? here
          rw [chainFrom_under below] at unrivalled
          obtain ⟨once,unrivalled⟩ := unrivalled_cons below unrivalled
          rw [filter_names,namesFrom_under below,if_neg apart,List.nil_append,flatMap_named member once]
          · simpa using ih found unrivalled
          · intro n _ other
            refine List.filter_eq_nil_iff.mpr fun q inside => ?_
            obtain ⟨names',first'⟩ := namesFrom_first inside
            have differ : (start.under n).name ≠ (start.under child).name := other
            simp [first,first',differ]

theorem alone {tree : Tree} {p : Position} (here : p ∈ tree.top.preorder) (unrivalled : p.Unrivalled) :
    (tree.top.preorder.filter fun q => q.names = p.names) = [p] := by
  obtain ⟨path,found⟩ := mem_preorder.mp here
  have whole : ∀ q,tree.top.namesFrom q = q.names := by
    intro q
    rw [namesFrom,chainFrom_root rfl,names]
  have root : (tree.top.chainFrom p).IsChain Single := by
    rw [chainFrom_root rfl]
    exact unrivalled
  have single := alone_below found root
  simpa [whole] using single

end Position

-- Paths are equal for equal names only, they are expressions of these names
-- exactly if all of them are plain, and then they lead back to the nodes.
theorem Position.path_exact [Regex.Engine] (settings : Path.Settings) (tree : Tree) {p : Position} (here : p ∈ tree.top.preorder) :
    (∀ q ∈ tree.top.preorder,p.path = q.path ↔ p.names = q.names) ∧
    ((∃ e,PathExpr.compileWith settings p.path = .ok e ∧ e.segments = p.names.map .literal) ↔
      ∀ name ∈ p.names,PlainName name.toList) ∧
    ((∀ name ∈ p.names,PlainName name.toList) → ∃ e,PathExpr.compileWith settings p.path = .ok e ∧
      (e.evaluate tree.top = tree.top.preorder.filter fun q => q.names = p.names) ∧
      (p.Unrivalled → e.evaluate tree.top = [p])) := by
  have compiles := PathExpr.compile_path settings p
  refine ⟨fun _ _ => path_eq_iff,compiles,?_⟩
  intro plain
  obtain ⟨e,compiled,segments⟩ := compiles.mpr plain
  have found := PathExpr.literal_evaluate segments tree
  refine ⟨e,compiled,found,?_⟩
  intro unrivalled
  rw [found]
  exact alone here unrivalled

-- A child whose name has a dot, and a child and grandchild that are called by its parts.
def Tree.dotted : Tree := ⟨.mk 0 "app" .empty [.mk 1 "a.b" .empty [],.mk 2 "a" .empty [.mk 3 "b" .empty []]],rfl⟩

theorem Position.path_dotted : ∃ p ∈ Tree.dotted.top.preorder,p.path = "app.a\\.b" ∧
    (∀ name ∈ p.names,PlainName name.toList) ∧ p.Unrivalled ∧
    ∃ e,PathExpr.compileWith .default p.path = .ok e ∧ e.evaluate Tree.dotted.top = [p] := by
  have here : ⟨.mk 1 "a.b" .empty [],[Tree.dotted.root]⟩ ∈ Tree.dotted.top.preorder := mem_preorder.mpr ⟨[0],rfl⟩
  have plain : ∀ name ∈ ["app","a.b"],PlainName name.toList := by
    intro name member
    rcases List.mem_cons.mp member with rfl | member
    · exact ⟨by decide,by decide,by decide,by decide⟩
    · cases List.mem_singleton.mp member
      exact ⟨by decide,by decide,by decide,by decide⟩
  have unrivalled : (⟨.mk 1 "a.b" .empty [],[Tree.dotted.root]⟩ : Position).Unrivalled := by
    simp [Unrivalled,chain,Single,Tree.dotted]
  obtain ⟨e,compiled,_,found⟩ := (path_exact .default Tree.dotted here).2.2 plain
  exact ⟨_,here,by decide,plain,unrivalled,e,compiled,found unrivalled⟩

end SharedTree
