import SharedTree.Proofs.Path.Equality
import SharedTree.Proofs.Path.Filters
import SharedTree.Proofs.Path.Spelling

namespace SharedTree
namespace Path

variable {w x key v : List Char} {value : Value} {bare : Option String} {k : String} {operand : Operand}

def AllBlank (w : List Char) : Prop := ∀ c ∈ w,Unicode.isBlank c = true

theorem trim_split (w : List Char) : ∃ b c,w = b ++ trim w ++ c ∧ AllBlank b ∧ AllBlank c := by
  refine ⟨w.takeWhile Unicode.isBlank,(w.dropWhile Unicode.isBlank).rtakeWhile Unicode.isBlank,?_,?_,?_⟩
  · have back := List.rdropWhile_append_rtakeWhile (p := Unicode.isBlank) (l := w.dropWhile Unicode.isBlank)
    change trim w ++ _ = _ at back
    rw [List.append_assoc,back,List.takeWhile_append_dropWhile]
  · exact fun _ member => List.mem_takeWhile_imp member
  · exact fun _ member => List.mem_rtakeWhile_imp member

theorem trim_append (blank : AllBlank c) (w : List Char) : trim (w ++ c) = trim w := by
  have back : ∀ v : List Char,((v ++ c).reverse.dropWhile Unicode.isBlank).reverse = (v.reverse.dropWhile Unicode.isBlank).reverse := by
    intro v
    rw [List.reverse_append,List.dropWhile_append_of_pos fun d member => blank d (List.mem_reverse.mp member)]
  rw [trim,trim,List.dropWhile_append]
  split
  · rename_i nothing
    rw [List.isEmpty_iff] at nothing
    rw [nothing,List.dropWhile_eq_nil_iff.mpr blank]
  · exact back _

theorem ofFilter_equals (read : ofFilter w = .ok (.equals k value bare)) :
    ∃ key raw,trim w = key ++ '=' :: raw ∧ '=' ∉ key ∧ attributeValue (trim raw) = (value,bare) := by
  unfold ofFilter at read
  dsimp only at read
  split at read
  · split at read <;> cases read
  · split at read
    · rename_i key sign raw cut
      obtain ⟨whole,rfl,absent⟩ := until_taken cut
      split at read
      · cases read
      · cases read
        exact ⟨key,raw,whole,absent,rfl⟩
    · split at read <;> cases read

theorem ofFilter_predicate (read : ofFilter w = .ok (.predicate p)) : ∃ v,trim w = '?' :: v ∧ predicate v = .ok (p,[]) := by
  unfold ofFilter at read
  dsimp only at read
  split at read
  · rename_i v first
    split at read
    · rename_i q taken
      cases read
      exact ⟨v,first,taken⟩
    · cases read
    · cases read
  · split at read
    · split at read <;> cases read
    · split at read <;> cases read

theorem equality_unique (single : '=' ∉ key) (single' : '=' ∉ v) (same : key ++ '=' :: x = v ++ '=' :: w) : x = w := by
  have equal := (span_until single x).symm.trans ((congrArg _ same).trans (span_until single' w))
  exact (List.cons.inj (Prod.mk.inj equal).2).2

theorem equality_taken (single : '=' ∉ key) (read : ofFilter (key ++ '=' :: x) = .ok (.equals k value bare)) :
    attributeValue (trim x) = (value,bare) := by
  obtain ⟨front,raw,trimmed,single',taken⟩ := ofFilter_equals read
  obtain ⟨b,c,whole,before,after⟩ := trim_split (key ++ '=' :: x)
  rw [trimmed] at whole
  have absent : '=' ∉ b ++ front := by
    intro member
    rcases List.mem_append.mp member with blank | named
    · exact absurd (before '=' blank) (by decide)
    · exact single' named
  have same : x = raw ++ c := by
    apply equality_unique single absent
    rw [whole]
    simp only [List.append_assoc,List.cons_append]
  rw [same,trim_append after,taken]

theorem attributeValue_null : (attributeValue w).1 = .null ↔ LiteralSpelling .null w := by
  rw [← literal?_whole]
  unfold attributeValue
  split
  · rename_i value read
    rw [read]
    split <;> simp
  · rename_i other
    exact ⟨nofun,fun read => absurd read (other _)⟩

theorem operand_null (text : OperandSpelling operand w) : operand = .literal .null ↔ LiteralSpelling .null w := by
  constructor
  · rintro rfl
    cases text with
    | literal text => exact text
  · intro null_
    have read := literal?_read null_
    cases text with
    | key spelled word => cases read
    | literal text =>
        cases read.symm.trans (literal?_read text)
        rfl

end Path

theorem Segment.equals_null {attributes : Attributes} (held : attributes.get? k = some .null) :
    (Segment.equals k value bare).acceptsAttributes attributes = true ↔ value = .null := by
  rw [Segment.equals_accepts]
  constructor
  · rintro ⟨actual,same,agrees | ⟨spelled,_,other⟩⟩
    · cases held.symm.trans same
      cases value <;> simp_all [Value.agrees,Value.same]
    · cases held.symm.trans (other ▸ same)
  · rintro rfl
    exact ⟨.null,held,.inl rfl⟩

namespace PathExpr

variable {e : PathExpr} {head filter : Segment}

theorem ofFilter_pair [Regex.Engine] (named : BareName name) (compiled : compileWith settings (bracketed name w) = .ok e)
    (pair : e.segments = [head,filter]) : Path.ofFilter w = .ok filter := by
  obtain ⟨_,raws,cut,made⟩ := compileWith_ok.mp compiled
  obtain ⟨middle,started⟩ := Path.plain_reached named.toPlainName [] 0 0 ('[' :: (w ++ [']']))
  have opened : Path.Move ⟨⟨[],⟨0,name,false,[]⟩,[],none⟩,middle,'[' :: (w ++ [']'])⟩ _ := .openFilter rfl rfl
  rw [escaped_bare named.unescaped] at started
  rw [bracketed,String.toList_ofList,List.append_assoc] at cut
  have run := (started.run_eq.trans opened.run_eq).symm.trans cut
  obtain ⟨t,position,reached,finished⟩ := Path.reached_end run
  obtain ⟨free,_,rfl⟩ := Path.finish_ok finished
  have size := Path.allSegments_length made
  have turned : ((t.current :: t.done).reverse.flatMap Path.RawSegment.filters).length = t.texts.length := by
    simp only [Path.Scan.texts,List.length_flatMap,List.map_reverse,List.sum_reverse]
  have small : t.size ≤ 1 := by
    rw [pair,turned,List.length_reverse] at size
    simp only [List.length_cons,List.length_nil] at size
    simp only [Path.Scan.size,free,Option.isSome_none,Bool.false_eq_true,if_false]
    omega
  obtain ⟨v,same,last⟩ := Path.filter_end reached rfl free rfl small
  cases List.append_cancel_right same
  have ended : t = ⟨[],⟨0,name,false,[w]⟩,[],none⟩ := last
  subst ended
  obtain ⟨first,others,own,left,both⟩ := Path.allSegments_cons.mp made
  obtain ⟨_,_,filters,_,tests,rfl⟩ := Path.segmentsOf_ok.mp own
  cases left
  rw [pair,List.append_nil] at both
  have only := Path.filtersOf_each tests
  rw [← (List.cons.inj both).2] at only
  exact (List.cons.inj only).1

theorem compile_null [Regex.Engine] (settings : Path.Settings) :
    (∀ name key x,BareName name → '=' ∉ key → ∀ e head k value bare,
      compileWith settings (bracketed name (key ++ '=' :: x)) = .ok e → e.segments = [head,.equals k value bare] →
      ∀ attributes : Attributes,attributes.get? k = some .null →
        ((Segment.equals k value bare).acceptsAttributes attributes = true ↔
          Path.trim x = ['n','u','l','l'] ∨ ∃ n,Path.NumeralText n (Path.trim x) ∧ n.decimal.Beyond)) ∧
    (∀ source e p,compileWith settings source = .ok e → .predicate p ∈ e.segments →
      ∃ a w b v operands,source.toList = a ++ '[' :: w ++ ']' :: b ∧ Path.trim w = '?' :: v ∧
        Path.PredicateSpelling .term p operands v ∧ p.operands = operands.map Prod.fst ∧
        ∀ pair ∈ operands,Path.OperandSpelling pair.1 pair.2 ∧
          (pair.1 = .literal .null ↔ pair.2 = ['n','u','l','l'] ∨ ∃ n,Path.NumeralText n pair.2 ∧ n.decimal.Beyond)) := by
  constructor
  · intro name key x named single e head k value bare compiled pair attributes held
    have read := Path.equality_taken single (ofFilter_pair named compiled pair)
    rw [Segment.equals_null held,← Path.spelling_null,← Path.attributeValue_null,read]
  · intro source e p compiled member
    obtain ⟨_,raws,cut,made⟩ := compileWith_ok.mp compiled
    obtain ⟨raw,listed,w,held,read⟩ := Path.allSegments_filter made member rfl
    obtain ⟨a,b,within⟩ := Path.filter_within cut listed held
    obtain ⟨v,trimmed,taken⟩ := Path.ofFilter_predicate read
    obtain ⟨operands,u,same,text⟩ := Path.predicate_taken taken
    rw [List.append_nil] at same
    subst same
    refine ⟨a,w,b,v,operands,within,trimmed,text,text.operands_eq,fun pair member => ⟨text.each pair member,?_⟩⟩
    rw [Path.operand_null (text.each pair member),Path.spelling_null]

theorem compile_null_beyond : ∃ value bare,compile "n[k=1e999]" = .ok ⟨"n[k=1e999]",[.literal "n",.equals "k" value bare]⟩ ∧
    (Segment.equals "k" value bare).acceptsAttributes (Table.ofList [("k",.null)]) = true := by
  have named : BareName ['n'] := ⟨⟨by decide,by decide,by decide,by decide⟩,by simp⟩
  have keyed : Path.PlainKey ['k'] := ⟨by decide,by decide,by simp [Path.brackets],by decide,by decide⟩
  have usual : ∀ c ∈ ['1','e','9','9','9'],c ∉ Path.brackets := by simp [Path.brackets]
  have enclosed := Path.enclosed_equality keyed (Path.enclosed_usual usual)
  have made := compile_bracketed named .default enclosed (Path.ofFilter_equality keyed (by decide))
  have text : Path.NumeralText ⟨false,['1'],none,some (false,['9','9','9'])⟩ ['1','e','9','9','9'] :=
    .positive (w := []) ⟨by simp,by simp [Decimal.isDigit]⟩ .none (.bare (.inl rfl) ⟨by simp,by simp [Decimal.isDigit]⟩)
  obtain ⟨equals,_⟩ := compile_null .default
  refine ⟨_,_,made,(equals _ _ _ named (by decide) _ _ _ _ _ made rfl _ rfl).mpr (.inr ⟨_,text,?_⟩)⟩
  decide +kernel

end PathExpr
end SharedTree
