import SharedTree.Pattern.Reader
import SharedTree.Proofs.Path.Literal
import SharedTree.Proofs.Path.Understood

namespace SharedTree
namespace Path

variable {v w : List Char} {p : Predicate} {s : Scan} {f : OpenFilter} {mark : Char} {operand : Operand} {value : Value}
  {level : Level}

def Scan.taking (s : Scan) (f : OpenFilter) (w : List Char) : Scan := { s with filter := some { f with text := f.text ++ w } }

theorem Scan.taking_nil (reading : s.filter = some f) : s.taking f [] = s := by simp [taking,← reading]

theorem Scan.taking_append (s : Scan) (f : OpenFilter) (v w : List Char) :
    (s.taking f v).taking { f with text := f.text ++ v } w = s.taking f (v ++ w) := by simp [taking]

theorem quoted_run (quoted : f.quote = some mark) (absent : mark ∉ w) (reading : s.filter = some f) (position : Nat)
    (rest : List Char) : ∃ next,s.run position (w ++ rest) = (s.taking f w).run next rest := by
  induction w generalizing s f position with
  | nil =>
      rw [Scan.taking_nil reading]
      exact ⟨position,rfl⟩
  | cons c w ih =>
      obtain ⟨other,absent⟩ := not_or.mp (mt List.mem_cons.mpr absent)
      have step : s.inFilter f c = s.taking f [c] := by simp [Scan.inFilter,Scan.taking,quoted,Ne.symm other]
      obtain ⟨next,run⟩ := ih (s := s.taking f [c]) (f := { f with text := f.text ++ [c] }) quoted absent rfl
        (position + c.utf8Size)
      refine ⟨next,?_⟩
      rw [List.cons_append,Scan.run_reading reading,step,run,Scan.taking_append]
      rfl

def Enclosed (w : List Char) : Prop := ∀ (s : Scan) (f : OpenFilter) (position : Nat) (rest : List Char),
  s.filter = some f → f.quote = none → ∃ next,s.run position (w ++ rest) = (s.taking f w).run next rest

theorem enclosed_nil : Enclosed [] := by
  intro s f position rest reading unquoted
  rw [Scan.taking_nil reading]
  exact ⟨position,rfl⟩

theorem enclosed_append (first : Enclosed v) (second : Enclosed w) : Enclosed (v ++ w) := by
  intro s f position rest reading unquoted
  obtain ⟨middle,run⟩ := first s f position (w ++ rest) reading unquoted
  obtain ⟨next,more⟩ := second (s.taking f v) { f with text := f.text ++ v } middle rest rfl unquoted
  refine ⟨next,?_⟩
  rw [List.append_assoc,run,more,Scan.taking_append]

def brackets : List Char := ['\'','"','[',']']

theorem enclosed_single (usual : c ∉ brackets) : Enclosed [c] := by
  intro s f position rest reading unquoted
  simp only [brackets,List.mem_cons,List.not_mem_nil,or_false,not_or] at usual
  have step : s.inFilter f c = s.taking f [c] := by simp [Scan.inFilter,Scan.taking,unquoted,usual]
  refine ⟨position + c.utf8Size,?_⟩
  rw [← step]
  exact Scan.run_reading reading

theorem enclosed_usual (usual : ∀ c ∈ w,c ∉ brackets) : Enclosed w := by
  induction w with
  | nil => exact enclosed_nil
  | cons c w ih => exact enclosed_append (enclosed_single (usual c (.head _))) (ih fun d member => usual d (.tail _ member))

theorem enclosed_all {keeps : Char → Bool} (apart : (brackets.all fun c => !keeps c) = true) (all : ∀ c ∈ w,keeps c = true) :
    Enclosed w := by
  refine enclosed_usual fun c member special => ?_
  have other : keeps c = false := by simpa using List.all_eq_true.mp apart c special
  cases other.symm.trans (all c member)

theorem enclosed_blanks (blank : Blanks b) : Enclosed b := enclosed_all (by decide) blank

theorem enclosed_quoted (quote : mark = '\'' ∨ mark = '"') (absent : mark ∉ w) : Enclosed (mark :: w ++ [mark]) := by
  intro s f position rest reading unquoted
  let opened : OpenFilter := { f with text := f.text ++ [mark], quote := some mark }
  have first : s.inFilter f mark = { s with filter := some opened } := by simp [Scan.inFilter,unquoted,quote,opened]
  obtain ⟨middle,run⟩ := quoted_run (s := { s with filter := some opened }) (f := opened) rfl absent rfl
    (position + mark.utf8Size) (mark :: rest)
  let filled : OpenFilter := { opened with text := opened.text ++ w }
  have last : ({ s with filter := some filled } : Scan).inFilter filled mark = s.taking f (mark :: w ++ [mark]) := by
    simp [Scan.inFilter,Scan.taking,filled,opened,unquoted]
  refine ⟨middle + mark.utf8Size,?_⟩
  rw [← last,List.cons_append,List.cons_append,Scan.run_reading reading,first,List.append_assoc,List.singleton_append,run]
  exact Scan.run_reading rfl

theorem LiteralText.enclosed (text : LiteralText value w) : Enclosed w := by
  cases text with
  | null => exact enclosed_usual (by simp [brackets])
  | yes => exact enclosed_usual (by simp [brackets])
  | no => exact enclosed_usual (by simp [brackets])
  | natural spelled digits fits => exact enclosed_all (by decide) digits
  | negative spelled digits fits => exact enclosed_append (enclosed_single (by decide)) (enclosed_all (by decide) digits)
  | quoted quote absent => exact enclosed_quoted quote absent

theorem OperandText.enclosed (text : OperandText operand w) : Enclosed w := by
  cases text with
  | key spelled all =>
      have word := enclosed_all (by decide +kernel) all
      exact enclosed_append (enclosed_usual (w := ['@','.']) (by simp [brackets])) word
  | literal text => exact text.enclosed

theorem enclosed_between (first : Enclosed v) (before : Blanks b) (word : ∀ c ∈ sign,c ∉ brackets) (after : Blanks c)
    (second : Enclosed w) : Enclosed (v ++ b ++ sign ++ c ++ w) :=
  enclosed_append (enclosed_append (enclosed_append (enclosed_append first (enclosed_blanks before)) (enclosed_usual word))
    (enclosed_blanks after)) second

theorem enclosed_group (inner : Enclosed w) (before : Blanks b) (after : Blanks c) : Enclosed ('(' :: b ++ w ++ c ++ [')']) :=
  enclosed_append (enclosed_append (enclosed_append (enclosed_append (enclosed_single (by decide)) (enclosed_blanks before)) inner)
    (enclosed_blanks after)) (enclosed_single (by decide))

theorem PredicateText.enclosed (text : PredicateText level p w) : Enclosed w := by
  induction text with
  | truthy operand => exact operand.enclosed
  | @compare _ _ _ _ _ _ op first before after second =>
      exact enclosed_between first.enclosed before (by cases op <;> simp [brackets,Comparison.sign]) after second.enclosed
  | group inner before after ih => exact enclosed_group ih before after
  | term only ih => exact ih
  | and first before after apart second left right => exact enclosed_between left before (by simp [brackets]) after right
  | conjunction only ih => exact ih
  | or first before after apart second left right => exact enclosed_between left before (by simp [brackets]) after right

theorem trim_solid {first last : Char} (begins : Unicode.isBlank first = false) (ends : Unicode.isBlank last = false)
    (w : List Char) : trim (first :: w ++ [last]) = first :: w ++ [last] := by
  simp [trim,begins,ends]

theorem ofFilter_read (text : PredicateText .disjunction p w) (before : Blanks b) (after : Blanks c) :
    ofFilter ('?' :: ('(' :: b ++ w ++ c ++ [')'])) = .ok (.predicate p) := by
  have solid : trim ('?' :: ('(' :: b ++ w ++ c ++ [')'])) = '?' :: ('(' :: b ++ w ++ c ++ [')']) :=
    trim_solid (by decide) (by decide) ('(' :: b ++ w ++ c)
  unfold ofFilter
  simp only [solid,predicate_read text before after]

theorem filtered_run (plain : PlainName name) (inner : Enclosed w) :
    rawSegments (Position.escaped name ++ '[' :: w ++ [']']) = .ok [⟨0,name,false,[w]⟩] := by
  obtain ⟨middle,reached⟩ := plain_reached plain [] 0 0 ('[' :: w ++ [']'])
  have opened : Move ⟨⟨[],⟨0,name,false,[]⟩,[],none⟩,middle,'[' :: (w ++ [']'])⟩ _ := .openFilter rfl rfl
  obtain ⟨next,taken⟩ := inner ⟨[],⟨0,name,false,[]⟩,[],some ⟨middle,0,none,[]⟩⟩ ⟨middle,0,none,[]⟩ (middle + '['.utf8Size)
    [']'] rfl rfl
  rw [rawSegments,List.append_assoc]
  refine (reached.run_eq.trans opened.run_eq).trans (taken.trans ?_)
  rw [Scan.run_reading rfl]
  rfl

end Path

namespace PathExpr

def filtered (name text : List Char) : String :=
  String.ofList (Position.escaped name ++ '[' :: ('?' :: ('(' :: text ++ [')'])) ++ [']'])

theorem compile_filtered [Regex.Engine] (plain : PlainName name) (settings : Path.Settings) (p : Predicate) :
    ((∃ w,Path.PredicateText .disjunction p w) ↔ p.Writable) ∧
    ∀ w,Path.PredicateText .disjunction p w → ∀ b c,Path.Blanks b → Path.Blanks c →
      compileWith settings (filtered name (b ++ w ++ c)) =
        .ok ⟨filtered name (b ++ w ++ c),[.literal (String.ofList name),.predicate p]⟩ := by
  refine ⟨Path.predicate_text,?_⟩
  intro w text b c before after
  have enclosed : Path.Enclosed ('?' :: ('(' :: b ++ w ++ c ++ [')'])) :=
    Path.enclosed_append (Path.enclosed_single (by decide)) (Path.enclosed_group text.enclosed before after)
  have cut := Path.filtered_run plain enclosed
  have head : (⟨0,name,false,['?' :: ('(' :: b ++ w ++ c ++ [')'])]⟩ : Path.RawSegment).head settings =
      .ok (.literal (String.ofList name)) := Path.classify_literal.mpr ⟨rfl,plain.noGlob,plain.first.2⟩
  have filters : Path.filtersOf ['?' :: ('(' :: b ++ w ++ c ++ [')'])] = .ok [.predicate p] := by
    simp only [Path.filtersOf,Path.ofFilter_read text before after]
  have own := Path.segmentsOf_ok.mpr ⟨plain.spelled,_,_,head,filters,rfl⟩
  have nothing : Path.allSegments settings [] = .ok [] := rfl
  have made := Path.allSegments_cons.mpr ⟨_,_,own,nothing,rfl⟩
  refine compileWith_ok.mpr ⟨rfl,_,?_,made⟩
  rw [filtered,String.toList_ofList,← cut]
  simp only [List.cons_append,List.append_assoc]

-- Brackets and dots in a quoted text, and an `or` with an `and` on its right.
theorem compile_quoted : compile "x[?(@.a == '].[0' or @.b and @.c )]" =
    .ok ⟨"x[?(@.a == '].[0' or @.b and @.c )]",[.literal "x",.predicate (.or
      (.compare (.attribute "a") .equal (.literal (.string "].[0")))
      (.and (.truthy (.attribute "b")) (.truthy (.attribute "c"))))]⟩ := by
  have plain : PlainName ['x'] := ⟨by decide,by decide,by decide,by decide⟩
  have blank : Path.Blanks [' '] := Path.blanks_space
  have key : ∀ {c},Path.isKeyChar c = true → Path.OperandText (.attribute (String.ofList [c])) ['@','.',c] := fun word =>
    .key (by simp) (List.forall_mem_singleton.mpr word)
  have quoted : Path.LiteralText (.string (String.ofList [']','.','[','0'])) _ := .quoted (.inl rfl) (by decide)
  have compared : Path.PredicateText .term (.compare _ .equal _) _ :=
    .compare (key (c := 'a') (by decide +kernel)) blank blank (.literal quoted)
  have joined := Path.PredicateText.and (.term (.truthy (key (c := 'b') (by decide +kernel)))) blank blank (by simp)
    (.truthy (key (c := 'c') (by decide +kernel)))
  have text := Path.PredicateText.or (.conjunction (.term compared)) blank blank (by simp) joined
  exact (compile_filtered plain .default _).2 _ text [] [' '] Path.blanks_nil blank

end PathExpr
end SharedTree
