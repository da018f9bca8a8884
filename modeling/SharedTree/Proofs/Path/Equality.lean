import SharedTree.Proofs.Path.Filtered
import SharedTree.Proofs.Path.Numeral
import SharedTree.Proofs.Value.Comparison

namespace SharedTree

-- The values that a bare text can be compared with for certain.
def Value.Discrete : Value → Prop
  | .null | .bool _ | .string _ | .number (.int _) => True
  | .number (.float _) | .array _ | .object _ => False

namespace Path

structure PlainKey (key : List Char) : Prop where
  spelled : key ≠ []
  trimmed : trim key = key
  usual : ∀ c ∈ key,c ∉ brackets
  single : '=' ∉ key
  first : key.head? ≠ some '?'

-- The words, and the whole numbers that binary numbers keep apart from all others.
inductive Constant : Value → List Char → Prop
  | null : Constant .null ['n','u','l','l']
  | yes : Constant (.bool true) ['t','r','u','e']
  | no : Constant (.bool false) ['f','a','l','s','e']
  | natural (digits : Digits w) (small : Decimal.value 0 w < twoTo 53) : Constant (.int (Decimal.value 0 w)) w
  | negative (digits : Digits w) (small : Decimal.value 0 w < twoTo 53) :
      Constant (.int (-(Decimal.value 0 w : Int))) ('-' :: w)

variable {name key raw w : List Char} {value actual : Value} {mark : Char} {n : Int} {text : String}

theorem trim_eq : trim w = w ↔ (∀ c ∈ w.head?,Unicode.isBlank c = false) ∧ ∀ c ∈ w.getLast?,Unicode.isBlank c = false := by
  have front : w.dropWhile Unicode.isBlank = w ↔ ∀ c ∈ w.head?,Unicode.isBlank c = false := by
    cases w with
    | nil => simp
    | cons c w =>
        cases blank : Unicode.isBlank c with
        | false => simp [blank]
        | true =>
            have shorter := (List.dropWhile_suffix (l := w) Unicode.isBlank).length_le
            have other : w.dropWhile Unicode.isBlank ≠ c :: w := fun same => by simp [same] at shorter
            simp [blank,other]
  constructor
  · intro trimmed
    have whole : w.dropWhile Unicode.isBlank = w := by
      have shorter := (List.rdropWhile_prefix Unicode.isBlank (w.dropWhile Unicode.isBlank)).length_le
      change (trim w).length ≤ _ at shorter
      rw [trimmed] at shorter
      exact (List.dropWhile_suffix _).eq_of_length_le shorter
    refine ⟨front.mp whole,?_⟩
    rw [trim,whole] at trimmed
    have ends := List.rdropWhile_eq_self_iff.mp trimmed
    intro c last
    obtain ⟨spelled,rfl⟩ := List.mem_getLast?_eq_getLast last
    simpa using ends spelled
  · rintro ⟨begins,ends⟩
    rw [trim,front.mpr begins]
    refine List.rdropWhile_eq_self_iff.mpr fun spelled => ?_
    simpa using ends _ (List.getLast?_eq_some_getLast spelled)

theorem PlainKey.trim_equality (plain : PlainKey key) (trimmed : trim raw = raw) : trim (key ++ '=' :: raw) = key ++ '=' :: raw := by
  obtain ⟨begins,_⟩ := trim_eq.mp plain.trimmed
  obtain ⟨_,ends⟩ := trim_eq.mp trimmed
  refine trim_eq.mpr ⟨?_,?_⟩
  · rwa [List.head?_append_of_ne_nil _ plain.spelled]
  · cases raw with
    | nil => simp [show Unicode.isBlank '=' = false by decide]
    | cons c raw => simpa [List.getLast?_append] using ends

theorem ofFilter_equality (plain : PlainKey key) (trimmed : trim raw = raw) :
    ofFilter (key ++ '=' :: raw) = .ok (.equals (String.ofList key) (attributeValue raw).1 (attributeValue raw).2) := by
  have whole := plain.trim_equality trimmed
  have cut := span_until plain.single raw
  obtain ⟨c,rest,rfl⟩ := List.exists_cons_of_ne_nil plain.spelled
  unfold ofFilter
  simp only [whole]
  split
  · rename_i tail same
    exact absurd (congrArg some (List.cons.inj same).1) plain.first
  · simp only [cut,plain.trimmed,trimmed]
    rfl

theorem attributeValue_spelled (usual : ∀ c ∈ w,c ∉ brackets) (spelling : LiteralSpelling value w) :
    attributeValue w = (value,some (String.ofList w)) := by
  have unquoted : (w.head?.any fun c => c == '\'' || c == '"') = false := by
    cases w with
    | nil => rfl
    | cons c rest =>
        have other := usual c (.head _)
        simp only [brackets,List.mem_cons,not_or] at other
        simp [other]
  simp only [attributeValue,literal?_read spelling,unquoted]
  rfl

theorem attributeValue_text (foreign : ∀ value,¬ LiteralSpelling value w) :
    attributeValue w = (.string (String.ofList w),none) := by
  unfold attributeValue
  split
  · rename_i value read
    exact absurd (literal?_whole.mp read) (foreign value)
  · rfl

theorem attributeValue_quoted (quote : mark = '\'' ∨ mark = '"') (absent : mark ∉ w) :
    attributeValue (mark :: w ++ [mark]) = (.string (String.ofList w),none) := by
  have quoted : (mark == '\'' || mark == '"') = true := by simpa using quote
  have read := literal?_read (.quoted quote absent)
  rw [List.cons_append] at read ⊢
  simp only [attributeValue,read,List.head?_cons,Option.any_some,quoted]
  rfl

theorem Constant.spelling (constant : Constant value w) : LiteralSpelling value w := by
  have below : twoTo 53 < twoTo 63 := by decide
  cases constant with
  | null => exact .null
  | yes => exact .yes
  | no => exact .no
  | natural digits small => exact (LiteralText.natural digits.1 digits.2 (by omega)).spelling
  | negative digits small => exact (LiteralText.negative digits.1 digits.2 (by omega)).spelling

theorem Constant.unique (first : Constant value w) (second : Constant actual w) : value = actual := by
  have same := (literal?_read first.spelling).symm.trans (literal?_read second.spelling)
  cases same
  rfl

theorem foreign_text (usual : ∀ c ∈ w,c ∉ brackets) (unlisted : ∀ value,¬ Constant value w) (unnumbered : ∀ n,¬ NumeralText n w)
    (value : Value) : ¬ LiteralSpelling value w := by
  intro spelling
  cases spelling with
  | null => exact unlisted _ .null
  | yes => exact unlisted _ .yes
  | no => exact unlisted _ .no
  | numeral text => exact unnumbered _ text
  | @quoted mark w quote absent =>
      refine usual mark (.head _) ?_
      rcases quote with rfl | rfl <;> simp [brackets]

theorem agrees_string : actual.agrees (.string text) = true ↔ actual = .string text := by
  cases actual <;> simp [Value.agrees,Value.same]

theorem agrees_small (small : n.natAbs < twoTo 53) (discrete : actual.Discrete) : actual.agrees (.int n) = true ↔ actual = .int n := by
  match actual,discrete with
  | .null,_ => simp [Value.agrees,Value.same,Value.int]
  | .bool _,_ => simp [Value.agrees,Value.same,Value.int]
  | .string _,_ => simp [Value.agrees,Value.same,Value.int]
  | .number (.int m),_ =>
      have same := Value.agrees_int m n
      refine same.trans ⟨fun rounded => ?_,fun equal => ?_⟩
      · rw [Comparison.apart_of_small (.inr small) rounded]
        rfl
      · cases equal
        rfl

theorem Constant.agrees (constant : Constant value w) (discrete : actual.Discrete) : actual.agrees value = true ↔ actual = value := by
  cases constant with
  | null => cases actual <;> simp [Value.agrees,Value.same]
  | yes => cases actual <;> simp [Value.agrees,Value.same]
  | no => cases actual <;> simp [Value.agrees,Value.same]
  | natural digits small => exact agrees_small (by omega) discrete
  | negative digits small => exact agrees_small (by omega) discrete

end Path

structure BareName (name : List Char) : Prop extends PlainName name where
  unescaped : ∀ c ∈ name,c ≠ '\\' ∧ c ≠ '.'

theorem escaped_bare (unescaped : ∀ c ∈ name,c ≠ '\\' ∧ c ≠ '.') : Position.escaped name = name := by
  induction name with
  | nil => rfl
  | cons c name ih =>
      rw [Position.escaped_usual (not_or.mpr (unescaped c (.head _))),ih fun d member => unescaped d (.tail _ member)]

namespace PathExpr

variable {filter : Segment}

def bracketed (name text : List Char) : String := String.ofList (name ++ '[' :: text ++ [']'])

theorem compile_bracketed [Regex.Engine] (named : BareName name) (settings : Path.Settings) (enclosed : Path.Enclosed w)
    (read : Path.ofFilter w = .ok filter) :
    compileWith settings (bracketed name w) = .ok ⟨bracketed name w,[.literal (String.ofList name),filter]⟩ := by
  have cut := Path.filtered_run named.toPlainName enclosed
  rw [escaped_bare named.unescaped] at cut
  have head : (⟨0,name,false,[w]⟩ : Path.RawSegment).head settings = .ok (.literal (String.ofList name)) :=
    Path.classify_literal.mpr ⟨rfl,named.noGlob,named.first.2⟩
  have filters : Path.filtersOf [w] = .ok [filter] := by simp only [Path.filtersOf,read]
  have own := Path.segmentsOf_ok.mpr ⟨named.spelled,_,_,head,filters,rfl⟩
  have nothing : Path.allSegments settings [] = .ok [] := rfl
  have made := Path.allSegments_cons.mpr ⟨_,_,own,nothing,rfl⟩
  refine compileWith_ok.mpr ⟨rfl,_,?_,made⟩
  rw [bracketed,String.toList_ofList,cut]

end PathExpr

variable {attributes : Attributes} {bare : Option String}

theorem Segment.equals_accepts : (Segment.equals text value bare).acceptsAttributes attributes = true ↔
    ∃ actual,attributes.get? text = some actual ∧ (actual.agrees value = true ∨ ∃ spelled ∈ bare,actual = .string spelled) := by
  have same : ∀ {actual : Value} {spelled},(actual.string? == some spelled) = true ↔ actual = .string spelled := by
    intro actual spelled
    cases actual <;> simp [Value.string?]
  simp only [acceptsAttributes,Option.any_eq_true,Bool.or_eq_true,same,Option.mem_def]

theorem Path.equality_bare (usual : ∀ c ∈ w,c ∉ brackets) (known : (∃ value,Constant value w) ∨ ∀ n,¬ NumeralText n w)
    (discrete : ∀ actual,attributes.get? text = some actual → actual.Discrete) :
    (Segment.equals text (attributeValue w).1 (attributeValue w).2).acceptsAttributes attributes = true ↔
      ∃ actual,attributes.get? text = some actual ∧ (actual = .string (String.ofList w) ∨ Constant actual w) := by
  rw [Segment.equals_accepts]
  refine exists_congr fun actual => and_congr_right fun held => ?_
  by_cases listed : ∃ value,Constant value w
  · obtain ⟨value,constant⟩ := listed
    have same : Constant actual w ↔ actual = value := ⟨fun other => other.unique constant,fun same => same ▸ constant⟩
    rw [attributeValue_spelled usual constant.spelling,constant.agrees (discrete actual held),same,or_comm]
    simp
  · have foreign := foreign_text usual (not_exists.mp listed) (known.resolve_left listed)
    have other : ¬ Constant actual w := fun constant => listed ⟨actual,constant⟩
    rw [attributeValue_text foreign,agrees_string]
    simp [other]

theorem Path.equality_quoted (quote : mark = '\'' ∨ mark = '"') (absent : mark ∉ w) :
    (Segment.equals text (attributeValue (mark :: w ++ [mark])).1 (attributeValue (mark :: w ++ [mark])).2).acceptsAttributes
      attributes = true ↔ attributes.get? text = some (.string (String.ofList w)) := by
  rw [attributeValue_quoted quote absent,Segment.equals_accepts]
  simp [agrees_string]

theorem Path.enclosed_equality (keyed : PlainKey key) (enclosed : Enclosed raw) : Enclosed (key ++ '=' :: raw) :=
  enclosed_append (enclosed_usual keyed.usual) (enclosed_append (enclosed_single (c := '=') (by decide)) enclosed)

namespace PathExpr

theorem compile_equality [Regex.Engine] (named : BareName name) (keyed : Path.PlainKey key) (settings : Path.Settings) :
    (∀ x,Path.trim x = x → (∀ c ∈ x,c ∉ Path.brackets) →
      ((∃ value,Path.Constant value x) ∨ ∀ n,¬ Path.NumeralText n x) →
      ∃ value bare,compileWith settings (bracketed name (key ++ '=' :: x)) = .ok ⟨bracketed name (key ++ '=' :: x),
          [.literal (String.ofList name),.equals (String.ofList key) value bare]⟩ ∧
        ∀ attributes : Attributes,(∀ actual,attributes.get? (String.ofList key) = some actual → actual.Discrete) →
          ((Segment.equals (String.ofList key) value bare).acceptsAttributes attributes = true ↔
            ∃ actual,attributes.get? (String.ofList key) = some actual ∧
              (actual = .string (String.ofList x) ∨ Path.Constant actual x))) ∧
    (∀ mark x,mark = '\'' ∨ mark = '"' → mark ∉ x →
      ∃ value bare,compileWith settings (bracketed name (key ++ '=' :: (mark :: x ++ [mark]))) =
          .ok ⟨bracketed name (key ++ '=' :: (mark :: x ++ [mark])),
            [.literal (String.ofList name),.equals (String.ofList key) value bare]⟩ ∧
        ∀ attributes : Attributes,(Segment.equals (String.ofList key) value bare).acceptsAttributes attributes = true ↔
          attributes.get? (String.ofList key) = some (.string (String.ofList x))) := by
  constructor
  · intro x trimmed usual known
    have enclosed := Path.enclosed_equality keyed (Path.enclosed_usual usual)
    exact ⟨_,_,compile_bracketed named settings enclosed (Path.ofFilter_equality keyed trimmed),
      fun _ discrete => Path.equality_bare usual known discrete⟩
  · intro mark x quote absent
    have solid : Unicode.isBlank mark = false := by rcases quote with rfl | rfl <;> decide
    have enclosed := Path.enclosed_equality keyed (Path.enclosed_quoted quote absent)
    have trimmed := Path.trim_solid solid solid x
    exact ⟨_,_,compile_bracketed named settings enclosed (Path.ofFilter_equality keyed trimmed),
      fun _ => Path.equality_quoted quote absent⟩

-- A text that only begins like a literal, and one with brackets and a dot between quotes.
theorem compile_equality_text :
    (∃ value bare,compile "n[k=true1]" = .ok ⟨"n[k=true1]",[.literal "n",.equals "k" value bare]⟩ ∧
      (Segment.equals "k" value bare).acceptsAttributes (Table.ofList [("k",.string "true1")]) = true ∧
      ¬ (Segment.equals "k" value bare).acceptsAttributes (Table.ofList [("k",.bool true)]) = true) ∧
    ∃ value bare,compile "n[k=' ].[ ']" = .ok ⟨"n[k=' ].[ ']",[.literal "n",.equals "k" value bare]⟩ ∧
      (Segment.equals "k" value bare).acceptsAttributes (Table.ofList [("k",.string " ].[ ")]) = true := by
  have named : BareName ['n'] := ⟨⟨by decide,by decide,by decide,by decide⟩,by simp⟩
  have keyed : Path.PlainKey ['k'] := ⟨by decide,by decide,by simp [Path.brackets],by decide,by decide⟩
  obtain ⟨plain,quoted⟩ := compile_equality named keyed .default
  constructor
  · have unnumbered : ∀ n,¬ Path.NumeralText n ['t','r','u','e','1'] := by
      intro n text
      obtain ⟨c,rest,same,known⟩ := text.first
      cases same
      revert known
      decide
    obtain ⟨value,bare,compiled,accepts⟩ := plain ['t','r','u','e','1'] (by decide) (by simp [Path.brackets]) (.inr unnumbered)
    have discrete : ∀ held : Value,held.Discrete → ∀ actual,(Table.ofList [("k",held)]).get? "k" = some actual →
        actual.Discrete := by
      intro held discrete actual same
      cases same
      exact discrete
    refine ⟨value,bare,compiled,(accepts _ (discrete (.string "true1") trivial)).mpr ⟨_,rfl,.inl rfl⟩,fun accepted => ?_⟩
    obtain ⟨actual,held,other | constant⟩ := (accepts _ (discrete (.bool true) trivial)).mp accepted
    · subst other
      cases held
    · cases held
      cases constant
  · obtain ⟨value,bare,compiled,accepts⟩ := quoted '\'' [' ',']','.','[',' '] (.inl rfl) (by decide)
    exact ⟨value,bare,compiled,(accepts _).mpr rfl⟩

end PathExpr
end SharedTree
