import SharedTree.Path.Offsets
import SharedTree.Proofs.Path.Filters

namespace SharedTree
namespace Path

def bytes : List Char → Nat
  | [] => 0
  | c :: rest => c.utf8Size + bytes rest

variable {front rest source text v w : List Char} {c : Char} {s t : Scan} {f : OpenFilter} {position : Nat}

theorem bytes_append (v w : List Char) : bytes (v ++ w) = bytes v + bytes w := by
  induction v with
  | nil => simp [bytes]
  | cons c v ih => simp only [List.cons_append,bytes,ih,Nat.add_assoc]

theorem bytes_ofList (w : List Char) : (String.ofList w).utf8ByteSize = bytes w := by
  induction w with
  | nil => rfl
  | cons c w ih => rw [String.ofList_cons,String.utf8ByteSize_append,String.utf8ByteSize_singleton,ih,bytes]

theorem from?_bytes (front rest : List Char) : from? (front ++ rest) (bytes front) = some rest := by
  induction front with
  | nil => simp [bytes,from?]
  | cons c front ih =>
      have some_ : c.utf8Size + bytes front ≠ 0 := by have size := c.utf8Size_pos; omega
      rw [List.cons_append,bytes,from?]
      · rw [if_pos (Nat.le_add_right _ _),Nat.add_sub_cancel_left,ih]
      · exact fun none_ => some_ none_

theorem upTo?_bytes (front rest : List Char) : upTo? (front ++ rest) (bytes front) = some front := by
  induction front with
  | nil => simp [bytes,upTo?]
  | cons c front ih =>
      have some_ : c.utf8Size + bytes front ≠ 0 := by have size := c.utf8Size_pos; omega
      rw [List.cons_append,bytes,upTo?]
      · rw [if_pos (Nat.le_add_right _ _),Nat.add_sub_cancel_left,ih]
        rfl
      · exact fun none_ => some_ none_

theorem between?_bytes (front text rest : List Char) :
    between? (front ++ (text ++ rest)) (bytes front) (bytes front + bytes text) = some text := by
  rw [between?,if_pos (Nat.le_add_right _ _),from?_bytes,Option.bind_some,Nat.add_sub_cancel_left,upTo?_bytes]

theorem located_skip (text rest : List Char) (c : Char) (position : Nat) :
    (located position (text ++ c :: rest)).dropWhile (·.1 ≤ position + bytes text) =
      located (position + bytes text + c.utf8Size) rest := by
  induction text generalizing position with
  | nil =>
      have size := c.utf8Size_pos
      rw [List.nil_append,located,List.dropWhile_cons_of_pos (by simp)]
      cases rest with
      | nil => rfl
      | cons d rest =>
          have beyond : ¬ position + c.utf8Size ≤ position + bytes [] := by rw [bytes]; omega
          rw [located,List.dropWhile_cons_of_neg (by simpa using beyond)]
          rfl
  | cons d text ih =>
      rw [List.cons_append,located,List.dropWhile_cons_of_pos (by simp)]
      have next := ih (position + d.utf8Size)
      rw [Nat.add_assoc position] at next
      exact next

-- Inside a filter. The search ahead counts the bracket that opened the filter,
-- so its depth is one more than that of the scan and never zero.
theorem closing_step (s : Scan) (f : OpenFilter) (c : Char) (first offset : Nat) (more : List (Nat × Char)) :
    (∃ g : OpenFilter,g.text = f.text ++ [c] ∧ g.start = f.start ∧ s.inFilter f c = { s with filter := some g } ∧
      closingFrom? first (f.depth + 1) f.quote ((offset,c) :: more) = closingFrom? first (g.depth + 1) g.quote more) ∨
    (c = ']' ∧ s.inFilter f c = s.closed f.text ∧
      closingFrom? first (f.depth + 1) f.quote ((offset,c) :: more) = some (.ok (first + offset))) := by
  obtain ⟨start,depth,quote,text⟩ := f
  cases quote with
  | some mark =>
      by_cases ends : c = mark
      · exact .inl ⟨⟨start,depth,none,text ++ [c]⟩,rfl,rfl,by simp [Scan.inFilter,ends],by simp [closingFrom?,ends]⟩
      · exact .inl ⟨⟨start,depth,some mark,text ++ [c]⟩,rfl,rfl,by simp [Scan.inFilter,ends],by simp [closingFrom?,ends]⟩
  | none =>
      by_cases quotes : c = '\'' ∨ c = '"'
      · exact .inl ⟨⟨start,depth,some c,text ++ [c]⟩,rfl,rfl,by simp [Scan.inFilter,quotes],by simp [closingFrom?,quotes]⟩
      by_cases opens : c = '['
      · subst opens
        exact .inl ⟨⟨start,depth + 1,none,text ++ ['[']⟩,rfl,rfl,by simp [Scan.inFilter],by simp [closingFrom?]⟩
      by_cases closes : c = ']'
      · subst closes
        cases depth with
        | zero => exact .inr ⟨rfl,by simp [Scan.inFilter,Scan.closed],by simp [closingFrom?]⟩
        | succ depth => exact .inl ⟨⟨start,depth,none,text ++ [']']⟩,rfl,rfl,by simp [Scan.inFilter],by simp [closingFrom?]⟩
      · exact .inl ⟨⟨start,depth,none,text ++ [c]⟩,rfl,rfl,by simp [Scan.inFilter,quotes,opens,closes],
          by simp [closingFrom?,quotes,opens,closes]⟩

theorem closing_run (s : Scan) (f : OpenFilter) (first offset position : Nat) (text : List Char) :
    (closingFrom? first (f.depth + 1) f.quote (located offset text) = some (.error (.unbalanced '[' first)) ∧
      Scan.run { s with filter := some f } position text = .error (.unbalanced '[' f.start)) ∨
    ∃ w rest,text = w ++ ']' :: rest ∧
      closingFrom? first (f.depth + 1) f.quote (located offset text) = some (.ok (first + (offset + bytes w))) ∧
      Scan.run { s with filter := some f } position text =
        (s.closed (f.text ++ w)).run (position + bytes w + ']'.utf8Size) rest := by
  induction text generalizing f offset position with
  | nil => exact .inl ⟨rfl,rfl⟩
  | cons c text ih =>
      rw [Scan.run_reading (s := { s with filter := some f }) rfl,located]
      rcases closing_step { s with filter := some f } f c first offset (located (offset + c.utf8Size) text) with
        ⟨g,longer,same,reads,searched⟩ | ⟨rfl,closed,found⟩
      · rw [reads,searched,← same]
        rcases ih g (offset + c.utf8Size) (position + c.utf8Size) with failed | ⟨w,rest,rfl,found,run⟩
        · exact .inl failed
        · refine .inr ⟨c :: w,rest,rfl,?_,?_⟩
          · rw [found,bytes,Nat.add_assoc]
          · rw [longer,List.append_assoc] at run
            rw [bytes,← Nat.add_assoc position]
            exact run
      · refine .inr ⟨[],text,rfl,found,?_⟩
        rw [closed,List.append_nil]
        rfl

theorem escaped_free (step : s.escaped position c = .ok t) : t.filter = s.filter := by
  unfold Scan.escaped at step
  split at step
  · split at step
    · rw [(Scan.push_ok step).2]; rfl
    · rw [(Scan.push2_ok step).2]; rfl
  · split at step
    · rw [(Scan.push_ok step).2]; rfl
    · cases step

theorem plain_free (step : s.plain position c next = .ok t) (other : ¬ (c = '[' ∧ s.current.regex = false)) :
    t.filter = s.filter := by
  unfold Scan.plain at step
  repeat' split at step
  all_goals first
    | (rw [(Scan.push_ok step).2]; rfl)
    | (cases step; rfl)
    | cases step
  rename_i opens plain
  exact absurd ⟨opens,by simpa using plain⟩ other

theorem filtered_closed (s : Scan) (f : OpenFilter) (free : s.filter = none) (text : List Char) :
    Scan.closed { s with filter := some f } text = s.filtered text := by
  obtain ⟨done,current,classes,filter⟩ := s
  cases free
  rfl

theorem filter_run (free : s.filter = none) (plain : s.current.regex = false) (whole : source = front ++ '[' :: text) :
    (closing? source (bytes front) = some (.error (.unbalanced '[' (bytes front))) ∧
      s.run (bytes front) ('[' :: text) = .error (.unbalanced '[' (bytes front))) ∨
    ∃ w rest last,text = w ++ ']' :: rest ∧ closing? source (bytes front) = some (.ok last) ∧
      between? source (bytes front + 1) last = some w ∧
      (located (bytes front + 1) text).dropWhile (·.1 ≤ last) = located (bytes (front ++ ('[' :: w ++ [']']))) rest ∧
      s.run (bytes front) ('[' :: text) = (s.filtered w).run (bytes (front ++ ('[' :: w ++ [']']))) rest := by
  have one : '['.utf8Size = 1 ∧ ']'.utf8Size = 1 := by decide
  have opened : s.run (bytes front) ('[' :: text) =
      Scan.run { s with filter := some ⟨bytes front,0,none,[]⟩ } (bytes front + '['.utf8Size) text :=
    Move.run_eq (.openFilter free plain)
  have searched : closing? source (bytes front) = closingFrom? (bytes front) 1 none (located 1 text) := by
    rw [closing?,whole,from?_bytes,Option.bind_some,located,closingFrom?,if_neg (by decide),if_pos rfl]
    rfl
  rw [opened,searched]
  rcases closing_run s ⟨bytes front,0,none,[]⟩ (bytes front) 1 (bytes front + '['.utf8Size) text with
    failed | ⟨w,rest,spelled,found,run⟩
  · exact .inl failed
  · have behind : bytes front + 1 + bytes w = bytes front + (1 + bytes w) := Nat.add_assoc _ _ _
    have last : bytes (front ++ ('[' :: w ++ [']'])) = bytes front + 1 + bytes w + 1 := by
      simp only [bytes_append,bytes,one]
      omega
    refine .inr ⟨w,rest,_,spelled,found,?_,?_,?_⟩
    · have split : source = (front ++ ['[']) ++ (w ++ ']' :: rest) := by rw [whole,spelled]; simp
      have before : bytes (front ++ ['[']) = bytes front + 1 := by simp only [bytes_append,bytes,one]
      rw [split,← behind,← before]
      exact between?_bytes _ _ _
    · rw [spelled,← behind,located_skip,last,one.2]
    · rw [run,last,one.1,one.2,List.nil_append,← filtered_closed s ⟨bytes front,0,none,[]⟩ free]
      rfl

theorem located_head (position : Nat) (text : List Char) : (located position text).head?.map (·.2) = text.head? := by
  cases text <;> rfl

theorem cut?_eq (free : s.filter = none) (whole : source = front ++ rest) :
    s.cut? source (located (bytes front) rest) = some (s.run (bytes front) rest) := by
  induction measured : rest.length using Nat.strongRecOn generalizing s front rest with
  | ind size ih =>
      have next : ∀ (t : Scan) (taken more : List Char),rest = taken ++ more → taken ≠ [] → t.filter = none →
          t.cut? source (located (bytes (front ++ taken)) more) = some (t.run (bytes (front ++ taken)) more) := by
        rintro t taken more spelled some_ free
        have shorter : more.length < size := by
          have positive := List.length_pos_of_ne_nil some_
          rw [← measured,spelled,List.length_append]
          omega
        exact ih _ shorter free (by rw [whole,spelled,List.append_assoc]) rfl
      cases rest with
      | nil => rw [located,Scan.cut?.eq_def,Scan.run]
      | cons c text =>
          rw [located,Scan.cut?.eq_def]
          dsimp only
          by_cases escape : c = '\\'
          · subst escape
            rw [if_pos rfl]
            cases text with
            | nil =>
                rw [located,Scan.run.eq_def]
                simp [free]
            | cons e text =>
                rw [located]
                cases step : s.escaped (bytes front) e with
                | error fault =>
                    rw [Scan.run.eq_def]
                    simp [free,step]
                | ok t =>
                    have later := next t ['\\',e] text rfl (by simp) ((escaped_free step).trans free)
                    simp only [bytes_append,bytes,Nat.add_zero,← Nat.add_assoc] at later
                    rw [Scan.run_escaped free step]
                    simpa only [step] using later
          rw [if_neg escape]
          by_cases filter : c = '[' ∧ s.current.regex = false
          · rw [if_pos filter]
            obtain ⟨rfl,plain⟩ := filter
            rcases filter_run free plain whole with ⟨failed,run⟩ | ⟨w,more,last,spelled,found,taken,skipped,run⟩
            · rw [failed,run]
            · have later := next (s.filtered w) ('[' :: w ++ [']']) more (by rw [spelled]; simp) (by simp) free
              have one : '['.utf8Size = 1 := rfl
              rw [found,run,one]
              simp only [taken,skipped]
              exact later
          rw [if_neg filter,located_head]
          cases step : s.plain (bytes front) c text.head? with
          | error fault =>
              rw [Scan.run.eq_def]
              simp [free,step,escape]
          | ok t =>
              have later := next t [c] text rfl (by simp) ((plain_free step filter).trans free)
              simp only [bytes_append,bytes,Nat.add_zero] at later
              rw [Scan.run_plain free escape step]
              exact later

theorem cut?_rawSegments (source : List Char) : Scan.start.cut? source (located 0 source) = some (rawSegments source) :=
  cut?_eq rfl (List.nil_append source).symm

end Path

-- Every offset that comes up is the number of bytes before some character, so each text asked for
-- is there, and no bracket is counted that is not open.
theorem PathExpr.compileByOffsets?_eq [Regex.Engine] (settings : Path.Settings) (source : String) :
    compileByOffsets? settings source = some (compileWith settings source) := by
  rw [compileByOffsets?,Path.cut?_rawSegments]
  rfl

end SharedTree
