import Mathlib.Data.List.Basic
import SharedTree.Path.Scan

namespace SharedTree.Path

def Scan.add (s : Scan) (added : List Char) : Scan :=
  { s with current := { s.current with name := s.current.name ++ added } }

def Scan.asRegex (s : Scan) : Scan := { s with current := { s.current with regex := true } }

structure Place where
  scan : Scan
  position : Nat
  text : List Char

def Place.run (m : Place) : Except PathFault (List RawSegment) := m.scan.run m.position m.text

def Place.after (m : Place) (more : List Char) : Place := { m with text := m.text ++ more }

-- A dot directly before a digit, read in a threshold, is no separator.
def Scan.atPoint (s : Scan) (rest : List Char) : Bool := s.current.inThreshold && rest.head?.any Decimal.isDigit

-- Only the moves of the scan are argued about later: a run that goes well is a sequence of moves,
-- and it takes the same moves when more text follows.
inductive Move : Place → Place → Prop
  | reading (started : s.filter = some f) :
      Move ⟨s,position,c :: rest⟩ ⟨s.inFilter f c,position + c.utf8Size,rest⟩
  | escape (free : s.filter = none) (bare : s.current.filters = []) (plain : s.current.regex = false)
      (known : e = '.' ∨ e = '\\') :
      Move ⟨s,position,'\\' :: e :: rest⟩ ⟨s.add [e],position + '\\'.utf8Size + e.utf8Size,rest⟩
  | wildcard (free : s.filter = none) (bare : s.current.filters = []) (regex : s.current.regex = true) :
      Move ⟨s,position,'\\' :: '.' :: rest⟩ ⟨s.add ['.'],position + '\\'.utf8Size + '.'.utf8Size,rest⟩
  | kept (free : s.filter = none) (bare : s.current.filters = []) (regex : s.current.regex = true) (other : e ≠ '.') :
      Move ⟨s,position,'\\' :: e :: rest⟩ ⟨s.add ['\\',e],position + '\\'.utf8Size + e.utf8Size,rest⟩
  | regex (free : s.filter = none) (blank : s.current.isBlank = true) :
      Move ⟨s,position,'~' :: rest⟩ ⟨s.asRegex,position + '~'.utf8Size,rest⟩
  | classDot (free : s.filter = none) (bare : s.current.filters = []) (within : s.classes ≠ []) :
      Move ⟨s,position,'.' :: rest⟩ ⟨s.add ['.'],position + '.'.utf8Size,rest⟩
  | point (free : s.filter = none) (bare : s.current.filters = []) (outside : s.classes = [])
      (decimal : s.atPoint rest = true) :
      Move ⟨s,position,'.' :: rest⟩ ⟨s.add ['.'],position + '.'.utf8Size,rest⟩
  | separator (free : s.filter = none) (outside : s.classes = []) (ends : s.atPoint rest = false) :
      Move ⟨s,position,'.' :: rest⟩ ⟨s.separate position,position + '.'.utf8Size,rest⟩
  | openClass (free : s.filter = none) (bare : s.current.filters = []) (regex : s.current.regex = true) :
      Move ⟨s,position,'[' :: rest⟩
        ⟨{ s with classes := position :: s.classes }.add ['['],position + '['.utf8Size,rest⟩
  | closeClass (free : s.filter = none) (bare : s.current.filters = []) (regex : s.current.regex = true)
      (within : s.classes ≠ []) :
      Move ⟨s,position,']' :: rest⟩ ⟨{ s with classes := s.classes.drop 1 }.add [']'],position + ']'.utf8Size,rest⟩
  | openFilter (free : s.filter = none) (plain : s.current.regex = false) :
      Move ⟨s,position,'[' :: rest⟩ ⟨{ s with filter := some ⟨position,0,none,[]⟩ },position + '['.utf8Size,rest⟩
  | other (free : s.filter = none) (bare : s.current.filters = []) (usual : c ∉ ['\\','.','[',']'])
      (begun : c = '~' → s.current.isBlank = false) :
      Move ⟨s,position,c :: rest⟩ ⟨s.add [c],position + c.utf8Size,rest⟩

theorem RawSegment.push_bare {s : RawSegment} (bare : s.filters = []) :
    s.push c = .ok { s with name := s.name ++ [c] } := by simp [push,bare]

theorem RawSegment.bare_of_push {s : RawSegment} (pushed : s.push c = .ok t) : s.filters = [] := by
  cases last : s.filters.getLast? with
  | none => exact List.getLast?_eq_none_iff.mp last
  | some filter => simp [push,last] at pushed

theorem Scan.push_bare {s : Scan} (bare : s.current.filters = []) : s.push c = .ok (s.add [c]) := by
  simp [push,RawSegment.push_bare bare,add]

theorem Scan.push_ok {s : Scan} (pushed : s.push c = .ok t) : s.current.filters = [] ∧ t = s.add [c] := by
  cases step : s.current.push c with
  | error fault => simp [push,step] at pushed
  | ok current =>
      have bare := RawSegment.bare_of_push step
      rw [Scan.push_bare bare] at pushed
      cases pushed
      exact ⟨bare,rfl⟩

theorem Scan.push2_bare {s : Scan} (bare : s.current.filters = []) : s.push2 c d = .ok (s.add [c,d]) := by
  have again : (s.add [c]).current.filters = [] := bare
  have twice : (s.add [c]).add [d] = s.add [c,d] := by simp [add]
  rw [push2,push_bare bare,← twice]
  exact push_bare again

theorem Scan.push2_ok {s : Scan} (pushed : s.push2 c d = .ok t) : s.current.filters = [] ∧ t = s.add [c,d] := by
  cases step : s.push c with
  | error fault => simp [push2,step] at pushed
  | ok next =>
      have bare := (push_ok step).1
      rw [push2_bare bare] at pushed
      cases pushed
      exact ⟨bare,rfl⟩

theorem Scan.run_reading {s : Scan} (started : s.filter = some f) :
    s.run position (c :: rest) = (s.inFilter f c).run (position + c.utf8Size) rest := by
  rw [run.eq_def]
  simp [started]

theorem Scan.run_escaped {s : Scan} (free : s.filter = none) (step : s.escaped position e = .ok t) :
    s.run position ('\\' :: e :: rest) = t.run (position + '\\'.utf8Size + e.utf8Size) rest := by
  rw [run.eq_def]
  simp [free,step]

theorem Scan.run_plain {s : Scan} (free : s.filter = none) (usual : c ≠ '\\')
    (step : s.plain position c rest.head? = .ok t) :
    s.run position (c :: rest) = t.run (position + c.utf8Size) rest := by
  rw [run.eq_def]
  simp [free,step,usual]

theorem Move.run_eq {m n : Place} (step : Move m n) : m.run = n.run := by
  cases step with
  | reading started => exact Scan.run_reading started
  | escape free bare plain known =>
      apply Scan.run_escaped free
      simp [Scan.escaped,plain,known,Scan.push_bare bare]
  | wildcard free bare regex =>
      apply Scan.run_escaped free
      simp [Scan.escaped,regex,Scan.push_bare bare]
  | kept free bare regex other =>
      apply Scan.run_escaped free
      simp [Scan.escaped,regex,other,Scan.push2_bare bare]
  | regex free blank =>
      apply Scan.run_plain free (by decide)
      simp [Scan.plain,blank,Scan.asRegex]
  | classDot free bare within =>
      apply Scan.run_plain free (by decide)
      simp [Scan.plain,within,Scan.push_bare bare]
  | point free bare outside decimal =>
      apply Scan.run_plain free (by decide)
      rw [Scan.atPoint,Bool.and_eq_true] at decimal
      simp [Scan.plain,outside,decimal,Scan.push_bare bare]
  | separator free outside ends =>
      apply Scan.run_plain free (by decide)
      simp only [Scan.atPoint] at ends
      simp [Scan.plain,outside,← Bool.and_eq_true,ends]
  | openClass free bare regex =>
      apply Scan.run_plain free (by decide)
      simp [Scan.plain,regex]
      exact Scan.push_bare bare
  | closeClass free bare regex within =>
      apply Scan.run_plain free (by decide)
      simp [Scan.plain,regex,within]
      exact Scan.push_bare bare
  | openFilter free plain =>
      apply Scan.run_plain free (by decide)
      simp [Scan.plain,plain]
  | other free bare usual begun =>
      simp only [List.mem_cons,List.not_mem_nil,not_or] at usual
      apply Scan.run_plain free usual.1
      simp only [Scan.plain,usual,Scan.push_bare bare,↓reduceIte,ite_eq_right_iff,and_imp]
      intro tilde blank
      rw [begun tilde] at blank
      cases blank

theorem Scan.escaped_move {s : Scan} (free : s.filter = none) (step : s.escaped position e = .ok t) :
    Move ⟨s,position,'\\' :: e :: rest⟩ ⟨t,position + '\\'.utf8Size + e.utf8Size,rest⟩ := by
  unfold escaped at step
  cases regex : s.current.regex with
  | false =>
      rw [regex,if_neg (by simp)] at step
      split at step
      · rename_i known
        obtain ⟨bare,rfl⟩ := push_ok step
        exact .escape free bare regex known
      · cases step
  | true =>
      rw [regex,if_pos rfl] at step
      split at step
      · rename_i dot
        obtain ⟨bare,rfl⟩ := push_ok step
        subst dot
        exact .wildcard free bare regex
      · rename_i other
        obtain ⟨bare,rfl⟩ := push2_ok step
        exact .kept free bare regex other

theorem Scan.dot_move {s : Scan} (free : s.filter = none) (step : s.plain position '.' rest.head? = .ok t) :
    Move ⟨s,position,'.' :: rest⟩ ⟨t,position + '.'.utf8Size,rest⟩ := by
  cases outside : s.classes with
  | cons bracket classes =>
      have within : s.classes ≠ [] := by simp [outside]
      obtain ⟨bare,rfl⟩ := push_ok (by simpa [plain,outside] using step)
      exact .classDot free bare within
  | nil =>
      cases decimal : s.atPoint rest with
      | true =>
          have read : s.current.inThreshold = true ∧ rest.head?.any Decimal.isDigit = true := by
            simpa [atPoint] using decimal
          obtain ⟨bare,rfl⟩ := push_ok (by simpa [plain,outside,read] using step)
          exact .point free bare outside decimal
      | false =>
          have read : ¬ (s.current.inThreshold = true ∧ rest.head?.any Decimal.isDigit = true) := by
            simpa [atPoint] using decimal
          have separated : s.separate position = t := by simpa [plain,outside,read] using step
          rw [← separated]
          exact .separator free outside decimal

theorem Scan.opening_move {s : Scan} (free : s.filter = none) (step : s.plain position '[' next = .ok t) :
    Move ⟨s,position,'[' :: rest⟩ ⟨t,position + '['.utf8Size,rest⟩ := by
  cases regex : s.current.regex with
  | true =>
      obtain ⟨bare,rfl⟩ := push_ok (by simpa [plain,regex] using step)
      exact .openClass free bare regex
  | false =>
      have opened : { s with filter := some ⟨position,0,none,[]⟩ } = t := by simpa [plain,regex] using step
      rw [← opened]
      exact .openFilter free regex

theorem Scan.closing_move {s : Scan} (free : s.filter = none) (step : s.plain position ']' next = .ok t) :
    Move ⟨s,position,']' :: rest⟩ ⟨t,position + ']'.utf8Size,rest⟩ := by
  by_cases within : s.current.regex = true ∧ s.classes ≠ []
  · obtain ⟨regex,within⟩ := within
    have pushed : Scan.push { s with classes := s.classes.drop 1 } ']' = .ok t := by simpa [plain,regex,within] using step
    obtain ⟨bare,rfl⟩ := push_ok pushed
    exact .closeClass free bare regex within
  · simp [plain,within] at step

theorem Scan.plain_move {s : Scan} (free : s.filter = none) (usual : c ≠ '\\')
    (step : s.plain position c rest.head? = .ok t) :
    Move ⟨s,position,c :: rest⟩ ⟨t,position + c.utf8Size,rest⟩ := by
  by_cases begins : c = '~' ∧ s.current.isBlank = true
  · obtain ⟨rfl,blank⟩ := begins
    have started : s.asRegex = t := by simpa [plain,blank,asRegex] using step
    rw [← started]
    exact .regex free blank
  · by_cases special : c ∈ ['.','[',']']
    · simp only [List.mem_cons,List.not_mem_nil,or_false] at special
      rcases special with rfl | rfl | rfl
      · exact dot_move free step
      · exact opening_move free step
      · exact closing_move free step
    · have begun : c = '~' → s.current.isBlank = false := by simpa using begins
      simp only [List.mem_cons,List.not_mem_nil,or_false,not_or] at special
      simp only [plain,begins,special,↓reduceIte] at step
      obtain ⟨bare,rfl⟩ := push_ok step
      exact .other free bare (by simp [usual,special]) begun

theorem move_of_ok {m : Place} (run : m.run = .ok raws) (left : m.text ≠ []) : ∃ n,Move m n := by
  obtain ⟨s,position,text⟩ := m
  cases text with
  | nil => exact absurd rfl left
  | cons c rest =>
      cases free : s.filter with
      | some f => exact ⟨_,.reading free⟩
      | none =>
          rw [Place.run,Scan.run.eq_def] at run
          simp only [free] at run
          split at run
          · rename_i escape
            subst escape
            cases rest with
            | nil => cases run
            | cons e rest =>
                cases step : s.escaped position e with
                | error fault => simp [step] at run
                | ok t => exact ⟨_,Scan.escaped_move free step⟩
          · rename_i usual
            cases step : s.plain position c rest.head? with
            | error fault => simp [step] at run
            | ok t => exact ⟨_,Scan.plain_move free usual step⟩

theorem Move.shorter {m n : Place} (step : Move m n) : n.text.length < m.text.length := by
  cases step <;> simp only [List.length_cons] <;> omega

inductive Reached : Place → Place → Prop
  | stay : Reached m m
  | move (step : Move m n) (more : Reached n o) : Reached m o

theorem Reached.run_eq {m n : Place} (reached : Reached m n) : m.run = n.run := by
  induction reached with
  | stay => rfl
  | move step more ih => exact step.run_eq.trans ih

theorem reached_end {m : Place} (run : m.run = .ok raws) :
    ∃ t position,Reached m ⟨t,position,[]⟩ ∧ t.finish = .ok raws := by
  induction measured : m.text.length using Nat.strongRecOn generalizing m with
  | ind size ih =>
      obtain ⟨s,position,text⟩ := m
      cases text with
      | nil => exact ⟨s,position,.stay,run⟩
      | cons c rest =>
          obtain ⟨n,step⟩ := move_of_ok run (List.cons_ne_nil c rest)
          have shorter := step.shorter
          rw [measured] at shorter
          obtain ⟨t,stop,reached,finished⟩ := ih _ shorter (step.run_eq.symm.trans run) rfl
          exact ⟨t,stop,.move step reached,finished⟩

theorem run_of_reached {m : Place} (reached : Reached m ⟨t,position,[]⟩) : m.run = t.finish :=
  reached.run_eq

theorem finish_ok {t : Scan} (finished : t.finish = .ok raws) :
    t.filter = none ∧ t.classes = [] ∧ raws = (t.current :: t.done).reverse := by
  unfold Scan.finish at finished
  split at finished
  · cases finished
  · cases finished
  · rename_i free outside
    cases finished
    exact ⟨free,List.getLast?_eq_none_iff.mp outside,rfl⟩

theorem finish_neutral {t : Scan} (free : t.filter = none) (outside : t.classes = []) :
    t.finish = .ok (t.current :: t.done).reverse := by
  simp [Scan.finish,free,outside]

theorem atPoint_append {s : Scan} (quiet : more.head?.any Decimal.isDigit = false) :
    s.atPoint (rest ++ more) = s.atPoint rest := by
  cases rest with
  | nil => simp [Scan.atPoint,quiet]
  | cons c rest => rfl

theorem Move.after {m n : Place} (quiet : more.head?.any Decimal.isDigit = false) (step : Move m n) :
    Move (m.after more) (n.after more) := by
  cases step with
  | reading started => exact .reading started
  | escape free bare plain known => exact .escape free bare plain known
  | wildcard free bare regex => exact .wildcard free bare regex
  | kept free bare regex other => exact .kept free bare regex other
  | regex free blank => exact .regex free blank
  | classDot free bare within => exact .classDot free bare within
  | point free bare outside decimal => exact .point free bare outside ((atPoint_append quiet).trans decimal)
  | separator free outside ends => exact .separator free outside ((atPoint_append quiet).trans ends)
  | openClass free bare regex => exact .openClass free bare regex
  | closeClass free bare regex within => exact .closeClass free bare regex within
  | openFilter free plain => exact .openFilter free plain
  | other free bare usual begun => exact .other free bare usual begun

theorem Reached.after {m n : Place} (quiet : more.head?.any Decimal.isDigit = false) (reached : Reached m n) :
    Reached (m.after more) (n.after more) := by
  induction reached with
  | stay => exact .stay
  | move step _ ih => exact .move (step.after quiet) ih

theorem inFilter_rest (s : Scan) (f : OpenFilter) (c : Char) :
    (s.inFilter f c).done = s.done ∧ (s.inFilter f c).classes = s.classes ∧
      (s.inFilter f c).current.name = s.current.name ∧ (s.inFilter f c).current.regex = s.current.regex := by
  unfold Scan.inFilter
  cases f.quote with
  | some quote => simp
  | none =>
      dsimp only
      repeat' split
      all_goals simp

end SharedTree.Path
