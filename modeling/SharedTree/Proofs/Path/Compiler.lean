import SharedTree.Path.Compiler
import SharedTree.Proofs.Path.Recency

namespace SharedTree
namespace Compiler

def Request.source? : Request → Option String
  | .compile source | .evaluate source => some source
  | .contains _ | .clear => none

def Request.isClear : Request → Bool
  | .clear => true
  | _ => false

-- The requests served so far, the latest first, each with the start of its evaluation.
abbrev History := List (Position × Request)

section
variable [Regex.Engine]

def compiles (settings : Path.Settings) (source : String) : Bool := (PathExpr.compileWith settings source).isOk

-- The sources compiled with success since the last clearing, the latest first.
def uses (settings : Path.Settings) (history : History) : List String :=
  ((history.takeWhile fun served => !served.2.isClear).filterMap fun served => served.2.source?).filter (compiles settings)

def recent (settings : Path.Settings) (history : History) : List String :=
  Recency.recent settings.capacity (uses settings history)

variable {settings : Path.Settings} {request : Request}

theorem uses_source (top : Position) (history : History) (asked : request.source? = some source) :
    uses settings ((top,request) :: history) =
      if compiles settings source then source :: uses settings history else uses settings history := by
  have unclear : request.isClear = false := by cases request <;> first | rfl | cases asked
  rw [uses,List.takeWhile_cons_of_pos (by simp [unclear]),List.filterMap_cons]
  simp only [asked]
  rw [List.filter_cons]
  rfl

theorem compiles_ok (made : PathExpr.compileWith settings source = .ok expression) : compiles settings source = true := by
  rw [compiles,made]
  rfl

theorem compiles_error (faulty : PathExpr.compileWith settings source = .error fault) : compiles settings source = false := by
  rw [compiles,faulty]
  rfl

theorem uses_ok (top : Position) (history : History) (asked : request.source? = some source)
    (made : PathExpr.compileWith settings source = .ok expression) :
    uses settings ((top,request) :: history) = source :: uses settings history := by
  rw [uses_source top history asked,if_pos (compiles_ok made)]

theorem uses_error (top : Position) (history : History) (asked : request.source? = some source)
    (faulty : PathExpr.compileWith settings source = .error fault) :
    uses settings ((top,request) :: history) = uses settings history := by
  rw [uses_source top history asked,compiles_error faulty]
  rfl

end
end Compiler

open Compiler (Request History compiles recent)

namespace CachingCompiler

variable {lru : Recency Compiled}
variable {entries : lru.Store → List (String × Compiled)} {capacity : lru.Store → Nat}
variable {c : CachingCompiler lru} {made : Compiled} {settings : Path.Settings} {history : History}

def held (entries : lru.Store → List (String × Compiled)) (c : CachingCompiler lru) : List (String × Compiled) :=
  (c.kept.map entries).getD []

def Fits (capacity : lru.Store → Nat) (c : CachingCompiler lru) : Prop :=
  match c.kept with
  | none => c.settings.capacity = 0
  | some store => 0 < c.settings.capacity ∧ capacity store = c.settings.capacity

section
variable (documented : lru.Documented entries capacity)
include documented

theorem lookup_absent (absent : (held entries c).lookup source = none) : c.lookup source = (none,c) := by
  obtain ⟨settings,kept,hits,misses,next⟩ := c
  cases kept with
  | none => rfl
  | some store =>
      have missing : lru.get store source = (none,store) :=
        Prod.ext (documented.get_value.trans absent) (documented.get_absent absent)
      simp only [lookup,missing]

theorem lookup_found (fits : Fits capacity c) (found : (held entries c).lookup source = some made) :
    ∃ store,c.lookup source = (some made,{ c with kept := some store }) ∧
      Fits capacity { c with kept := some store } ∧
      entries store = (source,made) :: (held entries c).filter fun entry => entry.1 != source := by
  obtain ⟨settings,kept,hits,misses,next⟩ := c
  cases kept with
  | none => cases found
  | some store =>
      have value := documented.get_value.trans found
      refine ⟨(lru.get store source).2,?_,⟨fits.1,documented.get_capacity.trans fits.2⟩,documented.get_entries found⟩
      simp only [lookup,value]

theorem store_new (fits : Fits capacity c) (bound : (held entries c).length ≤ c.settings.capacity)
    (absent : (held entries c).lookup source = none) (made : Compiled) :
    ∃ kept,c.store source made = { c with kept } ∧ Fits capacity { c with kept } ∧
      held entries { c with kept } =
        if c.settings.capacity = 0 then [] else (source,made) :: (held entries c).take (c.settings.capacity - 1) := by
  obtain ⟨settings,kept,hits,misses,next⟩ := c
  cases kept with
  | none =>
      have zero : settings.capacity = 0 := fits
      exact ⟨none,rfl,fits,(if_pos zero).symm⟩
  | some store =>
      have missing : lru.get store source = (none,store) :=
        Prod.ext (documented.get_value.trans absent) (documented.get_absent absent)
      obtain ⟨room,whole⟩ := fits
      refine ⟨some (lru.push store source made).2,?_,⟨room,documented.push_capacity.trans whole⟩,?_⟩
      · simp only [CachingCompiler.store,missing]
      · rw [if_neg (Nat.ne_of_gt room)]
        show entries (lru.push store source made).2 = (source,made) :: (entries store).take (settings.capacity - 1)
        have bound : (entries store).length ≤ settings.capacity := bound
        rcases Nat.lt_or_eq_of_le bound with less | full
        · rw [documented.push_room absent (by rw [whole]; exact less),List.take_of_length_le (by omega)]
        · rw [documented.push_full absent (by rw [whole]; exact full),List.dropLast_eq_take,full]

theorem held_size (c : CachingCompiler lru) : c.size = (held entries c).length := by
  rw [size,held]
  cases c.kept with
  | none => rfl
  | some store => exact documented.size_eq

theorem held_contains (c : CachingCompiler lru) : c.contains source = true ↔ source ∈ (held entries c).map Prod.fst := by
  rw [contains,held]
  cases c.kept with
  | none => simp
  | some store => exact documented.contains_iff

end

section
variable [Regex.Engine]

def after (settings : Path.Settings) : History → CachingCompiler lru
  | [] => .start settings
  | (top,request) :: earlier => ((after settings earlier).serve top request).2

-- What successful compilations have given for their sources, the latest first.
def given (lru : Recency Compiled) (settings : Path.Settings) : History → List (String × Compiled)
  | [] => []
  | (_,request) :: earlier =>
    match request.source? with
    | none => given lru settings earlier
    | some source =>
      match ((after settings earlier : CachingCompiler lru).compile source).1 with
      | .ok made => (source,made) :: given lru settings earlier
      | .error _ => given lru settings earlier

-- How a compiler serves what comes after a history.
structure Serves (settings : Path.Settings) (history : History) (c : CachingCompiler lru) : Prop where
  size : c.size = (recent settings history).length
  bound : c.size ≤ settings.capacity
  contains : ∀ source,c.contains source = true ↔ source ∈ recent settings history
  compiled : ∀ source,(c.compile source).1.map Compiled.expression = PathExpr.compileWith settings source
  evaluated : ∀ top source,(c.evaluate top source).1 = (PathExpr.compileWith settings source).map fun e => e.evaluate top
  evaluating : ∀ top source,(c.evaluate top source).2 = (c.compile source).2
  hit : ∀ source ∈ recent settings history,
    ∃ made,(given lru settings history).lookup source = some made ∧ (c.compile source).1 = .ok made ∧
      (c.compile source).2.hits = c.hits + 1 ∧ (c.compile source).2.misses = c.misses
  miss : ∀ source,source ∉ recent settings history →
    (∀ made,(c.compile source).1 = .ok made → ∀ earlier ∈ given lru settings history,earlier.2.serial ≠ made.serial) ∧
      (c.compile source).2.hits = c.hits ∧ (c.compile source).2.misses = c.misses + 1
  failed : ∀ source fault,(c.compile source).1 = .error fault → (c.compile source).2 = { c with misses := c.misses + 1 }
  asked : ∀ top source,(c.serve top (.contains source)).2 = c

theorem compile_found {later : CachingCompiler lru} (found : c.lookup source = (some made,later)) :
    c.compile source = (.ok made,{ later with hits := later.hits + 1 }) := by
  rw [compile,found]

theorem compile_faulty (absent : c.lookup source = (none,c)) (faulty : PathExpr.compileWith c.settings source = .error fault) :
    c.compile source = (.error fault,{ c with misses := c.misses + 1 }) := by
  rw [compile,absent]
  dsimp only
  rw [faulty]

theorem compile_new (absent : c.lookup source = (none,c)) (made : PathExpr.compileWith c.settings source = .ok expression) :
    c.compile source = (.ok ⟨c.next,expression⟩,
      { c with misses := c.misses + 1, next := c.next + 1 }.store source ⟨c.next,expression⟩) := by
  rw [compile,absent]
  dsimp only
  rw [made]

-- What ties a compiler to the history it has served.
structure Tracks (entries : lru.Store → List (String × Compiled)) (capacity : lru.Store → Nat) (settings : Path.Settings)
    (history : History) (c : CachingCompiler lru) : Prop where
  settled : c.settings = settings
  fits : Fits capacity c
  keys : (held entries c).map Prod.fst = recent settings history
  latest : ∀ entry ∈ held entries c,(given lru settings history).lookup entry.1 = some entry.2
  numbered : ∀ entry ∈ given lru settings history,entry.2.serial < c.next
  sound : ∀ entry ∈ given lru settings history,PathExpr.compileWith settings entry.1 = .ok entry.2.expression

namespace Tracks

variable (tracks : Tracks entries capacity settings history c)
include tracks

theorem mem_recent : source ∈ recent settings history ↔ ∃ made,(held entries c).lookup source = some made := by
  rw [← tracks.keys,← Option.isSome_iff_exists,← Option.not_isNone,Bool.not_eq_true',← Bool.not_eq_true,
    Option.isNone_iff_eq_none,Table.lookup_none,not_not]

theorem not_recent : source ∉ recent settings history ↔ (held entries c).lookup source = none := by
  rw [← tracks.keys,Table.lookup_none]

theorem held_given (found : (held entries c).lookup source = some made) :
    (given lru settings history).lookup source = some made := tracks.latest _ (Table.mem_of_lookup found)

theorem bound : (held entries c).length ≤ c.settings.capacity := by
  have same := congrArg List.length tracks.keys
  rw [List.length_map] at same
  rw [same,tracks.settled]
  exact Recency.recent_length _ _

end Tracks

section
variable {request : Request} {made : Compiled}
variable (reached : after settings history = c) (asked : request.source? = some source)
include reached asked

theorem given_ok (top : Position) (answer : (c.compile source).1 = .ok made) :
    given lru settings ((top,request) :: history) = (source,made) :: given lru settings history := by
  rw [given,asked,reached]
  dsimp only
  rw [answer]

theorem given_error (top : Position) (answer : (c.compile source).1 = .error fault) :
    given lru settings ((top,request) :: history) = given lru settings history := by
  rw [given,asked,reached]
  dsimp only
  rw [answer]

end

-- All that a compilation can do: use a kept expression, fail, or make a new one.
inductive Outcome (entries : lru.Store → List (String × Compiled)) (capacity : lru.Store → Nat) (source : String)
    (c : CachingCompiler lru) : Except PathError Compiled × CachingCompiler lru → Prop
  | found {made : Compiled} {store : lru.Store} : (held entries c).lookup source = some made →
      Fits capacity { c with kept := some store } →
      entries store = (source,made) :: ((held entries c).filter fun entry => entry.1 != source) →
      Outcome entries capacity source c (.ok made,{ c with kept := some store, hits := c.hits + 1 })
  | faulty {fault : PathError} : (held entries c).lookup source = none →
      PathExpr.compileWith c.settings source = .error fault →
      Outcome entries capacity source c (.error fault,{ c with misses := c.misses + 1 })
  | new {expression : PathExpr} {kept : Option lru.Store} : (held entries c).lookup source = none →
      PathExpr.compileWith c.settings source = .ok expression → Fits capacity { c with kept } →
      ((kept.map entries).getD [] = if c.settings.capacity = 0 then []
        else (source,⟨c.next,expression⟩) :: (held entries c).take (c.settings.capacity - 1)) →
      Outcome entries capacity source c
        (.ok ⟨c.next,expression⟩,{ c with kept, misses := c.misses + 1, next := c.next + 1 })

theorem compile_outcome (documented : lru.Documented entries capacity) (fits : Fits capacity c)
    (bound : (held entries c).length ≤ c.settings.capacity) (source : String) :
    Outcome entries capacity source c (c.compile source) := by
  cases found : (held entries c).lookup source with
  | some made =>
      obtain ⟨store,looked,fits,entered⟩ := lookup_found documented fits found
      rw [compile_found looked]
      exact .found found fits entered
  | none =>
      have looked := lookup_absent documented found
      cases compiled : PathExpr.compileWith c.settings source with
      | error fault =>
          rw [compile_faulty looked compiled]
          exact .faulty found compiled
      | ok expression =>
          let missed : CachingCompiler lru := { c with misses := c.misses + 1, next := c.next + 1 }
          have missedFits : Fits capacity missed := fits
          obtain ⟨kept,stored,fits,entered⟩ := store_new documented missedFits bound found ⟨c.next,expression⟩
          rw [compile_new looked compiled]
          show Outcome entries capacity source c (_,missed.store source _)
          rw [stored]
          exact .new found compiled fits entered

section
variable {request : Request} {made : Compiled} {later : CachingCompiler lru} (top : Position)
variable (reached : after settings history = c) (tracks : Tracks entries capacity settings history c)
variable (asked : request.source? = some source)
include reached tracks asked

theorem tracks_found (found : (held entries c).lookup source = some made) (compiled : c.compile source = (.ok made,later))
    (settled : later.settings = c.settings) (next : later.next = c.next) (fits : Fits capacity later)
    (entered : held entries later = (source,made) :: (held entries c).filter fun entry => entry.1 != source) :
    Tracks entries capacity settings ((top,request) :: history) later := by
  have earlier := Table.mem_of_lookup (tracks.held_given found)
  have now := given_ok reached asked top (congrArg Prod.fst compiled)
  have sound := tracks.sound _ earlier
  refine ⟨settled.trans tracks.settled,fits,?_,?_,?_,?_⟩
  · rw [entered,recent,Compiler.uses_ok top history asked sound,
      Recency.recent_again (tracks.mem_recent.mpr ⟨made,found⟩)]
    show source :: _ = source :: (recent settings history).filter (· != source)
    rw [← tracks.keys,List.filter_map]
    rfl
  · intro entry member
    rw [entered] at member
    rw [now]
    rcases List.mem_cons.mp member with rfl | other
    · simp
    · obtain ⟨inside,apart⟩ := List.mem_filter.mp other
      have unequal : (entry.1 == source) = false := by simpa using apart
      rw [List.lookup_cons,unequal]
      exact tracks.latest entry inside
  · rw [now,next]
    exact List.forall_mem_cons.mpr ⟨tracks.numbered _ earlier,tracks.numbered⟩
  · rw [now]
    exact List.forall_mem_cons.mpr ⟨sound,tracks.sound⟩

theorem tracks_faulty (faulty : PathExpr.compileWith settings source = .error fault)
    (compiled : c.compile source = (.error fault,{ c with misses := c.misses + 1 })) :
    Tracks entries capacity settings ((top,request) :: history) { c with misses := c.misses + 1 } := by
  have now := given_error reached asked top (congrArg Prod.fst compiled)
  refine ⟨tracks.settled,tracks.fits,?_,?_,?_,?_⟩
  · rw [recent,Compiler.uses_error top history asked faulty]
    exact tracks.keys
  · rw [now]
    exact tracks.latest
  · rw [now]
    exact tracks.numbered
  · rw [now]
    exact tracks.sound

theorem tracks_new (absent : (held entries c).lookup source = none)
    (sound : PathExpr.compileWith settings source = .ok made.expression)
    (compiled : c.compile source = (.ok made,later)) (settled : later.settings = c.settings)
    (number : made.serial = c.next) (next : later.next = c.next + 1) (fits : Fits capacity later)
    (entered : held entries later = if settings.capacity = 0 then []
      else (source,made) :: (held entries c).take (settings.capacity - 1)) :
    Tracks entries capacity settings ((top,request) :: history) later := by
  have now := given_ok reached asked top (congrArg Prod.fst compiled)
  refine ⟨settled.trans tracks.settled,fits,?_,?_,?_,?_⟩
  · rw [entered,recent,Compiler.uses_ok top history asked sound]
    split
    · rename_i zero
      rw [zero,Recency.recent,List.take_zero]
      rfl
    · rename_i room
      rw [Recency.recent_new (Nat.pos_of_ne_zero room) (tracks.not_recent.mpr absent),List.map_cons,List.map_take,tracks.keys]
      rfl
  · intro entry member
    rw [entered] at member
    rw [now]
    split at member
    · cases member
    · rcases List.mem_cons.mp member with rfl | other
      · simp
      · have inside := List.mem_of_mem_take other
        have apart : entry.1 ≠ source := fun same => Table.lookup_none.mp absent (same ▸ List.mem_map_of_mem inside)
        rw [List.lookup_cons,beq_eq_false_iff_ne.mpr apart]
        exact tracks.latest entry inside
  · rw [now,next]
    have own : made.serial < c.next + 1 := Nat.lt_succ_of_le (Nat.le_of_eq number)
    exact List.forall_mem_cons.mpr ⟨own,fun entry member => Nat.lt_succ_of_lt (tracks.numbered entry member)⟩
  · rw [now]
    exact List.forall_mem_cons.mpr ⟨sound,tracks.sound⟩

theorem tracks_compile (documented : lru.Documented entries capacity) :
    Tracks entries capacity settings ((top,request) :: history) (c.compile source).2 := by
  have settled := tracks.settled
  generalize compiled : c.compile source = result
  cases compiled ▸ compile_outcome documented tracks.fits tracks.bound source with
  | found found fits entered => exact tracks_found top reached tracks asked found compiled rfl rfl fits entered
  | faulty _ faulty => exact tracks_faulty top reached tracks asked (by rwa [← settled]) compiled
  | new absent made fits entered =>
      rw [settled] at made entered
      exact tracks_new top reached tracks asked absent made compiled rfl rfl rfl fits entered

end

theorem tracks_nothing (settled : c.settings = settings) (fits : Fits capacity c) (nothing : held entries c = [])
    (unused : Compiler.uses settings history = []) (numbered : ∀ entry ∈ given lru settings history,entry.2.serial < c.next)
    (sound : ∀ entry ∈ given lru settings history,PathExpr.compileWith settings entry.1 = .ok entry.2.expression) :
    Tracks entries capacity settings history c := by
  refine ⟨settled,fits,?_,?_,numbered,sound⟩
  · rw [nothing,recent,unused]
    exact List.take_nil.symm
  · rw [nothing]
    exact fun _ member => (List.not_mem_nil member).elim

theorem tracks_start (documented : lru.Documented entries capacity) (settings : Path.Settings) :
    Tracks entries capacity settings [] (start settings : CachingCompiler lru) := by
  have unserved : ∀ entry,entry ∉ given lru settings [] := fun _ => List.not_mem_nil
  by_cases zero : settings.capacity = 0
  · have kept : (start settings : CachingCompiler lru).kept = none := if_pos zero
    refine tracks_nothing rfl ?_ ?_ rfl (fun _ member => (unserved _ member).elim) fun _ member => (unserved _ member).elim
    · rw [Fits,kept]
      exact zero
    · rw [held,kept]
      rfl
  · have kept : (start settings : CachingCompiler lru).kept = some (lru.create settings.capacity) := if_neg zero
    have room := Nat.pos_of_ne_zero zero
    refine tracks_nothing rfl ?_ ?_ rfl (fun _ member => (unserved _ member).elim) fun _ member => (unserved _ member).elim
    · rw [Fits,kept]
      exact ⟨room,documented.create_capacity room⟩
    · rw [held,kept]
      exact documented.create_entries room

theorem tracks_clear (documented : lru.Documented entries capacity) (top : Position)
    (tracks : Tracks entries capacity settings history c) :
    Tracks entries capacity settings ((top,.clear) :: history) c.clear := by
  obtain ⟨settled,fits,_,_,numbered,sound⟩ := tracks
  obtain ⟨chosen,kept,hits,misses,next⟩ := c
  cases kept with
  | none => exact tracks_nothing settled fits rfl rfl numbered sound
  | some store =>
      exact tracks_nothing settled ⟨fits.1,documented.clear_capacity.trans fits.2⟩ documented.clear_entries rfl numbered sound

section
variable (documented : lru.Documented entries capacity)
include documented

theorem after_tracks (settings : Path.Settings) (history : History) :
    Tracks entries capacity settings history (after settings history : CachingCompiler lru) := by
  induction history with
  | nil => exact tracks_start documented settings
  | cons served history ih =>
      obtain ⟨top,request⟩ := served
      cases request with
      | compile source => exact tracks_compile top rfl ih rfl documented
      | evaluate source => exact tracks_compile top rfl ih rfl documented
      | contains source => exact ⟨ih.settled,ih.fits,ih.keys,ih.latest,ih.numbered,ih.sound⟩
      | clear => exact tracks_clear documented top ih

theorem Tracks.compiled (tracks : Tracks entries capacity settings history c) (source : String) :
    (c.compile source).1.map Compiled.expression = PathExpr.compileWith settings source := by
  have settled := tracks.settled
  have outcome := compile_outcome documented tracks.fits tracks.bound source
  generalize c.compile source = result at outcome ⊢
  cases outcome with
  | found found =>
      rw [tracks.sound _ (Table.mem_of_lookup (tracks.held_given found))]
      rfl
  | faulty _ faulty =>
      rw [← settled,faulty]
      rfl
  | new _ made =>
      rw [← settled,made]
      rfl

theorem Tracks.serves (tracks : Tracks entries capacity settings history c) : Serves settings history c where
  size := by rw [held_size documented,← tracks.keys,List.length_map]
  bound := by
    rw [held_size documented,← tracks.settled]
    exact tracks.bound
  contains source := by rw [held_contains documented,tracks.keys]
  compiled := tracks.compiled documented
  evaluated top source := by
    rw [← tracks.compiled documented source]
    show (c.compile source).1.map (fun made => made.expression.evaluate top) = _
    cases (c.compile source).1 <;> rfl
  evaluating _ _ := rfl
  hit source member := by
    obtain ⟨made,kept⟩ := tracks.mem_recent.mp member
    have outcome := compile_outcome documented tracks.fits tracks.bound source
    generalize c.compile source = result at outcome ⊢
    cases outcome with
    | found found =>
        cases kept.symm.trans found
        exact ⟨made,tracks.held_given found,rfl,rfl,rfl⟩
    | faulty absent | new absent => cases kept.symm.trans absent
  miss source outside := by
    have missing := tracks.not_recent.mp outside
    have outcome := compile_outcome documented tracks.fits tracks.bound source
    generalize c.compile source = result at outcome ⊢
    cases outcome with
    | found found => cases missing.symm.trans found
    | faulty => exact ⟨fun _ made => (nomatch made),rfl,rfl⟩
    | new =>
        refine ⟨?_,rfl,rfl⟩
        intro made same earlier member
        cases same
        exact Nat.ne_of_lt (tracks.numbered earlier member)
  failed source fault faulty := by
    have outcome := compile_outcome documented tracks.fits tracks.bound source
    generalize c.compile source = result at outcome faulty ⊢
    cases outcome with
    | found | new => cases faulty
    | faulty => rfl
  asked _ _ := rfl

-- The answers are those without any keeping, for any requests served before.
theorem after_exact (settings : Path.Settings) (history : History) :
    Serves settings history (after settings history : CachingCompiler lru) :=
  (after_tracks documented settings history).serves documented

end
end

-- Three sources for two places: the one that goes was used longest ago.
def couple : Path.Settings := ⟨2,.round false 8 10⟩

def evicting : History :=
  ["c","a","b","a"].map fun source => (⟨.mk 0 "root" .empty [],[]⟩,.compile source)

theorem after_evicting : (Recency.latest : Recency Compiled).Documented Recency.Latest.entries Recency.Latest.capacity ∧
    let c : Compiler := after couple evicting
    c.size = 2 ∧ c.contains "a" = true ∧ ¬ c.contains "b" = true := by
  have serves := after_exact Recency.latest_documented couple evicting
  have kept : recent couple evicting = ["c","a"] := by decide +kernel
  refine ⟨Recency.latest_documented,?_,?_,?_⟩
  · rw [serves.size,kept]
    rfl
  · rw [serves.contains,kept]
    decide
  · rw [serves.contains,kept]
    decide

end CachingCompiler
end SharedTree
