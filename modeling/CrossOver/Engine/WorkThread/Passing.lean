import CrossOver.Engine.WorkThread.Timers
import CrossOver.Lib.Traversal

/-!
# The pass over `timer_map_` and its callbacks

`Run` passes the map with an iterator while the callbacks of the timers call
`add_timer`.  The map is an `unordered_map` with a maximal load factor of one: an
insertion for which there are too few buckets rehashes, and then no iterator is
valid any more.  Any other insertion puts the new element ahead of the iterator
or behind it.  `lua_stop` is `stop_all_timer` followed by `add_timer`.

Each step is one of the thread's; what is new is the number of buckets, whether
the iterator is valid, and what the pass found at each turn.
-/

namespace CrossOver.Engine.WorkThread

open CrossOver.Lib
open CrossOver.Engine.Network (HandleInfo)

/-- What the pass found when it came to a timer. -/
structure Turn where
  timer : TimerRef
  removed : Bool
  due : Bool
  deriving DecidableEq, Repr

def Turn.fires (turn : Turn) : Bool := !turn.removed && turn.due

structure Pass where
  thread : State
  bucketCount : Nat
  /-- the iterator has survived all insertions -/
  valid : Bool
  turns : List Turn

structure Rehash where
  bucketCount : Nat
  order : List TimerRef

/-- What the pass does next, or a callback during the current turn. -/
inductive Act where
  | turn (time : Nat)
  | addTimer (time : Nat) (interval : UInt32) (handler : HandleInfo) (place : Nat)
      (rehash : Rehash)
  | removeTimer (index : UInt32)
  | stopAllTimer

namespace Pass

def ahead (p : Pass) : List TimerRef :=
  match p.thread.phase with
  | .timers ahead => ahead
  | _ => []

/-- One more element does not exceed the load factor. -/
def HasRoom (p : Pass) : Prop := p.thread.timerMap.length + 1 ≤ p.bucketCount

instance (p : Pass) : Decidable p.HasRoom :=
  inferInstanceAs (Decidable (p.thread.timerMap.length + 1 ≤ p.bucketCount))

/-- What the pass finds in the timer that it comes to. -/
def turnAt (p : Pass) (time : Nat) (t : TimerRef) : Option Turn :=
  (p.thread.heap t).map fun timer =>
    { timer := t, removed := timer.isDelete, due := (timer.update (UInt32.ofNat time)).1 }

end Pass

/-- There is no way on for an iterator that is not valid. -/
def Act.exec : Act → Pass → Option Pass
  | .turn time, p =>
      if p.valid then do
        let t ← p.ahead.head?
        let turn ← p.turnAt time t
        let s ← Label.exec (.visit time) p.thread
        some { p with thread := s, turns := p.turns ++ [turn] }
      else none
  | .addTimer time interval handler place rehash, p =>
      if p.HasRoom then do
        let ahead := p.ahead.insertIdx place p.thread.nextRef
        let s ← Label.exec (.addTimer time interval handler ahead) p.thread
        some { p with thread := s }
      else do
        let s ← Label.exec (.addTimer time interval handler rehash.order) p.thread
        some { p with thread := s, bucketCount := rehash.bucketCount, valid := false }
  | .removeTimer index, p => do
      let s ← Label.exec (.removeTimer index) p.thread
      some { p with thread := s }
  | .stopAllTimer, p => do
      let s ← Label.exec .stopAllTimer p.thread
      some { p with thread := s }

namespace Pass

def play : List Act → Pass → Option Pass
  | [], p => some p
  | act :: rest, p => do
      let p ← act.exec p
      play rest p

/-- A pass over any table that the thread can have. -/
structure Starts (p : Pass) : Prop where
  reached : system.Reachable p.thread
  begun : ∃ order, p.thread.phase = .timers order ∧ order.Perm p.thread.timers
  valid : p.valid = true
  turns : p.turns = []

/-- The iterator is valid, and if the pass is over every timer that was there at
its start has had one turn, at which it fired if it was due and not removed. -/
structure Survived (start p : Pass) : Prop where
  valid : p.valid = true
  once : p.ahead = [] → ∀ t ∈ start.thread.timers,
    ∃ turn, p.turns.filter (fun turn => turn.timer = t) = [turn] ∧
      p.thread.fires t = start.thread.fires t + if turn.fires then 1 else 0

end Pass

/-- The act does not rehash the map. -/
def Act.Fits (p : Pass) : Act → Prop
  | .addTimer _ _ _ _ _ => p.HasRoom
  | _ => True

/-- None of the acts of a run rehashes the map. -/
def Pass.AllFit : List Act → Pass → Prop
  | [], _ => True
  | act :: rest, p => act.Fits p ∧ ∀ p', act.exec p = some p' → Pass.AllFit rest p'

/-! ## What an act does to the pass -/

section Calls

variable {s s' : State} {t : TimerRef}

def State.passed (s : State) : List LogEntry × Phase × TimerRef := (s.log, s.phase, s.nextRef)

theorem markDeleted_passed (called : s.markDeleted t = some s') : s'.passed = s.passed := by
  obtain ⟨timer, -, ⟨-, rfl⟩ | ⟨-, rfl⟩⟩ := markDeleted_cases called
  · rfl
  · rfl

theorem stopLoop_passed {entries : List (UInt32 × TimerRef)}
    (stopped : State.stopLoop entries s = some s') : s'.passed = s.passed := by
  induction entries generalizing s with
  | nil =>
      obtain rfl := Option.some.inj stopped
      rfl
  | cons entry rest inductionHypothesis =>
      obtain ⟨between, called, stopped⟩ := Option.bind_eq_some_iff.mp stopped
      exact (inductionHypothesis stopped).trans (markDeleted_passed called)

theorem visit_passed {ahead : List TimerRef} {timer : IntervalTimer}
    (present : s.heap t = some timer) (visited : s.visit t ahead = some s') :
    s'.passed = (s.log ++ (if !timer.isDelete && (timer.update s.getMSTime).1
      then [.fired t timer.index] else []), .timers ahead, s.nextRef) := by
  have named : (timer.update s.getMSTime).2.index = timer.index := by
    unfold IntervalTimer.update
    split
    · rfl
    · rfl
  have unchanged : State.getMSTime { s with phase := .timers ahead } = s.getMSTime := rfl
  unfold State.visit at visited
  simp only [present, unchanged, Option.bind_eq_bind, Option.bind_some] at visited
  cases marked : timer.isDelete with
  | true =>
      rw [marked, if_pos rfl] at visited
      obtain rfl := Option.some.inj visited
      simp [State.passed]
  | false =>
      rw [marked, if_neg Bool.false_ne_true] at visited
      cases due : (timer.update s.getMSTime).1 with
      | true =>
          rw [due, if_pos rfl] at visited
          obtain rfl := Option.some.inj visited
          simp [State.passed, State.setTimer, named]
      | false =>
          rw [due, if_neg Bool.false_ne_true] at visited
          obtain rfl := Option.some.inj visited
          simp [State.passed, State.setTimer]

theorem addTimer_passed {interval : UInt32} {handler : HandleInfo} {before ahead : List TimerRef}
    (phase : s.phase = .timers before) (called : s.addTimer interval handler ahead = some s') :
    s'.passed = (s.log ++ [.added s.nextRef s.autoTimerIdx handler], .timers ahead,
      s.nextRef + 1) := by
  obtain ⟨-, next, reordered⟩ := addTimer_cases called
  unfold State.reorder at reordered
  simp only [show (s.added interval handler next).phase = .timers before from phase] at reordered
  split at reordered
  · obtain rfl := Option.some.inj reordered
    rfl
  · cases reordered

end Calls

namespace Pass

variable {start p p' : Pass} {act : Act} {t : TimerRef}

def traversal (p : Pass) : Traversal TimerRef where
  met := p.turns.map Turn.timer
  ahead := p.ahead

/-- As long as nothing rehashes the map. -/
structure Passing (start p : Pass) : Prop where
  valid : p.valid = true
  phase : p.thread.phase = .timers p.ahead
  allocated : ∀ t ∈ start.thread.timers, t < p.thread.nextRef
  once : ∀ t ∈ start.thread.timers, p.traversal.meetings t = 1
  fires : ∀ t ∈ start.thread.timers, p.thread.fires t =
    start.thread.fires t + (p.turns.filter fun turn => turn.timer = t).countP Turn.fires

theorem timers_nodup {s : State} (kept : Kept s) : s.timers.Nodup := by
  refine List.Nodup.map_on ?_ kept.owned.keys.of_map
  rintro ⟨index, t⟩ inside ⟨other, _⟩ otherInside rfl
  obtain ⟨timer, present, rfl⟩ := kept.owned.mapped index t inside
  obtain ⟨holder, holds, rfl⟩ := kept.owned.mapped other t otherInside
  obtain rfl := Option.some.inj (present.symm.trans holds)
  rfl

theorem Starts.passing (starts : start.Starts) : Passing start start := by
  have kept := reachable_kept starts.reached
  obtain ⟨order, phase, permuted⟩ := starts.begun
  have ahead : start.ahead = order := by
    unfold ahead
    rw [phase]
  refine ⟨starts.valid, by rw [ahead, phase], ?_, ?_, ?_⟩
  · intro t inside
    obtain ⟨timer, present⟩ := kept.present inside
    by_contra beyond
    cases (kept.owned.fresh t (Nat.le_of_not_lt beyond)).1.symm.trans present
  · intro t inside
    unfold Traversal.meetings traversal
    rw [starts.turns, ahead, permuted.count_eq, List.map_nil, List.count_nil, Nat.zero_add]
    exact List.count_eq_one_of_mem (timers_nodup kept) inside
  · intro t _
    rw [starts.turns]
    rfl

/-- An act that leaves turns and iterator alone. -/
theorem Passing.same (passing : Passing start p) {s : State}
    (passed : s.passed = p.thread.passed) : Passing start { p with thread := s } := by
  obtain ⟨log, rest⟩ := Prod.mk.inj passed
  obtain ⟨phase, nextRef⟩ := Prod.mk.inj rest
  have ahead : ({ p with thread := s } : Pass).ahead = p.ahead := by
    unfold Pass.ahead
    rw [phase]
  refine ⟨passing.valid, ?_, ?_, ?_, ?_⟩
  · rw [ahead]
    exact phase.trans passing.phase
  · intro t inside
    rw [nextRef]
    exact passing.allocated t inside
  · intro t inside
    unfold traversal
    rw [ahead]
    exact passing.once t inside
  · intro t inside
    unfold State.fires
    rw [log]
    exact passing.fires t inside

theorem Passing.turn (passing : Passing start p) {time : Nat}
    (executed : Act.exec (.turn time) p = some p') : Passing start p' := by
  rw [Act.exec, if_pos passing.valid] at executed
  obtain ⟨t, first, executed⟩ := Option.bind_eq_some_iff.mp executed
  obtain ⟨turn, found, executed⟩ := Option.bind_eq_some_iff.mp executed
  obtain ⟨s, stepped, executed⟩ := Option.bind_eq_some_iff.mp executed
  obtain rfl := Option.some.inj executed
  obtain ⟨timer, present, rfl⟩ := Option.map_eq_some_iff.mp found
  obtain ⟨rest, ahead⟩ : ∃ rest, p.ahead = t :: rest := List.head?_eq_some_iff.mp first
  have phase := passing.phase
  rw [ahead] at phase
  have visited : State.visit { p.thread with now := time } t rest = some s := by
    cases step_cases stepped with
    | visit before _ visited =>
        obtain ⟨rfl, rfl⟩ := List.cons.inj (Phase.timers.inj (phase.symm.trans before))
        exact visited
  have passed := visit_passed (by exact present) visited
  obtain ⟨log, passed⟩ := Prod.mk.inj passed
  obtain ⟨after, nextRef⟩ := Prod.mk.inj passed
  have behind : Pass.ahead { p with thread := s, turns := p.turns ++ [{
      timer := t, removed := timer.isDelete, due := (timer.update (UInt32.ofNat time)).1 }] } =
        rest := by
    unfold Pass.ahead
    rw [after]
  refine ⟨passing.valid, ?_, ?_, ?_, ?_⟩
  · rw [behind]
    exact after
  · intro other inside
    rw [nextRef]
    exact passing.allocated other inside
  · intro other inside
    have moved : p.traversal.advance.meetings other = p.traversal.meetings other :=
      Traversal.meetings_advance
    rw [← passing.once other inside, ← moved]
    unfold traversal Traversal.advance
    rw [behind, ahead, List.map_append]
    rfl
  · intro other inside
    rw [fires_append log other, List.filter_append, List.countP_append, ← Nat.add_assoc]
    change p.thread.fires other + _ = _
    rw [passing.fires other inside]
    congr 1
    by_cases mine : t = other
    · subst mine
      cases fires : (!timer.isDelete && (timer.update (UInt32.ofNat time)).1) with
      | true => simp [Turn.fires, fires, LogEntry.firedTimer, State.getMSTime]
      | false => simp [Turn.fires, fires, State.getMSTime]
    · cases fires : (!timer.isDelete && (timer.update (UInt32.ofNat time)).1) with
      | true => simp [mine, fires, LogEntry.firedTimer, State.getMSTime]
      | false => simp [mine, fires, State.getMSTime]

theorem Passing.addTimer (passing : Passing start p) {time place : Nat} {interval : UInt32}
    {handler : HandleInfo} {rehash : Rehash} (room : p.HasRoom)
    (executed : Act.exec (.addTimer time interval handler place rehash) p = some p') :
    Passing start p' := by
  rw [Act.exec, if_pos room] at executed
  obtain ⟨s, stepped, executed⟩ := Option.bind_eq_some_iff.mp executed
  obtain rfl := Option.some.inj executed
  have passed := by
    cases step_cases stepped with
    | addTimer _ _ called => exact addTimer_passed (by exact passing.phase) called
  obtain ⟨log, passed⟩ := Prod.mk.inj passed
  obtain ⟨after, nextRef⟩ := Prod.mk.inj passed
  have ahead : Pass.ahead { p with thread := s } = p.ahead.insertIdx place p.thread.nextRef := by
    unfold Pass.ahead
    rw [after]
    rfl
  refine ⟨passing.valid, ?_, ?_, ?_, ?_⟩
  · rw [ahead]
    exact after
  · intro t inside
    rw [nextRef]
    exact Nat.lt_succ_of_lt (passing.allocated t inside)
  · intro t inside
    have differ : t ≠ p.thread.nextRef := Nat.ne_of_lt (passing.allocated t inside)
    have moved : (p.traversal.insert place p.thread.nextRef).meetings t = p.traversal.meetings t :=
      Traversal.meetings_insert differ place
    rw [← passing.once t inside, ← moved]
    unfold traversal Traversal.insert
    rw [ahead]
  · intro t inside
    rw [fires_append log t]
    simp only [List.countP_cons, List.countP_nil, LogEntry.firedTimer]
    exact passing.fires t inside

theorem Passing.exec (passing : Passing start p) (fits : act.Fits p)
    (executed : act.exec p = some p') : Passing start p' := by
  cases act with
  | turn time => exact passing.turn executed
  | addTimer time interval handler place rehash => exact passing.addTimer fits executed
  | removeTimer index =>
      obtain ⟨s, stepped, executed⟩ := Option.bind_eq_some_iff.mp executed
      obtain rfl := Option.some.inj executed
      cases step_cases stepped with
      | removeTimer _ removed =>
          obtain ⟨-, rfl⟩ | ⟨t, -, called⟩ := removeTimer_cases removed
          · exact passing.same rfl
          · exact passing.same (markDeleted_passed called)
  | stopAllTimer =>
      obtain ⟨s, stepped, executed⟩ := Option.bind_eq_some_iff.mp executed
      obtain rfl := Option.some.inj executed
      cases step_cases stepped with
      | stopAllTimer _ stopped => exact passing.same (stopLoop_passed stopped)

/-! ## Runs of a pass -/

theorem Passing.play {acts : List Act} (passing : Passing start p) (fit : AllFit acts p)
    (played : Pass.play acts p = some p') : Passing start p' := by
  induction acts generalizing p with
  | nil =>
      obtain rfl := Option.some.inj played
      exact passing
  | cons act rest inductionHypothesis =>
      obtain ⟨between, executed, played⟩ := Option.bind_eq_some_iff.mp played
      exact inductionHypothesis (passing.exec fit.1 executed) (fit.2 between executed) played

theorem exec_valid (executed : act.exec p = some p') :
    p'.valid = true ↔ p.valid = true ∧ act.Fits p := by
  cases act with
  | turn time =>
      rw [Act.exec] at executed
      split at executed
      · obtain ⟨t, -, executed⟩ := Option.bind_eq_some_iff.mp executed
        obtain ⟨turn, -, executed⟩ := Option.bind_eq_some_iff.mp executed
        obtain ⟨s, -, executed⟩ := Option.bind_eq_some_iff.mp executed
        obtain rfl := Option.some.inj executed
        exact (and_iff_left trivial).symm
      · cases executed
  | addTimer time interval handler place rehash =>
      rw [Act.exec] at executed
      split at executed
      · next room =>
          obtain ⟨s, -, executed⟩ := Option.bind_eq_some_iff.mp executed
          obtain rfl := Option.some.inj executed
          exact (and_iff_left room).symm
      · next full =>
          obtain ⟨s, -, executed⟩ := Option.bind_eq_some_iff.mp executed
          obtain rfl := Option.some.inj executed
          exact iff_of_false Bool.false_ne_true fun fits => full fits.2
  | removeTimer index =>
      obtain ⟨s, -, executed⟩ := Option.bind_eq_some_iff.mp executed
      obtain rfl := Option.some.inj executed
      exact (and_iff_left trivial).symm
  | stopAllTimer =>
      obtain ⟨s, -, executed⟩ := Option.bind_eq_some_iff.mp executed
      obtain rfl := Option.some.inj executed
      exact (and_iff_left trivial).symm

theorem play_valid {acts : List Act} (played : play acts p = some p') :
    p'.valid = true ↔ p.valid = true ∧ AllFit acts p := by
  induction acts generalizing p with
  | nil =>
      obtain rfl := Option.some.inj played
      exact (and_iff_left trivial).symm
  | cons act rest inductionHypothesis =>
      obtain ⟨between, executed, played⟩ := Option.bind_eq_some_iff.mp played
      rw [inductionHypothesis played, exec_valid executed, AllFit, and_assoc]
      refine and_congr_right fun _ => and_congr_right fun _ => ?_
      constructor
      · intro fit other again
        obtain rfl := Option.some.inj (executed.symm.trans again)
        exact fit
      · exact fun fit => fit between executed

theorem Passing.survived (passing : Passing start p) : Survived start p := by
  refine ⟨passing.valid, fun ended t inside => ?_⟩
  have once := passing.once t inside
  unfold Traversal.meetings traversal at once
  rw [ended, List.count_nil, Nat.add_zero, List.count, List.countP_map,
    List.countP_eq_length_filter] at once
  obtain ⟨turn, alone⟩ := List.length_eq_one_iff.mp once
  have same : p.turns.filter (fun turn => turn.timer = t) = [turn] := by
    rw [← alone]
    congr 1
  refine ⟨turn, same, ?_⟩
  rw [passing.fires t inside, same, List.countP_singleton]

/-- The pass survives its callbacks exactly when none of their insertions rehashes
the map it is passing. -/
theorem survived_iff_allFit (starts : start.Starts) {acts : List Act}
    (played : play acts start = some p) : Survived start p ↔ AllFit acts start := by
  constructor
  · exact fun survived => ((play_valid played).mp survived.valid).2
  · exact fun fit => (starts.passing.play fit played).survived

/-! ## A callback that adds a timer -/

/-- The first frame comes to its pass with `count` timers. -/
def filling (count : Nat) : List Label :=
  [.start 0 true] ++ List.replicate count (.addTimer 0 10 { funId := 7 } []) ++
    [.sweep (List.range count)]

def passOver (count : Nat) (fills : (WorkThread.play (filling count) State.initial).isSome) :
    Pass where
  thread := (WorkThread.play (filling count) State.initial).get fills
  bucketCount := 13
  valid := true
  turns := []

theorem over_starts {count : Nat}
    (fills : (WorkThread.play (filling count) State.initial).isSome)
    (phase : (passOver count fills).thread.phase = .timers (List.range count))
    (timers : (passOver count fills).thread.timers = List.range count) :
    (passOver count fills).Starts := by
  have reached : (system.restrict fun _ _ => True).Reachable (passOver count fills).thread :=
    play_reachable (.start rfl) (filling count) (fun _ _ _ => trivial) (Option.some_get fills).symm
  refine ⟨reached.of_restrict, ⟨_, phase, ?_⟩, rfl, rfl⟩
  rw [timers]

theorem one_fills : (WorkThread.play (filling 1) State.initial).isSome = true := by decide +kernel

theorem thirteen_fill : (WorkThread.play (filling 13) State.initial).isSome = true := by
  decide +kernel

/-- The first timer is due, and its callback adds another. -/
def addition : List Act :=
  [.turn 20, .addTimer 20 10 { funId := 8 } 0 { bucketCount := 29, order := [] }]

theorem addition_plays : (play (addition ++ [.turn 30]) (passOver 1 one_fills)).isSome = true := by
  decide +kernel

theorem addition_over_one : ∃ p, Survived (passOver 1 one_fills) p ∧ p.thread.fires 0 = 1 ∧
    p.thread.fires 1 = 1 := by
  have starts := over_starts one_fills (by decide +kernel) (by decide +kernel)
  have played := (Option.some_get addition_plays).symm
  have valid : ((play (addition ++ [.turn 30]) (passOver 1 one_fills)).get addition_plays).valid =
      true := by decide +kernel
  have fit := ((play_valid played).mp valid).2
  exact ⟨_, (survived_iff_allFit starts played).mpr fit, by decide +kernel, by decide +kernel⟩

theorem addition_crowds : (play addition (passOver 13 thirteen_fill)).isSome = true := by
  decide +kernel

/-- With 13 timers in 13 buckets the addition rehashes the map under the pass. -/
theorem addition_over_thirteen : ∃ start p, start.Starts ∧ play addition start = some p ∧
    start.thread.timerMap.length ≤ start.bucketCount ∧ ¬Survived start p := by
  have starts := over_starts thirteen_fill (by decide +kernel) (by decide +kernel)
  refine ⟨_, _, starts, (Option.some_get addition_crowds).symm, by decide +kernel, ?_⟩
  intro survived
  have stale : ((play addition (passOver 13 thirteen_fill)).get addition_crowds).valid = false := by
    decide +kernel
  exact absurd survived.valid (by rw [stale]; exact Bool.false_ne_true)

end Pass

end CrossOver.Engine.WorkThread
