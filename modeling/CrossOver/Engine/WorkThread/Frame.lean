import CrossOver.Engine.Network.State
import CrossOver.Lib.Transition

/-!
# Frames of the work thread

`WorkThread::Run` with its timers, cut into the steps between which Lua code may
run: tasks, timer callbacks and socket callbacks call `add_timer`,
`remove_timer` and `stop_all_timer`.  An `IntervalTimer*` is a reference into a
heap whose entries disappear when the object is deleted.

Time is counted in milliseconds without end; `getMSTime` is what a `uint32`
keeps of it.  `due` is `next_time` without that loss; no function reads it.
-/

namespace CrossOver.Engine.WorkThread

open CrossOver.Lib
open CrossOver.Engine.Network (HandleInfo)

abbrev TimerRef := Nat

structure IntervalTimer where
  index : UInt32
  interval : UInt32
  lastTime : UInt32
  handler : HandleInfo
  isDelete : Bool
  deriving DecidableEq, Repr

namespace IntervalTimer

def create (index curTime interval : UInt32) (handler : HandleInfo) : IntervalTimer where
  index := index
  interval := interval
  lastTime := curTime
  handler := handler
  isDelete := false

/-- `Update`: whether the timer fires, and the timer afterwards. -/
def update (timer : IntervalTimer) (curTime : UInt32) : Bool × IntervalTimer :=
  if timer.interval.toInt32 ≤ (curTime - timer.lastTime).toInt32 then
    (true, { timer with lastTime := curTime })
  else (false, timer)

end IntervalTimer

inductive LogEntry where
  /-- `new IntervalTimer` -/
  | added (t : TimerRef) (index : UInt32) (handler : HandleInfo)
  /-- `TimerTask::process` -/
  | fired (t : TimerRef) (index : UInt32)
  /-- `toluafix_remove_function_by_refid` for the handler of `t` -/
  | functionRemoved (t : TimerRef) (refid : UInt32)
  /-- `toluafix_remove_param_by_refid` for the handler of `t` -/
  | paramRemoved (t : TimerRef) (refid : UInt32)
  | deleted (t : TimerRef)
  deriving DecidableEq, Repr

inductive Phase where
  /-- before the loop; `init_handler_` runs here -/
  | starting
  | tasks
  /-- the pass over `timer_map_`, with what lies ahead of its iterator -/
  | timers (ahead : List TimerRef)
  /-- in `EventLoop`, which will not return before the given time -/
  | sockets (earliest : Nat)
  | stopped
  | destroyed
  deriving DecidableEq, Repr

structure State where
  heap : TimerRef → Option IntervalTimer
  nextRef : TimerRef
  timerMap : List (UInt32 × TimerRef)
  delTimerList : List TimerRef
  autoTimerIdx : UInt32
  nextTime : UInt32
  phase : Phase
  now : Nat
  due : Nat
  log : List LogEntry

def invalidIndex : UInt32 := 0xFFFFFFFF

/-- The length of a frame. -/
def waitTime : UInt32 := 100

/-- The `int32` that `Run` passes to `EventLoop`. -/
def timeout (nextTime curTime : UInt32) : Int :=
  if curTime < nextTime then (nextTime - curTime).toInt32.toInt else 0

namespace State

def initial : State where
  heap _ := none
  nextRef := 0
  timerMap := []
  delTimerList := []
  autoTimerIdx := 1
  nextTime := 0
  phase := .starting
  now := 0
  due := 0
  log := []

def getMSTime (s : State) : UInt32 := UInt32.ofNat s.now

/-- The clock never goes back. -/
def advance (s : State) (time : Nat) : Option State :=
  if s.now ≤ time then some { s with now := time } else none

def setTimer (s : State) (t : TimerRef) (timer : IntervalTimer) : State :=
  { s with heap := Function.update s.heap t (some timer) }

def find (s : State) (index : UInt32) : Option TimerRef :=
  (s.timerMap.find? fun entry => entry.1 = index).map Prod.snd

def timers (s : State) : List TimerRef := s.timerMap.map Prod.snd

/-- Lua code runs in this phase. -/
def isScripted (s : State) : Bool :=
  match s.phase with
  | .stopped => false
  | .destroyed => false
  | _ => true

/-! ## What a script may call -/

/-- The index and the next one.  The loop that should skip an index in use
counts another variable up, so it never ends. -/
def makeGeneralTimerID (s : State) : Option (UInt32 × UInt32) :=
  if (s.find s.autoTimerIdx).isSome then none
  else
    let next := s.autoTimerIdx + 1
    some (s.autoTimerIdx, if next = invalidIndex then 1 else next)

/-- What an insertion leaves ahead of an iterator of the pass. -/
def reorder (s : State) (ahead : List TimerRef) : Option State :=
  match s.phase with
  | .timers _ => if ahead ⊆ s.timers then some { s with phase := .timers ahead } else none
  | _ => some s

def addTimer (s : State) (interval : UInt32) (handler : HandleInfo) (ahead : List TimerRef) :
    Option State := do
  let (timerIdx, next) ← s.makeGeneralTimerID
  let timer := IntervalTimer.create timerIdx s.getMSTime interval handler
  let s := s.setTimer s.nextRef timer
  let s := { s with
    nextRef := s.nextRef + 1
    timerMap := s.timerMap ++ [(timerIdx, s.nextRef)]
    autoTimerIdx := next
    log := s.log ++ [LogEntry.added s.nextRef timerIdx handler] }
  s.reorder ahead

/-- The body shared by `remove_timer` and `stop_all_timer`. -/
def markDeleted (s : State) (t : TimerRef) : Option State := do
  let timer ← s.heap t
  if timer.isDelete then some s
  else
    let s := s.setTimer t { timer with isDelete := true }
    some { s with delTimerList := s.delTimerList ++ [t] }

def removeTimer (s : State) (index : UInt32) : Option State :=
  match s.find index with
  | none => some s
  | some t => s.markDeleted t

def stopLoop : List (UInt32 × TimerRef) → State → Option State
  | [], s => some s
  | (_, t) :: rest, s => do
      let s ← s.markDeleted t
      stopLoop rest s

def stopAllTimer (s : State) : Option State := stopLoop s.timerMap s

/-! ## The loop -/

/-- `TimerTask::DeleteTimer` from the destructor, and the end of the object. -/
def released (t : TimerRef) (handler : HandleInfo) : List LogEntry :=
  (if handler.funId > 0 then [.functionRemoved t handler.funId] else []) ++
    (if handler.paramId > 0 then [.paramRemoved t handler.paramId] else []) ++ [.deleted t]

def delete (s : State) (t : TimerRef) (timer : IntervalTimer) : State :=
  { s with
    heap := Function.update s.heap t none
    log := s.log ++ released t timer.handler }

def sweepLoop : List TimerRef → State → Option State
  | [], s => some s
  | t :: rest, s => do
      let timer ← s.heap t
      let s := { s with timerMap := s.timerMap.filter fun entry => entry.1 ≠ timer.index }
      sweepLoop rest (s.delete t timer)

/-- The timers in `del_timer_list_` are deleted, and the pass begins. -/
def sweep (s : State) (order : List TimerRef) : Option State := do
  let s ← sweepLoop s.delTimerList s
  let s := { s with delTimerList := [] }
  if order.Perm s.timers then some { s with phase := .timers order } else none

/-- One turn of the pass. -/
def visit (s : State) (t : TimerRef) (ahead : List TimerRef) : Option State := do
  let s := { s with phase := .timers ahead }
  let timer ← s.heap t
  if timer.isDelete then some s
  else
    let (ret, timer) := timer.update s.getMSTime
    let s := s.setTimer t timer
    if ret then some { s with log := s.log ++ [.fired t timer.index] }
    else some s

def destroyLoop : List (UInt32 × TimerRef) → State → Option State
  | [], s => some s
  | (_, t) :: rest, s => do
      let timer ← s.heap t
      destroyLoop rest (s.delete t timer)

/-- `~WorkThread` -/
def destroy (s : State) : Option State := do
  let s := { s with delTimerList := [] }
  let s ← destroyLoop s.timerMap s
  some { s with timerMap := [], phase := .destroyed }

end State

/-! ## Runs -/

/-- A step with the time at which it reads the clock and what it finds there:
whether `is_running_` is still set, and the order in which the map is passed. -/
inductive Label where
  | start (time : Nat) (isRunning : Bool)
  | addTimer (time : Nat) (interval : UInt32) (handler : HandleInfo) (ahead : List TimerRef)
  | removeTimer (index : UInt32)
  | stopAllTimer
  | sweep (order : List TimerRef)
  | visit (time : Nat)
  | eventLoop (time : Nat)
  | endFrame (time : Nat) (isRunning : Bool)
  | destroy

def running (isRunning : Bool) : Phase := if isRunning then .tasks else .stopped

def Label.exec : Label → State → Option State
  | .start time isRunning, s =>
      match s.phase with
      | .starting => do
          let s ← s.advance time
          some { s with
            nextTime := s.getMSTime + waitTime
            due := time + waitTime.toNat
            phase := running isRunning }
      | _ => none
  | .addTimer time interval handler ahead, s =>
      if s.isScripted then do
        let s ← s.advance time
        s.addTimer interval handler ahead
      else none
  | .removeTimer index, s => if s.isScripted then s.removeTimer index else none
  | .stopAllTimer, s => if s.isScripted then s.stopAllTimer else none
  | .sweep order, s =>
      match s.phase with
      | .tasks => s.sweep order
      | _ => none
  | .visit time, s =>
      match s.phase with
      | .timers (t :: ahead) => do
          let s ← s.advance time
          s.visit t ahead
      | _ => none
  | .eventLoop time, s =>
      match s.phase with
      | .timers [] => do
          let s ← s.advance time
          some { s with phase := .sockets (time + (timeout s.nextTime s.getMSTime).toNat) }
      | _ => none
  | .endFrame time isRunning, s =>
      match s.phase with
      | .sockets earliest =>
          if earliest ≤ time then do
            let s ← s.advance time
            some { s with
              nextTime := s.nextTime + waitTime
              due := s.due + waitTime.toNat
              phase := running isRunning }
          else none
      | _ => none
  | .destroy, s =>
      match s.phase with
      | .stopped => s.destroy
      | _ => none

def system : System State Label where
  initial s := s = State.initial
  step s label s' := label.exec s = some s'

/-- A run given by its labels. -/
def play : List Label → State → Option State
  | [], s => some s
  | label :: rest, s => do
      let s ← label.exec s
      play rest s

theorem play_reachable {guard : State → Label → Prop} {s s' : State}
    (reached : (system.restrict guard).Reachable s) (labels : List Label)
    (allowed : ∀ label ∈ labels, ∀ s, guard s label) (played : play labels s = some s') :
    (system.restrict guard).Reachable s' := by
  induction labels generalizing s with
  | nil =>
      obtain rfl := Option.some.inj played
      exact reached
  | cons label rest inductionHypothesis =>
      obtain ⟨between, stepped, played⟩ := Option.bind_eq_some_iff.mp played
      have obeys : guard s label := allowed label List.mem_cons_self s
      refine inductionHypothesis (.next reached ⟨obeys, stepped⟩) ?_ played
      intro later inside
      exact allowed later (List.mem_cons_of_mem _ inside)

/-! ## What the functions can do -/

section Cases

variable {s s' : State} {t : TimerRef}

theorem advance_cases {time : Nat} (advanced : s.advance time = some s') :
    s.now ≤ time ∧ s' = { s with now := time } := by
  unfold State.advance at advanced
  split at advanced
  · next later => exact ⟨later, (Option.some.inj advanced).symm⟩
  · cases advanced

theorem setTimer_cases {timer found : IntervalTimer} {other : TimerRef}
    (holds : (s.setTimer t timer).heap other = some found) :
    other = t ∧ found = timer ∨ other ≠ t ∧ s.heap other = some found := by
  by_cases mine : other = t
  · subst mine
    exact Or.inl ⟨rfl, by simpa [State.setTimer] using holds.symm⟩
  · exact Or.inr ⟨mine, by simpa [State.setTimer, mine] using holds⟩

/-- The new timer is the last of the map, under an index that was free. -/
def State.added (s : State) (interval : UInt32) (handler : HandleInfo) (next : UInt32) : State :=
  { s.setTimer s.nextRef (.create s.autoTimerIdx s.getMSTime interval handler) with
    nextRef := s.nextRef + 1
    timerMap := s.timerMap ++ [(s.autoTimerIdx, s.nextRef)]
    autoTimerIdx := next
    log := s.log ++ [.added s.nextRef s.autoTimerIdx handler] }

theorem reorder_cases {ahead : List TimerRef} (reordered : s.reorder ahead = some s') :
    s' = s ∨ ∃ before, s.phase = .timers before ∧ ahead ⊆ s.timers ∧
      s' = { s with phase := .timers ahead } := by
  unfold State.reorder at reordered
  split at reordered
  · next before phase =>
      split at reordered
      · next inside => exact Or.inr ⟨before, phase, inside, (Option.some.inj reordered).symm⟩
      · cases reordered
  · exact Or.inl (Option.some.inj reordered).symm

theorem addTimer_cases {interval : UInt32} {handler : HandleInfo} {ahead : List TimerRef}
    (added : s.addTimer interval handler ahead = some s') :
    s.find s.autoTimerIdx = none ∧
      ∃ next, (s.added interval handler next).reorder ahead = some s' := by
  unfold State.addTimer State.makeGeneralTimerID at added
  split at added
  · cases added
  · next free => exact ⟨Option.not_isSome_iff_eq_none.mp free, _, added⟩

def State.marked (s : State) (t : TimerRef) (timer : IntervalTimer) : State :=
  { s.setTimer t { timer with isDelete := true } with delTimerList := s.delTimerList ++ [t] }

theorem markDeleted_cases (called : s.markDeleted t = some s') :
    ∃ timer, s.heap t = some timer ∧
      (timer.isDelete = true ∧ s' = s ∨ timer.isDelete = false ∧ s' = s.marked t timer) := by
  unfold State.markDeleted at called
  obtain ⟨timer, present, called⟩ := Option.bind_eq_some_iff.mp called
  refine ⟨timer, present, ?_⟩
  split at called
  · next marked => exact Or.inl ⟨marked, (Option.some.inj called).symm⟩
  · next unmarked =>
      exact Or.inr ⟨Bool.eq_false_iff.mpr unmarked, (Option.some.inj called).symm⟩

theorem removeTimer_cases {index : UInt32} (removed : s.removeTimer index = some s') :
    s.find index = none ∧ s' = s ∨ ∃ t, s.find index = some t ∧ s.markDeleted t = some s' := by
  unfold State.removeTimer at removed
  split at removed
  · next unknown => exact Or.inl ⟨unknown, (Option.some.inj removed).symm⟩
  · next t known => exact Or.inr ⟨t, known, removed⟩

/-- A turn of the pass goes over a deleted timer, moves its clock on or fires it. -/
theorem visit_cases {ahead : List TimerRef} (visited : s.visit t ahead = some s') :
    ∃ timer, s.heap t = some timer ∧
      (timer.isDelete = true ∧ s' = { s with phase := .timers ahead } ∨
        timer.isDelete = false ∧ ∃ lastTime entries,
          (entries = [] ∨ entries = [.fired t timer.index]) ∧
          s' = { s.setTimer t { timer with lastTime := lastTime } with
            phase := .timers ahead, log := s.log ++ entries }) := by
  unfold State.visit at visited
  obtain ⟨timer, present, visited⟩ := Option.bind_eq_some_iff.mp visited
  refine ⟨timer, present, ?_⟩
  split at visited
  · next marked => exact Or.inl ⟨marked, (Option.some.inj visited).symm⟩
  · next unmarked =>
      refine Or.inr ⟨Bool.eq_false_iff.mpr unmarked, ?_⟩
      unfold IntervalTimer.update at visited
      dsimp only at visited
      split at visited
      · exact ⟨_, _, Or.inr rfl, (Option.some.inj visited).symm⟩
      · refine ⟨timer.lastTime, [], Or.inl rfl, ?_⟩
        rw [List.append_nil]
        exact (Option.some.inj visited).symm

end Cases

/-- What a step can do. -/
inductive Move (s : State) : Label → State → Prop where
  | start {time : Nat} {isRunning : Bool} : s.phase = .starting → s.now ≤ time →
      Move s (.start time isRunning)
        { s with
          now := time
          nextTime := UInt32.ofNat time + waitTime
          due := time + waitTime.toNat
          phase := running isRunning }
  | addTimer {time : Nat} {interval : UInt32} {handler : HandleInfo} {ahead : List TimerRef}
      {s' : State} : s.isScripted = true → s.now ≤ time →
      State.addTimer { s with now := time } interval handler ahead = some s' →
      Move s (.addTimer time interval handler ahead) s'
  | removeTimer {index : UInt32} {s' : State} : s.isScripted = true →
      s.removeTimer index = some s' → Move s (.removeTimer index) s'
  | stopAllTimer {s' : State} : s.isScripted = true → s.stopAllTimer = some s' →
      Move s .stopAllTimer s'
  | sweep {order : List TimerRef} {swept : State} : s.phase = .tasks →
      State.sweepLoop s.delTimerList s = some swept → order.Perm swept.timers →
      Move s (.sweep order) { swept with delTimerList := [], phase := .timers order }
  | visit {time : Nat} {t : TimerRef} {ahead : List TimerRef} {s' : State} :
      s.phase = .timers (t :: ahead) → s.now ≤ time →
      State.visit { s with now := time } t ahead = some s' → Move s (.visit time) s'
  | eventLoop {time : Nat} : s.phase = .timers [] → s.now ≤ time →
      Move s (.eventLoop time)
        { s with
          now := time
          phase := .sockets (time + (timeout s.nextTime (UInt32.ofNat time)).toNat) }
  | endFrame {time earliest : Nat} {isRunning : Bool} : s.phase = .sockets earliest →
      earliest ≤ time → s.now ≤ time →
      Move s (.endFrame time isRunning)
        { s with
          now := time
          nextTime := s.nextTime + waitTime
          due := s.due + waitTime.toNat
          phase := running isRunning }
  | destroy {destroyed : State} : s.phase = .stopped →
      State.destroyLoop s.timerMap { s with delTimerList := [] } = some destroyed →
      Move s .destroy { destroyed with timerMap := [], phase := .destroyed }

theorem step_cases {s s' : State} {label : Label} (stepped : label.exec s = some s') :
    Move s label s' := by
  cases label with
  | start time isRunning =>
      simp only [Label.exec] at stepped
      split at stepped
      · next phase =>
          obtain ⟨_, advanced, stepped⟩ := Option.bind_eq_some_iff.mp stepped
          obtain ⟨later, rfl⟩ := advance_cases advanced
          obtain rfl := Option.some.inj stepped
          exact .start phase later
      · cases stepped
  | addTimer time interval handler ahead =>
      simp only [Label.exec] at stepped
      split at stepped
      · next scripted =>
          obtain ⟨_, advanced, added⟩ := Option.bind_eq_some_iff.mp stepped
          obtain ⟨later, rfl⟩ := advance_cases advanced
          exact .addTimer scripted later added
      · cases stepped
  | removeTimer index =>
      simp only [Label.exec] at stepped
      split at stepped
      · next scripted => exact .removeTimer scripted stepped
      · cases stepped
  | stopAllTimer =>
      simp only [Label.exec] at stepped
      split at stepped
      · next scripted => exact .stopAllTimer scripted stepped
      · cases stepped
  | sweep order =>
      simp only [Label.exec] at stepped
      split at stepped
      · next phase =>
          obtain ⟨swept, begun, stepped⟩ := Option.bind_eq_some_iff.mp stepped
          dsimp only at stepped
          split at stepped
          · next permuted =>
              obtain rfl := Option.some.inj stepped
              exact .sweep phase begun permuted
          · cases stepped
      · cases stepped
  | visit time =>
      simp only [Label.exec] at stepped
      split at stepped
      · next t ahead phase =>
          obtain ⟨_, advanced, visited⟩ := Option.bind_eq_some_iff.mp stepped
          obtain ⟨later, rfl⟩ := advance_cases advanced
          exact .visit phase later visited
      · cases stepped
  | eventLoop time =>
      simp only [Label.exec] at stepped
      split at stepped
      · next phase =>
          obtain ⟨_, advanced, stepped⟩ := Option.bind_eq_some_iff.mp stepped
          obtain ⟨later, rfl⟩ := advance_cases advanced
          obtain rfl := Option.some.inj stepped
          exact .eventLoop phase later
      · cases stepped
  | endFrame time isRunning =>
      simp only [Label.exec] at stepped
      split at stepped
      · next earliest phase =>
          split at stepped
          · next slept =>
              obtain ⟨_, advanced, stepped⟩ := Option.bind_eq_some_iff.mp stepped
              obtain ⟨later, rfl⟩ := advance_cases advanced
              obtain rfl := Option.some.inj stepped
              exact .endFrame phase slept later
          · cases stepped
      · cases stepped
  | destroy =>
      simp only [Label.exec] at stepped
      split at stepped
      · next phase =>
          obtain ⟨destroyed, gone, stepped⟩ := Option.bind_eq_some_iff.mp stepped
          obtain rfl := Option.some.inj stepped
          exact .destroy phase gone
      · cases stepped

end CrossOver.Engine.WorkThread
