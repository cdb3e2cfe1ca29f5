import Mathlib
import CrossOver.Lib.Transition

/-!
# Counting the running threads

Every thread of the engine enters its name into a map of the scheduler before
its loop and takes it out behind it; `main` waits until the map is empty.  The
map is keyed by the name, and the names are numbered within one object only.
`Slot` is what a name tells apart: two connections with the same index of two
databases share one, and so do any two HTTP accessors.
-/

namespace CrossOver.Engine

open CrossOver.Lib

/-- `Scheduler_impl`, as far as it counts threads. -/
structure Scheduler where
  threadNameMap : List (String × String)
  deriving DecidableEq, Repr

namespace Scheduler

/-- `insert` leaves an entry that is there alone. -/
def addThreadRef (s : Scheduler) (threadName : String) : Scheduler :=
  if threadName ∈ s.threadNameMap.map Prod.fst then s
  else { s with threadNameMap := s.threadNameMap ++ [(threadName, threadName)] }

def removeThreadRef (s : Scheduler) (threadName : String) : Scheduler :=
  { s with threadNameMap := s.threadNameMap.filter fun entry => entry.1 ≠ threadName }

/-- The size of the map, as an `int32`. -/
def getThreadCount (s : Scheduler) : Int32 := Int32.ofNat s.threadNameMap.length

def mainWaits (s : Scheduler) : Bool := 0 < s.getThreadCount

end Scheduler

/-- A run of one of the five `Run` functions.  Connections and accessors are told apart by
a number; `idx` is the index of a connection in its database. -/
inductive Thread
  | connection (object idx : Nat)
  | mongoConnection (object idx : Nat)
  | httpAccessor (object : Nat)
  | workThread
  | consolePoller
  deriving DecidableEq, Repr

namespace Thread

/-- What `set_name` was called with. -/
def name : Thread → String
  | connection _ idx => "Connection " ++ toString idx
  | mongoConnection _ idx => "MongoConnection " ++ toString idx
  | httpAccessor _ => "HTTPAccessor thread"
  | workThread => "work thread"
  | consolePoller => "ConsolePoller thread"

inductive Slot
  | connection (idx : Nat)
  | mongoConnection (idx : Nat)
  | httpAccessor
  | workThread
  | consolePoller
  deriving DecidableEq, Repr

/-- A thread without the object that it belongs to. -/
def slot : Thread → Slot
  | connection _ idx => .connection idx
  | mongoConnection _ idx => .mongoConnection idx
  | httpAccessor _ => .httpAccessor
  | workThread => .workThread
  | consolePoller => .consolePoller

def Slot.name : Slot → String
  | connection idx => "Connection " ++ toString idx
  | mongoConnection idx => "MongoConnection " ++ toString idx
  | httpAccessor => "HTTPAccessor thread"
  | workThread => "work thread"
  | consolePoller => "ConsolePoller thread"

/-- The fourth character tells the five kinds of names apart. -/
def Slot.mark : Slot → Option Char
  | connection _ => some 'n'
  | mongoConnection _ => some 'g'
  | httpAccessor => some 'P'
  | workThread => some 'k'
  | consolePoller => some 's'

theorem Slot.name_mark (slot : Slot) : slot.name.toList[3]? = slot.mark := by
  cases slot <;> simp [name, mark, String.toList_append]

theorem name_eq (t : Thread) : t.name = t.slot.name := by
  cases t <;> rfl

theorem Slot.name_injective : Function.Injective Slot.name := by
  intro first second same
  have marks : first.mark = second.mark := by rw [← name_mark, ← name_mark, same]
  cases first <;> cases second <;> first
    | rfl
    | exact congrArg _ (Nat.repr_injective ((String.append_right_inj _).mp same))
    | simp [mark] at marks

/-- A name tells slots apart, and nothing more. -/
theorem name_eq_iff {t u : Thread} : t.name = u.name ↔ t.slot = u.slot := by
  rw [name_eq, name_eq, Slot.name_injective.eq_iff]

end Thread

/-! ## Threads that come and go -/

structure Threads where
  scheduler : Scheduler
  running : List Thread
  deriving DecidableEq, Repr

namespace Threads

inductive Move
  | enter (thread : Thread)
  | leave (thread : Thread)
  deriving DecidableEq, Repr

/-- The beginning of `Run`. -/
def enter (s : Threads) (thread : Thread) : Threads where
  scheduler := s.scheduler.addThreadRef thread.name
  running := s.running ++ [thread]

/-- The end of `Run`. -/
def leave (s : Threads) (thread : Thread) : Threads where
  scheduler := s.scheduler.removeThreadRef thread.name
  running := s.running.erase thread

inductive Step : Threads → Move → Threads → Prop where
  | enter {s : Threads} {thread : Thread} : thread ∉ s.running →
      Step s (.enter thread) (s.enter thread)
  | leave {s : Threads} {thread : Thread} : thread ∈ s.running →
      Step s (.leave thread) (s.leave thread)

def empty : Threads := { scheduler := { threadNameMap := [] }, running := [] }

def threads : System Threads Move where
  initial s := s = empty
  step := Step

def Counted (s : Threads) : Prop := s.scheduler.getThreadCount.toInt = s.running.length

/-- No running thread has the slot of a thread that enters, and there is room in an `int32`. -/
def Alone (s : Threads) : Move → Prop
  | .enter thread => (∀ other ∈ s.running, other.slot ≠ thread.slot) ∧
      s.running.length + 1 < 2 ^ 31
  | .leave _ => True

/-- What holds while every thread enters alone. -/
structure Tracked (s : Threads) : Prop where
  names : s.scheduler.threadNameMap.map Prod.fst = s.running.map Thread.name
  apart : (s.running.map Thread.name).Nodup
  few : s.running.length < 2 ^ 31

variable {s s' : Threads} {move : Move} {thread : Thread}

theorem getThreadCount_eq_iff {scheduler : Scheduler} {count : Nat}
    (length : scheduler.threadNameMap.length = count) :
    scheduler.getThreadCount.toInt = count ↔ count < 2 ^ 31 := by
  rw [Scheduler.getThreadCount, length]
  constructor
  · intro same
    have bound := (Int32.ofNat count).toInt_lt
    omega
  · exact Int32.toInt_ofNat_of_lt

theorem Tracked.length (tracked : Tracked s) :
    s.scheduler.threadNameMap.length = s.running.length := by
  rw [← List.length_map Prod.fst, tracked.names, List.length_map]

theorem Tracked.counted (tracked : Tracked s) : Counted s :=
  (getThreadCount_eq_iff tracked.length).mpr tracked.few

theorem Tracked.mainWaits_iff (tracked : Tracked s) :
    s.scheduler.mainWaits = true ↔ s.running ≠ [] := by
  have counted := tracked.counted
  rw [Counted] at counted
  rw [Scheduler.mainWaits, decide_eq_true_eq, Int32.lt_iff_toInt_lt, counted,
    ← List.length_pos_iff]
  simp

theorem Tracked.name_mem_iff (tracked : Tracked s) :
    thread.name ∈ s.scheduler.threadNameMap.map Prod.fst ↔
      ∃ other ∈ s.running, other.slot = thread.slot := by
  simp only [tracked.names, List.mem_map, Thread.name_eq_iff]

theorem Tracked.enter (tracked : Tracked s) (alone : Alone s (.enter thread)) :
    Tracked (s.enter thread) := by
  have free : thread.name ∉ s.scheduler.threadNameMap.map Prod.fst := by
    rw [tracked.name_mem_iff]
    rintro ⟨other, membership, same⟩
    exact alone.1 other membership same
  refine ⟨?_, ?_, ?_⟩
  · rw [Threads.enter, Scheduler.addThreadRef, if_neg free, List.map_append, tracked.names,
      List.map_append]
    rfl
  · rw [Threads.enter, List.map_append, List.map_singleton, ← List.concat_eq_append, List.nodup_concat,
      ← tracked.names]
    exact ⟨free, tracked.names ▸ tracked.apart⟩
  · rw [Threads.enter, List.length_append]
    exact alone.2

theorem Tracked.leave (tracked : Tracked s) (membership : thread ∈ s.running) :
    Tracked (s.leave thread) := by
  have apart : s.running.Nodup := .of_map Thread.name tracked.apart
  refine ⟨?_, ?_, ?_⟩
  · have others : ∀ other ∈ s.running, (other != thread) = decide (other.name ≠ thread.name) := by
      intro other running
      have same := List.inj_on_of_nodup_map tracked.apart running membership
      by_cases equal : other = thread
      · simp [equal]
      · simp [equal, mt (@same) equal]
    rw [Threads.leave, apart.erase_eq_filter, List.filter_congr others]
    have filtered := congrArg (List.filter fun name => decide (name ≠ thread.name)) tracked.names
    rw [List.filter_map, List.filter_map] at filtered
    exact filtered
  · exact tracked.apart.sublist (List.erase_sublist.map _)
  · exact (List.erase_sublist.length_le).trans_lt tracked.few

theorem Tracked.step (tracked : Tracked s) (alone : Alone s move) (step : Step s move s') :
    Tracked s' := by
  cases step with
  | enter _ => exact tracked.enter alone
  | leave membership => exact tracked.leave membership

/-- A thread that enters beside one of its slot is not counted. -/
theorem Tracked.alone_of_counted (tracked : Tracked s) (step : Step s move s') (counted : Counted s') :
    Alone s move := by
  cases step with
  | leave _ => trivial
  | @enter thread _ =>
      rw [Counted, Threads.enter, List.length_append, List.length_singleton] at counted
      have free : thread.name ∉ s.scheduler.threadNameMap.map Prod.fst := by
        intro taken
        have same : s.scheduler.addThreadRef thread.name = s.scheduler := if_pos taken
        have before := tracked.counted
        rw [same, show s.scheduler.getThreadCount.toInt = _ from before] at counted
        omega
      have length : (s.scheduler.addThreadRef thread.name).threadNameMap.length =
          s.running.length + 1 := by
        rw [Scheduler.addThreadRef, if_neg free, List.length_append, tracked.length,
          List.length_singleton]
      refine ⟨?_, (getThreadCount_eq_iff length).mp counted⟩
      intro other membership same
      exact free (tracked.name_mem_iff.mpr ⟨other, membership, same⟩)

theorem tracked_of_alone (reached : (threads.restrict Alone).Reachable s) : Tracked s := by
  induction reached with
  | start initial =>
      cases initial
      exact ⟨rfl, List.nodup_nil, by decide⟩
  | next _ step inductionHypothesis => exact inductionHypothesis.step step.1 step.2

/-- While every thread enters alone the count is right and `main` waits for all threads; and
the next step keeps the count right exactly when it is such a step. -/
theorem threadCount_exact (reached : (threads.restrict Alone).Reachable s) :
    Counted s ∧ (s.scheduler.mainWaits = true ↔ s.running ≠ []) ∧
      ∀ move s', threads.step s move s' → (Counted s' ↔ Alone s move) := by
  have tracked := tracked_of_alone reached
  refine ⟨tracked.counted, tracked.mainWaits_iff, ?_⟩
  intro move s' step
  exact ⟨tracked.alone_of_counted step, fun alone => (tracked.step alone step).counted⟩

/-- The work thread and two connections run, and an HTTP accessor may enter beside them. -/
theorem connections_counted : ∃ s,
    s.running = [.workThread, .connection 1 0, .connection 2 1] ∧ Counted s ∧
      (s.scheduler.mainWaits = true ↔ s.running ≠ []) ∧
      ∀ move s', threads.step s move s' → (Counted s' ↔ Alone s move) := by
  have first : Step empty (.enter .workThread) (empty.enter .workThread) :=
    .enter (by decide)
  have second : Step _ (.enter (.connection 1 0))
      ((empty.enter .workThread).enter (.connection 1 0)) := .enter (by decide)
  have third : Step _ (.enter (.connection 2 1))
      (((empty.enter .workThread).enter (.connection 1 0)).enter (.connection 2 1)) :=
    .enter (by decide)
  have firstAlone : Alone empty (.enter .workThread) := ⟨by decide, by decide⟩
  have secondAlone : Alone (empty.enter .workThread) (.enter (.connection 1 0)) :=
    ⟨by decide, by decide⟩
  have thirdAlone : Alone ((empty.enter .workThread).enter (.connection 1 0))
      (.enter (.connection 2 1)) := ⟨by decide, by decide⟩
  exact ⟨_, rfl, threadCount_exact (.next (.next (.next (.start rfl) ⟨firstAlone, first⟩)
    ⟨secondAlone, second⟩) ⟨thirdAlone, third⟩)⟩

/-- Two HTTP accessors run, the first one leaves, and `main` no longer waits for the other. -/
theorem second_accessor_not_counted : ¬ ∀ s, threads.Reachable s →
    Counted s ∧ (s.running ≠ [] → s.scheduler.mainWaits = true) := by
  intro always
  have first : Step empty (.enter (.httpAccessor 1)) (empty.enter (.httpAccessor 1)) :=
    .enter (by decide)
  have second : Step _ (.enter (.httpAccessor 2))
      ((empty.enter (.httpAccessor 1)).enter (.httpAccessor 2)) := .enter (by decide)
  have left : Step ((empty.enter (.httpAccessor 1)).enter (.httpAccessor 2))
      (.leave (.httpAccessor 1)) _ := .leave (by decide)
  have waits := (always _ (.next (.next (.next (.start rfl) first) second) left)).2 (by decide)
  exact absurd waits (by decide)

end Threads

end CrossOver.Engine
