import Mathlib.Logic.Function.Basic
import CrossOver.Lib.Transition

/-!
# `Event` and the worker loops that sleep on it

`Connection::Run`, `MongoConnection::Run` and `HTTPAccessor_impl::Run` share
one loop: while running, pop the queue until it is empty, then `Event::Wait`.
A producer pushes an element, or clears `is_running_`, and then calls
`Event::Notify`.  The Linux `Event` is a semaphore with a flag `is_block_`:
`Notify` posts only if the flag is set, and `Wait` sets it before `sem_wait`
and clears it afterwards.

Every section under a lock and every semaphore operation is one step here.
The flag is not set together with the last failing pop, so a `Notify` that
falls in between posts nothing although the consumer is about to sleep.
`Missed` names exactly these calls: without them no wakeup is lost
(`asleep_of_heard`), and after one of them the consumer can go to sleep on a
non-empty queue or after the end of the run (`missed_strands`).
-/

namespace CrossOver.Engine.Event

open CrossOver.Lib

inductive Consumer where
  /-- `while (is_running_)` -/
  | test
  /-- `query_list_.pop(query)`, with the work on a popped query before the next pop -/
  | pop
  /-- `Wait`: `is_block_ = true` under the lock -/
  | block
  /-- `Wait`: `sem_wait` -/
  | wait
  /-- `Wait`: `is_block_ = false` under the lock -/
  | unblock
  /-- the loop has been left -/
  | done
  deriving DecidableEq, Repr

/-- What a producer still has to do: nothing, or the `Notify` after a push or
after clearing `is_running_`. -/
inductive Producer where
  | idle
  | pushed
  | stopped
  deriving DecidableEq, Repr

structure State (Element ProducerId : Type) where
  queue : List Element
  isRunning : Bool
  isBlock : Bool
  semaphore : Nat
  consumer : Consumer
  producer : ProducerId → Producer

inductive Label (Element ProducerId : Type) where
  | consume
  | pushBack (producer : ProducerId) (element : Element)
  | pushFront (producer : ProducerId) (element : Element)
  | stop (producer : ProducerId)
  | notify (producer : ProducerId)

variable {Element ProducerId : Type} [DecidableEq ProducerId]

namespace State

def setProducer (s : State Element ProducerId) (i : ProducerId) (now : Producer) :
    State Element ProducerId :=
  { s with producer := Function.update s.producer i now }

/-- One step of the consumer; `none` when it sleeps or has left its loop. -/
def consume (s : State Element ProducerId) : Option (State Element ProducerId) :=
  match s.consumer with
  | .test => some { s with consumer := if s.isRunning then .pop else .done }
  | .pop =>
      match s.queue with
      | [] => some { s with consumer := .block }
      | _ :: rest => some { s with queue := rest }
  | .block => some { s with isBlock := true, consumer := .wait }
  | .wait =>
      match s.semaphore with
      | 0 => none
      | value + 1 => some { s with semaphore := value, consumer := .unblock }
  | .unblock => some { s with isBlock := false, consumer := .test }
  | .done => none

/-- `Event::Notify`, under its read lock. -/
def notify (s : State Element ProducerId) : State Element ProducerId :=
  if s.isBlock then { s with semaphore := s.semaphore + 1 } else s

def next (s : State Element ProducerId) :
    Label Element ProducerId → Option (State Element ProducerId)
  | .consume => s.consume
  | .pushBack i element =>
      if s.producer i = .idle then
        some ({ s with queue := s.queue ++ [element] }.setProducer i .pushed)
      else none
  | .pushFront i element =>
      if s.producer i = .idle then
        some ({ s with queue := element :: s.queue }.setProducer i .pushed)
      else none
  | .stop i =>
      if s.producer i = .idle then
        some ({ s with isRunning := false }.setProducer i .stopped)
      else none
  | .notify i =>
      if s.producer i = .idle then none else some (s.notify.setProducer i .idle)

/-- The thread has been activated and nothing has been queued yet. -/
def start : State Element ProducerId :=
  { queue := [], isRunning := true, isBlock := true, semaphore := 0, consumer := .test,
    producer := fun _ => .idle }

/-- The consumer sleeps in `sem_wait` and no producer is on its way to wake it. -/
def Asleep (s : State Element ProducerId) : Prop :=
  s.consumer = .wait ∧ s.semaphore = 0 ∧ ∀ i, s.producer i = .idle

/-- A sleeping consumer has nothing to do. -/
def NoLostWakeup (s : State Element ProducerId) : Prop :=
  s.Asleep → s.queue = [] ∧ s.isRunning = true

/-- A `Notify` that posts nothing although the consumer has already made the
check that would have shown it the change: the last pop for a push, the test of
`is_running_` for a stop. -/
def Missed (s : State Element ProducerId) (i : ProducerId) : Prop :=
  s.isBlock = false ∧ s.semaphore = 0 ∧
    ((s.producer i = .pushed ∧ s.consumer = .block ∧ s.queue ≠ []) ∨
      (s.producer i = .stopped ∧ (s.consumer = .pop ∨ s.consumer = .block)))

end State

def worker : System (State Element ProducerId) (Label Element ProducerId) where
  initial s := s = State.start
  step s label t := s.next label = some t

/-- No `Notify` of the run is missed. -/
def Heard (s : State Element ProducerId) : Label Element ProducerId → Prop
  | .notify i => ¬ s.Missed i
  | _ => True

/-- What a consumer past its last check can rely on. -/
structure State.Wakeable (s : State Element ProducerId) : Prop where
  armed : s.consumer = .wait → s.isBlock = true
  queued : (s.consumer = .block ∨ s.consumer = .wait) → s.queue ≠ [] →
    0 < s.semaphore ∨ ∃ i, s.producer i = .pushed
  ended : (s.consumer = .pop ∨ s.consumer = .block ∨ s.consumer = .wait) →
    s.isRunning = false → 0 < s.semaphore ∨ ∃ i, s.producer i = .stopped

namespace State

variable {s t : State Element ProducerId}

omit [DecidableEq ProducerId] in
theorem start_wakeable : (start : State Element ProducerId).Wakeable := by
  constructor <;> simp [start]

omit [DecidableEq ProducerId] in
theorem Wakeable.noLostWakeup (wakeable : s.Wakeable) : s.NoLostWakeup := by
  rintro ⟨waiting, zero, idle⟩
  constructor
  · by_contra pending
    rcases wakeable.queued (.inr waiting) pending with posted | ⟨i, pushed⟩
    · omega
    · simp [idle i] at pushed
  · by_contra stopped
    have ended : s.isRunning = false := by simpa using stopped
    rcases wakeable.ended (.inr (.inr waiting)) ended with posted | ⟨i, stopping⟩
    · omega
    · simp [idle i] at stopping

omit [DecidableEq ProducerId] in
theorem Wakeable.consume (wakeable : s.Wakeable) (step : s.consume = some t) : t.Wakeable := by
  obtain ⟨armed, queued, ended⟩ := wakeable
  unfold State.consume at step
  cases position : s.consumer with
  | test =>
      simp only [position, Option.some.injEq] at step
      subst step
      cases s.isRunning <;> constructor <;> simp
  | pop =>
      rw [position] at ended
      cases elements : s.queue with
      | nil =>
          simp only [position, elements, Option.some.injEq] at step
          subst step
          exact ⟨by simp, by simp, fun _ => ended (by simp)⟩
      | cons element rest =>
          simp only [position, elements, Option.some.injEq] at step
          subst step
          exact ⟨by simp, by simp, fun _ => ended (by simp)⟩
  | block =>
      rw [position] at queued ended
      simp only [position, Option.some.injEq] at step
      subst step
      exact ⟨by simp, fun _ => queued (by simp), fun _ => ended (by simp)⟩
  | wait =>
      cases value : s.semaphore with
      | zero => simp [position, value] at step
      | succ value' =>
          simp only [position, value, Option.some.injEq] at step
          subst step
          constructor <;> simp
  | unblock =>
      simp only [position, Option.some.injEq] at step
      subst step
      constructor <;> simp
  | done => simp [position] at step

theorem setProducer_busy {i : ProducerId} {busy now : Producer} (free : s.producer i = .idle)
    (someone : ∃ j, s.producer j = busy) (notIdle : busy ≠ .idle) :
    ∃ j, (s.setProducer i now).producer j = busy := by
  obtain ⟨j, hj⟩ := someone
  refine ⟨j, ?_⟩
  have other : j ≠ i := by
    rintro rfl
    exact notIdle (hj.symm.trans free)
  simp [setProducer, other, hj]

theorem setProducer_self (i : ProducerId) (now : Producer) :
    ∃ j, (s.setProducer i now).producer j = now := ⟨i, by simp [setProducer]⟩

theorem Wakeable.push (wakeable : s.Wakeable) {i : ProducerId} (free : s.producer i = .idle)
    (queue : List Element) : ({ s with queue := queue }.setProducer i .pushed).Wakeable where
  armed := wakeable.armed
  queued _ _ := .inr (setProducer_self i .pushed)
  ended position stopped :=
    (wakeable.ended position stopped).imp_right fun someone =>
      setProducer_busy (s := { s with queue := queue }) free someone (by simp)

theorem Wakeable.stop (wakeable : s.Wakeable) {i : ProducerId} (free : s.producer i = .idle) :
    ({ s with isRunning := false }.setProducer i .stopped).Wakeable where
  armed := wakeable.armed
  queued position pending :=
    (wakeable.queued position pending).imp_right fun someone =>
      setProducer_busy (s := { s with isRunning := false }) free someone (by simp)
  ended _ _ := .inr (setProducer_self i .stopped)

/-- A call that is not missed either posts, or finds the consumer before its
last check, or finds a post that has not been consumed yet. -/
theorem Wakeable.notify (wakeable : s.Wakeable) {i : ProducerId} (heard : ¬ s.Missed i)
    (busy : s.producer i ≠ .idle) : (s.notify.setProducer i .idle).Wakeable := by
  obtain ⟨armed, queued, ended⟩ := wakeable
  cases flag : s.isBlock with
  | true =>
      have posted : s.notify = { s with semaphore := s.semaphore + 1 } := by simp [State.notify, flag]
      rw [posted]
      exact ⟨fun _ => flag, fun _ _ => .inl (Nat.succ_pos _), fun _ _ => .inl (Nat.succ_pos _)⟩
  | false =>
      have unposted : s.notify = s := by simp [State.notify, flag]
      rw [unposted]
      have awake : s.consumer ≠ .wait := fun waiting => by simp [armed waiting] at flag
      refine ⟨fun waiting => absurd waiting awake, ?_, ?_⟩
      · intro position pending
        have blocking : s.consumer = .block := position.resolve_right awake
        rcases queued position pending with posted | ⟨j, pushed⟩
        · exact .inl posted
        by_cases same : j = i
        · subst same
          refine .inl (Nat.pos_of_ne_zero fun zero => ?_)
          exact heard ⟨flag, zero, .inl ⟨pushed, blocking, pending⟩⟩
        · exact .inr ⟨j, by simp [setProducer, same, pushed]⟩
      · intro position stopped
        have early : s.consumer = .pop ∨ s.consumer = .block := by
          rcases position with popping | blocking | waiting
          · exact .inl popping
          · exact .inr blocking
          · exact absurd waiting awake
        rcases ended position stopped with posted | ⟨j, stopping⟩
        · exact .inl posted
        by_cases same : j = i
        · subst same
          refine .inl (Nat.pos_of_ne_zero fun zero => ?_)
          exact heard ⟨flag, zero, .inr ⟨stopping, early⟩⟩
        · exact .inr ⟨j, by simp [setProducer, same, stopping]⟩

/-- Everything a step can do. -/
theorem next_cases {label : Label Element ProducerId} (step : s.next label = some t) :
    s.consume = some t ∨
      (∃ i queue, s.producer i = .idle ∧ t = { s with queue := queue }.setProducer i .pushed) ∨
      (∃ i, s.producer i = .idle ∧ t = { s with isRunning := false }.setProducer i .stopped) ∨
      ∃ i, label = .notify i ∧ s.producer i ≠ .idle ∧ t = s.notify.setProducer i .idle := by
  cases label with
  | consume => exact .inl step
  | pushBack i element =>
      simp only [State.next, Option.ite_none_right_eq_some, Option.some.injEq] at step
      exact .inr (.inl ⟨i, _, step.1, step.2.symm⟩)
  | pushFront i element =>
      simp only [State.next, Option.ite_none_right_eq_some, Option.some.injEq] at step
      exact .inr (.inl ⟨i, _, step.1, step.2.symm⟩)
  | stop i =>
      simp only [State.next, Option.ite_none_right_eq_some, Option.some.injEq] at step
      exact .inr (.inr (.inl ⟨i, step.1, step.2.symm⟩))
  | notify i =>
      simp only [State.next, Option.ite_none_left_eq_some, Option.some.injEq] at step
      exact .inr (.inr (.inr ⟨i, rfl, step.1, step.2.symm⟩))

theorem Wakeable.next (wakeable : s.Wakeable) {label : Label Element ProducerId}
    (heard : Heard s label) (step : s.next label = some t) : t.Wakeable := by
  rcases next_cases step with consumed | ⟨i, queue, free, rfl⟩ | ⟨i, free, rfl⟩ |
    ⟨i, rfl, busy, rfl⟩
  · exact wakeable.consume consumed
  · exact wakeable.push free queue
  · exact wakeable.stop free
  · exact wakeable.notify heard busy

omit [DecidableEq ProducerId] in
/-- The consumer changes neither `is_running_` nor what the producers owe. -/
theorem consume_frame (step : s.consume = some t) :
    t.producer = s.producer ∧ t.isRunning = s.isRunning := by
  unfold State.consume at step
  split at step
  all_goals (try split at step) <;> simp only [Option.some.injEq, reduceCtorEq] at step
  all_goals
    subst step
    exact ⟨rfl, rfl⟩

omit [DecidableEq ProducerId] in
theorem notify_frame : s.notify.producer = s.producer ∧ s.notify.isRunning = s.isRunning := by
  unfold State.notify
  split <;> exact ⟨rfl, rfl⟩

end State

theorem reachable_wakeable {s : State Element ProducerId}
    (reached : (worker.restrict Heard).Reachable s) : s.Wakeable := by
  induction reached with
  | start initial =>
      cases initial
      exact State.start_wakeable
  | next _ step inductionHypothesis => exact inductionHypothesis.next step.1 step.2

theorem setProducer_stopped {s : State Element ProducerId} {i j : ProducerId} {now : Producer}
    (other : now ≠ .stopped) (found : (s.setProducer j now).producer i = .stopped) :
    s.producer i = .stopped := by
  by_cases same : i = j
  · simp [State.setProducer, same, other] at found
  · simpa [State.setProducer, same] using found

/-- Once a producer has cleared `is_running_`, it stays cleared. -/
theorem stopped_isRunning {s : State Element ProducerId} {i : ProducerId}
    (reached : worker.Reachable s) (stopping : s.producer i = .stopped) : s.isRunning = false := by
  induction reached generalizing i with
  | start initial =>
      cases initial
      simp [State.start] at stopping
  | @next s t label _ step inductionHypothesis =>
      rcases State.next_cases step with consumed | ⟨j, queue, _, rfl⟩ | ⟨j, _, rfl⟩ |
        ⟨j, _, _, rfl⟩
      · obtain ⟨producers, running⟩ := State.consume_frame consumed
        exact running.trans (inductionHypothesis (producers ▸ stopping))
      · exact inductionHypothesis (setProducer_stopped (by simp) stopping)
      · rfl
      · obtain ⟨producers, running⟩ := s.notify_frame
        have before := setProducer_stopped (by simp) stopping
        exact running.trans (inductionHypothesis (producers ▸ before))

/-- The consumer alone, from its last failing pop to `sem_wait`. -/
theorem reaches_wait_of_block {s : State Element ProducerId} (reached : worker.Reachable s)
    (position : s.consumer = .block) :
    worker.Reachable ({ s with isBlock := true, consumer := .wait } :
      State Element ProducerId) := by
  have step : s.next .consume = some { s with isBlock := true, consumer := .wait } := by
    simp [State.next, State.consume, position]
  exact .next reached step

/-- The consumer alone empties the queue before it goes to `Wait`. -/
theorem reaches_block_of_pop (queue : List Element) (s : State Element ProducerId)
    (elements : s.queue = queue) (reached : worker.Reachable s) (position : s.consumer = .pop) :
    worker.Reachable ({ s with queue := [], consumer := .block } :
      State Element ProducerId) := by
  induction queue generalizing s with
  | nil =>
      have step : s.next .consume = some { s with queue := [], consumer := .block } := by
        simp [State.next, State.consume, position, elements]
      exact .next reached step
  | cons element rest inductionHypothesis =>
      have step : s.next .consume = some { s with queue := rest } := by
        simp [State.next, State.consume, position, elements]
      exact inductionHypothesis { s with queue := rest } rfl (.next reached step) position

/-- After a missed call of the only busy producer the consumer falls asleep
with work to do. -/
theorem missed_strands {s : State Element ProducerId} {i : ProducerId}
    (reached : worker.Reachable s) (missed : s.Missed i)
    (others : ∀ j, j ≠ i → s.producer j = .idle) :
    ∃ t : State Element ProducerId, worker.Reachable t ∧ ¬ t.NoLostWakeup := by
  obtain ⟨flag, zero, reason⟩ := missed
  have busy : s.producer i ≠ .idle := by
    rcases reason with ⟨pushed, _⟩ | ⟨stopped, _⟩ <;> simp [*]
  have quiet : s.notify = s := by simp [State.notify, flag]
  have step : s.next (.notify i) = some (s.setProducer i .idle) := by
    simp [State.next, busy, quiet]
  have called : worker.Reachable (s.setProducer i .idle) := .next reached step
  have idle : ∀ j, (s.setProducer i .idle).producer j = .idle := by
    intro j
    by_cases same : j = i
    · simp [State.setProducer, same]
    · simp [State.setProducer, same, others j same]
  rcases reason with ⟨_, blocking, pending⟩ | ⟨stopping, position⟩
  · refine ⟨_, reaches_wait_of_block called blocking, fun kept => ?_⟩
    exact pending (kept ⟨rfl, zero, idle⟩).1
  · have ended := stopped_isRunning reached stopping
    have blocked : ∃ t : State Element ProducerId, worker.Reachable t ∧ t.consumer = .block ∧
        t.semaphore = 0 ∧ (∀ j, t.producer j = .idle) ∧ t.isRunning = false := by
      rcases position with popping | blocking
      · exact ⟨_, reaches_block_of_pop _ _ rfl called popping, rfl, zero, idle, ended⟩
      · exact ⟨_, called, blocking, zero, idle, ended⟩
    obtain ⟨t, tReached, tBlocking, tZero, tIdle, tEnded⟩ := blocked
    refine ⟨_, reaches_wait_of_block tReached tBlocking, fun kept => ?_⟩
    have running := (kept ⟨rfl, tZero, tIdle⟩).2
    simp [tEnded] at running

/-- In every run whose `Notify` calls are all heard a sleeping consumer has
nothing to do; and each call that is missed while no other producer is busy can
be followed by a sleep on pending work. -/
theorem asleep_idle_of_heard :
    (∀ s : State Element ProducerId, (worker.restrict Heard).Reachable s → s.NoLostWakeup) ∧
      ∀ (s : State Element ProducerId) (i : ProducerId), worker.Reachable s → s.Missed i →
        (∀ j, j ≠ i → s.producer j = .idle) →
        ∃ t : State Element ProducerId, worker.Reachable t ∧ ¬ t.NoLostWakeup :=
  ⟨fun _ reached => (reachable_wakeable reached).noLostWakeup,
    fun _ _ reached missed others => missed_strands reached missed others⟩

theorem reachable_of_run {s t : State Element ProducerId} (labels : List (Label Element ProducerId))
    (reached : worker.Reachable s) (run : labels.foldlM State.next s = some t) :
    worker.Reachable t := by
  induction labels generalizing s with
  | nil =>
      simp only [List.foldlM_nil, Option.pure_def, Option.some.injEq] at run
      exact run ▸ reached
  | cons label rest inductionHypothesis =>
      simp only [List.foldlM_cons, Option.bind_eq_bind, Option.bind_eq_some_iff] at run
      obtain ⟨middle, step, remaining⟩ := run
      exact inductionHypothesis (.next reached step) remaining

/-- The consumer waits, is woken for the first element and pops it.  The second
push and its `Notify` fall between the pop that fails and the next `Wait`. -/
theorem push_before_wait_lost :
    ∃ t : State Nat Unit, worker.Reachable t ∧ ¬ t.NoLostWakeup := by
  refine ⟨_, reachable_of_run
    [.consume, .consume, .consume, .pushBack () 1, .notify (), .consume, .consume, .consume,
      .consume, .consume, .pushBack () 2, .notify (), .consume] (.start rfl) rfl, ?_⟩
  intro kept
  have empty := (kept ⟨rfl, rfl, fun _ => rfl⟩).1
  exact absurd empty (by decide)

end CrossOver.Engine.Event
