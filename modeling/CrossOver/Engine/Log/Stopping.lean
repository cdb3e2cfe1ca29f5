import CrossOver.Engine.Log

/-!
# `StopWaitExit`

The caller clears `is_running_` and then polls `is_thread_exit_` with the mutex of the
logger in its hands.  It does not wake the log thread.  When that thread sleeps by then,
or is about to, only somebody else's `Notify` ends the wait, and `WriteLogFile` needs
the mutex for one.
-/

namespace CrossOver.Engine.Log

open CrossOver.Lib

variable {Caller : Type} {logLevel : Int} {buffSize : Nat}

def Call.stops : Call → Bool
  | .stopping => true
  | .polling => true
  | _ => false

def LogThread.left : LogThread → Bool
  | .close => true
  | .exit => true
  | .done => true
  | _ => false

/-- The mutex is where the calls say, and nobody runs the thread again. -/
structure Guarded (s : State Caller) : Prop where
  holder : ∀ i, s.mutex = some i ↔ (s.call i).guarded = true
  stopped : ∀ i, (s.call i).stops = true → s.isRunning = false
  leaving : s.thread.left = true → s.isRunning = false
  ended : s.isThreadExit = true ↔ s.thread = .done
  closed : s.thread = .exit ∨ s.thread = .done → s.flushed = s.fout.length

/-- The log thread waits for a semaphore that is zero, or is about to. -/
def Asleep (s : State Caller) : Prop :=
  s.semaphore = 0 ∧ (s.thread = .block ∨ s.thread = .wait)

instance (s : State Caller) : Decidable (Asleep s) :=
  inferInstanceAs (Decidable (s.semaphore = 0 ∧ (s.thread = .block ∨ s.thread = .wait)))

/-- Nobody calls `Notify`. -/
def quiet (_ : State Caller) : Label Caller → Prop
  | .notify _ => False
  | _ => True

variable [DecidableEq Caller]

namespace Guarded

variable {s t : State Caller}

omit [DecidableEq Caller] in
theorem only (guarded : Guarded s) {i j : Caller} (first : (s.call i).guarded = true)
    (second : (s.call j).guarded = true) : i = j :=
  Option.some.inj (((guarded.holder i).mpr first).symm.trans ((guarded.holder j).mpr second))

/-- A call that neither takes nor gives the mutex. -/
theorem setCall (guarded : Guarded s) {i : Caller} {now : Call}
    (same : now.guarded = (s.call i).guarded) (runs : now.stops = true → s.isRunning = false) :
    Guarded (s.setCall i now) :=
  { guarded with
    holder := State.forall_setCall (fun j call : _ => s.mutex = some j ↔ call.guarded = true)
      (same ▸ guarded.holder i) fun j _ => guarded.holder j
    stopped := State.forall_setCall (fun _ call => call.stops = true → s.isRunning = false)
      runs fun j _ => guarded.stopped j }

theorem lock (guarded : Guarded s) (free : s.mutex = none) {i : Caller} {now : Call}
    (takes : now.guarded = true) (runs : now.stops = true → s.isRunning = false) :
    Guarded ({ s with mutex := some i }.setCall i now) :=
  { guarded with
    holder := by
      apply State.forall_setCall fun j call => some i = some j ↔ call.guarded = true
      case changed => exact iff_of_true rfl takes
      case others =>
          intro j different
          apply iff_of_false (fun same => different (Option.some.inj same).symm)
          intro holds
          cases ((guarded.holder j).mpr holds).symm.trans free
    stopped := State.forall_setCall (fun _ call => call.stops = true → s.isRunning = false)
      runs fun j _ => guarded.stopped j }

theorem unlock (guarded : Guarded s) {i : Caller} (holds : (s.call i).guarded = true) :
    Guarded ({ s with mutex := none }.setCall i .idle) :=
  { guarded with
    holder := by
      apply State.forall_setCall fun j call => none = some j ↔ call.guarded = true
      case changed => exact iff_of_false (by simp) (by decide)
      case others =>
          intro j different
          apply iff_of_false (by simp)
          exact fun other => different (guarded.only other holds)
    stopped := State.forall_setCall (fun _ call => call.stops = true → s.isRunning = false)
      (fun stops => absurd stops (by decide)) fun j _ => guarded.stopped j }

omit [DecidableEq Caller] in
theorem turn (guarded : Guarded s) (ran : s.Turn t) : Guarded t := by
  have ended := guarded.ended
  cases ran with
  | test at' | block at' | wake _ at' | unblock at' | drained at' | unasked at' =>
      rw [at'] at ended
      exact { guarded with
        leaving := by simp [LogThread.left]
        ended := ended.trans (by simp)
        closed := by simp }
  | leave at' stopped =>
      rw [at'] at ended
      exact { guarded with
        leaving := fun _ => stopped
        ended := ended.trans (by simp)
        closed := by simp }
  | save at' =>
      rw [at'] at ended
      rcases s.flushRest_frame with ⟨flushed, frame⟩
      rw [frame]
      exact { guarded with
        leaving := by simp [LogThread.left]
        ended := ended.trans (by simp)
        closed := by simp }
  | record first rest at' =>
      rcases State.handle_frame { s with logList := rest } first with ⟨_, _, _, _, _, frame⟩
      rw [frame]
      exact { guarded with closed := by simp [at'] }
  | close at' =>
      rw [at'] at ended
      exact { guarded with
        leaving := fun _ => guarded.leaving (at' ▸ rfl)
        ended := ended.trans (by simp)
        closed := fun _ => rfl }
  | exit at' =>
      exact { guarded with
        leaving := fun _ => guarded.leaving (at' ▸ rfl)
        ended := iff_of_true rfl rfl
        closed := fun _ => guarded.closed (.inl at') }

end Guarded

section Runs

variable {s t : State Caller}

omit [DecidableEq Caller] in
theorem Guarded.notify (guarded : Guarded s) : Guarded s.notify := by
  unfold State.notify
  split
  case isTrue => exact { guarded with }
  case isFalse => exact guarded

omit [DecidableEq Caller] in
theorem notify_call (s : State Caller) : s.notify.call = s.call := by
  unfold State.notify
  split <;> rfl

theorem Guarded.next (guarded : Guarded s) {label : Label Caller} (step : s.Next label t) :
    Guarded t := by
  cases step with
  | thread ran => exact guarded.turn ran
  | writeLogFile idle => exact guarded.setCall (by rw [idle]; rfl) (by simp [Call.stops])
  | save idle =>
      refine setCall ?_ (by rw [idle]; rfl) (by simp [Call.stops])
      exact { guarded with }
  | stopWaitExit idle =>
      refine setCall ?_ (by rw [idle]; rfl) fun _ => rfl
      exact { guarded with
        stopped := fun _ _ => rfl
        leaving := fun _ => rfl }
  | lockWriting free => exact guarded.lock free rfl (by simp [Call.stops])
  | lockStopping free stopping =>
      exact guarded.lock free rfl fun _ => guarded.stopped _ (by rw [stopping]; rfl)
  | silent formatting => exact guarded.setCall (by rw [formatting]; rfl) (by simp [Call.stops])
  | overrun => exact { guarded with }
  | line formatting =>
      refine setCall ?_ (by rw [formatting]; rfl) (by simp [Call.stops])
      exact { guarded with }
  | notifyQueued queued =>
      exact guarded.notify.setCall (by rw [notify_call, queued]; rfl) (by simp [Call.stops])
  | notifySaving saving =>
      exact guarded.notify.setCall (by rw [notify_call, saving]; rfl) (by simp [Call.stops])
  | unlock notified => exact guarded.unlock (by rw [notified]; rfl)
  | returns polling => exact guarded.unlock (by rw [polling]; rfl)
  | poll => exact guarded
  | setLogLevel => exact { guarded with }

theorem guarded_of_reachable (reached : (logger logLevel buffSize).Reachable s) : Guarded s := by
  refine reached.invariant ?_ fun _ _ _ _ guarded step => guarded.next (State.Next.of_next step).2
  rintro _ rfl
  exact {
    holder := fun _ => iff_of_false (by simp [State.start]) (by simp [State.start, Call.guarded])
    stopped := fun _ => by simp [State.start, Call.stops]
    leaving := by simp [State.start, LogThread.left]
    ended := by simp [State.start]
    closed := by simp [State.start] }

omit [DecidableEq Caller] in
/-- What the log thread leaves alone. -/
theorem turn_frame (ran : s.Turn t) :
    t.call = s.call ∧ t.isRunning = s.isRunning ∧ t.overrun = s.overrun := by
  cases ran with
  | save =>
      rcases s.flushRest_frame with ⟨_, frame⟩
      rw [frame]
      exact ⟨rfl, rfl, rfl⟩
  | record first rest =>
      rcases State.handle_frame { s with logList := rest } first with ⟨_, _, _, _, _, frame⟩
      rw [frame]
      exact ⟨rfl, rfl, rfl⟩
  | _ => exact ⟨rfl, rfl, rfl⟩

theorem next_overrun (inside : s.overrun = false) {label : Label Caller}
    (step : s.Next label t) (torn : t.overrun = true) :
    ∃ i, (t.call i).guarded = true ∧ t.call i ≠ .polling := by
  cases step with
  | thread ran =>
      rw [(turn_frame ran).2.2, inside] at torn
      cases torn
  | @overrun i _ _ _ formatting =>
      refine ⟨i, ?_⟩
      rw [formatting]
      exact ⟨rfl, by simp⟩
  | notifyQueued | notifySaving =>
      unfold State.notify at torn
      split at torn <;> cases inside.symm.trans torn
  | _ => cases inside.symm.trans torn

/-- Only one of the threads that call the logger has been in the buffer. -/
theorem inside_of_polling (reached : (logger logLevel buffSize).Reachable s) {i : Caller}
    (polling : s.call i = .polling) : s.overrun = false := by
  cases reached with
  | start initial => exact initial ▸ rfl
  | next before step =>
      by_contra torn
      have after := (guarded_of_reachable before).next (State.Next.of_next step).2
      rcases next_overrun (State.Next.of_next step).1 (State.Next.of_next step).2
        (by simpa using torn) with ⟨j, holds, other⟩
      have same := after.only (by rw [polling]; rfl) holds
      exact other (same ▸ polling)

/-- How many more steps a thread that is not asleep and is to stop can take. -/
def State.remaining (s : State Caller) : Nat :=
  match s.thread with
  | .block => s.logList.length + 8
  | .wait => s.logList.length + 7
  | .unblock => s.logList.length + 6
  | .pop => s.logList.length + 5
  | .save => 4
  | .test => 3
  | .close => 2
  | .exit => 1
  | .done => 0

omit [DecidableEq Caller] in
theorem exists_turn (stopped : s.isRunning = false) (awake : ¬ Asleep s)
    (going : s.thread ≠ .done) :
    ∃ t, s.run = some t ∧ t.remaining < s.remaining ∧ ¬ Asleep t := by
  cases at' : s.thread with
  | test =>
      refine ⟨{ s with thread := .close }, ?_, ?_, ?_⟩
      · simp [State.run, at', stopped]
      · simp [State.remaining, at']
      · simp [Asleep]
  | block =>
      have posted : s.semaphore ≠ 0 := fun none' => awake ⟨none', .inl at'⟩
      refine ⟨{ s with isBlock := true, thread := .wait }, ?_, ?_, ?_⟩
      · simp [State.run, at']
      · simp [State.remaining, at']
      · simp [Asleep, posted]
  | wait =>
      rcases Nat.exists_eq_succ_of_ne_zero fun none' => awake ⟨none', .inr at'⟩ with ⟨value, posted⟩
      refine ⟨{ s with semaphore := value, thread := .unblock }, ?_, ?_, ?_⟩
      · simp [State.run, at', posted]
      · simp [State.remaining, at']
      · simp [Asleep]
  | unblock =>
      refine ⟨{ s with isBlock := false, thread := .pop }, ?_, ?_, ?_⟩
      · simp [State.run, at']
      · simp [State.remaining, at']
      · simp [Asleep]
  | pop =>
      cases queue : s.logList with
      | nil =>
          refine ⟨{ s with thread := .save }, ?_, ?_, ?_⟩
          · simp [State.run, at', queue]
          · simp [State.remaining, at']
          · simp [Asleep]
      | cons record rest =>
          refine ⟨{ s with logList := rest }.handle record, ?_, ?_, ?_⟩
          · simp [State.run, at', queue]
          all_goals
            rcases State.handle_frame { s with logList := rest } record with
              ⟨_, _, _, _, _, frame⟩
            rw [frame]
          · simp [State.remaining, at', queue]
          · simp [Asleep, at']
  | save =>
      refine ⟨{ (if s.isSaveSoon then { s.flushRest with isSaveSoon := false } else s) with
        thread := .test }, ?_, ?_, ?_⟩
      · simp [State.run, at']
      · simp [State.remaining, at']
      · simp [Asleep]
  | close =>
      refine ⟨{ s.flush with thread := .exit }, ?_, ?_, ?_⟩
      · simp [State.run, at']
      · simp [State.remaining, at']
      · simp [Asleep]
  | exit =>
      refine ⟨{ s with isThreadExit := true, thread := .done }, ?_, ?_, ?_⟩
      · simp [State.run, at']
      · simp [State.remaining, at']
      · simp [Asleep]
  | done => exact absurd at' going

/-- The log thread ends by itself. -/
theorem exists_done (logLevel : Int) (buffSize : Nat) (inside : s.overrun = false) (stopped : s.isRunning = false)
    (awake : ¬ Asleep s) :
    ∃ t, (((logger logLevel buffSize).restrict quiet).startingAt s).Reachable t ∧
      t.thread = .done ∧ t.call = s.call ∧ t.overrun = false := by
  let sys := ((logger logLevel buffSize).restrict (fun s : State Caller => quiet s)).startingAt s
  suffices steps : ∀ count (u : State Caller), u.remaining = count → sys.Reachable u →
      u.overrun = false → u.isRunning = false → ¬ Asleep u → u.call = s.call →
      ∃ t, sys.Reachable t ∧ t.thread = .done ∧ t.call = s.call ∧ t.overrun = false from
    steps _ s rfl (.start rfl) inside stopped awake rfl
  intro count
  induction count using Nat.strongRecOn with
  | _ count inductionHypothesis =>
      intro u size reached inside' stopped' awake' calls
      by_cases done : u.thread = .done
      · exact ⟨u, reached, done, calls, inside'⟩
      · rcases exists_turn stopped' awake' done with ⟨v, ran, fewer, awakeNext⟩
        rcases turn_frame (State.Turn.of_run ran) with ⟨sameCalls, sameRunning, sameOverrun⟩
        have step : sys.step u .thread v := by
          refine ⟨trivial, ?_⟩
          simp [logger, State.next, inside', ran]
        exact inductionHypothesis v.remaining (size ▸ fewer) v rfl (reached.next step)
          (sameOverrun.trans inside') (sameRunning.trans stopped') awakeNext
          (sameCalls.trans calls)

/-- Without a `Notify` nothing changes for a thread that sleeps and the caller that waits
for it. -/
theorem asleep_next (guarded : Guarded s) {i : Caller} (polling : s.call i = .polling)
    (asleep : Asleep s) {label : Label Caller} (silent : quiet s label)
    (step : s.Next label t) : Asleep t ∧ t.call i = .polling ∧ t.fout = s.fout := by
  have holds : (s.call i).guarded = true := by
    rw [polling]
    rfl
  have keeps : ∀ {u : State Caller} {j : Caller} {now : Call}, u.call = s.call →
      s.call j ≠ .polling → (u.setCall j now).call i = .polling := by
    intro u j now same other
    have different : i ≠ j := fun equal => other (equal ▸ polling)
    rw [State.setCall_other different, same]
    exact polling
  rcases asleep with ⟨zero, sleeping⟩
  have notDone : s.isThreadExit = false := by
    by_contra ended
    rcases sleeping with blocked | waiting
    · exact absurd (blocked.symm.trans (guarded.ended.mp (by simpa using ended))) (by decide)
    · exact absurd (waiting.symm.trans (guarded.ended.mp (by simpa using ended))) (by decide)
  cases step with
  | thread ran =>
      cases ran with
      | block => exact ⟨⟨zero, .inr rfl⟩, polling, rfl⟩
      | wake _ _ posted => omega
      | test at' | leave at' | unblock at' | drained at' | record _ _ at' | unasked at' | save at'
      | close at' | exit at' =>
          rw [at'] at sleeping
          rcases sleeping with equal | equal <;> cases equal
  | writeLogFile other | save other | stopWaitExit other | lockWriting _ other
  | lockStopping _ other | silent other | line other | unlock other =>
      exact ⟨⟨zero, sleeping⟩, keeps rfl (by simp [other]), rfl⟩
  | notifyQueued | notifySaving => exact silent.elim
  | returns _ ended => cases notDone.symm.trans ended
  | overrun | poll | setLogLevel => exact ⟨⟨zero, sleeping⟩, polling, rfl⟩

theorem asleep_of_run (reached : (logger logLevel buffSize).Reachable s) {i : Caller}
    (polling : s.call i = .polling) (asleep : Asleep s)
    (run : (((logger logLevel buffSize).restrict quiet).startingAt s).Reachable t) :
    Asleep t ∧ t.call i = .polling := by
  induction run with
  | start same =>
      rw [same]
      exact ⟨asleep, polling⟩
  | next before step inductionHypothesis =>
      rcases inductionHypothesis with ⟨asleep', polling'⟩
      have guarded := guarded_of_reachable (reached.of_startingAt before.of_restrict_startingAt)
      rcases asleep_next guarded polling' asleep' step.1 (State.Next.of_next step.2).2 with
        ⟨still, waits, -⟩
      exact ⟨still, waits⟩

/-- Whether a caller of `StopWaitExit` needs somebody else's `Notify` to come back. -/
theorem returns_iff (reached : (logger logLevel buffSize).Reachable s) {i : Caller}
    (polling : s.call i = .polling) :
    (∃ t, (((logger logLevel buffSize).restrict quiet).startingAt s).Reachable t ∧
      t.call i = .idle) ↔ ¬ Asleep s := by
  constructor
  · rintro ⟨t, run, returned⟩ asleep
    rcases asleep_of_run reached polling asleep run with ⟨-, waits⟩
    rw [waits] at returned
    cases returned
  · intro awake
    have guarded := guarded_of_reachable reached
    have stopped : s.isRunning = false := guarded.stopped i (by rw [polling]; rfl)
    have inside := inside_of_polling reached polling
    rcases exists_done logLevel buffSize inside stopped awake with ⟨t, run, done, calls, inside'⟩
    have reachedDone := reached.of_startingAt run.of_restrict_startingAt
    have ended : t.isThreadExit = true := (guarded_of_reachable reachedDone).ended.mpr done
    have returns : ((logger logLevel buffSize).restrict quiet).step t (.poll i)
        ({ t with mutex := none }.setCall i .idle) := by
      refine ⟨trivial, ?_⟩
      simp [logger, State.next, inside', calls, polling, ended]
    exact ⟨_, run.next returns, State.setCall_self ..⟩

def steps (s : State Caller) : List (Label Caller) → Option (State Caller)
  | [] => some s
  | label :: rest => (s.next label).bind fun t => steps t rest

theorem reachable_of_steps {labels : List (Label Caller)} (reached : (logger logLevel buffSize).Reachable s)
    (run : steps s labels = some t) : (logger logLevel buffSize).Reachable t := by
  induction labels generalizing s with
  | nil => exact Option.some.inj run ▸ reached
  | cons label rest inductionHypothesis =>
      rcases Option.bind_eq_some_iff.mp run with ⟨u, step, later⟩
      exact inductionHypothesis (reached.next step) later

/-- `main` saves and stops, and the thread has carried out the request in between. -/
theorem main_can_hang : ∃ s : State Unit, (logger 1 1048576).Reachable s ∧
    s.call () = .polling ∧ ¬ ∃ t, (((logger 1 1048576).restrict quiet).startingAt s).Reachable t ∧
      t.call () = .idle := by
  let labels : List (Label Unit) := [.thread, .thread, .save (), .notify (), .thread, .thread,
    .thread, .thread, .thread, .thread, .thread, .stopWaitExit (), .lock ()]
  have run : ∃ s, steps (State.start 1 1048576) labels = some s ∧ s.call () = .polling ∧ Asleep s := by
    refine ⟨_, rfl, rfl, ?_⟩
    decide
  rcases run with ⟨s, ran, polling, asleep⟩
  have reached := reachable_of_steps (.start rfl) ran
  exact ⟨s, reached, polling, fun returns => (returns_iff reached polling).mp returns asleep⟩

/-- A thread that has left its loop writes nothing any more. -/
theorem left_next (left : s.thread.left = true) {label : Label Caller}
    (step : s.Next label t) :
    t.thread.left = true ∧ t.fout = s.fout ∧ s.logList <+: t.logList := by
  cases step with
  | thread ran =>
      cases ran with
      | close | exit => exact ⟨rfl, rfl, List.prefix_rfl⟩
      | test at' | leave at' | block at' | wake _ at' | unblock at' | drained at'
      | record _ _ at' | unasked at' | save at' =>
          rw [at'] at left
          cases left
  | save | line => exact ⟨left, rfl, List.prefix_append _ _⟩
  | notifyQueued | notifySaving =>
      unfold State.notify
      split <;> exact ⟨left, rfl, List.prefix_rfl⟩
  | _ => exact ⟨left, rfl, List.prefix_rfl⟩

/-- What is in the queue when the thread leaves its loop never gets to the file. -/
theorem left_run (reached : (logger logLevel buffSize).Reachable s)
    (left : s.thread.left = true)
    (run : ((logger logLevel buffSize).startingAt s).Reachable t) :
    t.fout = s.fout ∧ s.logList <+: t.logList ∧
      (t.isThreadExit = true → t.flushed = t.fout.length) := by
  have kept : t.thread.left = true ∧ t.fout = s.fout ∧ s.logList <+: t.logList := by
    induction run with
    | start same =>
        rw [same]
        exact ⟨left, rfl, List.prefix_rfl⟩
    | next before step inductionHypothesis =>
        rcases inductionHypothesis with ⟨left', same, queued⟩
        rcases left_next left' (State.Next.of_next step).2 with ⟨still, written, more⟩
        exact ⟨still, written.trans same, queued.trans more⟩
  have guarded := guarded_of_reachable (reached.of_startingAt run)
  exact ⟨kept.2.1, kept.2.2, fun ended => guarded.closed (.inr (guarded.ended.mp ended))⟩

/-- A thread that has not been scheduled yet loses a line that was logged and announced. -/
theorem line_can_be_lost : ∃ s : State Unit, (logger 1 64).Reachable s ∧
    s.messages.length = 1 ∧ s.call () = .idle ∧
      ∀ t, ((logger 1 64).startingAt s).Reachable t → t.fout = [] := by
  let labels : List (Label Unit) := [.writeLogFile () 1 (List.replicate 20 50) [111, 107],
    .lock (), .format (), .notify (), .unlock (), .stopWaitExit (), .thread, .thread, .thread,
    .lock (), .poll ()]
  have run : ∃ s, steps (State.start 1 64) labels = some s ∧ s.messages.length = 1 ∧
      s.call () = .idle ∧ s.thread.left = true ∧ s.fout = [] := by
    refine ⟨_, rfl, ?_⟩
    decide
  rcases run with ⟨s, ran, logged, returned, left, empty⟩
  have reached := reachable_of_steps (.start rfl) ran
  exact ⟨s, reached, logged, returned, fun t later => (left_run reached left later).1.trans empty⟩

end Runs

end CrossOver.Engine.Log
