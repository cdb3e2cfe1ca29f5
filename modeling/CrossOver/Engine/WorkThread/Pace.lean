import CrossOver.Engine.WorkThread.Frame

/-!
# How long a frame sleeps

`Run` compares `next_time` with the clock by an unsigned `>`.  As long as that
agrees with the times the two stand for, a frame sleeps until its end and no
longer than its length.  Around the point where the clock starts again from zero
it does not: frames that should wait do not, each of them moves `next_time` on,
and the first frame after that point sleeps for all of them.
-/

namespace CrossOver.Engine.WorkThread

open CrossOver.Lib
open CrossOver.Engine.Network (HandleInfo)

variable {s s' : State}

/-- What the timers do not touch. -/
def State.clock (s : State) : UInt32 × Nat × Nat × Phase := (s.nextTime, s.due, s.now, s.phase)

section Calls

theorem markDeleted_clock {t : TimerRef} (called : s.markDeleted t = some s') :
    s'.clock = s.clock := by
  obtain ⟨timer, _, ⟨_, rfl⟩ | ⟨_, rfl⟩⟩ := markDeleted_cases called <;> rfl

theorem removeTimer_clock {index : UInt32} (removed : s.removeTimer index = some s') :
    s'.clock = s.clock := by
  obtain ⟨_, rfl⟩ | ⟨t, _, called⟩ := removeTimer_cases removed
  · rfl
  · exact markDeleted_clock called

theorem stopLoop_clock {entries : List (UInt32 × TimerRef)}
    (stopped : State.stopLoop entries s = some s') : s'.clock = s.clock := by
  induction entries generalizing s with
  | nil =>
      obtain rfl := Option.some.inj stopped
      rfl
  | cons entry rest inductionHypothesis =>
      obtain ⟨between, called, stopped⟩ := Option.bind_eq_some_iff.mp stopped
      exact (inductionHypothesis stopped).trans (markDeleted_clock called)

theorem sweepLoop_clock {list : List TimerRef} (swept : State.sweepLoop list s = some s') :
    s'.clock = s.clock := by
  induction list generalizing s with
  | nil =>
      obtain rfl := Option.some.inj swept
      rfl
  | cons t rest inductionHypothesis =>
      obtain ⟨timer, _, swept⟩ := Option.bind_eq_some_iff.mp swept
      exact (inductionHypothesis swept).trans rfl

theorem destroyLoop_clock {entries : List (UInt32 × TimerRef)}
    (destroyed : State.destroyLoop entries s = some s') : s'.clock = s.clock := by
  induction entries generalizing s with
  | nil =>
      obtain rfl := Option.some.inj destroyed
      rfl
  | cons entry rest inductionHypothesis =>
      obtain ⟨timer, _, destroyed⟩ := Option.bind_eq_some_iff.mp destroyed
      exact (inductionHypothesis destroyed).trans rfl

end Calls

/-- A frame ends a frame's length from now, or earlier. -/
def Phase.Paced (phase : Phase) (due now : Nat) : Prop :=
  match phase with
  | .tasks => due ≤ now + waitTime.toNat
  | .timers _ => due ≤ now + waitTime.toNat
  | .sockets earliest => due ≤ earliest
  | _ => True

structure State.Paced (s : State) : Prop where
  nextTime : s.nextTime = UInt32.ofNat s.due
  phase : s.phase.Paced s.due s.now

theorem Phase.Paced.later {phase : Phase} {due now time : Nat} (paced : phase.Paced due now)
    (later : now ≤ time) : phase.Paced due time := by
  cases phase with
  | tasks => exact Nat.le_trans paced (Nat.add_le_add_right later _)
  | timers ahead => exact Nat.le_trans paced (Nat.add_le_add_right later _)
  | _ => exact paced

theorem State.Paced.of_clock (paced : s.Paced) (same : s'.clock = s.clock) : s'.Paced := by
  simp only [State.clock, Prod.mk.injEq] at same
  obtain ⟨nextTime, due, now, phase⟩ := same
  constructor
  · rw [nextTime, due]
    exact paced.nextTime
  · rw [due, now, phase]
    exact paced.phase

theorem State.Paced.advance {time : Nat} (paced : s.Paced) (later : s.now ≤ time) :
    State.Paced { s with now := time } := ⟨paced.nextTime, paced.phase.later later⟩

theorem running_paced {due now : Nat} (isRunning : Bool) (near : due ≤ now + waitTime.toNat) :
    (running isRunning).Paced due now := by
  cases isRunning
  · trivial
  · exact near

/-! ## The sleep of one frame -/

/-- The comparison of the two `uint32` agrees with that of the times they stand for. -/
def InOrder (s : State) : Label → Prop
  | .eventLoop time => UInt32.ofNat time < s.nextTime ↔ time < s.due
  | _ => True

/-- The frame sleeps until its end. -/
theorem timeout_eq {time : Nat} (nextTime : s.nextTime = UInt32.ofNat s.due)
    (near : s.due ≤ time + waitTime.toNat) (ordered : InOrder s (.eventLoop time)) :
    timeout s.nextTime (UInt32.ofNat time) = (s.due - time : Nat) := by
  have wait : waitTime.toNat = 100 := rfl
  unfold timeout
  split
  · next before =>
      have early := ordered.mp before
      have difference : s.nextTime - UInt32.ofNat time = UInt32.ofNat (s.due - time) := by
        rw [nextTime, UInt32.ofNat_sub (Nat.le_of_lt early)]
      rw [difference, UInt32.toInt32_ofNat', Int32.toInt_ofNat_of_lt (by omega)]
  · next late =>
      have late : ¬time < s.due := fun early => late (ordered.mpr early)
      rw [Nat.sub_eq_zero_of_le (Nat.le_of_not_lt late)]
      rfl

theorem eventLoop_paced {time : Nat} (nextTime : s.nextTime = UInt32.ofNat s.due)
    (near : s.due ≤ time + waitTime.toNat) (ordered : InOrder s (.eventLoop time)) :
    s.due ≤ time + (timeout s.nextTime (UInt32.ofNat time)).toNat := by
  rw [timeout_eq nextTime near ordered, Int.toNat_natCast]
  omega

theorem addTimer_paced {interval : UInt32} {handler : HandleInfo} {ahead : List TimerRef}
    (paced : s.Paced) (added : s.addTimer interval handler ahead = some s') : s'.Paced := by
  obtain ⟨_, next, reordered⟩ := addTimer_cases added
  have kept : (s.added interval handler next).Paced := paced.of_clock rfl
  obtain rfl | ⟨before, phase, _, rfl⟩ := reorder_cases reordered
  · exact kept
  · have bound := kept.phase
    rw [phase] at bound
    exact ⟨kept.nextTime, bound⟩

/-- The time a phase is entered at bounds the end of its frame. -/
theorem State.Paced.bound {phase : Phase} {time : Nat} (paced : s.Paced) (current : s.phase = phase)
    (later : s.now ≤ time) : phase.Paced s.due time := by
  rw [← current]
  exact paced.phase.later later

theorem step_paced {label : Label} (paced : s.Paced) (ordered : InOrder s label)
    (stepped : label.exec s = some s') : s'.Paced := by
  cases step_cases stepped with
  | @start time isRunning =>
      refine ⟨?_, running_paced isRunning le_rfl⟩
      rw [UInt32.ofNat_add]
      rfl
  | addTimer _ later added => exact addTimer_paced (paced.advance later) added
  | removeTimer _ removed => exact paced.of_clock (removeTimer_clock removed)
  | stopAllTimer _ stopped => exact paced.of_clock (stopLoop_clock stopped)
  | @sweep order swept phase begun =>
      have kept := paced.of_clock (sweepLoop_clock begun)
      have same : swept.phase = s.phase :=
        congrArg (fun clock => clock.2.2.2) (sweepLoop_clock begun)
      have bound := kept.bound (same.trans phase) le_rfl
      exact ⟨kept.nextTime, bound⟩
  | visit phase later visited =>
      have bound := paced.bound phase later
      obtain ⟨timer, _, ⟨_, rfl⟩ | ⟨_, lastTime, entries, _, rfl⟩⟩ := visit_cases visited
      · exact ⟨paced.nextTime, bound⟩
      · exact ⟨paced.nextTime, bound⟩
  | eventLoop phase later =>
      exact ⟨paced.nextTime, eventLoop_paced paced.nextTime (paced.bound phase later) ordered⟩
  | @endFrame time earliest isRunning phase slept later =>
      have bound := paced.bound phase later
      refine ⟨?_, running_paced isRunning ?_⟩
      · rw [UInt32.ofNat_add, ← paced.nextTime]
        rfl
      · exact Nat.add_le_add_right (Nat.le_trans bound slept) _
  | @destroy destroyed _ gone =>
      have cleared : State.Paced { s with delTimerList := [] } := ⟨paced.nextTime, paced.phase⟩
      exact ⟨(cleared.of_clock (destroyLoop_clock gone)).nextTime, trivial⟩

/-! ## Runs -/

theorem reachable_paced (reached : (system.restrict InOrder).Reachable s) : s.Paced := by
  refine reached.invariant ?_ ?_
  · rintro _ rfl
    exact ⟨rfl, trivial⟩
  · rintro before label after _ paced ⟨ordered, stepped⟩
    exact step_paced paced ordered stepped

/-- In every run whose frames compare `next_time` with the clock as the times
they stand for compare, no frame sleeps longer than its length. -/
theorem timeout_within (reached : (system.restrict InOrder).Reachable s)
    (entered : s.phase = .timers []) {time : Nat} (later : s.now ≤ time)
    (ordered : InOrder s (.eventLoop time)) :
    0 ≤ timeout s.nextTime (UInt32.ofNat time) ∧
      timeout s.nextTime (UInt32.ofNat time) ≤ waitTime.toNat := by
  have paced := reachable_paced reached
  have bound : s.due ≤ time + waitTime.toNat := paced.bound entered later
  rw [timeout_eq paced.nextTime bound ordered]
  omega

def firstFrame : State :=
  (play [.start 1000 true, .sweep []] State.initial).getD State.initial

theorem timeout_within_firstFrame : 0 ≤ timeout firstFrame.nextTime 1040 ∧
    timeout firstFrame.nextTime 1040 ≤ 100 := by
  have reached : (system.restrict InOrder).Reachable firstFrame := by
    refine play_reachable (.start rfl) [.start 1000 true, .sweep []] ?_ rfl
    simp [InOrder]
  have ordered : (1040 : UInt32) < firstFrame.nextTime ↔ 1040 < firstFrame.due := by decide +kernel
  exact timeout_within reached rfl (show firstFrame.now ≤ 1040 by decide +kernel) ordered

/-- A thread that starts 150 ms before the clock starts again from zero; in two
of its frames `EventLoop` returns at once. -/
def overlong : List Label :=
  [.start (2 ^ 32 - 150) true, .sweep [], .eventLoop (2 ^ 32 - 150),
    .endFrame (2 ^ 32 - 50) true, .sweep [], .eventLoop (2 ^ 32 - 50),
    .endFrame (2 ^ 32 - 50) true, .sweep [], .eventLoop (2 ^ 32 - 50),
    .endFrame (2 ^ 32 - 50) true, .sweep []]

theorem overlong_ends : (play overlong State.initial).isSome = true := by decide +kernel

theorem overlong_sleeps : ∃ s time, system.Reachable s ∧ s.phase = .timers [] ∧ s.now ≤ time ∧
    timeout s.nextTime (UInt32.ofNat time) = 250 := by
  have reached : (system.restrict fun _ _ => True).Reachable
      ((play overlong State.initial).get overlong_ends) :=
    play_reachable (.start rfl) overlong (fun _ _ _ => trivial) (Option.some_get overlong_ends).symm
  exact ⟨_, 2 ^ 32, reached.of_restrict, by decide +kernel, by decide +kernel, by decide +kernel⟩

end CrossOver.Engine.WorkThread
