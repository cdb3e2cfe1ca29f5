import CrossOver.Engine.WorkThread.Timers

/-!
# Indices of timers

`MakeGeneralTimerID` gives out the index at which `auto_timer_idx_` stands.  If
a timer still has that index the loop that should move the counter on moves
another variable on, and never ends.  So a run is safe as long as no call leaves
the counter at an index in use.
-/

namespace CrossOver.Engine.WorkThread

open CrossOver.Lib
open CrossOver.Engine.Network (HandleInfo)

variable {s s' : State}

namespace State

/-- Where a call of `MakeGeneralTimerID` leaves the counter. -/
def following (s : State) : UInt32 :=
  let next := s.autoTimerIdx + 1
  if next = invalidIndex then 1 else next

/-- `MakeGeneralTimerID` ends with an index that no timer has, and `add_timer`
puts a timer under it. -/
def GivesFresh (s : State) : Prop :=
  ∃ timerIdx next, s.makeGeneralTimerID = some (timerIdx, next) ∧
    1 ≤ timerIdx.toNat ∧ timerIdx.toNat ≤ 2 ^ 32 - 2 ∧ s.find timerIdx = none ∧
    ∀ interval handler ahead, ahead ⊆ s.timers →
      ∃ s', s.addTimer interval handler ahead = some s' ∧ s'.find timerIdx = some s.nextRef

end State

/-- The counter stays between 1 and the last index before `INVALID_INDEX`. -/
def Counting (s : State) : Prop := 1 ≤ s.autoTimerIdx.toNat ∧ s.autoTimerIdx.toNat ≤ 2 ^ 32 - 2

theorem following_toNat (counting : Counting s) :
    s.following.toNat = if s.autoTimerIdx.toNat = 2 ^ 32 - 2 then 1
      else s.autoTimerIdx.toNat + 1 := by
  obtain ⟨-, bounded⟩ := counting
  have small : (s.autoTimerIdx + 1).toNat = s.autoTimerIdx.toNat + 1 := by
    rw [UInt32.toNat_add, UInt32.toNat_one]
    exact Nat.mod_eq_of_lt (by omega)
  have last : s.autoTimerIdx + 1 = invalidIndex ↔ s.autoTimerIdx.toNat = 2 ^ 32 - 2 := by
    rw [← UInt32.toNat_inj, small]
    have invalid : invalidIndex.toNat = 2 ^ 32 - 1 := by decide
    omega
  unfold State.following
  simp only [last]
  split
  · rfl
  · exact small

theorem counting_following (counting : Counting s) :
    1 ≤ s.following.toNat ∧ s.following.toNat ≤ 2 ^ 32 - 2 := by
  rw [following_toNat counting]
  obtain ⟨positive, bounded⟩ := counting
  split
  · omega
  · omega

theorem makeGeneralTimerID_of_free (free : s.find s.autoTimerIdx = none) :
    s.makeGeneralTimerID = some (s.autoTimerIdx, s.following) := by
  unfold State.makeGeneralTimerID
  rw [free]
  rfl

theorem addTimer_of_free (free : s.find s.autoTimerIdx = none) (interval : UInt32)
    (handler : HandleInfo) (ahead : List TimerRef) :
    s.addTimer interval handler ahead =
      (s.added interval handler s.following).reorder ahead := by
  unfold State.addTimer
  rw [makeGeneralTimerID_of_free free]
  rfl

theorem find_added (interval : UInt32) (handler : HandleInfo) (next index : UInt32) :
    (s.added interval handler next).find index =
      (s.find index).or (if s.autoTimerIdx = index then some s.nextRef else none) := by
  unfold State.find State.added
  rw [List.find?_append, Option.map_or]
  by_cases same : s.autoTimerIdx = index
  · simp [same]
  · simp [same]

theorem find_reorder {ahead : List TimerRef} (reordered : s.reorder ahead = some s')
    (index : UInt32) : s'.find index = s.find index ∧ s'.autoTimerIdx = s.autoTimerIdx := by
  obtain rfl | ⟨_, _, _, rfl⟩ := reorder_cases reordered
  · exact ⟨rfl, rfl⟩
  · exact ⟨rfl, rfl⟩

/-- Only the counter decides. -/
theorem givesFresh_iff (counting : Counting s) :
    s.GivesFresh ↔ s.find s.autoTimerIdx = none := by
  constructor
  · rintro ⟨timerIdx, next, given, -, -, free, -⟩
    unfold State.makeGeneralTimerID at given
    split at given
    · cases given
    · cases given
      exact free
  · intro free
    refine ⟨_, _, makeGeneralTimerID_of_free free, counting.1, counting.2, free, ?_⟩
    intro interval handler ahead inside
    have known : (s.added interval handler s.following).find s.autoTimerIdx = some s.nextRef := by
      rw [find_added, free, if_pos rfl, Option.none_or]
    rw [addTimer_of_free free]
    cases phase : s.phase with
    | timers before =>
        have later : ahead ⊆ (s.added interval handler s.following).timers := by
          intro t membership
          obtain ⟨entry, mapped, rfl⟩ := List.mem_map.mp (inside membership)
          exact List.mem_map.mpr ⟨entry, List.mem_append_left _ mapped, rfl⟩
        refine ⟨{ s.added interval handler s.following with phase := .timers ahead }, ?_, known⟩
        unfold State.reorder
        simp only [show (s.added interval handler s.following).phase = .timers before from phase]
        rw [if_pos later]
    | _ =>
        refine ⟨s.added interval handler s.following, ?_, known⟩
        unfold State.reorder
        simp only [show (s.added interval handler s.following).phase = s.phase from rfl, phase]

/-! ## Steps -/

/-- The counter stands still, and no timer is new. -/
def Shrinks (s s' : State) : Prop :=
  s'.autoTimerIdx = s.autoTimerIdx ∧ s'.timerMap ⊆ s.timerMap

section Steps

variable {t : TimerRef}

theorem Shrinks.refl (s : State) : Shrinks s s := ⟨rfl, List.Subset.refl _⟩

theorem Shrinks.trans {s₁ s₂ : State} (first : Shrinks s s₁) (second : Shrinks s₁ s₂) :
    Shrinks s s₂ := ⟨second.1.trans first.1, List.Subset.trans second.2 first.2⟩

theorem find_eq_none {index : UInt32} : s.find index = none ↔ index ∉ s.timerMap.map Prod.fst := by
  unfold State.find
  rw [Option.map_eq_none_iff, List.find?_eq_none]
  simp only [decide_eq_true_eq, List.mem_map, not_exists, not_and]

theorem Shrinks.unused (shrinks : Shrinks s s') (unused : s.find s.autoTimerIdx = none) :
    s'.find s'.autoTimerIdx = none := by
  rw [shrinks.1]
  rw [find_eq_none] at unused ⊢
  exact fun used => unused (List.map_subset _ shrinks.2 used)

theorem markDeleted_shrinks (called : s.markDeleted t = some s') : Shrinks s s' := by
  obtain ⟨timer, -, ⟨-, rfl⟩ | ⟨-, rfl⟩⟩ := markDeleted_cases called
  · exact .refl _
  · exact ⟨rfl, List.Subset.refl _⟩

theorem stopLoop_shrinks {entries : List (UInt32 × TimerRef)}
    (stopped : State.stopLoop entries s = some s') : Shrinks s s' := by
  induction entries generalizing s with
  | nil =>
      obtain rfl := Option.some.inj stopped
      exact .refl s
  | cons entry rest inductionHypothesis =>
      obtain ⟨between, called, stopped⟩ := Option.bind_eq_some_iff.mp stopped
      exact (markDeleted_shrinks called).trans (inductionHypothesis stopped)

theorem sweepLoop_shrinks {list : List TimerRef} (swept : State.sweepLoop list s = some s') :
    Shrinks s s' := by
  induction list generalizing s with
  | nil =>
      obtain rfl := Option.some.inj swept
      exact .refl s
  | cons u rest inductionHypothesis =>
      obtain ⟨timer, -, swept⟩ := Option.bind_eq_some_iff.mp swept
      have erased : Shrinks s (State.delete
          { s with timerMap := s.timerMap.filter fun entry => entry.1 ≠ timer.index } u timer) :=
        ⟨rfl, List.filter_subset_self _⟩
      exact erased.trans (inductionHypothesis swept)

theorem destroyLoop_shrinks {entries : List (UInt32 × TimerRef)}
    (destroyed : State.destroyLoop entries s = some s') : Shrinks s s' := by
  induction entries generalizing s with
  | nil =>
      obtain rfl := Option.some.inj destroyed
      exact .refl s
  | cons entry rest inductionHypothesis =>
      obtain ⟨timer, -, destroyed⟩ := Option.bind_eq_some_iff.mp destroyed
      have deleted : Shrinks s (s.delete entry.2 timer) := ⟨rfl, List.Subset.refl _⟩
      exact deleted.trans (inductionHypothesis destroyed)

theorem visit_shrinks {ahead : List TimerRef} (visited : s.visit t ahead = some s') :
    Shrinks s s' := by
  obtain ⟨timer, -, ⟨-, rfl⟩ | ⟨-, lastTime, entries, -, rfl⟩⟩ := visit_cases visited
  · exact ⟨rfl, List.Subset.refl _⟩
  · exact ⟨rfl, List.Subset.refl _⟩

/-- Only `add_timer` moves the counter or fills the map. -/
theorem step_shrinks {label : Label} (stepped : label.exec s = some s') :
    Shrinks s s' ∨ ∃ time interval handler ahead, label = .addTimer time interval handler ahead ∧
      State.addTimer { s with now := time } interval handler ahead = some s' := by
  cases step_cases stepped with
  | @addTimer time interval handler ahead _ _ _ called =>
      exact Or.inr ⟨time, interval, handler, ahead, rfl, called⟩
  | removeTimer _ called =>
      obtain ⟨-, rfl⟩ | ⟨u, -, marked⟩ := removeTimer_cases called
      · exact Or.inl (.refl _)
      · exact Or.inl (markDeleted_shrinks marked)
  | stopAllTimer _ called => exact Or.inl (stopLoop_shrinks called)
  | sweep _ begun _ =>
      have swept := sweepLoop_shrinks begun
      exact Or.inl ⟨swept.1, swept.2⟩
  | @visit time _ _ _ _ _ visited =>
      have moved : Shrinks s { s with now := time } := ⟨rfl, List.Subset.refl _⟩
      exact Or.inl (moved.trans (visit_shrinks visited))
  | destroy _ gone =>
      have cleared : Shrinks s { s with delTimerList := [] } := ⟨rfl, List.Subset.refl _⟩
      have gone := cleared.trans (destroyLoop_shrinks gone)
      exact Or.inl ⟨gone.1, List.nil_subset _⟩
  | start => exact Or.inl ⟨rfl, List.Subset.refl _⟩
  | eventLoop => exact Or.inl ⟨rfl, List.Subset.refl _⟩
  | endFrame => exact Or.inl ⟨rfl, List.Subset.refl _⟩

theorem addTimer_counter {interval : UInt32} {handler : HandleInfo} {ahead : List TimerRef}
    (called : s.addTimer interval handler ahead = some s') :
    s'.autoTimerIdx = s.following ∧ ∀ index, s'.find index =
      (s.find index).or (if s.autoTimerIdx = index then some s.nextRef else none) := by
  obtain ⟨free, -⟩ := addTimer_cases called
  rw [addTimer_of_free free] at called
  refine ⟨(find_reorder called 0).2, fun index => ?_⟩
  rw [(find_reorder called index).1, find_added]

end Steps

/-! ## Runs -/

theorem reachable_counting (reached : system.Reachable s) : Counting s := by
  induction reached with
  | start initially =>
      rw [initially]
      exact ⟨by decide, by decide⟩
  | @next before label after _ stepped counting =>
      obtain shrinks | ⟨time, interval, handler, ahead, -, called⟩ := step_shrinks stepped
      · unfold Counting
        rw [shrinks.1]
        exact counting
      · have still : Counting { before with now := time } := counting
        unfold Counting
        rw [(addTimer_counter called).1]
        exact counting_following still

/-- The call leaves the counter at an index that is not in use. -/
def Spaced (s : State) : Label → Prop
  | .addTimer _ _ _ _ => s.find s.following = none
  | _ => True

theorem spaced_unused (reached : (system.restrict Spaced).Reachable s) :
    s.find s.autoTimerIdx = none := by
  induction reached with
  | start initially =>
      rw [initially]
      rfl
  | @next before label after earlier step unused =>
      obtain ⟨spaced, stepped⟩ := step
      obtain shrinks | ⟨time, interval, handler, ahead, rfl, called⟩ := step_shrinks stepped
      · exact shrinks.unused unused
      · obtain ⟨counter, found⟩ := addTimer_counter called
        have counting := reachable_counting earlier.of_restrict
        have moved : before.autoTimerIdx ≠ before.following := by
          intro same
          have numbers := following_toNat counting
          rw [← same] at numbers
          split at numbers
          · omega
          · omega
        have still : ({ before with now := time } : State).following = before.following := rfl
        rw [found, counter, still]
        change (before.find before.following).or (if before.autoTimerIdx = before.following
          then some before.nextRef else none) = none
        rw [if_neg moved, Option.or_none]
        exact spaced

/-- `MakeGeneralTimerID` does what it should exactly in the states in which no
timer has the next index, and these are all states of a run whose calls of
`add_timer` each leave the counter at a free index. -/
theorem timerIds_fresh_iff (s : State) :
    ((system.restrict Spaced).Reachable s → s.GivesFresh) ∧
      (system.Reachable s → (s.GivesFresh ↔ s.find s.autoTimerIdx = none)) := by
  refine ⟨fun reached => ?_, fun reached => givesFresh_iff (reachable_counting reached)⟩
  exact (givesFresh_iff (reachable_counting reached.of_restrict)).mpr (spaced_unused reached)

theorem timerIds_fresh_second : ∃ s, system.Reachable s ∧ s.timerMap = [(1, 0)] ∧
    s.GivesFresh ∧ s.find s.autoTimerIdx = none := by
  have start : (system.restrict Spaced).step State.initial (.start 0 true)
      { State.initial with nextTime := waitTime, due := 100, phase := .tasks } := ⟨trivial, rfl⟩
  obtain ⟨s, added, map⟩ : ∃ s, (system.restrict Spaced).step
      { State.initial with nextTime := waitTime, due := 100, phase := .tasks }
      (.addTimer 0 1000 {} []) s ∧ s.timerMap = [(1, 0)] := ⟨_, ⟨rfl, rfl⟩, rfl⟩
  have reached := System.Reachable.next (.next (.start rfl) start) added
  have fresh := (timerIds_fresh_iff s).1 reached
  exact ⟨s, reached.of_restrict, map, fresh,
    ((timerIds_fresh_iff s).2 reached.of_restrict).mp fresh⟩

/-! ## A counter that has gone round -/

structure Alone (s : State) : Prop where
  phase : s.phase = .tasks
  timerMap : s.timerMap = [(1, 0)]
  delTimerList : s.delTimerList = []
  present : ∃ timer, s.heap 0 = some timer
  allocated : s.nextRef ≠ 0

/-- A second timer comes and goes. -/
def flicker (s : State) : List Label :=
  [.addTimer s.now 1000 {} [], .removeTimer s.autoTimerIdx, .sweep [0]]

theorem flicker_plays (alone : Alone s) (later : s.autoTimerIdx ≠ 1) :
    ∃ s', play (flicker s) s = some s' ∧ s'.phase = .timers [0] ∧ s'.heap 0 = s.heap 0 ∧
      s'.timerMap = s.timerMap ∧ s'.delTimerList = s.delTimerList ∧
      s'.nextRef = s.nextRef + 1 ∧ s'.autoTimerIdx = s.following := by
  obtain ⟨heap, nextRef, timerMap, delTimerList, autoTimerIdx, nextTime, phase, now, due, log⟩ := s
  obtain ⟨rfl, rfl, rfl, -, allocated⟩ := alone
  dsimp only at later allocated
  refine ⟨{
    heap := Function.update heap nextRef none
    nextRef := nextRef + 1
    timerMap := [(1, 0)]
    delTimerList := []
    autoTimerIdx := if autoTimerIdx + 1 = invalidIndex then 1 else autoTimerIdx + 1
    nextTime := nextTime
    phase := .timers [0]
    now := now
    due := due
    log := log ++ [.added nextRef autoTimerIdx {}] ++ State.released nextRef {} }, ?_, rfl,
    Function.update_of_ne allocated.symm .., rfl, rfl, rfl, rfl⟩
  simp [flicker, play, Label.exec, State.isScripted, State.advance, State.addTimer,
    State.makeGeneralTimerID, State.find, later.symm, State.getMSTime, State.setTimer,
    State.reorder, State.removeTimer, State.markDeleted, IntervalTimer.create, State.sweep,
    State.sweepLoop, State.delete, State.timers]

theorem visit_plays {t : TimerRef} {timer : IntervalTimer} (present : s.heap t = some timer) :
    ∃ s', s.visit t [] = some s' ∧ (∃ timer, s'.heap t = some timer) ∧
      ∃ heap log, s' = { s with heap := heap, log := log, phase := .timers [] } := by
  unfold State.visit
  simp only [present, Option.bind_eq_bind, Option.bind_some]
  split
  · exact ⟨_, rfl, ⟨timer, present⟩, s.heap, s.log, rfl⟩
  · split
    · exact ⟨_, rfl, ⟨_, Function.update_self ..⟩, _, _, rfl⟩
    · exact ⟨_, rfl, ⟨_, Function.update_self ..⟩, _, _, rfl⟩

/-- The frame goes on to its end. -/
def windUp (s : State) : List Label :=
  [.visit s.now, .eventLoop s.now,
    .endFrame (s.now + (timeout s.nextTime s.getMSTime).toNat) true]

theorem windUp_plays {timer : IntervalTimer} (phase : s.phase = .timers [0])
    (present : s.heap 0 = some timer) :
    ∃ s', play (windUp s) s = some s' ∧ s'.phase = .tasks ∧ (∃ timer, s'.heap 0 = some timer) ∧
      s'.timerMap = s.timerMap ∧ s'.delTimerList = s.delTimerList ∧ s'.nextRef = s.nextRef ∧
      s'.autoTimerIdx = s.autoTimerIdx := by
  obtain ⟨visited, visits, still, heap, log, rfl⟩ := visit_plays present
  have turn : Label.exec (.visit s.now) s =
      some { s with heap := heap, log := log, phase := .timers [] } := by
    simp only [Label.exec, phase, State.advance, le_refl, if_true, Option.bind_eq_bind,
      Option.bind_some]
    exact visits
  refine ⟨{ s with
    heap := heap
    log := log
    now := s.now + (timeout s.nextTime s.getMSTime).toNat
    nextTime := s.nextTime + waitTime
    due := s.due + waitTime.toNat
    phase := .tasks }, ?_, rfl, still, rfl, rfl, rfl, rfl⟩
  rw [windUp, play, turn]
  simp [play, Label.exec, State.advance, State.getMSTime, running]

theorem alone_after (n : Nat) (bounded : 2 + n ≤ 2 ^ 32 - 2) :
    ∃ s, (system.restrict fun _ _ => True).Reachable s ∧ Alone s ∧
      s.autoTimerIdx.toNat = 2 + n := by
  induction n with
  | zero =>
      refine ⟨_, play_reachable (.start rfl) [.start 0 true, .addTimer 0 1000 {} []]
        (fun _ _ _ => trivial) rfl, ⟨rfl, rfl, rfl, ⟨_, rfl⟩, by decide⟩, rfl⟩
  | succ n inductionHypothesis =>
      obtain ⟨s, reached, alone, counter⟩ := inductionHypothesis (by omega)
      have later : s.autoTimerIdx ≠ 1 := by
        intro first
        rw [first, UInt32.toNat_one] at counter
        omega
      obtain ⟨swept, flickers, passing, heap, map₁, list₁, nextRef₁, auto₁⟩ :=
        flicker_plays alone later
      obtain ⟨timer, present⟩ := alone.present
      rw [← heap] at present
      obtain ⟨s', ends, phase, present, map₂, list₂, nextRef₂, auto₂⟩ :=
        windUp_plays passing present
      have reachedThere := play_reachable reached _ (fun _ _ _ => trivial) flickers
      refine ⟨s', play_reachable reachedThere _ (fun _ _ _ => trivial) ends, ?_, ?_⟩
      · refine ⟨phase, (map₂.trans map₁).trans alone.timerMap,
          (list₂.trans list₁).trans alone.delTimerList, present, ?_⟩
        rw [nextRef₂, nextRef₁]
        exact Nat.succ_ne_zero _
      · rw [auto₂, auto₁, following_toNat (reachable_counting reached.of_restrict),
          if_neg (by omega), counter]
        omega

/-- The counter has gone round, and the first timer is still there. -/
theorem counter_meets_timer : ∃ s, system.Reachable s ∧ s.timerMap.length < 2 ^ 32 - 2 ∧
    s.makeGeneralTimerID = none ∧ ¬ s.GivesFresh := by
  obtain ⟨s, reached, alone, counter⟩ := alone_after (2 ^ 32 - 4) (by omega)
  have later : s.autoTimerIdx ≠ 1 := by
    intro first
    rw [first, UInt32.toNat_one] at counter
    omega
  obtain ⟨swept, flickers, -, -, map, -, -, auto⟩ := flicker_plays alone later
  have arrived := (play_reachable reached _ (fun _ _ _ => trivial) flickers).of_restrict
  have round : swept.autoTimerIdx = 1 := by
    rw [auto, ← UInt32.toNat_inj, following_toNat (reachable_counting reached.of_restrict),
      if_pos (by omega), UInt32.toNat_one]
  have used : swept.find swept.autoTimerIdx = some 0 := by
    rw [round, State.find, map, alone.timerMap]
    rfl
  refine ⟨swept, arrived, ?_, ?_, ?_⟩
  · rw [map, alone.timerMap]
    decide
  · unfold State.makeGeneralTimerID
    rw [used]
    rfl
  · rw [givesFresh_iff (reachable_counting arrived), used]
    simp

end CrossOver.Engine.WorkThread
