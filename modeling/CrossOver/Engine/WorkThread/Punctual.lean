import CrossOver.Engine.WorkThread.Pace
import CrossOver.Engine.WorkThread.Timers

/-!
# Timers keep their interval

`IntervalTimer::Update` compares the time that has passed with the interval as
two `int32`.  The thread is observed beside its run: when each timer was made or
last fired, and what each call of `Update` has led to.
-/

namespace CrossOver.Engine.WorkThread

open CrossOver.Lib
open CrossOver.Engine.Network (HandleInfo)

/-- A call of `Update`, with the time since which the timer has waited. -/
structure Reading where
  timer : TimerRef
  interval : UInt32
  since : Nat
  time : Nat
  fired : Bool
  deriving DecidableEq, Repr

/-- Not before the interval has passed, and then at once; after 2^31 ms nothing is asked. -/
structure Reading.Punctual (r : Reading) : Prop where
  waits : r.fired = true → r.since + r.interval.toNat ≤ r.time
  fires : r.since + r.interval.toNat ≤ r.time → r.time < r.since + 2 ^ 31 → r.fired = true

/-- What `Update` compares. -/
def Reading.Due (r : Reading) : Prop :=
  r.interval.toInt32 ≤ (UInt32.ofNat r.time - UInt32.ofNat r.since).toInt32

structure Observed where
  thread : State
  /-- when each timer was made or last fired -/
  stamps : TimerRef → Nat
  readings : List Reading
  /-- the timers that the pass began with, and what it has read so far -/
  mapped : List TimerRef
  pass : List Reading

namespace Observed

def start : Observed where
  thread := State.initial
  stamps _ := 0
  readings := []
  mapped := []
  pass := []

def read (o : Observed) (time : Nat) (t : TimerRef) (s : State) : Observed :=
  match o.thread.heap t with
  | none => { o with thread := s }
  | some timer =>
      if timer.isDelete then { o with thread := s }
      else
        let fired := decide (.fired t timer.index ∈ s.log.drop o.thread.log.length)
        let reading := ⟨t, timer.interval, o.stamps t, time, fired⟩
        { thread := s
          stamps := if fired then Function.update o.stamps t time else o.stamps
          readings := reading :: o.readings
          mapped := o.mapped
          pass := reading :: o.pass }

/-- The thread has come to `s`. -/
def next (o : Observed) (label : Label) (s : State) : Observed :=
  match label with
  | .addTimer time _ _ _ =>
      { o with thread := s, stamps := Function.update o.stamps o.thread.nextRef time }
  | .sweep order => { o with thread := s, mapped := order, pass := [] }
  | .visit time =>
      match o.thread.phase with
      | .timers (t :: _) => o.read time t s
      | _ => { o with thread := s }
  | _ => { o with thread := s }

end Observed

def observed : System Observed Label where
  initial o := o = Observed.start
  step o label o' := ∃ s, label.exec o.thread = some s ∧ o' = o.next label s

/-- A timer that is added during a pass takes none away that still lies ahead. -/
def Undisturbed (o : Observed) : Label → Prop
  | .addTimer _ _ _ ahead => ∀ before, o.thread.phase = .timers before → before ⊆ ahead
  | _ => True

variable {s s' : State} {t : TimerRef} {timer : IntervalTimer}

/-! ## One reading -/

section Reading

variable {r : Reading}

theorem toInt_ofNat (n : Nat) : (UInt32.ofNat n).toInt32.toInt = (n : Int).bmod (2 ^ 32) := by
  rw [UInt32.toInt32_ofNat', Int32.toInt_ofNat']
  rfl

theorem due_iff (later : r.since ≤ r.time) :
    r.Due ↔ (r.interval.toNat : Int).bmod (2 ^ 32) ≤
      ((r.time - r.since : Nat) : Int).bmod (2 ^ 32) := by
  unfold Reading.Due
  rw [← UInt32.ofNat_sub later, Int32.le_iff_toInt_le, toInt_ofNat]
  have whole := toInt_ofNat r.interval.toNat
  rw [UInt32.ofNat_toNat] at whole
  rw [whole]

theorem punctual_of_small (later : r.since ≤ r.time) (fired : r.fired = true ↔ r.Due)
    (small : r.interval.toNat < 2 ^ 31) : r.Punctual := by
  rw [due_iff later] at fired
  constructor
  · intro told
    have passed := fired.mp told
    rw [Int.bmod_def, Int.bmod_def] at passed
    split at passed <;> split at passed <;> omega
  · intro waited near
    rw [fired, Int.bmod_def, Int.bmod_def]
    split <;> split <;> omega

/-- An interval of 2^31 ms and more is negative for `Update`. -/
theorem due_of_large (same : r.time = r.since) (large : 2 ^ 31 ≤ r.interval.toNat) : r.Due := by
  have bounded := r.interval.toNat_lt
  rw [due_iff (Nat.le_of_eq same.symm), same, Nat.sub_self, Int.bmod_def, Int.bmod_def]
  split <;> split <;> omega

end Reading

/-! ## What the thread leaves of a timer -/

/-- No timer is made or wound up, and those that stay keep their interval. -/
structure Inherits (s s' : State) : Prop where
  timers : ∀ t after, s'.heap t = some after → ∃ before, s.heap t = some before ∧
    after.lastTime = before.lastTime ∧ after.interval = before.interval
  nextRef : s'.nextRef = s.nextRef

theorem Inherits.refl (s : State) : Inherits s s := ⟨fun _ after present =>
  ⟨after, present, rfl, rfl⟩, rfl⟩

theorem Inherits.trans {s₁ s₂ : State} (first : Inherits s s₁) (second : Inherits s₁ s₂) :
    Inherits s s₂ := by
  refine ⟨?_, second.nextRef.trans first.nextRef⟩
  intro t after present
  obtain ⟨between, there, lastTime, interval⟩ := second.timers t after present
  obtain ⟨before, here, lastTime', interval'⟩ := first.timers t between there
  exact ⟨before, here, lastTime.trans lastTime', interval.trans interval'⟩

theorem inherits_of_heap (heap : s'.heap = s.heap) (nextRef : s'.nextRef = s.nextRef) :
    Inherits s s' := by
  refine ⟨fun t after present => ?_, nextRef⟩
  rw [heap] at present
  exact ⟨after, present, rfl, rfl⟩

theorem markDeleted_inherits (called : s.markDeleted t = some s') : Inherits s s' := by
  obtain ⟨timer, present, ⟨_, rfl⟩ | ⟨_, rfl⟩⟩ := markDeleted_cases called
  · exact .refl _
  · refine ⟨fun other after there => ?_, rfl⟩
    obtain ⟨rfl, rfl⟩ | ⟨-, before⟩ := setTimer_cases (by exact there)
    · exact ⟨timer, present, rfl, rfl⟩
    · exact ⟨after, before, rfl, rfl⟩

theorem removeTimer_inherits {index : UInt32} (removed : s.removeTimer index = some s') :
    Inherits s s' := by
  obtain ⟨_, rfl⟩ | ⟨t, _, called⟩ := removeTimer_cases removed
  · exact .refl _
  · exact markDeleted_inherits called

theorem stopLoop_inherits {entries : List (UInt32 × TimerRef)}
    (stopped : State.stopLoop entries s = some s') : Inherits s s' := by
  induction entries generalizing s with
  | nil =>
      obtain rfl := Option.some.inj stopped
      exact .refl _
  | cons entry rest inductionHypothesis =>
      obtain ⟨between, called, stopped⟩ := Option.bind_eq_some_iff.mp stopped
      exact (markDeleted_inherits called).trans (inductionHypothesis stopped)

theorem delete_inherits (s : State) (t : TimerRef) (timer : IntervalTimer) :
    Inherits s (s.delete t timer) := by
  refine ⟨fun other after there => ?_, rfl⟩
  by_cases mine : other = t
  · subst mine
    simp [State.delete] at there
  · exact ⟨after, by simpa [State.delete, mine] using there, rfl, rfl⟩

theorem sweepLoop_inherits {list : List TimerRef} (swept : State.sweepLoop list s = some s') :
    Inherits s s' := by
  induction list generalizing s with
  | nil =>
      obtain rfl := Option.some.inj swept
      exact .refl _
  | cons t rest inductionHypothesis =>
      obtain ⟨timer, _, swept⟩ := Option.bind_eq_some_iff.mp swept
      have removed : Inherits s
          { s with timerMap := s.timerMap.filter fun entry => entry.1 ≠ timer.index } :=
        inherits_of_heap rfl rfl
      exact (removed.trans (delete_inherits _ t timer)).trans (inductionHypothesis swept)

theorem destroyLoop_inherits {entries : List (UInt32 × TimerRef)}
    (destroyed : State.destroyLoop entries s = some s') : Inherits s s' := by
  induction entries generalizing s with
  | nil =>
      obtain rfl := Option.some.inj destroyed
      exact .refl _
  | cons entry rest inductionHypothesis =>
      obtain ⟨timer, _, destroyed⟩ := Option.bind_eq_some_iff.mp destroyed
      exact (delete_inherits s _ timer).trans (inductionHypothesis destroyed)

/-- A turn on a timer that is not deleted. -/
theorem visit_reads {ahead : List TimerRef} (present : s.heap t = some timer)
    (unmarked : timer.isDelete = false) (visited : s.visit t ahead = some s') :
    ∃ fired lastTime,
      (fired = true ↔ timer.interval.toInt32 ≤ (s.getMSTime - timer.lastTime).toInt32) ∧
      lastTime = (if fired then s.getMSTime else timer.lastTime) ∧
      s' = { s.setTimer t { timer with lastTime := lastTime } with
        phase := .timers ahead
        log := s.log ++ if fired then [.fired t timer.index] else [] } := by
  unfold State.visit at visited
  simp only [present, unmarked, Option.bind_eq_bind, Option.bind_some, Bool.false_eq_true,
    if_false] at visited
  unfold IntervalTimer.update at visited
  split at visited
  · next due =>
      exact ⟨true, _, iff_of_true rfl due, rfl, (Option.some.inj visited).symm⟩
  · next early =>
      refine ⟨false, _, iff_of_false Bool.false_ne_true early, rfl, ?_⟩
      rw [← Option.some.inj visited]
      simp [State.setTimer]

/-! ## Runs -/

/-- What the record has to do with the thread. -/
structure Tracked (o : Observed) : Prop where
  kept : Kept o.thread
  stamped : ∀ t timer, o.thread.heap t = some timer →
    timer.lastTime = UInt32.ofNat (o.stamps t) ∧ o.stamps t ≤ o.thread.now
  readings : ∀ r ∈ o.readings, r.since ≤ r.time ∧ (r.fired = true ↔ r.Due)
  intervals : ∀ r ∈ o.readings, r.timer < o.thread.nextRef ∧
    ∀ timer, o.thread.heap r.timer = some timer → timer.interval = r.interval
  noted : o.pass ⊆ o.readings
  passed : ∀ ahead, o.thread.phase = .timers ahead → ∀ t ∈ o.mapped,
    t ∈ ahead ∨ (∃ r ∈ o.pass, r.timer = t) ∨ Retired t o.thread

theorem start_tracked : Tracked Observed.start where
  kept := initial_kept
  stamped := nofun
  readings := nofun
  intervals := nofun
  noted := List.Subset.refl _
  passed := nofun

section Steps

variable {o : Observed} {label : Label}

/-- A step that makes no timer and reads none. -/
theorem Tracked.carried (tracked : Tracked o) (stepped : label.exec o.thread = some s)
    (inherits : Inherits o.thread s) (now : o.thread.now ≤ s.now)
    (passed : ∀ ahead, s.phase = .timers ahead → o.thread.phase = .timers ahead) :
    Tracked { o with thread := s } where
  kept := step_kept tracked.kept stepped
  stamped t timer present := by
    obtain ⟨before, there, lastTime, _⟩ := inherits.timers t timer present
    obtain ⟨stamp, early⟩ := tracked.stamped t before there
    exact ⟨lastTime.trans stamp, early.trans now⟩
  readings := tracked.readings
  intervals r inside := by
    obtain ⟨allocated, same⟩ := tracked.intervals r inside
    refine ⟨inherits.nextRef ▸ allocated, fun timer present => ?_⟩
    obtain ⟨before, there, _, interval⟩ := inherits.timers _ timer present
    exact interval.trans (same before there)
  noted := tracked.noted
  passed ahead phase t inside := by
    refine (tracked.passed ahead (passed ahead phase) t inside).imp id (Or.imp id ?_)
    exact fun retired => (step_silent retired stepped).1

theorem Tracked.added (tracked : Tracked o) {time : Nat} {interval : UInt32} {handler : HandleInfo}
    {ahead : List TimerRef} (undisturbed : Undisturbed o (.addTimer time interval handler ahead))
    (stepped : (Label.addTimer time interval handler ahead).exec o.thread = some s)
    (later : o.thread.now ≤ time)
    (called : State.addTimer { o.thread with now := time } interval handler ahead = some s) :
    Tracked (o.next (.addTimer time interval handler ahead) s) := by
  obtain ⟨_, next, reordered⟩ := addTimer_cases called
  have unborn := (tracked.kept.owned.fresh o.thread.nextRef le_rfl).1
  have heap : s.heap = Function.update o.thread.heap o.thread.nextRef
      (some (.create o.thread.autoTimerIdx (UInt32.ofNat time) interval handler)) := by
    obtain rfl | ⟨_, _, _, rfl⟩ := reorder_cases reordered <;> rfl
  have nextRef : s.nextRef = o.thread.nextRef + 1 := by
    obtain rfl | ⟨_, _, _, rfl⟩ := reorder_cases reordered <;> rfl
  have now : s.now = time := by
    obtain rfl | ⟨_, _, _, rfl⟩ := reorder_cases reordered <;> rfl
  refine ⟨step_kept tracked.kept stepped, ?_, tracked.readings, ?_, tracked.noted, ?_⟩
  · intro t timer present
    change s.heap t = some timer at present
    change _ = UInt32.ofNat (Function.update o.stamps o.thread.nextRef time t) ∧
      Function.update o.stamps o.thread.nextRef time t ≤ s.now
    rw [heap] at present
    by_cases mine : t = o.thread.nextRef
    · subst mine
      rw [Function.update_self] at present ⊢
      rw [← Option.some.inj present]
      exact ⟨rfl, Nat.le_of_eq now.symm⟩
    · rw [Function.update_of_ne mine] at present ⊢
      obtain ⟨stamp, early⟩ := tracked.stamped t timer present
      exact ⟨stamp, now ▸ early.trans later⟩
  · intro r inside
    obtain ⟨allocated, same⟩ := tracked.intervals r inside
    refine ⟨by exact nextRef ▸ Nat.lt_succ_of_lt allocated, fun timer present => ?_⟩
    change s.heap r.timer = some timer at present
    rw [heap, Function.update_of_ne (Nat.ne_of_lt allocated)] at present
    exact same timer present
  · intro left phase t inside
    change s.phase = .timers left at phase
    have silent : Retired t o.thread → Retired t s := fun retired => (step_silent retired stepped).1
    obtain rfl | ⟨before, during, _, rfl⟩ := reorder_cases reordered
    · exact (tracked.passed left phase t inside).imp id (Or.imp id silent)
    · obtain rfl := Phase.timers.inj phase
      refine (tracked.passed before during t inside).imp (fun there => ?_) (Or.imp id silent)
      exact undisturbed before during there

theorem Tracked.read (tracked : Tracked o) {time : Nat} {ahead : List TimerRef}
    (phase : o.thread.phase = .timers (t :: ahead))
    (stepped : (Label.visit time).exec o.thread = some s) (later : o.thread.now ≤ time)
    (visited : State.visit { o.thread with now := time } t ahead = some s) :
    Tracked (o.next (.visit time) s) := by
  have kept := step_kept tracked.kept stepped
  have retired : ∀ other, Retired other o.thread → Retired other s := fun _ gone =>
    (step_silent gone stepped).1
  obtain ⟨timer, there, outcome⟩ := visit_cases visited
  have present : o.thread.heap t = some timer := there
  have allocated : t < o.thread.nextRef := by
    by_contra beyond
    cases (tracked.kept.owned.fresh t (Nat.le_of_not_lt beyond)).1.symm.trans present
  have known := tracked.stamped t timer present
  simp only [Observed.next, phase, Observed.read, present]
  obtain ⟨marked, rfl⟩ | ⟨unmarked, _⟩ := outcome
  · rw [if_pos marked]
    refine ⟨kept, ?_, tracked.readings, tracked.intervals, tracked.noted, ?_⟩
    · intro other holder holds
      obtain ⟨stamp, early⟩ := tracked.stamped other holder holds
      exact ⟨stamp, early.trans later⟩
    · intro left during other inside
      obtain rfl := Phase.timers.inj during
      have gone : Retired t o.thread :=
        ⟨allocated, fun holder holds => Option.some.inj (present.symm.trans holds) ▸ marked⟩
      rcases tracked.passed _ phase other inside with there | read | silent
      · rcases List.mem_cons.mp there with rfl | there
        · exact Or.inr (Or.inr (retired _ gone))
        · exact Or.inl there
      · exact Or.inr (Or.inl read)
      · exact Or.inr (Or.inr (retired _ silent))
  · obtain ⟨fired, lastTime, due, moved, rfl⟩ := visit_reads there unmarked visited
    have told : decide (.fired t timer.index ∈ List.drop o.thread.log.length (o.thread.log ++
        if fired then [.fired t timer.index] else [])) = fired := by
      rw [List.drop_left]
      cases fired <;> simp
    rw [if_neg (by simp [unmarked])]
    dsimp only
    rw [told]
    refine ⟨kept, ?_, ?_, ?_, ?_, ?_⟩
    · intro other holder holds
      obtain ⟨rfl, rfl⟩ | ⟨mine, untouched⟩ := setTimer_cases (by exact holds)
      · cases fired
        · exact ⟨moved.trans known.1, known.2.trans later⟩
        · simp only [if_true, Function.update_self]
          exact ⟨moved, le_rfl⟩
      · obtain ⟨stamp, early⟩ := tracked.stamped other holder untouched
        cases fired
        · exact ⟨stamp, early.trans later⟩
        · simp only [if_true, Function.update_of_ne mine]
          exact ⟨stamp, early.trans later⟩
    · intro r inside
      rcases List.mem_cons.mp inside with rfl | before
      · refine ⟨known.2.trans later, ?_⟩
        rw [known.1] at due
        exact due
      · exact tracked.readings r before
    · intro r inside
      rcases List.mem_cons.mp inside with rfl | before
      · refine ⟨allocated, fun holder holds => ?_⟩
        obtain ⟨-, rfl⟩ | ⟨other, -⟩ := setTimer_cases (by exact holds)
        · rfl
        · exact absurd rfl other
      · obtain ⟨old, same⟩ := tracked.intervals r before
        refine ⟨old, fun holder holds => ?_⟩
        obtain ⟨mine, rfl⟩ | ⟨-, before⟩ := setTimer_cases (by exact holds)
        · exact same timer (mine ▸ present)
        · exact same holder before
    · exact List.cons_subset_cons _ tracked.noted
    · intro left during other inside
      obtain rfl := Phase.timers.inj during
      rcases tracked.passed _ phase other inside with there | ⟨r, read, mine⟩ | silent
      · rcases List.mem_cons.mp there with rfl | there
        · exact Or.inr (Or.inl ⟨_, List.mem_cons_self, rfl⟩)
        · exact Or.inl there
      · exact Or.inr (Or.inl ⟨r, List.mem_cons_of_mem _ read, mine⟩)
      · exact Or.inr (Or.inr (retired _ silent))

theorem Tracked.swept (tracked : Tracked o) {order : List TimerRef} {swept : State}
    (stepped : (Label.sweep order).exec o.thread =
      some { swept with delTimerList := [], phase := .timers order })
    (begun : State.sweepLoop o.thread.delTimerList o.thread = some swept) :
    Tracked (o.next (.sweep order) { swept with delTimerList := [], phase := .timers order }) := by
  have inherits := sweepLoop_inherits begun
  have now : swept.now = o.thread.now :=
    congrArg (fun clock => clock.2.2.1) (sweepLoop_clock begun)
  refine ⟨step_kept tracked.kept stepped, ?_, tracked.readings, ?_, List.nil_subset _, ?_⟩
  · intro t timer present
    obtain ⟨before, there, lastTime, _⟩ := inherits.timers t timer present
    obtain ⟨stamp, early⟩ := tracked.stamped t before there
    exact ⟨lastTime.trans stamp, early.trans now.ge⟩
  · intro r inside
    obtain ⟨allocated, same⟩ := tracked.intervals r inside
    refine ⟨by exact inherits.nextRef ▸ allocated, fun timer present => ?_⟩
    obtain ⟨before, there, _, interval⟩ := inherits.timers _ timer present
    exact interval.trans (same before there)
  · intro left during t inside
    obtain rfl := Phase.timers.inj during
    exact Or.inl inside

theorem running_untimed {isRunning : Bool} {ahead : List TimerRef} :
    running isRunning ≠ .timers ahead := by
  cases isRunning <;> exact nofun

theorem Tracked.next (tracked : Tracked o) (undisturbed : Undisturbed o label)
    (stepped : label.exec o.thread = some s) : Tracked (o.next label s) := by
  cases step_cases stepped with
  | start _ later =>
      exact tracked.carried stepped (inherits_of_heap rfl rfl) later
        fun _ phase => absurd phase running_untimed
  | addTimer _ later called => exact tracked.added undisturbed stepped later called
  | removeTimer _ removed =>
      have clock := removeTimer_clock removed
      simp only [State.clock, Prod.mk.injEq] at clock
      exact tracked.carried stepped (removeTimer_inherits removed) clock.2.2.1.ge
        fun _ phase => clock.2.2.2.symm.trans phase
  | stopAllTimer _ stopped =>
      have clock := stopLoop_clock stopped
      simp only [State.clock, Prod.mk.injEq] at clock
      exact tracked.carried stepped (stopLoop_inherits stopped) clock.2.2.1.ge
        fun _ phase => clock.2.2.2.symm.trans phase
  | sweep _ begun _ => exact tracked.swept stepped begun
  | visit phase later visited => exact tracked.read phase stepped later visited
  | eventLoop _ later =>
      exact tracked.carried stepped (inherits_of_heap rfl rfl) later
        fun _ phase => by cases phase
  | endFrame _ _ later =>
      exact tracked.carried stepped (inherits_of_heap rfl rfl) later
        fun _ phase => absurd phase running_untimed
  | @destroy destroyed _ gone =>
      have cleared : Inherits o.thread { o.thread with delTimerList := [] } :=
        inherits_of_heap rfl rfl
      have clock := destroyLoop_clock gone
      simp only [State.clock, Prod.mk.injEq] at clock
      refine tracked.carried stepped ?_ (by exact clock.2.2.1.ge)
        fun _ phase => by cases phase
      exact (cleared.trans (destroyLoop_inherits gone)).trans (inherits_of_heap rfl rfl)

end Steps

theorem reachable_tracked {o : Observed} (reached : (observed.restrict Undisturbed).Reachable o) :
    Tracked o := by
  refine reached.invariant ?_ ?_
  · rintro _ rfl
    exact start_tracked
  · rintro before label _ _ tracked ⟨undisturbed, s, stepped, rfl⟩
    exact tracked.next undisturbed stepped

/-- A step that is possible. -/
def Observed.take (o : Observed) (label : Label) : Observed :=
  match label.exec o.thread with
  | some s => o.next label s
  | none => o

theorem take_reachable {o : Observed} {label : Label}
    (reached : (observed.restrict Undisturbed).Reachable o) (undisturbed : Undisturbed o label) :
    (observed.restrict Undisturbed).Reachable (o.take label) := by
  unfold Observed.take
  split
  · next s stepped => exact .next reached ⟨undisturbed, s, stepped, rfl⟩
  · exact reached

theorem take_reads {o : Observed} {time : Nat} {ahead : List TimerRef}
    (phase : o.thread.phase = .timers (t :: ahead)) (later : o.thread.now ≤ time)
    (present : o.thread.heap t = some timer) (unmarked : timer.isDelete = false) :
    ∃ fired, ⟨t, timer.interval, o.stamps t, time, fired⟩ ∈ (o.take (.visit time)).readings := by
  obtain ⟨s, visited⟩ : ∃ s, (Label.visit time).exec o.thread = some s := by
    simp only [Label.exec, phase, State.advance, later, if_true, Option.bind_eq_bind,
      Option.bind_some, State.visit, present, unmarked, Bool.false_eq_true, if_false]
    split <;> exact ⟨_, rfl⟩
  simp only [Observed.take, visited, Observed.next, phase, Observed.read, present, unmarked,
    Bool.false_eq_true, if_false]
  exact ⟨_, List.mem_cons_self⟩

/-- The first pass of a thread with one timer that has just been made. -/
def fresh (interval : UInt32) : Observed :=
  ((Observed.start.take (.start 0 true)).take (.addTimer 0 interval {} [])).take (.sweep [0])

theorem fresh_reachable (interval : UInt32) :
    (observed.restrict Undisturbed).Reachable (fresh interval) := by
  refine take_reachable (take_reachable (take_reachable (.start rfl) trivial) ?_) trivial
  exact nofun

theorem reads_at_once (interval : UInt32) : ∃ o, (observed.restrict Undisturbed).Reachable o ∧
    ∃ r ∈ o.readings, r.interval = interval ∧ r.since = 0 ∧ r.time = 0 := by
  have phase : (fresh interval).thread.phase = .timers [0] := rfl
  have present : (fresh interval).thread.heap 0 = some (.create 1 0 interval {}) := rfl
  obtain ⟨fired, inside⟩ := take_reads phase (Nat.zero_le _) present rfl
  have allowed : Undisturbed (fresh interval) (.visit 0) := trivial
  exact ⟨_, take_reachable (fresh_reachable interval) allowed, _, inside, rfl, rfl, rfl⟩

/-- For each interval: in every run, whatever the start time and the readings of the
clock, a timer with this interval fires when it should, and each pass reads it unless
it is removed, exactly if the interval is below 2^31. -/
theorem timers_punctual_iff (interval : UInt32) :
    (∀ o, (observed.restrict Undisturbed).Reachable o →
      (∀ r ∈ o.readings, r.interval = interval → r.Punctual) ∧
      (o.thread.phase = .timers [] → ∀ t ∈ o.mapped, ∀ timer, o.thread.heap t = some timer →
        timer.isDelete = false → timer.interval = interval →
          ∃ r ∈ o.pass, r ∈ o.readings ∧ r.timer = t ∧ r.interval = interval)) ↔
      interval.toNat < 2 ^ 31 := by
  constructor
  · intro keeps
    by_contra large
    obtain ⟨o, reached, r, inside, rfl, since, time⟩ := reads_at_once interval
    obtain ⟨_, fired⟩ := (reachable_tracked reached).readings r inside
    have early := ((keeps o reached).1 r inside rfl).waits
      (fired.mpr (due_of_large (time.trans since.symm) (Nat.le_of_not_lt large)))
    omega
  · intro small o reached
    have tracked := reachable_tracked reached
    refine ⟨fun r inside same => ?_, fun finished t inside timer present unmarked same => ?_⟩
    · obtain ⟨later, fired⟩ := tracked.readings r inside
      exact punctual_of_small later fired (same ▸ small)
    · rcases tracked.passed [] finished t inside with there | ⟨r, read, rfl⟩ | retired
      · cases there
      · refine ⟨r, read, tracked.noted read, rfl, ?_⟩
        rw [← same]
        exact ((tracked.intervals r (tracked.noted read)).2 timer present).symm
      · cases unmarked.symm.trans (retired.marked timer present)

/-- A timer of 49 days fires in the millisecond in which it is made. -/
theorem longest_fires_at_once :
    ∃ o, (observed.restrict Undisturbed).Reachable o ∧ ∃ r ∈ o.readings,
      r.interval = 0xFFFFFFFF ∧ r.fired = true ∧ r.since = 0 ∧ r.time = 0 ∧ ¬ r.Punctual := by
  obtain ⟨o, reached, r, inside, interval, since, time⟩ := reads_at_once 0xFFFFFFFF
  have large : 2 ^ 31 ≤ r.interval.toNat := by
    rw [interval]
    decide
  have told := ((reachable_tracked reached).readings r inside).2.mpr
    (due_of_large (time.trans since.symm) large)
  refine ⟨o, reached, r, inside, interval, told, since, time, fun punctual => ?_⟩
  have waited := punctual.waits told
  omega

end CrossOver.Engine.WorkThread
