import Mathlib.Data.List.Nodup
import CrossOver.Engine.WorkThread.Frame

/-!
# Timers are removed exactly once

`remove_timer` marks a timer and puts it on `del_timer_list_`; the next frame
takes it from the map and deletes it.  `Owned` is what the map, the heap and the
log have to do with one another, `Listed` what the marks have to do with the
list.  Both are stated for an explicit list, so that they also describe the
loops that empty it.
-/

namespace CrossOver.Engine.WorkThread

open CrossOver.Lib
open CrossOver.Engine.Network (HandleInfo)

variable {s s' : State}

def LogEntry.releasedTimer : LogEntry → Option TimerRef
  | .functionRemoved t _ => some t
  | .paramRemoved t _ => some t
  | .deleted t => some t
  | _ => none

def LogEntry.firedTimer : LogEntry → Option TimerRef
  | .fired t _ => some t
  | _ => none

namespace State

/-- What has been taken away for `t`. -/
def releases (s : State) (t : TimerRef) : List LogEntry :=
  s.log.filter fun entry => entry.releasedTimer = some t

def fires (s : State) (t : TimerRef) : Nat :=
  s.log.countP fun entry => entry.firedTimer = some t

end State

/-- The timers in memory are those of `entries`, each under its own index, and
what has been taken away is what belonged to those that are gone. -/
structure Owned (entries : List (UInt32 × TimerRef)) (s : State) : Prop where
  keys : (entries.map Prod.fst).Nodup
  mapped : ∀ index t, (index, t) ∈ entries → ∃ timer, s.heap t = some timer ∧ timer.index = index
  live : ∀ t timer, s.heap t = some timer → (timer.index, t) ∈ entries
  fresh : ∀ t, s.nextRef ≤ t → s.heap t = none ∧ s.releases t = []
  account : ∀ t index handler, .added t index handler ∈ s.log →
    (∃ timer, s.heap t = some timer ∧ timer.index = index ∧ timer.handler = handler ∧
      s.releases t = []) ∨
    t < s.nextRef ∧ s.heap t = none ∧ s.releases t = State.released t handler

structure Listed (list : List TimerRef) (s : State) : Prop where
  nodup : list.Nodup
  marked : ∀ t, t ∈ list ↔ ∃ timer, s.heap t = some timer ∧ timer.isDelete = true

section Owned

variable {entries : List (UInt32 × TimerRef)} {list : List TimerRef} {t : TimerRef}
  {timer : IntervalTimer}

/-- A key leads to one timer only. -/
theorem Owned.unique (owned : Owned entries s) {index : UInt32} {other : TimerRef}
    (here : (index, t) ∈ entries) (there : (index, other) ∈ entries) : t = other :=
  congrArg Prod.snd (List.inj_on_of_nodup_map owned.keys here there rfl)

theorem releases_append {added : List LogEntry} (log : s'.log = s.log ++ added) (t : TimerRef) :
    s'.releases t = s.releases t ++ added.filter fun entry => entry.releasedTimer = some t := by
  rw [State.releases, log, List.filter_append]
  rfl

theorem fires_append {added : List LogEntry} (log : s'.log = s.log ++ added) (t : TimerRef) :
    s'.fires t = s.fires t + added.countP fun entry => entry.firedTimer = some t := by
  rw [State.fires, log, List.countP_append]
  rfl

@[simp]
theorem released_self (t : TimerRef) (handler : HandleInfo) :
    ((State.released t handler).filter fun entry => entry.releasedTimer = some t) =
      State.released t handler := by
  unfold State.released
  split <;> split <;> simp [LogEntry.releasedTimer]

theorem released_other {other : TimerRef} (different : other ≠ t) (handler : HandleInfo) :
    ((State.released t handler).filter fun entry => entry.releasedTimer = some other) = [] := by
  unfold State.released
  split <;> split <;> simp [LogEntry.releasedTimer, different.symm]

theorem released_added (t other : TimerRef) (index : UInt32) (handler own : HandleInfo) :
    .added other index own ∉ State.released t handler := by
  unfold State.released
  split <;> split <;> simp

theorem Owned.delete (owned : Owned entries s) (present : s.heap t = some timer) :
    Owned (entries.filter fun entry => entry.1 ≠ timer.index) (s.delete t timer) := by
  have log : (s.delete t timer).log = s.log ++ State.released t timer.handler := rfl
  have here := owned.live t timer present
  have heap : ∀ other, other ≠ t → (s.delete t timer).heap other = s.heap other :=
    fun other different => Function.update_of_ne different _ _
  have kept : ∀ other, other ≠ t → (s.delete t timer).releases other = s.releases other := by
    intro other different
    rw [releases_append log, released_other different, List.append_nil]
  have allocated : t < s.nextRef := by
    by_contra beyond
    cases (owned.fresh t (Nat.le_of_not_lt beyond)).1.symm.trans present
  refine ⟨?_, ?_, ?_, ?_, ?_⟩
  · exact owned.keys.sublist (List.filter_sublist.map _)
  · intro index other inside
    obtain ⟨inside, different⟩ := List.mem_filter.mp inside
    have elsewhere : other ≠ t := by
      rintro rfl
      obtain ⟨holder, holds, rfl⟩ := owned.mapped _ _ inside
      obtain rfl := Option.some.inj (present.symm.trans holds)
      simp at different
    rw [heap other elsewhere]
    exact owned.mapped index other inside
  · intro other holder holds
    have elsewhere : other ≠ t := by
      rintro rfl
      simp [State.delete] at holds
    rw [heap other elsewhere] at holds
    have inside := owned.live other holder holds
    refine List.mem_filter.mpr ⟨inside, ?_⟩
    simp only [ne_eq, decide_not, Bool.not_eq_eq_eq_not, Bool.not_true, decide_eq_false_iff_not]
    intro same
    rw [same] at inside
    exact elsewhere (owned.unique inside here)
  · intro other unborn
    have elsewhere : other ≠ t := by
      rintro rfl
      exact absurd allocated (Nat.not_lt_of_le unborn)
    rw [heap other elsewhere, kept other elsewhere]
    exact owned.fresh other unborn
  · intro other index handler entered
    rw [log] at entered
    replace entered := (List.mem_append.mp entered).resolve_right (released_added _ _ _ _ _)
    by_cases mine : other = t
    · subst mine
      right
      refine ⟨allocated, Function.update_self _ _ _, ?_⟩
      obtain ⟨holder, holds, _, rfl, none⟩ | ⟨_, gone, _⟩ :=
        owned.account other index handler entered
      · obtain rfl := Option.some.inj (present.symm.trans holds)
        rw [releases_append log, none, released_self, List.nil_append]
      · cases gone.symm.trans present
    · rw [heap other mine, kept other mine]
      exact owned.account other index handler entered

theorem Owned.change (owned : Owned entries s) (after : IntervalTimer) {fired : List LogEntry}
    (present : s.heap t = some timer) (index : after.index = timer.index)
    (handler : after.handler = timer.handler)
    (heap : s'.heap = Function.update s.heap t (some after)) (nextRef : s'.nextRef = s.nextRef)
    (log : s'.log = s.log ++ fired)
    (only : ∀ entry ∈ fired, ∃ t index, entry = .fired t index) : Owned entries s' := by
  have kept : ∀ other, s'.releases other = s.releases other := by
    intro other
    rw [releases_append log, List.filter_eq_nil_iff.mpr, List.append_nil]
    intro entry inside
    obtain ⟨t, index, rfl⟩ := only entry inside
    simp [LogEntry.releasedTimer]
  have elsewhere : ∀ other, other ≠ t → s'.heap other = s.heap other := by
    intro other different
    rw [heap, Function.update_of_ne different]
  have here : s'.heap t = some after := by rw [heap, Function.update_self]
  refine ⟨owned.keys, ?_, ?_, ?_, ?_⟩
  · intro key other inside
    by_cases mine : other = t
    · subst mine
      obtain ⟨holder, holds, rfl⟩ := owned.mapped key other inside
      obtain rfl := Option.some.inj (present.symm.trans holds)
      exact ⟨after, here, index⟩
    · rw [elsewhere other mine]
      exact owned.mapped key other inside
  · intro other holder holds
    by_cases mine : other = t
    · subst mine
      obtain rfl := Option.some.inj (here.symm.trans holds)
      rw [index]
      exact owned.live other timer present
    · rw [elsewhere other mine] at holds
      exact owned.live other holder holds
  · intro other unborn
    rw [nextRef] at unborn
    have different : other ≠ t := by
      rintro rfl
      cases (owned.fresh other unborn).1.symm.trans present
    rw [elsewhere other different, kept other]
    exact owned.fresh other unborn
  · intro other key own entered
    rw [log] at entered
    rcases List.mem_append.mp entered with old | new
    · rw [nextRef, kept other]
      by_cases mine : other = t
      · subst mine
        obtain ⟨holder, holds, rfl, rfl, none⟩ | ⟨_, gone, _⟩ := owned.account other key own old
        · obtain rfl := Option.some.inj (present.symm.trans holds)
          exact Or.inl ⟨after, here, index, handler, none⟩
        · cases gone.symm.trans present
      · rw [elsewhere other mine]
        exact owned.account other key own old
    · obtain ⟨_, _, wrong⟩ := only _ new
      cases wrong

theorem Owned.added (owned : Owned s.timerMap s) (interval : UInt32) (handler : HandleInfo)
    (next : UInt32) (free : s.find s.autoTimerIdx = none) :
    Owned (s.added interval handler next).timerMap (s.added interval handler next) := by
  have log : (s.added interval handler next).log =
      s.log ++ [.added s.nextRef s.autoTimerIdx handler] := rfl
  have kept : ∀ other, (s.added interval handler next).releases other = s.releases other := by
    intro other
    rw [releases_append log]
    simp [LogEntry.releasedTimer]
  have elsewhere : ∀ other, other ≠ s.nextRef →
      (s.added interval handler next).heap other = s.heap other :=
    fun other different => Function.update_of_ne different _ _
  have here : (s.added interval handler next).heap s.nextRef =
      some (.create s.autoTimerIdx s.getMSTime interval handler) := Function.update_self _ _ _
  have unused : s.autoTimerIdx ∉ s.timerMap.map Prod.fst := by
    intro used
    obtain ⟨⟨key, t⟩, inside, same⟩ := List.mem_map.mp used
    simp only [State.find, Option.map_eq_none_iff, List.find?_eq_none] at free
    exact free _ inside (by simpa using same)
  have unborn := owned.fresh s.nextRef le_rfl
  refine ⟨?_, ?_, ?_, ?_, ?_⟩
  · change ((s.timerMap ++ [(s.autoTimerIdx, s.nextRef)]).map Prod.fst).Nodup
    rw [List.map_append]
    exact List.nodup_append.mpr ⟨owned.keys, by simp, by
      intro key used other single
      obtain rfl : other = s.autoTimerIdx := by simpa using single
      rintro rfl
      exact unused used⟩
  · intro key other inside
    rcases List.mem_append.mp inside with old | new
    · obtain ⟨holder, holds, same⟩ := owned.mapped key other old
      have different : other ≠ s.nextRef := by
        rintro rfl
        cases unborn.1.symm.trans holds
      exact ⟨holder, (elsewhere other different).trans holds, same⟩
    · obtain ⟨rfl, rfl⟩ : key = s.autoTimerIdx ∧ other = s.nextRef := by simpa using new
      exact ⟨_, here, rfl⟩
  · intro other holder holds
    by_cases mine : other = s.nextRef
    · subst mine
      obtain rfl := Option.some.inj (here.symm.trans holds)
      exact List.mem_append_right _ List.mem_cons_self
    · rw [elsewhere other mine] at holds
      exact List.mem_append_left _ (owned.live other holder holds)
  · intro other beyond
    have later : s.nextRef ≤ other := Nat.le_of_succ_le beyond
    have different : other ≠ s.nextRef := by
      rintro rfl
      exact absurd beyond (Nat.not_succ_le_self _)
    rw [elsewhere other different, kept other]
    exact owned.fresh other later
  · intro other key own entered
    rw [kept other]
    rcases List.mem_append.mp entered with old | new
    · rcases owned.account other key own old with ⟨holder, holds, same⟩ | ⟨allocated, gone, released⟩
      · have different : other ≠ s.nextRef := by
          rintro rfl
          cases unborn.1.symm.trans holds
        exact Or.inl ⟨holder, (elsewhere other different).trans holds, same⟩
      · have different : other ≠ s.nextRef := Nat.ne_of_lt allocated
        rw [elsewhere other different]
        exact Or.inr ⟨Nat.lt_succ_of_lt allocated, gone, released⟩
    · obtain ⟨rfl, rfl, rfl⟩ : other = s.nextRef ∧ key = s.autoTimerIdx ∧ own = handler := by
        simpa using new
      exact Or.inl ⟨_, here, rfl, rfl, unborn.2⟩

/-! ## The marks -/

theorem Listed.delete (listed : Listed (t :: list) s) :
    Listed list (s.delete t timer) := by
  obtain ⟨nodup, marked⟩ := listed
  obtain ⟨absent, nodup⟩ := List.nodup_cons.mp nodup
  refine ⟨nodup, ?_⟩
  intro other
  by_cases mine : other = t
  · subst mine
    simp [State.delete, absent]
  · have same : (s.delete t timer).heap other = s.heap other := Function.update_of_ne mine _ _
    rw [same, ← marked other, List.mem_cons]
    simp [mine]

theorem Listed.mark (listed : Listed list s) (present : s.heap t = some timer)
    (unmarked : timer.isDelete = false) : Listed (list ++ [t]) (s.marked t timer) := by
  have absent : t ∉ list := by
    intro inside
    obtain ⟨holder, holds, marked⟩ := (listed.marked t).mp inside
    obtain rfl := Option.some.inj (present.symm.trans holds)
    cases unmarked.symm.trans marked
  refine ⟨List.nodup_append.mpr ⟨listed.nodup, by simp, ?_⟩, ?_⟩
  · intro other inside same single
    obtain rfl : same = t := by simpa using single
    rintro rfl
    exact absent inside
  · intro other
    by_cases mine : other = t
    · subst mine
      simp [State.marked, State.setTimer]
    · simp [State.marked, State.setTimer, listed.marked other, mine]

/-- A timer keeps its mark, or is new. -/
theorem Listed.change (listed : Listed list s) {after : IntervalTimer}
    (heap : s'.heap = Function.update s.heap t (some after))
    (same : (∃ timer, s.heap t = some timer ∧ timer.isDelete = true) ↔ after.isDelete = true) :
    Listed list s' := by
  refine ⟨listed.nodup, ?_⟩
  intro other
  rw [listed.marked other, heap]
  by_cases mine : other = t
  · subst mine
    simp [same]
  · rw [Function.update_of_ne mine]

end Owned

/-! ## Steps -/

structure Kept (s : State) : Prop where
  owned : Owned s.timerMap s
  listed : Listed s.delTimerList s
  ahead : ∀ ahead, s.phase = .timers ahead → ahead ⊆ s.timers
  finished : s.phase = .destroyed → s.timerMap = []

theorem initial_kept : Kept State.initial where
  owned := by
    refine ⟨List.nodup_nil, nofun, nofun, fun t _ => ⟨rfl, rfl⟩, ?_⟩
    intro t index handler entered
    cases entered
  listed := ⟨List.nodup_nil, fun t => ⟨nofun, fun ⟨_, absent, _⟩ => nomatch absent⟩⟩
  ahead := nofun
  finished := nofun

section Steps

variable {t : TimerRef} {timer : IntervalTimer}

theorem Kept.present (kept : Kept s) (inside : t ∈ s.timers) : ∃ timer, s.heap t = some timer := by
  obtain ⟨⟨index, _⟩, entry, rfl⟩ := List.mem_map.mp inside
  obtain ⟨timer, present, _⟩ := kept.owned.mapped _ _ entry
  exact ⟨timer, present⟩

/-- Timers, marks and log are untouched. -/
theorem Kept.rephase (kept : Kept s) {now due : Nat} {nextTime : UInt32} {phase : Phase}
    (ahead : ∀ ahead, phase = .timers ahead → ahead ⊆ s.timers)
    (finished : phase = .destroyed → s.timerMap = []) :
    Kept { s with now := now, due := due, nextTime := nextTime, phase := phase } :=
  ⟨⟨kept.owned.keys, kept.owned.mapped, kept.owned.live, kept.owned.fresh, kept.owned.account⟩,
    ⟨kept.listed.nodup, kept.listed.marked⟩, ahead, finished⟩

theorem find_mem {index : UInt32} (found : s.find index = some t) : (index, t) ∈ s.timerMap := by
  obtain ⟨⟨key, _⟩, first, rfl⟩ := Option.map_eq_some_iff.mp found
  obtain rfl : key = index := by simpa using List.find?_some first
  exact List.mem_of_find?_eq_some first

theorem markDeleted_kept (kept : Kept s) (inside : t ∈ s.timers) :
    ∃ s', s.markDeleted t = some s' ∧ Kept s' ∧ s'.timerMap = s.timerMap := by
  obtain ⟨timer, present⟩ := kept.present inside
  unfold State.markDeleted
  rw [present, Option.bind_eq_bind, Option.bind_some]
  split
  · exact ⟨s, rfl, kept, rfl⟩
  · next unmarked =>
      refine ⟨s.marked t timer, rfl, ?_, rfl⟩
      have owned : Owned s.timerMap (s.marked t timer) :=
        kept.owned.change { timer with isDelete := true } present rfl rfl rfl rfl
          (List.append_nil _).symm nofun
      have listed := kept.listed.mark present (Bool.eq_false_iff.mpr unmarked)
      exact ⟨owned, listed, kept.ahead, kept.finished⟩

theorem removeTimer_kept (kept : Kept s) (index : UInt32) :
    ∃ s', s.removeTimer index = some s' ∧ Kept s' := by
  unfold State.removeTimer
  split
  · exact ⟨s, rfl, kept⟩
  · next t found =>
      have inside : t ∈ s.timers := List.mem_map.mpr ⟨_, find_mem found, rfl⟩
      obtain ⟨s', marked, kept, _⟩ := markDeleted_kept kept inside
      exact ⟨s', marked, kept⟩

theorem stopLoop_kept {entries : List (UInt32 × TimerRef)} (kept : Kept s)
    (inside : entries ⊆ s.timerMap) : ∃ s', State.stopLoop entries s = some s' ∧ Kept s' := by
  induction entries generalizing s with
  | nil => exact ⟨s, rfl, kept⟩
  | cons entry rest inductionHypothesis =>
      obtain ⟨index, t⟩ := entry
      have here : t ∈ s.timers := List.mem_map.mpr ⟨_, inside List.mem_cons_self, rfl⟩
      obtain ⟨between, marked, kept, same⟩ := markDeleted_kept kept here
      have later : rest ⊆ between.timerMap := by
        rw [same]
        exact fun other later => inside (List.mem_cons_of_mem _ later)
      obtain ⟨s', stopped, kept⟩ := inductionHypothesis kept later
      exact ⟨s', Option.bind_eq_some_iff.mpr ⟨between, marked, stopped⟩, kept⟩

theorem sweepLoop_kept {list : List TimerRef} (owned : Owned s.timerMap s)
    (listed : Listed list s) : ∃ s', State.sweepLoop list s = some s' ∧
      Owned s'.timerMap s' ∧ Listed [] s' := by
  induction list generalizing s with
  | nil => exact ⟨s, rfl, owned, listed⟩
  | cons t rest inductionHypothesis =>
      obtain ⟨timer, present, _⟩ := (listed.marked t).mp List.mem_cons_self
      have deleted := owned.delete present
      have rest : Listed rest (s.delete t timer) := listed.delete
      obtain ⟨s', swept, kept⟩ := inductionHypothesis
        (s := State.delete
          { s with timerMap := s.timerMap.filter fun entry => entry.1 ≠ timer.index } t timer)
        ⟨deleted.keys, deleted.mapped, deleted.live, deleted.fresh, deleted.account⟩
        ⟨rest.nodup, rest.marked⟩
      exact ⟨s', Option.bind_eq_some_iff.mpr ⟨timer, present, swept⟩, kept⟩

theorem destroyLoop_kept {entries : List (UInt32 × TimerRef)} (owned : Owned entries s) :
    ∃ s', State.destroyLoop entries s = some s' ∧ Owned [] s' ∧
      s'.delTimerList = s.delTimerList := by
  induction entries generalizing s with
  | nil => exact ⟨s, rfl, owned, rfl⟩
  | cons entry rest inductionHypothesis =>
      obtain ⟨index, t⟩ := entry
      obtain ⟨timer, present, rfl⟩ := owned.mapped index t List.mem_cons_self
      obtain ⟨absent, _⟩ := List.nodup_cons.mp owned.keys
      have same : ((timer.index, t) :: rest).filter (fun entry => entry.1 ≠ timer.index) = rest := by
        rw [List.filter_cons_of_neg (by simp)]
        refine List.filter_eq_self.mpr ?_
        intro other inside
        simp only [ne_eq, decide_not, Bool.not_eq_eq_eq_not, Bool.not_true, decide_eq_false_iff_not]
        intro equal
        exact absent (List.mem_map.mpr ⟨other, inside, equal⟩)
      have deleted := owned.delete present
      rw [same] at deleted
      obtain ⟨s', destroyed, kept⟩ := inductionHypothesis deleted
      exact ⟨s', Option.bind_eq_some_iff.mpr ⟨timer, present, destroyed⟩, kept⟩

theorem addTimer_kept {interval : UInt32} {handler : HandleInfo} {ahead : List TimerRef}
    (kept : Kept s) (scripted : s.isScripted = true)
    (called : s.addTimer interval handler ahead = some s') : Kept s' := by
  obtain ⟨free, next, reordered⟩ := addTimer_cases called
  have unborn := kept.owned.fresh s.nextRef le_rfl
  have owned := kept.owned.added interval handler next free
  have listed : Listed s.delTimerList (s.added interval handler next) := by
    refine kept.listed.change rfl ?_
    simp [unborn.1, IntervalTimer.create]
  have unfinished : s.phase ≠ .destroyed := by
    intro destroyed
    simp [State.isScripted, destroyed] at scripted
  obtain rfl | ⟨before, _, inside, rfl⟩ := reorder_cases reordered
  · refine ⟨owned, listed, ?_, fun destroyed => absurd destroyed unfinished⟩
    intro ahead phase t inside
    obtain ⟨entry, mapped, rfl⟩ := List.mem_map.mp (kept.ahead ahead phase inside)
    exact List.mem_map.mpr ⟨entry, List.mem_append_left _ mapped, rfl⟩
  · refine ⟨⟨owned.keys, owned.mapped, owned.live, owned.fresh, owned.account⟩,
      ⟨listed.nodup, listed.marked⟩, ?_, nofun⟩
    rintro _ ⟨rfl⟩
    exact inside

theorem visit_kept {ahead : List TimerRef} (kept : Kept s) (inside : ahead ⊆ s.timers)
    (visited : s.visit t ahead = some s') : Kept s' := by
  have remaining : ∀ other, Phase.timers ahead = .timers other → other ⊆ s.timers := by
    rintro _ ⟨rfl⟩
    exact inside
  obtain ⟨timer, present, ⟨_, rfl⟩ | ⟨unmarked, lastTime, entries, fires, rfl⟩⟩ :=
    visit_cases visited
  · exact kept.rephase remaining nofun
  · have owned : Owned s.timerMap
        { s.setTimer t { timer with lastTime := lastTime } with
          phase := .timers ahead, log := s.log ++ entries } := by
      refine kept.owned.change { timer with lastTime := lastTime } present rfl rfl rfl rfl rfl ?_
      rcases fires with rfl | rfl
      · exact nofun
      · intro entry inside
        exact ⟨t, timer.index, by simpa using inside⟩
    refine ⟨owned, kept.listed.change rfl ?_, remaining, nofun⟩
    simp [present, unmarked]

theorem Kept.run (kept : Kept s) {now due : Nat} {nextTime : UInt32} (isRunning : Bool) :
    Kept { s with now := now, due := due, nextTime := nextTime, phase := running isRunning } := by
  cases isRunning <;> exact kept.rephase nofun nofun

theorem step_kept {label : Label} (kept : Kept s) (stepped : label.exec s = some s') : Kept s' := by
  cases step_cases stepped with
  | start => exact kept.run _
  | addTimer scripted _ called =>
      refine addTimer_kept ?_ ?_ called
      · exact kept.rephase kept.ahead kept.finished
      · exact scripted
  | @removeTimer index _ _ called =>
      obtain ⟨after, removed, kept⟩ := removeTimer_kept kept index
      obtain rfl := Option.some.inj (called.symm.trans removed)
      exact kept
  | stopAllTimer _ called =>
      obtain ⟨after, stopped, kept⟩ := stopLoop_kept kept (List.Subset.refl s.timerMap)
      obtain rfl := Option.some.inj (called.symm.trans stopped)
      exact kept
  | sweep _ begun permuted =>
      obtain ⟨swept, done, owned, listed⟩ := sweepLoop_kept kept.owned kept.listed
      obtain rfl := Option.some.inj (begun.symm.trans done)
      refine ⟨⟨owned.keys, owned.mapped, owned.live, owned.fresh, owned.account⟩,
        ⟨listed.nodup, listed.marked⟩, ?_, nofun⟩
      rintro _ ⟨rfl⟩
      exact permuted.subset
  | @visit _ t ahead _ phase _ visited =>
      have inside := kept.ahead _ phase
      refine visit_kept ?_ ?_ visited
      · exact kept.rephase kept.ahead kept.finished
      · exact fun other later => inside (List.mem_cons_of_mem _ later)
  | eventLoop => exact kept.rephase nofun nofun
  | endFrame => exact kept.run _
  | destroy _ gone =>
      have cleared : Owned s.timerMap { s with delTimerList := [] } :=
        ⟨kept.owned.keys, kept.owned.mapped, kept.owned.live, kept.owned.fresh, kept.owned.account⟩
      obtain ⟨destroyed, done, owned, list⟩ := destroyLoop_kept cleared
      obtain rfl := Option.some.inj (gone.symm.trans done)
      refine ⟨⟨owned.keys, owned.mapped, owned.live, owned.fresh, owned.account⟩, ?_, nofun,
        fun _ => rfl⟩
      dsimp only
      rw [list]
      refine ⟨List.nodup_nil, fun t => ⟨nofun, ?_⟩⟩
      rintro ⟨timer, present, _⟩
      cases owned.live t timer present

end Steps

/-! ## A timer that is marked or gone never fires -/

structure Retired (t : TimerRef) (s : State) : Prop where
  allocated : t < s.nextRef
  marked : ∀ timer, s.heap t = some timer → timer.isDelete = true

/-- `t` is retired and has not fired since `s`. -/
def Silent (t : TimerRef) (s s' : State) : Prop := Retired t s' ∧ s'.fires t = s.fires t

section Silent

variable {t u : TimerRef}

theorem Silent.trans {s₁ s₂ : State} (first : Silent t s s₁) (second : Silent t s₁ s₂) :
    Silent t s s₂ := ⟨second.1, second.2.trans first.2⟩

/-- Whatever happens to other timers, and to `t` as long as it keeps its mark. -/
theorem Retired.silent (retired : Retired t s) {added : List LogEntry}
    (nextRef : s.nextRef ≤ s'.nextRef) (log : s'.log = s.log ++ added)
    (quiet : ∀ index, .fired t index ∉ added)
    (heap : ∀ timer, s'.heap t = some timer → s.heap t = some timer ∨ timer.isDelete = true) :
    Silent t s s' := by
  refine ⟨⟨Nat.lt_of_lt_of_le retired.allocated nextRef, ?_⟩, ?_⟩
  · intro timer present
    rcases heap timer present with before | marked
    · exact retired.marked timer before
    · exact marked
  · rw [fires_append log, List.countP_eq_zero.mpr, Nat.add_zero]
    intro entry inside
    cases entry with
    | fired other index =>
        simp only [LogEntry.firedTimer, Option.some.injEq, decide_eq_true_eq]
        rintro rfl
        exact quiet index inside
    | _ => simp [LogEntry.firedTimer]

theorem Retired.same (retired : Retired t s) (nextRef : s'.nextRef = s.nextRef)
    (log : s'.log = s.log) (heap : s'.heap = s.heap) : Silent t s s' := by
  refine retired.silent nextRef.ge (log.trans (List.append_nil _).symm) nofun ?_
  intro timer present
  rw [heap] at present
  exact Or.inl present

theorem markDeleted_silent (retired : Retired t s) (called : s.markDeleted u = some s') :
    Silent t s s' := by
  obtain ⟨timer, present, ⟨_, rfl⟩ | ⟨_, rfl⟩⟩ := markDeleted_cases called
  · exact retired.same rfl rfl rfl
  · refine retired.silent le_rfl (List.append_nil _).symm nofun ?_
    intro holder holds
    obtain ⟨rfl, rfl⟩ | ⟨-, before⟩ := setTimer_cases (by exact holds)
    · exact Or.inr rfl
    · exact Or.inl before

theorem stopLoop_silent {entries : List (UInt32 × TimerRef)} (retired : Retired t s)
    (stopped : State.stopLoop entries s = some s') : Silent t s s' := by
  induction entries generalizing s with
  | nil =>
      obtain rfl := Option.some.inj stopped
      exact retired.same rfl rfl rfl
  | cons entry rest inductionHypothesis =>
      obtain ⟨between, called, stopped⟩ := Option.bind_eq_some_iff.mp stopped
      have silent := markDeleted_silent retired called
      exact silent.trans (inductionHypothesis silent.1 stopped)

theorem delete_silent (retired : Retired t s) (u : TimerRef) (timer : IntervalTimer) :
    Silent t s (s.delete u timer) := by
  refine retired.silent le_rfl rfl ?_ ?_
  · intro index
    unfold State.released
    split <;> split <;> simp
  · intro holder holds
    by_cases mine : t = u
    · subst mine
      simp [State.delete] at holds
    · exact Or.inl (by simpa [State.delete, mine] using holds)

theorem sweepLoop_silent {list : List TimerRef} (retired : Retired t s)
    (swept : State.sweepLoop list s = some s') : Silent t s s' := by
  induction list generalizing s with
  | nil =>
      obtain rfl := Option.some.inj swept
      exact retired.same rfl rfl rfl
  | cons u rest inductionHypothesis =>
      obtain ⟨timer, _, swept⟩ := Option.bind_eq_some_iff.mp swept
      have removed : Silent t s
          { s with timerMap := s.timerMap.filter fun entry => entry.1 ≠ timer.index } :=
        retired.same rfl rfl rfl
      have silent := removed.trans (delete_silent removed.1 u timer)
      exact silent.trans (inductionHypothesis silent.1 swept)

theorem destroyLoop_silent {entries : List (UInt32 × TimerRef)} (retired : Retired t s)
    (destroyed : State.destroyLoop entries s = some s') : Silent t s s' := by
  induction entries generalizing s with
  | nil =>
      obtain rfl := Option.some.inj destroyed
      exact retired.same rfl rfl rfl
  | cons entry rest inductionHypothesis =>
      obtain ⟨timer, _, destroyed⟩ := Option.bind_eq_some_iff.mp destroyed
      have silent : Silent t s (s.delete entry.2 timer) := delete_silent retired _ timer
      exact silent.trans (inductionHypothesis silent.1 destroyed)

theorem addTimer_silent {interval : UInt32} {handler : HandleInfo} {ahead : List TimerRef}
    (retired : Retired t s) (called : s.addTimer interval handler ahead = some s') :
    Silent t s s' := by
  obtain ⟨_, next, reordered⟩ := addTimer_cases called
  have different : t ≠ s.nextRef := Nat.ne_of_lt retired.allocated
  have silent : Silent t s (s.added interval handler next) := by
    refine retired.silent (Nat.le_succ _) rfl (by simp) ?_
    intro timer present
    obtain ⟨same, -⟩ | ⟨-, before⟩ := setTimer_cases (by exact present)
    · exact absurd same different
    · exact Or.inl before
  obtain rfl | ⟨_, _, _, rfl⟩ := reorder_cases reordered
  · exact silent
  · exact silent.trans (silent.1.same rfl rfl rfl)

theorem visit_silent {ahead : List TimerRef} (retired : Retired t s)
    (visited : s.visit u ahead = some s') : Silent t s s' := by
  obtain ⟨timer, present, ⟨_, rfl⟩ | ⟨unmarked, lastTime, entries, fires, rfl⟩⟩ :=
    visit_cases visited
  · exact retired.same rfl rfl rfl
  · have different : t ≠ u := by
      rintro rfl
      cases unmarked.symm.trans (retired.marked timer present)
    refine retired.silent le_rfl rfl ?_ ?_
    · rcases fires with rfl | rfl
      · exact nofun
      · simp [different]
    · intro holder holds
      obtain ⟨same, -⟩ | ⟨-, before⟩ := setTimer_cases (by exact holds)
      · exact absurd same different
      · exact Or.inl before

theorem step_silent {label : Label} (retired : Retired t s) (stepped : label.exec s = some s') :
    Silent t s s' := by
  cases step_cases stepped with
  | start => exact retired.same rfl rfl rfl
  | @addTimer time _ _ _ _ _ _ called =>
      have moved : Silent t s { s with now := time } := retired.same rfl rfl rfl
      exact moved.trans (addTimer_silent moved.1 called)
  | removeTimer _ called =>
      obtain ⟨_, rfl⟩ | ⟨u, _, marked⟩ := removeTimer_cases called
      · exact retired.same rfl rfl rfl
      · exact markDeleted_silent retired marked
  | stopAllTimer _ called => exact stopLoop_silent retired called
  | sweep _ begun _ =>
      have silent := sweepLoop_silent retired begun
      exact silent.trans (silent.1.same rfl rfl rfl)
  | @visit time _ _ _ _ _ visited =>
      have moved : Silent t s { s with now := time } := retired.same rfl rfl rfl
      exact moved.trans (visit_silent moved.1 visited)
  | eventLoop => exact retired.same rfl rfl rfl
  | endFrame => exact retired.same rfl rfl rfl
  | destroy _ gone =>
      have cleared : Silent t s { s with delTimerList := [] } := retired.same rfl rfl rfl
      have silent := cleared.trans (destroyLoop_silent cleared.1 gone)
      exact silent.trans (silent.1.same rfl rfl rfl)

end Silent

/-! ## Runs -/

section Runs

variable {t : TimerRef} {index : UInt32}

theorem reachable_kept (reached : system.Reachable s) : Kept s := by
  refine reached.invariant ?_ ?_
  · rintro _ rfl
    exact initial_kept
  · intro before label after _ kept stepped
    exact step_kept kept stepped

theorem later_silent (retired : Retired t s) {later : State}
    (reached : (system.startingAt s).Reachable later) : Silent t s later := by
  refine reached.invariant ?_ ?_
  · rintro _ rfl
    exact ⟨retired, rfl⟩
  · intro before label after _ silent stepped
    exact silent.trans (step_silent silent.1 stepped)

/-- `remove_timer` leaves its timer marked. -/
theorem removeTimer_retires (kept : Kept s) (found : s.find index = some t)
    (removed : s.removeTimer index = some s') : Retired t s' := by
  obtain ⟨unknown, _⟩ | ⟨u, known, called⟩ := removeTimer_cases removed
  · cases unknown.symm.trans found
  obtain rfl := Option.some.inj (known.symm.trans found)
  obtain ⟨timer, present, changed⟩ := markDeleted_cases called
  have allocated : u < s.nextRef := by
    by_contra beyond
    cases (kept.owned.fresh u (Nat.le_of_not_lt beyond)).1.symm.trans present
  obtain ⟨marked, rfl⟩ | ⟨_, rfl⟩ := changed
  · refine ⟨allocated, ?_⟩
    intro holder holds
    obtain rfl := Option.some.inj (present.symm.trans holds)
    exact marked
  · refine ⟨allocated, ?_⟩
    intro holder holds
    obtain ⟨-, rfl⟩ | ⟨other, -⟩ := setTimer_cases (by exact holds)
    · rfl
    · exact absurd rfl other

/-- No function meets a timer that is gone. -/
structure State.Usable (s : State) : Prop where
  remove : ∀ index, (s.removeTimer index).isSome
  stop : s.stopAllTimer.isSome
  sweep : (State.sweepLoop s.delTimerList s).isSome
  visit : ∀ t ahead, s.phase = .timers (t :: ahead) → (s.heap t).isSome
  destroy : s.destroy.isSome

theorem Kept.usable (kept : Kept s) : s.Usable := by
  refine ⟨?_, ?_, ?_, ?_, ?_⟩
  · intro index
    obtain ⟨s', removed, _⟩ := removeTimer_kept kept index
    exact Option.isSome_iff_exists.mpr ⟨s', removed⟩
  · obtain ⟨s', stopped, _⟩ := stopLoop_kept kept (List.Subset.refl s.timerMap)
    exact Option.isSome_iff_exists.mpr ⟨s', stopped⟩
  · obtain ⟨s', swept, _⟩ := sweepLoop_kept kept.owned kept.listed
    exact Option.isSome_iff_exists.mpr ⟨s', swept⟩
  · intro t ahead phase
    obtain ⟨timer, present⟩ := kept.present (kept.ahead _ phase List.mem_cons_self)
    exact Option.isSome_iff_exists.mpr ⟨timer, present⟩
  · have cleared : Owned s.timerMap { s with delTimerList := [] } :=
      ⟨kept.owned.keys, kept.owned.mapped, kept.owned.live, kept.owned.fresh, kept.owned.account⟩
    obtain ⟨destroyed, gone, _⟩ := destroyLoop_kept cleared
    exact Option.isSome_iff_exists.mpr ⟨_, Option.bind_eq_some_iff.mpr ⟨destroyed, gone, rfl⟩⟩

/-- In every run: the list and the marks agree, a removed timer stays silent, and
what belonged to a timer is taken away once, when it is deleted, and by the end
of the thread for every timer. -/
theorem removal_exact (reached : system.Reachable s) :
    s.delTimerList.Nodup ∧
    (∀ t, t ∈ s.delTimerList ↔
      t ∈ s.timers ∧ ∃ timer, s.heap t = some timer ∧ timer.isDelete = true) ∧
    (∀ index t, (index, t) ∈ s.timerMap → s.find index = some t ∧
      ∃ timer, s.heap t = some timer ∧ timer.index = index) ∧
    (∀ index t, s.find index = some t → ∀ after, s.removeTimer index = some after →
      ∀ later, (system.startingAt after).Reachable later → later.fires t = after.fires t) ∧
    (∀ t index handler, .added t index handler ∈ s.log →
      s.releases t = if (s.heap t).isSome then [] else State.released t handler) ∧
    (s.phase = .destroyed → ∀ t, s.heap t = none) ∧
    s.Usable := by
  have kept := reachable_kept reached
  refine ⟨kept.listed.nodup, ?_, ?_, ?_, ?_, ?_, kept.usable⟩
  · intro t
    rw [kept.listed.marked t]
    constructor
    · rintro ⟨timer, present, marked⟩
      exact ⟨List.mem_map.mpr ⟨_, kept.owned.live t timer present, rfl⟩, timer, present, marked⟩
    · exact And.right
  · intro index t inside
    refine ⟨?_, kept.owned.mapped index t inside⟩
    obtain unknown | ⟨other, found⟩ := Option.eq_none_or_eq_some (s.find index)
    · simp only [State.find, Option.map_eq_none_iff, List.find?_eq_none] at unknown
      exact absurd (decide_eq_true rfl) (unknown _ inside)
    · rw [found, kept.owned.unique inside (find_mem found)]
  · intro index t found after removed later reached
    exact (later_silent (removeTimer_retires kept found removed) reached).2
  · intro t index handler entered
    rcases kept.owned.account t index handler entered with
      ⟨timer, present, _, _, none⟩ | ⟨_, gone, released⟩
    · simp [present, none]
    · simp [gone, released]
  · intro destroyed t
    obtain absent | ⟨timer, present⟩ := Option.eq_none_or_eq_some (s.heap t)
    · exact absent
    · have inside := kept.owned.live t timer present
      rw [kept.finished destroyed] at inside
      cases inside

/-- A timer fires and takes itself off; the next frame deletes it. -/
def selfRemoval : List Label :=
  [.start 0 true, .addTimer 0 10 { funId := 7 } [], .sweep [0], .visit 20, .removeTimer 1,
    .eventLoop 20, .endFrame 100 true, .sweep []]

theorem selfRemoval_ends : (play selfRemoval State.initial).isSome = true := by decide +kernel

theorem removal_exact_selfRemoval : ∃ s, system.Reachable s ∧ s.fires 0 = 1 ∧
    s.releases 0 = [.functionRemoved 0 7, .deleted 0] := by
  have reached : (system.restrict fun _ _ => True).Reachable
      ((play selfRemoval State.initial).get selfRemoval_ends) :=
    play_reachable (.start rfl) selfRemoval (fun _ _ _ => trivial)
      (Option.some_get selfRemoval_ends).symm
  obtain ⟨_, _, _, _, account, _⟩ := removal_exact reached.of_restrict
  refine ⟨_, reached.of_restrict, by decide +kernel, ?_⟩
  exact account 0 1 { funId := 7 } (by decide +kernel)

end Runs

end CrossOver.Engine.WorkThread
