import CrossOver.Engine.Network.Traces
import CrossOver.Engine.Network.Watching

/-!
# The clock of the event loop

`EventLoop` reads the clock before each `epoll_wait` and asks it to wait for the
time that remains.  The loop is left when `epoll_wait` reports nothing or fails.
-/

namespace CrossOver.Engine.Network

open CrossOver.Lib

/-- What `epoll_wait` returns. -/
inductive EpollResult where
  | ready (entries : List Entry)
  | error

/-- One turn of the loop, as far as its environment decides it. -/
structure Poll where
  curTime : UInt32
  result : EpollResult

/-- A call of `epoll_wait`. -/
structure EpollCall where
  curTime : UInt32
  timeoutTime : UInt32
  fdCount : Int
  deriving DecidableEq, Repr

structure Looped where
  calls : List EpollCall
  /-- the loop has been left -/
  ended : Bool
  deriving DecidableEq, Repr

/-- What is reported; nothing if the call fails. -/
def Poll.entries (poll : Poll) : List Entry :=
  match poll.result with
  | .ready entries => entries
  | .error => []

def timeoutTime (timeout : Int32) (startTime curTime : UInt32) : UInt32 :=
  if timeout - (curTime - startTime).toInt32 > 0 then
    (timeout - (curTime - startTime).toInt32).toUInt32
  else 0

/-- The loop of `EventLoop` with a record of its calls. -/
def pollLoop (timeout : Int32) (startTime : UInt32) : List Poll → M Looped
  | [] => pure ⟨[], false⟩
  | poll :: rest => do
      let asked := timeoutTime timeout startTime poll.curTime
      let reported ← epollWait poll.entries
      match poll.result with
      | .error => pure ⟨[⟨poll.curTime, asked, -1⟩], true⟩
      | .ready _ =>
          if reported.isEmpty then
            pure ⟨[⟨poll.curTime, asked, 0⟩], true⟩
          else
            processBatch reported
            let looped ← pollLoop timeout startTime rest
            pure ⟨⟨poll.curTime, asked, reported.length⟩ :: looped.calls, looped.ended⟩

def eventLoopUntil (timeout : Int32) (startTime : UInt32) (polls : List Poll) : M Looped := do
  updateAll startTime (← get).mgr.socketMap
  pollLoop timeout startTime polls

section Deadline

variable {timeout : Int32} {startTime : UInt32} {polls : List Poll} {w w' : World}
  {looped : Looped}

theorem epollWait_nil : epollWait [] = (do
    modifyMgr fun m => { m with batch := [] }
    pure []) := rfl

/-- Without the record it is the loop that knows no clock. -/
theorem batchLoop_eq (timeout : Int32) (startTime : UInt32) (polls : List Poll) :
    batchLoop (polls.map Poll.entries) = (do
      let _ ← pollLoop timeout startTime polls
      pure ()) := by
  induction polls with
  | nil => rfl
  | cons poll rest inductionHypothesis =>
      rw [List.map_cons, batchLoop, pollLoop, bind_assoc]
      obtain ⟨curTime, result⟩ := poll
      cases result with
      | error =>
          dsimp only [Poll.entries]
          rw [epollWait_nil]
          simp only [bind_assoc, pure_bind, List.isEmpty_nil, if_true]
      | ready entries =>
          refine bind_congr fun reported => ?_
          dsimp only
          split
          · rw [pure_bind]
          · simp only [bind_assoc, pure_bind, inductionHypothesis]

theorem eventLoop_eq (timeout : Int32) (startTime : UInt32) (polls : List Poll) :
    eventLoop startTime (polls.map Poll.entries) = (do
      let _ ← eventLoopUntil timeout startTime polls
      pure ()) := by
  unfold eventLoop eventLoopUntil
  simp only [bind_assoc, batchLoop_eq timeout startTime]

/-- What the record says about the calls: each asked for the time that
`timeoutTime` gives, and the loop went on exactly while something was reported. -/
structure Recorded (timeout : Int32) (startTime : UInt32) (polls : List Poll) (looped : Looped) :
    Prop where
  asked : ∀ call ∈ looped.calls, call.timeoutTime = timeoutTime timeout startTime call.curTime
  clocks : looped.calls.map EpollCall.curTime <+: polls.map Poll.curTime
  left : looped.ended = true → ∃ ready last, looped.calls = ready ++ [last] ∧
    (∀ call ∈ ready, 0 < call.fdCount) ∧ last.fdCount ≤ 0
  stayed : looped.ended = false → looped.calls.length = polls.length ∧
    ∀ call ∈ looped.calls, 0 < call.fdCount

/-- The last turn. -/
theorem recorded_last {poll : Poll} {rest : List Poll} {fdCount : Int} (none : fdCount ≤ 0) :
    Recorded timeout startTime (poll :: rest)
      ⟨[⟨poll.curTime, timeoutTime timeout startTime poll.curTime, fdCount⟩], true⟩ where
  asked := List.forall_mem_singleton.mpr rfl
  clocks := by simp
  left _ := ⟨[], _, rfl, by simp, none⟩
  stayed := by simp

theorem Recorded.cons {poll : Poll} (recorded : Recorded timeout startTime polls looped)
    {fdCount : Int} (some : 0 < fdCount) :
    Recorded timeout startTime (poll :: polls)
      ⟨⟨poll.curTime, timeoutTime timeout startTime poll.curTime, fdCount⟩ :: looped.calls,
        looped.ended⟩ where
  asked := List.forall_mem_cons.mpr ⟨rfl, recorded.asked⟩
  clocks := by
    rw [List.map_cons, List.map_cons]
    exact List.cons_prefix_cons.mpr ⟨rfl, recorded.clocks⟩
  left ended := by
    obtain ⟨ready, last, split, positive, none⟩ := recorded.left ended
    exact ⟨_ :: ready, last, congrArg (List.cons _) split,
      List.forall_mem_cons.mpr ⟨some, positive⟩, none⟩
  stayed ended := by
    obtain ⟨all, positive⟩ := recorded.stayed ended
    exact ⟨congrArg Nat.succ all, List.forall_mem_cons.mpr ⟨some, positive⟩⟩

theorem pollLoop_recorded (polls : List Poll) : Wp Anyhow (pollLoop timeout startTime polls)
    (fun looped _ => Recorded timeout startTime polls looped) w := by
  induction polls generalizing w with
  | nil => exact ⟨by simp, by simp, by simp, by simp⟩
  | cons poll rest inductionHypothesis =>
      rw [pollLoop]
      refine (anyhow_keeps (epollWait poll.entries) w trivial).seq fun reported w₁ _ => ?_
      split
      · exact recorded_last (by decide)
      · split
        · exact recorded_last le_rfl
        · next some =>
          refine (anyhow_keeps (processBatch reported) w₁ trivial).seq fun _ w₂ _ => ?_
          refine inductionHypothesis.seq fun looped w₃ recorded => recorded.cons ?_
          have nonempty : reported ≠ [] := fun none => some (by rw [none]; rfl)
          exact_mod_cast List.length_pos_iff.mpr nonempty

/-- The time that remains, as long as no `int32` overflows. -/
theorem timeoutTime_toNat {curTime : UInt32} (near : (curTime - startTime).toNat < 2 ^ 31)
    (fits : -2 ^ 31 ≤ timeout.toInt - (curTime - startTime).toNat) :
    ((timeoutTime timeout startTime curTime).toNat : Int) =
      max 0 (timeout.toInt - (curTime - startTime).toNat) := by
  have bound := timeout.toInt_lt
  have elapsed : (curTime - startTime).toInt32.toInt = (curTime - startTime).toNat := by
    rw [← UInt32.ofNat_toNat (x := curTime - startTime), UInt32.toInt32_ofNat',
      Int32.toInt_ofNat_of_lt (by simpa using near)]
    simp
  have remaining : (timeout - (curTime - startTime).toInt32).toInt =
      timeout.toInt - (curTime - startTime).toNat := by
    rw [Int32.toInt_sub, elapsed, Int.bmod_def]
    split <;> omega
  have zero : (0 : Int32).toInt = 0 := rfl
  unfold timeoutTime
  split
  · next positive =>
      have some := Int32.lt_iff_toInt_lt.mp positive
      rw [remaining, zero] at some
      have least : 0 ≤ timeout - (curTime - startTime).toInt32 := by
        rw [Int32.le_iff_toInt_le, remaining, zero]
        exact Int.le_of_lt some
      rw [Int32.toNat_toUInt32_of_le least, Int32.toNatClampNeg, remaining]
      omega
  · next finished =>
      have none : ¬ 0 < timeout.toInt - (curTime - startTime).toNat := by
        rw [← remaining]
        exact fun some => finished (Int32.lt_iff_toInt_lt.mpr some)
      rw [max_eq_left (Int.not_lt.mp none)]
      rfl

/-- In every run of the loop, whatever `epoll_wait` returns and the clock shows: a
call is asked to wait for what remains of the time and not at all once that has
passed; the loop goes on while something is reported and ends with the first call
that reports nothing or fails. -/
theorem eventLoop_deadline
    (returned : eventLoopUntil timeout startTime polls w = (.ok looped, w')) :
    eventLoop startTime (polls.map Poll.entries) w = (.ok (), w') ∧
    (∀ call ∈ looped.calls, (call.curTime - startTime).toNat < 2 ^ 31 →
      -2 ^ 31 ≤ timeout.toInt - (call.curTime - startTime).toNat →
      (call.timeoutTime.toNat : Int) =
        max 0 (timeout.toInt - (call.curTime - startTime).toNat)) ∧
    looped.calls.map EpollCall.curTime <+: polls.map Poll.curTime ∧
    (looped.ended = true → ∃ ready last, looped.calls = ready ++ [last] ∧
      (∀ call ∈ ready, 0 < call.fdCount) ∧ last.fdCount ≤ 0) ∧
    (looped.ended = false → looped.calls.length = polls.length ∧
      ∀ call ∈ looped.calls, 0 < call.fdCount) := by
  have recorded : Wp Anyhow (eventLoopUntil timeout startTime polls)
      (fun looped _ => Recorded timeout startTime polls looped) w := by
    unfold eventLoopUntil
    rw [wp_bind, wp_get]
    exact (anyhow_keeps _ w trivial).seq fun _ w₁ _ => pollLoop_recorded polls
  obtain ⟨asked, clocks, left, stayed⟩ := recorded.ended returned
  refine ⟨?_, fun call inside near fits => ?_, clocks, left, stayed⟩
  · rw [eventLoop_eq timeout, bind_apply, returned]
    rfl
  · rw [asked call inside]
    exact timeoutTime_toNat near fits

def wakeup : Entry := .wakeup true true

/-- A thread without sockets. -/
def lonely : World where
  mgr := Mgr.initial
  scripts := []
  epollResults := []
  udpConnects := []
  seen := []

theorem eventLoop_deadline_lonely : ∃ w', eventLoopUntil 100 7 [⟨17, .ready [wakeup]⟩,
      ⟨107, .ready []⟩] lonely = (.ok ⟨[⟨17, 90, 1⟩, ⟨107, 0, 0⟩], true⟩, w') ∧
      eventLoop 7 [[wakeup], []] lonely = (.ok (), w') := by
  have returned : eventLoopUntil 100 7 [⟨17, .ready [wakeup]⟩, ⟨107, .ready []⟩] lonely =
    (.ok ⟨[⟨17, 90, 1⟩, ⟨107, 0, 0⟩], true⟩,
      (eventLoopUntil 100 7 [⟨17, .ready [wakeup]⟩, ⟨107, .ready []⟩] lonely).2) := rfl
  exact ⟨_, returned, (eventLoop_deadline returned).1⟩

/-- No failure is allowed. -/
def Never (_ : Fault) (_ : World) : Prop := False

theorem wakeup_handled (idle : w.mgr.eventQueue = []) :
    Wp Never (processBatch [wakeup]) (fun _ w' => w'.mgr.eventQueue = []) w := by
  unfold processBatch wakeup
  rw [wp_bind, wp_mark, processEntry]
  simp only [Bool.and_self, if_true]
  rw [handleDelayEvent, wp_bind, wp_bind, wp_get]
  dsimp only
  rw [idle, List.length_nil, handleDelayEventLoop, wp_bind, wp_mark, wp_bind, wp_get]
  dsimp only
  rw [idle, processBatch]
  exact idle

theorem pollLoop_wakeups (count : Nat) (idle : w.mgr.eventQueue = []) :
    Wp Never (pollLoop 0 0 (List.replicate count ⟨1, .ready [wakeup]⟩))
      (fun looped _ => looped = ⟨List.replicate count ⟨1, 0, 1⟩, false⟩) w := by
  induction count generalizing w with
  | zero => exact rfl
  | succ count inductionHypothesis =>
      have waited : epollWait [wakeup] w =
        (.ok [wakeup], w.withMgr { w.mgr with batch := [] }) := rfl
      have reported : Wp Never (epollWait [wakeup])
          (fun reported w' => reported = [wakeup] ∧ w'.mgr.eventQueue = []) w := by
        unfold Wp
        rw [waited]
        exact ⟨rfl, idle⟩
      rw [List.replicate_succ, pollLoop]
      refine reported.seq ?_
      rintro _ w₁ ⟨rfl, idle₁⟩
      refine (wakeup_handled idle₁).seq fun _ w₂ idle₂ => ?_
      refine (inductionHypothesis idle₂).seq ?_
      rintro looped w₃ rfl
      rfl

/-- A loop that should not wait at all processes any number of batches behind its deadline. -/
theorem wakeups_overrun : ∃ w, ∀ count : Nat, ∃ polls w',
    eventLoopUntil 0 0 polls w = (.ok ⟨List.replicate count ⟨1, 0, 1⟩, false⟩, w') := by
  refine ⟨lonely, fun count => ⟨List.replicate count ⟨1, .ready [wakeup]⟩, ?_⟩⟩
  have looped : Wp Never (eventLoopUntil 0 0 (List.replicate count ⟨1, .ready [wakeup]⟩))
      (fun looped _ => looped = ⟨List.replicate count ⟨1, 0, 1⟩, false⟩) lonely := by
    unfold eventLoopUntil
    rw [wp_bind, wp_get]
    exact pollLoop_wakeups count rfl
  obtain ⟨_, w', returned, rfl⟩ := looped.returns
  exact ⟨w', returned⟩

end Deadline

end CrossOver.Engine.Network
