import Mathlib.Logic.Function.Basic
import Mathlib.Data.List.TakeWhile
import CrossOver.Lib.Memory
import CrossOver.Lib.Transition

/-!
# `CLog`

Any number of threads call the logger.  `WriteLogFile` holds the mutex of the
logger while it formats a line in `buffer_`, queues a copy of it and wakes the log
thread; `Save` queues a request to flush without the mutex; `StopWaitExit` clears
`is_running_` and then waits, with the mutex, for the log thread.  That thread
sleeps on the Linux `Event` first and empties the queue then.

Every section under a lock, every semaphore operation and every turn of a loop is
one step.  What `vsnprintf` makes of a format is part of the call, as is the time in
front of the line.  A copy of a line goes to the stream as a C string.  The stream
is what was written to it, with the length of the part that has been flushed.
-/

namespace CrossOver.Engine.Log

open CrossOver.Lib

/-- `LogData`: the line, or with `op_type` 2 the request to flush. -/
inductive LogData where
  | line (data : Bytes)
  | save
  deriving DecidableEq, Repr

inductive LogThread where
  /-- `while (is_running_)` -/
  | test
  /-- `Wait`: `is_block_ = true` under the lock -/
  | block
  /-- `Wait`: `sem_wait` -/
  | wait
  /-- `Wait`: `is_block_ = false` under the lock -/
  | unblock
  /-- `log_list_.pop(log_data)` and what is done with the record -/
  | pop
  /-- `if (is_save_soon)` -/
  | save
  /-- behind the loop: `fout.close()`, which flushes in any case -/
  | close
  /-- `is_thread_exit_ = true` -/
  | exit
  | done
  deriving DecidableEq, Repr

inductive Call where
  | idle
  /-- `WriteLogFile` in front of its guard -/
  | writing (level : Int) (time text : Bytes)
  /-- `WriteLogFile` with the mutex -/
  | formatting (level : Int) (time text : Bytes)
  /-- `WriteLogFile` in front of `WakeUp` -/
  | queued
  /-- `WriteLogFile` before it returns -/
  | notified
  /-- `Save` in front of `WakeUp` -/
  | saving
  /-- `StopWaitExit` in front of its guard -/
  | stopping
  /-- `StopWaitExit` in its loop -/
  | polling
  deriving DecidableEq, Repr

def Call.guarded : Call → Bool
  | .formatting .. => true
  | .queued => true
  | .notified => true
  | .polling => true
  | _ => false

structure State (Caller : Type) where
  logLevel : Int
  buffer : Bytes
  writeBuffSize : Nat
  isRunning : Bool
  isThreadExit : Bool
  logList : List LogData
  isBlock : Bool
  semaphore : Nat
  mutex : Option Caller
  thread : LogThread
  buffLen : Nat
  isSaveSoon : Bool
  fout : Bytes
  flushed : Nat
  call : Caller → Call
  /-- `buffer_` has been written to behind its end -/
  overrun : Bool
  /-- time and text of the lines queued so far -/
  messages : List (Bytes × Bytes)
  /-- the length of the stream when a request to flush was last taken -/
  requested : Nat

inductive Label (Caller : Type) where
  | thread
  | writeLogFile (caller : Caller) (level : Int) (time text : Bytes)
  | save (caller : Caller)
  | stopWaitExit (caller : Caller)
  | lock (caller : Caller)
  | format (caller : Caller)
  | notify (caller : Caller)
  | unlock (caller : Caller)
  | poll (caller : Caller)
  | setLogLevel (caller : Caller) (level : Int)

/-- The text is put behind the 20 bytes of the time, a newline and a zero byte behind
the length that `vsnprintf` returned; `none` when that is behind the end. -/
def formatLine (buffer time text : Bytes) : Option Bytes :=
  let room := buffer.length - 20 - 2
  let timed := memcpy buffer 0 time
  let printed := memcpy timed 20 (text.take (room - 1) ++ [0])
  if 20 + text.length + 1 < buffer.length then
    some (memcpy printed (20 + text.length) [10, 0])
  else none

/-- `data_len` -/
def lineLength (text : Bytes) : Nat := 20 + text.length + 2

/-- What `fout << data` writes. -/
def cString (data : Bytes) : Bytes := data.takeWhile fun byte => byte != 0

variable {Caller : Type} [DecidableEq Caller]

namespace State

def setCall (s : State Caller) (caller : Caller) (now : Call) : State Caller :=
  { s with call := Function.update s.call caller now }

@[simp]
theorem setCall_self (s : State Caller) (i : Caller) (now : Call) :
    (s.setCall i now).call i = now := Function.update_self ..

theorem setCall_other {i j : Caller} (different : j ≠ i) (s : State Caller) (now : Call) :
    (s.setCall i now).call j = s.call j := Function.update_of_ne different ..

theorem forall_setCall (holds : Caller → Call → Prop) {s : State Caller} {i : Caller}
    {now : Call} (changed : holds i now) (others : ∀ j, j ≠ i → holds j (s.call j)) (j : Caller) :
    holds j ((s.setCall i now).call j) :=
  (Function.forall_update_iff s.call holds).mpr ⟨changed, others⟩ j

/-- `fout << flush` -/
def flush (s : State Caller) : State Caller := { s with flushed := s.fout.length }

/-- `fout << data` with the count of it. -/
def put (s : State Caller) (data : Bytes) : State Caller :=
  { s with fout := s.fout ++ cString data, buffLen := s.buffLen + data.length }

/-- The body of the loop over the records. -/
def handle (s : State Caller) : LogData → State Caller
  | .line data =>
      (if s.buffLen + data.length > s.writeBuffSize then { s.flush with buffLen := 0 } else s).put
        data
  | .save => { s with isSaveSoon := true, requested := s.fout.length }

/-- `if (buff_len > 0) fout << flush` -/
def flushRest (s : State Caller) : State Caller := if 0 < s.buffLen then s.flush else s

omit [DecidableEq Caller] in
/-- Everything that a record leaves alone. -/
theorem handle_frame (s : State Caller) (record : LogData) :
    ∃ fout flushed buffLen isSaveSoon requested, s.handle record = { s with
      fout := fout
      flushed := flushed
      buffLen := buffLen
      isSaveSoon := isSaveSoon
      requested := requested } := by
  cases record with
  | save => exact ⟨_, _, _, _, _, rfl⟩
  | line data =>
      by_cases full : s.buffLen + data.length > s.writeBuffSize
      · rw [handle, if_pos full]
        exact ⟨_, _, _, _, _, rfl⟩
      · rw [handle, if_neg full]
        exact ⟨_, _, _, _, _, rfl⟩

omit [DecidableEq Caller] in
theorem flushRest_frame (s : State Caller) :
    ∃ flushed, s.flushRest = { s with flushed := flushed } := by
  unfold flushRest
  split
  · exact ⟨_, rfl⟩
  · exact ⟨_, rfl⟩

/-- One step of `Run`; `none` when it sleeps or has ended. -/
def run (s : State Caller) : Option (State Caller) :=
  match s.thread with
  | .test => some { s with thread := if s.isRunning then .block else .close }
  | .block => some { s with isBlock := true, thread := .wait }
  | .wait =>
      match s.semaphore with
      | 0 => none
      | value + 1 => some { s with semaphore := value, thread := .unblock }
  | .unblock => some { s with isBlock := false, thread := .pop }
  | .pop =>
      match s.logList with
      | [] => some { s with thread := .save }
      | record :: rest => some ({ s with logList := rest }.handle record)
  | .save =>
      some { (if s.isSaveSoon then { s.flushRest with isSaveSoon := false } else s) with
        thread := .test }
  | .close => some { s.flush with thread := .exit }
  | .exit => some { s with isThreadExit := true, thread := .done }
  | .done => none

/-- `Event::Notify`, under its read lock. -/
def notify (s : State Caller) : State Caller :=
  if s.isBlock then { s with semaphore := s.semaphore + 1 } else s

/-- `WriteLogFile` with the mutex, up to `WakeUp` or to its early return. -/
def format (s : State Caller) (caller : Caller) (level : Int) (time text : Bytes) :
    State Caller :=
  if level < s.logLevel then s.setCall caller .notified
  else if text = [] then s.setCall caller .notified
  else
    match formatLine s.buffer time text with
    | none => { s with overrun := true }
    | some buffer =>
        let data := buffer.take (lineLength text)
        { s with
          buffer := buffer
          logList := s.logList ++ [LogData.line data]
          messages := s.messages ++ [(time, text)] }.setCall caller .queued

/-- Nothing is said of a logger whose buffer has been overrun. -/
def next (s : State Caller) (label : Label Caller) : Option (State Caller) :=
  if s.overrun then none
  else
    match label with
    | .thread => s.run
    | .writeLogFile i level time text =>
        if s.call i = .idle ∧ time.length = 20 then
          some (s.setCall i (.writing level time text))
        else none
    | .save i =>
        if s.call i = .idle then
          some ({ s with logList := s.logList ++ [LogData.save] }.setCall i .saving)
        else none
    | .stopWaitExit i =>
        if s.call i = .idle then some ({ s with isRunning := false }.setCall i .stopping)
        else none
    | .lock i =>
        if s.mutex = none then
          match s.call i with
          | .writing level time text =>
              some ({ s with mutex := some i }.setCall i (.formatting level time text))
          | .stopping => some ({ s with mutex := some i }.setCall i .polling)
          | _ => none
        else none
    | .format i =>
        match s.call i with
        | .formatting level time text => some (s.format i level time text)
        | _ => none
    | .notify i =>
        match s.call i with
        | .queued => some (s.notify.setCall i .notified)
        | .saving => some (s.notify.setCall i .idle)
        | _ => none
    | .unlock i =>
        if s.call i = .notified then some ({ s with mutex := none }.setCall i .idle) else none
    | .poll i =>
        if s.call i = .polling then
          some (if s.isThreadExit then { s with mutex := none }.setCall i .idle else s)
        else none
    | .setLogLevel i level =>
        if s.call i = .idle ∧ s.mutex = none then some { s with logLevel := level } else none

/-- The logger after `Start`; the constructor sets `write_buff_size_` to 100. -/
def start (logLevel : Int) (buffSize : Nat) : State Caller where
  logLevel := logLevel
  buffer := List.replicate buffSize 0
  writeBuffSize := 100
  isRunning := true
  isThreadExit := false
  logList := []
  isBlock := true
  semaphore := 0
  mutex := none
  thread := .test
  buffLen := 0
  isSaveSoon := false
  fout := []
  flushed := 0
  call := fun _ => .idle
  overrun := false
  messages := []
  requested := 0

/-- What one step of the log thread can do. -/
inductive Turn (s : State Caller) : State Caller → Prop where
  | test : s.thread = .test → s.isRunning = true → Turn s { s with thread := .block }
  | leave : s.thread = .test → s.isRunning = false → Turn s { s with thread := .close }
  | block : s.thread = .block → Turn s { s with isBlock := true, thread := .wait }
  | wake (value : Nat) : s.thread = .wait → s.semaphore = value + 1 →
      Turn s { s with semaphore := value, thread := .unblock }
  | unblock : s.thread = .unblock → Turn s { s with isBlock := false, thread := .pop }
  | drained : s.thread = .pop → s.logList = [] → Turn s { s with thread := .save }
  | record (record : LogData) (rest : List LogData) : s.thread = .pop →
      s.logList = record :: rest → Turn s ({ s with logList := rest }.handle record)
  | unasked : s.thread = .save → s.isSaveSoon = false → Turn s { s with thread := .test }
  | save : s.thread = .save → s.isSaveSoon = true →
      Turn s { s.flushRest with isSaveSoon := false, thread := .test }
  | close : s.thread = .close → Turn s { s.flush with thread := .exit }
  | exit : s.thread = .exit → Turn s { s with isThreadExit := true, thread := .done }

omit [DecidableEq Caller] in
theorem Turn.of_run {s t : State Caller} (ran : s.run = some t) : Turn s t := by
  unfold run at ran
  split at ran
  case h_1 at' =>
      cases ran
      by_cases running : s.isRunning = true
      · exact (if_pos running).symm ▸ .test at' running
      · exact (if_neg running).symm ▸ .leave at' (by simpa using running)
  case h_2 at' =>
      cases ran
      exact .block at'
  case h_3 at' =>
      split at ran
      case h_1 => cases ran
      case h_2 value posted =>
          cases ran
          exact .wake value at' posted
  case h_4 at' =>
      cases ran
      exact .unblock at'
  case h_5 at' =>
      split at ran
      case h_1 queue =>
          cases ran
          exact .drained at' queue
      case h_2 record rest queue =>
          cases ran
          exact .record record rest at' queue
  case h_6 at' =>
      cases ran
      by_cases asked : s.isSaveSoon = true
      · exact (if_pos asked).symm ▸ .save at' asked
      · exact (if_neg asked).symm ▸ .unasked at' (by simpa using asked)
  case h_7 at' =>
      cases ran
      exact .close at'
  case h_8 at' =>
      cases ran
      exact .exit at'
  case h_9 => cases ran

/-- What a step of the logger can do. -/
inductive Next (s : State Caller) : Label Caller → State Caller → Prop where
  | thread {t : State Caller} : Turn s t → Next s .thread t
  | writeLogFile {i : Caller} {level : Int} {time text : Bytes} :
      s.call i = .idle → time.length = 20 →
      Next s (.writeLogFile i level time text) (s.setCall i (.writing level time text))
  | save {i : Caller} : s.call i = .idle →
      Next s (.save i) ({ s with logList := s.logList ++ [LogData.save] }.setCall i .saving)
  | stopWaitExit {i : Caller} : s.call i = .idle →
      Next s (.stopWaitExit i) ({ s with isRunning := false }.setCall i .stopping)
  | lockWriting {i : Caller} {level : Int} {time text : Bytes} :
      s.mutex = none → s.call i = .writing level time text →
      Next s (.lock i) ({ s with mutex := some i }.setCall i (.formatting level time text))
  | lockStopping {i : Caller} : s.mutex = none → s.call i = .stopping →
      Next s (.lock i) ({ s with mutex := some i }.setCall i .polling)
  | silent {i : Caller} {level : Int} {time text : Bytes} :
      s.call i = .formatting level time text → level < s.logLevel ∨ text = [] →
      Next s (.format i) (s.setCall i .notified)
  | overrun {i : Caller} {level : Int} {time text : Bytes} :
      s.call i = .formatting level time text → formatLine s.buffer time text = none →
      Next s (.format i) { s with overrun := true }
  | line {i : Caller} {level : Int} {time text buffer : Bytes} :
      s.call i = .formatting level time text → text ≠ [] →
      formatLine s.buffer time text = some buffer →
      Next s (.format i) ({ s with
        buffer := buffer
        logList := s.logList ++ [LogData.line (buffer.take (lineLength text))]
        messages := s.messages ++ [(time, text)] }.setCall i .queued)
  | notifyQueued {i : Caller} : s.call i = .queued →
      Next s (.notify i) (s.notify.setCall i .notified)
  | notifySaving {i : Caller} : s.call i = .saving →
      Next s (.notify i) (s.notify.setCall i .idle)
  | unlock {i : Caller} : s.call i = .notified →
      Next s (.unlock i) ({ s with mutex := none }.setCall i .idle)
  | returns {i : Caller} : s.call i = .polling → s.isThreadExit = true →
      Next s (.poll i) ({ s with mutex := none }.setCall i .idle)
  | poll {i : Caller} : s.call i = .polling → s.isThreadExit = false → Next s (.poll i) s
  | setLogLevel {i : Caller} {level : Int} : s.call i = .idle → s.mutex = none →
      Next s (.setLogLevel i level) { s with logLevel := level }

theorem Next.of_format {s : State Caller} {i : Caller} {level : Int} {time text : Bytes}
    (formatting : s.call i = .formatting level time text) :
    Next s (.format i) (s.format i level time text) := by
  unfold format
  split
  case isTrue below => exact .silent formatting (.inl below)
  case isFalse =>
      split
      case isTrue empty => exact .silent formatting (.inr empty)
      case isFalse written =>
          split
          case h_1 none' => exact .overrun formatting none'
          case h_2 buffer filled => exact .line formatting written filled

theorem Next.of_next {s t : State Caller} {label : Label Caller}
    (step : s.next label = some t) : s.overrun = false ∧ Next s label t := by
  unfold next at step
  by_cases overran : s.overrun = true
  · rw [if_pos overran] at step
    cases step
  · refine ⟨by simpa using overran, ?_⟩
    rw [if_neg overran] at step
    cases label with
    | thread => exact .thread (Turn.of_run step)
    | writeLogFile i level time text =>
        obtain ⟨⟨idle, timed⟩, same⟩ := Option.ite_none_right_eq_some.mp step
        cases same
        exact .writeLogFile idle timed
    | save i =>
        obtain ⟨idle, same⟩ := Option.ite_none_right_eq_some.mp step
        cases same
        exact .save idle
    | stopWaitExit i =>
        obtain ⟨idle, same⟩ := Option.ite_none_right_eq_some.mp step
        cases same
        exact .stopWaitExit idle
    | lock i =>
        obtain ⟨free, locked⟩ := Option.ite_none_right_eq_some.mp step
        split at locked
        case h_1 writing =>
            cases locked
            exact .lockWriting free writing
        case h_2 stopping =>
            cases locked
            exact .lockStopping free stopping
        case h_3 => cases locked
    | format i =>
        simp only at step
        split at step
        case h_1 formatting =>
            cases step
            exact .of_format formatting
        case h_2 => cases step
    | notify i =>
        simp only at step
        split at step
        case h_1 queued =>
            cases step
            exact .notifyQueued queued
        case h_2 saving =>
            cases step
            exact .notifySaving saving
        case h_3 => cases step
    | unlock i =>
        obtain ⟨notified, same⟩ := Option.ite_none_right_eq_some.mp step
        cases same
        exact .unlock notified
    | poll i =>
        obtain ⟨polling, same⟩ := Option.ite_none_right_eq_some.mp step
        cases same
        by_cases ended : s.isThreadExit = true
        · exact (if_pos ended).symm ▸ .returns polling ended
        · exact (if_neg ended).symm ▸ .poll polling (by simpa using ended)
    | setLogLevel i level =>
        obtain ⟨⟨idle, free⟩, same⟩ := Option.ite_none_right_eq_some.mp step
        cases same
        exact .setLogLevel idle free

end State

/-- The log thread with its callers. -/
def logger (logLevel : Int) (buffSize : Nat) : System (State Caller) (Label Caller) where
  initial s := s = State.start logLevel buffSize
  step s label t := s.next label = some t

section Lines

variable {buffer time text : Bytes}

theorem printed_length (text : Bytes) (timed : time.length = 20) (room : 22 ≤ buffer.length) :
    (memcpy (memcpy buffer 0 time) 20 (text.take (buffer.length - 20 - 2 - 1) ++ [0])).length =
      buffer.length := by
  have first : (memcpy buffer 0 time).length = buffer.length := memcpy_length (by omega)
  have second : 20 + (text.take (buffer.length - 20 - 2 - 1) ++ [0]).length ≤
      (memcpy buffer 0 time).length := by
    rw [first, List.length_append, List.length_take, List.length_singleton]
    omega
  exact (memcpy_length second).trans first

/-- A line that leaves room for the newline and the zero byte stands in the buffer as a whole. -/
theorem formatLine_short (timed : time.length = 20) (short : text.length < buffer.length - 22) :
    ∃ filled, formatLine buffer time text = some filled ∧ filled.length = buffer.length ∧
      filled.take (lineLength text) = time ++ text ++ [10, 0] := by
  have inside : 20 + text.length + 1 < buffer.length := by omega
  have whole : text.take (buffer.length - 20 - 2 - 1) = text := List.take_of_length_le (by omega)
  have printed := printed_length text timed (show 22 ≤ buffer.length by omega)
  refine ⟨_, if_pos inside, ?_, ?_⟩
  · refine (memcpy_length ?_).trans printed
    rw [printed, List.length_cons, List.length_singleton]
    omega
  · have fits : 20 + text.length + [10, 0].length ≤ (memcpy (memcpy buffer 0 time) 20
        (text.take (buffer.length - 20 - 2 - 1) ++ [0])).length := by
      rw [printed, List.length_cons, List.length_singleton]
      omega
    refine (memcpy_take fits).trans (congrArg (· ++ [10, 0]) ?_)
    have touching := memcpy_memcpy buffer time (text ++ [0])
    rw [timed] at touching
    rw [whole, touching, memcpy, List.take_zero, List.nil_append, ← List.append_assoc,
      List.append_assoc, List.append_assoc, ← List.append_assoc]
    exact List.take_left' (by rw [List.length_append, timed])

/-- A longer text is overwritten by the newline or the zero byte of `vsnprintf`, or it
runs over the end. -/
theorem formatLine_long (timed : time.length = 20) (room : 22 < buffer.length)
    (long : ¬ text.length < buffer.length - 22) :
    formatLine buffer time text = none ∨
      ∃ filled, formatLine buffer time text = some filled ∧
        filled.take (lineLength text) = time ++ text.take (buffer.length - 23) ++ [0, 10, 0] := by
  by_cases inside : 20 + text.length + 1 < buffer.length
  · have cut : buffer.length - 20 - 2 - 1 = buffer.length - 23 := by omega
    have printed := printed_length text timed (show 22 ≤ buffer.length by omega)
    refine .inr ⟨_, if_pos inside, ?_⟩
    have fits : 20 + text.length + ([10, 0] : Bytes).length ≤ (memcpy (memcpy buffer 0 time) 20
        (text.take (buffer.length - 20 - 2 - 1) ++ [0])).length := by
      rw [printed, List.length_cons, List.length_singleton]
      omega
    have filledTo : 20 + text.length = (time ++ (text.take (buffer.length - 23) ++ [0])).length := by
      rw [List.length_append, List.length_append, List.length_take, timed, List.length_singleton]
      omega
    refine (memcpy_take fits).trans ?_
    have touching := memcpy_memcpy buffer time (text.take (buffer.length - 23) ++ [0])
    rw [timed] at touching
    rw [cut, touching, memcpy, List.take_zero, List.nil_append, filledTo, List.take_left,
      List.append_assoc, List.append_assoc, List.append_assoc]
    rfl
  · exact .inl (if_neg inside)

end Lines

end CrossOver.Engine.Log
