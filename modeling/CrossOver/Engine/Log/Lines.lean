import CrossOver.Engine.Log

/-!
# What is in the log file

In every order of the calls and of the steps of the log thread, the file followed by
what is queued is all that has been logged, whole lines in the order of the mutex, as
long as the texts are short enough for `buffer_`.  The part that has been flushed
consists of whole lines as well.
-/

namespace CrossOver.Engine.Log

open CrossOver.Lib

def line (message : Bytes × Bytes) : Bytes := message.1 ++ message.2 ++ [10]

def lines (messages : List (Bytes × Bytes)) : Bytes := messages.flatMap line

theorem lines_append (first second : List (Bytes × Bytes)) :
    lines (first ++ second) = lines first ++ lines second := List.flatMap_append

/-- What the thread will make of a record. -/
def LogData.text : LogData → Bytes
  | .line data => cString data
  | .save => []

/-- No zero byte ends the string early. -/
def Plain (text : Bytes) : Prop := ∀ byte ∈ text, byte ≠ 0

def lineRecords (records : List LogData) : List Bytes :=
  records.filterMap fun
    | .line data => some data
    | .save => none

/-- The copy of a line that fits. -/
def record (message : Bytes × Bytes) : Bytes := message.1 ++ message.2 ++ [10, 0]

def Message (limit : Nat) (message : Bytes × Bytes) : Prop :=
  message.1.length = 20 ∧ Plain message.1 ∧ Plain message.2 ∧ message.2.length ≤ limit

def Call.Short (limit : Nat) : Call → Prop
  | .writing _ time text => Message limit (time, text)
  | .formatting _ time text => Message limit (time, text)
  | _ => True

/-- The calls with a text of at most `limit` bytes, without a zero byte. -/
def short {Caller : Type} (limit : Nat) (_ : State Caller) : Label Caller → Prop
  | .writeLogFile _ _ time text => Plain time ∧ Plain text ∧ text.length ≤ limit
  | _ => True

theorem cString_record {limit : Nat} {message : Bytes × Bytes} (formed : Message limit message) :
    cString (record message) = line message := by
  rcases formed with ⟨-, plainTime, plainText, -⟩
  have plain : ∀ byte ∈ line message, (byte != 0) = true := by
    intro byte membership
    rcases List.mem_append.mp membership with front | last
    · rcases List.mem_append.mp front with inTime | inText
      · simpa using plainTime byte inTime
      · simpa using plainText byte inText
    · simp [List.mem_singleton.mp last]
  have ended : record message = line message ++ [0] := by simp [record, line]
  rw [cString, ended, List.takeWhile_append_of_pos plain]
  simp

theorem cString_zero_length (front rest : Bytes) :
    (cString (front ++ 0 :: rest)).length ≤ front.length := by
  induction front with
  | nil => exact Nat.zero_le _
  | cons byte front inductionHypothesis =>
      rw [cString, List.cons_append, List.takeWhile_cons]
      split
      · exact Nat.succ_le_succ inductionHypothesis
      · exact Nat.zero_le _

theorem record_length {limit : Nat} {message : Bytes × Bytes} (formed : Message limit message) :
    (record message).length ≤ limit + 22 := by
  rcases formed with ⟨timed, -, -, bound⟩
  simp only [record, List.length_append, List.length_cons, List.length_nil, timed]
  omega

theorem line_length (message : Bytes × Bytes) :
    (line message).length ≤ (record message).length := by
  simp only [record, line, List.length_append, List.length_cons, List.length_nil]
  omega

theorem queued_text {limit : Nat} {records : List LogData} {messages : List (Bytes × Bytes)}
    (formed : ∀ message ∈ messages, Message limit message)
    (same : lineRecords records = messages.map record) :
    records.flatMap LogData.text = lines messages := by
  induction records generalizing messages with
  | nil =>
      rw [List.map_eq_nil_iff.mp same.symm]
      rfl
  | cons first rest inductionHypothesis =>
      cases first with
      | save => exact inductionHypothesis formed same
      | line data =>
          cases messages with
          | nil => cases same
          | cons message others =>
              rcases List.cons.inj same with ⟨head, tail⟩
              have front : cString data = line message := by
                rw [head]
                exact cString_record (formed message (List.mem_cons_self ..))
              rw [List.flatMap_cons, inductionHypothesis
                (fun other membership => formed other (List.mem_cons_of_mem _ membership)) tail]
              exact congrArg (· ++ lines others) front

variable {Caller : Type} [DecidableEq Caller] {limit buffSize : Nat} {logLevel : Int}

/-- `taken` lines have gone to the stream, `saved` of them have been flushed. -/
structure Journal (limit buffSize taken saved : Nat) (s : State Caller) : Prop where
  inside : s.overrun = false
  sized : s.buffer.length = buffSize
  threshold : s.writeBuffSize = 100
  calls : ∀ i, (s.call i).Short limit
  formed : ∀ message ∈ s.messages, Message limit message
  ordered : saved ≤ taken
  within : taken ≤ s.messages.length
  waiting : lineRecords s.logList = (s.messages.drop taken).map record
  written : s.fout = lines (s.messages.take taken)
  flushed : s.flushed = (lines (s.messages.take saved)).length
  near : s.fout.length ≤ s.flushed + s.buffLen
  bounded : s.buffLen ≤ max 100 (limit + 22)
  asked : s.requested ≤ s.fout.length
  answered : s.isSaveSoon = false → s.requested ≤ s.flushed
  awake : s.isSaveSoon = true → s.thread = .pop ∨ s.thread = .save

namespace Journal

variable {taken saved : Nat} {s : State Caller}

omit [DecidableEq Caller] in
theorem flushed_le (journal : Journal limit buffSize taken saved s) :
    s.flushed ≤ s.fout.length := by
  rw [journal.flushed, journal.written]
  have parts := List.take_append_drop saved (s.messages.take taken)
  rw [List.take_take, min_eq_left journal.ordered] at parts
  rw [← parts, lines_append, List.length_append]
  exact Nat.le_add_right _ _

/-- The calls of one thread change nothing that the journal is about. -/
theorem setCall (journal : Journal limit buffSize taken saved s) {i : Caller} {now : Call}
    (bound : now.Short limit) : Journal limit buffSize taken saved (s.setCall i now) :=
  { journal with
    calls := State.forall_setCall (fun _ call => call.Short limit) bound
      fun j _ => journal.calls j }

omit [DecidableEq Caller] in
theorem flush (journal : Journal limit buffSize taken saved s) :
    Journal limit buffSize taken taken s.flush :=
  { journal with
    ordered := le_refl _
    flushed := congrArg List.length journal.written
    near := Nat.le_add_right _ _
    answered := fun _ => journal.asked }

omit [DecidableEq Caller] in
theorem flushRest (journal : Journal limit buffSize taken saved s) :
    ∃ now, Journal limit buffSize taken now s.flushRest ∧
      s.flushRest.flushed = s.flushRest.fout.length := by
  by_cases rest : 0 < s.buffLen
  · rw [State.flushRest, if_pos rest]
    exact ⟨taken, journal.flush, rfl⟩
  · rw [State.flushRest, if_neg rest]
    refine ⟨saved, journal, ?_⟩
    have near := journal.near
    have bound := journal.flushed_le
    omega

omit [DecidableEq Caller] in
theorem take (journal : Journal limit buffSize taken saved s) {data : Bytes}
    {rest : List LogData} (queue : s.logList = .line data :: rest) :
    ∃ message, taken < s.messages.length ∧ s.messages[taken]? = some message ∧
      data = record message ∧ Message limit message ∧
        lineRecords rest = (s.messages.drop (taken + 1)).map record := by
  have waiting := journal.waiting
  rw [queue] at waiting
  by_cases inside : taken < s.messages.length
  · rw [List.drop_eq_getElem_cons inside] at waiting
    rcases List.cons.inj waiting with ⟨head, tail⟩
    exact ⟨_, inside, List.getElem?_eq_getElem inside, head,
      journal.formed _ (List.getElem_mem inside), tail⟩
  · rw [List.drop_eq_nil_of_le (Nat.le_of_not_lt inside)] at waiting
    cases waiting

omit [DecidableEq Caller] in
theorem put (journal : Journal limit buffSize taken saved s) (popping : s.thread = .pop)
    {message : Bytes × Bytes} {rest : List LogData}
    (queue : s.logList = .line (record message) :: rest)
    (small : s.buffLen + (record message).length ≤ max 100 (limit + 22)) :
    Journal limit buffSize (taken + 1) saved ({ s with logList := rest }.put (record message)) := by
  rcases journal.take queue with ⟨same, inside, found, copies, formed, waiting⟩
  have extended : lines (s.messages.take (taken + 1)) =
      lines (s.messages.take taken) ++ cString (record message) := by
    rw [copies, cString_record formed, List.take_add_one, found, lines_append]
    simp [lines]
  have shorter := line_length same
  rw [← cString_record formed, ← copies] at shorter
  have near := journal.near
  have asked := journal.asked
  exact { journal with
    ordered := Nat.le_succ_of_le journal.ordered
    within := inside
    waiting := waiting
    written := journal.written ▸ extended.symm
    near := by
      simp only [State.put, List.length_append]
      omega
    bounded := small
    asked := by
      simp only [State.put, List.length_append]
      omega
    awake := fun _ => .inl popping }

omit [DecidableEq Caller] in
theorem handle (journal : Journal limit buffSize taken saved s) (popping : s.thread = .pop)
    {first : LogData} {rest : List LogData} (queue : s.logList = first :: rest) :
    ∃ took now, Journal limit buffSize took now ({ s with logList := rest }.handle first) := by
  cases first with
  | save =>
      have waiting := journal.waiting
      rw [queue] at waiting
      exact ⟨taken, saved, { journal with
        waiting := waiting
        asked := le_refl _
        answered := fun unasked => absurd unasked (by simp [State.handle])
        awake := fun _ => .inl popping }⟩
  | line data =>
      rcases journal.take queue with ⟨message, -, -, rfl, formed, -⟩
      have size := record_length formed
      by_cases full : s.buffLen + (record message).length > s.writeBuffSize
      · have emptied : Journal limit buffSize taken taken { s.flush with buffLen := 0 } :=
          { journal.flush with
            near := le_refl _
            bounded := Nat.zero_le _ }
        refine ⟨taken + 1, taken, ?_⟩
        rw [State.handle, if_pos full]
        refine emptied.put popping queue ?_
        simp only
        omega
      · refine ⟨taken + 1, saved, ?_⟩
        rw [State.handle, if_neg full]
        refine journal.put popping queue ?_
        rw [journal.threshold] at full
        omega

omit [DecidableEq Caller] in
theorem turn (journal : Journal limit buffSize taken saved s) {t : State Caller}
    (ran : s.Turn t) : ∃ took now, Journal limit buffSize took now t := by
  cases ran with
  | test at' | leave at' | block at' | wake _ at' | unblock at' | exit at' =>
      exact ⟨taken, saved, { journal with
        awake := fun soon => by
          rcases journal.awake soon with popping | saving
          · exact absurd (at'.symm.trans popping) (by decide)
          · exact absurd (at'.symm.trans saving) (by decide) }⟩
  | drained => exact ⟨taken, saved, { journal with awake := fun _ => .inr rfl }⟩
  | record first rest popping queue => exact journal.handle popping queue
  | unasked at' unasked =>
      exact ⟨taken, saved, { journal with
        awake := fun soon => absurd (unasked.symm.trans soon) (by decide) }⟩
  | save =>
      rcases journal.flushRest with ⟨now, rest, whole⟩
      exact ⟨taken, now, { rest with
        answered := fun _ => whole ▸ rest.asked
        awake := fun soon => absurd soon (by simp) }⟩
  | close at' =>
      exact ⟨taken, taken, { journal.flush with
        awake := fun soon => by
          rcases journal.awake soon with popping | saving
          · exact absurd (at'.symm.trans popping) (by decide)
          · exact absurd (at'.symm.trans saving) (by decide) }⟩

omit [DecidableEq Caller] in
theorem line (journal : Journal limit buffSize taken saved s) (room : limit < buffSize - 22)
    {time text buffer : Bytes} (formed : Message limit (time, text))
    (filled : formatLine s.buffer time text = some buffer) :
    Journal limit buffSize taken saved { s with
      buffer := buffer
      logList := s.logList ++ [LogData.line (buffer.take (lineLength text))]
      messages := s.messages ++ [(time, text)] } := by
  have short : text.length < s.buffer.length - 22 := by
    rw [journal.sized]
    exact lt_of_le_of_lt formed.2.2.2 room
  rcases formatLine_short formed.1 short with ⟨same, fits, size, copied⟩
  cases Option.some.inj (filled.symm.trans fits)
  refine { journal with
    sized := size.trans journal.sized
    formed := ?_
    within := ?_
    waiting := ?_
    written := ?_
    flushed := ?_ }
  · intro message membership
    rcases List.mem_append.mp membership with old | new
    · exact journal.formed message old
    · rw [List.mem_singleton.mp new]
      exact formed
  · rw [List.length_append]
    exact Nat.le_add_right_of_le journal.within
  · rw [lineRecords, List.filterMap_append, List.drop_append_of_le_length journal.within,
      List.map_append, ← journal.waiting, copied]
    rfl
  · rw [List.take_append_of_le_length journal.within]
    exact journal.written
  · rw [List.take_append_of_le_length (le_trans journal.ordered journal.within)]
    exact journal.flushed

omit [DecidableEq Caller] in
theorem notify (journal : Journal limit buffSize taken saved s) :
    Journal limit buffSize taken saved s.notify := by
  unfold State.notify
  split
  case isTrue => exact { journal with }
  case isFalse => exact journal

theorem next (journal : Journal limit buffSize taken saved s) (room : limit < buffSize - 22)
    {label : Label Caller} {t : State Caller} (bound : short limit s label)
    (step : s.Next label t) : ∃ took now, Journal limit buffSize took now t := by
  cases step with
  | thread ran => exact journal.turn ran
  | writeLogFile idle timed =>
      refine ⟨taken, saved, ?_⟩
      exact journal.setCall ⟨timed, bound⟩
  | save =>
      refine ⟨taken, saved, ?_⟩
      refine setCall ?_ trivial
      refine { journal with waiting := ?_ }
      rw [← journal.waiting, lineRecords, List.filterMap_append]
      simp [lineRecords]
  | @lockWriting i _ _ _ _ writing =>
      have formed := journal.calls i
      rw [writing] at formed
      refine ⟨taken, saved, setCall ?_ formed⟩
      exact { journal with }
  | silent =>
      refine ⟨taken, saved, ?_⟩
      exact journal.setCall trivial
  | @overrun i level time text formatting lost =>
      have formed := journal.calls i
      rw [formatting] at formed
      have short : text.length < s.buffer.length - 22 := by
        rw [journal.sized]
        exact lt_of_le_of_lt formed.2.2.2 room
      rcases formatLine_short formed.1 short with ⟨filled, fits, -⟩
      cases fits.symm.trans lost
  | @line i level time text buffer formatting written filled =>
      have formed := journal.calls i
      rw [formatting] at formed
      refine ⟨taken, saved, ?_⟩
      exact (journal.line room formed filled).setCall trivial
  | notifyQueued =>
      refine ⟨taken, saved, ?_⟩
      exact journal.notify.setCall trivial
  | notifySaving =>
      refine ⟨taken, saved, ?_⟩
      exact journal.notify.setCall trivial
  | stopWaitExit | lockStopping | unlock | returns =>
      refine ⟨taken, saved, setCall ?_ trivial⟩
      exact { journal with }
  | poll => exact ⟨taken, saved, journal⟩
  | setLogLevel => exact ⟨taken, saved, { journal with }⟩

end Journal

/-- What the log file can be relied on for. -/
structure Faithful (limit : Nat) (s : State Caller) : Prop where
  inside : s.overrun = false
  /-- Nothing is lost, repeated or torn apart: the queue holds the rest. -/
  complete : s.fout ++ s.logList.flatMap LogData.text = lines s.messages
  /-- The flushed part ends with a line. -/
  whole : ∃ saved, s.fout.take s.flushed = lines (s.messages.take saved)
  /-- No more than this is lost from what has been written. -/
  near : s.fout.length ≤ s.flushed + max 100 (limit + 22)
  /-- A request to flush is carried out before the thread looks at its queue again. -/
  answered : s.thread ≠ .pop → s.thread ≠ .save → s.requested ≤ s.flushed

namespace Journal

variable {taken saved : Nat} {s : State Caller}

omit [DecidableEq Caller] in
theorem faithful (journal : Journal limit buffSize taken saved s) : Faithful limit s where
  inside := journal.inside
  complete := by
    have rest : ∀ message ∈ s.messages.drop taken, Message limit message :=
      fun message membership => journal.formed message (List.mem_of_mem_drop membership)
    rw [queued_text rest journal.waiting, journal.written, ← lines_append, List.take_append_drop]
  whole := by
    have parts := List.take_append_drop saved (s.messages.take taken)
    rw [List.take_take, min_eq_left journal.ordered] at parts
    refine ⟨saved, ?_⟩
    rw [journal.written, ← parts, journal.flushed, lines_append, List.take_left]
  near := by
    have near := journal.near
    have bounded := journal.bounded
    omega
  answered := by
    intro notPopping notSaving
    cases soon : s.isSaveSoon with
    | false => exact journal.answered soon
    | true =>
        rcases journal.awake soon with popping | saving
        · exact absurd popping notPopping
        · exact absurd saving notSaving

end Journal

omit [DecidableEq Caller] in
theorem journal_start : Journal limit buffSize 0 0
    (State.start logLevel buffSize : State Caller) where
  inside := rfl
  sized := List.length_replicate
  threshold := rfl
  calls := fun _ => trivial
  formed := fun _ membership => absurd membership (by simp [State.start])
  ordered := le_refl _
  within := Nat.zero_le _
  waiting := rfl
  written := rfl
  flushed := rfl
  near := le_refl _
  bounded := Nat.zero_le _
  asked := le_refl _
  answered := fun _ => le_refl _
  awake := fun soon => absurd soon (by simp [State.start])

theorem journal_of_reachable (room : limit < buffSize - 22) {s : State Caller}
    (reached : ((logger logLevel buffSize).restrict (short limit)).Reachable s) :
    ∃ taken saved, Journal limit buffSize taken saved s := by
  induction reached with
  | start initial => exact ⟨0, 0, initial ▸ journal_start⟩
  | next before step inductionHypothesis =>
      rcases inductionHypothesis with ⟨taken, saved, journal⟩
      exact journal.next room step.1 (State.Next.of_next step.2).2

/-- A text for which `vsnprintf` needs one byte more than it has. -/
theorem exists_torn (logLevel : Int) (room : 22 < buffSize) (long : ¬ limit < buffSize - 22) (caller : Caller) :
    ∃ s : State Caller, ((logger logLevel buffSize).restrict (short limit)).Reachable s ∧
      ¬ Faithful limit s := by
  let time : Bytes := List.replicate 20 1
  let text : Bytes := List.replicate (buffSize - 22) 1
  have timed : time.length = 20 := List.length_replicate
  have size : text.length = buffSize - 22 := List.length_replicate
  have nonempty : text ≠ [] := List.ne_nil_of_length_pos (by omega)
  have plain : ∀ count, Plain (List.replicate count 1) := by
    intro count byte membership
    rw [List.eq_of_mem_replicate membership]
    decide
  let sys : System (State Caller) (Label Caller) :=
    (logger logLevel buffSize).restrict (short limit)
  let first : State Caller := State.start logLevel buffSize
  let second := first.setCall caller (.writing logLevel time text)
  let third := { second with mutex := some caller }.setCall caller (.formatting logLevel time text)
  have called : sys.step first (.writeLogFile caller logLevel time text) second := by
    refine ⟨⟨plain 20, plain _, by omega⟩, ?_⟩
    simp [logger, State.next, second, first, State.start, timed]
  have locked : sys.step second (.lock caller) third := by
    refine ⟨trivial, ?_⟩
    simp [logger, State.next, second, first, third, State.start, State.setCall]
  have formatted : sys.step third (.format caller) (third.format caller logLevel time text) := by
    refine ⟨trivial, ?_⟩
    simp [logger, State.next, third, second, first, State.start, State.setCall]
  have reached : sys.Reachable first := .start rfl
  refine ⟨_, ((reached.next called).next locked).next formatted, fun faithful => ?_⟩
  have bufferSize : third.buffer.length = buffSize := List.length_replicate
  have tooLong : ¬ text.length < third.buffer.length - 22 := by omega
  have enabled : ¬ logLevel < third.logLevel := lt_irrefl logLevel
  rw [State.format, if_neg enabled, if_neg nonempty] at faithful
  have room' : 22 < third.buffer.length := bufferSize ▸ room
  rcases formatLine_long timed room' tooLong with lost | ⟨filled, torn, copied⟩
  · rw [lost] at faithful
    cases faithful.inside
  · rw [torn] at faithful
    have complete : cString (filled.take (lineLength text)) ++ [] = line (time, text) ++ [] :=
      faithful.complete
    have cut := cString_zero_length (time ++ text.take (third.buffer.length - 23)) [10, 0]
    rw [← copied, List.append_cancel_right complete] at cut
    simp only [line, List.length_append, List.length_take, List.length_singleton] at cut
    omega

theorem faithful_iff [Nonempty Caller] (room : 22 < buffSize) :
    (∀ s : State Caller, ((logger logLevel buffSize).restrict (short limit)).Reachable s →
      Faithful limit s) ↔ limit < buffSize - 22 := by
  constructor
  · intro always
    by_contra long
    rcases exists_torn logLevel room long (Classical.arbitrary Caller) with
      ⟨s, reached, torn⟩
    exact torn (always s reached)
  · intro bounded s reached
    rcases journal_of_reachable bounded reached with ⟨taken, saved, journal⟩
    exact journal.faithful

/-- With the 1024 * 1024 bytes that `main` leaves the buffer at. -/
theorem faithful_default :
    (∀ s : State Nat, ((logger 1 1048576).restrict (short 1048553)).Reachable s →
      Faithful 1048553 s) ↔ 1048553 < 1048576 - 22 :=
  faithful_iff (by decide)

end CrossOver.Engine.Log
