import CrossOver.Engine.Network.Accounting

/-!
# The write path

What sending depends on, as a machine of its own: the write buffer, the write
lock, the epoll interest, whether a `DELAY_SEND` event is queued, and the bytes
that went in and out.  The steps of a socket's life that keep to the discipline
of the callers are steps of this machine.
-/

namespace CrossOver.Engine.Network

open CrossOver.Lib

structure Channel where
  writeBuffer : SequenceBuffer
  writeLock : Int
  status : SocketStatus
  interest : Option Interest
  /-- a `DELAY_SEND` event is queued -/
  waiting : Bool
  /-- the bytes accepted by `send()` -/
  sent : Bytes
  /-- the frames written to the buffer -/
  queued : Bytes

namespace Channel

def fill (c : Channel) : Channel := { c with writeBuffer := c.writeBuffer.fillVector.2 }

def push (c : Channel) : Channel :=
  if c.writeLock = 0 then
    { c with
      writeLock := c.writeLock + 1, interest := some { epollIn := false, epollOut := true } }
  else c

def fillAndPush (c : Channel) : Channel :=
  if c.fill.writeBuffer.getSize = 0 then c.fill else c.fill.push

inductive Step (c : Channel) : Channel → Prop where
  | send {frame : Bytes} {after : SequenceBuffer} : c.status = .connected →
      frame.length ≤ after.totalSize → Writes c.writeBuffer frame after →
      Step c { c with writeBuffer := after, waiting := true, queued := c.queued ++ frame }
  | fill : Step c c.fill
  | push {waiting : Bool} : c.status = .connected →
      Step c { c.fillAndPush with waiting := waiting }
  | ignore {waiting : Bool} : c.status ≠ .connected → Step c { c with waiting := waiting }
  | close : c.status = .connected → Step c { c with status := .closing }.push
  | write {bytes : Nat} : c.writeLock ≠ 0 →
      bytes ≤ transferLimit (Socket.sendLen c.writeBuffer) →
      Step c
        { c with
          writeBuffer := c.writeBuffer.remove bytes
          sent := c.sent ++ c.writeBuffer.buffer.take bytes }
  | unlock : c.status = .connected → c.writeLock ≠ 0 → c.writeBuffer.getSize = 0 →
      Step c
        { c with
          writeLock := c.writeLock - 1
          interest := some { epollIn := true, epollOut := false } }
  | rearm : c.status = .connected →
      Step c { c with interest := some { epollIn := true, epollOut := true } }
  | establish : c.status = .connecting →
      Step c
        { c with
          status := .connected, interest := some { epollIn := true, epollOut := false } }
  | shut (interest : Option Interest) : Step c { c with status := .closed, interest := interest }

/-- Nothing is lost, doubled or reordered, and what is pending will be sent. -/
structure Flow (c : Channel) : Prop where
  buffer : c.writeBuffer.WellFormed
  fitting : c.writeBuffer.Fitting
  sized : c.writeBuffer.totalSize < 2 ^ 32
  bytes : c.sent ++ c.writeBuffer.content = c.queued
  lock : c.writeLock = 0 ∨ c.writeLock = 1
  fresh : c.status = .connecting → c.writeLock = 0 ∧ c.writeBuffer.content = []
  closing : c.status = .closing → c.writeLock = 1
  armed : c.status = .connected ∨ c.status = .closing → c.writeLock = 1 →
    ∃ interest, c.interest = some interest ∧ interest.epollOut = true
  awake : c.status = .connected ∨ c.status = .closing → c.writeBuffer.content ≠ [] →
    c.writeLock = 1 ∨ c.waiting = true

section Steps

variable {c c' : Channel}

@[simp]
theorem push_writeBuffer : c.push.writeBuffer = c.writeBuffer := by
  unfold push
  split <;> rfl

@[simp]
theorem push_status : c.push.status = c.status := by
  unfold push
  split <;> rfl

theorem fillAndPush_writeBuffer :
    c.fillAndPush.writeBuffer = c.writeBuffer.fillVector.2 := by
  unfold fillAndPush
  split
  · rfl
  · exact push_writeBuffer

theorem writes_totalSize {writeBuffer after : SequenceBuffer} {frame : Bytes}
    (writes : Writes writeBuffer frame after) : after.totalSize = writeBuffer.totalSize := by
  rcases writes with rfl | ⟨head, body, rfl, rfl⟩
  · exact SequenceBuffer.write_totalSize
  · exact SequenceBuffer.writeMsg_totalSize

theorem writes_content {writeBuffer after : SequenceBuffer} {frame : Bytes}
    (writes : Writes writeBuffer frame after) (sound : writeBuffer.Sound)
    (short : frame.length < 2 ^ 32) :
    after.WellFormed ∧ after.content = writeBuffer.content ++ frame := by
  rcases writes with rfl | ⟨head, body, rfl, rfl⟩
  · have written := SequenceBuffer.write_spec sound short
    exact ⟨written.2.1, written.2.2.1⟩
  · have written := SequenceBuffer.writeMsg_spec sound (by simpa using short)
    exact ⟨written.2.1, written.2.2.1⟩

theorem writes_fitting {writeBuffer after : SequenceBuffer} {frame : Bytes}
    (writes : Writes writeBuffer frame after) (fitting : writeBuffer.Fitting)
    (fits : frame.length ≤ writeBuffer.totalSize) : after.Fitting := by
  rcases writes with rfl | ⟨head, body, rfl, rfl⟩
  · exact fitting.write fits
  · exact fitting.writeMsg fits

theorem Step.totalSize (step : Step c c') :
    c'.writeBuffer.totalSize = c.writeBuffer.totalSize := by
  cases step with
  | send _ _ writes => exact writes_totalSize writes
  | fill => exact SequenceBuffer.fillVector_totalSize _
  | push =>
      change c.fillAndPush.writeBuffer.totalSize = _
      rw [fillAndPush_writeBuffer, SequenceBuffer.fillVector_totalSize]
  | ignore => rfl
  | close => rw [push_writeBuffer]
  | write => exact SequenceBuffer.remove_totalSize _
  | unlock => rfl
  | rearm => rfl
  | establish => rfl
  | shut => rfl

/-- One `send` is never offered more than the array holds. -/
theorem transferLimit_le {writeBuffer : SequenceBuffer} (short : writeBuffer.len < 2 ^ 32) :
    transferLimit (Socket.sendLen writeBuffer) ≤ writeBuffer.len := by
  unfold transferLimit Socket.sendLen SequenceBuffer.getSize intOf
  rw [Int.bmod_def]
  dsimp only
  split <;> split <;> omega

theorem Flow.fill (flow : c.Flow) : c.fill.Flow where
  buffer := SequenceBuffer.fillVector_wellFormed flow.buffer.toSound
  fitting := flow.fitting.fillVector
  sized := by
    have same : c.fill.writeBuffer.totalSize = c.writeBuffer.totalSize :=
      SequenceBuffer.fillVector_totalSize _
    rw [same]
    exact flow.sized
  bytes := by
    simp only [Channel.fill, SequenceBuffer.fillVector_content flow.buffer.toSound]
    exact flow.bytes
  lock := flow.lock
  fresh := by
    simp only [Channel.fill, SequenceBuffer.fillVector_content flow.buffer.toSound]
    exact flow.fresh
  closing := flow.closing
  armed := flow.armed
  awake := by
    simp only [Channel.fill, SequenceBuffer.fillVector_content flow.buffer.toSound]
    exact flow.awake

/-- A socket that holds its lock and waits for `EPOLLOUT`. -/
theorem Flow.locked (flow : c.Flow) (writeBuffer : c'.writeBuffer = c.writeBuffer)
    (sent : c'.sent = c.sent) (queued : c'.queued = c.queued)
    (isOpen : c'.status = .connected ∨ c'.status = .closing) (locked : c'.writeLock = 1)
    (interested : ∃ interest, c'.interest = some interest ∧ interest.epollOut = true) :
    c'.Flow where
  buffer := writeBuffer ▸ flow.buffer
  fitting := writeBuffer ▸ flow.fitting
  sized := writeBuffer ▸ flow.sized
  bytes := by
    rw [sent, queued, writeBuffer]
    exact flow.bytes
  lock := Or.inr locked
  fresh := by
    intro connecting
    rw [connecting] at isOpen
    rcases isOpen with impossible | impossible <;> cases impossible
  closing := fun _ => locked
  armed := fun _ _ => interested
  awake := fun _ _ => Or.inl locked

/-- `BurstPush` takes the lock, and whoever has it waits for `EPOLLOUT`. -/
theorem push_spec (lock : c.writeLock = 0 ∨ c.writeLock = 1)
    (armed : c.writeLock = 1 →
      ∃ interest, c.interest = some interest ∧ interest.epollOut = true) :
    c.push.writeLock = 1 ∧
      (∃ interest, c.push.interest = some interest ∧ interest.epollOut = true) ∧
      c.push.sent = c.sent ∧ c.push.queued = c.queued := by
  unfold Channel.push
  split
  · next free => exact ⟨by simp [free], ⟨_, rfl, rfl⟩, rfl, rfl⟩
  · next busy =>
      have locked := lock.resolve_left busy
      exact ⟨locked, armed locked, rfl, rfl⟩

theorem Flow.pushed (flow : c.Flow) (connected : c.status = .connected)
    (filled : c.fill.writeBuffer.getSize ≠ 0) :
    c.fillAndPush.Flow ∧ c.fillAndPush.writeLock = 1 := by
  obtain ⟨locked, interested, sent, queued⟩ :=
    push_spec flow.fill.lock (flow.fill.armed (Or.inl connected))
  rw [fillAndPush, if_neg filled]
  refine ⟨?_, locked⟩
  exact flow.fill.locked push_writeBuffer sent queued (Or.inl (push_status.trans connected))
    locked interested

theorem Flow.step (flow : c.Flow) (step : Step c c') : c'.Flow := by
  have sound := flow.buffer.toSound
  cases step with
  | send connected fits writes =>
      rw [writes_totalSize writes] at fits
      obtain ⟨wellFormed, content⟩ := writes_content writes sound (fits.trans_lt flow.sized)
      have fitting := writes_fitting writes flow.fitting fits
      refine ⟨wellFormed, fitting, ?_, ?_, flow.lock, ?_, flow.closing, flow.armed,
        fun _ _ => Or.inr rfl⟩
      · rw [writes_totalSize writes]
        exact flow.sized
      · simp only
        rw [content, ← List.append_assoc, flow.bytes]
      · intro connecting
        simp [connected] at connecting
  | fill => exact flow.fill
  | push connected =>
      by_cases empty : c.fill.writeBuffer.getSize = 0
      · have filled := flow.fill
        have nothing := SequenceBuffer.content_eq_nil filled.buffer filled.fitting empty
        rw [fillAndPush, if_pos empty]
        exact ⟨filled.buffer, filled.fitting, filled.sized, filled.bytes, filled.lock,
          filled.fresh, filled.closing, filled.armed, fun _ some => absurd nothing some⟩
      · obtain ⟨pushed, locked⟩ := flow.pushed connected empty
        exact ⟨pushed.buffer, pushed.fitting, pushed.sized, pushed.bytes, pushed.lock,
          pushed.fresh, pushed.closing, pushed.armed, fun _ _ => Or.inl locked⟩
  | ignore unconnected =>
      refine ⟨flow.buffer, flow.fitting, flow.sized, flow.bytes, flow.lock, flow.fresh,
        flow.closing, flow.armed, ?_⟩
      intro isOpen _
      exact Or.inl (flow.closing (isOpen.resolve_left unconnected))
  | close connected =>
      obtain ⟨locked, interested, sent, queued⟩ :=
        push_spec (c := { c with status := .closing }) flow.lock (flow.armed (Or.inl connected))
      exact flow.locked push_writeBuffer sent queued (Or.inr push_status) locked interested
  | write locked few =>
      have inside : _ ≤ c.writeBuffer.len :=
        few.trans (transferLimit_le (flow.buffer.fits.trans_lt flow.sized))
      obtain ⟨wellFormed, content, total⟩ := SequenceBuffer.remove_inside sound inside
      have held := flow.lock.resolve_left locked
      refine ⟨wellFormed, flow.fitting.remove _, total ▸ flow.sized, ?_, flow.lock, ?_,
        flow.closing, flow.armed, fun _ _ => Or.inl held⟩
      · simp only
        rw [content, SequenceBuffer.take_buffer sound inside, List.append_assoc,
          List.take_append_drop, flow.bytes]
      · intro connecting
        exact absurd (flow.fresh connecting).1 locked
  | unlock connected locked empty =>
      have nothing := SequenceBuffer.content_eq_nil flow.buffer flow.fitting empty
      have held := flow.lock.resolve_left locked
      have free : c.writeLock - 1 = 0 := by omega
      refine ⟨flow.buffer, flow.fitting, flow.sized, flow.bytes, Or.inl free, ?_, ?_, ?_,
        fun _ some => absurd nothing some⟩
      · intro connecting
        simp [connected] at connecting
      · intro closing
        simp [connected] at closing
      · intro _ still
        simp only [free] at still
        cases still
  | rearm connected =>
      exact ⟨flow.buffer, flow.fitting, flow.sized, flow.bytes, flow.lock, flow.fresh,
        flow.closing, fun _ _ => ⟨_, rfl, rfl⟩, flow.awake⟩
  | establish connecting =>
      obtain ⟨free, nothing⟩ := flow.fresh connecting
      refine ⟨flow.buffer, flow.fitting, flow.sized, flow.bytes, flow.lock, ?_, ?_, ?_,
        fun _ some => absurd nothing some⟩
      · simp
      · simp
      · intro _ locked
        simp [free] at locked
  | shut =>
      refine ⟨flow.buffer, flow.fitting, flow.sized, flow.bytes, flow.lock, ?_, ?_, ?_, ?_⟩ <;> simp

theorem push_waiting (waiting : Bool) :
    { c with waiting := waiting }.push = { c.push with waiting := waiting } := by
  unfold push
  split <;> rfl

theorem fillAndPush_waiting (waiting : Bool) :
    { c with waiting := waiting }.fillAndPush = { c.fillAndPush with waiting := waiting } := by
  by_cases empty : c.fill.writeBuffer.getSize = 0
  · rw [fillAndPush, fillAndPush, if_pos empty, if_pos (by exact empty)]
    rfl
  · rw [fillAndPush, fillAndPush, if_neg empty, if_neg (by exact empty)]
    exact push_waiting (c := c.fill) waiting

end Steps

end Channel

/-! ## A socket's channel -/

def LogEntry.sentBytes : LogEntry → Bytes
  | .sent _ data => data
  | _ => []

def LogEntry.queuedBytes : LogEntry → Bytes
  | .queued _ _ frame => frame
  | _ => []

def View.channel (v : View) (sock : Socket) : Channel where
  writeBuffer := sock.writeBuffer
  writeLock := sock.writeLock
  status := sock.status
  interest := v.interest
  waiting := v.events.contains .delaySend
  sent := v.log.flatMap LogEntry.sentBytes
  queued := v.log.flatMap LogEntry.queuedBytes

/-- A frame is written while connected and fits the buffer, and `epoll_ctl` succeeds. -/
def LogEntry.Proper (size : Nat) : LogEntry → Prop
  | .queued _ status frame => status = .connected ∧ frame.length ≤ size
  | .epollError _ => False
  | _ => True

instance (size : Nat) (entry : LogEntry) : Decidable (entry.Proper size) := by
  cases entry <;> unfold LogEntry.Proper <;> infer_instance

def Disciplined (size : Nat) (log : List LogEntry) : Prop := ∀ entry ∈ log, entry.Proper size

instance (size : Nat) (log : List LogEntry) : Decidable (Disciplined size log) :=
  inferInstanceAs (Decidable (∀ entry ∈ log, entry.Proper size))

theorem Disciplined.earlier {size : Nat} {log log' : List LogEntry}
    (disciplined : Disciplined size log') (earlier : log <+: log') : Disciplined size log :=
  fun entry membership => disciplined entry (earlier.subset membership)

theorem Disciplined.epoll {size : Nat} {log : List LogEntry} (disciplined : Disciplined size log)
    (s : SockRef) : .epollError s ∉ log := fun membership => disciplined _ membership

section Refinement

variable {s : SockRef} {v v' : View} {sock sock' : Socket}

/-- A log entry that moves no bytes. -/
theorem View.note_channel (v : View) (sock : Socket) {entry : LogEntry}
    (sent : entry.sentBytes = []) (queued : entry.queuedBytes = []) :
    (v.note entry).channel sock = v.channel sock := by
  simp [View.channel, View.note, sent, queued]

theorem View.release_channel (present : (v.release sock).sock = some sock') :
    (v.release sock).channel sock' = v.channel sock := by
  unfold View.release at present
  dsimp only at present
  split at present
  · cases present
  · obtain rfl := Option.some.inj present
    rfl

theorem Posts.log {events : Interest} (posts : Posts s events v v') : v.log <+: v'.log := by
  cases posts with
  | accepted => exact List.prefix_refl _
  | refused => exact List.prefix_append _ _

theorem Pushes.log (pushes : Pushes s v v') : v.log <+: v'.log := by
  cases pushes with
  | busy => exact List.prefix_refl _
  | idle _ _ posts => exact posts.log

theorem FillsAndPushes.log (fills : FillsAndPushes s v v') : v.log <+: v'.log := by
  cases fills with
  | empty => exact List.prefix_refl _
  | filled _ _ pushes => exact pushes.log

theorem DelaySends.log (sends : DelaySends s v v') : v.log <+: v'.log := by
  cases sends with
  | ignored => exact List.prefix_refl _
  | done _ _ fills => exact fills.log

theorem Closes.log (closes : Closes s v v') : v.log <+: v'.log := by
  cases closes with
  | ignored => exact List.prefix_refl _
  | done _ _ pushes => exact pushes.log

theorem Removes.log (removes : Removes s v v') : v.log <+: v'.log := by
  cases removes with
  | clean => exact List.prefix_refl _
  | noisy => exact List.prefix_append _ _

theorem Lives.log (step : Lives s v v') : v.log <+: v'.log := by
  cases step with
  | born | bornUnregistered | stillborn => exact List.nil_prefix
  | send | refuse | shut | receive | remark | write => exact List.prefix_append _ _
  | disconnect | report | take | store | fill | release => exact List.prefix_refl _
  | establish _ _ _ posts => exact posts.log.trans (List.prefix_append _ _)
  | abandon _ _ _ _ removes => exact removes.log
  | leave _ _ _ removes => exact removes.log
  | push _ _ fills => exact fills.log
  | unlock _ _ _ _ posts => exact posts.log
  | rearm _ _ posts => exact posts.log
  | delaySend _ sends => exact sends.log
  | close _ closes => exact closes.log

theorem Posts.channel {events : Interest} (posts : Posts s events v v')
    (clean : .epollError s ∉ v'.log) : v' = { v with interest := some events } := by
  cases posts with
  | accepted => rfl
  | refused => exact absurd (by simp [View.note]) clean

theorem Pushes.channel (pushes : Pushes s v v') (present : v.sock = some sock)
    (clean : .epollError s ∉ v'.log) (after : v'.sock = some sock') :
    v'.channel sock' = (v.channel sock).push := by
  cases pushes with
  | busy same locked =>
      obtain rfl := Option.some.inj (same.symm.trans present)
      obtain rfl := Option.some.inj (after.symm.trans present)
      rw [Channel.push, if_neg (by exact locked)]
  | idle same free posts =>
      obtain rfl := Option.some.inj (same.symm.trans present)
      obtain rfl := posts.channel clean
      obtain rfl := Option.some.inj after
      rw [Channel.push, if_pos (by exact free)]
      rfl

theorem FillsAndPushes.channel (fills : FillsAndPushes s v v') (present : v.sock = some sock)
    (clean : .epollError s ∉ v'.log) (after : v'.sock = some sock') :
    v'.channel sock' = (v.channel sock).fillAndPush := by
  cases fills with
  | empty same nothing =>
      obtain rfl := Option.some.inj (same.symm.trans present)
      obtain rfl := Option.some.inj after
      rw [Channel.fillAndPush, if_pos (by exact nothing)]
      rfl
  | filled same some pushes =>
      obtain rfl := Option.some.inj (same.symm.trans present)
      rw [Channel.fillAndPush, if_neg (by exact some)]
      exact pushes.channel rfl clean after

theorem DelaySends.channel (sends : DelaySends s v v') (clean : .epollError s ∉ v'.log)
    (after : v'.sock = some sock') :
    ∃ sock, v.sock = some sock ∧
      (sock.status ≠ .connected ∧ v'.channel sock' = v.channel sock ∨
        sock.status = .connected ∧ v'.channel sock' = (v.channel sock).fillAndPush) := by
  cases sends with
  | ignored present unconnected =>
      obtain rfl := Option.some.inj (present.symm.trans after)
      exact ⟨_, present, Or.inl ⟨unconnected, rfl⟩⟩
  | done present connected fills =>
      exact ⟨_, present, Or.inr ⟨connected, fills.channel present clean after⟩⟩

theorem Closes.channel (closes : Closes s v v') (clean : .epollError s ∉ v'.log)
    (after : v'.sock = some sock') :
    ∃ sock, v.sock = some sock ∧
      (v'.channel sock' = v.channel sock ∨ sock.status = .connected ∧
        v'.channel sock' = { v.channel sock with status := .closing }.push) := by
  cases closes with
  | ignored present =>
      obtain rfl := Option.some.inj (present.symm.trans after)
      exact ⟨_, present, Or.inl rfl⟩
  | done present connected pushes =>
      exact ⟨_, present, Or.inr ⟨connected, pushes.channel rfl clean after⟩⟩

theorem Removes.channel (removes : Removes s v v') (present : v.sock = some sock)
    (clean : .epollError s ∉ v'.log) (after : v'.sock = some sock') :
    v'.channel sock' = { v.channel sock with interest := none } := by
  cases removes with
  | clean same =>
      obtain rfl := Option.some.inj (same.symm.trans present)
      rw [View.release_channel after]
      rfl
  | noisy => exact absurd (by simp [View.release, View.note]) clean

theorem Newborn.flow {greeting : List LogEntry} {interest : Option Interest}
    (newborn : Newborn s sock greeting) :
    ({ View.blank with
      sock := some sock, names := [sock.connIdx], interest := interest,
      log := greeting }.channel sock).Flow := by
  obtain ⟨_, free, _, ⟨size, buffer⟩, kind⟩ := newborn
  have silent : greeting.flatMap LogEntry.sentBytes = [] ∧
      greeting.flatMap LogEntry.queuedBytes = [] := by
    rcases kind with ⟨_, rfl⟩ | ⟨_, rfl⟩ <;> exact ⟨rfl, rfl⟩
  refine ⟨?_, ?_, ?_, ?_, Or.inl free, ?_, ?_, ?_, ?_⟩
  · simpa [View.channel, buffer] using SequenceBuffer.allocate_wellFormed size.toNat
  · simp [View.channel, buffer, SequenceBuffer.Fitting, SequenceBuffer.allocate]
  · simpa [View.channel, buffer, SequenceBuffer.allocate] using size.toNat_lt
  · simp [View.channel, buffer, silent.1, silent.2]
  · simp [View.channel, buffer, free]
  · intro closing
    rcases kind with ⟨status, _⟩ | ⟨status, _⟩ <;> simp [View.channel, status] at closing
  · intro _ locked
    simp [View.channel, free] at locked
  · intro _ some
    simp [View.channel, buffer] at some

/-- A disciplined step of a life is a step of the channel, or does not concern it. -/
theorem Lives.channel (step : Lives s v v') (after : v'.sock = some sock')
    (disciplined : Disciplined sock'.writeBuffer.totalSize v'.log) :
    (v'.channel sock').Flow ∨ ∃ sock, v.sock = some sock ∧
      (v'.channel sock' = v.channel sock ∨ Channel.Step (v.channel sock) (v'.channel sock')) := by
  cases step with
  | born newborn =>
      obtain rfl := Option.some.inj after
      exact Or.inl newborn.flow
  | bornUnregistered => exact absurd (by simp) (disciplined.epoll s)
  | stillborn => cases after
  | @send _ sock frame written present _ writes =>
      obtain rfl := Option.some.inj after
      obtain ⟨connected, fits⟩ := disciplined (.queued s sock.status frame) (by simp)
      refine Or.inr ⟨sock, present, Or.inr ?_⟩
      have moved := Channel.Step.send (c := v.channel sock) connected fits writes
      simpa [View.channel, LogEntry.sentBytes, LogEntry.queuedBytes] using moved
  | @disconnect _ sock present =>
      obtain rfl := Option.some.inj after
      refine Or.inr ⟨sock, present, Or.inl ?_⟩
      simp [View.channel]
  | report => exact Or.inr ⟨sock', after, Or.inl rfl⟩
  | take present =>
      obtain rfl := Option.some.inj after
      exact Or.inr ⟨_, present, Or.inl rfl⟩
  | establish present connecting _ posts =>
      have clean := (disciplined.earlier (List.prefix_append _ _)).epoll s
      obtain rfl := posts.channel clean
      obtain rfl := Option.some.inj after
      refine Or.inr ⟨_, present, Or.inr ?_⟩
      rw [View.note_channel _ _ rfl rfl]
      exact .establish connecting
  | refuse => exact Or.inr ⟨sock', after, Or.inl (View.note_channel _ _ rfl rfl)⟩
  | abandon present _ _ _ removes =>
      refine Or.inr ⟨_, present, Or.inr ?_⟩
      rw [removes.channel rfl (disciplined.epoll s) after]
      exact .shut none
  | @shut _ sock present =>
      obtain rfl := Option.some.inj after
      refine Or.inr ⟨sock, present, Or.inr ?_⟩
      rw [View.note_channel _ _ rfl rfl]
      exact .shut v.interest
  | @leave _ _ sock present closed _ removes =>
      refine Or.inr ⟨sock, present, Or.inr ?_⟩
      have same : { v.channel sock with interest := none } =
          { v.channel sock with status := .closed, interest := none } := by
        rw [← closed]
        rfl
      rw [removes.channel present (disciplined.epoll s) after, same]
      exact .shut none
  | receive => exact Or.inr ⟨sock', after, Or.inl (View.note_channel _ _ rfl rfl)⟩
  | store present =>
      obtain rfl := Option.some.inj after
      exact Or.inr ⟨_, present, Or.inl rfl⟩
  | remark kind =>
      rcases kind with rfl | rfl
      · exact Or.inr ⟨sock', after, Or.inl (View.note_channel _ _ rfl rfl)⟩
      · exact Or.inr ⟨sock', after, Or.inl (View.note_channel _ _ rfl rfl)⟩
  | fill present =>
      obtain rfl := Option.some.inj after
      exact Or.inr ⟨_, present, Or.inr .fill⟩
  | push present connected fills =>
      refine Or.inr ⟨_, present, Or.inr ?_⟩
      rw [fills.channel present (disciplined.epoll s) after]
      exact .push connected
  | write present locked few =>
      obtain rfl := Option.some.inj after
      refine Or.inr ⟨_, present, Or.inr ?_⟩
      have moved := Channel.Step.write (c := v.channel _) locked few
      simpa [View.channel, View.note, View.setSock, LogEntry.sentBytes, LogEntry.queuedBytes]
        using moved
  | unlock present connected locked empty posts =>
      obtain rfl := posts.channel (disciplined.epoll s)
      obtain rfl := Option.some.inj after
      exact Or.inr ⟨_, present, Or.inr (.unlock connected locked empty)⟩
  | rearm present connected posts =>
      obtain rfl := posts.channel (disciplined.epoll s)
      obtain rfl := Option.some.inj (present.symm.trans after)
      exact Or.inr ⟨_, present, Or.inr (.rearm connected)⟩
  | @delaySend _ between last rest queue sends still =>
      have popped : ∀ sock, ({ v with events := rest, held := v.held + 1 } : View).channel sock =
          { v.channel sock with waiting := rest.contains .delaySend } := fun _ => rfl
      obtain ⟨sock, present, ⟨unconnected, same⟩ | ⟨connected, filled⟩⟩ :=
        sends.channel (disciplined.epoll s) still
      · refine Or.inr ⟨sock, present, Or.inr ?_⟩
        rw [View.release_channel after]
        exact same ▸ .ignore unconnected
      · refine Or.inr ⟨sock, present, Or.inr ?_⟩
        rw [popped, Channel.fillAndPush_waiting] at filled
        rw [View.release_channel after]
        exact filled ▸ .push connected
  | @close _ between last rest queue closes still =>
      have same : ∀ sock, ({ v with events := rest, held := v.held + 1 } : View).channel sock =
          v.channel sock := by
        simp [View.channel, queue]
      obtain ⟨sock, present, ignored | ⟨connected, pushed⟩⟩ :=
        closes.channel (disciplined.epoll s) still
      · rw [same] at ignored
        refine Or.inr ⟨sock, present, Or.inl ?_⟩
        rw [View.release_channel after]
        exact ignored
      · rw [same] at pushed
        refine Or.inr ⟨sock, present, Or.inr ?_⟩
        rw [View.release_channel after]
        exact pushed ▸ .close connected
  | release present =>
      refine Or.inr ⟨_, present, Or.inl ?_⟩
      rw [View.release_channel after]
      rfl

/-- A socket whose callers keep to the discipline neither loses nor strands bytes. -/
theorem Lived.flow (lived : Lived s v) (present : v.sock = some sock)
    (disciplined : Disciplined sock.writeBuffer.totalSize v.log) : (v.channel sock).Flow := by
  induction lived generalizing sock with
  | refl => cases present
  | tail _ step inductionHypothesis =>
      rcases step.channel present disciplined with flow | ⟨earlier, before, moved⟩
      · exact flow
      · have same : sock.writeBuffer.totalSize = earlier.writeBuffer.totalSize := by
          rcases moved with unmoved | stepped
          · exact congrArg (fun c => c.writeBuffer.totalSize) unmoved
          · exact stepped.totalSize
        rw [same] at disciplined
        have flow := inductionHypothesis before (disciplined.earlier step.log)
        rcases moved with unmoved | stepped
        · rwa [unmoved]
        · exact flow.step stepped

end Refinement

/-! ## Runs -/

namespace Mgr

/-- The bytes of `s` that `send()` has accepted. -/
def sentBytes (m : Mgr) (s : SockRef) : Bytes := (m.logOf s).flatMap LogEntry.sentBytes

/-- The frames that have been sent through `s`. -/
def queuedBytes (m : Mgr) (s : SockRef) : Bytes := (m.logOf s).flatMap LogEntry.queuedBytes

end Mgr

theorem writePath_flow {m point : Mgr} (reached : tcpSystem.Reachable m) (step : Step)
    (tcp : step.Tcp) (passed : point ∈ step.points m) {s : SockRef} {sock : Socket}
    (present : point.heap s = some sock)
    (isOpen : sock.status = .connected ∨ sock.status = .closing)
    (disciplined : Disciplined sock.writeBuffer.totalSize (point.logOf s)) :
    point.sentBytes s ++ sock.writeBuffer.content = point.queuedBytes s ∧
      (sock.writeLock = 0 ∨ sock.writeLock = 1) ∧
      (sock.writeLock = 1 →
        ∃ interest, point.interest s = some interest ∧ interest.epollOut = true) ∧
      (sock.writeBuffer.content ≠ [] →
        sock.writeLock = 1 ∨ { customizedEvents := .delaySend, s := s } ∈ point.eventQueue) := by
  have consistent := points_consistent (reached_idle reached tcp) tcp point passed
  have flow := (consistent.lived s).flow present disciplined
  refine ⟨flow.bytes, flow.lock, flow.armed isOpen, ?_⟩
  intro pending
  refine (flow.awake isOpen pending).imp id ?_
  intro waiting
  have queued : .delaySend ∈ (point.view s).events := List.contains_iff_mem.mp waiting
  simp only [Mgr.view, List.mem_map, List.mem_filter, decide_eq_true_eq] at queued
  obtain ⟨event, ⟨inside, rfl⟩, kind⟩ := queued
  rw [← kind]
  exact inside

/-- A callback sends two frames, the second of which has to wait; the peer takes three bytes. -/
def answer : Step where
  op := .eventLoop 0
    [[.socket 0 { epollIn := true } [.bytes [1, 0, 0, 0, 42]] []],
      [.wakeup true true, .socket 0 { epollOut := true } [] [.accepted 3]]]
  scripts := [[.sendMsg 1 ⟨List.replicate 10 43, by decide⟩,
    .sendMsg 1 ⟨List.replicate 5 44, by decide⟩]]
  epollResults := []
  udpConnects := []

theorem writePath_flow_answer :
    ∃ sock, (answer.exec visited).2.mgr.heap 0 = some sock ∧ sock.writeLock = 1 ∧
      sock.writeBuffer.content.length = 20 ∧
      (answer.exec visited).2.mgr.sentBytes 0 ++ sock.writeBuffer.content =
        (answer.exec visited).2.mgr.queuedBytes 0 := by
  have tcp : answer.Tcp := by simp [Step.Tcp, Op.Tcp, answer, Entry.Tcp, LuaCall.Tcp]
  refine ⟨_, rfl, rfl, rfl, ?_⟩
  exact (writePath_flow visited_reachable answer tcp List.mem_cons_self rfl (Or.inl rfl)
    (by decide)).1

end CrossOver.Engine.Network
