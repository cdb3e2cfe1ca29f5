import CrossOver.Engine.Network.Accounting
import CrossOver.Lib.Framing

/-!
# Reading frames

What a connected TCP socket that parses packages makes of the bytes it
receives.  `Holds` says which bytes its read buffer holds and what it has told
its handlers; feeding it a chunk is a step on these two.
-/

namespace CrossOver.Engine

open CrossOver.Lib

namespace SequenceBuffer

/-- A read buffer: nothing is delayed, and the array holds `pending`. -/
structure Receiving (b : SequenceBuffer) (size : Nat) (pending : Bytes) : Prop where
  sound : b.Sound
  total : b.totalSize = size
  direct : b.delayBuffList = []
  content : b.content = pending

section Receiving

variable {b : SequenceBuffer} {size : Nat} {pending : Bytes}

theorem allocate_receiving (size : Nat) : (allocate size).Receiving size [] :=
  ⟨(allocate_wellFormed size).toSound, rfl, rfl, allocate_content size⟩

theorem Receiving.front (receiving : b.Receiving size pending) : b.front = pending := by
  have content := receiving.content
  rwa [SequenceBuffer.content, receiving.direct, delayed, List.flatMap_nil, List.append_nil]
    at content

theorem Receiving.len (receiving : b.Receiving size pending) : b.len = pending.length := by
  rw [← receiving.front, front_length receiving.sound]

theorem Receiving.length_le (receiving : b.Receiving size pending) : pending.length ≤ size := by
  rw [← receiving.len, ← receiving.total]
  exact receiving.sound.fits

theorem Receiving.getSpace (receiving : b.Receiving size pending) :
    b.getSpace = size - pending.length := by
  rw [SequenceBuffer.getSpace, receiving.total, receiving.len]

/-- A part of the array that lies in the pending bytes. -/
theorem Receiving.slice (receiving : b.Receiving size pending) {start count : Nat}
    (inside : start + count ≤ pending.length) :
    (b.buffer.drop start).take count = (pending.drop start).take count := by
  rw [← receiving.front, SequenceBuffer.front, List.drop_take, List.take_take,
    Nat.min_eq_left (by rw [receiving.len]; omega)]

theorem Receiving.append (receiving : b.Receiving size pending) {chunk : Bytes}
    (room : chunk.length ≤ b.getSpace) :
    ((b.storeAtBuffer chunk).incrementWritten chunk.length).Receiving size (pending ++ chunk) := by
  have placed := place_wellFormed receiving.sound receiving.direct room
  refine ⟨placed.1.toSound, receiving.total, receiving.direct, ?_⟩
  rw [← receiving.content]
  exact placed.2

theorem Receiving.remove (receiving : b.Receiving size pending) {bytes : Nat}
    (inside : bytes ≤ pending.length) :
    (b.remove bytes).Receiving size (pending.drop bytes) := by
  rw [← receiving.len] at inside
  obtain ⟨wellFormed, content, total⟩ := remove_inside receiving.sound inside
  refine ⟨wellFormed.toSound, total.trans receiving.total, ?_, ?_⟩
  · exact List.suffix_nil.mp (receiving.direct ▸ remove_suffix b bytes)
  · rw [content, receiving.content]

end Receiving

end SequenceBuffer

namespace Network

/-- The entries that `OnRead` makes in the log. -/
def LogEntry.isReading : LogEntry → Bool
  | .readTask _ _ _ | .packetError _ | .wrapped _ => true
  | _ => false

def readingOf (log : List LogEntry) : List LogEntry := log.filter LogEntry.isReading

/-- The socket is connected and parses packages; its buffer holds `pending`, and
`told` is what reading has led to so far. -/
structure Holds (s : SockRef) (size connIdx : Nat) (pending : Bytes) (told : List LogEntry)
    (w : World) : Prop where
  sane : Sane w
  sock : ∃ sock, w.mgr.heap s = some sock ∧ sock.status = .connected ∧
    sock.isParsePackage = true ∧ sock.recvBufferSize = size ∧ sock.connIdx = connIdx ∧
    sock.readBuffer.Receiving size pending
  told : readingOf (w.mgr.view s).log = told

section Reading

variable {s : SockRef} {size connIdx : Nat} {pending : Bytes} {told : List LogEntry} {w w' : World}

theorem readingOf_append (first second : List LogEntry) :
    readingOf (first ++ second) = readingOf first ++ readingOf second := List.filter_append _ _

/-- A script leaves the reading side of a socket alone. -/
theorem Holds.carried (holds : Holds s size connIdx pending told w) (sane : Sane w')
    (carried : Carried w w') : Holds s size connIdx pending told w' where
  sane := sane
  sock := by
    obtain ⟨sock, present, status, rest⟩ := holds.sock
    obtain ⟨_, _, still⟩ := (carried.sockets s sock present).sock sock present
    exact ⟨_, still, status, rest⟩
  told := by
    obtain ⟨sock, present, _⟩ := holds.sock
    obtain ⟨added, extended, frames⟩ := (carried.sockets s sock present).log
    have silent : readingOf added = [] := by
      apply List.filter_eq_nil_iff.mpr
      intro entry membership
      obtain ⟨_, _, _, rfl⟩ := frames entry membership
      simp [LogEntry.isReading]
    rw [extended, readingOf_append, silent, List.append_nil]
    exact holds.told

theorem Holds.record (holds : Holds s size connIdx pending told w) {entry : LogEntry}
    (about : entry.subject = some s) (reading : entry.isReading = true)
    (step : Lives s (w.mgr.view s) ((w.mgr.view s).note entry)) :
    Holds s size connIdx pending (told ++ [entry]) { w with mgr := w.mgr.record entry } where
  sane := by
    obtain ⟨sock, present, _⟩ := holds.sock
    exact holds.sane.next rfl (holds.sane.1.local present (local_record w.mgr about) step)
  sock := holds.sock
  told := by
    have noted := (local_record w.mgr about).self
    change readingOf ((w.mgr.record entry).view s).log = _
    rw [noted, View.note, readingOf_append, holds.told]
    simp [readingOf, reading]

/-- What one look at a buffer leads to. -/
def report (s : SockRef) (connIdx limit : Nat) (bodies : List Bytes) (tail : Bytes) :
    List LogEntry :=
  bodies.map (.readTask s connIdx) ++
    if BadHeader 4 limit tail ∧ 4 < tail.length then [.packetError s] else []

/-- Only a callback that never returns can stop reading. -/
def OnlyExhausted (fault : Fault) (_ : World) : Prop := fault = .idsExhausted

theorem Holds.onData (holds : Holds s size connIdx pending told w) (body : Bytes) :
    Wp OnlyExhausted (Socket.onData s body) (fun _ w' =>
      Holds s size connIdx pending (told ++ [.readTask s connIdx body]) w') w := by
  obtain ⟨sock, present, status, _, _, rfl, _⟩ := holds.sock
  have about : LogEntry.subject (.readTask s sock.connIdx body) = some s := rfl
  have recorded := holds.record about rfl (.receive present status)
  unfold Socket.onData
  rw [wp_bind, wp_deref present]
  refine (process_spec (fun _ _ => rfl) _ recorded.sane).mono ?_
  rintro _ w' ⟨sane, carried⟩
  exact recorded.carried sane carried

theorem Holds.packetError {allowed : Fault → World → Prop}
    (holds : Holds s size connIdx pending told w) :
    Wp allowed (do
      Network.record (.packetError s)
      disconnect connIdx) (fun _ w' =>
        Holds s size connIdx pending (told ++ [.packetError s]) w') w := by
  have about : LogEntry.subject (.packetError s) = some s := rfl
  have recorded := holds.record about rfl (.remark (Or.inl rfl))
  rw [wp_bind, wp_record]
  refine (disconnect_spec recorded.sane connIdx).mono ?_
  rintro _ w' ⟨sane, carried⟩
  exact recorded.carried sane carried

theorem wp_addUInt32 {allowed : Fault → World → Prop} {a b : Nat} (small : a + b < 2 ^ 32)
    {post : Nat → World → Prop} :
    Wp allowed (Socket.addUInt32 s a b) post w ↔ post (a + b) w := by
  unfold Socket.addUInt32
  rw [if_neg (Nat.not_le.mpr small), Nat.mod_eq_of_lt small]
  rfl

theorem Holds.onFrame (holds : Holds s size connIdx pending told w) {packetLen cursor len : Nat}
    (inside : cursor + 4 + len ≤ pending.length) :
    Wp OnlyExhausted (Socket.onFrame s packetLen cursor len) (fun _ w' =>
      Holds s size connIdx pending
        (told ++ [.readTask s connIdx ((pending.drop (cursor + 4)).take len)]) w') w := by
  obtain ⟨sock, present, _, _, _, _, receiving⟩ := holds.sock
  unfold Socket.onFrame
  rw [wp_bind, wp_deref present]
  dsimp only
  rw [receiving.slice inside]
  split
  · exact holds.onData _
  · next udp => exact absurd ((holds.sane.tcp present).symm.trans udp) (by simp)

/-- The loop, entered at `cursor` with `told`, has stopped at `final`. -/
def Stopped (s : SockRef) (size connIdx : Nat) (pending : Bytes) (told : List LogEntry)
    (cursor final : Nat) (w : World) : Prop :=
  ∃ bodies, Parses 4 (size - 4) (pending.drop cursor) bodies (pending.drop final) ∧
    final ≤ pending.length ∧
    Holds s size connIdx pending
      (told ++ report s connIdx (size - 4) bodies (pending.drop final)) w

/-- No legal header that `OnRead` comes to makes a `uint32` sum exceed its range. -/
def Tame (size : Nat) (stream : Bytes) : Prop :=
  ∀ bodies tail, (∀ body ∈ bodies, LegalLength (size - 4) body.length) →
    stream = frames 4 bodies ++ tail → 4 ≤ tail.length →
    LegalLength (size - 4) (leValue (tail.take 4)) → size + leValue (tail.take 4) ≤ 2 ^ 32

section Tame

variable {stream : Bytes} {bodies : List Bytes} {tail : Bytes}

theorem tame_of_small (small : size ≤ 2 ^ 31 + 2) (stream : Bytes) : Tame size stream := by
  intro bodies tail _ _ _ legal
  have bounded := legal.2
  omega

theorem Tame.front {more : Bytes} (tame : Tame size (stream ++ more)) : Tame size stream := by
  intro bodies tail legalFront split long legal
  have header : (tail ++ more).take 4 = tail.take 4 := List.take_append_of_le_length long
  have whole := tame bodies (tail ++ more) legalFront (by rw [split, List.append_assoc])
    (by rw [List.length_append]; omega) (by rw [header]; exact legal)
  rwa [header] at whole

theorem Tame.behind (tame : Tame size (frames 4 bodies ++ tail))
    (legal : ∀ body ∈ bodies, LegalLength (size - 4) body.length) : Tame size tail := by
  intro more rest legalMore split
  refine tame (bodies ++ more) rest ?_ ?_
  · intro body membership
    rcases List.mem_append.mp membership with front | later
    · exact legal body front
    · exact legalMore body later
  · rw [split, frames, frames, frames, List.flatMap_append, List.append_assoc]

theorem Tame.next {body : Bytes} (tame : Tame size (frame 4 body ++ tail))
    (legal : LegalLength (size - 4) body.length) : Tame size tail := by
  have split : Tame size (frames 4 [body] ++ tail) := by
    rwa [frames_cons, show frames 4 [] = [] from rfl, List.append_nil]
  refine split.behind ?_
  intro other membership
  rw [List.mem_singleton.mp membership]
  exact legal

end Tame

/-- `OnRead` on a buffer whose loop stops as it should. -/
theorem Holds.onReadWith {allowed : Fault → World → Prop}
    (holds : Holds s size connIdx pending told w)
    (loop : Wp allowed (Socket.onReadLoop s pending.length (Socket.cursorCount + 1) 0)
      (Stopped s size connIdx pending told 0) w) :
    Wp allowed (Socket.onRead s) (fun _ w' =>
      ∃ bodies tail, Parses 4 (size - 4) pending bodies tail ∧
        Holds s size connIdx tail (told ++ report s connIdx (size - 4) bodies tail) w') w := by
  obtain ⟨sock, present, _, parse, _, _, receiving⟩ := holds.sock
  unfold Socket.onRead
  rw [wp_bind, wp_deref present]
  dsimp only
  rw [if_pos parse, SequenceBuffer.getSize, receiving.len]
  refine loop.seq ?_
  rintro final w₁ ⟨bodies, parses, bound, stopped⟩
  rw [List.drop_zero] at parses
  obtain ⟨after, still, status, parse, recvBufferSize, key, receiving⟩ := stopped.sock
  split
  · rw [wp_updateSocket still]
    have changed := local_setSocket w₁.mgr s
      { after with readBuffer := after.readBuffer.remove final }
    refine ⟨bodies, pending.drop final, parses, ?_, ?_, ?_⟩
    · exact stopped.sane.next rfl (stopped.sane.1.local still changed (.store still))
    · exact ⟨_, changed.heap, status, parse, recvBufferSize, key, receiving.remove bound⟩
    · exact (congrArg (fun v => readingOf v.log) changed.self).trans stopped.told
  · next unmoved =>
      obtain rfl := Decidable.not_not.mp unmoved
      exact ⟨bodies, pending.drop 0, parses, stopped⟩

/-- Bytes that fit are appended to the pending ones, and `OnRead` looks at them. -/
theorem Holds.feedWith {allowed : Fault → World → Prop} {post : Unit → World → Prop}
    (holds : Holds s size connIdx pending told w) {chunk : Bytes}
    (room : chunk.length ≤ size - pending.length)
    (read : ∀ w₁, Holds s size connIdx (pending ++ chunk) told w₁ →
      Wp allowed (Socket.onRead s) post w₁) :
    Wp allowed (Socket.feed s chunk) post w := by
  obtain ⟨sock, present, status, parse, recvBufferSize, key, receiving⟩ := holds.sock
  rw [← receiving.getSpace] at room
  unfold Socket.feed
  rw [wp_bind, wp_updateSocket present]
  have changed := local_setSocket w.mgr s
    { sock with
      readBuffer := (sock.readBuffer.storeAtBuffer chunk).incrementWritten chunk.length }
  refine read _ ⟨?_, ?_, ?_⟩
  · exact holds.sane.next rfl (holds.sane.1.local present changed (.store present))
  · exact ⟨_, changed.heap, status, parse, recvBufferSize, key, receiving.append room⟩
  · exact (congrArg (fun v => readingOf v.log) changed.self).trans holds.told

/-- A turn that finds no complete frame is the last one. -/
theorem Holds.onReadStop {allowed : Fault → World → Prop} (smallest : 5 ≤ size)
    (small : size < 2 ^ 32) (turns : Nat) {cursor : Nat}
    (holds : Holds s size connIdx pending told w) (inside : cursor ≤ pending.length)
    (low : cursor + 4 < 2 ^ 32)
    (unwrapped : LegalLength (size - 4) (leValue ((pending.drop cursor).take 4)) →
      4 ≤ (pending.drop cursor).length → size + leValue ((pending.drop cursor).take 4) ≤ 2 ^ 32)
    (none : ∀ body rest, LegalLength (size - 4) body.length →
      pending.drop cursor ≠ frame 4 body ++ rest) :
    Wp allowed (Socket.onReadLoop s pending.length (turns + 1) cursor)
      (Stopped s size connIdx pending told cursor) w := by
  obtain ⟨sock, present, status, parse, recvBufferSize, key, receiving⟩ := holds.sock
  have bounded := receiving.length_le
  have rest : (pending.drop cursor).length = pending.length - cursor := List.length_drop
  have limit : (size + 2 ^ 32 - 4) % 2 ^ 32 = size - 4 := by omega
  -- nothing is told about a tail that only has to wait
  have quiet : ¬ (BadHeader 4 (size - 4) (pending.drop cursor) ∧
      4 < (pending.drop cursor).length) → Stopped s size connIdx pending told cursor cursor w := by
    intro fine
    refine ⟨[], .stop none, inside, ?_⟩
    rw [report, if_neg fine, List.map_nil, List.nil_append, List.append_nil]
    exact holds
  rw [Socket.onReadLoop, wp_bind, wp_addUInt32 low]
  by_cases more : pending.length > cursor + 4
  · rw [if_pos more, wp_bind, wp_deref present]
    dsimp only
    rw [receiving.slice (by omega), recvBufferSize, limit]
    generalize header : leValue ((pending.drop cursor).take 4) = len at unwrapped ⊢
    by_cases legal : 0 < len ∧ len ≤ size - 4
    · have fits := unwrapped legal (by omega)
      rw [if_pos legal, wp_bind, wp_addUInt32 (by omega)]
      have incomplete : ¬ pending.length ≥ cursor + 4 + len := by
        intro complete
        have front := frame_take_drop header (by rw [rest]; omega)
        have size : (((pending.drop cursor).drop 4).take len).length = len := by
          rw [List.length_take, List.length_drop, rest]
          omega
        exact none _ _ (by rw [size]; exact legal) front.symm
      rw [if_neg incomplete, wp_pure]
      apply quiet
      rintro ⟨⟨_, illegal⟩, _⟩
      rw [header] at illegal
      exact illegal legal
    · rw [if_neg legal]
      have bad : BadHeader 4 (size - 4) (pending.drop cursor) := by
        refine ⟨by rw [rest]; omega, ?_⟩
        rw [header]
        exact legal
      have stopped : ∀ w₁, Holds s size connIdx pending (told ++ [.packetError s]) w₁ →
          Wp allowed (pure cursor) (Stopped s size connIdx pending told cursor) w₁ := by
        intro w₁ failed
        refine ⟨[], .stop none, inside, ?_⟩
        rw [report, if_pos ⟨bad, by rw [rest]; omega⟩]
        exact failed
      rw [key]
      simpa only [bind_assoc] using holds.packetError.seq fun _ => stopped
  · rw [if_neg more, wp_pure]
    apply quiet
    rw [rest]
    omega

/-- A chunk that completes no frame is fed without a callback. -/
theorem Holds.feedStop {allowed : Fault → World → Prop} (smallest : 5 ≤ size)
    (small : size < 2 ^ 32) (holds : Holds s size connIdx pending told w) {chunk : Bytes}
    (room : chunk.length ≤ size - pending.length)
    (illegal : ¬ LegalLength (size - 4) (leValue ((pending ++ chunk).take 4)))
    (none : ∀ body rest, LegalLength (size - 4) body.length →
      pending ++ chunk ≠ frame 4 body ++ rest) :
    Wp allowed (Socket.feed s chunk) (fun _ w' =>
      Holds s size connIdx (pending ++ chunk)
        (told ++ report s connIdx (size - 4) [] (pending ++ chunk)) w') w := by
  refine holds.feedWith room fun w₁ extended => ?_
  refine (extended.onReadWith (extended.onReadStop smallest small Socket.cursorCount
    (Nat.zero_le _) (by omega) ?_ ?_)).mono ?_
  · rw [List.drop_zero]
    exact fun legal => absurd legal illegal
  · rw [List.drop_zero]
    exact none
  · rintro _ w' ⟨bodies, tail, parses, next⟩
    obtain ⟨rfl, rfl⟩ := parses.unique (by omega) (.stop none)
    exact next

section Loop

variable (smallest : 5 ≤ size) (largest : size + 5 ≤ 2 ^ 32)

include smallest largest

/-- The loop takes the complete frames and stops before the tail; each turn
takes at least one byte, so the turns suffice. -/
theorem Holds.onReadLoop (turns cursor : Nat) (holds : Holds s size connIdx pending told w)
    (inside : cursor ≤ pending.length) (enough : pending.length - cursor < turns)
    (tame : Tame size (pending.drop cursor)) :
    Wp OnlyExhausted (Socket.onReadLoop s pending.length turns cursor)
      (Stopped s size connIdx pending told cursor) w := by
  induction turns generalizing cursor told w with
  | zero => exact absurd enough (Nat.not_lt_zero _)
  | succ turns inductionHypothesis =>
      by_cases stops : ∀ body rest, LegalLength (size - 4) body.length →
          pending.drop cursor ≠ frame 4 body ++ rest
      · obtain ⟨_, _, _, _, _, _, receiving⟩ := holds.sock
        have bounded := receiving.length_le
        exact holds.onReadStop smallest (by omega) turns inside (by omega)
          (fun legal long => tame [] _ (by simp) rfl long legal) stops
      · push Not at stops
        obtain ⟨body, behind, legal, front⟩ := stops
        obtain ⟨sock, present, status, parse, recvBufferSize, key, receiving⟩ := holds.sock
        have bounded := receiving.length_le
        have limit : (size + 2 ^ 32 - 4) % 2 ^ 32 = size - 4 := by omega
        have header : leValue ((pending.drop cursor).take 4) = body.length := by
          rw [front, leValue_frame (by omega) behind legal]
        have rest := congrArg List.length front
        rw [List.length_drop, List.length_append, frame_length] at rest
        have some := legal.1
        have unwrapped := tame [] (pending.drop cursor) (by simp) rfl
          (by rw [List.length_drop]; omega) (by rw [header]; exact legal)
        rw [header] at unwrapped
        have complete : cursor + 4 + body.length ≤ pending.length := by omega
        -- what lies behind the header is the body, and behind it the rest
        have dropped : pending.drop (cursor + 4 + body.length) = behind := by
          rw [Nat.add_assoc, ← List.drop_drop, front, List.drop_left' (by rw [frame_length])]
        have delivered : (pending.drop (cursor + 4)).take body.length = body := by
          rw [← List.drop_drop, front, frame, List.append_assoc, List.drop_left' (by simp),
            List.take_left' rfl]
        rw [Socket.onReadLoop, wp_bind, wp_addUInt32 (by omega), if_pos (by omega), wp_bind,
          wp_deref present]
        dsimp only
        rw [receiving.slice (by omega), recvBufferSize, limit, header, if_pos (by exact legal),
          wp_bind, wp_addUInt32 (by omega), if_pos (by exact complete)]
        refine (holds.onFrame complete).seq ?_
        intro _ w₁ told₁
        rw [delivered] at told₁
        have tameBehind : Tame size (pending.drop (cursor + 4 + body.length)) := by
          rw [dropped]
          exact Tame.next (front ▸ tame) legal
        refine (inductionHypothesis (cursor + 4 + body.length) told₁ complete (by omega)
          tameBehind).mono ?_
        rintro final w₂ ⟨bodies, parses, bound, finished⟩
        refine ⟨body :: bodies, ?_, bound, ?_⟩
        · rw [front]
          rw [dropped] at parses
          exact .next legal parses
        · rw [report, List.map_cons, List.cons_append, List.append_cons]
          exact finished

theorem Holds.feed (holds : Holds s size connIdx pending told w) {chunk : Bytes}
    (room : chunk.length ≤ size - pending.length) (tame : Tame size (pending ++ chunk)) :
    Wp OnlyExhausted (Socket.feed s chunk) (fun _ w' =>
      ∃ bodies tail, Parses 4 (size - 4) (pending ++ chunk) bodies tail ∧
        Holds s size connIdx tail (told ++ report s connIdx (size - 4) bodies tail) w') w := by
  refine holds.feedWith room fun w₁ extended => ?_
  obtain ⟨_, _, _, _, _, _, receiving⟩ := extended.sock
  have bounded := receiving.length_le
  refine extended.onReadWith (extended.onReadLoop smallest largest _ 0
    (Nat.zero_le _) ?_ (by rwa [List.drop_zero]))
  rw [Socket.cursorCount]
  omega

end Loop

end Reading

/-! ## Streams -/

def LogEntry.body : LogEntry → Option Bytes
  | .readTask _ _ data => some data
  | _ => none

namespace Mgr

def reading (m : Mgr) (s : SockRef) : List LogEntry := readingOf (m.logOf s)

/-- The bodies passed to `SocketReadTask::process`. -/
def delivered (m : Mgr) (s : SockRef) : List Bytes :=
  (m.reading s).filterMap LogEntry.body

/-- How often `OnRead` took its error branch. -/
def packetErrors (m : Mgr) (s : SockRef) : Nat := (m.reading s).count (.packetError s)

/-- How often a `uint32` sum of `OnRead` exceeded its range. -/
def wraps (m : Mgr) (s : SockRef) : Nat := (m.reading s).count (.wrapped s)

end Mgr

/-- A connected socket that parses packages and has received nothing. -/
structure Opened (s : SockRef) (sock : Socket) (w : World) : Prop where
  sane : Sane w
  present : w.mgr.heap s = some sock
  connected : sock.status = .connected
  parsing : sock.isParsePackage = true
  empty : sock.readBuffer = .allocate sock.recvBufferSize
  silent : w.mgr.reading s = []

/-- What may happen between two reads: anything that leaves the reading side of `s` alone. -/
structure Untouched (s : SockRef) (w w' : World) : Prop where
  sane : Sane w'
  sock : ∀ sock, w.mgr.heap s = some sock → ∃ after, w'.mgr.heap s = some after ∧
    after.status = sock.status ∧ after.isParsePackage = sock.isParsePackage ∧
    after.recvBufferSize = sock.recvBufferSize ∧ after.connIdx = sock.connIdx ∧
    after.readBuffer = sock.readBuffer
  reading : w'.mgr.reading s = w.mgr.reading s

/-- The chunks that a socket has been fed, each of which fitted its buffer. -/
inductive Reading (s : SockRef) (start : World) : List Bytes → World → Prop where
  | start : Reading s start [] start
  | feed {chunks : List Bytes} {chunk : Bytes} {w w' : World} {sock : Socket} :
      Reading s start chunks w → w.mgr.heap s = some sock →
      chunk.length ≤ sock.readBuffer.getSpace → Socket.feed s chunk w = (.ok (), w') →
      Reading s start (chunks ++ [chunk]) w'
  | pause {chunks : List Bytes} {w w' : World} : Reading s start chunks w → Untouched s w w' →
      Reading s start chunks w'

/-- What the log of a reading socket says about the stream it has received. -/
structure Tells (s : SockRef) (limit : Nat) (stream : Bytes) (bodies : List Bytes) (tail : Bytes)
    (m : Mgr) : Prop where
  parses : Parses 4 limit stream bodies tail
  delivered : m.delivered s = bodies
  unwrapped : m.wraps s = 0
  fine : ¬ BadHeader 4 limit tail → m.packetErrors s = 0

section Streams

variable {s : SockRef} {size connIdx limit : Nat} {stream tail : Bytes} {bodies : List Bytes}
  {told : List LogEntry} {w w' w₀ : World} {sock : Socket} {chunks : List Bytes}

theorem Holds.untouched (holds : Holds s size connIdx tail told w) (untouched : Untouched s w w') :
    Holds s size connIdx tail told w' where
  sane := untouched.sane
  sock := by
    obtain ⟨sock, present, status, parse, recvBufferSize, key, receiving⟩ := holds.sock
    obtain ⟨after, still, sameStatus, sameParse, sameSize, sameKey, sameBuffer⟩ :=
      untouched.sock sock present
    exact ⟨after, still, sameStatus.trans status, sameParse.trans parse,
      sameSize.trans recvBufferSize, sameKey.trans key, sameBuffer ▸ receiving⟩
  told := untouched.reading.trans holds.told

theorem report_parts (s : SockRef) (connIdx limit : Nat) (bodies : List Bytes) (tail : Bytes) :
    (report s connIdx limit bodies tail).filterMap LogEntry.body = bodies ∧
      (report s connIdx limit bodies tail).count (.wrapped s) = 0 ∧
      (report s connIdx limit bodies tail).count (.packetError s) =
        if BadHeader 4 limit tail ∧ 4 < tail.length then 1 else 0 := by
  have bodiesOnly : (bodies.map (LogEntry.readTask s connIdx)).filterMap LogEntry.body =
      bodies := by
    rw [List.filterMap_map]
    exact List.filterMap_some
  have silent : ∀ entry, (∀ data, LogEntry.readTask s connIdx data ≠ entry) →
      (bodies.map (LogEntry.readTask s connIdx)).count entry = 0 := by
    intro entry different
    rw [List.count_eq_zero]
    simpa using fun data _ => different data
  have unwrapped := silent (.wrapped s) (by simp)
  have fine := silent (.packetError s) (by simp)
  unfold report
  split
  · simp [bodiesOnly, unwrapped, fine, LogEntry.body]
  · simp [bodiesOnly, unwrapped, fine]

/-- One more look extends the story. -/
theorem Tells.report {more : List Bytes} {chunk rest : Bytes} {m m' : Mgr}
    (tells : Tells s limit stream bodies tail m) (wide : limit < 256 ^ 4)
    (parses : Parses 4 limit (tail ++ chunk) more rest)
    (reading : m'.reading s = m.reading s ++ report s connIdx limit more rest) :
    Tells s limit (stream ++ chunk) (bodies ++ more) rest m' := by
  obtain ⟨delivered, unwrapped, errors⟩ := report_parts s connIdx limit more rest
  refine ⟨tells.parses.append parses, ?_, ?_, ?_⟩
  · rw [Mgr.delivered, reading, List.filterMap_append, delivered]
    exact congrArg (· ++ more) tells.delivered
  · rw [Mgr.wraps, reading, List.count_append, unwrapped]
    exact tells.unwrapped
  · intro fine
    rw [Mgr.packetErrors, reading, List.count_append, errors, if_neg fun bad => fine bad.1]
    apply tells.fine
    intro bad
    obtain ⟨stuck, still⟩ := tells.parses.stuck wide bad chunk
    obtain ⟨_, rfl⟩ := (tells.parses.append parses).unique wide stuck
    exact fine still

theorem Opened.holds (opened : Opened s sock w) :
    Holds s sock.recvBufferSize sock.connIdx [] [] w where
  sane := opened.sane
  sock := ⟨sock, opened.present, opened.connected, opened.parsing, rfl, rfl,
    opened.empty ▸ SequenceBuffer.allocate_receiving _⟩
  told := opened.silent

/-- However the stream is cut, the socket holds its tail and has told of its frames. -/
theorem Reading.tells (reading : Reading s w₀ chunks w) (opened : Opened s sock w₀)
    (smallest : 5 ≤ sock.recvBufferSize) (largest : sock.recvBufferSize + 5 ≤ 2 ^ 32)
    (tame : Tame sock.recvBufferSize chunks.flatten) :
    ∃ bodies tail, Tells s (sock.recvBufferSize - 4) chunks.flatten bodies tail w.mgr ∧
      Holds s sock.recvBufferSize sock.connIdx tail (w.mgr.reading s) w := by
  induction reading with
  | start =>
      refine ⟨[], [], ⟨Parses.short (by simp), ?_, ?_, ?_⟩, ?_⟩
      · rw [Mgr.delivered, opened.silent, List.filterMap_nil]
      · rw [Mgr.wraps, opened.silent, List.count_nil]
      · rw [Mgr.packetErrors, opened.silent, List.count_nil]
        simp
      · rw [opened.silent]
        exact opened.holds
  | @feed chunks chunk w w' before reading present room fed inductionHypothesis =>
      rw [List.flatten_append, List.flatten_singleton] at tame
      obtain ⟨bodies, tail, tells, holds⟩ := inductionHypothesis tame.front
      obtain ⟨split, legal⟩ := tells.parses.split
      rw [split, List.append_assoc] at tame
      have space : chunk.length ≤ sock.recvBufferSize - tail.length := by
        obtain ⟨other, same, _, _, _, _, receiving⟩ := holds.sock
        obtain rfl := Option.some.inj (present.symm.trans same)
        rwa [← receiving.getSpace]
      have next := holds.feed smallest largest space (tame.behind legal)
      simp only [Wp, fed] at next
      obtain ⟨more, rest, parses, after⟩ := next
      have reported := after.told
      refine ⟨bodies ++ more, rest, ?_, ?_⟩
      · rw [List.flatten_append, List.flatten_singleton]
        exact tells.report (by omega) parses reported
      · have same : w'.mgr.reading s = _ := reported
        rw [same]
        exact after
  | pause _ untouched inductionHypothesis =>
      obtain ⟨bodies, tail, ⟨parses, delivered, unwrapped, fine⟩, holds⟩ := inductionHypothesis tame
      have same := untouched.reading
      refine ⟨bodies, tail, ⟨parses, ?_, ?_, ?_⟩, ?_⟩
      · rw [Mgr.delivered, same]
        exact delivered
      · rw [Mgr.wraps, same]
        exact unwrapped
      · rw [Mgr.packetErrors, same]
        exact fine
      · rw [same]
        exact holds.untouched untouched

/-- The bodies delivered are those of the frames before the first bad header.
Without one nothing goes wrong; behind one every further chunk only takes the
error branch again. -/
theorem onRead_frames (opened : Opened s sock w₀) (smallest : 5 ≤ sock.recvBufferSize)
    (largest : sock.recvBufferSize < 2 ^ 31) (reading : Reading s w₀ chunks w) :
    ∃ bodies tail after,
      Parses 4 (sock.recvBufferSize - 4) chunks.flatten bodies tail ∧
      w.mgr.delivered s = bodies ∧
      w.mgr.heap s = some after ∧ after.readBuffer.front = tail ∧
      w.mgr.wraps s = 0 ∧
      (¬ BadHeader 4 (sock.recvBufferSize - 4) tail → w.mgr.packetErrors s = 0) ∧
      ∀ chunk : Bytes, chunk.length ≤ after.readBuffer.getSpace →
        Wp OnlyExhausted (Socket.feed s chunk) (fun _ w' =>
          BadHeader 4 (sock.recvBufferSize - 4) tail → chunk ≠ [] →
            w'.mgr.delivered s = bodies ∧
              w'.mgr.packetErrors s = w.mgr.packetErrors s + 1) w := by
  have tame : ∀ stream, Tame sock.recvBufferSize stream := tame_of_small (by omega)
  obtain ⟨bodies, tail, tells, holds⟩ := reading.tells opened smallest (by omega) (tame _)
  obtain ⟨after, present, _, _, _, _, receiving⟩ := holds.sock
  have wide : sock.recvBufferSize - 4 < 256 ^ 4 := by omega
  refine ⟨bodies, tail, after, tells.parses, tells.delivered, present, receiving.front,
    tells.unwrapped, tells.fine, ?_⟩
  intro chunk room
  rw [receiving.getSpace] at room
  refine (holds.feed smallest (by omega) room (tame _)).mono ?_
  rintro _ w' ⟨more, rest, parses, next⟩ bad some
  obtain ⟨stuck, still⟩ := (Parses.bad wide bad).stuck wide bad chunk
  obtain ⟨rfl, rfl⟩ := parses.unique wide stuck
  obtain ⟨delivered, _, errors⟩ := report_parts s sock.connIdx (sock.recvBufferSize - 4) []
    (tail ++ chunk)
  have told : w'.mgr.reading s = _ := next.told
  have longer : 4 < (tail ++ chunk).length := by
    have positive := List.length_pos_of_ne_nil some
    have header := bad.1
    rw [List.length_append]
    omega
  constructor
  · rw [Mgr.delivered, told, List.filterMap_append, delivered, List.append_nil]
    exact tells.delivered
  · rw [Mgr.packetErrors, told, List.count_append, errors, if_pos ⟨still, longer⟩]
    rfl

/-- A frame cut inside its header, then a header that gives no length. -/
def cutOnce : World := (Socket.feed 0 [1, 0, 0] (arrival.start visited)).2

def cutTwice : World := (Socket.feed 0 [0, 42, 0, 0, 0, 0] cutOnce).2

theorem onRead_frames_cut :
    cutTwice.mgr.delivered 0 = [[42]] ∧
      ∃ tail, Parses 4 12 [1, 0, 0, 0, 42, 0, 0, 0, 0] [[42]] tail ∧ BadHeader 4 12 tail := by
  have opened : Opened 0 _ (arrival.start visited) :=
    ⟨(reached_idle visited_reachable arrival_tcp).sane, rfl, rfl, rfl, rfl, rfl⟩
  have first : Reading 0 (arrival.start visited) [[1, 0, 0]] cutOnce :=
    .feed .start rfl (by decide) rfl
  have second : Reading 0 (arrival.start visited) [[1, 0, 0], [0, 42, 0, 0, 0, 0]] cutTwice :=
    .feed first rfl (by decide) rfl
  obtain ⟨bodies, tail, after, parses, delivered, present, front, _⟩ :=
    onRead_frames opened (by decide) (by decide) second
  have got : cutTwice.mgr.delivered 0 = [[42]] := rfl
  obtain rfl := got.symm.trans delivered
  refine ⟨got, tail, parses, ?_⟩
  obtain rfl := Option.some.inj present
  rw [← front]
  decide

end Streams

end Network

end CrossOver.Engine
