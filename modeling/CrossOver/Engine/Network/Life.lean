import Mathlib.Data.List.Infix
import Mathlib.Logic.Relation
import CrossOver.Engine.Network.EventLoop

/-!
# The life of one TCP socket

What the manager knows about a single socket: the object itself, the entries of
the map and of the event queue that point to it, the references the running
iteration holds, its place in the epoll batch and set, and its part of the log.
`Lives` lists everything that can happen to it; `Good` is what these steps keep.
-/

namespace CrossOver.Engine.Network

open CrossOver.Lib

structure View where
  sock : Option Socket
  /-- the keys under which the map holds it -/
  names : List Nat
  events : List SocketIOEvent
  held : Nat
  unprocessed : Nat
  interest : Option Interest
  log : List LogEntry

inductive Callback where
  | connect (isSuccess : Bool)
  | recv (data : Bytes)
  | close
  deriving DecidableEq, Repr

def LogEntry.callback : LogEntry → Option Callback
  | .connectTask _ _ isSuccess => some (.connect isSuccess)
  | .readTask _ _ data => some (.recv data)
  | .closeTask _ _ => some .close
  | _ => none

def traceOf (log : List LogEntry) : List Callback := log.filterMap LogEntry.callback

/-- Connected, with data received so far. -/
def Talking (trace : List Callback) : Prop :=
  ∃ bodies : List Bytes, trace = .connect true :: bodies.map .recv

def Finished (trace : List Callback) : Prop :=
  trace = [.connect false] ∨
    ∃ bodies : List Bytes, trace = .connect true :: bodies.map .recv ++ [.close]

theorem Talking.ordered {trace : List Callback} (talking : Talking trace) :
    ∃ bodies : List Bytes, trace <+: .connect true :: bodies.map .recv ++ [.close] := by
  obtain ⟨bodies, rfl⟩ := talking
  exact ⟨bodies, List.prefix_append _ _⟩

theorem Finished.ordered {trace : List Callback} (finished : Finished trace) :
    trace <+: [.connect false] ∨
      ∃ bodies : List Bytes, trace <+: .connect true :: bodies.map .recv ++ [.close] := by
  rcases finished with rfl | ⟨bodies, rfl⟩
  · exact Or.inl (List.prefix_refl _)
  · exact Or.inr ⟨bodies, List.prefix_refl _⟩

namespace View

def blank : View where
  sock := none
  names := []
  events := []
  held := 0
  unprocessed := 0
  interest := none
  log := []

def trace (v : View) : List Callback := traceOf v.log

/-- The references that are accounted for. -/
def refs (v : View) : Nat := v.names.length + v.events.length + v.held

def setSock (v : View) (sock : Socket) : View := { v with sock := some sock }

def note (v : View) (entry : LogEntry) : View := { v with log := v.log ++ [entry] }

/-- `REF_RELEASE` of an object whose destructor does nothing here. -/
def release (v : View) (sock : Socket) : View :=
  { v with sock := if sock.count - 1 = 0 then none else some { sock with count := sock.count - 1 } }

/-- No handler is in the middle of closing the socket. -/
def Settled (v : View) : Prop :=
  ∀ sock, v.sock = some sock →
    (sock.status = .connecting → v.trace = []) ∧ (sock.status = .closed → v.names = [])

end View

/-! ## Compound changes -/

section Changes

variable (s : SockRef)

/-- `PostEvent` -/
inductive Posts (events : Interest) (v : View) : View → Prop where
  | accepted : v.interest ≠ none → Posts events v { v with interest := some events }
  | refused : Posts events v (v.note (.epollError s))

/-- `BurstPush` -/
inductive Pushes (v : View) : View → Prop where
  | busy {sock : Socket} : v.sock = some sock → sock.writeLock ≠ 0 → Pushes v v
  | idle {sock : Socket} {v' : View} : v.sock = some sock → sock.writeLock = 0 →
      Posts s { epollIn := false, epollOut := true }
        (v.setSock { sock with writeLock := sock.writeLock + 1 }) v' →
      Pushes v v'

/-- `FillVector`, then `BurstPush` if there is something to send. -/
inductive FillsAndPushes (v : View) : View → Prop where
  | empty {sock : Socket} : v.sock = some sock → sock.writeBuffer.fillVector.2.getSize = 0 →
      FillsAndPushes v (v.setSock { sock with writeBuffer := sock.writeBuffer.fillVector.2 })
  | filled {sock : Socket} {v' : View} : v.sock = some sock →
      sock.writeBuffer.fillVector.2.getSize ≠ 0 →
      Pushes s (v.setSock { sock with writeBuffer := sock.writeBuffer.fillVector.2 }) v' →
      FillsAndPushes v v'

/-- `HandleDelaySend` -/
inductive DelaySends (v : View) : View → Prop where
  | ignored {sock : Socket} : v.sock = some sock → sock.status ≠ .connected → DelaySends v v
  | done {sock : Socket} {v' : View} : v.sock = some sock → sock.status = .connected →
      FillsAndPushes s v v' → DelaySends v v'

/-- `HandleClose` -/
inductive Closes (v : View) : View → Prop where
  | ignored {sock : Socket} : v.sock = some sock → sock.status ≠ .connected → Closes v v
  | done {sock : Socket} {v' : View} : v.sock = some sock → sock.status = .connected →
      Pushes s (v.setSock { sock with status := .closing }) v' → Closes v v'

/-- Leaving the map: `EPOLL_CTL_DEL`, the map's reference and its entry. -/
inductive Removes (v : View) : View → Prop where
  | clean {sock : Socket} : v.sock = some sock → v.names ≠ [] →
      Removes v ({ v with names := [], interest := none }.release sock)
  | noisy {sock : Socket} : v.sock = some sock → v.names ≠ [] →
      Removes v (({ v with names := [], interest := none }.note (.epollError s)).release sock)

end Changes

def Writes (writeBuffer : SequenceBuffer) (frame : Bytes) (after : SequenceBuffer) : Prop :=
  after = (writeBuffer.write frame).2 ∨
    ∃ head body, frame = head ++ body ∧ after = (writeBuffer.writeMsg head body).2

/-- The object and the first log entries of a registered socket. -/
def Newborn (s : SockRef) (sock : Socket) (greeting : List LogEntry) : Prop :=
  sock.socketType = .tcp ∧ sock.writeLock = 0 ∧ sock.count = 1 ∧
    (∃ size : UInt32, sock.writeBuffer = .allocate size.toNat) ∧
    (sock.status = .connecting ∧ greeting = [] ∨
      sock.status = .connected ∧ greeting = [.connectTask s sock.connIdx true])

/-- Everything that can happen to the socket `s`. -/
inductive Lives (s : SockRef) : View → View → Prop where
  | born {sock : Socket} {interest : Interest} {greeting : List LogEntry} :
      Newborn s sock greeting →
      Lives s .blank
        { View.blank with
          sock := some sock, names := [sock.connIdx], interest := some interest, log := greeting }
  | bornUnregistered {sock : Socket} {greeting : List LogEntry} : Newborn s sock greeting →
      Lives s .blank
        { View.blank with
          sock := some sock, names := [sock.connIdx], log := .epollError s :: greeting }
  | stillborn {errors : List LogEntry} : (∀ entry ∈ errors, entry = .epollError s) →
      Lives s .blank { View.blank with log := errors }
  | send {v : View} {sock : Socket} {frame : Bytes} {after : SequenceBuffer} :
      v.sock = some sock → v.names ≠ [] → Writes sock.writeBuffer frame after →
      Lives s v
        { v with
          sock := some { sock with writeBuffer := after, count := sock.count + 1 }
          events := v.events ++ [.delaySend]
          log := v.log ++ [.queued s sock.status frame] }
  | disconnect {v : View} {sock : Socket} : v.sock = some sock → v.names ≠ [] →
      Lives s v
        { v with sock := some { sock with count := sock.count + 1 }, events := v.events ++ [.close] }
  | report {v : View} : v.interest ≠ none → v.unprocessed = 0 → v.held = 0 →
      Lives s v { v with unprocessed := 1 }
  | take {v : View} {sock : Socket} : v.sock = some sock → v.unprocessed = 1 →
      Lives s v
        { v with
          sock := some { sock with count := sock.count + 1 }, unprocessed := 0, held := v.held + 1 }
  | establish {v v' : View} {sock : Socket} : v.sock = some sock → sock.status = .connecting →
      v.trace = [] → Posts s { epollIn := true, epollOut := false }
        (v.setSock { sock with status := .connected }) v' →
      Lives s v (v'.note (.connectTask s sock.connIdx true))
  | refuse {v : View} {sock : Socket} : v.sock = some sock → sock.status = .connecting →
      v.trace = [] → v.held ≠ 0 → Lives s v (v.note (.connectTask s sock.connIdx false))
  | abandon {v v' : View} {sock : Socket} : v.sock = some sock → sock.status = .connecting →
      v.trace = [.connect false] → v.held ≠ 0 →
      Removes s (v.setSock { sock with status := .closed }) v' → Lives s v v'
  | shut {v : View} {sock : Socket} : v.sock = some sock →
      sock.status = .closing ∨ sock.status = .connected → v.held ≠ 0 →
      Lives s v ((v.setSock { sock with status := .closed }).note (.closeTask s sock.connIdx))
  | leave {v v' : View} {sock : Socket} : v.sock = some sock → sock.status = .closed →
      v.held ≠ 0 → Removes s v v' → Lives s v v'
  | receive {v : View} {sock : Socket} {data : Bytes} : v.sock = some sock →
      sock.status = .connected → Lives s v (v.note (.readTask s sock.connIdx data))
  | store {v : View} {sock : Socket} {readBuffer : SequenceBuffer} : v.sock = some sock →
      Lives s v (v.setSock { sock with readBuffer := readBuffer })
  | remark {v : View} {entry : LogEntry} : entry = .packetError s ∨ entry = .wrapped s →
      Lives s v (v.note entry)
  | fill {v : View} {sock : Socket} : v.sock = some sock →
      Lives s v (v.setSock { sock with writeBuffer := sock.writeBuffer.fillVector.2 })
  | push {v v' : View} {sock : Socket} : v.sock = some sock → sock.status = .connected →
      FillsAndPushes s v v' → Lives s v v'
  | write {v : View} {sock : Socket} {bytes : Nat} : v.sock = some sock → sock.writeLock ≠ 0 →
      bytes ≤ transferLimit (Socket.sendLen sock.writeBuffer) →
      Lives s v
        ((v.note (.sent s (sock.writeBuffer.buffer.take bytes))).setSock
          { sock with writeBuffer := sock.writeBuffer.remove bytes })
  | unlock {v v' : View} {sock : Socket} : v.sock = some sock → sock.status = .connected →
      sock.writeLock ≠ 0 → sock.writeBuffer.getSize = 0 →
      Posts s { epollIn := true, epollOut := false }
        (v.setSock { sock with writeLock := sock.writeLock - 1 }) v' →
      Lives s v v'
  | rearm {v v' : View} {sock : Socket} : v.sock = some sock → sock.status = .connected →
      Posts s { epollIn := true, epollOut := true } v v' → Lives s v v'
  | delaySend {v v' : View} {sock : Socket} {rest : List SocketIOEvent} :
      v.events = .delaySend :: rest →
      DelaySends s { v with events := rest, held := v.held + 1 } v' → v'.sock = some sock →
      Lives s v ({ v' with held := v.held }.release sock)
  | close {v v' : View} {sock : Socket} {rest : List SocketIOEvent} :
      v.events = .close :: rest →
      Closes s { v with events := rest, held := v.held + 1 } v' → v'.sock = some sock →
      Lives s v ({ v' with held := v.held }.release sock)
  | release {v : View} {sock : Socket} : v.sock = some sock → v.held ≠ 0 → v.Settled →
      Lives s v ({ v with held := v.held - 1 }.release sock)

/-! ## Accounting and phases -/

/-- What accounting and callbacks depend on. -/
structure Identity where
  socketType : SocketType
  connIdx : Nat
  status : SocketStatus
  count : Int

structure Outline where
  sock : Option Identity
  names : List Nat
  events : Nat
  held : Nat
  unprocessed : Nat
  trace : List Callback

def Socket.identity (sock : Socket) : Identity where
  socketType := sock.socketType
  connIdx := sock.connIdx
  status := sock.status
  count := sock.count

def View.outline (v : View) : Outline where
  sock := v.sock.map Socket.identity
  names := v.names
  events := v.events.length
  held := v.held
  unprocessed := v.unprocessed
  trace := v.trace

/-- Which callbacks a socket has seen, and whether the map holds it. -/
def Outline.Phase (o : Outline) : SocketStatus → Prop
  | .connecting => o.names ≠ [] ∧ (o.trace = [] ∨ o.trace = [.connect false] ∧ o.held ≠ 0)
  | .connected => o.names ≠ [] ∧ Talking o.trace
  | .closing => o.names ≠ [] ∧ Talking o.trace
  | .closed => Finished o.trace ∧ (o.names ≠ [] → o.held ≠ 0)
  | .listening => False

/-- Everything but the count. -/
structure Outline.Sound (o : Outline) : Prop where
  gone : o.sock = none →
    o.names = [] ∧ o.events = 0 ∧ o.held = 0 ∧ (o.trace = [] ∨ Finished o.trace)
  named : o.names ≠ [] → ∃ sock, o.sock = some sock ∧ o.names = [sock.connIdx]
  batched : o.unprocessed ≠ 0 → o.unprocessed = 1 ∧ o.names ≠ [] ∧ o.held = 0
  phase : ∀ sock, o.sock = some sock → sock.socketType = .tcp ∧ o.Phase sock.status

def Outline.refs (o : Outline) : Nat := o.names.length + o.events + o.held

structure Outline.Good (o : Outline) : Prop extends Outline.Sound o where
  counted : ∀ sock, o.sock = some sock → sock.count = o.refs ∧ 0 < o.refs

structure View.Good (v : View) : Prop where
  outline : v.outline.Good
  registered : v.interest ≠ none → v.names ≠ []

theorem View.blank_good : View.blank.Good where
  outline := by
    refine ⟨⟨?_, ?_, ?_, ?_⟩, ?_⟩ <;> simp [View.outline, View.blank, View.trace, traceOf]
  registered := by simp [View.blank]

/-- A change that leaves the outline alone and registers nothing. -/
structure Quiet (v v' : View) : Prop where
  outline : v'.outline = v.outline
  registered : v'.interest ≠ none → v.interest ≠ none

theorem Quiet.trans {v₁ v₂ v₃ : View} (first : Quiet v₁ v₂) (second : Quiet v₂ v₃) :
    Quiet v₁ v₃ where
  outline := second.outline.trans first.outline
  registered := fun interested => first.registered (second.registered interested)

theorem View.Good.keep {v v' : View} (good : v.Good) (quiet : Quiet v v') : v'.Good where
  outline := quiet.outline ▸ good.outline
  registered := by
    have same : v'.names = v.names := congrArg Outline.names quiet.outline
    intro interested
    rw [same]
    exact good.registered (quiet.registered interested)

section Quiet

variable {s : SockRef} {v v' : View} {sock : Socket}

@[simp]
theorem traceOf_append (first second : List LogEntry) :
    traceOf (first ++ second) = traceOf first ++ traceOf second := List.filterMap_append

theorem quiet_note {entry : LogEntry} (silent : entry.callback = none) :
    Quiet v (v.note entry) where
  outline := by
    simp [View.outline, View.note, View.trace, traceOf, List.filterMap_append, silent]
  registered := id

theorem quiet_setSock {after : Socket} (present : v.sock = some sock)
    (same : after.identity = sock.identity) : Quiet v (v.setSock after) where
  outline := by simp [View.outline, View.setSock, present, same, View.trace]
  registered := id

theorem Posts.quiet {events : Interest} (posts : Posts s events v v') : Quiet v v' := by
  cases posts with
  | accepted interested => exact ⟨rfl, fun _ => interested⟩
  | refused => exact quiet_note rfl

theorem Pushes.quiet (pushes : Pushes s v v') : Quiet v v' := by
  cases pushes with
  | busy => exact ⟨rfl, id⟩
  | idle present _ posts => exact (quiet_setSock present (by rfl)).trans posts.quiet

theorem FillsAndPushes.quiet (fills : FillsAndPushes s v v') : Quiet v v' := by
  cases fills with
  | empty present => exact quiet_setSock present (by rfl)
  | filled present _ pushes => exact (quiet_setSock present (by rfl)).trans pushes.quiet

theorem DelaySends.quiet (sends : DelaySends s v v') : Quiet v v' := by
  cases sends with
  | ignored => exact ⟨rfl, id⟩
  | done _ _ fills => exact fills.quiet

end Quiet

/-! ## The steps keep the account -/

def Outline.release (o : Outline) (sock : Identity) : Outline :=
  { o with sock := if sock.count - 1 = 0 then none else some { sock with count := sock.count - 1 } }

theorem View.release_outline (v : View) (sock : Socket) :
    (v.release sock).outline = v.outline.release sock.identity := by
  by_cases last : sock.count - 1 = 0 <;>
    simp [View.release, Outline.release, View.outline, Socket.identity, View.trace, last]

/-- Giving back a reference that nothing accounts for any more. -/
theorem Outline.Sound.release {o : Outline} (sound : o.Sound) {sock : Identity}
    (present : o.sock = some sock) (owed : sock.count = o.refs + 1) : (o.release sock).Good := by
  have phase := sound.phase sock present
  by_cases last : o.refs = 0
  · have zero : sock.count - 1 = 0 := by omega
    have unnamed : o.names = [] := by
      simp only [Outline.refs] at last
      exact List.length_eq_zero_iff.mp (by omega)
    have finished : Finished o.trace := by
      have state := phase.2
      cases status : sock.status with
      | closed => exact (status ▸ state : o.Phase .closed).1
      | listening => exact absurd (status ▸ state : o.Phase .listening) id
      | connecting => exact absurd unnamed (status ▸ state : o.Phase .connecting).1
      | connected => exact absurd unnamed (status ▸ state : o.Phase .connected).1
      | closing => exact absurd unnamed (status ▸ state : o.Phase .closing).1
    simp only [Outline.refs] at last
    refine ⟨⟨?_, ?_, sound.batched, ?_⟩, ?_⟩
    · intro _
      exact ⟨unnamed, by simp [Outline.release]; omega, by simp [Outline.release]; omega,
        Or.inr finished⟩
    · intro named
      exact absurd unnamed named
    · simp [Outline.release, zero]
    · simp [Outline.release, zero]
  · have more : sock.count - 1 ≠ 0 := by omega
    refine ⟨⟨?_, ?_, sound.batched, ?_⟩, ?_⟩
    · simp [Outline.release, more]
    · intro named
      obtain ⟨holder, holds, names⟩ := sound.named named
      rw [present] at holds
      obtain rfl := Option.some.inj holds
      exact ⟨{ sock with count := sock.count - 1 }, by simp [Outline.release, more], names⟩
    · intro other held
      simp only [Outline.release, more, if_false, Option.some.injEq] at held
      subst held
      exact phase
    · intro other held
      simp only [Outline.release, more, if_false, Option.some.injEq] at held
      subst held
      have refs : (o.release sock).refs = o.refs := rfl
      simp only [refs]
      omega

/-- One more reference, to the queue or to the running iteration. -/
theorem Outline.Good.gain {o o' : Outline} (good : o.Good) {sock : Identity}
    (present : o.sock = some sock) (after : o'.sock = some { sock with count := sock.count + 1 })
    (names : o'.names = o.names) (trace : o'.trace = o.trace) (refs : o'.refs = o.refs + 1)
    (held : o.held ≠ 0 → o'.held ≠ 0)
    (batched : o'.unprocessed ≠ 0 → o'.unprocessed = o.unprocessed ∧ o'.held = o.held) :
    o'.Good := by
  have phase := good.phase sock present
  refine ⟨⟨?_, ?_, ?_, ?_⟩, ?_⟩
  · simp [after]
  · intro named
    rw [names] at named ⊢
    obtain ⟨holder, holds, unique⟩ := good.named named
    rw [present] at holds
    obtain rfl := Option.some.inj holds
    exact ⟨_, after, unique⟩
  · intro waiting
    obtain ⟨same, unheld⟩ := batched waiting
    rw [same] at waiting ⊢
    rw [unheld, names]
    exact good.batched waiting
  · intro other holds
    rw [after] at holds
    obtain rfl := Option.some.inj holds
    refine ⟨phase.1, ?_⟩
    have state := phase.2
    change o'.Phase sock.status
    cases status : sock.status with
    | closed =>
        rw [status] at state
        exact ⟨trace ▸ state.1, fun named => held (state.2 (names ▸ named))⟩
    | listening => exact absurd (status ▸ state : o.Phase .listening) id
    | connecting =>
        rw [status] at state
        exact ⟨names ▸ state.1, trace ▸ state.2.imp id fun failed => ⟨failed.1, held failed.2⟩⟩
    | connected =>
        rw [status] at state
        exact ⟨names ▸ state.1, trace ▸ state.2⟩
    | closing =>
        rw [status] at state
        exact ⟨names ▸ state.1, trace ▸ state.2⟩
  · intro other holds
    rw [after] at holds
    obtain rfl := Option.some.inj holds
    have counted := good.counted sock present
    simp only [refs]
    omega

/-- A change of status or a callback. -/
theorem Outline.Good.move {o : Outline} (good : o.Good) {sock : Identity}
    (present : o.sock = some sock) {status : SocketStatus} {trace : List Callback}
    (phase : ({ o with trace := trace } : Outline).Phase status) :
    ({ o with sock := some { sock with status := status }, trace := trace } : Outline).Good := by
  refine ⟨⟨by simp, ?_, good.batched, ?_⟩, ?_⟩
  · intro named
    obtain ⟨holder, holds, unique⟩ := good.named named
    rw [present] at holds
    obtain rfl := Option.some.inj holds
    exact ⟨_, rfl, unique⟩
  · intro other holds
    obtain rfl := Option.some.inj holds
    refine ⟨(good.phase sock present).1, ?_⟩
    cases status with
    | closed => exact phase
    | listening => exact phase
    | connecting => exact phase
    | connected => exact phase
    | closing => exact phase
  · intro other holds
    obtain rfl := Option.some.inj holds
    exact good.counted sock present

section Steps

variable {s : SockRef} {v v' : View} {sock : Socket}

theorem View.outline_sock (present : v.sock = some sock) :
    v.outline.sock = some sock.identity := by simp [View.outline, present]

theorem Outline.Sound.fewer {o : Outline} (sound : o.Sound) {sock : Identity}
    (present : o.sock = some sock) (events : Nat) :
    ({ o with events := events } : Outline).Sound := by
  refine ⟨by simp [present], sound.named, sound.batched, ?_⟩
  intro other holds
  have phase := sound.phase other holds
  refine ⟨phase.1, ?_⟩
  have state := phase.2
  cases status : other.status <;> rw [status] at state <;> exact state

theorem Outline.Good.popped {o : Outline} (good : o.Good) {sock : Identity}
    (present : o.sock = some sock) {events : Nat} (queue : o.events = events + 1) :
    (({ o with events := events } : Outline).release sock).Good := by
  have counted := (good.counted sock present).1
  apply (good.toSound.fewer present events).release present
  simp only [Outline.refs, queue] at counted ⊢
  omega

/-- An event has been popped and handled quietly; its reference passes to the
loop in the meantime. -/
theorem View.Good.popped (good : v.Good) {rest : List SocketIOEvent} {event : SocketIOEvent}
    (queue : v.events = event :: rest)
    (quiet : Quiet { v with events := rest, held := v.held + 1 } v')
    (still : v'.sock = some sock) : ({ v' with held := v.held }.release sock).Good where
  outline := by
    have outlined : ({ v' with held := v.held } : View).outline =
        { v.outline with events := rest.length } := by
      have whole : v'.outline =
          { v.outline with events := rest.length, held := v.held + 1 } := quiet.outline
      exact congrArg (fun o : Outline => { o with held := v.held }) whole
    have present : v.outline.sock = some sock.identity := by
      rw [← View.outline_sock still]
      exact (congrArg Outline.sock quiet.outline).symm
    rw [View.release_outline, outlined]
    exact good.outline.popped present (by simp [View.outline, queue])
  registered := by
    have names : v'.names = v.names := congrArg Outline.names quiet.outline
    intro interested
    change v'.names ≠ []
    rw [names]
    exact good.registered (quiet.registered interested)

theorem Removes.good (removes : Removes s v v') (good : v.Good) (present : v.sock = some sock)
    (closed : sock.status = .closed) (held : v.held ≠ 0) : v'.Good := by
  have phase := (good.outline.phase _ (View.outline_sock present)).2
  have counted := (good.outline.counted _ (View.outline_sock present)).1
  have finished : v.outline.Phase .closed := by
    simpa only [Socket.identity, closed] using phase
  have waiting : v.unprocessed = 0 := by
    by_contra some
    exact held (good.outline.batched some).2.2
  have outlined : v'.outline = ({ v.outline with names := [] } : Outline).release sock.identity ∧
      v'.interest = none ∧ v.names ≠ [] := by
    cases removes with
    | clean holds named =>
        obtain rfl := Option.some.inj (present.symm.trans holds)
        refine ⟨?_, rfl, named⟩
        rw [View.release_outline]
        rfl
    | noisy holds named =>
        obtain rfl := Option.some.inj (present.symm.trans holds)
        refine ⟨?_, rfl, named⟩
        rw [View.release_outline, (quiet_note (by rfl)).outline]
        rfl
  obtain ⟨outline, interest, named⟩ := outlined
  obtain ⟨holder, _, unique⟩ := good.outline.named named
  refine ⟨?_, fun interested => absurd interest interested⟩
  rw [outline]
  refine Outline.Sound.release ⟨?_, ?_, ?_, ?_⟩ (View.outline_sock present) ?_
  · simp [View.outline_sock present]
  · simp
  · intro some
    exact absurd waiting some
  · intro other holds
    obtain rfl := Option.some.inj ((View.outline_sock present).symm.trans holds)
    refine ⟨(good.outline.phase _ (View.outline_sock present)).1, ?_⟩
    simp only [Socket.identity, closed]
    exact ⟨finished.1, fun named => absurd rfl named⟩
  · simp only [Outline.refs, unique, List.length_nil, List.length_singleton] at counted ⊢
    omega

theorem phaseOf {status : SocketStatus} (same : sock.status = status) (good : v.Good)
    (present : v.sock = some sock) : v.outline.Phase status := by
  rw [← same]
  exact (good.outline.phase _ (View.outline_sock present)).2

theorem View.note_outline (v : View) (entry : LogEntry) :
    (v.note entry).outline =
      { v.outline with trace := v.outline.trace ++ entry.callback.toList } := by
  cases told : entry.callback <;>
    simp [View.outline, View.note, View.trace, traceOf, List.filterMap_append, told]

theorem View.note_outline_trace (v : View) (entry : LogEntry) :
    (v.note entry).outline.trace = v.trace ++ entry.callback.toList :=
  congrArg Outline.trace (View.note_outline v entry)

theorem Quiet.note (quiet : Quiet v v') (entry : LogEntry) :
    Quiet (v.note entry) (v'.note entry) where
  outline := by rw [View.note_outline, View.note_outline, quiet.outline]
  registered := quiet.registered

/-- A new status, then a callback. -/
theorem View.Good.moved (good : v.Good) (present : v.sock = some sock) {status : SocketStatus}
    {entry : LogEntry}
    (phase : ((v.note entry).outline).Phase status) :
    ((v.setSock { sock with status := status }).note entry).Good where
  outline := by
    have moved : ({ v.outline with
        sock := some { sock.identity with status := status }
        trace := v.outline.trace ++ entry.callback.toList } : Outline).Good :=
      good.outline.move (View.outline_sock present) (by rwa [View.note_outline] at phase)
    rw [View.note_outline]
    exact moved
  registered := good.registered

theorem Newborn.good {greeting : List LogEntry} {interest : Option Interest}
    (newborn : Newborn s sock greeting) (errors : List LogEntry) (silent : traceOf errors = []) :
    ({ View.blank with
        sock := some sock, names := [sock.connIdx], interest := interest,
        log := errors ++ greeting } : View).Good := by
  obtain ⟨tcp, _, count, _, status⟩ := newborn
  refine ⟨⟨⟨by simp [View.outline], ?_, by simp [View.outline, View.blank], ?_⟩, ?_⟩, by simp⟩
  · intro _
    exact ⟨sock.identity, rfl, rfl⟩
  · intro other holds
    obtain rfl := Option.some.inj holds
    refine ⟨tcp, ?_⟩
    rcases status with ⟨connecting, rfl⟩ | ⟨connected, rfl⟩
    · simp only [Socket.identity, connecting]
      exact ⟨by simp [View.outline], Or.inl (by simpa [View.outline, View.trace] using silent)⟩
    · simp only [Socket.identity, connected]
      refine ⟨by simp [View.outline], [], ?_⟩
      change traceOf (errors ++ _) = _
      rw [traceOf_append, silent]
      rfl
  · intro other holds
    obtain rfl := Option.some.inj holds
    simp [Socket.identity, count, Outline.refs, View.outline, View.blank]

/-- The end of an iteration gives up its reference. -/
theorem View.Good.release (good : v.Good) (present : v.sock = some sock) (held : v.held ≠ 0)
    (settled : v.Settled) : ({ v with held := v.held - 1 }.release sock).Good := by
  refine ⟨?_, good.registered⟩
  obtain ⟨quietStart, left⟩ := settled sock present
  have counted := (good.outline.counted _ (View.outline_sock present)).1
  have phase := good.outline.phase _ (View.outline_sock present)
  have lighter : ({ v.outline with held := v.held - 1 } : Outline).sock = some sock.identity :=
    View.outline_sock present
  rw [View.release_outline]
  change (({ v.outline with held := v.held - 1 } : Outline).release sock.identity).Good
  refine Outline.Sound.release ⟨?_, ?_, ?_, ?_⟩ lighter ?_
  · intro missing
    rw [lighter] at missing
    exact absurd missing (by simp)
  · exact good.outline.named
  · intro waiting
    exact absurd (good.outline.batched waiting).2.2 held
  · intro other holds
    obtain rfl := Option.some.inj (lighter.symm.trans holds)
    refine ⟨phase.1, ?_⟩
    change Outline.Phase _ sock.status
    cases status : sock.status with
    | closed => exact ⟨(phaseOf status good present).1, fun named => absurd (left status) named⟩
    | listening => exact phaseOf status good present
    | connecting => exact ⟨(phaseOf status good present).1, Or.inl (quietStart status)⟩
    | connected => exact phaseOf status good present
    | closing => exact phaseOf status good present
  · simp only [Outline.refs, View.outline] at counted ⊢
    omega

/-- Every step of a socket's life keeps its account and its phase. -/
theorem Lives.good (step : Lives s v v') (good : v.Good) : v'.Good := by
  cases step with
  | born newborn => exact newborn.good [] rfl
  | bornUnregistered newborn => exact newborn.good [.epollError s] rfl
  | stillborn errors =>
      refine View.blank_good.keep ⟨?_, id⟩
      have silent : traceOf _ = [] :=
        List.filterMap_eq_nil_iff.mpr fun entry membership => by rw [errors entry membership]; rfl
      simp only [View.outline, View.trace, silent]
      rfl
  | send present named writes =>
      refine ⟨good.outline.gain (View.outline_sock present) rfl rfl ?_ ?_ id fun waiting => ⟨rfl, rfl⟩,
        good.registered⟩
      · simp [View.outline, View.trace, traceOf, LogEntry.callback]
      · simp only [Outline.refs, View.outline, List.length_append, List.length_singleton]
        omega
  | disconnect present named =>
      refine ⟨good.outline.gain (View.outline_sock present) rfl rfl rfl ?_ id fun waiting => ⟨rfl, rfl⟩,
        good.registered⟩
      simp only [Outline.refs, View.outline, List.length_append, List.length_singleton]
      omega
  | report interested waiting unheld =>
      refine ⟨⟨⟨good.outline.gone, good.outline.named, ?_, ?_⟩, good.outline.counted⟩, good.registered⟩
      · intro _
        exact ⟨rfl, good.registered interested, unheld⟩
      · intro other holds
        have phase := good.outline.phase other holds
        refine ⟨phase.1, ?_⟩
        have state := phase.2
        cases status : other.status <;> rw [status] at state <;> exact state
  | take present waiting =>
      refine ⟨good.outline.gain (View.outline_sock present) rfl rfl rfl ?_ ?_ ?_, good.registered⟩
      · simp only [Outline.refs, View.outline]
        omega
      · simp [View.outline]
      · simp [View.outline]
  | establish present status silent posts =>
      refine (good.moved present ?_).keep
        (posts.quiet.note (.connectTask s _ true))
      exact ⟨(phaseOf status good present).1, [], by rw [View.note_outline_trace, silent]; rfl⟩
  | @refuse _ sock present status silent held =>
      have same : v.setSock { sock with status := .connecting } = v := by
        rw [View.setSock, ← status, ← present]
      rw [← same]
      refine good.moved present ⟨(phaseOf status good present).1, Or.inr ⟨?_, held⟩⟩
      rw [View.note_outline_trace, silent]
      rfl
  | abandon present status failed held removes =>
      refine removes.good ?_ rfl rfl held
      refine ⟨good.outline.move (View.outline_sock present) ?_, good.registered⟩
      exact ⟨Or.inl failed, fun _ => held⟩
  | shut present status held =>
      have talking : Talking v.trace := by
        rcases status with status | status
        · exact (phaseOf status good present).2
        · exact (phaseOf status good present).2
      obtain ⟨bodies, heard⟩ := talking
      refine good.moved present ⟨Or.inr ⟨bodies, ?_⟩, fun _ => held⟩
      rw [View.note_outline_trace, heard]
      rfl
  | leave present status held removes => exact removes.good good present status held
  | @receive _ sock data present status =>
      have same : v.setSock { sock with status := .connected } = v := by
        rw [View.setSock, ← status, ← present]
      obtain ⟨named, bodies, heard⟩ := phaseOf status good present
      rw [← same]
      refine good.moved present ⟨named, bodies ++ [data], ?_⟩
      rw [View.note_outline_trace]
      change v.outline.trace ++ _ = _
      rw [heard]
      simp [LogEntry.callback]
  | store present => exact good.keep (quiet_setSock present (by rfl))
  | remark kind =>
      refine good.keep (quiet_note ?_)
      rcases kind with rfl | rfl <;> rfl
  | fill present => exact good.keep (quiet_setSock present (by rfl))
  | push present status fills => exact good.keep fills.quiet
  | write present locked bytes =>
      exact good.keep ((quiet_note (by rfl)).trans (quiet_setSock present (by rfl)))
  | unlock present status locked empty posts =>
      exact good.keep ((quiet_setSock present (by rfl)).trans posts.quiet)
  | rearm present status posts => exact good.keep posts.quiet
  | delaySend queue sends still => exact good.popped queue sends.quiet still
  | close queue closes still =>
      cases closes with
      | ignored present => exact good.popped queue ⟨rfl, id⟩ still
      | @done before _ present status pushes =>
          obtain ⟨named, talking⟩ := phaseOf status good present
          have closing : (v.setSock { before with status := .closing }).Good :=
            ⟨good.outline.move (View.outline_sock present) ⟨named, talking⟩, good.registered⟩
          exact closing.popped queue pushes.quiet still
  | release present held settled => exact good.release present held settled

end Steps

/-- The socket `s` can come to look like this. -/
def Lived (s : SockRef) (v : View) : Prop := Relation.ReflTransGen (Lives s) .blank v

theorem Lived.good {s : SockRef} {v : View} (lived : Lived s v) : v.Good := by
  induction lived with
  | refl => exact View.blank_good
  | tail _ step inductionHypothesis => exact step.good inductionHypothesis

end CrossOver.Engine.Network
