import CrossOver.Engine.Network.Flow
import CrossOver.Engine.Network.Iocp.Manager

/-!
# The account of one socket on a completion port

Beside what the manager knows of a socket there is what the port knows of it.
`Account` is about its references: the count of a TCP socket is the number of
references that something will give back; on UDP the count may only be larger.
`Conduit` is about the write path: who holds the lock, and what the kernel has
been given.

A handler may run a callback while it is in the middle of closing a socket, before
it deletes one that was never in the map, or while it reads from a UDP socket.
The mood of a socket says so.
-/

namespace CrossOver.Engine.Network.Iocp

open CrossOver.Lib

/-- The operations of one socket. -/
structure Lane where
  connects : Nat
  reads : Nat
  writes : List Bytes

def Lane.empty : Lane where
  connects := 0
  reads := 0
  writes := []

def Port.lane (port : Port) (s : SockRef) : Lane where
  connects := port.connects.count s
  reads := port.reads.count s
  writes := (port.writes.filter fun write => write.s = s).map Write.data

inductive Mood where
  | settled
  /-- closed, with a callback to run before it leaves the map -/
  | shutting
  /-- not in the map, with a callback to run before it is deleted -/
  | spare
  /-- of UDP, with frames being read -/
  | wired
  deriving DecidableEq

/-- The references that something will give back. -/
def owed (lane : Lane) (v : View) : Nat := v.refs + lane.reads + lane.writes.length

structure Account (mood : Mood) (connects refs : Nat) (named : Prop) (sock : Socket) : Prop where
  bounded : (refs : Int) ≤ sock.count
  exact : sock.socketType = .tcp → sock.count = refs
  used : sock.socketType = .tcp → refs = 0 → connects ≠ 0 ∨ mood = .spare
  linked : sock.status = .connected ∨ sock.status = .closing → named
  left : sock.socketType = .tcp → sock.status = .closed → named → mood = .shutting
  kcp : sock.socketType = .udp → sock.kcp ≠ none

structure Conduit (writes : List Bytes) (log : List LogEntry) (sock : Socket) : Prop where
  whole : sock.writeBuffer.WellFormed
  lock : sock.writeLock = 0 ∧ writes = [] ∨ sock.writeLock = 1 ∧ writes.length ≤ 1
  handed : ∀ data ∈ writes, data.length ≤ sock.writeBuffer.len ∧
    sock.writeBuffer.buffer.take data.length = data
  idle : sock.status = .connecting → writes = []
  flow : sock.status = .connecting ∨ sock.status = .connected →
    log.flatMap LogEntry.sentBytes ++ sock.writeBuffer.content = log.flatMap LogEntry.queuedBytes

structure Fair (mood : Mood) (lane : Lane) (v : View) : Prop where
  gone : v.sock = none → owed lane v = 0 ∧ lane.connects = 0
  named : v.names ≠ [] → ∃ sock, v.sock = some sock ∧ v.names = [sock.connIdx]
  account : ∀ sock, v.sock = some sock →
    Account mood lane.connects (owed lane v) (v.names ≠ []) sock
  conduit : ∀ sock, v.sock = some sock → sock.socketType = .tcp → Conduit lane.writes v.log sock
  shut : mood = .shutting → v.names ≠ []
  closed : mood = .shutting → ∀ sock, v.sock = some sock → sock.status = .closed
  spared : mood = .spare → owed lane v = 0 ∧ lane.connects = 0 ∧ v.sock ≠ none
  pending : lane.connects ≠ 0 → lane.connects = 1 ∧ owed lane v = 0 ∧
    ∀ sock, v.sock = some sock → sock.socketType = .tcp ∧ sock.status = .connecting
  wired : mood = .wired → ∀ sock, v.sock = some sock → sock.socketType = .udp

theorem fair_blank : Fair .settled .empty .blank := by
  refine ⟨?_, ?_, ?_, ?_, ?_, ?_, ?_, ?_, ?_⟩ <;>
    simp [View.blank, Lane.empty, owed, View.refs]

/-- What the account depends on. -/
def Socket.standing (sock : Socket) : SocketType × SocketStatus × Int × Bool :=
  (sock.socketType, sock.status, sock.count, sock.kcp.isSome)

/-- What the write path depends on. -/
def Socket.outlet (sock : Socket) : SequenceBuffer × Int × SocketStatus :=
  (sock.writeBuffer, sock.writeLock, sock.status)

section Parts

variable {mood : Mood} {connects refs : Nat} {named : Prop} {sock sock' : Socket}
  {writes : List Bytes} {log log' : List LogEntry}

theorem Account.same (account : Account mood connects refs named sock)
    (standing : Socket.standing sock' = Socket.standing sock) :
    Account mood connects refs named sock' := by
  simp only [Socket.standing, Prod.mk.injEq] at standing
  obtain ⟨kind, status, count, kcp⟩ := standing
  refine ⟨?_, ?_, ?_, ?_, ?_, ?_⟩
  · rw [count]
    exact account.bounded
  · rw [kind, count]
    exact account.exact
  · rw [kind]
    exact account.used
  · rw [status]
    exact account.linked
  · rw [kind, status]
    exact account.left
  · intro udp missing
    rw [kind] at udp
    rw [missing] at kcp
    exact account.kcp udp (Option.isSome_eq_false_iff.mp kcp.symm |> Option.isNone_iff_eq_none.mp)

/-- One more reference. -/
theorem Account.gain (account : Account mood connects refs named sock) :
    Account mood connects (refs + 1) named { sock with count := sock.count + 1 } where
  bounded := by
    have := account.bounded
    push_cast
    omega
  exact := by
    intro tcp
    have := account.exact tcp
    push_cast
    omega
  used := fun _ zero => absurd zero (Nat.succ_ne_zero refs)
  linked := account.linked
  left := account.left
  kcp := account.kcp

/-- A reference that nothing gives back is counted all the same, but not on TCP. -/
theorem Account.excess (account : Account mood connects refs named sock)
    (udp : sock.socketType = .udp) :
    Account mood connects refs named { sock with count := sock.count + 1 } where
  bounded := account.bounded.trans (Int.le_add_one le_rfl)
  exact := fun tcp => absurd (tcp.symm.trans udp) (by simp)
  used := fun tcp => absurd (tcp.symm.trans udp) (by simp)
  linked := account.linked
  left := account.left
  kcp := account.kcp

/-- A reference is given back, and the count does not become zero. -/
theorem Account.lose (account : Account mood connects (refs + 1) named sock)
    (more : sock.count - 1 ≠ 0) :
    Account mood connects refs named { sock with count := sock.count - 1 } where
  bounded := by
    have := account.bounded
    push_cast at this
    dsimp only
    omega
  exact := by
    intro tcp
    have := account.exact tcp
    push_cast at this
    dsimp only
    omega
  used := by
    intro tcp zero
    have := account.exact tcp
    subst zero
    push_cast at this
    omega
  linked := account.linked
  left := account.left
  kcp := account.kcp

theorem Conduit.same (conduit : Conduit writes log sock)
    (outlet : Socket.outlet sock' = Socket.outlet sock)
    (sent : log'.flatMap LogEntry.sentBytes = log.flatMap LogEntry.sentBytes)
    (queued : log'.flatMap LogEntry.queuedBytes = log.flatMap LogEntry.queuedBytes) :
    Conduit writes log' sock' := by
  simp only [Socket.outlet, Prod.mk.injEq] at outlet
  obtain ⟨buffer, lock, status⟩ := outlet
  refine ⟨?_, ?_, ?_, ?_, ?_⟩
  · rw [buffer]
    exact conduit.whole
  · rw [lock]
    exact conduit.lock
  · rw [buffer]
    exact conduit.handed
  · rw [status]
    exact conduit.idle
  · rw [status, buffer, sent, queued]
    exact conduit.flow

/-- A buffer that has only been appended to, with what was appended. -/
structure Appends (before after : SequenceBuffer) (data : Bytes) : Prop where
  whole : after.WellFormed
  content : after.content = before.content ++ data
  grown : before.len ≤ after.len

theorem appends_fill {b : SequenceBuffer} (whole : b.WellFormed) : Appends b b.fillVector.2 [] where
  whole := SequenceBuffer.fillVector_wellFormed whole.toSound
  content := by rw [SequenceBuffer.fillVector_content whole.toSound, List.append_nil]
  grown := SequenceBuffer.fillVector_len whole.toSound

theorem appends_write {b : SequenceBuffer} {data : Bytes} (whole : b.WellFormed)
    (short : data.length < 2 ^ 32) : Appends b (b.write data).2 data where
  whole := (SequenceBuffer.write_spec whole.toSound short).2.1
  content := (SequenceBuffer.write_spec whole.toSound short).2.2.1
  grown := SequenceBuffer.write_len whole.toSound

theorem appends_writeMsg {b : SequenceBuffer} {head body : Bytes} (whole : b.WellFormed)
    (short : head.length + body.length < 2 ^ 32) :
    Appends b (b.writeMsg head body).2 (head ++ body) where
  whole := (SequenceBuffer.writeMsg_spec whole.toSound short).2.1
  content := (SequenceBuffer.writeMsg_spec whole.toSound short).2.2.1
  grown := SequenceBuffer.writeMsg_len whole.toSound

/-- The kernel does not see what is appended to the buffer. -/
theorem Conduit.append (conduit : Conduit writes log sock) {after : SequenceBuffer} {data : Bytes}
    (appends : Appends sock.writeBuffer after data)
    (sent : log'.flatMap LogEntry.sentBytes = log.flatMap LogEntry.sentBytes)
    (queued : log'.flatMap LogEntry.queuedBytes = log.flatMap LogEntry.queuedBytes ++ data) :
    Conduit writes log' { sock with writeBuffer := after } where
  whole := appends.whole
  lock := conduit.lock
  handed := by
    intro given outstanding
    obtain ⟨inside, same⟩ := conduit.handed given outstanding
    refine ⟨inside.trans appends.grown, ?_⟩
    exact (SequenceBuffer.take_buffer_of_append conduit.whole.toSound appends.whole.toSound
      appends.grown appends.content inside).trans same
  idle := conduit.idle
  flow := by
    intro before
    dsimp only
    rw [appends.content, sent, queued, ← List.append_assoc, conduit.flow before]

end Parts

/-! ## Changes -/

section Changes

variable {mood : Mood} {lane lane' : Lane} {v v' : View} {sock sock' : Socket}

theorem owed_pos_of_named (named : v.names ≠ []) : owed lane v ≠ 0 := by
  have := List.length_pos_of_ne_nil named
  simp only [owed, View.refs]
  omega

theorem Fair.alive (fair : Fair mood lane v) (active : owed lane v ≠ 0) :
    ∃ sock, v.sock = some sock := by
  cases present : v.sock with
  | none => exact absurd (fair.gone present).1 active
  | some sock => exact ⟨sock, rfl⟩

theorem Fair.unconnecting (fair : Fair mood lane v) (active : owed lane v ≠ 0) :
    lane.connects = 0 := by
  by_contra connecting
  exact active (fair.pending connecting).2.1

/-- A socket that something refers to goes on. -/
theorem Fair.advance (fair : Fair mood lane v) (active : owed lane v ≠ 0)
    (present : v.sock = some sock) (still : v'.sock = some sock') (names : v'.names = v.names)
    (kind : (sock'.socketType, sock'.connIdx, sock'.status) =
      (sock.socketType, sock.connIdx, sock.status))
    (connects : lane'.connects = lane.connects)
    (account : Account mood lane.connects (owed lane v) (v.names ≠ []) sock →
      Account mood lane.connects (owed lane' v') (v.names ≠ []) sock')
    (conduit : sock.socketType = .tcp → Conduit lane.writes v.log sock →
      Conduit lane'.writes v'.log sock') :
    Fair mood lane' v' := by
  simp only [Prod.mk.injEq] at kind
  obtain ⟨sameType, key, status⟩ := kind
  have unconnecting := fair.unconnecting active
  refine ⟨?_, ?_, ?_, ?_, ?_, ?_, ?_, ?_, ?_⟩
  · intro missing
    rw [still] at missing
    cases missing
  · intro named
    rw [names] at named ⊢
    obtain ⟨holder, holds, unique⟩ := fair.named named
    obtain rfl := Option.some.inj (present.symm.trans holds)
    exact ⟨sock', still, by rw [key]; exact unique⟩
  · intro other holds
    obtain rfl := Option.some.inj (still.symm.trans holds)
    rw [names, connects]
    exact account (fair.account sock present)
  · intro other holds tcp
    obtain rfl := Option.some.inj (still.symm.trans holds)
    rw [sameType] at tcp
    exact conduit tcp (fair.conduit sock present tcp)
  · rw [names]
    exact fair.shut
  · intro shutting other holds
    obtain rfl := Option.some.inj (still.symm.trans holds)
    rw [status]
    exact fair.closed shutting sock present
  · intro spare
    exact absurd (fair.spared spare).1 active
  · intro connecting
    exact absurd (connects.trans unconnecting) connecting
  · intro wired other holds
    obtain rfl := Option.some.inj (still.symm.trans holds)
    rw [sameType]
    exact fair.wired wired sock present

/-- A record of something else than bytes sent and frames written. -/
theorem Fair.note (fair : Fair mood lane v) {entry : LogEntry} (unsent : entry.sentBytes = [])
    (unqueued : entry.queuedBytes = []) : Fair mood lane (v.note entry) where
  gone := fair.gone
  named := fair.named
  account := fair.account
  conduit := by
    intro sock present tcp
    refine (fair.conduit sock present tcp).same rfl ?_ ?_
    · simp [View.note, unsent]
    · simp [View.note, unqueued]
  shut := fair.shut
  closed := fair.closed
  spared := fair.spared
  pending := fair.pending
  wired := fair.wired

/-- A change that neither the account nor the write path notices. -/
theorem Fair.quiet (fair : Fair mood lane v) (active : owed lane v ≠ 0)
    (present : v.sock = some sock) (still : v'.sock = some sock')
    (refs : (v'.names, v'.events, v'.held) = (v.names, v.events, v.held))
    (kind : (Socket.standing sock', sock'.connIdx) = (Socket.standing sock, sock.connIdx))
    (outlet : Socket.outlet sock' = Socket.outlet sock)
    (sent : v'.log.flatMap LogEntry.sentBytes = v.log.flatMap LogEntry.sentBytes)
    (queued : v'.log.flatMap LogEntry.queuedBytes = v.log.flatMap LogEntry.queuedBytes) :
    Fair mood lane v' := by
  simp only [Prod.mk.injEq] at refs
  obtain ⟨names, events, held⟩ := refs
  obtain ⟨standing, key⟩ := Prod.mk.inj kind
  have status : sock'.status = sock.status := congrArg (fun parts => parts.2.1) standing
  have sameOwed : owed lane v' = owed lane v := by simp [owed, View.refs, names, events, held]
  refine fair.advance active present still names ?_ rfl ?_ ?_
  · rw [key, status, Prod.mk.injEq]
    exact ⟨congrArg Prod.fst standing, rfl⟩
  · intro account
    rw [sameOwed]
    exact account.same standing
  · intro _ conduit
    exact conduit.same outlet sent queued

/-- One more reference, to whatever will give it back. -/
theorem Fair.gain (fair : Fair mood lane v) (active : owed lane v ≠ 0)
    (present : v.sock = some sock) (still : v'.sock = some { sock with count := sock.count + 1 })
    (same : (v'.names, v'.log) = (v.names, v.log))
    (sameLane : (lane'.connects, lane'.writes) = (lane.connects, lane.writes))
    (more : owed lane' v' = owed lane v + 1) : Fair mood lane' v' := by
  obtain ⟨names, log⟩ := Prod.mk.inj same
  obtain ⟨connects, writes⟩ := Prod.mk.inj sameLane
  refine fair.advance active present still names rfl connects ?_ ?_
  · intro account
    rw [more]
    exact account.gain
  · intro _ conduit
    rw [writes, log]
    exact conduit.same rfl rfl rfl

theorem Fair.enter (fair : Fair .settled lane v) (active : owed lane v ≠ 0)
    (present : v.sock = some sock) (unnamed : v.names = []) (status : sock.status = .connecting) :
    Fair .settled lane
      { v with
        sock := some { sock with status := .connected, count := sock.count + 1 }
        names := [sock.connIdx] } := by
  have more : owed lane
      { v with
        sock := some { sock with status := .connected, count := sock.count + 1 }
        names := [sock.connIdx] } = owed lane v + 1 := by
    simp only [owed, View.refs, unnamed, List.length_singleton, List.length_nil]
    omega
  have gained := (fair.account sock present).gain
  refine ⟨by simp, fun _ => ⟨_, rfl, rfl⟩, ?_, ?_, by simp, by simp, by simp, ?_, by simp⟩
  · intro other holds
    obtain rfl := Option.some.inj holds
    rw [more]
    exact ⟨gained.bounded, gained.exact, gained.used, by simp, by simp, gained.kcp⟩
  · intro other holds tcp
    obtain rfl := Option.some.inj holds
    have conduit := fair.conduit sock present tcp
    exact ⟨conduit.whole, conduit.lock, conduit.handed, by simp,
      fun _ => conduit.flow (Or.inl status)⟩
  · intro connecting
    exact absurd (fair.unconnecting active) connecting

/-- A connect has completed, and the loop takes its first reference. -/
theorem Fair.arrive (fair : Fair .settled lane v) (connecting : lane.connects ≠ 0)
    (present : v.sock = some sock) :
    Fair .settled { lane with connects := lane.connects - 1 }
      { v.setSock { sock with count := sock.count + 1 } with held := v.held + 1 } := by
  obtain ⟨once, nothing, kind⟩ := fair.pending connecting
  obtain ⟨tcp, status⟩ := kind sock present
  have gained := (fair.account sock present).gain
  have more : owed { lane with connects := lane.connects - 1 }
      { v.setSock { sock with count := sock.count + 1 } with held := v.held + 1 } =
      owed lane v + 1 := by
    simp only [owed, View.refs, View.setSock]
    omega
  refine ⟨by simp [View.setSock], ?_, ?_, ?_, by simp, by simp, by simp, by simp [once], by simp⟩
  · intro named
    exact absurd nothing (owed_pos_of_named named)
  · intro other holds
    obtain rfl := Option.some.inj holds
    rw [more]
    refine ⟨gained.bounded, gained.exact, fun _ zero => absurd zero (Nat.succ_ne_zero _),
      gained.linked, gained.left, gained.kcp⟩
  · intro other holds _
    obtain rfl := Option.some.inj holds
    exact (fair.conduit sock present tcp).same rfl rfl rfl

/-- A socket stops sending.  If it is closed while the map has it, it is on its way
out; on UDP it may also stay. -/
theorem Fair.stop (fair : Fair .settled lane v) (status : SocketStatus) (feeling : Mood)
    (active : owed lane v ≠ 0) (present : v.sock = some sock)
    (stopped : status = .closed ∨ status = .closing ∧ v.names ≠ [])
    (shutting : feeling = .shutting → status = .closed ∧ v.names ≠ [])
    (settled : feeling ≠ .shutting →
      feeling = .settled ∧ (sock.socketType = .tcp → status = .closed → v.names = [])) :
    Fair feeling lane (v.setSock { sock with status := status }) := by
  have unconnecting := fair.unconnecting active
  have account := fair.account sock present
  have unspared : feeling ≠ .spare ∧ feeling ≠ .wired := by
    by_cases way : feeling = .shutting
    · subst way
      exact ⟨by simp, by simp⟩
    · rw [(settled way).1]
      exact ⟨by simp, by simp⟩
  refine ⟨by simp [View.setSock], ?_, ?_, ?_, ?_, ?_, ?_, ?_, ?_⟩
  · intro named
    obtain ⟨holder, holds, unique⟩ := fair.named named
    obtain rfl := Option.some.inj (present.symm.trans holds)
    exact ⟨_, rfl, unique⟩
  · intro other holds
    obtain rfl := Option.some.inj holds
    refine ⟨account.bounded, account.exact, ?_, ?_, ?_, account.kcp⟩
    · intro _ zero
      exact absurd zero active
    · intro talking
      rcases stopped with finished | ⟨_, named⟩
      · subst finished
        simp at talking
      · exact named
    · intro tcp finished named
      by_contra way
      exact named ((settled way).2 tcp finished)
  · intro other holds tcp
    obtain rfl := Option.some.inj holds
    have conduit := fair.conduit sock present tcp
    refine ⟨conduit.whole, conduit.lock, conduit.handed, ?_, ?_⟩
    · intro connecting
      change status = .connecting at connecting
      subst connecting
      simp at stopped
    · intro sending
      change status = .connecting ∨ status = .connected at sending
      rcases sending with rfl | rfl <;> simp at stopped
  · intro way
    exact (shutting way).2
  · intro way other holds
    obtain rfl := Option.some.inj holds
    exact (shutting way).1
  · intro spare
    exact absurd spare unspared.1
  · intro connecting
    exact absurd unconnecting connecting
  · intro wired
    exact absurd wired unspared.2

/-- `REF_RELEASE` of a reference that nothing accounts for any more. -/
theorem Fair.release (fair : Fair mood lane v) (present : v.sock = some sock)
    (same : (v'.sock, v'.names, v'.log) = (v.sock, v.names, v.log))
    (sameLane : (lane'.connects, lane'.writes) = (lane.connects, lane.writes))
    (less : owed lane v = owed lane' v' + 1) : Fair mood lane' (v'.release sock) := by
  simp only [Prod.mk.injEq] at same sameLane
  obtain ⟨sameSock, names, log⟩ := same
  have active : owed lane v ≠ 0 := by omega
  have account := fair.account sock present
  by_cases last : sock.count - 1 = 0
  · have bounded := account.bounded
    have nothing : owed lane' v' = 0 := by omega
    have unnamed : v.names = [] := by
      by_contra named
      exact owed_pos_of_named (v := v') (by rw [names]; exact named) nothing
    refine ⟨?_, ?_, ?_, ?_, ?_, ?_, ?_, ?_, ?_⟩
    · intro _
      exact ⟨nothing, sameLane.1.trans (fair.unconnecting active)⟩
    · intro named
      exact absurd (names.trans unnamed) named
    · simp [View.release, last]
    · simp [View.release, last]
    · intro shutting
      exact absurd unnamed (fair.shut shutting)
    · simp [View.release, last]
    · intro spare
      exact absurd (fair.spared spare).1 active
    · intro connecting
      exact absurd (sameLane.1.trans (fair.unconnecting active)) connecting
    · simp [View.release, last]
  · have still : (v'.release sock).sock = some { sock with count := sock.count - 1 } := by
      simp [View.release, last]
    refine fair.advance active present still names rfl sameLane.1 ?_ ?_
    · intro before
      rw [less] at before
      exact before.lose last
    · intro _ conduit
      rw [sameLane.2]
      change Conduit lane.writes v'.log _
      rw [log]
      exact conduit.same rfl rfl rfl

theorem Fair.leave (fair : Fair mood lane v) (present : v.sock = some sock) (named : v.names ≠ [])
    (finished : sock.status ≠ .connected ∧ sock.status ≠ .closing ∨ sock.count - 1 = 0) :
    Fair .settled lane ({ v with names := [] }.release sock) := by
  have active : owed lane v ≠ 0 := owed_pos_of_named named
  obtain ⟨holder, _, unique⟩ := fair.named named
  have less : owed lane v = owed lane { v with names := [] } + 1 := by
    simp only [owed, View.refs, unique, List.length_singleton, List.length_nil]
    omega
  have account := fair.account sock present
  have unconnecting := fair.unconnecting active
  by_cases last : sock.count - 1 = 0
  · have bounded := account.bounded
    have nothing : owed lane { v with names := [] } = 0 := by omega
    refine ⟨fun _ => ⟨nothing, unconnecting⟩, ?_, ?_, ?_, ?_, ?_, ?_, ?_, ?_⟩ <;>
      simp [View.release, last, unconnecting]
  · obtain ⟨unconnected, unclosing⟩ := finished.resolve_right last
    rw [less] at account
    have lost := account.lose last
    refine ⟨?_, ?_, ?_, ?_, by simp, by simp, by simp, ?_, by simp⟩
    · simp [View.release, last]
    · simp [View.release]
    · intro other holds
      simp only [View.release, last, if_false, Option.some.injEq] at holds
      subst holds
      refine ⟨lost.bounded, lost.exact, ?_, ?_, ?_, lost.kcp⟩
      · intro tcp zero
        have := lost.exact tcp
        change owed lane { v with names := [] } = 0 at zero
        rw [zero] at this
        exact absurd this last
      · rintro (connected | closing)
        · exact absurd connected unconnected
        · exact absurd closing unclosing
      · intro _ _ still
        exact absurd rfl still
    · intro other holds tcp
      simp only [View.release, last, if_false, Option.some.injEq] at holds
      subst holds
      exact (fair.conduit sock present tcp).same rfl rfl rfl
    · intro connecting
      exact absurd unconnecting connecting

/-- A socket to which nothing refers is deleted. -/
theorem Fair.discard (fair : Fair .spare lane v) : Fair .settled lane { v with sock := none } := by
  obtain ⟨nothing, unconnecting, _⟩ := fair.spared rfl
  have unnamed : v.names = [] := by
    by_contra named
    exact owed_pos_of_named named nothing
  refine ⟨fun _ => ⟨nothing, unconnecting⟩, ?_, by simp, by simp, by simp, by simp, by simp, ?_,
    by simp⟩
  · intro named
    exact absurd unnamed named
  · intro connecting
    exact absurd unconnecting connecting

/-- A UDP socket while it is read from, and afterwards. -/
theorem Fair.rewire {feeling : Mood} (fair : Fair mood lane v)
    (udp : ∀ sock, v.sock = some sock → sock.socketType = .udp)
    (after : feeling = .settled ∨ feeling = .wired) :
    Fair feeling lane v where
  gone := fair.gone
  named := fair.named
  account := by
    intro sock present
    have account := fair.account sock present
    refine ⟨account.bounded, account.exact, ?_, account.linked, ?_, account.kcp⟩
    · intro tcp
      exact absurd (tcp.symm.trans (udp sock present)) (by simp)
    · intro tcp
      exact absurd (tcp.symm.trans (udp sock present)) (by simp)
  conduit := fair.conduit
  shut := by
    rintro rfl
    simp at after
  closed := by
    rintro rfl
    simp at after
  spared := by
    rintro rfl
    simp at after
  pending := fair.pending
  wired := fun _ => udp

end Changes

end CrossOver.Engine.Network.Iocp
