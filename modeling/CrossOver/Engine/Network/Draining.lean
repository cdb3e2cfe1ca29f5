import CrossOver.Engine.Network.Reading
import CrossOver.Engine.Network.Traces
import CrossOver.Engine.Network.Watching

/-!
# Reading until there is nothing left

A socket is `Roomy` if its read buffer has room for another byte or `OnRead` has
rejected a header; whatever happens between two events keeps that, and so does
`OnRead`.
-/

namespace CrossOver.Engine.Network

open CrossOver.Lib

/-! ## Room in the read buffer -/

/-- Large enough for the smallest frame, or for a byte where there are no frames. -/
def ReadSide.Sized (side : ReadSide) : Prop :=
  (if side.isParsePackage then 5 else 1) ≤ side.recvBufferSize

def Sized (sock : Socket) : Prop := sock.readSide.Sized

/-- How often `OnRead` has rejected a header. -/
def errorsOf (s : SockRef) (log : List LogEntry) : Nat := log.count (.packetError s)

def Roomy (s : SockRef) (sock : Socket) (log : List LogEntry) : Prop :=
  sock.recvBufferSize < 2 ^ 32 ∧
    ∃ pending, sock.readBuffer.Receiving sock.recvBufferSize pending ∧
      (Sized sock → pending.length < sock.recvBufferSize ∨ errorsOf s log ≠ 0)

/-- The read side is as it was, a peer that was known still is, and at least
`errors` headers have been rejected. -/
structure Frozen (s : SockRef) (side : ReadSide) (joined : Bool) (errors : Nat) (sock : Socket)
    (log : List LogEntry) : Prop where
  same : sock.readSide = side
  joined : joined = true → sock.isUdpConnected = true
  errors : errors ≤ errorsOf s log

section Room

variable {s : SockRef} {side : ReadSide} {joined : Bool} {errors : Nat} {sock : Socket}
  {w : World} {pending : Bytes}

theorem errorsOf_append (s : SockRef) (log more : List LogEntry) :
    errorsOf s (log ++ more) = errorsOf s log + errorsOf s more := List.count_append

theorem roomy_readOnly (s : SockRef) : ReadOnly (Roomy s) where
  same before after log same roomy := by
    have size : after.recvBufferSize = before.recvBufferSize :=
      congrArg ReadSide.recvBufferSize same.1
    have buffer : after.readBuffer = before.readBuffer := congrArg ReadSide.readBuffer same.1
    unfold Roomy Sized at *
    rwa [same.1, size, buffer]
  grows sock log more roomy := by
    obtain ⟨small, pending, receiving, room⟩ := roomy
    refine ⟨small, pending, receiving, fun sized => (room sized).imp id fun rejected => ?_⟩
    rw [errorsOf_append]
    omega

theorem frozen_readOnly (s : SockRef) (side : ReadSide) (joined : Bool) (errors : Nat) :
    ReadOnly (Frozen s side joined errors) where
  same _ _ _ same frozen :=
    ⟨same.1.trans frozen.same, fun known => same.2 (frozen.joined known), frozen.errors⟩
  grows _ _ _ frozen := by
    refine ⟨frozen.same, frozen.joined, frozen.errors.trans ?_⟩
    rw [errorsOf_append]
    exact Nat.le_add_right _ _

theorem newSocket_roomy (s : SockRef) (socketType : SocketType) (fd connIdx : Nat)
    (config : Config) (log : List LogEntry) : Roomy s (newSocket socketType fd connIdx config) log := by
  refine ⟨config.recvBufferSize.toNat_lt, [], SequenceBuffer.allocate_receiving _, ?_⟩
  intro sized
  left
  unfold Sized ReadSide.Sized at sized
  split at sized
  · exact Nat.lt_of_lt_of_le (by decide) sized
  · exact sized

/-- A statement about one socket that is there. -/
theorem Watched.of_present {P Q : Socket → List LogEntry → Prop} (watched : Watched P s w)
    (present : w.mgr.heap s = some sock) (holds : Q sock w.mgr.log) : Watched Q s w where
  unborn large := absurd (watched.allocated present) (Nat.not_lt.mpr large)
  holds now there := by
    obtain rfl := Option.some.inj (present.symm.trans there)
    exact holds

/-- The socket is given another read buffer. -/
theorem Watched.store {P Q : Socket → List LogEntry → Prop} (watched : Watched P s w)
    (present : w.mgr.heap s = some sock) {readBuffer : SequenceBuffer}
    (holds : Q { sock with readBuffer := readBuffer } w.mgr.log) :
    Watched Q s (w.withMgr (w.mgr.setSocket s { sock with readBuffer := readBuffer })) where
  unborn large := absurd (watched.allocated present) (Nat.not_lt.mpr large)
  holds now there := by
    have changed : { sock with readBuffer := readBuffer } = now := by
      simpa [World.withMgr, Mgr.setSocket] using there
    exact changed ▸ holds

theorem Watched.reject (watched : Watched (Frozen s side joined errors) s w)
    (present : w.mgr.heap s = some sock) :
    Watched (Frozen s side joined (errors + 1)) s (w.withMgr (w.mgr.record (.packetError s))) where
  unborn large := absurd (watched.allocated present) (Nat.not_lt.mpr large)
  holds now there := by
    obtain ⟨same, known, few⟩ := watched.holds now there
    refine ⟨same, known, ?_⟩
    change errors + 1 ≤ errorsOf s (w.mgr.log ++ [.packetError s])
    rw [errorsOf_append]
    exact Nat.add_le_add few (Nat.le_of_eq (by simp [errorsOf]))

theorem addUInt32_value {I : World → Prop} (robust : Robust Anyhow I) (a b : Nat) (kept : I w) :
    Wp Anyhow (Socket.addUInt32 s a b) (fun sum w' => sum = (a + b) % 2 ^ 32 ∧ I w') w := by
  have noted := robust.record w (.wrapped s) rfl rfl kept
  unfold Socket.addUInt32
  by_cases large : 2 ^ 32 ≤ a + b
  · simp only [large, if_true, wp_bind, wp_record, wp_pure]
    exact ⟨trivial, noted⟩
  · simp only [large, if_false, wp_pure]
    exact ⟨trivial, kept⟩

theorem onFrameTrace_keeps {I : World → Prop} (robust : Robust Anyhow I)
    (packetLen cursor len : Nat) : Keeps Anyhow I (Socket.onFrameTrace s packetLen cursor len) := by
  unfold Socket.onFrameTrace
  refine (deref_keeps robust).bind fun sock => (onFrame_keeps robust _ _ _).bind fun _ => ?_
  cases sock.socketType with
  | tcp => exact Keeps.pure _
  | udp => exact Keeps.pure _

/-- The cursor stays inside; and a loop that stops where it began has found no
complete frame, so the buffer is not full or a header was rejected. -/
theorem onReadLoopTrace_room
    (receiving : side.readBuffer.Receiving side.recvBufferSize pending)
    (small : side.recvBufferSize < 2 ^ 32) (turns : Nat) {cursor : Nat}
    (inside : cursor ≤ pending.length) (watched : Watched (Frozen s side joined errors) s w) :
    Wp Anyhow (Socket.onReadLoopTrace s pending.length turns cursor) (fun ended w' =>
      ended.2 ≤ pending.length ∧ Watched (Frozen s side joined errors) s w' ∧
        (ended.2 = 0 → 5 ≤ side.recvBufferSize → pending.length < side.recvBufferSize ∨
          Watched (Frozen s side joined (errors + 1)) s w')) w := by
  have robust := watched_robust (s := s) (frozen_readOnly s side joined errors)
  have bounded := receiving.length_le
  induction turns generalizing cursor w with
  | zero => exact trivial
  | succ turns inductionHypothesis =>
      unfold Socket.onReadLoopTrace
      refine (addUInt32_value robust _ _ watched).seq ?_
      rintro bodyStart w₁ ⟨start, watched₁⟩
      split
      · next more =>
        obtain absent | ⟨sock, present⟩ := Option.eq_none_or_eq_some (w₁.mgr.heap s)
        · rw [wp_bind]
          exact deref_absent robust watched₁ absent
        · rw [wp_bind, wp_deref present]
          dsimp only
          have size : sock.recvBufferSize = side.recvBufferSize :=
            congrArg ReadSide.recvBufferSize (watched₁.holds sock present).same
          rw [size]
          generalize leValue ((sock.readBuffer.buffer.drop cursor).take 4) = len
          split
          · next legal =>
            refine (addUInt32_value robust _ _ watched₁).seq ?_
            rintro bodyEnd w₂ ⟨stop, watched₂⟩
            split
            · next complete =>
              refine (onFrameTrace_keeps robust _ _ _ w₂ watched₂).seq fun _ w₃ watched₃ => ?_
              refine (inductionHypothesis complete watched₃).seq fun _ w₄ later => ?_
              exact later
            · next incomplete =>
              refine ⟨inside, watched₂, ?_⟩
              rintro rfl smallest
              -- at the start of the buffer no sum wraps
              exact Or.inl (by omega)
          · rw [wp_bind, wp_record]
            have rejected := watched₁.reject present
            have again := watched_robust (s := s) (frozen_readOnly s side joined (errors + 1))
            refine (disconnect_keeps again _ _ rejected).seq fun _ w₂ watched₂ => ?_
            refine ⟨inside, watched₂.weaken fun _ _ frozen => ?_, fun _ _ => Or.inr watched₂⟩
            exact ⟨frozen.same, frozen.joined, Nat.le_of_succ_le frozen.errors⟩
      · next short =>
        refine ⟨inside, watched₁, ?_⟩
        rintro rfl smallest
        exact Or.inl (by omega)

/-- What `OnRead` leaves of a socket with this read side when `errors` headers had
been rejected before. -/
structure AfterRead (s : SockRef) (side : ReadSide) (errors : Nat) (w : World) : Prop where
  roomy : Watched (Roomy s) s w
  same : ∀ sock, w.mgr.heap s = some sock → ∃ readBuffer,
    sock.readSide = { side with readBuffer := readBuffer }
  space : side.Sized → ∀ sock, w.mgr.heap s = some sock →
    0 < sock.readBuffer.getSpace ∨ errors < errorsOf s w.mgr.log

theorem AfterRead.gone (absent : w.mgr.heap s = none) : AfterRead s side errors w where
  roomy :=
    { unborn := fun _ => ⟨absent, fun _ _ _ _ _ => newSocket_roomy _ _ _ _ _ _⟩
      holds := fun _ there => absurd (absent.symm.trans there) (by simp) }
  same _ there := absurd (absent.symm.trans there) (by simp)
  space _ _ there := absurd (absent.symm.trans there) (by simp)

/-- A frozen socket that gets a read buffer. -/
theorem Watched.thaw (watched : Watched (Frozen s side joined errors) s w)
    (present : w.mgr.heap s = some sock) (small : side.recvBufferSize < 2 ^ 32)
    {readBuffer : SequenceBuffer} {rest : Bytes}
    (receiving : readBuffer.Receiving side.recvBufferSize rest)
    (room : side.Sized → rest.length < side.recvBufferSize) :
    AfterRead s side errors
      (w.withMgr (w.mgr.setSocket s { sock with readBuffer := readBuffer })) := by
  obtain rfl := (watched.holds sock present).same
  have changed : ∀ now, (w.mgr.setSocket s { sock with readBuffer := readBuffer }).heap s =
      some now → { sock with readBuffer := readBuffer } = now := by
    intro now there
    simpa [Mgr.setSocket] using there
  refine ⟨watched.store present ⟨small, rest, receiving, fun sized => Or.inl (room sized)⟩, ?_, ?_⟩
  · intro now there
    rw [← changed now there]
    exact ⟨readBuffer, rfl⟩
  · intro sized now there
    rw [← changed now there]
    dsimp only
    rw [receiving.getSpace]
    exact Or.inl (Nat.sub_pos_of_lt (room sized))

/-- A frozen socket whose read buffer stays as it is. -/
theorem Watched.stays (watched : Watched (Frozen s side joined errors) s w)
    (small : side.recvBufferSize < 2 ^ 32)
    (receiving : side.readBuffer.Receiving side.recvBufferSize pending)
    (room : side.Sized → pending.length < side.recvBufferSize ∨
      Watched (Frozen s side joined (errors + 1)) s w) : AfterRead s side errors w := by
  obtain absent | ⟨sock, present⟩ := Option.eq_none_or_eq_some (w.mgr.heap s)
  · exact .gone absent
  · obtain rfl := (watched.holds sock present).same
    have told : sock.readSide.Sized →
        pending.length < sock.recvBufferSize ∨ errors < errorsOf s w.mgr.log := fun sized =>
      (room sized).imp id fun rejected => (rejected.holds sock present).errors
    refine ⟨watched.of_present present ⟨small, pending, receiving, fun sized => ?_⟩, ?_, ?_⟩
    · exact (told sized).imp id fun rejected => by omega
    · intro now there
      exact ⟨_, (watched.holds now there).same⟩
    · intro sized now there
      obtain rfl := Option.some.inj (present.symm.trans there)
      have space : sock.readBuffer.getSpace = sock.recvBufferSize - pending.length :=
        receiving.getSpace
      rw [space]
      exact (told sized).imp Nat.sub_pos_of_lt id

theorem drop_room (receiving : side.readBuffer.Receiving side.recvBufferSize pending)
    (small : side.recvBufferSize < 2 ^ 32) (watched : Watched (Frozen s side joined errors) s w)
    {bytes : Nat} (inside : bytes ≤ pending.length)
    (room : side.Sized → pending.length - bytes < side.recvBufferSize) :
    Wp Anyhow (updateSocket s fun sock => { sock with readBuffer := sock.readBuffer.remove bytes })
      (fun _ w' => AfterRead s side errors w') w := by
  have robust := watched_robust (s := s) (frozen_readOnly s side joined errors)
  obtain absent | ⟨sock, present⟩ := Option.eq_none_or_eq_some (w.mgr.heap s)
  · unfold updateSocket
    rw [wp_bind]
    exact deref_absent robust watched absent
  · rw [wp_updateSocket present]
    have buffer : sock.readBuffer = side.readBuffer :=
      congrArg ReadSide.readBuffer (watched.holds sock present).same
    rw [buffer]
    exact watched.thaw present small (receiving.remove inside)
      (by rw [List.length_drop]; exact room)

theorem onReadTrace_room (receiving : side.readBuffer.Receiving side.recvBufferSize pending)
    (small : side.recvBufferSize < 2 ^ 32) (watched : Watched (Frozen s side joined errors) s w) :
    Wp Anyhow (Socket.onReadTrace s) (fun _ w' => AfterRead s side errors w') w := by
  have robust := watched_robust (s := s) (frozen_readOnly s side joined errors)
  have some := receiving.length_le
  unfold Socket.onReadTrace
  obtain absent | ⟨sock, present⟩ := Option.eq_none_or_eq_some (w.mgr.heap s)
  · rw [wp_bind]
    exact deref_absent robust watched absent
  · rw [wp_bind, wp_deref present]
    have same := (watched.holds sock present).same
    have parse : sock.isParsePackage = side.isParsePackage :=
      congrArg ReadSide.isParsePackage same
    have buffer : sock.readBuffer = side.readBuffer := congrArg ReadSide.readBuffer same
    generalize Socket.cursorCount + 1 = turns
    dsimp only
    rw [parse, buffer, SequenceBuffer.getSize, receiving.len]
    split
    · next parsing =>
      refine (onReadLoopTrace_room receiving small turns (Nat.zero_le _) watched).seq ?_
      rintro ended w₁ ⟨inside, watched₁, room⟩
      split
      · next moved =>
        refine (drop_room receiving small watched₁ inside fun _ => ?_).seq fun _ _ read => read
        omega
      · next unmoved =>
        refine watched₁.stays small receiving fun sized => ?_
        rw [ReadSide.Sized, if_pos parsing] at sized
        exact room (Decidable.not_not.mp unmoved) sized
    · next whole =>
      refine (onData_keeps robust _ w watched).seq fun _ w₁ watched₁ => ?_
      refine (drop_room receiving small watched₁ le_rfl fun sized => ?_).seq fun _ _ read => read
      rw [ReadSide.Sized, if_neg whole] at sized
      omega

/-- Received bytes that fit are put behind the pending ones and looked at. -/
theorem feedTrace_room (watched : Watched (Roomy s) s w) (present : w.mgr.heap s = some sock)
    {chunk : Bytes} (room : chunk.length ≤ sock.readBuffer.getSpace) :
    Wp Anyhow (Socket.feedTrace s chunk) (fun _ w' => ∃ readBuffer,
      AfterRead s { sock.readSide with readBuffer := readBuffer } (errorsOf s w.mgr.log) w') w := by
  obtain ⟨small, pending, receiving, _⟩ := watched.holds sock present
  have extended := receiving.append room
  unfold Socket.feedTrace
  rw [wp_bind, wp_updateSocket present]
  have frozen : Watched (Frozen s (Socket.readSide { sock with
      readBuffer := (sock.readBuffer.storeAtBuffer chunk).incrementWritten chunk.length }) false
      (errorsOf s w.mgr.log)) s (w.withMgr (w.mgr.setSocket s { sock with
        readBuffer := (sock.readBuffer.storeAtBuffer chunk).incrementWritten chunk.length })) :=
    watched.store present ⟨rfl, by simp, le_rfl⟩
  refine (onReadTrace_room (by exact extended) (by exact small) frozen).mono fun _ _ read => ?_
  exact ⟨_, read⟩

theorem roomy_reads (s : SockRef) : Reads Anyhow (Watched (Roomy s) s) := by
  refine watched_reads (roomy_readOnly s) fun w sock chunk present room watched => ?_
  rw [feed_eq]
  exact (feedTrace_room watched present room).seq fun _ _ ⟨_, read⟩ => read.roomy

end Room

/-! ## The end of the loop -/

def RecvAnswer.Spent (asked : Nat) : RecvAnswer → Prop
  | .bytes count => count < asked
  | .again => True
  | .error => False

section Draining

variable {s : SockRef} {sock : Socket} {w : World}

theorem intOf_bound (size : Nat) : -2 ^ 31 ≤ intOf size ∧ intOf size < 2 ^ 31 := by
  unfold intOf
  rw [Int.bmod_def]
  split <;> omega

/-- Another count than the `int` that was asked for is a smaller one. -/
theorem lt_sizeOf {size received : Nat} (few : received ≤ transferLimit (intOf size))
    (other : (received : Int) ≠ intOf size) : received < sizeOf (intOf size) := by
  have bound := intOf_bound size
  unfold transferLimit at few
  unfold sizeOf
  omega

/-- What one run of the loop leaves. -/
structure Exhausted (s : SockRef) (trace : ReadTrace) (w : World) : Prop where
  space : ∀ look ∈ trace.looks, errorsOf s look.after.log = errorsOf s look.before.log →
    ∀ sock, look.after.heap s = some sock → 0 < sock.readBuffer.getSpace
  full : trace.ending = .full → .packetError s ∈ w.mgr.log
  spent : trace.ending ≠ .full → (∀ call ∈ trace.recvs, call.2 ≠ .error) →
    ∃ asked answer, trace.recvs.getLast? = some (asked, answer) ∧ answer.Spent asked

/-- A loop without `OnRead`. -/
theorem Exhausted.quiet {ending : ReadEnd} {asked : Nat} {answer : RecvAnswer}
    (notFull : ending ≠ .full) (spent : answer ≠ .error → answer.Spent asked) :
    Exhausted s ⟨[(asked, answer)], [], ending⟩ w where
  space _ inside := absurd inside List.not_mem_nil
  full isFull := absurd isFull notFull
  spent _ clean := ⟨asked, answer, rfl, spent (clean (asked, answer) List.mem_cons_self)⟩

theorem Watched.full (watched : Watched (Roomy s) s w) (present : w.mgr.heap s = some sock)
    (sized : Sized sock) (full : intOf sock.readBuffer.getSpace = 0) :
    Exhausted s ⟨[], [], .full⟩ w where
  space _ inside := absurd inside List.not_mem_nil
  full _ := by
    obtain ⟨small, pending, receiving, room⟩ := watched.holds sock present
    have some := receiving.length_le
    rw [receiving.getSpace] at full
    have none : sock.recvBufferSize - pending.length = 0 := by
      unfold intOf at full
      rw [Int.bmod_def] at full
      split at full <;> omega
    refine List.count_pos_iff.mp (Nat.pos_of_ne_zero ((room sized).resolve_left ?_))
    omega
  spent notFull := absurd rfl notFull

theorem readTrace_exhausted (results : List RecvResult) (watched : Watched (Roomy s) s w)
    (sized : ∀ sock, w.mgr.heap s = some sock → Sized sock) :
    Wp Anyhow (readTrace s results) (fun trace w' => Exhausted s trace w') w := by
  have robust := (roomy_reads s).toRobust
  induction results generalizing w with
  | nil =>
      unfold readTrace
      obtain absent | ⟨sock, present⟩ := Option.eq_none_or_eq_some (w.mgr.heap s)
      · rw [wp_bind]
        exact deref_absent robust watched absent
      · rw [wp_bind, wp_deref present]
        have full := watched.full present (sized sock present)
        generalize intOf sock.readBuffer.getSpace = space at full ⊢
        dsimp only
        split
        · next none => exact full none
        · exact .quiet (by decide) fun _ => trivial
  | cons result rest inductionHypothesis =>
      unfold readTrace
      obtain absent | ⟨sock, present⟩ := Option.eq_none_or_eq_some (w.mgr.heap s)
      · rw [wp_bind]
        exact deref_absent robust watched absent
      · rw [wp_bind, wp_deref present]
        have full := watched.full present (sized sock present)
        have room := transferLimit_intOf sock.readBuffer.getSpace
        have fewer : ∀ received, received ≤ transferLimit (intOf sock.readBuffer.getSpace) →
            (received : Int) ≠ intOf sock.readBuffer.getSpace →
            received < sizeOf (intOf sock.readBuffer.getSpace) := fun _ => lt_sizeOf
        generalize intOf sock.readBuffer.getSpace = space at full room fewer ⊢
        dsimp only
        split
        · next none => exact full none
        · next notNone =>
            cases result with
            | again => exact .quiet (by decide) fun _ => trivial
            | error => exact .quiet (by decide) fun known => absurd rfl known
            | bytes data =>
                have few := List.length_take_le (transferLimit space) data
                dsimp only
                generalize data.take (transferLimit space) = received at few ⊢
                split
                · next closed =>
                    refine (handlePeerClosed_keeps robust w watched).seq fun _ w₁ _ => ?_
                    refine .quiet (by decide) fun _ => fewer _ few ?_
                    rw [closed]
                    exact fun zero => notNone zero.symm
                · rw [wp_bind, wp_get]
                  refine (feedTrace_room watched present (few.trans room)).seq ?_
                  rintro frames w₁ ⟨readBuffer, read⟩
                  have still : ∀ now, w₁.mgr.heap s = some now → Sized now := by
                    intro now there
                    obtain ⟨_, same⟩ := read.same now there
                    rw [Sized, same]
                    exact sized sock present
                  have left : errorsOf s w₁.mgr.log = errorsOf s w.mgr.log →
                      ∀ now, w₁.mgr.heap s = some now → 0 < now.readBuffer.getSpace := by
                    intro quiet now there
                    exact (read.space (sized sock present) now there).resolve_right (by omega)
                  rw [wp_bind, wp_get]
                  split
                  · refine (inductionHypothesis read.roomy still).seq ?_
                    rintro trace w₂ ⟨space, full, spent⟩
                    refine ⟨?_, full, fun notFull clean => ?_⟩
                    · intro look inside
                      rcases List.mem_cons.mp inside with rfl | later
                      · exact left
                      · exact space look later
                    · obtain ⟨asked, answer, last, answered⟩ := spent notFull fun call inside =>
                        clean call (List.mem_cons_of_mem _ inside)
                      refine ⟨asked, answer, ?_, answered⟩
                      rw [List.getLast?_cons, last]
                      rfl
                  · next short =>
                    refine ⟨?_, by simp, fun _ _ => ⟨_, _, rfl, fewer _ few short⟩⟩
                    intro look inside
                    obtain rfl := List.mem_singleton.mp inside
                    exact left

/-! ## Every event -/

/-- The loop up to an event of `s`, in the last batch behind `handled` others. -/
def awaitEvent (startTime : UInt32) (batches : List (List Entry)) (entries : List Entry)
    (handled : Nat) (s : SockRef) : M Unit := do
  updateAll startTime (← get).mgr.socketMap
  batchLoop batches
  let reported ← epollWait entries
  processBatch (reported.take handled)
  modifyMgr fun m => { m with batch := m.batch.erase s }
  hold s

theorem awaitEvent_keeps {allowed : Fault → World → Prop} {I : World → Prop}
    (reads : Reads allowed I) (startTime : UInt32) (batches : List (List Entry))
    (entries : List Entry) (handled : Nat) :
    Keeps allowed I (awaitEvent startTime batches entries handled s) := by
  have robust := reads.toRobust
  unfold awaitEvent epollWait
  refine Keeps.get fun w => (updateAll_keeps robust startTime _).bind fun _ => ?_
  refine (batchLoop_keeps reads batches).bind fun _ => ?_
  rw [bind_assoc]
  refine Keeps.get fun w => ?_
  rw [bind_assoc]
  refine (modifyMgr_keeps robust (by intro _; rfl)).bind fun _ => ?_
  rw [pure_bind]
  refine (processBatch_keeps reads _).bind fun _ => ?_
  exact (modifyMgr_keeps robust (by intro _; rfl)).bind fun _ => hold_keeps robust

theorem reachable_roomy {w : World} (reached : system.Reachable w.mgr) (s : SockRef) :
    Watched (Roomy s) s w := by
  generalize same : w.mgr = m at reached
  induction reached generalizing w with
  | start initially =>
      rw [initially] at same
      refine ⟨fun _ => ⟨?_, fun _ _ _ _ _ => newSocket_roomy _ _ _ _ _ _⟩, fun sock present => ?_⟩
      · rw [same]
        rfl
      · rw [same] at present
        exact absurd present (by simp [Mgr.initial])
  | @next m _ step _ executed inductionHypothesis =>
      obtain ⟨returned, rfl⟩ := executed
      have start : Watched (Roomy s) s (step.start m) := inductionHypothesis rfl
      have ends := (exec_ends (roomy_reads s) step start).1 returned
      refine ⟨fun large => ?_, fun sock present => ?_⟩
      · rw [same] at large ⊢
        exact ends.unborn large
      · rw [same] at present ⊢
        exact ends.holds sock present

/-- In every run, whatever `recv` returns for an event of a connected socket whose
buffer is not too small: an `OnRead` that rejects no header leaves room, so that
the exit at `space == 0` is only taken once a header has been rejected; and
without a rejected header and an error, the last `recv` shows that nothing is left. -/
theorem handleReadComplete_drains {w₀ w' : World} (reached : system.Reachable w₀.mgr)
    {startTime : UInt32} {batches : List (List Entry)} {entries : List Entry} {handled : Nat}
    (awaited : awaitEvent startTime batches entries handled s w₀ = (.ok (), w))
    (present : w.mgr.heap s = some sock) (connected : sock.status = .connected)
    (sized : Sized sock) {results : List RecvResult}
    (returned : handleReadComplete s results w = (.ok (), w')) :
    ∃ trace, handleReadTrace s results w = (.ok (some trace), w') ∧
      (∀ look ∈ trace.looks, errorsOf s look.after.log = errorsOf s look.before.log →
        ∀ sock, look.after.heap s = some sock → 0 < sock.readBuffer.getSpace) ∧
      (trace.ending = .full → .packetError s ∈ w'.mgr.log) ∧
      (HasStatus s .connected w' → .packetError s ∉ w'.mgr.log →
        (∀ call ∈ trace.recvs, call.2 ≠ .error) →
        ∃ asked answer, trace.recvs.getLast? = some (asked, answer) ∧ answer.Spent asked) := by
  have reads := roomy_reads s
  have kept : Wp Anyhow (awaitEvent startTime batches entries handled s)
      (fun _ w => Watched (Roomy s) s w) w₀ :=
    awaitEvent_keeps reads _ _ _ _ w₀ (reachable_roomy reached s)
  have watched : Watched (Roomy s) s w := kept.ended awaited
  have traced : Wp Anyhow (handleReadTrace s results)
      (fun trace w' => ∃ run, trace = some run ∧ Exhausted s run w') w := by
    unfold handleReadTrace
    rw [wp_bind, wp_deref present, if_pos connected]
    have all : ∀ other, w.mgr.heap s = some other → Sized other := by
      intro other there
      obtain rfl := Option.some.inj (present.symm.trans there)
      exact sized
    refine (readTrace_exhausted results watched all).seq ?_
    rintro trace w₁ ⟨space, full, spent⟩
    dsimp only
    split
    · next left =>
      have notFull : trace.ending ≠ .full := by
        rw [left]
        decide
      refine (anyhow_keeps (fillAndPush s) w₁ trivial).seq fun _ w₂ _ => ?_
      exact ⟨trace, rfl, space, fun isFull => absurd isFull notFull, spent⟩
    · exact ⟨trace, rfl, space, full, spent⟩
  rw [handleReadComplete_eq] at returned
  obtain ⟨trace, ran⟩ := returned_of_discard returned
  obtain ⟨run, rfl, space, full, spent⟩ := traced.ended ran
  exact ⟨run, ran, space, full, fun _ never clean => spent (fun isFull => never (full isFull)) clean⟩

def visitorReadable : World := (awaitEvent 0 [] [] 0 0 (arrival.start visited)).2

theorem visited_reached : system.Reachable (arrival.start visited).mgr :=
  visited_reachable.of_restrict

theorem visitorReadable_sized : Sized ((visitorReadable.mgr.heap 0).get rfl) := by
  unfold Sized ReadSide.Sized
  decide

def recvsOf (ran : Except Fault (Option ReadTrace) × World) : Option (List (Nat × RecvAnswer)) :=
  ran.1.toOption.join.map ReadTrace.recvs

theorem handleReadComplete_drains_visitor :
    ∃ trace w', handleReadTrace 0 [.bytes [1, 0, 0, 0, 42]] visitorReadable =
        (.ok (some trace), w') ∧
      ∃ asked answer, trace.recvs.getLast? = some (asked, answer) ∧ answer.Spent asked := by
  have returned : handleReadComplete 0 [.bytes [1, 0, 0, 0, 42]] visitorReadable =
    (.ok (), (handleReadComplete 0 [.bytes [1, 0, 0, 0, 42]] visitorReadable).2) := rfl
  have awaited : awaitEvent 0 [] [] 0 0 (arrival.start visited) = (.ok (), visitorReadable) := rfl
  have asked : recvsOf (handleReadTrace 0 [.bytes [1, 0, 0, 0, 42]] visitorReadable) =
    some [(16, .bytes 5)] := by decide +kernel
  have silent : .packetError 0 ∉
    (handleReadComplete 0 [.bytes [1, 0, 0, 0, 42]] visitorReadable).2.mgr.log := by decide +kernel
  obtain ⟨trace, ran, _, _, spent⟩ := handleReadComplete_drains visited_reached awaited rfl rfl
    visitorReadable_sized returned
  rw [ran] at asked
  have recvs : trace.recvs = [(16, .bytes 5)] := Option.some.inj asked
  refine ⟨trace, _, ran, spent ⟨_, rfl, rfl⟩ silent ?_⟩
  rw [recvs]
  decide

/-- A full buffer that begins with a header of no legal length. -/
def stuffed : Bytes := List.replicate 16 0

/-- The loop leaves at `space == 0`, the socket is still connected, and the last
`recv` returned all it was asked for. -/
theorem stuffed_unread :
    ∃ (w₀ w w' : World) (sock : Socket) (trace : ReadTrace), system.Reachable w₀.mgr ∧
      awaitEvent 0 [] [] 0 0 w₀ = (.ok (), w) ∧ w.mgr.heap 0 = some sock ∧
      sock.status = .connected ∧ sock.socketType = .tcp ∧ Sized sock ∧
      handleReadTrace 0 [.bytes stuffed] w = (.ok (some trace), w') ∧
      HasStatus 0 .connected w' ∧ (∀ call ∈ trace.recvs, call.2 ≠ .error) ∧
      ¬∃ asked answer, trace.recvs.getLast? = some (asked, answer) ∧ answer.Spent asked := by
  have seen : recvsOf (handleReadTrace 0 [.bytes stuffed] visitorReadable) =
    some [(16, .bytes 16)] := by decide +kernel
  obtain ⟨trace, ran⟩ : ∃ trace, handleReadTrace 0 [.bytes stuffed] visitorReadable =
    (.ok (some trace), (handleReadTrace 0 [.bytes stuffed] visitorReadable).2) := ⟨_, rfl⟩
  rw [ran] at seen
  have recvs : trace.recvs = [(16, .bytes 16)] := Option.some.inj seen
  refine ⟨arrival.start visited, visitorReadable, _, _, trace, visited_reached, rfl, rfl, rfl, rfl,
    visitorReadable_sized, ran, ⟨_, rfl, rfl⟩, ?_⟩
  rw [recvs]
  refine ⟨by decide, ?_⟩
  rintro ⟨asked, answer, last, spent⟩
  obtain ⟨rfl, rfl⟩ := Prod.mk.inj (Option.some.inj last)
  exact absurd spent (Nat.lt_irrefl 16)

end Draining

end CrossOver.Engine.Network
