import CrossOver.Engine.Network.Datagrams
import CrossOver.Engine.Network.Draining

/-!
# Datagrams in the read buffer

An established UDP socket parses what lies in its read buffer, as a TCP socket
does.  What an `OnRead` hands to `ikcp_input` are therefore the frames of the
bytes that earlier datagrams have left there, followed by the new datagram.
-/

namespace CrossOver.Engine.Network

open CrossOver.Lib

/-- `recvbuffersize_ - 4` -/
def frameLimit (size : Nat) : Nat := (size + 2 ^ 32 - 4) % 2 ^ 32

/-- No `uint32` sum of `OnRead` exceeds its range on these bytes, which begin at `offset`. -/
def Unwrapped (limit offset : Nat) (stream : Bytes) : Prop :=
  ∀ bodies tail, (∀ body ∈ bodies, LegalLength limit body.length) →
    stream = frames 4 bodies ++ tail → offset + (frames 4 bodies).length + 4 < 2 ^ 32 ∧
      (4 < tail.length → LegalLength limit (leValue (tail.take 4)) →
        offset + (frames 4 bodies).length + 4 + leValue (tail.take 4) < 2 ^ 32)

/-- The frames of a datagram that is looked at by itself. -/
def Alone (size : Nat) (datagram : Bytes) (bodies : List Bytes) : Prop :=
  ∃ tail, Parses 4 (frameLimit size) datagram bodies tail

/-- A UDP socket whose peer is known; these sockets always parse packages. -/
structure Established (sock : Socket) : Prop where
  udp : sock.socketType = .udp
  joined : sock.isUdpConnected = true
  parsing : sock.isParsePackage = true

/-- An established socket between two datagrams. -/
structure Rests (sock : Socket) (size : Nat) (pending : Bytes) : Prop extends Established sock where
  total : sock.recvBufferSize = size
  receiving : sock.readBuffer.Receiving size pending

section Parsing

variable {size limit offset : Nat} {stream datagram : Bytes}

theorem frameLimit_wide (size : Nat) : frameLimit size < 256 ^ 4 := Nat.mod_lt _ (by decide)

theorem unwrapped_of_small (small : size ≤ 2 ^ 31 + 2) (fits : stream.length ≤ size) :
    Unwrapped (frameLimit size) 0 stream := by
  intro bodies tail _ split
  have length := congrArg List.length split
  rw [List.length_append] at length
  refine ⟨by omega, fun more legal => ?_⟩
  have bounded := legal.2
  unfold frameLimit at bounded
  omega

theorem Unwrapped.next {body : Bytes} (unwrapped : Unwrapped limit offset (frame 4 body ++ stream))
    (legal : LegalLength limit body.length) :
    Unwrapped limit (offset + 4 + body.length) stream := by
  intro bodies tail legalRest split
  have whole := unwrapped (body :: bodies) tail
    (by
      intro other inside
      rcases List.mem_cons.mp inside with rfl | later
      · exact legal
      · exact legalRest other later)
    (by rw [split, frames_cons, List.append_assoc])
  rw [frames_cons, List.length_append, frame_length] at whole
  obtain ⟨start, stop⟩ := whole
  exact ⟨by omega, fun more legalHeader => by have := stop more legalHeader; omega⟩

end Parsing

/-! ## What `OnRead` hands on -/

section Reading

variable {s : SockRef} {side : ReadSide} {errors : Nat} {sock : Socket} {w : World}
  {pending : Bytes}

theorem onFrameTrace_frames (udp : side.socketType = .udp) (packetLen cursor len : Nat)
    (watched : Watched (Frozen s side true errors) s w) :
    Wp Anyhow (Socket.onFrameTrace s packetLen cursor len) (fun bodies w' =>
      bodies = [(side.readBuffer.buffer.drop (cursor + 4)).take len] ∧
        Watched (Frozen s side true errors) s w') w := by
  have robust := watched_robust (s := s) (frozen_readOnly s side true errors)
  unfold Socket.onFrameTrace
  obtain absent | ⟨sock, present⟩ := Option.eq_none_or_eq_some (w.mgr.heap s)
  · rw [wp_bind]
    exact deref_absent robust watched absent
  · rw [wp_bind, wp_deref present]
    have frozen := watched.holds sock present
    have kind : sock.socketType = .udp := (congrArg ReadSide.socketType frozen.same).trans udp
    have buffer : sock.readBuffer = side.readBuffer := congrArg ReadSide.readBuffer frozen.same
    refine (onFrame_keeps robust _ _ _ w watched).seq fun _ w₁ watched₁ => ?_
    simp only [kind, frozen.joined rfl, buffer, if_true, wp_pure]
    exact ⟨trivial, watched₁⟩

/-- The loop takes the complete frames and stops in front of the tail. -/
theorem onReadLoopTrace_parses
    (receiving : side.readBuffer.Receiving side.recvBufferSize pending)
    (udp : side.socketType = .udp) (turns : Nat) {cursor : Nat} (inside : cursor ≤ pending.length)
    (unwrapped : Unwrapped (frameLimit side.recvBufferSize) cursor (pending.drop cursor))
    (watched : Watched (Frozen s side true errors) s w) :
    Wp Anyhow (Socket.onReadLoopTrace s pending.length turns cursor) (fun ended w' =>
      ended.2 ≤ pending.length ∧ Watched (Frozen s side true errors) s w' ∧
        Parses 4 (frameLimit side.recvBufferSize) (pending.drop cursor) ended.1
          (pending.drop ended.2)) w := by
  have robust := watched_robust (s := s) (frozen_readOnly s side true errors)
  have wide := frameLimit_wide side.recvBufferSize
  induction turns generalizing cursor w with
  | zero => exact trivial
  | succ turns inductionHypothesis =>
      have rest : (pending.drop cursor).length = pending.length - cursor := List.length_drop
      obtain ⟨low, high⟩ := unwrapped [] (pending.drop cursor) (by simp) rfl
      rw [show frames 4 [] = [] from rfl, List.length_nil, Nat.add_zero] at low high
      unfold Socket.onReadLoopTrace
      rw [wp_bind, wp_addUInt32 low]
      by_cases more : pending.length > cursor + 4
      · rw [if_pos more]
        obtain absent | ⟨sock, present⟩ := Option.eq_none_or_eq_some (w.mgr.heap s)
        · rw [wp_bind]
          exact deref_absent robust watched absent
        · rw [wp_bind, wp_deref present]
          have same := (watched.holds sock present).same
          have buffer : sock.readBuffer = side.readBuffer := congrArg ReadSide.readBuffer same
          have size : sock.recvBufferSize = side.recvBufferSize :=
            congrArg ReadSide.recvBufferSize same
          dsimp only
          rw [buffer, size, receiving.slice (by omega),
            show (side.recvBufferSize + 2 ^ 32 - 4) % 2 ^ 32 = frameLimit side.recvBufferSize from rfl]
          generalize header : leValue ((pending.drop cursor).take 4) = len at high ⊢
          by_cases legal : 0 < len ∧ len ≤ frameLimit side.recvBufferSize
          · rw [if_pos legal, wp_bind, wp_addUInt32 (high (by omega) legal)]
            by_cases complete : pending.length ≥ cursor + 4 + len
            · rw [if_pos complete]
              have front := frame_take_drop header (by rw [rest]; omega)
              rw [List.drop_drop, List.drop_drop, ← Nat.add_assoc] at front
              have long : ((pending.drop (cursor + 4)).take len).length = len := by
                rw [List.length_take, List.length_drop]
                omega
              have legalBody : LegalLength (frameLimit side.recvBufferSize)
                  ((pending.drop (cursor + 4)).take len).length := by
                rw [long]
                exact legal
              have behind := (front.symm ▸ unwrapped).next legalBody
              rw [long] at behind
              refine (onFrameTrace_frames udp _ _ _ watched).seq ?_
              rintro bodies w₁ ⟨rfl, watched₁⟩
              refine (inductionHypothesis complete behind watched₁).seq ?_
              rintro ended w₂ ⟨bound, watched₂, parses⟩
              refine ⟨bound, watched₂, ?_⟩
              rw [receiving.slice (by omega), ← front]
              exact .next legalBody parses
            · rw [if_neg complete]
              exact ⟨inside, watched, .incomplete wide (by rw [rest, header]; omega)⟩
          · rw [if_neg legal, wp_bind, wp_record]
            have rejected : Watched (Frozen s side true errors) s
                (w.withMgr (w.mgr.record (.packetError s))) :=
              robust.record w _ rfl rfl watched
            refine (disconnect_keeps robust _ _ rejected).seq fun _ w₁ watched₁ => ?_
            refine ⟨inside, watched₁, .bad wide ⟨by rw [rest]; omega, ?_⟩⟩
            rw [header]
            exact legal
      · rw [if_neg more]
        exact ⟨inside, watched, .short (by rw [rest]; omega)⟩

theorem onReadTrace_parses (receiving : side.readBuffer.Receiving side.recvBufferSize pending)
    (udp : side.socketType = .udp) (parsing : side.isParsePackage = true)
    (unwrapped : Unwrapped (frameLimit side.recvBufferSize) 0 pending)
    (watched : Watched (Frozen s side true errors) s w) :
    Wp Anyhow (Socket.onReadTrace s) (fun bodies w' =>
      ∃ tail, Parses 4 (frameLimit side.recvBufferSize) pending bodies tail ∧
        ∀ after, w'.mgr.heap s = some after → Rests after side.recvBufferSize tail) w := by
  have robust := watched_robust (s := s) (frozen_readOnly s side true errors)
  unfold Socket.onReadTrace
  obtain absent | ⟨sock, present⟩ := Option.eq_none_or_eq_some (w.mgr.heap s)
  · rw [wp_bind]
    exact deref_absent robust watched absent
  · rw [wp_bind, wp_deref present]
    have same := (watched.holds sock present).same
    have parse : sock.isParsePackage = true := (congrArg ReadSide.isParsePackage same).trans parsing
    have buffer : sock.readBuffer = side.readBuffer := congrArg ReadSide.readBuffer same
    generalize Socket.cursorCount + 1 = turns
    dsimp only
    rw [if_pos parse, buffer, SequenceBuffer.getSize, receiving.len]
    refine (onReadLoopTrace_parses receiving udp turns (Nat.zero_le _)
      (by rwa [List.drop_zero]) watched).seq ?_
    rintro ended w₁ ⟨inside, watched₁, parses⟩
    rw [List.drop_zero] at parses
    obtain absent | ⟨now, there⟩ := Option.eq_none_or_eq_some (w₁.mgr.heap s)
    · split
      · unfold updateSocket
        rw [wp_bind, wp_bind]
        exact deref_absent robust watched₁ absent
      · refine ⟨_, parses, fun after left => ?_⟩
        rw [absent] at left
        exact absurd left (by simp)
    · obtain ⟨same₁, joined, _⟩ := watched₁.holds now there
      have held : now.readBuffer = side.readBuffer := congrArg ReadSide.readBuffer same₁
      have established : Established now :=
        ⟨(congrArg ReadSide.socketType same₁).trans udp, joined rfl,
          (congrArg ReadSide.isParsePackage same₁).trans parsing⟩
      have size : now.recvBufferSize = side.recvBufferSize :=
        congrArg ReadSide.recvBufferSize same₁
      split
      · rw [wp_bind, wp_updateSocket there]
        refine ⟨_, parses, fun after left => ?_⟩
        have changed : { now with readBuffer := now.readBuffer.remove ended.2 } = after := by
          simpa [Mgr.setSocket] using left
        rw [← changed, held]
        exact ⟨⟨established.udp, established.joined, established.parsing⟩, size,
          receiving.remove inside⟩
      · next unmoved =>
        refine ⟨_, parses, fun after left => ?_⟩
        obtain rfl := Option.some.inj (there.symm.trans left)
        refine ⟨established, size, ?_⟩
        rw [Decidable.not_not.mp unmoved, List.drop_zero, held]
        exact receiving

/-- One datagram behind what is pending. -/
theorem feedTrace_parses (watched : Watched (Roomy s) s w) (present : w.mgr.heap s = some sock)
    (established : Established sock)
    (receiving : sock.readBuffer.Receiving sock.recvBufferSize pending) {chunk : Bytes}
    (room : chunk.length ≤ sock.readBuffer.getSpace)
    (unwrapped : Unwrapped (frameLimit sock.recvBufferSize) 0 (pending ++ chunk)) :
    Wp Anyhow (Socket.feedTrace s chunk) (fun bodies w' =>
      ∃ tail, Parses 4 (frameLimit sock.recvBufferSize) (pending ++ chunk) bodies tail ∧
        ∀ after, w'.mgr.heap s = some after → Rests after sock.recvBufferSize tail) w := by
  have extended := receiving.append room
  unfold Socket.feedTrace
  rw [wp_bind, wp_updateSocket present]
  have frozen : Watched (Frozen s (Socket.readSide { sock with
      readBuffer := (sock.readBuffer.storeAtBuffer chunk).incrementWritten chunk.length })
      true (errorsOf s w.mgr.log)) s (w.withMgr (w.mgr.setSocket s { sock with
        readBuffer := (sock.readBuffer.storeAtBuffer chunk).incrementWritten chunk.length })) :=
    watched.store present ⟨rfl, fun _ => established.joined, le_rfl⟩
  refine (onReadTrace_parses (by exact extended) (by exact established.udp)
    (by exact established.parsing) (by exact unwrapped) frozen).mono ?_
  rintro bodies w₁ ⟨tail, parses, left⟩
  exact ⟨tail, parses, left⟩

/-- What an `OnRead` makes of a datagram. -/
structure Parsed (s : SockRef) (look : Look) : Prop where
  received : ∀ sock, look.before.heap s = some sock →
    look.received = look.data.take (transferLimit (intOf sock.readBuffer.getSpace))
  receiving : ∀ sock, look.before.heap s = some sock → sock.recvBufferSize < 2 ^ 32 ∧
    ∃ pending, sock.readBuffer.Receiving sock.recvBufferSize pending
  parses : ∀ sock pending, look.before.heap s = some sock → Established sock →
    sock.readBuffer.Receiving sock.recvBufferSize pending →
    Unwrapped (frameLimit sock.recvBufferSize) 0 (pending ++ look.received) →
    ∃ tail, Parses 4 (frameLimit sock.recvBufferSize) (pending ++ look.received) look.frames tail ∧
      ∀ after, look.after.heap s = some after → Rests after sock.recvBufferSize tail

theorem feedTrace_parsed (watched : Watched (Roomy s) s w) (present : w.mgr.heap s = some sock)
    (data : Bytes) :
    Wp Anyhow (Socket.feedTrace s (data.take (transferLimit (intOf sock.readBuffer.getSpace))))
      (fun bodies w' => Watched (Roomy s) s w' ∧
        Parsed s ⟨data, data.take (transferLimit (intOf sock.readBuffer.getSpace)), w.mgr, w'.mgr,
          bodies⟩) w := by
  have room := (List.length_take_le (transferLimit (intOf sock.readBuffer.getSpace)) data).trans
    (transferLimit_intOf sock.readBuffer.getSpace)
  obtain ⟨small, pending, receiving, _⟩ := watched.holds sock present
  generalize chunkIs : data.take (transferLimit (intOf sock.readBuffer.getSpace)) = chunk at room ⊢
  have here : ∀ now, w.mgr.heap s = some now → sock = now := fun now there =>
    Option.some.inj (present.symm.trans there)
  have kept : Wp Anyhow (Socket.feedTrace s chunk) (fun _ w' => Watched (Roomy s) s w') w :=
    (feedTrace_room watched present room).mono fun _ _ ⟨_, read⟩ => read.roomy
  by_cases known : Established sock ∧ Unwrapped (frameLimit sock.recvBufferSize) 0 (pending ++ chunk)
  · obtain ⟨established, unwrapped⟩ := known
    refine (kept.and (feedTrace_parses watched present established receiving room unwrapped)).mono ?_
    rintro bodies w₁ ⟨watched₁, parses⟩
    refine ⟨watched₁, ?_, ?_, ?_⟩
    · intro now there
      rw [← here now there]
      exact chunkIs.symm
    · intro now there
      rw [← here now there]
      exact ⟨small, pending, receiving⟩
    · intro now other there _ holding _
      rw [← here now there] at holding ⊢
      rw [← holding.content, receiving.content]
      exact parses
  · refine kept.mono fun bodies w₁ watched₁ => ⟨watched₁, ?_, ?_, ?_⟩
    · intro now there
      rw [← here now there]
      exact chunkIs.symm
    · intro now there
      rw [← here now there]
      exact ⟨small, pending, receiving⟩
    · intro now other there established holding unwrapped
      rw [← here now there] at established holding unwrapped
      rw [← holding.content, receiving.content] at unwrapped
      exact absurd ⟨established, unwrapped⟩ known

theorem readTrace_parsed (results : List RecvResult) (watched : Watched (Roomy s) s w) :
    Wp Anyhow (readTrace s results) (fun trace _ => ∀ look ∈ trace.looks, Parsed s look) w := by
  have robust := (roomy_reads s).toRobust
  have quiet : ∀ (recvs : List (Nat × RecvAnswer)) (ending : ReadEnd),
      ∀ look ∈ (⟨recvs, [], ending⟩ : ReadTrace).looks, Parsed s look := fun _ _ _ inside =>
    absurd inside List.not_mem_nil
  induction results generalizing w with
  | nil =>
      unfold readTrace
      obtain absent | ⟨sock, present⟩ := Option.eq_none_or_eq_some (w.mgr.heap s)
      · rw [wp_bind]
        exact deref_absent robust watched absent
      · rw [wp_bind, wp_deref present]
        generalize intOf sock.readBuffer.getSpace = space
        dsimp only
        split
        · exact quiet _ _
        · exact quiet _ _
  | cons result rest inductionHypothesis =>
      unfold readTrace
      obtain absent | ⟨sock, present⟩ := Option.eq_none_or_eq_some (w.mgr.heap s)
      · rw [wp_bind]
        exact deref_absent robust watched absent
      · rw [wp_bind, wp_deref present]
        have parsed := fun data => feedTrace_parsed watched present data
        generalize intOf sock.readBuffer.getSpace = space at parsed ⊢
        dsimp only
        split
        · exact quiet _ _
        · cases result with
          | again => exact quiet _ _
          | error => exact quiet _ _
          | bytes data =>
              specialize parsed data
              dsimp only
              generalize data.take (transferLimit space) = received at parsed ⊢
              split
              · exact (handlePeerClosed_keeps robust w watched).seq fun _ _ _ => quiet _ _
              · rw [wp_bind, wp_get]
                refine parsed.seq ?_
                rintro bodies w₁ ⟨watched₁, look⟩
                rw [wp_bind, wp_get]
                split
                · refine (inductionHypothesis watched₁).seq fun trace w₂ later => ?_
                  exact List.forall_mem_cons.mpr ⟨look, later⟩
                · exact List.forall_mem_singleton.mpr look

/-- In every run, whatever datagrams `recv` returns for an event of a socket: a
datagram for which an established socket has nothing left in its read buffer, and
on which no `uint32` sum exceeds its range, is handed on frame by frame as if it
had come alone, and what is then left is the rest of this datagram. -/
theorem handleReadComplete_separates {w₀ w' : World} (reached : system.Reachable w₀.mgr)
    {startTime : UInt32} {batches : List (List Entry)} {entries : List Entry} {handled : Nat}
    (awaited : awaitEvent startTime batches entries handled s w₀ = (.ok (), w))
    (present : w.mgr.heap s = some sock) (connected : sock.status = .connected)
    {results : List RecvResult} (returned : handleReadComplete s results w = (.ok (), w')) :
    ∃ trace, handleReadTrace s results w = (.ok (some trace), w') ∧
      ∀ look ∈ trace.looks, ∀ sock, look.before.heap s = some sock → Established sock →
        sock.readBuffer.getSize = 0 → look.data.length ≤ sock.recvBufferSize →
        look.data.length < 2 ^ 16 →
        Unwrapped (frameLimit sock.recvBufferSize) 0 look.data →
        look.received = look.data ∧ Alone sock.recvBufferSize look.data look.frames ∧
          ∃ tail, look.data = frames 4 look.frames ++ tail ∧
            ∀ after, look.after.heap s = some after → after.readBuffer.content = tail := by
  have kept : Wp Anyhow (awaitEvent startTime batches entries handled s)
      (fun _ w => Watched (Roomy s) s w) w₀ :=
    awaitEvent_keeps (roomy_reads s) _ _ _ _ w₀ (reachable_roomy reached s)
  have watched : Watched (Roomy s) s w := kept.ended awaited
  have traced : Wp Anyhow (handleReadTrace s results)
      (fun trace _ => ∃ run, trace = some run ∧ ∀ look ∈ run.looks, Parsed s look) w := by
    unfold handleReadTrace
    rw [wp_bind, wp_deref present, if_pos connected]
    refine (readTrace_parsed results watched).seq fun trace w₁ parsed => ?_
    dsimp only
    split
    · exact (anyhow_keeps (fillAndPush s) w₁ trivial).seq fun _ w₂ _ => ⟨trace, rfl, parsed⟩
    · exact ⟨trace, rfl, parsed⟩
  rw [handleReadComplete_eq] at returned
  obtain ⟨trace, ran⟩ := returned_of_discard returned
  obtain ⟨run, rfl, parsed⟩ := traced.ended ran
  refine ⟨run, ran, fun look inside now there established empty fits short unwrapped => ?_⟩
  obtain ⟨received, receiving, parses⟩ := parsed look inside
  obtain ⟨small, pending, receiving⟩ := receiving now there
  have nothing : pending = [] := by
    rw [SequenceBuffer.getSize, receiving.len] at empty
    exact List.length_eq_zero_iff.mp empty
  subst nothing
  -- all of the datagram fits into the empty buffer
  have whole : look.received = look.data := by
    have space := receiving.getSpace
    rw [List.length_nil, Nat.sub_zero] at space
    rw [received now there, space]
    refine List.take_of_length_le ?_
    unfold transferLimit intOf
    rw [Int.bmod_def]
    split <;> omega
  rw [whole] at parses
  obtain ⟨tail, parsed, left⟩ := parses now [] there established receiving unwrapped
  refine ⟨whole, ⟨tail, parsed⟩, tail, parsed.split.1, fun after still => ?_⟩
  exact (left after still).receiving.content

/-- The loop up to an event of the admitted peer, behind a datagram `earlier` if there is one. -/
def peerReadable (earlier : List Bytes) : World :=
  (awaitEvent 0 (earlier.map fun datagram => [.socket 0 { epollIn := true } [.bytes datagram] []])
    [] 0 0 (chat.start admitted)).2

/-- Nothing is left of what came before. -/
def Look.fresh (s : SockRef) (look : Look) : Bool :=
  match look.before.heap s with
  | some sock => decide (sock.socketType = .udp ∧ sock.isUdpConnected = true ∧
      sock.isParsePackage = true ∧ sock.recvBufferSize = 16 ∧ sock.readBuffer.getSize = 0)
  | none => false

/-- What a run made of its datagrams. -/
def looksOf (s : SockRef) (ran : Except Fault (Option ReadTrace) × World) :
    Option (List (Bool × Bytes × List Bytes)) :=
  ran.1.toOption.join.map fun trace =>
    trace.looks.map fun look => (look.fresh s, look.data, look.frames)

theorem handleReadComplete_separates_peer :
    ∃ trace w', handleReadTrace 0 [.bytes [1, 0, 0, 0, 42]] (peerReadable []) =
        (.ok (some trace), w') ∧
      ∀ look ∈ trace.looks, look.received = look.data ∧ Alone 16 look.data look.frames := by
  have returned : handleReadComplete 0 [.bytes [1, 0, 0, 0, 42]] (peerReadable []) =
    (.ok (), (handleReadComplete 0 [.bytes [1, 0, 0, 0, 42]] (peerReadable [])).2) := rfl
  have seen : looksOf 0 (handleReadTrace 0 [.bytes [1, 0, 0, 0, 42]] (peerReadable [])) =
    some [(true, [1, 0, 0, 0, 42], [[42]])] := by decide +kernel
  have reached : system.Reachable (chat.start admitted).mgr := admitted_reachable
  have awaited : awaitEvent 0 [] [] 0 0 (chat.start admitted) = (.ok (), peerReadable []) := rfl
  obtain ⟨trace, ran, separate⟩ := handleReadComplete_separates reached awaited rfl rfl returned
  rw [ran] at seen
  refine ⟨trace, _, ran, fun look inside => ?_⟩
  have shown : (look.fresh 0, look.data, look.frames) ∈ [(true, [1, 0, 0, 0, 42], [[42]])] := by
    rw [← Option.some.inj seen]
    exact List.mem_map_of_mem inside
  obtain ⟨fresh, others⟩ := Prod.mk.inj (List.mem_singleton.mp shown)
  obtain ⟨data, _⟩ := Prod.mk.inj others
  unfold Look.fresh at fresh
  split at fresh
  · next now there =>
    obtain ⟨udp, joined, parsing, size, empty⟩ := of_decide_eq_true fresh
    have small : look.data.length ≤ 5 := by rw [data]; decide
    have alone := separate look inside now there ⟨udp, joined, parsing⟩ empty (by omega) (by omega)
      (unwrapped_of_small (by omega) (by omega))
    rw [size] at alone
    exact ⟨alone.1, alone.2.1⟩
  · exact absurd fresh (by decide)

/-- The same whole datagram is handed on by itself, and shifted behind a truncated
one that leaves the socket connected. -/
theorem peer_shifted :
    ∃ (w₀ w w' : World) (sock : Socket), system.Reachable w₀.mgr ∧
      awaitEvent 0 [] [] 0 0 w₀ = (.ok (), w) ∧
      awaitEvent 0 [[.socket 0 { epollIn := true } [.bytes [1, 0, 0, 0]] []]] [] 0 0 w₀ =
        (.ok (), w') ∧
      w'.mgr.heap 0 = some sock ∧ sock.status = .connected ∧ Established sock ∧
      Alone sock.recvBufferSize [1, 0, 0, 0, 42] [[42]] ∧
      looksOf 0 (handleReadTrace 0 [.bytes [1, 0, 0, 0, 42]] w) =
        some [(true, [1, 0, 0, 0, 42], [[42]])] ∧
      looksOf 0 (handleReadTrace 0 [.bytes [1, 0, 0, 0, 42]] w') =
        some [(false, [1, 0, 0, 0, 42], [[1]])] ∧
      HasStatus 0 .connected (handleReadTrace 0 [.bytes [1, 0, 0, 0, 42]] w').2 := by
  refine ⟨chat.start admitted, peerReadable [], peerReadable [[1, 0, 0, 0]], _,
    admitted_reachable, rfl, rfl, rfl, rfl, ⟨rfl, rfl, rfl⟩, ⟨[], ?_⟩, by decide +kernel,
    by decide +kernel, ⟨_, rfl, rfl⟩⟩
  have legal : LegalLength (frameLimit 16) ([42] : Bytes).length := ⟨by decide, by decide⟩
  exact Parses.next legal (.short (show ([] : Bytes).length ≤ 4 by decide))

end Reading

end CrossOver.Engine.Network
