import CrossOver.Engine.Network.Flow
import CrossOver.Engine.Network.Reading

/-!
# From `SendMsg` to `OnRead`

The two ends of a TCP connection that parses packages.  `SendMsg` frames
whatever it is given; `OnRead` on the other end refuses a length of zero and
one that its buffer has no room for.  What the sender accepts is delivered
exactly when every message keeps to the lengths of the receiver.
-/

namespace CrossOver.Engine

open CrossOver.Lib

theorem SequenceBuffer.writeMsg_true (b : SequenceBuffer) (head body : Bytes) :
    (b.writeMsg head body).1 = true := by
  unfold SequenceBuffer.writeMsg
  dsimp only
  split
  · split <;> rfl
  · rfl

namespace Network

/-- `SocketMgr::SendMsg` for one message after the other, as long as it returns true. -/
def sendAll (connIdx : Nat) : List Message → M Bool
  | [] => pure true
  | message :: rest => do
      if ← sendMsg connIdx message.data then sendAll connIdx rest
      else pure false

def bodiesOf (messages : List Message) : List Bytes := messages.map Message.data

structure Connection (connIdx : Nat) (c : SockRef) (w : World) : Prop where
  found : w.mgr.find connIdx = some c
  sock : ∃ sock, w.mgr.heap c = some sock ∧ sock.socketType = .tcp

/-- What `SendMsg` accepts at one end of a connection is received at the other,
whose buffer has the same size. -/
def Delivers (size : UInt32) (messages : List Message) : Prop :=
  ∀ (connIdx : Nat) (c : SockRef) (w w' : World), Connection connIdx c w →
    sendAll connIdx messages w = (.ok true, w') →
    ∀ (s : SockRef) (sock : Socket) (w₀ w₁ : World) (chunks : List Bytes),
      Opened s sock w₀ → sock.recvBufferSize = size.toNat → Reading s w₀ chunks w₁ →
      w.mgr.queuedBytes c ++ chunks.flatten <+: w'.mgr.queuedBytes c →
      w₁.mgr.packetErrors s = 0 ∧
        (w.mgr.queuedBytes c ++ chunks.flatten = w'.mgr.queuedBytes c →
          w₁.mgr.delivered s = bodiesOf messages)

/-! ## The sending end -/

section Sending

variable {allowed : Fault → World → Prop} {connIdx : Nat} {c : SockRef} {w : World}

theorem queuedBytes_record (m : Mgr) (s : SockRef) (status : SocketStatus) (frame : Bytes) :
    (m.record (.queued s status frame)).queuedBytes s = m.queuedBytes s ++ frame := by
  simp [Mgr.queuedBytes, Mgr.logOf, Mgr.record, LogEntry.subject, LogEntry.queuedBytes]

/-- A connection takes every message. -/
theorem sendMsg_accepts (connection : Connection connIdx c w) (content : Bytes) :
    Wp allowed (sendMsg connIdx content) (fun ret w' => ret = true ∧ Connection connIdx c w' ∧
      w'.mgr.queuedBytes c = w.mgr.queuedBytes c ++ frame 4 content) w := by
  obtain ⟨found, sock, present, tcp⟩ := connection
  have counted := local_setSocket w.mgr c { sock with count := sock.count + 1 }
  have accepted := SequenceBuffer.writeMsg_true sock.writeBuffer (leBytes 4 content.length) content
  have written := local_setSocket (w.mgr.setSocket c { sock with count := sock.count + 1 }) c
    { sock with
      count := sock.count + 1
      writeBuffer := (sock.writeBuffer.writeMsg (leBytes 4 content.length) content).2 }
  unfold sendMsg sendThrough
  rw [wp_bind, wp_get, found]
  simp only [refAdd, Socket.sendMsg, Socket.queueFrame]
  rw [wp_bind, wp_updateSocket present, wp_bind, wp_bind, wp_deref counted.heap]
  split
  · rw [wp_bind, wp_deref counted.heap, wp_bind, wp_updateSocket counted.heap, wp_bind, wp_record]
    simp only [accepted, if_true, wp_bind, wp_modifyMgr, wp_pure, Bool.not_true, Bool.false_eq_true,
      if_false, true_and]
    refine ⟨⟨found, _, written.heap, tcp⟩, ?_⟩
    exact queuedBytes_record _ c sock.status _
  · next udp => exact absurd (tcp.symm.trans udp) (by simp)

theorem sendAll_accepts (connection : Connection connIdx c w) (messages : List Message) :
    Wp allowed (sendAll connIdx messages) (fun ret w' => ret = true ∧
      w'.mgr.queuedBytes c = w.mgr.queuedBytes c ++ frames 4 (bodiesOf messages)) w := by
  induction messages generalizing w with
  | nil => exact ⟨rfl, (List.append_nil _).symm⟩
  | cons message rest inductionHypothesis =>
      refine (sendMsg_accepts connection message.data).seq ?_
      rintro _ w₁ ⟨rfl, still, first⟩
      refine (inductionHypothesis still).mono ?_
      rintro _ w₂ ⟨rfl, later⟩
      refine ⟨rfl, ?_⟩
      rw [later, first, List.append_assoc]
      rfl

theorem sendAll_queued (connection : Connection connIdx c w) {messages : List Message}
    {w' : World} (ran : sendAll connIdx messages w = (.ok true, w')) :
    w'.mgr.queuedBytes c = w.mgr.queuedBytes c ++ frames 4 (bodiesOf messages) := by
  have spec : Wp (fun _ _ => True) (sendAll connIdx messages) _ w :=
    sendAll_accepts connection messages
  simp only [Wp, ran] at spec
  exact spec.2

end Sending

/-! ## Messages that the receiver takes -/

/-- The length is one that `OnRead` admits, and no sum of it exceeds a `uint32`. -/
def Message.Admissible (size : UInt32) (message : Message) : Prop :=
  LegalLength (size.toNat - 4) message.data.length ∧
    size.toNat + message.data.length ≤ 2 ^ 32

theorem tame_frames {size : UInt32} {messages : List Message} (smallest : 5 ≤ size.toNat)
    (admissible : ∀ message ∈ messages, message.Admissible size) :
    Tame size.toNat (frames 4 (bodiesOf messages)) := by
  have wide : size.toNat - 4 < 256 ^ 4 := by
    have bound := size.toNat_lt
    omega
  have legal : ∀ body ∈ bodiesOf messages, LegalLength (size.toNat - 4) body.length := by
    intro body membership
    obtain ⟨message, inside, rfl⟩ := List.mem_map.mp membership
    exact (admissible message inside).1
  intro bodies tail legalFront split long _
  obtain ⟨rest, messagesEq, rfl⟩ := frames_split wide legal legalFront split.symm
  cases rest with
  | nil => exact absurd long (by decide)
  | cons body later =>
      have inside : body ∈ bodiesOf messages := by
        rw [messagesEq]
        simp
      obtain ⟨message, isMessage, rfl⟩ := List.mem_map.mp inside
      rw [frames_cons, leValue_frame wide _ (legal _ inside)]
      exact (admissible message isMessage).2

theorem delivers_of_admissible {size : UInt32} (smallest : 5 ≤ size.toNat)
    (largest : size.toNat + 5 ≤ 2 ^ 32) {messages : List Message}
    (admissible : ∀ message ∈ messages, message.Admissible size) : Delivers size messages := by
  intro connIdx c w w' connection ran s sock w₀ w₁ chunks opened sized reading arrived
  rw [sendAll_queued connection ran] at arrived ⊢
  obtain ⟨more, cut⟩ := List.prefix_append_right_inj _ |>.mp arrived
  rw [← sized] at smallest largest
  have tame : Tame sock.recvBufferSize chunks.flatten := by
    have whole := tame_frames (by rwa [sized] at smallest) admissible
    rw [← cut, ← sized] at whole
    exact whole.front
  have legal : ∀ body ∈ bodiesOf messages, LegalLength (sock.recvBufferSize - 4) body.length := by
    intro body membership
    obtain ⟨message, inside, rfl⟩ := List.mem_map.mp membership
    rw [sized]
    exact (admissible message inside).1
  obtain ⟨bodies, tail, tells, _⟩ := reading.tells opened smallest largest tame
  obtain ⟨fine, whole⟩ := tells.parses.of_frames (by omega) legal (by decide) cut
  refine ⟨tells.fine fine, ?_⟩
  intro complete
  rw [tells.delivered]
  apply whole
  have lengths := congrArg List.length (List.append_cancel_left complete)
  rw [← cut, List.length_append] at lengths
  exact List.eq_nil_of_length_eq_zero (by omega)

/-! ## Messages that the receiver refuses -/

/-- The settings of both ends. -/
def alike (size : UInt32) : Config where
  onconnectedHandler := { funId := 1 }
  oncloseHandler := { funId := 2 }
  onrecvHandler := { funId := 3 }
  sendBufferSize := size
  recvBufferSize := size

/-- A peer connects. -/
def hosting (size : UInt32) : Step where
  op := .eventLoop 0 [[.listenTcp (alike size) (some 7)]]
  scripts := []
  epollResults := []
  udpConnects := []

def hosted (size : UInt32) : World :=
  (hosting size).start ((hosting size).exec Mgr.initial).2.mgr

theorem hosted_sane (size : UInt32) : Sane (hosted size) := by
  have tcp : (hosting size).Tcp := by simp [Step.Tcp, Op.Tcp, hosting, Entry.Tcp]
  have reached : tcpSystem.Reachable ((hosting size).exec Mgr.initial).2.mgr :=
    .next (.start rfl) ⟨tcp, rfl, rfl⟩
  exact (reached_idle reached tcp).sane

theorem hosted_opened (size : UInt32) :
    ∃ sock, Opened 0 sock (hosted size) ∧ sock.recvBufferSize = size.toNat :=
  ⟨_, ⟨hosted_sane size, rfl, rfl, rfl, rfl, rfl⟩, rfl⟩

theorem hosted_connection (size : UInt32) : Connection 1 0 (hosted size) :=
  ⟨rfl, _, rfl, rfl⟩

/-- The beginning of a message whose length is refused, fed to a fresh connection. -/
theorem refused_reading {size : UInt32} (smallest : 5 ≤ size.toNat) {message : Message}
    (illegal : ¬ LegalLength (size.toNat - 4) message.data.length) {chunk rest : Bytes}
    (front : frame 4 message.data = chunk ++ rest) (long : 4 ≤ chunk.length)
    (room : chunk.length ≤ size.toNat) :
    ∃ w₁, Reading 0 (hosted size) [chunk] w₁ ∧ w₁.mgr.delivered 0 = [] ∧
      (4 < chunk.length → w₁.mgr.packetErrors 0 = 1) := by
  obtain ⟨sock, opened, sized⟩ := hosted_opened size
  have holds := opened.holds
  rw [sized] at holds
  have bound := size.toNat_lt
  have header : leValue (chunk.take 4) = message.data.length := by
    have short := message.short
    have taken : chunk.take 4 = (frame 4 message.data).take 4 := by
      rw [front, List.take_append_of_le_length long]
    rw [taken, frame, List.take_left' (by simp), leValue_leBytes (by omega)]
  have none : ∀ body behind, LegalLength (size.toNat - 4) body.length →
      chunk ≠ frame 4 body ++ behind := by
    rintro body behind legal rfl
    rw [leValue_frame (by omega) behind legal] at header
    rw [header] at legal
    exact illegal legal
  have fed : Wp (fun _ _ => False) (Socket.feed 0 chunk) _ (hosted size) :=
    holds.feedStop smallest bound (by simpa)
      (by rw [List.nil_append, header]; exact illegal) none
  rw [List.nil_append, List.nil_append] at fed
  unfold Wp at fed
  rcases ran : Socket.feed 0 chunk (hosted size) with ⟨failure | _, w₁⟩
  · rw [ran] at fed
    exact absurd fed id
  · rw [ran] at fed
    have told : w₁.mgr.reading 0 = _ := fed.told
    obtain ⟨delivered, _, errors⟩ := report_parts 0 sock.connIdx (size.toNat - 4) [] chunk
    have fits : chunk.length ≤ sock.readBuffer.getSpace := by
      rw [opened.empty, sized]
      simpa [SequenceBuffer.getSpace, SequenceBuffer.allocate] using room
    refine ⟨w₁, Reading.start.feed opened.present fits ran, ?_, ?_⟩
    · rw [Mgr.delivered, told]
      exact delivered
    · intro longer
      have bad : BadHeader 4 (size.toNat - 4) chunk := ⟨long, by rw [header]; exact illegal⟩
      rw [Mgr.packetErrors, told]
      exact errors.trans (if_pos ⟨bad, longer⟩)

theorem legal_of_delivers {size : UInt32} (smallest : 5 ≤ size.toNat) {message : Message}
    (delivers : Delivers size [message]) : LegalLength (size.toNat - 4) message.data.length := by
  by_contra illegal
  obtain ⟨sock, opened, sized⟩ := hosted_opened size
  have connection := hosted_connection size
  have queues : Wp (fun _ _ => False) (sendAll 1 [message]) _ (hosted size) :=
    sendAll_accepts connection [message]
  unfold Wp at queues
  rcases ran : sendAll 1 [message] (hosted size) with ⟨failure | _, w'⟩
  · rw [ran] at queues
    exact queues
  · rw [ran] at queues
    obtain ⟨rfl, queued⟩ := queues
    have stream : frames 4 (bodiesOf [message]) = frame 4 message.data := List.append_nil _
    have length := frame_length 4 message.data
    rw [stream] at queued
    have promised := delivers 1 0 _ w' connection ran 0 sock (hosted size)
    rw [queued] at promised
    by_cases empty : message.data = []
    · -- the whole stream has arrived, and nothing is delivered
      have zero : message.data.length = 0 := by rw [empty, List.length_nil]
      obtain ⟨w₁, reading, delivered, -⟩ := refused_reading smallest illegal
        (List.append_nil _).symm (by omega) (by omega)
      have whole : (hosted size).mgr.queuedBytes 0 ++ [frame 4 message.data].flatten =
          (hosted size).mgr.queuedBytes 0 ++ frame 4 message.data := by
        rw [List.flatten_singleton]
      obtain ⟨-, received⟩ := promised w₁ _ opened sized reading (whole ▸ List.prefix_refl _)
      have one := received whole
      rw [delivered] at one
      cases one
    · -- one byte behind the header is enough for the error branch
      have some := List.length_pos_of_ne_nil empty
      have taken : ((frame 4 message.data).take 5).length = 5 := by
        rw [List.length_take]
        omega
      obtain ⟨w₁, reading, -, errors⟩ := refused_reading smallest illegal
        (List.take_append_drop 5 (frame 4 message.data)).symm (by omega) (by omega)
      have partly : (hosted size).mgr.queuedBytes 0 ++
          [(frame 4 message.data).take 5].flatten <+:
            (hosted size).mgr.queuedBytes 0 ++ frame 4 message.data := by
        rw [List.flatten_singleton, List.prefix_append_right_inj]
        exact List.take_prefix 5 _
      obtain ⟨fine, -⟩ := promised w₁ _ opened sized reading partly
      rw [errors (by omega)] at fine
      cases fine

/-- Messages of admissible lengths are all received, whatever the chunks; and a
message that is received when it is sent alone has a length that `OnRead` admits. -/
theorem delivers_legal_lengths (size : UInt32) (smallest : 5 ≤ size.toNat) :
    (size.toNat + 5 ≤ 2 ^ 32 → ∀ messages : List Message,
      (∀ message ∈ messages, message.Admissible size) → Delivers size messages) ∧
      ∀ message : Message, Delivers size [message] →
        LegalLength (size.toNat - 4) message.data.length :=
  ⟨fun largest _ admissible => delivers_of_admissible smallest largest admissible,
    fun _ delivers => legal_of_delivers smallest delivers⟩

/-- Sixteen bytes of room: one byte and twelve are received, thirteen are not. -/
theorem delivers_legal_lengths_sixteen :
    Delivers 16 [⟨[1], by decide⟩, ⟨List.replicate 12 2, by decide⟩] ∧
      ¬ Delivers 16 [⟨List.replicate 13 2, by decide⟩] := by
  have both := delivers_legal_lengths 16 (by decide)
  refine ⟨both.1 (by decide) _ ?_, fun delivers => absurd (both.2 _ delivers) (by decide)⟩
  intro message membership
  simp only [List.mem_cons, List.not_mem_nil, or_false] at membership
  rcases membership with rfl | rfl
  · exact ⟨by decide, by decide⟩
  · exact ⟨by decide, by decide⟩

/-- `SendMsg` takes an empty message and one of thirteen bytes; a receiver with
sixteen bytes of room takes neither. -/
theorem delivers_fails_refused :
    ¬ Delivers 16 [⟨[], by decide⟩] ∧ ¬ Delivers 16 [⟨List.replicate 13 2, by decide⟩] :=
  ⟨fun delivers => absurd (legal_of_delivers (by decide) delivers) (by decide),
    fun delivers => absurd (legal_of_delivers (by decide) delivers) (by decide)⟩

end Network

end CrossOver.Engine
