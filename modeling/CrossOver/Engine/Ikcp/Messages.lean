import CrossOver.Engine.Ikcp.Contents

/-!
# Messages, their boundaries and the receive window

`ikcp_recv` passes every fragment to the input callback by itself, so a message
keeps its boundaries exactly when it is one fragment long.  And it waits for all
fragments of a message to stand in the queue, which holds no more than
`rcv_wnd` of them, so a message with more fragments than that stops the
receiver for good.
-/

namespace CrossOver.Engine.Ikcp

open CrossOver.Lib

/-- What the segments of one direction of a link carry. -/
structure Filled (sender receiver : Endpoint) : Prop where
  few : ∀ message ∈ sender.accepted, Kcp.fragmentCount mssDef message.length ≤ 255
  loaded : Loaded (pieces sender.accepted) sender.kcp
  packets : ∀ packet ∈ sender.packets, ProperPacket (Within (pieces sender.accepted)) packet
  holding : Holding (pieces sender.accepted) receiver.kcp
  received : ∀ chunk ∈ receiver.received, ∃ frg, (frg, chunk) ∈ pieces sender.accepted

section Filled

variable {sender receiver : Endpoint}

theorem opened_filled (convSender convReceiver : UInt32) :
    Filled (Endpoint.opened convSender) (Endpoint.opened convReceiver) where
  few := by simp [Endpoint.opened, Endpoint.accepted]
  loaded := ⟨rfl, fun seg membership => (by cases membership), fun seg membership => by
    cases membership⟩
  packets := fun packet membership => by cases membership
  holding := ⟨⟨rfl, rfl, Nat.zero_le _, fun seg membership => (by cases membership),
    fun seg membership => by cases membership⟩, fun seg membership => by cases membership⟩
  received := fun chunk membership => by cases membership

theorem Filled.send (filled : Filled sender receiver) (buffer : Bytes) :
    Filled (sender.send buffer) receiver := by
  by_cases fits : Kcp.fragmentCount mssDef buffer.length ≤ 255
  · obtain ⟨zero, loaded, packets⟩ := send_loaded filled.loaded fits
    have piecesEq : pieces (sender.send buffer).accepted =
        pieces sender.accepted ++ messagePieces buffer := by
      rw [accepted_of_zero zero]
      simp [pieces]
    refine ⟨?_, ?_, ?_, ?_, ?_⟩
    · rw [accepted_of_zero zero]
      intro message membership
      rcases List.mem_append.mp membership with old | last
      · exact filled.few message old
      · rw [List.mem_singleton.mp last]
        exact fits
    · rw [piecesEq]
      exact loaded
    · rw [piecesEq]
      intro packet membership
      rcases List.mem_append.mp membership with old | new
      · exact (filled.packets packet old).append
      · exact packets packet new
    · rw [piecesEq]
      exact filled.holding.append
    · rw [piecesEq]
      intro chunk membership
      obtain ⟨frg, within⟩ := filled.received chunk membership
      exact ⟨frg, List.mem_append_left _ within⟩
  · have rejected := send_rejected filled.loaded.mss (Nat.lt_of_not_le fits)
    have acceptedEq : (sender.send buffer).accepted = sender.accepted :=
      accepted_of_nonzero (by rw [rejected]; exact Int.neg_ne_zero.mpr (by decide))
    have kcpEq : (sender.send buffer).kcp = sender.kcp := by
      change (sender.kcp.send buffer).1 = sender.kcp
      rw [rejected]
    have packetsEq : (sender.send buffer).packets = sender.packets := by
      change sender.packets ++ (sender.kcp.send buffer).2.2 = sender.packets
      rw [rejected, List.append_nil]
    refine ⟨?_, ?_, ?_, ?_, ?_⟩
    · rw [acceptedEq]; exact filled.few
    · rw [acceptedEq, kcpEq]; exact filled.loaded
    · rw [acceptedEq, packetsEq]; exact filled.packets
    · rw [acceptedEq]; exact filled.holding
    · rw [acceptedEq]; exact filled.received

theorem Filled.update (filled : Filled sender receiver) (current : UInt32) :
    Filled (sender.update current) receiver := by
  obtain ⟨loaded, packets⟩ := update_loaded filled.loaded current
  refine ⟨filled.few, loaded, ?_, filled.holding, filled.received⟩
  intro packet membership
  rcases List.mem_append.mp membership with old | new
  · exact filled.packets packet old
  · exact packets packet new

theorem Filled.senderThinned (filled : Filled sender receiver) {kcp : Kcp} {received : List Bytes}
    (thinned : Thinned sender.kcp kcp) :
    Filled { sender with kcp := kcp, received := received } receiver :=
  ⟨filled.few, filled.loaded.of_thinned thinned, filled.packets, filled.holding, filled.received⟩

theorem Filled.receiverKeeps (filled : Filled sender receiver) {receiver' : Endpoint}
    (side : receiveSide receiver'.kcp = receiveSide receiver.kcp)
    (received : receiver'.received = receiver.received) : Filled sender receiver' :=
  ⟨filled.few, filled.loaded, filled.packets, filled.holding.of_side side,
    received ▸ filled.received⟩

theorem Filled.receiverInput (filled : Filled sender receiver) {packet : Bytes}
    (put : packet ∈ sender.packets) : Filled sender (receiver.input packet) :=
  ⟨filled.few, filled.loaded, filled.packets,
    input_holding (pieces_encodable filled.few) filled.holding (filled.packets packet put),
    filled.received⟩

theorem Filled.receiverRecv (filled : Filled sender receiver) : Filled sender receiver.recv := by
  obtain ⟨holding, chunks⟩ := recv_holding filled.holding
  refine ⟨filled.few, filled.loaded, filled.packets, holding, ?_⟩
  intro chunk membership
  rcases List.mem_append.mp membership with old | new
  · exact filled.received chunk old
  · exact chunks chunk new

end Filled

section Runs

variable {s t : State}

theorem step_filled {action : Action} (step : Step s action t) {side : Side}
    (filled : Filled (s side) (s side.other)) : Filled (t side) (t side.other) := by
  rcases step_cases step side with ⟨same, moved⟩ | ⟨same, moved⟩
  · rw [same]
    generalize t side = after at moved
    cases moved with
    | send buffer isInt => exact filled.send buffer
    | update current => exact filled.update current
    | input put => exact filled.senderThinned (input_thinned _ _)
    | recv => exact filled.senderThinned (recv_thinned _)
  · rw [same]
    generalize t side.other = after at moved
    cases moved with
    | send buffer isInt => exact filled.receiverKeeps (send_receiveSide _ _) rfl
    | update current => exact filled.receiverKeeps (update_receiveSide _ _) rfl
    | input put => exact filled.receiverInput put
    | recv => exact filled.receiverRecv

def BothFilled (s : State) : Prop := ∀ side, Filled (s side) (s side.other)

theorem reachable_filled (reached : link.Reachable s) : BothFilled s := by
  refine System.Reachable.invariant ?_ ?_ reached
  · rintro s ⟨conv, rfl⟩ side
    exact opened_filled _ _
  · intro s action t _ filled step side
    exact step_filled step (filled side)

/-- Packets that were put out may arrive one after the other. -/
theorem reachable_inputs (reached : link.Reachable s) (side : Side) (packets : List Bytes)
    (put : ∀ packet ∈ packets, packet ∈ (s side.other).packets) :
    link.Reachable (Function.update s side (packets.foldl Endpoint.input (s side))) := by
  induction packets generalizing s with
  | nil =>
      rw [List.foldl_nil, Function.update_eq_self]
      exact reached
  | cons packet rest inductionHypothesis =>
      have arrived := reachable_step reached (.input (put packet List.mem_cons_self))
      have later := inductionHypothesis arrived fun other membership => by
        rw [Function.update_of_ne side.other_ne]
        exact put other (List.mem_cons_of_mem _ membership)
      rw [Function.update_self, Function.update_idem] at later
      exact later

/-- One message sent on a fresh link, and everything put out for it arrives. -/
def transmitted (message : Bytes) : State :=
  Function.update (Function.update freshLink .left ((freshLink .left).send message)) .right
    (((Endpoint.opened 1).kcp.send message).2.2.foldl Endpoint.input (Endpoint.opened 2))

theorem transmitted_reachable (message : Bytes) (isInt : message.length < 2 ^ 31) :
    link.Reachable (transmitted message) := by
  have sent := reachable_step freshLink_reachable (.send .left isInt)
  refine reachable_inputs sent .right _ ?_
  intro packet membership
  exact List.mem_append_right _ membership

end Runs

/-! ## Boundaries -/

/-- Every call of the receive callback has carried one whole message. -/
structure Whole (sender receiver : Endpoint) : Prop where
  each : ∀ chunk ∈ receiver.received, chunk ∈ sender.accepted
  inOrder : (pieces sender.accepted).length < 2 ^ 31 →
    ∃ k, receiver.received = sender.accepted.take k

/-- A message of at most `mss` bytes is its only fragment. -/
theorem messagePieces_short {message : Bytes} (short : message.length ≤ mssDef) :
    messagePieces message = [(0, message)] := by
  have whole : message.take (min message.length mssDef) = message := by
    rw [Nat.min_eq_left short, List.take_length]
  simp only [messagePieces, Kcp.fragmentCount, if_pos short, Kcp.fragments, List.map_cons,
    List.map_nil, Seg.piece, whole]
  rfl

theorem pieces_short {messages : List Bytes}
    (short : ∀ message ∈ messages, message.length ≤ mssDef) :
    pieces messages = messages.map fun message => (0, message) := by
  induction messages with
  | nil => rfl
  | cons message rest inductionHypothesis =>
      rw [pieces, List.flatMap_cons, messagePieces_short (short message List.mem_cons_self),
        List.map_cons]
      exact congrArg _ (inductionHypothesis fun other membership =>
        short other (List.mem_cons_of_mem _ membership))

theorem whole_of_short {s : State} (reached : link.Reachable s) (side : Side)
    (short : ∀ message ∈ (s side).accepted, message.length ≤ mssDef) :
    Whole (s side) (s side.other) := by
  refine ⟨?_, ?_⟩
  · intro chunk membership
    obtain ⟨frg, within⟩ := (reachable_filled reached side).received chunk membership
    rw [pieces_short short] at within
    obtain ⟨message, inside, pieceEq⟩ := List.mem_map.mp within
    rw [← (Prod.mk.inj pieceEq).2]
    exact inside
  · intro bounded
    obtain ⟨k, -, -, received⟩ := (reachable_linked reached side bounded).receiving
    have shortTaken : ∀ message ∈ (s side).accepted.take k, message.length ≤ mssDef :=
      fun message membership => short message (List.mem_of_mem_take membership)
    refine ⟨k, ?_⟩
    rw [received, pieces_short shortTaken, List.map_map]
    exact List.map_id _

/-- A message of one byte more than `mss` arrives in two calls. -/
theorem split_received :
    ((transmitted (List.replicate 1377 0) .right).recv.received.map List.length) = [1376, 1] := by
  decide +kernel

theorem transmitted_accepted (message : Bytes)
    (few : Kcp.fragmentCount mssDef message.length ≤ 255) :
    (transmitted message .left).accepted = [message] := by
  have zero : ((Endpoint.opened 1).kcp.send message).2.1 = 0 :=
    (send_loaded (opened_filled 1 2).loaded few).1
  exact accepted_of_zero (e := Endpoint.opened 1) zero

/-- Two calls for one message: neither carries it. -/
theorem split_reachable :
    ∃ s, link.Reachable s ∧ (s .left).accepted = [List.replicate 1377 0] ∧
      (s .right).received.map List.length = [1376, 1] := by
  have isInt : (List.replicate 1377 (0 : UInt8)).length < 2 ^ 31 := by
    rw [List.length_replicate]
    decide
  have few : Kcp.fragmentCount mssDef (List.replicate 1377 (0 : UInt8)).length ≤ 255 := by
    rw [List.length_replicate]
    decide
  refine ⟨_, reachable_step (transmitted_reachable _ isInt) (.recv .right), ?_, ?_⟩
  · rw [Function.update_of_ne Side.left_ne_right]
    exact transmitted_accepted _ few
  · rw [Function.update_self]
    exact split_received

theorem not_whole_of_split {s : State}
    (accepted : (s .left).accepted = [List.replicate 1377 0])
    (received : (s .right).received.map List.length = [1376, 1]) :
    ¬ Whole (s .left) (s .right) := by
  intro whole
  have first : 1376 ∈ (s .right).received.map List.length := by
    rw [received]
    exact List.mem_cons_self
  obtain ⟨chunk, membership, length⟩ := List.mem_map.mp first
  have message := whole.each chunk membership
  rw [accepted, List.mem_singleton] at message
  rw [message, List.length_replicate] at length
  exact absurd length (by decide)

/-- Messages keep their boundaries on every run exactly when no message is
longer than one segment. -/
theorem whole_iff_one_segment (limit : Nat) :
    (∀ s, link.Reachable s → ∀ side, (∀ message ∈ (s side).accepted, message.length ≤ limit) →
      Whole (s side) (s side.other)) ↔ limit ≤ 1376 := by
  constructor
  · intro always
    by_contra large
    obtain ⟨s, reached, accepted, received⟩ := split_reachable
    refine not_whole_of_split accepted received (always s reached .left ?_)
    intro message membership
    rw [accepted, List.mem_singleton] at membership
    rw [membership, List.length_replicate]
    omega
  · intro small s reached side short
    exact whole_of_short reached side fun message membership =>
      (short message membership).trans small

/-- The run on which one accepted message is passed on in two parts. -/
theorem whole_fails_split :
    ∃ s, link.Reachable s ∧ (s .left).accepted = [List.replicate 1377 0] ∧
      (s .right).received.map List.length = [1376, 1] ∧ ¬ Whole (s .left) (s .right) := by
  obtain ⟨s, reached, accepted, received⟩ := split_reachable
  exact ⟨s, reached, accepted, received, not_whole_of_split accepted received⟩

end CrossOver.Engine.Ikcp
