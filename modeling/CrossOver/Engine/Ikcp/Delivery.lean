import Mathlib.Data.List.Infix
import Mathlib.Logic.Function.Basic
import CrossOver.Lib.Transition
import CrossOver.Engine.Ikcp.Receiver

/-!
# Reliable ordered delivery between two endpoints

Two control blocks exchange packets over a network that may drop, duplicate,
delay and reorder them: any packet that was ever put out by one side may be given
to the other at any time, any number of times.  What `ikcp_recv` has handed over
on one side are, piece by piece, the messages accepted by `ikcp_send` on the
other side, and the last of them is complete.
-/

namespace CrossOver.Engine.Ikcp

open CrossOver.Lib

inductive Side where
  | left
  | right
  deriving DecidableEq, Repr

def Side.other : Side → Side
  | .left => .right
  | .right => .left

structure Endpoint where
  kcp : Kcp
  /-- buffers passed to `ikcp_send` with what it returned -/
  sends : List (Bytes × Int)
  /-- packets passed to the output callback -/
  packets : List Bytes
  /-- chunks passed to the input callback -/
  received : List Bytes
  deriving DecidableEq, Repr

namespace Endpoint

/-- The control block as `Socket` sets it up. -/
def opened (conv : UInt32) : Endpoint where
  kcp := (create conv).setNodelay 1 10 2 1
  sends := []
  packets := []
  received := []

/-- The messages that `ikcp_send` returned zero for. -/
def accepted (e : Endpoint) : List Bytes := (e.sends.filter fun sent => sent.2 = 0).map Prod.fst

def send (e : Endpoint) (buffer : Bytes) : Endpoint :=
  let result := e.kcp.send buffer
  { e with
    kcp := result.1
    sends := e.sends ++ [(buffer, result.2.1)]
    packets := e.packets ++ result.2.2 }

def update (e : Endpoint) (current : UInt32) : Endpoint :=
  let result := e.kcp.update current
  { e with kcp := result.1, packets := e.packets ++ result.2 }

def input (e : Endpoint) (packet : Bytes) : Endpoint := { e with kcp := (e.kcp.input packet).1 }

def recv (e : Endpoint) : Endpoint :=
  { e with kcp := e.kcp.recv.2.2, received := e.received ++ e.kcp.recv.1 }

end Endpoint

abbrev State := Side → Endpoint

inductive Action where
  | send (side : Side) (buffer : Bytes)
  | update (side : Side) (current : UInt32)
  | input (side : Side) (packet : Bytes)
  | recv (side : Side)
  deriving DecidableEq, Repr

inductive Step : State → Action → State → Prop where
  | send {s : State} (side : Side) {buffer : Bytes} (isInt : buffer.length < 2 ^ 31) :
      Step s (.send side buffer) (Function.update s side ((s side).send buffer))
  | update {s : State} {side : Side} {current : UInt32} :
      Step s (.update side current) (Function.update s side ((s side).update current))
  | input {s : State} {side : Side} {packet : Bytes} (put : packet ∈ (s side.other).packets) :
      Step s (.input side packet) (Function.update s side ((s side).input packet))
  | recv {s : State} (side : Side) :
      Step s (.recv side) (Function.update s side (s side).recv)

def link : System State Action where
  initial s := ∃ conv : Side → UInt32, s = fun side => Endpoint.opened (conv side)
  step := Step

/-- What one endpoint as sender and the other as receiver have in common. -/
structure Linked (sender receiver : Endpoint) : Prop where
  few : ∀ message ∈ sender.accepted, Kcp.fragmentCount mssDef message.length ≤ 255
  sending : Sending (pieces sender.accepted) sender.kcp
  packets : ∀ packet ∈ sender.packets, GenuinePacket (pieces sender.accepted) packet
  receiving : ∃ k ≤ sender.accepted.length,
    Receiving (pieces sender.accepted) (pieces (sender.accepted.take k)).length receiver.kcp ∧
      receiver.received = (pieces (sender.accepted.take k)).map Prod.snd

def Bounded (sender : Endpoint) : Prop := (pieces sender.accepted).length < 2 ^ 31

theorem opened_linked (convSender convReceiver : UInt32) :
    Linked (Endpoint.opened convSender) (Endpoint.opened convReceiver) where
  few := by simp [Endpoint.opened, Endpoint.accepted]
  sending := ⟨rfl, Nat.le_refl 0, rfl, fun seg membership => by cases membership⟩
  packets := fun packet membership => by cases membership
  receiving := ⟨0, Nat.le_refl 0, ⟨Nat.le_refl 0, Nat.le_refl 0, rfl, rfl,
    fun seg membership => by cases membership⟩, rfl⟩

theorem pieces_encodable {messages : List Bytes}
    (few : ∀ message ∈ messages, Kcp.fragmentCount mssDef message.length ≤ 255) :
    Encodable (pieces messages) := by
  intro piece membership
  obtain ⟨message, inside, within⟩ := List.mem_flatMap.mp membership
  exact fragments_encodable mssDef _ message (few message inside) (by decide) piece within

section Sender

variable {sender receiver : Endpoint}

theorem update_sending {all : List Piece} (bounded : all.length < 2 ^ 31) {kcp : Kcp}
    (sending : Sending all kcp) (current : UInt32) :
    Sending all (kcp.update current).1 ∧
      ∀ packet ∈ (kcp.update current).2, GenuinePacket all packet := by
  have scheduled : Sending all (kcp.schedule current).1 :=
    ⟨sending.mss, sending.nxt, sending.queue, sending.buf⟩
  rw [Kcp.update]
  split_ifs
  · exact flush_sending bounded scheduled
  · exact ⟨scheduled, by simp⟩

theorem Linked.update (linked : Linked sender receiver) (bounded : Bounded sender)
    (current : UInt32) : Linked (sender.update current) receiver := by
  obtain ⟨sending, packets⟩ := update_sending bounded linked.sending current
  refine ⟨linked.few, sending, ?_, linked.receiving⟩
  intro packet membership
  rcases List.mem_append.mp membership with old | new
  · exact linked.packets packet old
  · exact packets packet new

theorem Linked.senderInput (linked : Linked sender receiver) (packet : Bytes) :
    Linked (sender.input packet) receiver :=
  ⟨linked.few, linked.sending.of_thinned (input_thinned _ packet), linked.packets, linked.receiving⟩

theorem Linked.senderRecv (linked : Linked sender receiver) : Linked sender.recv receiver :=
  ⟨linked.few, linked.sending.of_thinned (recv_thinned _), linked.packets, linked.receiving⟩

theorem accepted_of_zero {e : Endpoint} {buffer : Bytes} (zero : (e.kcp.send buffer).2.1 = 0) :
    (e.send buffer).accepted = e.accepted ++ [buffer] := by
  simp [Endpoint.accepted, Endpoint.send, zero]

theorem accepted_of_nonzero {e : Endpoint} {buffer : Bytes} (code : (e.kcp.send buffer).2.1 ≠ 0) :
    (e.send buffer).accepted = e.accepted := by
  simp [Endpoint.accepted, Endpoint.send, code]

theorem accepted_send_grows (e : Endpoint) (buffer : Bytes) :
    ∃ more, (e.send buffer).accepted = e.accepted ++ more := by
  by_cases zero : (e.kcp.send buffer).2.1 = 0
  · exact ⟨[buffer], accepted_of_zero zero⟩
  · exact ⟨[], by rw [accepted_of_nonzero zero, List.append_nil]⟩

theorem Linked.send (linked : Linked sender receiver) (buffer : Bytes)
    (bounded : Bounded (sender.send buffer)) : Linked (sender.send buffer) receiver := by
  by_cases fits : Kcp.fragmentCount mssDef buffer.length ≤ 255
  · have zero : (sender.kcp.send buffer).2.1 = 0 := by
      have few : ¬ Kcp.fragmentCount sender.kcp.mss.toNat buffer.length > 255 := by
        rw [linked.sending.mss]
        omega
      simp only [Kcp.send, if_neg few]
    have acceptedEq := accepted_of_zero zero
    have piecesEq : pieces (sender.accepted ++ [buffer]) =
        pieces sender.accepted ++ messagePieces buffer := by simp [pieces]
    rw [Bounded, acceptedEq, piecesEq] at bounded
    obtain ⟨-, sending, packets⟩ := send_sending bounded linked.sending fits
    obtain ⟨k, kLe, receiving, received⟩ := linked.receiving
    have takeEq : (sender.accepted ++ [buffer]).take k = sender.accepted.take k :=
      List.take_append_of_le_length kLe
    refine ⟨?_, ?_, ?_, k, ?_, ?_, ?_⟩
    · rw [acceptedEq]
      intro message membership
      rcases List.mem_append.mp membership with old | last
      · exact linked.few message old
      · rw [List.mem_singleton.mp last]
        exact fits
    · rw [acceptedEq, piecesEq]
      exact sending
    · rw [acceptedEq, piecesEq]
      intro packet membership
      rcases List.mem_append.mp membership with old | new
      · exact (linked.packets packet old).append
      · exact packets packet new
    · rw [acceptedEq, List.length_append]
      omega
    · rw [acceptedEq, takeEq, piecesEq]
      exact receiving.append _
    · rw [acceptedEq, takeEq]
      exact received
  · have rejected := send_rejected linked.sending.mss (Nat.lt_of_not_le fits)
    have acceptedEq : (sender.send buffer).accepted = sender.accepted :=
      accepted_of_nonzero (by rw [rejected]; exact Int.neg_ne_zero.mpr (by decide))
    have kcpEq : (sender.send buffer).kcp = sender.kcp := by
      change (sender.kcp.send buffer).1 = sender.kcp
      rw [rejected]
    have packetsEq : (sender.send buffer).packets = sender.packets := by
      change sender.packets ++ (sender.kcp.send buffer).2.2 = sender.packets
      rw [rejected, List.append_nil]
    refine ⟨?_, ?_, ?_, ?_⟩
    · rw [acceptedEq]; exact linked.few
    · rw [acceptedEq, kcpEq]; exact linked.sending
    · rw [acceptedEq, packetsEq]; exact linked.packets
    · rw [acceptedEq]; exact linked.receiving

end Sender

section Receiver

variable {sender receiver : Endpoint}

theorem update_receiveSide (kcp : Kcp) (current : UInt32) :
    receiveSide (kcp.update current).1 = receiveSide kcp := by
  rw [Kcp.update]
  split_ifs
  · exact flush_receiveSide (kcp.schedule current).1
  · rfl

/-- A step of the receiver that neither takes nor reads anything. -/
theorem Linked.receiverKeeps (linked : Linked sender receiver) {receiver' : Endpoint}
    (part : receiveSide receiver'.kcp = receiveSide receiver.kcp)
    (received : receiver'.received = receiver.received) : Linked sender receiver' := by
  obtain ⟨k, kLe, receiving, receivedEq⟩ := linked.receiving
  exact ⟨linked.few, linked.sending, linked.packets, k, kLe, receiving.of_side part,
    received.trans receivedEq⟩

theorem Linked.receiverInput (linked : Linked sender receiver) (bounded : Bounded sender)
    {packet : Bytes} (put : packet ∈ sender.packets) : Linked sender (receiver.input packet) := by
  obtain ⟨k, kLe, receiving, received⟩ := linked.receiving
  exact ⟨linked.few, linked.sending, linked.packets, k, kLe,
    input_receiving bounded (pieces_encodable linked.few) receiving (linked.packets packet put),
    received⟩

theorem Linked.receiverRecv (linked : Linked sender receiver) (bounded : Bounded sender) :
    Linked sender receiver.recv := by
  obtain ⟨k, kLe, receiving, received⟩ := linked.receiving
  rcases recv_receiving linked.few bounded receiving with
    ⟨nothing, kept⟩ | ⟨message, found, chunks, next⟩
  · refine ⟨linked.few, linked.sending, linked.packets, k, kLe, kept, ?_⟩
    change receiver.received ++ receiver.kcp.recv.1 = _
    rw [nothing, List.append_nil, received]
  · obtain ⟨inside, messageEq⟩ := List.getElem?_eq_some_iff.mp found
    refine ⟨linked.few, linked.sending, linked.packets, k + 1, inside, next, ?_⟩
    change receiver.received ++ receiver.kcp.recv.1 = _
    rw [chunks, received, List.take_add_one, found, pieces, pieces, List.flatMap_append,
      List.map_append]
    simp

end Receiver

section Runs

variable {s t : State}

theorem Side.left_ne_right : Side.left ≠ Side.right := Side.noConfusion

theorem Side.other_ne (side : Side) : side.other ≠ side := by
  cases side <;> decide

theorem step_accepted {action : Action} (step : Step s action t) (side : Side) :
    ∃ more, (t side).accepted = (s side).accepted ++ more := by
  have kept : ∀ (actor : Side) (e : Endpoint),
      (∃ more, e.accepted = (s actor).accepted ++ more) →
      ∃ more, (Function.update s actor e side).accepted = (s side).accepted ++ more := by
    intro actor e extended
    by_cases here : side = actor
    · subst here
      rw [Function.update_self]
      exact extended
    · rw [Function.update_of_ne here]
      exact ⟨[], by rw [List.append_nil]⟩
  cases step with
  | send side isInt => exact kept _ _ (accepted_send_grows _ _)
  | update => exact kept _ _ ⟨[], (List.append_nil _).symm⟩
  | input put => exact kept _ _ ⟨[], (List.append_nil _).symm⟩
  | recv side => exact kept _ _ ⟨[], (List.append_nil _).symm⟩

theorem bounded_before {action : Action} (step : Step s action t) {side : Side}
    (bounded : Bounded (t side)) : Bounded (s side) := by
  obtain ⟨more, extended⟩ := step_accepted step side
  rw [Bounded, extended, pieces, List.flatMap_append, List.length_append] at bounded
  exact Nat.lt_of_le_of_lt (Nat.le_add_right _ _) bounded

/-- What one endpoint can do while the packets of the other may arrive. -/
inductive Moved (arriving : List Bytes) (e : Endpoint) : Endpoint → Prop where
  | send (buffer : Bytes) (isInt : buffer.length < 2 ^ 31) : Moved arriving e (e.send buffer)
  | update (current : UInt32) : Moved arriving e (e.update current)
  | input {packet : Bytes} (put : packet ∈ arriving) : Moved arriving e (e.input packet)
  | recv : Moved arriving e e.recv

/-- A step moves one of the two endpoints and leaves the other alone. -/
theorem step_cases {action : Action} (step : Step s action t) (side : Side) :
    (t side.other = s side.other ∧ Moved (s side.other).packets (s side) (t side)) ∨
      (t side = s side ∧ Moved (s side).packets (s side.other) (t side.other)) := by
  have apart := side.other_ne
  have back : side.other.other = side := by cases side <;> rfl
  have split : ∀ (actor : Side) (e : Endpoint), Moved (s actor.other).packets (s actor) e →
      (Function.update s actor e side.other = s side.other ∧
          Moved (s side.other).packets (s side) (Function.update s actor e side)) ∨
        (Function.update s actor e side = s side ∧
          Moved (s side).packets (s side.other) (Function.update s actor e side.other)) := by
    intro actor e moved
    by_cases here : actor = side
    · subst here
      rw [Function.update_self, Function.update_of_ne apart]
      exact Or.inl ⟨rfl, moved⟩
    · have opposite : actor = side.other := by
        cases actor <;> cases side <;> simp_all [Side.other]
      subst opposite
      rw [Function.update_self, Function.update_of_ne apart.symm]
      rw [back] at moved
      exact Or.inr ⟨rfl, moved⟩
  cases step with
  | @send actor buffer isInt => exact split actor _ (.send buffer isInt)
  | @update actor current => exact split actor _ (.update current)
  | @input actor packet put => exact split actor _ (.input put)
  | @recv actor => exact split actor _ .recv

theorem step_linked {action : Action} (step : Step s action t) {side : Side}
    (linked : Linked (s side) (s side.other)) (bounded : Bounded (t side)) :
    Linked (t side) (t side.other) := by
  have before := bounded_before step bounded
  rcases step_cases step side with ⟨same, moved⟩ | ⟨same, moved⟩
  · rw [same]
    revert bounded
    generalize t side = after at moved
    intro bounded
    cases moved with
    | send buffer isInt => exact linked.send buffer bounded
    | update current => exact linked.update before current
    | input put => exact linked.senderInput _
    | recv => exact linked.senderRecv
  · rw [same]
    generalize t side.other = after at moved
    cases moved with
    | send buffer isInt => exact linked.receiverKeeps (send_receiveSide _ _) rfl
    | update current => exact linked.receiverKeeps (update_receiveSide _ _) rfl
    | input put => exact linked.receiverInput before put
    | recv => exact linked.receiverRecv before

/-- Both directions are linked, as long as the sequence numbers last. -/
def BothLinked (s : State) : Prop := ∀ side, Bounded (s side) → Linked (s side) (s side.other)

theorem reachable_linked (reached : link.Reachable s) : BothLinked s := by
  refine System.Reachable.invariant ?_ ?_ reached
  · rintro s ⟨conv, rfl⟩ side -
    exact opened_linked _ _
  · intro s action t _ linked step side bounded
    exact step_linked step (linked side (bounded_before step bounded)) bounded

theorem pieces_data (messages : List Bytes) :
    ((pieces messages).map Prod.snd).flatten = messages.flatten := by
  induction messages with
  | nil => rfl
  | cons message rest inductionHypothesis =>
      have data : ((messagePieces message).map Prod.snd).flatten = message := by
        rw [messagePieces, List.map_map]
        exact fragments_data mssDef _ message (fragmentCount_enough mssDef _ (by decide))
      rw [pieces, List.flatMap_cons, List.map_append, List.flatten_append, data,
        List.flatten_cons]
      exact congrArg (message ++ ·) inductionHypothesis

/-- What has been handed over on one side are the first messages accepted on the
other side, and at every moment before that an initial part of them. -/
theorem received_initial (reached : link.Reachable s) (side : Side)
    (bounded : (pieces (s side).accepted).length < 2 ^ 31) :
    (∃ k, (s side.other).received.flatten = ((s side).accepted.take k).flatten) ∧
      ∀ j, ((s side.other).received.take j).flatten <+: (s side).accepted.flatten := by
  obtain ⟨k, -, -, received⟩ := (reachable_linked reached side bounded).receiving
  have whole : (s side.other).received.flatten = ((s side).accepted.take k).flatten := by
    rw [received, pieces_data]
  refine ⟨⟨k, whole⟩, fun j => ?_⟩
  have part : ((s side.other).received.take j).flatten <+: (s side.other).received.flatten :=
    (List.take_prefix j _).flatten
  rw [whole] at part
  exact part.trans (List.take_prefix k _).flatten

theorem reachable_step {action : Action} (reached : link.Reachable s) (step : Step s action t) :
    link.Reachable t :=
  .next reached step

def bytePacket : Bytes :=
  [1, 0, 0, 0, 81, 0, 32, 0, 0, 0, 0, 0, 0, 0, 0, 0, 0, 0, 0, 0, 1, 0, 0, 0, 7]

/-- From a fresh link, one byte sent on the left and received on the right. -/
theorem byte_delivered (reached : link.Reachable s)
    (left : (s .left).kcp = (Endpoint.opened 1).kcp) (right : s .right = Endpoint.opened 2) :
    ∃ t, link.Reachable t ∧ (t .left).sends = (s .left).sends ++ [([7], 0)] ∧
      (t .right).received = [[7]] := by
  have sent : ((s .left).kcp.send [7]).2 = (0, [bytePacket]) := by
    rw [left]
    decide +kernel
  have arrived : (Endpoint.opened 2).kcp.input bytePacket |>.1.recv.1 = [[7]] := by
    decide +kernel
  have afterSend : link.Reachable (Function.update s .left ((s .left).send [7])) :=
    reachable_step reached (.send .left (by decide))
  have put : bytePacket ∈
      (Function.update s .left ((s .left).send [7]) Side.right.other).packets := by
    change bytePacket ∈ (s .left).packets ++ ((s .left).kcp.send [7]).2.2
    rw [sent]
    simp
  have afterInput := reachable_step afterSend (.input put)
  have afterRecv := reachable_step afterInput (.recv .right)
  refine ⟨_, afterRecv, ?_, ?_⟩
  · have code : ((s .left).send [7]).sends = (s .left).sends ++ [([7], 0)] := by
      rw [Endpoint.send, sent]
    simpa only [Function.update_of_ne Side.left_ne_right, Function.update_self] using code
  · have chunks : ((Endpoint.opened 2).input bytePacket).recv.received = [[7]] := by
      rw [Endpoint.recv, Endpoint.input, arrived]
      rfl
    simpa only [Function.update_self, Function.update_of_ne Side.left_ne_right.symm, right]
      using chunks

/-- Two endpoints that have just been set up. -/
def freshLink : State
  | .left => Endpoint.opened 1
  | .right => Endpoint.opened 2

theorem freshLink_reachable : link.Reachable freshLink := by
  refine .start ⟨fun side => if side = .left then 1 else 2, ?_⟩
  funext side
  cases side <;> rfl

/-- The packet that carries the bytes 8 and 9 as the second message of conversation 1. -/
def laterPacket : Bytes :=
  [1, 0, 0, 0, 81, 0, 32, 0, 0, 0, 0, 0, 1, 0, 0, 0, 0, 0, 0, 0, 2, 0, 0, 0, 8, 9]

/-- Two messages, the second of which arrives before the first. -/
theorem received_initial_reordered :
    ∃ s, link.Reachable s ∧ (s .left).accepted = [[7], [8, 9]] ∧
      (s .right).received = [[7], [8, 9]] ∧
      (∃ k, (s .right).received.flatten = ((s .left).accepted.take k).flatten) ∧
      ∀ j, ((s .right).received.take j).flatten <+: (s .left).accepted.flatten := by
  have first := reachable_step freshLink_reachable (@Step.send _ .left [7] (by decide))
  have second := reachable_step first (@Step.send _ .left [8, 9] (by decide))
  have late := reachable_step second (@Step.input _ .right laterPacket (by decide +kernel))
  have early := reachable_step late (@Step.input _ .right bytePacket (by decide +kernel))
  have once := reachable_step early (.recv .right)
  have twice := reachable_step once (.recv .right)
  exact ⟨_, twice, by decide +kernel, by decide +kernel,
    received_initial twice .left (by decide +kernel)⟩

theorem byte_after_rejected (buffer : Bytes) (isInt : buffer.length < 2 ^ 31)
    (many : 255 < Kcp.fragmentCount mssDef buffer.length) :
    ∃ s, link.Reachable s ∧ (s .left).sends = [(buffer, -2), ([7], 0)] ∧
      (s .right).received = [[7]] := by
  have rejected := send_rejected (opened_linked 1 2).sending.mss many
  have start := reachable_step freshLink_reachable (.send .left isInt)
  obtain ⟨s, reached, sends, received⟩ := byte_delivered start
    (by
      change ((Endpoint.opened 1).kcp.send buffer).1 = _
      rw [rejected])
    rfl
  refine ⟨s, reached, ?_, received⟩
  rw [sends]
  change ([] ++ [(buffer, ((Endpoint.opened 1).kcp.send buffer).2.1)]) ++ _ = _
  rw [rejected]
  rfl

theorem byte_not_initial (buffer : Bytes) (isInt : buffer.length < 2 ^ 31)
    (many : 255 < Kcp.fragmentCount mssDef buffer.length) (first : buffer.head? = some 0) :
    ∃ s, link.Reachable s ∧ (pieces (s .left).accepted).length < 2 ^ 31 ∧
      ¬ (s .right).received.flatten <+: ((s .left).sends.map Prod.fst).flatten := by
  obtain ⟨s, reached, sends, received⟩ := byte_after_rejected buffer isInt many
  refine ⟨s, reached, ?_, ?_⟩
  · have accepted : (s .left).accepted = [[7]] := by
      rw [Endpoint.accepted, sends]
      rfl
    rw [accepted]
    decide
  · rw [received, sends]
    obtain ⟨rest, rfl⟩ := List.head?_eq_some_iff.mp first
    rintro ⟨tail, split⟩
    cases (List.cons.inj split).1

/-- A message of 256 fragments is rejected, and what is received next is no
initial part of all the bytes passed to `ikcp_send`. -/
theorem rejected_not_initial :
    ∃ s, link.Reachable s ∧ (pieces (s .left).accepted).length < 2 ^ 31 ∧
      ¬ (s .right).received.flatten <+: ((s .left).sends.map Prod.fst).flatten :=
  byte_not_initial (List.replicate 350881 0) (by rw [List.length_replicate]; decide)
    (by rw [List.length_replicate]; decide) (by rw [List.head?_replicate]; rfl)

end Runs

end CrossOver.Engine.Ikcp
