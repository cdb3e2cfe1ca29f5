import CrossOver.Engine.Ikcp.Origin
import CrossOver.Engine.Ikcp.Window
import CrossOver.Lib.Transition

/-!
# Emptying the receive queue

`OnRead` gives a frame to `ikcp_input` and calls `ikcp_recv` until its result is
not positive.  The result is the length of the message that has been taken, so
the loop also stops behind an empty message.  Whatever bytes arrive, the queue
holds as many of the segments in order as the window allows; from these follow
the messages that are complete, and whether the loop leaves one behind.
-/

namespace CrossOver.Engine.Ikcp

open CrossOver.Lib

/-! ## The loop of `OnRead` -/

namespace Kcp

/-- The chunks that all turns pass to the input callback.  Every turn that goes
on takes a segment. -/
def recvLoop : Nat → Kcp → List Bytes × Kcp
  | 0, kcp => ([], kcp)
  | turns + 1, kcp =>
      let (chunks, result, received) := kcp.recv
      if result > 0 then
        let (later, emptied) := recvLoop turns received
        (chunks ++ later, emptied)
      else (chunks, received)

def onRead (kcp : Kcp) (data : Bytes) : List Bytes × Kcp :=
  let parsed := (kcp.input data).1
  recvLoop (parsed.rcvQueue.length + parsed.rcvBuf.length + 1) parsed

end Kcp

/-! ## Messages in order -/

/-- The segments at the front of the reorder buffer that continue the queue. -/
def inOrder : UInt32 → List Seg → List Seg
  | _, [] => []
  | next, seg :: rest => if seg.sn = next then seg :: inOrder (next + 1) rest else []

/-- All segments that have arrived in order and have not been taken. -/
def Kcp.stream (kcp : Kcp) : List Seg := kcp.rcvQueue ++ inOrder kcp.rcvNxt kcp.rcvBuf

/-- The first segment announces no more segments than there are. -/
def Complete : List Seg → Prop
  | [] => False
  | seg :: rest => seg.frg.toNat ≤ rest.length

instance : DecidablePred Complete
  | [] => inferInstanceAs (Decidable False)
  | seg :: rest => inferInstanceAs (Decidable (seg.frg.toNat ≤ rest.length))

theorem Complete.nonempty {queue : List Seg} (complete : Complete queue) : queue ≠ [] := by
  intro empty
  rw [empty] at complete
  exact complete

/-- The segments up to the first last fragment, and those behind it. -/
def splitMessage : List Seg → List Seg × List Seg
  | [] => ([], [])
  | seg :: rest =>
      if seg.frg = 0 then ([seg], rest)
      else (seg :: (splitMessage rest).1, (splitMessage rest).2)

def Seg.contents (segs : List Seg) : Bytes := (segs.map Seg.data).flatten

def messages (window : Nat) : Nat → List Seg → List Bytes
  | 0, _ => []
  | turns + 1, stream =>
      if Complete (stream.take window) then
        Seg.contents (splitMessage (stream.take window)).1 ::
          messages window turns ((splitMessage (stream.take window)).2 ++ stream.drop window)
      else []

def Kcp.completed (kcp : Kcp) : List Bytes :=
  messages wndRcv.toNat (kcp.rcvQueue.length + kcp.rcvBuf.length + 1) kcp.stream

/-! ## The queue holds what the window allows -/

/-- The receiving side before segments are moved to the queue. -/
structure Unmoved (kcp : Kcp) : Prop where
  window : kcp.rcvWnd = wndRcv
  count : kcp.nrcvQue.toNat = kcp.rcvQueue.length
  room : kcp.rcvQueue.length ≤ wndRcv.toNat
  narrow : ∀ seg ∈ kcp.rcvQueue ++ kcp.rcvBuf, seg.frg.toNat ≤ 255

structure Settled (kcp : Kcp) : Prop extends Unmoved kcp where
  front : kcp.rcvQueue = kcp.stream.take wndRcv.toNat

theorem Settled.of_side {kcp kcp' : Kcp} (settled : Settled kcp)
    (same : receiveSide kcp' = receiveSide kcp) : Settled kcp' := by
  obtain ⟨window, same⟩ := Prod.mk.inj same
  obtain ⟨nxt, same⟩ := Prod.mk.inj same
  obtain ⟨queue, same⟩ := Prod.mk.inj same
  obtain ⟨count, buf⟩ := Prod.mk.inj same
  refine ⟨⟨?_, ?_, ?_, ?_⟩, ?_⟩
  · rw [window]; exact settled.window
  · rw [count, queue]; exact settled.count
  · rw [queue]; exact settled.room
  · rw [queue, buf]; exact settled.narrow
  · rw [Kcp.stream, queue, nxt, buf]; exact settled.front

theorem stream_of_side {kcp kcp' : Kcp} (same : receiveSide kcp' = receiveSide kcp) :
    kcp'.stream = kcp.stream := by
  obtain ⟨-, same⟩ := Prod.mk.inj same
  obtain ⟨nxt, same⟩ := Prod.mk.inj same
  obtain ⟨queue, same⟩ := Prod.mk.inj same
  obtain ⟨-, buf⟩ := Prod.mk.inj same
  rw [Kcp.stream, queue, nxt, buf, Kcp.stream]

theorem moveAvailable_settled (buffer : List Seg) (kcp : Kcp) (bufferEq : kcp.rcvBuf = buffer)
    (unmoved : Unmoved kcp) :
    Settled (Kcp.moveAvailable buffer kcp) ∧
      (Kcp.moveAvailable buffer kcp).stream = kcp.stream := by
  have full : kcp.rcvQueue.length = wndRcv.toNat → kcp.rcvQueue = kcp.stream.take wndRcv.toNat := by
    intro full
    rw [Kcp.stream, ← full, List.take_left]
  induction buffer generalizing kcp with
  | nil =>
      refine ⟨⟨unmoved, ?_⟩, rfl⟩
      rw [Kcp.moveAvailable, Kcp.stream, bufferEq, inOrder, List.append_nil,
        List.take_of_length_le unmoved.room]
  | cons seg rest inductionHypothesis =>
      rw [Kcp.moveAvailable]
      split_ifs with available
      · obtain ⟨continues, room⟩ := available
        have roomNat := UInt32.lt_iff_toNat_lt.mp room
        rw [unmoved.count, unmoved.window] at roomNat
        have counted : (kcp.nrcvQue + 1).toNat = kcp.nrcvQue.toNat + 1 :=
          toNat_succ kcp.nrcvQue (by rw [unmoved.count]; exact roomNat.trans (by decide))
        have moved := inductionHypothesis
          { kcp with
            rcvBuf := rest, nrcvBuf := kcp.nrcvBuf - 1, rcvQueue := kcp.rcvQueue ++ [seg],
            nrcvQue := kcp.nrcvQue + 1, rcvNxt := kcp.rcvNxt + 1 } rfl
          ⟨unmoved.window, ?_, ?_, ?_⟩ ?_
        · refine ⟨moved.1, moved.2.trans ?_⟩
          rw [Kcp.stream, Kcp.stream, bufferEq, inOrder, if_pos continues, List.append_assoc]
          rfl
        · rw [counted, unmoved.count, List.length_append]
          rfl
        · rw [List.length_append]
          exact roomNat
        · rw [List.append_assoc]
          have narrow := unmoved.narrow
          rw [bufferEq] at narrow
          exact narrow
        · intro full
          rw [Kcp.stream, ← full, List.take_left]
      · refine ⟨⟨unmoved, ?_⟩, rfl⟩
        rcases Nat.lt_or_ge kcp.rcvQueue.length wndRcv.toNat with room | none
        · have behind : seg.sn ≠ kcp.rcvNxt := by
            intro continues
            refine available ⟨continues, ?_⟩
            rw [UInt32.lt_iff_toNat_lt, unmoved.count, unmoved.window]
            exact room
          rw [Kcp.stream, bufferEq, inOrder, if_neg behind, List.append_nil,
            List.take_of_length_le unmoved.room]
        · exact full (Nat.le_antisymm unmoved.room none)

theorem parseData_settled {kcp : Kcp} (settled : Settled kcp) {newseg : Seg}
    (narrow : newseg.frg.toNat ≤ 255) : Settled (kcp.parseData newseg) := by
  simp only [Kcp.parseData]
  split_ifs
  · exact settled
  · refine (moveAvailable_settled _ _ rfl ?_).1
    split
    · rename_i reversed success
      refine ⟨settled.window, settled.count, settled.room, ?_⟩
      intro seg membership
      rcases List.mem_append.mp membership with queued | buffered
      · exact settled.narrow seg (List.mem_append_left _ queued)
      · rcases insertLoop_mem success seg (List.mem_reverse.mp buffered) with rfl | old
        · exact narrow
        · exact settled.narrow seg (List.mem_append_right _ (List.mem_reverse.mp old))
    · exact settled.toUnmoved

theorem inputLoop_settled (turns : Nat) {kcp : Kcp} (settled : Settled kcp) (data : Bytes) :
    Settled (Kcp.inputLoop turns kcp data).1 := by
  induction turns generalizing kcp data with
  | zero => exact settled
  | succ turns inductionHypothesis =>
      simp only [Kcp.inputLoop]
      split_ifs
      · exact settled
      · exact settled
      · exact settled
      · refine inductionHypothesis
          (inputSegment_invariant Settled (Q := (·.frg.toNat ≤ 255)) ?_ ?_ settled _ _ ?_) _
        · exact fun holds same => holds.of_side same
        · exact fun holds narrow => parseData_settled holds narrow
        · exact fun _ => Nat.le_of_lt_succ (decodeHeader data).frg.toNat_lt

theorem input_settled {kcp : Kcp} (settled : Settled kcp) (data : Bytes) :
    Settled (kcp.input data).1 := by
  have looped := inputLoop_settled data.length settled data
  simp only [Kcp.input]
  split_ifs
  · exact settled
  · split
    · rename_i parsed parsedEq
      rw [parsedEq] at looped
      exact looped.of_side (growWindow_receiveSide _ _)
    · exact looped

/-! ## One turn of the loop -/

theorem mergeFragments_split (queue : List Seg) (kcp : Kcp) (queueEq : kcp.rcvQueue = queue)
    (count : kcp.nrcvQue.toNat = queue.length) :
    (Kcp.mergeFragments queue kcp).1 = (splitMessage queue).1.map Seg.data ∧
      (Kcp.mergeFragments queue kcp).2.nrcvQue.toNat = (splitMessage queue).2.length ∧
      (Kcp.mergeFragments queue kcp).2.rcvQueue = (splitMessage queue).2 ∧
      (Kcp.mergeFragments queue kcp).2.rcvNxt = kcp.rcvNxt ∧
      (Kcp.mergeFragments queue kcp).2.rcvBuf = kcp.rcvBuf ∧
      (Kcp.mergeFragments queue kcp).2.rcvWnd = kcp.rcvWnd := by
  induction queue generalizing kcp with
  | nil => exact ⟨rfl, count, queueEq, rfl, rfl, rfl⟩
  | cons seg rest inductionHypothesis =>
      rw [List.length_cons] at count
      have decremented : (kcp.nrcvQue - 1).toNat = rest.length := by
        rw [toNat_pred (by omega)]
        omega
      simp only [Kcp.mergeFragments, splitMessage]
      split_ifs
      · exact ⟨rfl, decremented, rfl, rfl, rfl, rfl⟩
      · obtain ⟨chunks, kept⟩ := inductionHypothesis
          { kcp with rcvQueue := rest, nrcvQue := kcp.nrcvQue - 1 } rfl decremented
        exact ⟨congrArg (seg.data :: ·) chunks, kept⟩

theorem splitMessage_append (queue : List Seg) :
    (splitMessage queue).1 ++ (splitMessage queue).2 = queue := by
  induction queue with
  | nil => rfl
  | cons seg rest inductionHypothesis =>
      rw [splitMessage]
      split_ifs
      · rfl
      · rw [List.cons_append, inductionHypothesis]

theorem splitMessage_positive {queue : List Seg} (nonempty : queue ≠ []) :
    0 < (splitMessage queue).1.length := by
  cases queue with
  | nil => exact absurd rfl nonempty
  | cons seg rest =>
      rw [splitMessage]
      split_ifs <;> exact Nat.succ_pos _

theorem peeksize_negative_iff {kcp : Kcp} (unmoved : Unmoved kcp) :
    kcp.peeksize < 0 ↔ ¬ Complete kcp.rcvQueue := by
  cases queueEq : kcp.rcvQueue with
  | nil => simp [Kcp.peeksize, queueEq, Complete]
  | cons seg rest =>
      have narrow := unmoved.narrow seg (by rw [queueEq]; exact List.mem_cons_self)
      have few : kcp.nrcvQue < seg.frg + 1 ↔ ¬ seg.frg.toNat ≤ rest.length := by
        rw [UInt32.lt_iff_toNat_lt, toNat_succ seg.frg (by omega), unmoved.count, queueEq,
          List.length_cons]
        omega
      have loop := peeksizeLoop_nonneg (seg :: rest)
      simp only [Kcp.peeksize, queueEq, Complete]
      split_ifs with last short
      · have zero : seg.frg.toNat = 0 := by rw [last]; rfl
        omega
      · have := few.mp short
        omega
      · have := mt few.mpr short
        omega

theorem recv_complete_settled {kcp : Kcp} (settled : Settled kcp) (complete : Complete kcp.rcvQueue) :
    kcp.recv.2.1 = (Seg.contents (splitMessage kcp.rcvQueue).1).length ∧ Settled kcp.recv.2.2 ∧
      kcp.recv.2.2.stream =
        (splitMessage kcp.rcvQueue).2 ++ kcp.stream.drop wndRcv.toNat := by
  have nonempty := complete.nonempty
  have peeked : ¬ kcp.peeksize < 0 := by
    rw [peeksize_negative_iff settled.toUnmoved]
    exact not_not.mpr complete
  obtain ⟨chunks, count, queue, nxt, buf, window⟩ :=
    mergeFragments_split kcp.rcvQueue kcp rfl settled.count
  have whole := splitMessage_append kcp.rcvQueue
  have unmoved : Unmoved (Kcp.mergeFragments kcp.rcvQueue kcp).2 := by
    refine ⟨window.trans settled.window, ?_, ?_, ?_⟩
    · rw [count, queue]
    · rw [queue]
      have lengths := congrArg List.length whole
      have room := settled.room
      rw [List.length_append] at lengths
      omega
    · intro seg membership
      rw [queue, buf] at membership
      refine settled.narrow seg ?_
      rw [← whole, List.append_assoc]
      exact List.mem_append_right _ membership
  have moved := moveAvailable_settled _ _ rfl unmoved
  have stream : (Kcp.mergeFragments kcp.rcvQueue kcp).2.stream =
      (splitMessage kcp.rcvQueue).2 ++ kcp.stream.drop wndRcv.toNat := by
    have behind : kcp.stream.drop wndRcv.toNat = inOrder kcp.rcvNxt kcp.rcvBuf := by
      have front := settled.front
      have parts := List.take_append_drop wndRcv.toNat kcp.stream
      rw [← front] at parts
      exact List.append_cancel_left parts
    rw [Kcp.stream, queue, nxt, buf, behind]
  simp only [Kcp.recv, if_neg nonempty, if_neg peeked]
  refine ⟨?_, ?_, ?_⟩
  · rw [chunks]
    rfl
  · split_ifs
    · exact moved.1.of_side rfl
    · exact moved.1
  · rw [← stream, ← moved.2]
    split_ifs
    · exact stream_of_side rfl
    · rfl

theorem recv_incomplete {kcp : Kcp} (settled : Settled kcp) (incomplete : ¬ Complete kcp.rcvQueue) :
    ¬ kcp.recv.2.1 > 0 ∧ kcp.recv.2.2 = kcp := by
  have peeked := (peeksize_negative_iff settled.toUnmoved).mpr incomplete
  simp only [Kcp.recv, if_pos peeked]
  split_ifs
  · exact ⟨Int.not_lt.mpr (Int.negSucc_le_zero 0), rfl⟩
  · exact ⟨Int.not_lt.mpr (Int.negSucc_le_zero 1), rfl⟩

/-! ## The whole loop -/

theorem dropLast_cons_nonempty {first : Bytes} (later : List Bytes) (nonempty : first ≠ []) :
    (∀ message ∈ (first :: later).dropLast, message ≠ []) ↔
      ∀ message ∈ later.dropLast, message ≠ [] := by
  cases later with
  | nil => simp
  | cons second rest => simp [nonempty]

theorem dropLast_cons_empty (later : List Bytes) :
    (∀ message ∈ (([] : Bytes) :: later).dropLast, message ≠ []) ↔ later = [] := by
  cases later with
  | nil => simp
  | cons second rest => simp

theorem messages_eq_nil_iff {turns window : Nat} {stream : List Seg}
    (enough : stream.length < turns) :
    messages window turns stream = [] ↔ ¬ Complete (stream.take window) := by
  cases turns with
  | zero => omega
  | succ turns =>
      rw [messages]
      split_ifs with complete
      · simp [complete]
      · simp [complete]

/-- The loop leaves no complete message exactly if none but the last is empty. -/
theorem recvLoop_empties (turns : Nat) {kcp : Kcp} (settled : Settled kcp)
    (enough : kcp.stream.length < turns) :
    (Kcp.recvLoop turns kcp).2.peeksize < 0 ↔
      ∀ message ∈ (messages wndRcv.toNat turns kcp.stream).dropLast, message ≠ [] := by
  induction turns generalizing kcp with
  | zero => omega
  | succ turns inductionHypothesis =>
      have front := settled.front
      rw [Kcp.recvLoop, messages, ← front]
      by_cases complete : Complete kcp.rcvQueue
      · obtain ⟨result, received, stream⟩ := recv_complete_settled settled complete
        have shorter : kcp.recv.2.2.stream.length < turns := by
          have positive := splitMessage_positive complete.nonempty
          have queued := congrArg List.length (splitMessage_append kcp.rcvQueue)
          have parts := congrArg List.length (List.take_append_drop wndRcv.toNat kcp.stream)
          rw [List.length_append, ← front] at parts
          rw [List.length_append] at queued
          rw [stream, List.length_append]
          omega
        rw [if_pos complete, ← stream]
        dsimp only
        rw [result]
        by_cases empty : Seg.contents (splitMessage kcp.rcvQueue).1 = []
        · rw [empty, if_neg (by decide), dropLast_cons_empty, messages_eq_nil_iff shorter,
            ← received.front]
          exact peeksize_negative_iff received.toUnmoved
        · have more := List.length_pos_of_ne_nil empty
          rw [if_pos (by omega), dropLast_cons_nonempty _ empty]
          exact inductionHypothesis received shorter
      · obtain ⟨result, received⟩ := recv_incomplete settled complete
        rw [if_neg complete]
        dsimp only
        rw [if_neg result, received, peeksize_negative_iff settled.toUnmoved]
        simp [complete]

theorem inOrder_length (next : UInt32) (buffer : List Seg) :
    (inOrder next buffer).length ≤ buffer.length := by
  induction buffer generalizing next with
  | nil => exact le_refl 0
  | cons seg rest inductionHypothesis =>
      rw [inOrder]
      split_ifs
      · exact Nat.succ_le_succ (inductionHypothesis _)
      · exact Nat.zero_le _

theorem recvLoop_settled (turns : Nat) {kcp : Kcp} (settled : Settled kcp) :
    Settled (Kcp.recvLoop turns kcp).2 := by
  induction turns generalizing kcp with
  | zero => exact settled
  | succ turns inductionHypothesis =>
      have received : Settled kcp.recv.2.2 := by
        by_cases complete : Complete kcp.rcvQueue
        · exact (recv_complete_settled settled complete).2.1
        · rw [(recv_incomplete settled complete).2]
          exact settled
      simp only [Kcp.recvLoop]
      split_ifs
      · exact inductionHypothesis received
      · exact received

theorem onRead_settled {kcp : Kcp} (settled : Settled kcp) (data : Bytes) :
    Settled (kcp.onRead data).2 :=
  recvLoop_settled _ (input_settled settled data)

/-! ## Every state of an established socket -/

/-- What moves the control block of a socket whose connection is established. -/
inductive SocketStep where
  | send (buffer : Bytes)
  | update (current : UInt32)
  | read (data : Bytes)
  deriving DecidableEq, Repr

def SocketStep.run (kcp : Kcp) : SocketStep → Kcp
  | .send buffer => (kcp.send buffer).1
  | .update current => (kcp.update current).1
  | .read data => (kcp.onRead data).2

def sockets : System Kcp SocketStep where
  initial kcp := ∃ conv, kcp = socketKcp conv
  step kcp step next := next = step.run kcp

theorem socketKcp_settled (conv : UInt32) : Settled (socketKcp conv) :=
  ⟨⟨rfl, rfl, Nat.zero_le _, fun _ membership => by cases membership⟩, rfl⟩

theorem sockets_settled {kcp : Kcp} (reached : sockets.Reachable kcp) : Settled kcp := by
  refine reached.invariant ?_ ?_
  · rintro _ ⟨conv, rfl⟩
    exact socketKcp_settled conv
  · rintro kcp step _ - settled rfl
    cases step with
    | send buffer => exact settled.of_side (send_receiveSide kcp buffer)
    | update current => exact settled.of_side (update_receiveSide kcp current)
    | read data => exact onRead_settled settled data

/-- `OnRead` leaves no complete message exactly if, of the messages that are
complete once the frame has been put in, none but the last is empty. -/
theorem onRead_empties_iff {kcp : Kcp} (reached : sockets.Reachable kcp) (data : Bytes) :
    (kcp.onRead data).2.peeksize < 0 ↔
      ∀ message ∈ (kcp.input data).1.completed.dropLast, message ≠ [] := by
  refine recvLoop_empties _ (input_settled (sockets_settled reached) data) ?_
  have few := inOrder_length (kcp.input data).1.rcvNxt (kcp.input data).1.rcvBuf
  rw [Kcp.stream, List.length_append]
  omega

/-- A datagram with the messages of two calls of `ikcp_send`. -/
def twoMessages (first second : Bytes) : Bytes :=
  encodeSeg { conv := 0, cmd := cmdPush, wnd := wndRcv, sn := 0, data := first } ++ first ++
    (encodeSeg { conv := 0, cmd := cmdPush, wnd := wndRcv, sn := 1, data := second } ++ second)

theorem twoMessages_emptied :
    (∀ message ∈ ((socketKcp 0).input (twoMessages [1] [7])).1.completed.dropLast,
        message ≠ []) ∧ ((socketKcp 0).onRead (twoMessages [1] [7])).2.peeksize < 0 := by
  have nonempty : ∀ message ∈
      ((socketKcp 0).input (twoMessages [1] [7])).1.completed.dropLast, message ≠ [] := by
    decide +kernel
  exact ⟨nonempty, (onRead_empties_iff (.start ⟨0, rfl⟩) _).mpr nonempty⟩

/-- The loop stops behind the empty message. -/
theorem empty_message_stops_loop :
    ¬ ∀ kcp, sockets.Reachable kcp → ∀ data, (kcp.onRead data).2.peeksize < 0 := by
  intro empties
  have left : ((socketKcp 0).onRead (twoMessages [] [7])).2.peeksize = 1 := by decide +kernel
  have negative := empties (socketKcp 0) (.start ⟨0, rfl⟩) (twoMessages [] [7])
  rw [left] at negative
  cases negative

end CrossOver.Engine.Ikcp
