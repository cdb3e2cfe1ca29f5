import CrossOver.Engine.Ikcp.Sender

/-!
# The receiving side

`Receiving all taken kcp` says that the receive queue holds the pieces from the
`taken`-th up to `rcv_nxt`, and that the segments of the reorder buffer carry
pieces of the sender.  A genuine packet keeps it, in whatever order and however
often packets arrive, and `ikcp_recv` takes one whole message off the queue.
-/

namespace CrossOver.Engine.Ikcp

open CrossOver.Lib

variable {all : List Piece}

structure Receiving (all : List Piece) (taken : Nat) (kcp : Kcp) : Prop where
  nxt : kcp.rcvNxt.toNat ≤ all.length
  taken_le : taken ≤ kcp.rcvNxt.toNat
  queue : kcp.rcvQueue.map Seg.piece = (all.take kcp.rcvNxt.toNat).drop taken
  count : kcp.nrcvQue.toNat = kcp.rcvQueue.length
  buf : ∀ seg ∈ kcp.rcvBuf, Carries all seg

/-- The fields of the control block that the receiving side is about. -/
def receivePart (kcp : Kcp) : UInt32 × List Seg × UInt32 × List Seg :=
  (kcp.rcvNxt, kcp.rcvQueue, kcp.nrcvQue, kcp.rcvBuf)

theorem Receiving.of_part {taken : Nat} {kcp kcp' : Kcp} (receiving : Receiving all taken kcp)
    (same : receivePart kcp' = receivePart kcp) : Receiving all taken kcp' := by
  obtain ⟨nxt, same⟩ := Prod.mk.inj same
  obtain ⟨queue, same⟩ := Prod.mk.inj same
  obtain ⟨count, buf⟩ := Prod.mk.inj same
  refine ⟨?_, ?_, ?_, ?_, ?_⟩
  · rw [nxt]; exact receiving.nxt
  · rw [nxt]; exact receiving.taken_le
  · rw [nxt, queue]; exact receiving.queue
  · rw [count, queue]; exact receiving.count
  · rw [buf]; exact receiving.buf

def receiveSide (kcp : Kcp) : UInt32 × UInt32 × List Seg × UInt32 × List Seg :=
  (kcp.rcvWnd, receivePart kcp)

theorem Receiving.of_side {taken : Nat} {kcp kcp' : Kcp} (receiving : Receiving all taken kcp)
    (same : receiveSide kcp' = receiveSide kcp) : Receiving all taken kcp' :=
  receiving.of_part (congrArg Prod.snd same)

theorem Receiving.append {taken : Nat} {kcp : Kcp} (receiving : Receiving all taken kcp)
    (more : List Piece) : Receiving (all ++ more) taken kcp := by
  have nxt := receiving.nxt
  refine ⟨?_, receiving.taken_le, ?_, receiving.count, ?_⟩
  · rw [List.length_append]
    omega
  · rw [List.take_append_of_le_length nxt]
    exact receiving.queue
  · exact fun seg membership => (receiving.buf seg membership).append

/-- The next segment in order moves from the reorder buffer to the queue. -/
theorem moveAvailable_receiving (bounded : all.length < 2 ^ 31) {taken : Nat} (buffer : List Seg)
    (kcp : Kcp) (bufferEq : kcp.rcvBuf = buffer) (receiving : Receiving all taken kcp) :
    Receiving all taken (Kcp.moveAvailable buffer kcp) := by
  induction buffer generalizing kcp with
  | nil => exact receiving
  | cons seg rest inductionHypothesis =>
      rw [Kcp.moveAvailable]
      split_ifs with available
      · obtain ⟨inOrder, room⟩ := available
        obtain ⟨nxt, takenLe, queue, count, buf⟩ := receiving
        have carries := buf seg (by rw [bufferEq]; exact List.mem_cons_self)
        rw [Carries, inOrder] at carries
        obtain ⟨inside, pieceEq⟩ := List.getElem?_eq_some_iff.mp carries
        have next := toNat_succ kcp.rcvNxt (by omega)
        have counted : (kcp.nrcvQue + 1).toNat = kcp.nrcvQue.toNat + 1 := by
          have roomNat := UInt32.lt_iff_toNat_lt.mp room
          have bound := kcp.rcvWnd.toNat_lt
          rw [UInt32.toNat_add]
          change (kcp.nrcvQue.toNat + 1) % 2 ^ 32 = _
          omega
        apply inductionHypothesis
        · rfl
        · refine ⟨?_, ?_, ?_, ?_, ?_⟩
          · rw [next]
            omega
          · rw [next]
            omega
          · rw [next, List.map_append, queue, List.take_add_one, carries,
              List.drop_append_of_le_length (by rw [List.length_take]; omega)]
            rfl
          · rw [counted, count, List.length_append]
            rfl
          · exact fun other membership =>
              buf other (by rw [bufferEq]; exact List.mem_cons_of_mem _ membership)
      · exact receiving

theorem insertLoop_mem {newseg : Seg} {buffer inserted : List Seg}
    (success : Kcp.insertLoop newseg buffer = some inserted) :
    ∀ seg ∈ inserted, seg = newseg ∨ seg ∈ buffer := by
  induction buffer generalizing inserted with
  | nil =>
      obtain rfl := Option.some.inj success
      simp
  | cons first before inductionHypothesis =>
      rw [Kcp.insertLoop] at success
      split_ifs at success
      · obtain rfl := Option.some.inj success
        simp
      · obtain ⟨rest, restEq, rfl⟩ := Option.map_eq_some_iff.mp success
        intro seg membership
        rcases List.mem_cons.mp membership with rfl | later
        · exact Or.inr List.mem_cons_self
        · exact (inductionHypothesis restEq seg later).imp id (List.mem_cons_of_mem _)

theorem parseData_receiving (bounded : all.length < 2 ^ 31) {taken : Nat} {kcp : Kcp}
    (receiving : Receiving all taken kcp) {newseg : Seg} (carries : Carries all newseg) :
    Receiving all taken (kcp.parseData newseg) := by
  simp only [Kcp.parseData]
  split_ifs
  · exact receiving
  · apply moveAvailable_receiving bounded _ _ rfl
    split
    · rename_i reversed success
      refine ⟨receiving.nxt, receiving.taken_le, receiving.queue, receiving.count, ?_⟩
      intro seg membership
      rcases insertLoop_mem success seg (List.mem_reverse.mp membership) with rfl | old
      · exact carries
      · exact receiving.buf seg (List.mem_reverse.mp old)
    · exact receiving

section Frame

variable (kcp : Kcp)

theorem updateAck_receiveSide (rtt : Int32) :
    receiveSide (kcp.updateAck rtt) = receiveSide kcp := by
  simp only [Kcp.updateAck]
  split_ifs <;> rfl

theorem shrinkBuf_receiveSide : receiveSide kcp.shrinkBuf = receiveSide kcp := by
  simp only [Kcp.shrinkBuf]
  split <;> rfl

theorem parseAck_receiveSide (sn : UInt32) : receiveSide (kcp.parseAck sn) = receiveSide kcp := by
  simp only [Kcp.parseAck]
  split_ifs <;> rfl

theorem growWindow_receiveSide (una : UInt32) :
    receiveSide (kcp.growWindow una) = receiveSide kcp := by
  simp only [Kcp.growWindow]
  split_ifs <;> rfl

theorem moveToSndBuf_receiveSide (cwnd wnd : UInt32) (queue : List Seg) :
    receiveSide (Kcp.moveToSndBuf cwnd wnd queue kcp) = receiveSide kcp := by
  induction queue generalizing kcp with
  | nil => rfl
  | cons newseg rest inductionHypothesis =>
      rw [Kcp.moveToSndBuf]
      split_ifs
      · exact inductionHypothesis _
      · rfl

theorem adjustWindow_receiveSide (cwnd resent : UInt32) (change lost : Bool) :
    receiveSide (kcp.adjustWindow cwnd resent change lost) = receiveSide kcp := by
  simp only [Kcp.adjustWindow]
  split_ifs <;> rfl

theorem probed_receiveSide : receiveSide kcp.probed = receiveSide kcp := by
  simp only [Kcp.probed, Kcp.probeWindow]
  split_ifs <;> simp only [receiveSide, receivePart]

theorem flush_receiveSide : receiveSide kcp.flush.1 = receiveSide kcp := by
  rw [Kcp.flush]
  refine (adjustWindow_receiveSide _ _ _ _ _).trans ?_
  have moved := moveToSndBuf_receiveSide { kcp.probed with probe := 0 } kcp.probed.flushWindow
    kcp.wndUnused kcp.probed.sndQueue
  exact moved.trans (probed_receiveSide kcp)

theorem send_receiveSide (buffer : Bytes) : receiveSide (kcp.send buffer).1 = receiveSide kcp := by
  simp only [Kcp.send]
  split_ifs
  · rfl
  · exact flush_receiveSide _

end Frame

/-- The segment that a header and the data behind it are read into. -/
def decodedSeg (header : Header) (data : Bytes) : Seg :=
  { conv := header.conv, cmd := header.cmd.toUInt32, frg := header.frg.toUInt32,
    wnd := header.wnd.toUInt32, ts := header.ts, sn := header.sn, una := header.una, data := data }

theorem Proper.decoded {Q : Seg → Prop} (stable : Stable Q) (encodable : Encodable all)
    (within : ∀ seg, Q seg → seg.piece ∈ all) {seg : Seg} (proper : Proper Q seg) :
    Kcp.knownCmd seg.cmd.toUInt8.toUInt32 = true ∧ seg.data.length < 2 ^ 32 ∧
      ((headerOf seg).cmd.toUInt32 = cmdPush → Q (decodedSeg (headerOf seg) seg.data)) := by
  rcases proper with ⟨control, empty⟩ | ⟨push, property⟩
  · have notPush : (headerOf seg).cmd.toUInt32 ≠ cmdPush := by
      change seg.cmd.toUInt8.toUInt32 ≠ cmdPush
      rcases control with cmd | cmd | cmd <;> rw [cmd] <;> decide
    refine ⟨?_, by rw [empty]; decide, fun cmd => absurd cmd notPush⟩
    rcases control with cmd | cmd | cmd <;> rw [cmd] <;> decide
  · obtain ⟨frg, length⟩ := encodable seg.piece (within seg property)
    have frgEq : (headerOf seg).frg.toUInt32 = seg.frg := by
      apply UInt32.toNat_inj.mp
      change (seg.frg.toNat % 256) = seg.frg.toNat
      exact Nat.mod_eq_of_lt frg
    have pieceEq : (decodedSeg (headerOf seg) seg.data).piece = seg.piece := by
      change ((headerOf seg).frg.toUInt32, seg.data) = (seg.frg, seg.data)
      rw [frgEq]
    have snEq : (decodedSeg (headerOf seg) seg.data).sn = seg.sn := rfl
    exact ⟨by rw [push]; decide, length, fun _ => stable snEq pieceEq property⟩

section Input

variable (Invariant : Kcp → Prop) {Q : Seg → Prop}

/-- Every command but a data segment leaves the receiving side alone. -/
theorem inputSegment_invariant
    (frame : ∀ {kcp kcp'}, Invariant kcp → receiveSide kcp' = receiveSide kcp → Invariant kcp')
    (parse : ∀ {kcp newseg}, Invariant kcp → Q newseg → Invariant (kcp.parseData newseg))
    {kcp : Kcp} (holds : Invariant kcp) (header : Header) (data : Bytes)
    (property : header.cmd.toUInt32 = cmdPush → Q (decodedSeg header data)) :
    Invariant (kcp.inputSegment header data) := by
  have shrunk : Invariant
      (({ kcp with rmtWnd := header.wnd.toUInt32 } : Kcp).parseUna header.una).shrinkBuf :=
    frame holds (shrinkBuf_receiveSide _)
  simp only [Kcp.inputSegment]
  split_ifs with ack sample push window order
  · refine frame shrunk ((shrinkBuf_receiveSide _).trans ((parseAck_receiveSide _ _).trans ?_))
    exact updateAck_receiveSide _ _
  · exact frame shrunk ((shrinkBuf_receiveSide _).trans (parseAck_receiveSide _ _))
  · refine parse ?_ (property push)
    exact frame shrunk rfl
  · exact frame shrunk rfl
  · exact shrunk
  · exact frame shrunk rfl
  · exact shrunk

/-- What every data segment of a packet keeps, the packet keeps. -/
theorem input_invariant
    (frame : ∀ {kcp kcp'}, Invariant kcp → receiveSide kcp' = receiveSide kcp → Invariant kcp')
    (parse : ∀ {kcp newseg}, Invariant kcp → Q newseg → Invariant (kcp.parseData newseg))
    (stable : Stable Q) (encodable : Encodable all) (within : ∀ seg, Q seg → seg.piece ∈ all)
    {kcp : Kcp} (holds : Invariant kcp) {packet : Bytes} (proper : ProperPacket Q packet) :
    Invariant (kcp.input packet).1 := by
  obtain ⟨segs, rfl, each⟩ := proper
  have decoded := fun seg membership => (each seg membership).decoded stable encodable within
  have loop := inputLoop_packet segs (segs.flatMap wire).length kcp
    (fun seg membership => (decoded seg membership).1)
    (fun seg membership => (decoded seg membership).2.1) (packet_length segs)
  have worked : ∀ (rest : List Seg), (∀ seg ∈ rest, Proper Q seg) → ∀ kcp, Invariant kcp →
      Invariant (rest.foldl (fun kcp seg => kcp.inputSegment (headerOf seg) seg.data) kcp) := by
    intro rest
    induction rest with
    | nil => exact fun _ kcp holds => holds
    | cons seg later inductionHypothesis =>
        intro each kcp holds
        refine inductionHypothesis
          (fun other membership => each other (List.mem_cons_of_mem _ membership)) _ ?_
        exact inputSegment_invariant Invariant frame parse holds _ _
          ((each seg List.mem_cons_self).decoded stable encodable within).2.2
  simp only [Kcp.input]
  split_ifs
  · exact holds
  · rw [loop]
    exact frame (worked segs each kcp holds) (growWindow_receiveSide _ _)

end Input

theorem input_receiving (bounded : all.length < 2 ^ 31) (encodable : Encodable all) {taken : Nat}
    {kcp : Kcp} (receiving : Receiving all taken kcp) {packet : Bytes}
    (genuine : GenuinePacket all packet) : Receiving all taken (kcp.input packet).1 :=
  input_invariant (Receiving all taken) (fun holds same => holds.of_side same)
    (fun holds carries => parseData_receiving bounded holds carries) (carries_stable all) encodable
    (fun _ carries => List.mem_of_getElem? carries) receiving genuine

section Recv

theorem toNat_pred {count : UInt32} (positive : 0 < count.toNat) :
    (count - 1).toNat = count.toNat - 1 := by
  have one : (1 : UInt32) ≤ count := UInt32.le_iff_toNat_le.mpr positive
  rw [UInt32.toNat_sub_of_le _ _ one]
  rfl

theorem mergeFragments_message (mss count : Nat) (buffer : Bytes) (few : count ≤ 255)
    (positive : 0 < count) (queue : List Seg) (kcp : Kcp) (more : List Piece)
    (front : queue.map Seg.piece = (Kcp.fragments mss count buffer).map Seg.piece ++ more)
    (counted : kcp.nrcvQue.toNat = queue.length) :
    (Kcp.mergeFragments queue kcp).1 = (Kcp.fragments mss count buffer).map Seg.data ∧
      (Kcp.mergeFragments queue kcp).2.rcvQueue.map Seg.piece = more ∧
      (Kcp.mergeFragments queue kcp).2.nrcvQue.toNat =
        (Kcp.mergeFragments queue kcp).2.rcvQueue.length ∧
      (Kcp.mergeFragments queue kcp).2.rcvNxt = kcp.rcvNxt ∧
      (Kcp.mergeFragments queue kcp).2.rcvBuf = kcp.rcvBuf := by
  induction count generalizing buffer queue kcp with
  | zero => omega
  | succ count inductionHypothesis =>
      cases queue with
      | nil => simp [Kcp.fragments] at front
      | cons seg rest =>
          rw [Kcp.fragments, List.map_cons, List.map_cons, List.cons_append] at front
          obtain ⟨headEq, restEq⟩ := List.cons.inj front
          obtain ⟨frgEq, dataEq⟩ := Prod.mk.inj headEq
          have frgNat : seg.frg.toNat = count := by
            have cast := congrArg UInt32.toNat frgEq
            rw [cast, UInt32.toNat_ofNat']
            omega
          have decremented : (kcp.nrcvQue - 1).toNat = rest.length := by
            rw [List.length_cons] at counted
            rw [toNat_pred (by omega)]
            omega
          simp only [Kcp.mergeFragments]
          split_ifs with last
          · have none : count = 0 := by
              rw [← frgNat, last]
              rfl
            subst none
            refine ⟨?_, restEq, decremented, rfl, rfl⟩
            simp only [Kcp.fragments, List.map_cons, List.map_nil]
            rw [dataEq]
          · have some : 0 < count := by
              rcases Nat.eq_zero_or_pos count with none | some
              · refine absurd ?_ last
                apply UInt32.toNat_inj.mp
                rw [frgNat, none]
                rfl
              · exact some
            obtain ⟨chunks, queueEq, countEq, nxt, buf⟩ := inductionHypothesis
              (buffer.drop (min buffer.length mss)) (by omega) some rest
              { kcp with rcvQueue := rest, nrcvQue := kcp.nrcvQue - 1 } restEq decremented
            refine ⟨?_, queueEq, countEq, nxt, buf⟩
            simp only [Kcp.fragments, List.map_cons]
            rw [chunks, dataEq]

theorem fragmentCount_positive (mss len : Nat) (positive : 0 < mss) :
    0 < Kcp.fragmentCount mss len := by
  simp only [Kcp.fragmentCount]
  split_ifs with short
  · exact Nat.one_pos
  · exact Nat.div_pos (by omega) positive

/-- A size that is not negative means that the whole first message is queued. -/
theorem peeksize_complete {kcp : Kcp} {seg : Seg} {rest : List Seg}
    (queue : kcp.rcvQueue = seg :: rest) (peeked : ¬ kcp.peeksize < 0)
    (small : seg.frg.toNat < 255) (counted : kcp.nrcvQue.toNat = kcp.rcvQueue.length) :
    seg.frg.toNat + 1 ≤ kcp.rcvQueue.length := by
  by_cases last : seg.frg = 0
  · rw [last, queue, List.length_cons]
    exact Nat.succ_le_succ (Nat.zero_le _)
  · have enough : ¬ kcp.nrcvQue < seg.frg + 1 := by
      intro few
      apply peeked
      simp only [Kcp.peeksize, queue, if_neg last, if_pos few]
      decide
    have enoughNat : (seg.frg + 1).toNat ≤ kcp.nrcvQue.toNat :=
      UInt32.le_iff_toNat_le.mp (UInt32.not_lt.mp enough)
    rw [toNat_succ seg.frg (by omega), counted] at enoughNat
    exact enoughNat

theorem pieces_drop (messages : List Bytes) (k : Nat) :
    (pieces messages).drop (pieces (messages.take k)).length = pieces (messages.drop k) := by
  have split : pieces messages = pieces (messages.take k) ++ pieces (messages.drop k) := by
    rw [pieces, pieces, pieces, ← List.flatMap_append, List.take_append_drop]
  rw [split, List.drop_left]

theorem messagePieces_length (message : Bytes) :
    (messagePieces message).length = Kcp.fragmentCount mssDef message.length := by
  rw [messagePieces, List.length_map, fragments_length]

/-- What the first queued segment says about the message it belongs to. -/
theorem messagePieces_head (message : Bytes) (few : Kcp.fragmentCount mssDef message.length ≤ 255)
    {piece : Piece} {rest : List Piece} (front : messagePieces message = piece :: rest) :
    piece.1.toNat + 1 = Kcp.fragmentCount mssDef message.length := by
  have positive := fragmentCount_positive mssDef message.length (by decide)
  obtain ⟨count, countEq⟩ : ∃ count, Kcp.fragmentCount mssDef message.length = count + 1 :=
    ⟨Kcp.fragmentCount mssDef message.length - 1, by omega⟩
  rw [messagePieces, countEq, Kcp.fragments, List.map_cons] at front
  obtain ⟨rfl, -⟩ := List.cons.inj front
  change (UInt32.ofNat count).toNat + 1 = _
  rw [UInt32.toNat_ofNat']
  omega

section Front

variable {messages : List Bytes} {k : Nat} {kcp : Kcp}

theorem pieces_take_succ (inside : k < messages.length) :
    (pieces (messages.take (k + 1))).length =
      (pieces (messages.take k)).length + (messagePieces messages[k]).length := by
  rw [List.take_add_one, List.getElem?_eq_getElem inside, pieces, List.flatMap_append,
    List.length_append]
  simp [pieces]

theorem Receiving.queue_length {taken : Nat} (receiving : Receiving all taken kcp) :
    kcp.rcvQueue.length = kcp.rcvNxt.toNat - taken := by
  obtain ⟨nxt, takenLe, queue, -, -⟩ := receiving
  have length := congrArg List.length queue
  rw [List.length_map, List.length_drop, List.length_take] at length
  omega

theorem Receiving.queue_front
    (receiving : Receiving (pieces messages) (pieces (messages.take k)).length kcp)
    (inside : k < messages.length) :
    kcp.rcvQueue.map Seg.piece =
      (messagePieces messages[k] ++ pieces (messages.drop (k + 1))).take kcp.rcvQueue.length := by
  rw [receiving.queue_length, receiving.queue, List.drop_take, pieces_drop,
    List.drop_eq_getElem_cons inside]
  rfl

/-- The first queued segment is the first fragment of its message. -/
theorem Receiving.head_frg
    (receiving : Receiving (pieces messages) (pieces (messages.take k)).length kcp)
    (inside : k < messages.length)
    (few : Kcp.fragmentCount mssDef messages[k].length ≤ 255) {seg : Seg} {rest : List Seg}
    (queueEq : kcp.rcvQueue = seg :: rest) :
    seg.frg.toNat + 1 = Kcp.fragmentCount mssDef messages[k].length := by
  have front := receiving.queue_front inside
  cases form : messagePieces messages[k] with
  | nil =>
      have length := messagePieces_length messages[k]
      have positive := fragmentCount_positive mssDef messages[k].length (by decide)
      rw [form, List.length_nil] at length
      omega
  | cons first tail =>
      rw [form, queueEq, List.map_cons, List.cons_append, List.length_cons,
        List.take_succ_cons] at front
      have headFrg := messagePieces_head messages[k] few form
      rw [← (List.cons.inj front).1] at headFrg
      exact headFrg

/-- A message that is queued as a whole is merged off the queue. -/
theorem merge_receiving
    (few : ∀ message ∈ messages, Kcp.fragmentCount mssDef message.length ≤ 255)
    (receiving : Receiving (pieces messages) (pieces (messages.take k)).length kcp)
    (nonempty : kcp.rcvQueue ≠ []) (peeked : ¬ kcp.peeksize < 0) :
    ∃ message, messages[k]? = some message ∧
      (Kcp.mergeFragments kcp.rcvQueue kcp).1 = (messagePieces message).map Prod.snd ∧
      Receiving (pieces messages) (pieces (messages.take (k + 1))).length
        (Kcp.mergeFragments kcp.rcvQueue kcp).2 := by
  obtain ⟨seg, rest, queueEq⟩ := List.exists_cons_of_ne_nil nonempty
  have lengthEq := receiving.queue_length
  have inside : k < messages.length := by
    by_contra outside
    have all := receiving.nxt
    rw [List.take_of_length_le (Nat.le_of_not_lt outside), queueEq, List.length_cons] at lengthEq
    omega
  have takeEq := pieces_take_succ inside
  have small := few messages[k] (List.getElem_mem inside)
  have positive := fragmentCount_positive mssDef messages[k].length (by decide)
  have headFrg := receiving.head_frg inside small queueEq
  have front := receiving.queue_front inside
  obtain ⟨nxt, takenLe, -, count, buf⟩ := receiving
  have complete := peeksize_complete queueEq peeked (by omega) count
  have enough : (messagePieces messages[k]).length ≤ kcp.rcvQueue.length := by
    rw [messagePieces_length, ← headFrg]
    exact complete
  rw [List.take_append, List.take_of_length_le enough] at front
  obtain ⟨chunks, mergedQueue, mergedCount, mergedNxt, mergedBuf⟩ :=
    mergeFragments_message mssDef _ messages[k] small positive kcp.rcvQueue kcp _ front count
  refine ⟨messages[k], List.getElem?_eq_getElem inside, ?_, ?_, ?_, ?_, mergedCount, ?_⟩
  · rw [chunks, messagePieces, List.map_map]
    rfl
  · rw [mergedNxt]
    exact nxt
  · rw [mergedNxt, takeEq]
    omega
  · rw [mergedQueue, mergedNxt, List.drop_take, pieces_drop, takeEq, Nat.sub_add_eq, lengthEq]
  · rw [mergedBuf]
    exact buf

/-- `ikcp_recv` hands over the next message piece by piece if it is complete. -/
theorem recv_complete
    (few : ∀ message ∈ messages, Kcp.fragmentCount mssDef message.length ≤ 255)
    (bounded : (pieces messages).length < 2 ^ 31)
    (receiving : Receiving (pieces messages) (pieces (messages.take k)).length kcp)
    (nonempty : kcp.rcvQueue ≠ []) (peeked : ¬ kcp.peeksize < 0) :
    ∃ message, messages[k]? = some message ∧
      kcp.recv.1 = (messagePieces message).map Prod.snd ∧
      Receiving (pieces messages) (pieces (messages.take (k + 1))).length kcp.recv.2.2 := by
  obtain ⟨message, found, chunks, merged⟩ := merge_receiving few receiving nonempty peeked
  have moved := moveAvailable_receiving bounded _ _ rfl merged
  simp only [Kcp.recv, if_neg nonempty, if_neg peeked]
  refine ⟨message, found, chunks, ?_⟩
  split_ifs
  · exact moved.of_side rfl
  · exact moved

/-- `ikcp_recv` hands over the next message piece by piece, or nothing. -/
theorem recv_receiving
    (few : ∀ message ∈ messages, Kcp.fragmentCount mssDef message.length ≤ 255)
    (bounded : (pieces messages).length < 2 ^ 31)
    (receiving : Receiving (pieces messages) (pieces (messages.take k)).length kcp) :
    (kcp.recv.1 = [] ∧
        Receiving (pieces messages) (pieces (messages.take k)).length kcp.recv.2.2) ∨
      ∃ message, messages[k]? = some message ∧
        kcp.recv.1 = (messagePieces message).map Prod.snd ∧
        Receiving (pieces messages) (pieces (messages.take (k + 1))).length kcp.recv.2.2 := by
  by_cases empty : kcp.rcvQueue = []
  · refine Or.inl ?_
    simp only [Kcp.recv, if_pos empty]
    exact ⟨trivial, receiving⟩
  · by_cases waiting : kcp.peeksize < 0
    · refine Or.inl ?_
      simp only [Kcp.recv, if_neg empty, if_pos waiting]
      exact ⟨trivial, receiving⟩
    · exact Or.inr (recv_complete few bounded receiving empty waiting)

end Front

/-- The assertion at the end of the merge loop holds. -/
theorem mergeFragments_length (queue : List Seg) (kcp : Kcp) :
    ((Kcp.mergeFragments queue kcp).1.flatten.length : Int) = Kcp.peeksizeLoop queue := by
  induction queue generalizing kcp with
  | nil => rfl
  | cons seg rest inductionHypothesis =>
      simp only [Kcp.mergeFragments, Kcp.peeksizeLoop]
      split_ifs
      · simp
      · rw [← inductionHypothesis { kcp with rcvQueue := rest, nrcvQue := kcp.nrcvQue - 1 }]
        simp

end Recv

end CrossOver.Engine.Ikcp
