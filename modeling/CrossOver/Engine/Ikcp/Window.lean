import CrossOver.Engine.Ikcp.Messages

/-!
# The receive window

`ikcp_peeksize` is negative until all fragments of the first message stand in
the receive queue, and the queue takes no more than `rcv_wnd` segments.  As long
as no message has more fragments than that, a full queue always starts with a
complete message, and repeated calls of `ikcp_recv` hand over everything that
has arrived.
-/

namespace CrossOver.Engine.Ikcp

open CrossOver.Lib

/-- All fragments of the first `k` accepted messages have been taken in. -/
def Arrived (sender receiver : Endpoint) (k : Nat) : Prop :=
  ∀ i < (pieces (sender.accepted.take k)).length,
    i < receiver.kcp.rcvNxt.toNat ∨ ∃ seg ∈ receiver.kcp.rcvBuf, seg.sn.toNat = i

/-- The queue is full and `ikcp_recv` delivers nothing. -/
def Kcp.Wedged (kcp : Kcp) : Prop :=
  kcp.rcvWnd.toNat ≤ kcp.rcvQueue.length ∧ kcp.peeksize < 0

instance (kcp : Kcp) : Decidable kcp.Wedged := inferInstanceAs (Decidable (_ ∧ _))

structure Unwedged (sender receiver : Endpoint) : Prop where
  free : ¬ receiver.kcp.Wedged
  delivers : (pieces sender.accepted).length < 2 ^ 31 → ∀ k, Arrived sender receiver k →
    ∃ rounds, (sender.accepted.take k).flatten <+: (Endpoint.recv^[rounds] receiver).received.flatten

/-! ## A full queue starts with a complete message -/

theorem peeksizeLoop_nonneg (queue : List Seg) : 0 ≤ Kcp.peeksizeLoop queue := by
  induction queue with
  | nil => exact le_refl 0
  | cons seg rest inductionHypothesis =>
      rw [Kcp.peeksizeLoop]
      split_ifs <;> omega

theorem peeksize_of_complete {kcp : Kcp} {seg : Seg} {rest : List Seg}
    (queue : kcp.rcvQueue = seg :: rest) (small : seg.frg.toNat < 255)
    (counted : kcp.nrcvQue.toNat = kcp.rcvQueue.length)
    (complete : seg.frg.toNat + 1 ≤ kcp.rcvQueue.length) : ¬ kcp.peeksize < 0 := by
  have enough : ¬ kcp.nrcvQue < seg.frg + 1 := by
    rw [UInt32.lt_iff_toNat_lt, toNat_succ seg.frg (by omega), counted]
    omega
  have loop := peeksizeLoop_nonneg kcp.rcvQueue
  simp only [Kcp.peeksize, queue, if_neg enough] at loop ⊢
  split_ifs
  · omega
  · omega

theorem fragments_frg (mss count : Nat) (buffer : Bytes) (few : count ≤ 255) :
    ∀ piece ∈ (Kcp.fragments mss count buffer).map Seg.piece, piece.1.toNat < count := by
  induction count generalizing buffer with
  | zero => simp [Kcp.fragments]
  | succ count inductionHypothesis =>
      intro piece membership
      rw [Kcp.fragments, List.map_cons] at membership
      rcases List.mem_cons.mp membership with rfl | later
      · change (UInt32.ofNat count).toNat < count + 1
        rw [UInt32.toNat_ofNat']
        omega
      · exact (inductionHypothesis _ (by omega) piece later).trans (Nat.lt_succ_self count)

/-- No fragment number exceeds the window. -/
def Narrow (all : List Piece) : Prop := ∀ piece ∈ all, piece.1.toNat < wndRcv.toNat

theorem fragmentCount_window {len : Nat} (short : len ≤ 44032) :
    Kcp.fragmentCount mssDef len ≤ wndRcv.toNat := by
  have window : wndRcv.toNat = 32 := rfl
  rw [window, Kcp.fragmentCount, mssDef]
  split_ifs
  · omega
  · omega

theorem pieces_narrow {messages : List Bytes}
    (short : ∀ message ∈ messages, message.length ≤ 44032) : Narrow (pieces messages) := by
  intro piece membership
  obtain ⟨message, inside, within⟩ := List.mem_flatMap.mp membership
  have few := fragmentCount_window (short message inside)
  have window : wndRcv.toNat = 32 := rfl
  exact (fragments_frg mssDef _ message (by omega) piece within).trans_le few

theorem Holding.peeked {all : List Piece} {kcp : Kcp} (holding : Holding all kcp)
    (narrow : Narrow all) (full : wndRcv.toNat ≤ kcp.rcvQueue.length) : ¬ kcp.peeksize < 0 := by
  have window : wndRcv.toNat = 32 := rfl
  cases queue : kcp.rcvQueue with
  | nil =>
      rw [queue, List.length_nil] at full
      omega
  | cons seg rest =>
      have first := holding.queue seg (by rw [queue]; exact List.mem_cons_self)
      have frg : seg.frg.toNat < wndRcv.toNat := narrow seg.piece first
      exact peeksize_of_complete queue (by omega) holding.count (by omega)

/-! ## The reorder buffer is sorted -/

/-- The reorder buffer is sorted and ahead of the queue. -/
structure Ordered (kcp : Kcp) : Prop where
  sorted : kcp.rcvBuf.Pairwise fun seg later => seg.sn.toNat < later.sn.toNat
  ahead : ∀ seg ∈ kcp.rcvBuf, kcp.rcvNxt.toNat ≤ seg.sn.toNat

theorem itimediff_small {later earlier : UInt32} (laterSmall : later.toNat < 2 ^ 31)
    (earlierSmall : earlier.toNat < 2 ^ 31) :
    itimediff later earlier = (later.toNat : Int) - earlier.toNat := by
  have difference : (later - earlier).toNat =
      (2 ^ 32 - earlier.toNat + later.toNat) % 2 ^ 32 := UInt32.toNat_sub later earlier
  change (later - earlier).toBitVec.toInt = _
  rw [BitVec.toInt_eq_toNat_cond,
    show (later - earlier).toBitVec.toNat = (later - earlier).toNat from rfl, difference]
  split_ifs <;> omega

/-- Inserting from the tail keeps a descending list descending. -/
theorem insertLoop_sorted {newseg : Seg} {buffer inserted : List Seg}
    (newSmall : newseg.sn.toNat < 2 ^ 31) (small : ∀ seg ∈ buffer, seg.sn.toNat < 2 ^ 31)
    (sorted : buffer.Pairwise fun seg earlier => earlier.sn.toNat < seg.sn.toNat)
    (success : Kcp.insertLoop newseg buffer = some inserted) :
    inserted.Pairwise fun seg earlier => earlier.sn.toNat < seg.sn.toNat := by
  induction buffer generalizing inserted with
  | nil =>
      obtain rfl := Option.some.inj success
      exact List.pairwise_singleton _ _
  | cons first before inductionHypothesis =>
      have firstSmall := small first List.mem_cons_self
      obtain ⟨belowFirst, sortedBefore⟩ := List.pairwise_cons.mp sorted
      rw [Kcp.insertLoop, itimediff_small newSmall firstSmall] at success
      split_ifs at success with same later
      · obtain rfl := Option.some.inj success
        refine List.pairwise_cons.mpr ⟨?_, sorted⟩
        intro seg membership
        rcases List.mem_cons.mp membership with rfl | below
        · omega
        · have := belowFirst seg below
          omega
      · obtain ⟨rest, restEq, rfl⟩ := Option.map_eq_some_iff.mp success
        refine List.pairwise_cons.mpr ⟨?_, inductionHypothesis
          (fun seg membership => small seg (List.mem_cons_of_mem _ membership)) sortedBefore
          restEq⟩
        intro seg membership
        rcases insertLoop_mem restEq seg membership with rfl | below
        · have different : first.sn.toNat ≠ seg.sn.toNat := fun same' =>
            same (UInt32.toNat_inj.mp same')
          omega
        · exact belowFirst seg below

section Ordered

variable {all : List Piece}

theorem Carries.small {seg : Seg} (bounded : all.length < 2 ^ 31) (carries : Carries all seg) :
    seg.sn.toNat < 2 ^ 31 :=
  (List.getElem?_eq_some_iff.mp carries).1.trans bounded

/-- Moving segments to the queue keeps the buffer sorted, passes no segment by
and never moves the front back. -/
theorem moveAvailable_ordered (bounded : all.length < 2 ^ 31) (buffer : List Seg) (kcp : Kcp)
    (bufferEq : kcp.rcvBuf = buffer) (carried : ∀ seg ∈ kcp.rcvBuf, Carries all seg)
    (ordered : Ordered kcp) :
    Ordered (Kcp.moveAvailable buffer kcp) ∧
      kcp.rcvNxt.toNat ≤ (Kcp.moveAvailable buffer kcp).rcvNxt.toNat ∧
      ∀ seg ∈ kcp.rcvBuf, seg.sn.toNat < (Kcp.moveAvailable buffer kcp).rcvNxt.toNat ∨
        seg ∈ (Kcp.moveAvailable buffer kcp).rcvBuf := by
  induction buffer generalizing kcp with
  | nil => exact ⟨ordered, le_refl _, fun seg membership => Or.inr membership⟩
  | cons first rest inductionHypothesis =>
      rw [Kcp.moveAvailable]
      split_ifs with available
      · obtain ⟨sorted, ahead⟩ := ordered
        rw [bufferEq] at sorted carried ahead ⊢
        obtain ⟨aboveFirst, sortedRest⟩ := List.pairwise_cons.mp sorted
        have firstSmall := (carried first List.mem_cons_self).small bounded
        have next : (kcp.rcvNxt + 1).toNat = kcp.rcvNxt.toNat + 1 :=
          toNat_succ kcp.rcvNxt (by rw [← available.1]; exact firstSmall)
        obtain ⟨movedOrdered, grown, kept⟩ := inductionHypothesis
          { kcp with
            rcvBuf := rest
            nrcvBuf := kcp.nrcvBuf - 1
            rcvQueue := kcp.rcvQueue ++ [first]
            nrcvQue := kcp.nrcvQue + 1
            rcvNxt := kcp.rcvNxt + 1 }
          rfl (fun seg membership => carried seg (List.mem_cons_of_mem _ membership))
          ⟨sortedRest, fun seg membership => by
            have := aboveFirst seg membership
            rw [available.1] at this
            rw [next]
            exact this⟩
        rw [next] at grown
        refine ⟨movedOrdered, by omega, ?_⟩
        intro seg membership
        rcases List.mem_cons.mp membership with rfl | later
        · rw [available.1]
          exact Or.inl (by omega)
        · exact kept seg later
      · exact ⟨ordered, le_refl _, fun seg membership => Or.inr membership⟩

theorem Ordered.of_side {kcp kcp' : Kcp} (ordered : Ordered kcp)
    (same : receiveSide kcp' = receiveSide kcp) : Ordered kcp' := by
  obtain ⟨-, same⟩ := Prod.mk.inj same
  obtain ⟨nxt, same⟩ := Prod.mk.inj same
  obtain ⟨-, same⟩ := Prod.mk.inj same
  obtain ⟨-, buf⟩ := Prod.mk.inj same
  exact ⟨buf ▸ ordered.sorted, by rw [buf, nxt]; exact ordered.ahead⟩

theorem parseData_ordered (bounded : all.length < 2 ^ 31) {taken : Nat} {kcp : Kcp}
    (receiving : Receiving all taken kcp) (ordered : Ordered kcp) {newseg : Seg}
    (carries : Carries all newseg) : Ordered (kcp.parseData newseg) := by
  have newSmall := carries.small bounded
  have nxtSmall : kcp.rcvNxt.toNat < 2 ^ 31 := receiving.nxt.trans_lt bounded
  simp only [Kcp.parseData]
  split_ifs with outside
  · exact ordered
  · rw [not_or, itimediff_small newSmall nxtSmall] at outside
    have notBehind := outside.2
    split
    · next reversed success =>
        have within := insertLoop_mem success
        refine (moveAvailable_ordered bounded _ _ rfl ?_ ⟨?_, ?_⟩).1
        · intro seg membership
          rcases within seg (List.mem_reverse.mp membership) with rfl | old
          · exact carries
          · exact receiving.buf seg (List.mem_reverse.mp old)
        · rw [List.pairwise_reverse]
          refine insertLoop_sorted newSmall ?_ (List.pairwise_reverse.mpr ordered.sorted) success
          exact fun seg membership =>
            (receiving.buf seg (List.mem_reverse.mp membership)).small bounded
        · intro seg membership
          rcases within seg (List.mem_reverse.mp membership) with rfl | old
          · change kcp.rcvNxt.toNat ≤ seg.sn.toNat
            omega
          · exact ordered.ahead seg (List.mem_reverse.mp old)
    · exact (moveAvailable_ordered bounded _ _ rfl receiving.buf ordered).1

end Ordered

theorem mergeFragments_buf (queue : List Seg) (kcp : Kcp) :
    (Kcp.mergeFragments queue kcp).2.rcvBuf = kcp.rcvBuf ∧
      (Kcp.mergeFragments queue kcp).2.rcvNxt = kcp.rcvNxt := by
  induction queue generalizing kcp with
  | nil => exact ⟨rfl, rfl⟩
  | cons seg rest inductionHypothesis =>
      simp only [Kcp.mergeFragments]
      split_ifs
      · exact ⟨rfl, rfl⟩
      · exact inductionHypothesis _

/-- `ikcp_recv` keeps the buffer sorted and loses nothing of it. -/
theorem recv_ordered {all : List Piece} (bounded : all.length < 2 ^ 31) {taken : Nat} {kcp : Kcp}
    (receiving : Receiving all taken kcp) (ordered : Ordered kcp) :
    Ordered kcp.recv.2.2 ∧ kcp.rcvNxt.toNat ≤ kcp.recv.2.2.rcvNxt.toNat ∧
      ∀ seg ∈ kcp.rcvBuf, seg.sn.toNat < kcp.recv.2.2.rcvNxt.toNat ∨
        seg ∈ kcp.recv.2.2.rcvBuf := by
  obtain ⟨bufEq, nxtEq⟩ := mergeFragments_buf kcp.rcvQueue kcp
  have merged : Ordered (Kcp.mergeFragments kcp.rcvQueue kcp).2 :=
    ⟨by rw [bufEq]; exact ordered.sorted, by rw [bufEq, nxtEq]; exact ordered.ahead⟩
  have moved := moveAvailable_ordered bounded _ _ rfl (by rw [bufEq]; exact receiving.buf) merged
  rw [nxtEq] at moved
  have unchanged : Ordered kcp ∧ kcp.rcvNxt.toNat ≤ kcp.rcvNxt.toNat ∧
      ∀ seg ∈ kcp.rcvBuf, seg.sn.toNat < kcp.rcvNxt.toNat ∨ seg ∈ kcp.rcvBuf :=
    ⟨ordered, le_refl _, fun seg membership => Or.inr membership⟩
  simp only [Kcp.recv]
  split_ifs
  · exact unchanged
  · exact unchanged
  · exact ⟨moved.1.of_side rfl, moved.2.1, fun seg membership =>
      moved.2.2 seg (by rw [bufEq]; exact membership)⟩
  · exact ⟨moved.1, moved.2.1, fun seg membership =>
      moved.2.2 seg (by rw [bufEq]; exact membership)⟩

def BothOrdered (s : State) : Prop := ∀ side, Bounded (s side) → Ordered (s side.other).kcp

theorem reachable_ordered {s : State} (reached : link.Reachable s) : BothOrdered s := by
  refine System.Reachable.invariant ?_ ?_ reached
  · rintro s ⟨conv, rfl⟩ side -
    exact ⟨List.Pairwise.nil, fun seg membership => by cases membership⟩
  · intro s action t before ordered step side bounded
    have boundedBefore := bounded_before step bounded
    have here := ordered side boundedBefore
    have linked := reachable_linked before side boundedBefore
    obtain ⟨k, -, receiving, -⟩ := linked.receiving
    rcases step_cases step side with ⟨same, moved⟩ | ⟨same, moved⟩
    · rw [same]
      exact here
    · generalize t side.other = after at moved
      cases moved with
      | send buffer isInt => exact here.of_side (send_receiveSide _ _)
      | update current => exact here.of_side (update_receiveSide _ _)
      | recv => exact (recv_ordered boundedBefore receiving here).1
      | @input packet put =>
          have both := input_invariant
            (fun kcp => Receiving (pieces (s side).accepted) _ kcp ∧ Ordered kcp)
            (fun holds same => ⟨holds.1.of_side same, holds.2.of_side same⟩)
            (fun holds carries => ⟨parseData_receiving boundedBefore holds.1 carries,
              parseData_ordered boundedBefore holds.1 holds.2 carries⟩)
            (carries_stable _) (pieces_encodable linked.few)
            (fun _ carries => List.mem_of_getElem? carries) ⟨receiving, here⟩
            (linked.packets packet put)
          exact both.2

/-! ## Everything that has arrived can be delivered -/

section Deliver

variable {sender receiver : Endpoint} {k done : Nat}

theorem Arrived.recv (bounded : Bounded sender) {taken : Nat}
    (receiving : Receiving (pieces sender.accepted) taken receiver.kcp)
    (ordered : Ordered receiver.kcp) (arrived : Arrived sender receiver k) :
    Arrived sender receiver.recv k := by
  obtain ⟨-, grown, kept⟩ := recv_ordered bounded receiving ordered
  intro i inside
  rcases arrived i inside with behind | ⟨seg, membership, rfl⟩
  · exact Or.inl (behind.trans_le grown)
  · rcases kept seg membership with moved | waiting
    · exact Or.inl moved
    · exact Or.inr ⟨seg, waiting, rfl⟩

theorem pieces_take_mono (messages : List Bytes) {j k : Nat} (earlier : j ≤ k) :
    (pieces (messages.take j)).length ≤ (pieces (messages.take k)).length := by
  have split : messages.take k = messages.take j ++ (messages.take k).drop j := by
    conv_lhs => rw [← List.take_append_drop j (messages.take k)]
    rw [List.take_take, Nat.min_eq_left earlier]
  rw [split, pieces, pieces, List.flatMap_append, List.length_append]
  omega

/-- A segment that is next in order stands at the front of the buffer. -/
theorem Ordered.head {kcp : Kcp} (ordered : Ordered kcp) {seg : Seg} (waiting : seg ∈ kcp.rcvBuf)
    (next : seg.sn.toNat = kcp.rcvNxt.toNat) :
    ∃ first ∈ kcp.rcvBuf.head?, first.sn = kcp.rcvNxt := by
  obtain ⟨sorted, ahead⟩ := ordered
  cases buffer : kcp.rcvBuf with
  | nil =>
      rw [buffer] at waiting
      cases waiting
  | cons first rest =>
      rw [buffer] at waiting sorted ahead
      refine ⟨first, rfl, UInt32.toNat_inj.mp ?_⟩
      have firstAhead := ahead first List.mem_cons_self
      rcases List.mem_cons.mp waiting with rfl | later
      · exact next
      · have below := (List.pairwise_cons.mp sorted).1 seg later
        omega

theorem next_complete
    (few : ∀ message ∈ sender.accepted, Kcp.fragmentCount mssDef message.length ≤ 255)
    (narrow : Narrow (pieces sender.accepted))
    (receiving : Receiving (pieces sender.accepted) (pieces (sender.accepted.take done)).length
      receiver.kcp)
    (holding : Holding (pieces sender.accepted) receiver.kcp) (ordered : Ordered receiver.kcp)
    (arrived : Arrived sender receiver k) (inside : done < sender.accepted.length)
    (left : done < k) : receiver.kcp.rcvQueue ≠ [] ∧ ¬ receiver.kcp.peeksize < 0 := by
  have window : wndRcv.toNat = 32 := rfl
  by_cases queued : (pieces (sender.accepted.take (done + 1))).length ≤ receiver.kcp.rcvNxt.toNat
  · have length := receiving.queue_length
    have small := few _ (List.getElem_mem inside)
    have positive := fragmentCount_positive mssDef sender.accepted[done].length (by decide)
    rw [pieces_take_succ inside, messagePieces_length] at queued
    cases queue : receiver.kcp.rcvQueue with
    | nil =>
        rw [queue, List.length_nil] at length
        omega
    | cons seg rest =>
        have headFrg := receiving.head_frg inside small queue
        exact ⟨List.cons_ne_nil _ _,
          peeksize_of_complete queue (by omega) holding.count (by omega)⟩
  · have before : receiver.kcp.rcvNxt.toNat < (pieces (sender.accepted.take k)).length :=
      (Nat.lt_of_not_le queued).trans_le (pieces_take_mono _ left)
    rcases arrived _ before with impossible | ⟨seg, waiting, next⟩
    · exact absurd impossible (Nat.lt_irrefl _)
    · obtain ⟨first, isFirst, inOrder⟩ := ordered.head waiting next
      have full := holding.settled first isFirst inOrder
      refine ⟨?_, holding.peeked narrow full⟩
      intro empty
      rw [empty, List.length_nil] at full
      omega

theorem delivers_rounds
    (few : ∀ message ∈ sender.accepted, Kcp.fragmentCount mssDef message.length ≤ 255)
    (narrow : Narrow (pieces sender.accepted)) (bounded : Bounded sender) (left : Nat)
    (receiving : Receiving (pieces sender.accepted) (pieces (sender.accepted.take done)).length
      receiver.kcp)
    (received : receiver.received = (pieces (sender.accepted.take done)).map Prod.snd)
    (holding : Holding (pieces sender.accepted) receiver.kcp) (ordered : Ordered receiver.kcp)
    (arrived : Arrived sender receiver k) (enough : k ≤ done + left) :
    ∃ rounds, (sender.accepted.take k).flatten <+:
      (Endpoint.recv^[rounds] receiver).received.flatten := by
  -- induction on the number of messages that are left
  induction left generalizing receiver done with
  | zero =>
      refine ⟨0, ?_⟩
      rw [Function.iterate_zero, id_eq, received, pieces_data]
      exact (List.take_prefix_take_left enough).flatten
  | succ left inductionHypothesis =>
      by_cases finished : k ≤ done ∨ sender.accepted.length ≤ done
      · refine ⟨0, ?_⟩
        rw [Function.iterate_zero, id_eq, received, pieces_data]
        rcases finished with all | all
        · exact (List.take_prefix_take_left all).flatten
        · rw [List.take_of_length_le all]
          exact (List.take_prefix k _).flatten
      · rw [not_or, Nat.not_le, Nat.not_le] at finished
        obtain ⟨nonempty, peeked⟩ := next_complete few narrow receiving holding ordered arrived
          finished.2 finished.1
        obtain ⟨message, found, chunks, next⟩ := recv_complete few bounded receiving nonempty peeked
        have data : receiver.recv.received =
            (pieces (sender.accepted.take (done + 1))).map Prod.snd := by
          change receiver.received ++ receiver.kcp.recv.1 = _
          rw [chunks, received, List.take_add_one, found, pieces, pieces, List.flatMap_append,
            List.map_append]
          simp
        obtain ⟨rounds, handed⟩ := inductionHypothesis next data
          (recv_holding holding).1 (recv_ordered bounded receiving ordered).1
          (arrived.recv bounded receiving ordered) (by omega)
        exact ⟨rounds + 1, handed⟩

end Deliver

theorem unwedged_of_short {s : State} (reached : link.Reachable s) (side : Side)
    (short : ∀ message ∈ (s side).accepted, message.length ≤ 44032) :
    Unwedged (s side) (s side.other) := by
  have filled := reachable_filled reached side
  have narrow := pieces_narrow short
  refine ⟨?_, ?_⟩
  · rintro ⟨full, negative⟩
    rw [filled.holding.window] at full
    exact filled.holding.peeked narrow full negative
  · intro bounded k arrived
    obtain ⟨done, -, receiving, received⟩ := (reachable_linked reached side bounded).receiving
    exact delivers_rounds filled.few narrow bounded k receiving received filled.holding
      (reachable_ordered reached side bounded) arrived (Nat.le_add_left k done)

/-! ## A message of more fragments than the window holds -/

def zeroFragments (mss : Nat) : Nat → Nat → List Seg
  | 0, _ => []
  | count + 1, len =>
      { frg := UInt32.ofNat count, data := List.replicate (min len mss) 0 } ::
        zeroFragments mss count (len - min len mss)

theorem fragments_replicate (mss count len : Nat) :
    Kcp.fragments mss count (List.replicate len 0) = zeroFragments mss count len := by
  induction count generalizing len with
  | zero => rfl
  | succ count inductionHypothesis =>
      rw [Kcp.fragments, zeroFragments, List.length_replicate, List.take_replicate,
        List.drop_replicate, inductionHypothesis, Nat.min_eq_left (Nat.min_le_left _ _)]

/-- What is put out for a message of 33 fragments on a fresh link. -/
theorem send_long :
    ((Endpoint.opened 1).kcp.send (List.replicate 44033 0)).2.2 =
      ({ (Endpoint.opened 1).kcp with
        sndQueue := zeroFragments 1376 33 44033, nsndQue := 33 } : Kcp).flush.2 := by
  have mss : (Endpoint.opened 1).kcp.mss.toNat = 1376 := rfl
  have count : Kcp.fragmentCount 1376 (List.replicate 44033 (0 : UInt8)).length = 33 := by
    rw [List.length_replicate]
    decide
  have few : ¬ (33 > 255) := by decide
  have queue : (Endpoint.opened 1).kcp.sndQueue = [] := rfl
  have queued : (Endpoint.opened 1).kcp.nsndQue + UInt32.ofNat 33 = 33 := rfl
  simp only [Kcp.send, mss, count, if_neg few, fragments_replicate, queue, List.nil_append, queued]

theorem long_wedged : (transmitted (List.replicate 44033 0) .right).kcp.Wedged := by
  rw [transmitted, Function.update_self, send_long]
  decide +kernel

theorem long_reachable :
    ∃ s, link.Reachable s ∧ (s .left).accepted = [List.replicate 44033 0] ∧
      (s .right).kcp.Wedged := by
  have isInt : (List.replicate 44033 (0 : UInt8)).length < 2 ^ 31 := by
    rw [List.length_replicate]
    decide
  have few : Kcp.fragmentCount mssDef (List.replicate 44033 (0 : UInt8)).length ≤ 255 := by
    rw [List.length_replicate]
    decide
  exact ⟨_, transmitted_reachable _ isInt, transmitted_accepted _ few, long_wedged⟩

/-- The receiver stays free on every run exactly when no message has more
fragments than the window. -/
theorem unwedged_iff_window (limit : Nat) :
    (∀ s, link.Reachable s → ∀ side, (∀ message ∈ (s side).accepted, message.length ≤ limit) →
      Unwedged (s side) (s side.other)) ↔ limit ≤ 44032 := by
  constructor
  · intro always
    by_contra large
    obtain ⟨s, reached, accepted, wedged⟩ := long_reachable
    refine (always s reached .left ?_).free wedged
    intro message membership
    rw [accepted, List.mem_singleton] at membership
    rw [membership, List.length_replicate]
    omega
  · intro small s reached side short
    exact unwedged_of_short reached side fun message membership =>
      (short message membership).trans small

/-- The run on which 33 fragments fill the queue and the last finds no room. -/
theorem unwedged_fails_long :
    ∃ s, link.Reachable s ∧ (s .left).accepted = [List.replicate 44033 0] ∧
      (s .right).kcp.Wedged ∧ ¬ Unwedged (s .left) (s .right) := by
  obtain ⟨s, reached, accepted, wedged⟩ := long_reachable
  exact ⟨s, reached, accepted, wedged, fun unwedged => unwedged.free wedged⟩

end CrossOver.Engine.Ikcp
