import CrossOver.Engine.Ikcp.Delivery

/-!
# What segments carry, whatever their numbers are

Every segment of a link, in a queue, in a buffer or in a packet, carries some
fragment of some accepted message.  Nothing here reads a sequence number, so it
holds for ever, also after the numbers have wrapped.  On the receiving side the
queue never grows beyond the window, and a segment that is next in order waits
in the reorder buffer only while the queue is full.
-/

namespace CrossOver.Engine.Ikcp

open CrossOver.Lib

variable {all : List Piece}

/-- The segment carries one of the pieces. -/
def Within (all : List Piece) (seg : Seg) : Prop := seg.piece ∈ all

theorem within_stable (all : List Piece) : Stable (Within all) := by
  intro seg other _ pieceEq within
  rw [Within, pieceEq]
  exact within

structure Loaded (all : List Piece) (kcp : Kcp) : Prop where
  mss : kcp.mss.toNat = mssDef
  queue : ∀ seg ∈ kcp.sndQueue, Within all seg
  buf : ∀ seg ∈ kcp.sndBuf, seg.cmd = cmdPush ∧ Within all seg

/-- The receiving side within an operation. -/
structure Held (all : List Piece) (kcp : Kcp) : Prop where
  window : kcp.rcvWnd = wndRcv
  count : kcp.nrcvQue.toNat = kcp.rcvQueue.length
  room : kcp.rcvQueue.length ≤ wndRcv.toNat
  queue : ∀ seg ∈ kcp.rcvQueue, Within all seg
  buf : ∀ seg ∈ kcp.rcvBuf, Within all seg

/-- The receiving side between operations. -/
structure Holding (all : List Piece) (kcp : Kcp) : Prop extends Held all kcp where
  settled : ∀ seg ∈ kcp.rcvBuf.head?, seg.sn = kcp.rcvNxt → wndRcv.toNat ≤ kcp.rcvQueue.length

section Monotone

variable {more : List Piece}

theorem Within.append {seg : Seg} (within : Within all seg) : Within (all ++ more) seg :=
  List.mem_append_left _ within

theorem Proper.append {seg : Seg} (proper : Proper (Within all) seg) :
    Proper (Within (all ++ more)) seg :=
  proper.imp id fun push => ⟨push.1, push.2.append⟩

theorem ProperPacket.append {packet : Bytes} (proper : ProperPacket (Within all) packet) :
    ProperPacket (Within (all ++ more)) packet := by
  obtain ⟨segs, form, each⟩ := proper
  exact ⟨segs, form, fun seg membership => (each seg membership).append⟩

theorem Loaded.append {kcp : Kcp} (loaded : Loaded all kcp) : Loaded (all ++ more) kcp :=
  ⟨loaded.mss, fun seg membership => (loaded.queue seg membership).append,
    fun seg membership =>
      ⟨(loaded.buf seg membership).1, (loaded.buf seg membership).2.append⟩⟩

theorem Holding.append {kcp : Kcp} (holding : Holding all kcp) : Holding (all ++ more) kcp :=
  ⟨⟨holding.window, holding.count, holding.room,
    fun seg membership => (holding.queue seg membership).append,
    fun seg membership => (holding.buf seg membership).append⟩, holding.settled⟩

end Monotone

/-! ## The sending side -/

theorem Loaded.of_thinned {kcp kcp' : Kcp} (loaded : Loaded all kcp) (thinned : Thinned kcp kcp') :
    Loaded all kcp' := by
  obtain ⟨mss, -, queue, buf⟩ := thinned
  refine ⟨by rw [mss]; exact loaded.mss, by rw [queue]; exact loaded.queue, ?_⟩
  intro seg membership
  obtain ⟨old, oldMembership, cmdEq, snEq, pieceEq⟩ := buf seg membership
  obtain ⟨push, within⟩ := loaded.buf old oldMembership
  exact ⟨cmdEq.trans push, within_stable all snEq pieceEq within⟩

theorem moveToSndBuf_loaded (cwnd wnd : UInt32) (queue : List Seg) (kcp : Kcp)
    (queueEq : kcp.sndQueue = queue) (loaded : Loaded all kcp) :
    Loaded all (Kcp.moveToSndBuf cwnd wnd queue kcp) := by
  induction queue generalizing kcp with
  | nil => exact loaded
  | cons newseg rest inductionHypothesis =>
      rw [Kcp.moveToSndBuf]
      split_ifs
      · have inQueue : ∀ seg ∈ newseg :: rest, Within all seg := queueEq ▸ loaded.queue
        apply inductionHypothesis
        · rfl
        · refine ⟨loaded.mss, fun seg membership => inQueue seg (List.mem_cons_of_mem _ membership),
            ?_⟩
          intro seg membership
          rcases List.mem_append.mp membership with old | last
          · exact loaded.buf seg old
          · rw [List.mem_singleton.mp last]
            exact ⟨rfl, inQueue newseg List.mem_cons_self⟩
      · exact loaded

theorem flush_loaded {kcp : Kcp} (loaded : Loaded all kcp) :
    Loaded all kcp.flush.1 ∧ ∀ packet ∈ kcp.flush.2, ProperPacket (Within all) packet := by
  have probed : Loaded all kcp.probed := loaded.of_thinned (probed_thinned kcp)
  obtain ⟨mss, queue, buf⟩ := moveToSndBuf_loaded kcp.probed.flushWindow kcp.wndUnused
    kcp.probed.sndQueue { kcp.probed with probe := 0 } rfl ⟨probed.mss, probed.queue, probed.buf⟩
  rw [Kcp.flush]
  refine ⟨?_, ?_⟩
  · refine Loaded.of_thinned ?_ (adjustWindow_thinned _ _ _ _ _)
    refine ⟨mss, queue, ?_⟩
    exact (flushSegments_proper _ _ _ _ _ _ (within_stable all) buf (flushControl_proper kcp)).1
  · exact (flushSegments_proper _ _ _ _ _ _ (within_stable all) buf
      (flushControl_proper kcp)).2.output.packets

theorem update_loaded {kcp : Kcp} (loaded : Loaded all kcp) (current : UInt32) :
    Loaded all (kcp.update current).1 ∧
      ∀ packet ∈ (kcp.update current).2, ProperPacket (Within all) packet := by
  have scheduled : Loaded all (kcp.schedule current).1 :=
    ⟨loaded.mss, loaded.queue, loaded.buf⟩
  rw [Kcp.update]
  split_ifs
  · exact flush_loaded scheduled
  · exact ⟨scheduled, by simp⟩

theorem send_loaded {kcp : Kcp} {buffer : Bytes} (loaded : Loaded all kcp)
    (accepted : Kcp.fragmentCount mssDef buffer.length ≤ 255) :
    (kcp.send buffer).2.1 = 0 ∧ Loaded (all ++ messagePieces buffer) (kcp.send buffer).1 ∧
      ∀ packet ∈ (kcp.send buffer).2.2,
        ProperPacket (Within (all ++ messagePieces buffer)) packet := by
  have few : ¬ Kcp.fragmentCount kcp.mss.toNat buffer.length > 255 := by
    rw [loaded.mss]
    omega
  have queued : Loaded (all ++ messagePieces buffer)
      { kcp with
        sndQueue := kcp.sndQueue ++
          Kcp.fragments kcp.mss.toNat (Kcp.fragmentCount kcp.mss.toNat buffer.length) buffer
        nsndQue := kcp.nsndQue +
          UInt32.ofNat (Kcp.fragmentCount kcp.mss.toNat buffer.length) } := by
    refine ⟨loaded.mss, ?_, loaded.append.buf⟩
    intro seg membership
    rcases List.mem_append.mp membership with old | new
    · exact (loaded.queue seg old).append
    · rw [loaded.mss] at new
      exact List.mem_append_right _ (List.mem_map_of_mem new)
  obtain ⟨flushed, packets⟩ := flush_loaded queued
  simp only [Kcp.send, if_neg few]
  exact ⟨trivial, flushed, packets⟩

/-! ## The receiving side -/

theorem Held.of_side {kcp kcp' : Kcp} (held : Held all kcp)
    (same : receiveSide kcp' = receiveSide kcp) : Held all kcp' := by
  obtain ⟨window, same⟩ := Prod.mk.inj same
  obtain ⟨-, same⟩ := Prod.mk.inj same
  obtain ⟨queue, same⟩ := Prod.mk.inj same
  obtain ⟨count, buf⟩ := Prod.mk.inj same
  refine ⟨?_, ?_, ?_, ?_, ?_⟩
  · rw [window]; exact held.window
  · rw [count, queue]; exact held.count
  · rw [queue]; exact held.room
  · rw [queue]; exact held.queue
  · rw [buf]; exact held.buf

theorem Holding.of_side {kcp kcp' : Kcp} (holding : Holding all kcp)
    (same : receiveSide kcp' = receiveSide kcp) : Holding all kcp' := by
  refine ⟨holding.toHeld.of_side same, ?_⟩
  obtain ⟨-, same⟩ := Prod.mk.inj same
  obtain ⟨nxt, same⟩ := Prod.mk.inj same
  obtain ⟨queue, same⟩ := Prod.mk.inj same
  obtain ⟨-, buf⟩ := Prod.mk.inj same
  rw [nxt, queue, buf]
  exact holding.settled

theorem moveAvailable_holding (buffer : List Seg) (kcp : Kcp) (bufferEq : kcp.rcvBuf = buffer)
    (held : Held all kcp) : Holding all (Kcp.moveAvailable buffer kcp) := by
  induction buffer generalizing kcp with
  | nil => exact ⟨held, by simp [Kcp.moveAvailable, bufferEq]⟩
  | cons seg rest inductionHypothesis =>
      rw [Kcp.moveAvailable]
      split_ifs with available
      · obtain ⟨-, room⟩ := available
        have inBuf : ∀ other ∈ seg :: rest, Within all other := bufferEq ▸ held.buf
        have roomNat : kcp.rcvQueue.length < wndRcv.toNat := by
          rw [← held.count, ← held.window]
          exact UInt32.lt_iff_toNat_lt.mp room
        have counted : (kcp.nrcvQue + 1).toNat = kcp.rcvQueue.length + 1 := by
          have small : wndRcv.toNat < 2 ^ 31 := by decide
          rw [toNat_succ kcp.nrcvQue (by rw [held.count]; omega), held.count]
        apply inductionHypothesis
        · rfl
        · refine ⟨held.window, ?_, ?_, ?_, ?_⟩
          · rw [counted, List.length_append]
            rfl
          · rw [List.length_append, List.length_singleton]
            omega
          · intro other membership
            rcases List.mem_append.mp membership with old | last
            · exact held.queue other old
            · rw [List.mem_singleton.mp last]
              exact inBuf seg List.mem_cons_self
          · exact fun other membership => inBuf other (List.mem_cons_of_mem _ membership)
      · refine ⟨held, ?_⟩
        intro first isFirst inOrder
        rw [bufferEq, List.head?_cons, Option.mem_some_iff] at isFirst
        subst isFirst
        have full : ¬ kcp.nrcvQue < kcp.rcvWnd := fun room => available ⟨inOrder, room⟩
        rw [UInt32.lt_iff_toNat_lt, held.count, held.window] at full
        omega

theorem parseData_holding {kcp : Kcp} (holding : Holding all kcp) {newseg : Seg}
    (within : Within all newseg) : Holding all (kcp.parseData newseg) := by
  simp only [Kcp.parseData]
  split_ifs
  · exact holding
  · apply moveAvailable_holding _ _ rfl
    split
    · next reversed success =>
        refine ⟨holding.window, holding.count, holding.room, holding.queue, ?_⟩
        intro seg membership
        rcases insertLoop_mem success seg (List.mem_reverse.mp membership) with rfl | old
        · exact within
        · exact holding.buf seg (List.mem_reverse.mp old)
    · exact holding.toHeld

theorem input_holding (encodable : Encodable all) {kcp : Kcp} (holding : Holding all kcp)
    {packet : Bytes} (proper : ProperPacket (Within all) packet) :
    Holding all (kcp.input packet).1 :=
  input_invariant (Holding all) (fun holds same => holds.of_side same)
    (fun holds within => parseData_holding holds within) (within_stable all) encodable
    (fun _ within => within) holding proper

/-- The merge loop takes segments off the front of the queue. -/
theorem mergeFragments_held (queue : List Seg) (kcp : Kcp) (queueEq : kcp.rcvQueue = queue)
    (held : Held all kcp) :
    Held all (Kcp.mergeFragments queue kcp).2 ∧
      ∀ chunk ∈ (Kcp.mergeFragments queue kcp).1, ∃ frg, (frg, chunk) ∈ all := by
  induction queue generalizing kcp with
  | nil => exact ⟨held, by simp [Kcp.mergeFragments]⟩
  | cons seg rest inductionHypothesis =>
      have inQueue : ∀ other ∈ seg :: rest, Within all other := queueEq ▸ held.queue
      have taken : Held all { kcp with rcvQueue := rest, nrcvQue := kcp.nrcvQue - 1 } := by
        have count := held.count
        have room := held.room
        rw [queueEq, List.length_cons] at count room
        refine ⟨held.window, ?_, ?_, fun other membership =>
          inQueue other (List.mem_cons_of_mem _ membership), held.buf⟩
        · change (kcp.nrcvQue - 1).toNat = rest.length
          rw [toNat_pred (by omega)]
          omega
        · change rest.length ≤ _
          omega
      have first : ∃ frg, (frg, seg.data) ∈ all := ⟨seg.frg, inQueue seg List.mem_cons_self⟩
      simp only [Kcp.mergeFragments]
      split_ifs
      · refine ⟨taken, ?_⟩
        intro chunk membership
        rw [List.mem_singleton.mp membership]
        exact first
      · obtain ⟨merged, chunks⟩ := inductionHypothesis _ rfl taken
        refine ⟨merged, ?_⟩
        intro chunk membership
        rcases List.mem_cons.mp membership with rfl | later
        · exact first
        · exact chunks chunk later

theorem recv_holding {kcp : Kcp} (holding : Holding all kcp) :
    Holding all kcp.recv.2.2 ∧ ∀ chunk ∈ kcp.recv.1, ∃ frg, (frg, chunk) ∈ all := by
  obtain ⟨merged, chunks⟩ := mergeFragments_held kcp.rcvQueue kcp rfl holding.toHeld
  have moved := moveAvailable_holding _ _ rfl merged
  simp only [Kcp.recv]
  split_ifs
  · exact ⟨holding, by simp⟩
  · exact ⟨holding, by simp⟩
  · exact ⟨moved.of_side rfl, chunks⟩
  · exact ⟨moved, chunks⟩

end CrossOver.Engine.Ikcp
