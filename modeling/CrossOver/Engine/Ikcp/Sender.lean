import CrossOver.Engine.Ikcp.Wire

/-!
# The sending side

All fragments of all accepted messages, in order, are the pieces of a sender.
A segment carries the piece with its sequence number.  `Sending` ties the two
send queues to the pieces, and a packet is genuine when all its data segments
carry their pieces.
-/

namespace CrossOver.Engine.Ikcp

open CrossOver.Lib

/-- Fragment number and data. -/
abbrev Piece := UInt32 × Bytes

def Seg.piece (seg : Seg) : Piece := (seg.frg, seg.data)

def mssDef : Nat := 1376

def messagePieces (message : Bytes) : List Piece :=
  (Kcp.fragments mssDef (Kcp.fragmentCount mssDef message.length) message).map Seg.piece

def pieces (messages : List Bytes) : List Piece := messages.flatMap messagePieces

def Carries (all : List Piece) (seg : Seg) : Prop := all[seg.sn.toNat]? = some seg.piece

/-- Pieces fit the fields of a header. -/
def Encodable (all : List Piece) : Prop :=
  ∀ piece ∈ all, piece.1.toNat < 256 ∧ piece.2.length < 2 ^ 32

/-- A segment that may stand in a packet. -/
def Genuine (all : List Piece) (seg : Seg) : Prop :=
  ((seg.cmd = cmdAck ∨ seg.cmd = cmdWask ∨ seg.cmd = cmdWins) ∧ seg.data = []) ∨
    (seg.cmd = cmdPush ∧ Carries all seg)

def GenuinePacket (all : List Piece) (packet : Bytes) : Prop :=
  ∃ segs : List Seg, packet = segs.flatMap wire ∧ ∀ seg ∈ segs, Genuine all seg

structure Sending (all : List Piece) (kcp : Kcp) : Prop where
  mss : kcp.mss.toNat = mssDef
  nxt : kcp.sndNxt.toNat ≤ all.length
  queue : kcp.sndQueue.map Seg.piece = all.drop kcp.sndNxt.toNat
  buf : ∀ seg ∈ kcp.sndBuf, seg.cmd = cmdPush ∧ Carries all seg

/-! ## What the packets of a flush carry -/

/-- A control segment, or a data segment with a property of its own. -/
def Proper (Q : Seg → Prop) (seg : Seg) : Prop :=
  ((seg.cmd = cmdAck ∨ seg.cmd = cmdWask ∨ seg.cmd = cmdWins) ∧ seg.data = []) ∨
    (seg.cmd = cmdPush ∧ Q seg)

def ProperPacket (Q : Seg → Prop) (packet : Bytes) : Prop :=
  ∃ segs : List Seg, packet = segs.flatMap wire ∧ ∀ seg ∈ segs, Proper Q seg

structure ProperOut (Q : Seg → Prop) (out : Outgoing) : Prop where
  buffer : ProperPacket Q out.buffer
  packets : ∀ packet ∈ out.packets, ProperPacket Q packet

/-- A property of what a segment carries, not of its transmission. -/
def Stable (Q : Seg → Prop) : Prop :=
  ∀ ⦃seg other : Seg⦄, other.sn = seg.sn → other.piece = seg.piece → Q seg → Q other

theorem carries_stable (all : List Piece) : Stable (Carries all) := by
  intro seg other snEq pieceEq carries
  rw [Carries, snEq, pieceEq]
  exact carries

section Monotone

variable {all more : List Piece}

theorem Carries.append {seg : Seg} (carries : Carries all seg) : Carries (all ++ more) seg := by
  have inside : seg.sn.toNat < all.length := (List.getElem?_eq_some_iff.mp carries).1
  rw [Carries, List.getElem?_append_left inside]
  exact carries

theorem Genuine.append {seg : Seg} (genuine : Genuine all seg) : Genuine (all ++ more) seg :=
  genuine.imp id fun push => ⟨push.1, push.2.append⟩

theorem GenuinePacket.append {packet : Bytes} (genuine : GenuinePacket all packet) :
    GenuinePacket (all ++ more) packet := by
  obtain ⟨segs, form, each⟩ := genuine
  exact ⟨segs, form, fun seg membership => (each seg membership).append⟩

end Monotone

section Outgoing

variable {Q : Seg → Prop} {out : Outgoing}

theorem properPacket_nil : ProperPacket Q [] := ⟨[], rfl, by simp⟩

theorem ProperOut.output (proper : ProperOut Q out) : ProperOut Q out.output := by
  refine ⟨properPacket_nil, ?_⟩
  intro packet membership
  simp only [Outgoing.output] at membership
  split_ifs at membership with empty
  · exact proper.packets packet membership
  · rcases List.mem_append.mp membership with old | last
    · exact proper.packets packet old
    · rw [List.mem_singleton.mp last]
      exact proper.buffer

theorem ProperOut.append (proper : ProperOut Q out) (mtu : UInt32) (need : Nat) {seg : Seg}
    (segProper : Proper Q seg) : ProperOut Q (out.append mtu need (wire seg)) := by
  have extended : ∀ room : Outgoing, ProperOut Q room →
      ProperOut Q { room with buffer := room.buffer ++ wire seg } := by
    intro room roomProper
    obtain ⟨⟨segs, form, each⟩, packets⟩ := roomProper
    refine ⟨⟨segs ++ [seg], by simp [form], ?_⟩, packets⟩
    intro other membership
    rcases List.mem_append.mp membership with old | last
    · exact each other old
    · rw [List.mem_singleton.mp last]
      exact segProper
  simp only [Outgoing.append]
  split_ifs
  · exact extended _ proper.output
  · exact extended _ proper

/-- A segment without data is its own wire form. -/
theorem wire_of_empty {seg : Seg} (empty : seg.data = []) : wire seg = encodeSeg seg := by
  rw [wire, empty, List.append_nil]

theorem flushAcks_proper (mtu : UInt32) (acks : List (UInt32 × UInt32)) (seg : Seg)
    (cmd : seg.cmd = cmdAck) (empty : seg.data = []) (proper : ProperOut Q out) :
    ProperOut Q (Kcp.flushAcks mtu acks seg out).2 ∧
      (Kcp.flushAcks mtu acks seg out).1.data = [] := by
  induction acks generalizing seg out with
  | nil => exact ⟨proper, empty⟩
  | cons ack rest inductionHypothesis =>
      obtain ⟨sn, ts⟩ := ack
      refine inductionHypothesis { seg with sn := sn, ts := ts } cmd empty ?_
      have acking : ({ seg with sn := sn, ts := ts } : Seg).data = [] := empty
      rw [← wire_of_empty acking]
      exact proper.append mtu 24 (Or.inl ⟨Or.inl cmd, empty⟩)

theorem flushProbe_proper (kcp : Kcp) (ask cmd : UInt32) (seg : Seg)
    (probe : cmd = cmdWask ∨ cmd = cmdWins) (empty : seg.data = [])
    (proper : ProperOut Q out) :
    ProperOut Q (kcp.flushProbe ask cmd seg out).2 ∧
      (kcp.flushProbe ask cmd seg out).1.data = [] := by
  simp only [Kcp.flushProbe]
  split_ifs
  · have probing : ({ seg with cmd := cmd } : Seg).data = [] := empty
    refine ⟨?_, empty⟩
    rw [← wire_of_empty probing]
    exact proper.append kcp.mtu 24 (Or.inl ⟨Or.inr probe, empty⟩)
  · exact ⟨proper, empty⟩

/-- Sending a segment again changes neither its piece nor its number. -/
theorem dueSegment_spec {kcp : Kcp} {resent rtomin : UInt32} {segment due : Seg}
    {now counted : Kcp.Resending}
    (isDue : kcp.dueSegment resent rtomin segment now = some (due, counted)) :
    due.piece = segment.piece ∧ due.sn = segment.sn ∧ due.cmd = segment.cmd ∧
      counted.out = now.out := by
  simp only [Kcp.dueSegment] at isDue
  split_ifs at isDue <;>
    (obtain ⟨rfl, rfl⟩ := Prod.mk.inj (Option.some.inj isDue); exact ⟨rfl, rfl, rfl, rfl⟩)

theorem flushSegments_proper (kcp : Kcp) (resent rtomin wnd : UInt32) (segments : List Seg)
    (now : Kcp.Resending)
    (stable : Stable Q) (carried : ∀ seg ∈ segments, seg.cmd = cmdPush ∧ Q seg)
    (proper : ProperOut Q now.out) :
    (∀ seg ∈ (kcp.flushSegments resent rtomin wnd segments now).1,
        seg.cmd = cmdPush ∧ Q seg) ∧
      ProperOut Q (kcp.flushSegments resent rtomin wnd segments now).2.out := by
  induction segments generalizing now with
  | nil => exact ⟨by simp [Kcp.flushSegments], proper⟩
  | cons segment rest inductionHypothesis =>
      have restCarried : ∀ seg ∈ rest, seg.cmd = cmdPush ∧ Q seg :=
        fun seg membership => carried seg (List.mem_cons_of_mem _ membership)
      obtain ⟨push, carries⟩ := carried segment List.mem_cons_self
      rw [Kcp.flushSegments]
      split
      · obtain ⟨kept, out⟩ := inductionHypothesis now restCarried proper
        refine ⟨?_, out⟩
        intro seg membership
        rcases List.mem_cons.mp membership with rfl | later
        · exact ⟨push, carries⟩
        · exact kept seg later
      · rename_i due counted isDue
        obtain ⟨pieceEq, snEq, cmdEq, outEq⟩ := dueSegment_spec isDue
        have sent : ({ due with ts := kcp.current, wnd := wnd, una := kcp.rcvNxt } : Seg).cmd =
            cmdPush ∧ Q { due with ts := kcp.current, wnd := wnd, una := kcp.rcvNxt } :=
          ⟨cmdEq.trans push, stable snEq pieceEq carries⟩
        have extended := ProperOut.append (outEq ▸ proper) kcp.mtu (24 + due.data.length)
          (Or.inr sent)
        obtain ⟨kept, out⟩ := inductionHypothesis
          { counted with
            out := counted.out.append kcp.mtu (24 + due.data.length)
              (wire { due with ts := kcp.current, wnd := wnd, una := kcp.rcvNxt })
            state := if due.xmit ≥ kcp.deadLink then 0xffffffff else counted.state }
          restCarried extended
        refine ⟨?_, out⟩
        intro seg membership
        rcases List.mem_cons.mp membership with rfl | later
        · exact sent
        · exact kept seg later

end Outgoing

/-- The sending side after acknowledgements: segments may have left the buffer,
and those that are left carry what they carried. -/
structure Thinned (kcp kcp' : Kcp) : Prop where
  mss : kcp'.mss = kcp.mss
  nxt : kcp'.sndNxt = kcp.sndNxt
  queue : kcp'.sndQueue = kcp.sndQueue
  buf : ∀ seg ∈ kcp'.sndBuf, ∃ old ∈ kcp.sndBuf,
    seg.cmd = old.cmd ∧ seg.sn = old.sn ∧ seg.piece = old.piece

namespace Thinned

variable {kcp kcp' kcp'' : Kcp}

theorem of_same (mss : kcp'.mss = kcp.mss) (nxt : kcp'.sndNxt = kcp.sndNxt)
    (queue : kcp'.sndQueue = kcp.sndQueue) (buf : kcp'.sndBuf = kcp.sndBuf) : Thinned kcp kcp' :=
  ⟨mss, nxt, queue, fun seg membership => ⟨seg, buf ▸ membership, rfl, rfl, rfl⟩⟩

theorem refl (kcp : Kcp) : Thinned kcp kcp := of_same rfl rfl rfl rfl

theorem trans (first : Thinned kcp kcp') (second : Thinned kcp' kcp'') : Thinned kcp kcp'' := by
  refine ⟨second.mss.trans first.mss, second.nxt.trans first.nxt,
    second.queue.trans first.queue, ?_⟩
  intro seg membership
  obtain ⟨middle, middleMembership, cmdEq, snEq, pieceEq⟩ := second.buf seg membership
  obtain ⟨old, oldMembership, cmdOld, snOld, pieceOld⟩ := first.buf middle middleMembership
  exact ⟨old, oldMembership, cmdEq.trans cmdOld, snEq.trans snOld, pieceEq.trans pieceOld⟩

end Thinned

/-- Acknowledgements only take segments out of the send buffer. -/
theorem Sending.of_thinned {all : List Piece} {kcp kcp' : Kcp} (sending : Sending all kcp)
    (thinned : Thinned kcp kcp') : Sending all kcp' := by
  obtain ⟨mss, nxt, queue, buf⟩ := thinned
  refine ⟨by rw [mss]; exact sending.mss, by rw [nxt]; exact sending.nxt,
    by rw [nxt, queue]; exact sending.queue, ?_⟩
  intro seg membership
  obtain ⟨old, oldMembership, cmdEq, snEq, pieceEq⟩ := buf seg membership
  obtain ⟨push, carries⟩ := sending.buf old oldMembership
  exact ⟨cmdEq.trans push, carries_stable all snEq pieceEq carries⟩

section Flush

variable {all : List Piece}

/-- Numbers handed out one by one do not wrap. -/
theorem toNat_succ (number : UInt32) (small : number.toNat < 2 ^ 31) :
    (number + 1).toNat = number.toNat + 1 := by
  rw [UInt32.toNat_add]
  change (number.toNat + 1) % 2 ^ 32 = _
  omega

theorem moveToSndBuf_sending (bounded : all.length < 2 ^ 31) (cwnd wnd : UInt32)
    (queue : List Seg) (kcp : Kcp) (queueEq : kcp.sndQueue = queue) (sending : Sending all kcp) :
    Sending all (Kcp.moveToSndBuf cwnd wnd queue kcp) := by
  induction queue generalizing kcp with
  | nil => exact sending
  | cons newseg rest inductionHypothesis =>
      rw [Kcp.moveToSndBuf]
      split_ifs
      · obtain ⟨mss, nxt, pieceQueue, buf⟩ := sending
        rw [queueEq, List.map_cons] at pieceQueue
        have inside : kcp.sndNxt.toNat < all.length := by
          by_contra outside
          rw [List.drop_eq_nil_of_le (by omega)] at pieceQueue
          cases pieceQueue
        rw [List.drop_eq_getElem_cons inside] at pieceQueue
        obtain ⟨headEq, restEq⟩ := List.cons.inj pieceQueue
        have next := toNat_succ kcp.sndNxt (by omega)
        apply inductionHypothesis
        · rfl
        · refine ⟨mss, ?_, ?_, ?_⟩
          · rw [next]
            omega
          · rw [next]
            exact restEq
          · intro seg membership
            rcases List.mem_append.mp membership with old | last
            · exact buf seg old
            · rw [List.mem_singleton.mp last]
              refine ⟨rfl, ?_⟩
              change all[kcp.sndNxt.toNat]? = some newseg.piece
              rw [headEq, List.getElem?_eq_getElem inside]
      · exact sending

theorem probed_thinned (kcp : Kcp) : Thinned kcp kcp.probed := by
  simp only [Kcp.probed, Kcp.probeWindow]
  split_ifs <;> exact .of_same rfl rfl rfl rfl

theorem adjustWindow_thinned (kcp : Kcp) (cwnd resent : UInt32) (change lost : Bool) :
    Thinned kcp (kcp.adjustWindow cwnd resent change lost) := by
  simp only [Kcp.adjustWindow]
  split_ifs <;> exact .of_same rfl rfl rfl rfl

theorem flushControl_proper {Q : Seg → Prop} (kcp : Kcp) : ProperOut Q kcp.flushControl := by
  have start : ProperOut Q { buffer := [], packets := [] } := ⟨properPacket_nil, by simp⟩
  obtain ⟨acks, ackEmpty⟩ := flushAcks_proper kcp.mtu kcp.acklist kcp.ackSeg rfl rfl start
  obtain ⟨asks, askEmpty⟩ :=
    flushProbe_proper kcp.probed askSend cmdWask _ (Or.inl rfl) ackEmpty acks
  obtain ⟨tells, -⟩ := flushProbe_proper kcp.probed askTell cmdWins _ (Or.inr rfl) askEmpty asks
  exact tells

/-- A flush keeps the sender in step and puts out genuine packets only. -/
theorem flush_sending (bounded : all.length < 2 ^ 31) {kcp : Kcp} (sending : Sending all kcp) :
    Sending all kcp.flush.1 ∧ ∀ packet ∈ kcp.flush.2, GenuinePacket all packet := by
  have probed : Sending all kcp.probed := sending.of_thinned (probed_thinned kcp)
  obtain ⟨mss, nxt, queue, buf⟩ := moveToSndBuf_sending bounded kcp.probed.flushWindow
    kcp.wndUnused kcp.probed.sndQueue { kcp.probed with probe := 0 } rfl
    ⟨probed.mss, probed.nxt, probed.queue, probed.buf⟩
  rw [Kcp.flush]
  refine ⟨?_, ?_⟩
  · refine Sending.of_thinned ?_ (adjustWindow_thinned _ _ _ _ _)
    refine ⟨mss, nxt, queue, ?_⟩
    exact (flushSegments_proper _ _ _ _ _ _ (carries_stable all) buf (flushControl_proper kcp)).1
  · exact (flushSegments_proper _ _ _ _ _ _ (carries_stable all) buf
      (flushControl_proper kcp)).2.output.packets

/-- Cutting a message gives as many segments as counted, numbered down to zero. -/
theorem fragments_length (mss count : Nat) (buffer : Bytes) :
    (Kcp.fragments mss count buffer).length = count := by
  induction count generalizing buffer with
  | zero => rfl
  | succ count inductionHypothesis => rw [Kcp.fragments, List.length_cons, inductionHypothesis]

theorem fragments_data (mss count : Nat) (buffer : Bytes) (enough : buffer.length ≤ count * mss) :
    ((Kcp.fragments mss count buffer).map Seg.data).flatten = buffer := by
  induction count generalizing buffer with
  | zero =>
      have empty : buffer = [] := List.eq_nil_of_length_eq_zero (by omega)
      rw [empty]
      rfl
  | succ count inductionHypothesis =>
      rw [Kcp.fragments, List.map_cons, List.flatten_cons, inductionHypothesis]
      · exact List.take_append_drop _ _
      · rw [List.length_drop]
        rw [Nat.succ_mul] at enough
        omega

theorem fragments_encodable (mss count : Nat) (buffer : Bytes) (few : count ≤ 255)
    (small : mss < 2 ^ 32) : Encodable ((Kcp.fragments mss count buffer).map Seg.piece) := by
  induction count generalizing buffer with
  | zero => simp [Kcp.fragments, Encodable]
  | succ count inductionHypothesis =>
      intro piece membership
      rw [Kcp.fragments, List.map_cons] at membership
      rcases List.mem_cons.mp membership with rfl | later
      · refine ⟨?_, ?_⟩
        · change (UInt32.ofNat count).toNat < 256
          rw [UInt32.toNat_ofNat']
          omega
        · change (buffer.take (min buffer.length mss)).length < 2 ^ 32
          rw [List.length_take]
          omega
      · exact inductionHypothesis _ (by omega) piece later

theorem fragmentCount_enough (mss len : Nat) (positive : 0 < mss) :
    len ≤ Kcp.fragmentCount mss len * mss := by
  simp only [Kcp.fragmentCount]
  split_ifs with short
  · omega
  · have division := Nat.div_add_mod (len + mss - 1) mss
    have remainder := Nat.mod_lt (len + mss - 1) positive
    rw [Nat.mul_comm]
    omega

/-- An accepted message adds its pieces behind those of earlier messages. -/
theorem send_sending {kcp : Kcp} {buffer : Bytes}
    (bounded : (all ++ messagePieces buffer).length < 2 ^ 31) (sending : Sending all kcp)
    (accepted : Kcp.fragmentCount mssDef buffer.length ≤ 255) :
    (kcp.send buffer).2.1 = 0 ∧ Sending (all ++ messagePieces buffer) (kcp.send buffer).1 ∧
      ∀ packet ∈ (kcp.send buffer).2.2, GenuinePacket (all ++ messagePieces buffer) packet := by
  have few : ¬ Kcp.fragmentCount kcp.mss.toNat buffer.length > 255 := by
    rw [sending.mss]
    omega
  have queued : Sending (all ++ messagePieces buffer)
      { kcp with
        sndQueue := kcp.sndQueue ++
          Kcp.fragments kcp.mss.toNat (Kcp.fragmentCount kcp.mss.toNat buffer.length) buffer
        nsndQue := kcp.nsndQue +
          UInt32.ofNat (Kcp.fragmentCount kcp.mss.toNat buffer.length) } := by
    refine ⟨sending.mss, ?_, ?_, ?_⟩
    · have nxt := sending.nxt
      change kcp.sndNxt.toNat ≤ _
      rw [List.length_append]
      omega
    · change (kcp.sndQueue ++ _).map Seg.piece = (all ++ messagePieces buffer).drop kcp.sndNxt.toNat
      rw [List.map_append, sending.queue, List.drop_append_of_le_length sending.nxt, sending.mss]
      rfl
    · exact fun seg membership =>
        ⟨(sending.buf seg membership).1, (sending.buf seg membership).2.append⟩
  obtain ⟨flushed, packets⟩ := flush_sending bounded queued
  simp only [Kcp.send, if_neg few]
  exact ⟨trivial, flushed, packets⟩

theorem send_rejected {kcp : Kcp} {buffer : Bytes} (mss : kcp.mss.toNat = mssDef)
    (rejected : 255 < Kcp.fragmentCount mssDef buffer.length) :
    kcp.send buffer = (kcp, -2, []) := by
  have many : Kcp.fragmentCount kcp.mss.toNat buffer.length > 255 := by
    rw [mss]
    exact rejected
  simp only [Kcp.send, if_pos many]

end Flush

section Input

theorem ackLoop_mem (sn : UInt32) (segments : List Seg) :
    ∀ seg ∈ (Kcp.ackLoop sn segments).1, ∃ old ∈ segments,
      seg.cmd = old.cmd ∧ seg.sn = old.sn ∧ seg.piece = old.piece := by
  induction segments with
  | nil => simp [Kcp.ackLoop]
  | cons first rest inductionHypothesis =>
      intro seg membership
      rw [Kcp.ackLoop] at membership
      split_ifs at membership
      · exact ⟨seg, List.mem_cons_of_mem _ membership, rfl, rfl, rfl⟩
      · rcases List.mem_cons.mp membership with rfl | later
        · exact ⟨first, List.mem_cons_self, rfl, rfl, rfl⟩
        · obtain ⟨old, oldMembership, same⟩ := inductionHypothesis seg later
          exact ⟨old, List.mem_cons_of_mem _ oldMembership, same⟩

theorem unaLoop_mem (una : UInt32) (segments : List Seg) :
    ∀ seg ∈ Kcp.unaLoop una segments, seg ∈ segments := by
  induction segments with
  | nil => simp [Kcp.unaLoop]
  | cons first rest inductionHypothesis =>
      intro seg membership
      rw [Kcp.unaLoop] at membership
      split_ifs at membership
      · exact List.mem_cons_of_mem _ (inductionHypothesis seg membership)
      · exact membership

variable (kcp : Kcp)

theorem shrinkBuf_thinned : Thinned kcp kcp.shrinkBuf := by
  simp only [Kcp.shrinkBuf]
  split <;> exact .of_same rfl rfl rfl rfl

theorem parseAck_thinned (sn : UInt32) : Thinned kcp (kcp.parseAck sn) := by
  simp only [Kcp.parseAck]
  split_ifs
  · exact .refl kcp
  · exact ⟨rfl, rfl, rfl, ackLoop_mem sn kcp.sndBuf⟩
  · exact ⟨rfl, rfl, rfl, ackLoop_mem sn kcp.sndBuf⟩

theorem parseUna_thinned (una : UInt32) : Thinned kcp (kcp.parseUna una) :=
  ⟨rfl, rfl, rfl, fun seg membership =>
    ⟨seg, unaLoop_mem una kcp.sndBuf seg membership, rfl, rfl, rfl⟩⟩

theorem updateAck_thinned (rtt : Int32) : Thinned kcp (kcp.updateAck rtt) := by
  simp only [Kcp.updateAck]
  split_ifs <;> exact .of_same rfl rfl rfl rfl

theorem moveAvailable_thinned (buffer : List Seg) : Thinned kcp (Kcp.moveAvailable buffer kcp) := by
  induction buffer generalizing kcp with
  | nil => exact .refl kcp
  | cons seg rest inductionHypothesis =>
      rw [Kcp.moveAvailable]
      split_ifs
      · refine Thinned.trans ?_ (inductionHypothesis _)
        exact .of_same rfl rfl rfl rfl
      · exact .refl kcp

theorem parseData_thinned (newseg : Seg) : Thinned kcp (kcp.parseData newseg) := by
  simp only [Kcp.parseData]
  split_ifs
  · exact .refl kcp
  · refine Thinned.trans ?_ (moveAvailable_thinned _ _)
    split <;> exact .of_same rfl rfl rfl rfl

theorem inputSegment_thinned (header : Header) (data : Bytes) :
    Thinned kcp (kcp.inputSegment header data) := by
  have window : Thinned kcp { kcp with rmtWnd := header.wnd.toUInt32 } := .of_same rfl rfl rfl rfl
  have shrunk := (window.trans (parseUna_thinned _ header.una)).trans (shrinkBuf_thinned _)
  simp only [Kcp.inputSegment]
  split_ifs
  · exact ((shrunk.trans (updateAck_thinned _ _)).trans (parseAck_thinned _ _)).trans
      (shrinkBuf_thinned _)
  · exact (shrunk.trans (parseAck_thinned _ _)).trans (shrinkBuf_thinned _)
  · refine Thinned.trans ?_ (parseData_thinned _ _)
    exact shrunk.trans (.of_same rfl rfl rfl rfl)
  · exact shrunk.trans (.of_same rfl rfl rfl rfl)
  · exact shrunk
  · exact shrunk.trans (.of_same rfl rfl rfl rfl)
  · exact shrunk

theorem inputLoop_thinned (turns : Nat) (data : Bytes) :
    Thinned kcp (Kcp.inputLoop turns kcp data).1 := by
  induction turns generalizing kcp data with
  | zero => exact .refl kcp
  | succ turns inductionHypothesis =>
      simp only [Kcp.inputLoop]
      split_ifs
      · exact .refl kcp
      · exact .refl kcp
      · exact .refl kcp
      · exact (inputSegment_thinned kcp _ _).trans (inductionHypothesis _ _)

theorem growWindow_thinned (una : UInt32) : Thinned kcp (kcp.growWindow una) := by
  simp only [Kcp.growWindow]
  split_ifs <;> exact .of_same rfl rfl rfl rfl

/-- Whatever arrives, the sender stays in step. -/
theorem input_thinned (data : Bytes) : Thinned kcp (kcp.input data).1 := by
  have loop := inputLoop_thinned kcp data.length data
  simp only [Kcp.input]
  split_ifs
  · exact .refl kcp
  · split
    · rename_i parsed result
      rw [result] at loop
      exact loop.trans (growWindow_thinned _ _)
    · exact loop

theorem mergeFragments_thinned (queue : List Seg) :
    Thinned kcp (Kcp.mergeFragments queue kcp).2 := by
  induction queue generalizing kcp with
  | nil => exact .refl kcp
  | cons seg rest inductionHypothesis =>
      simp only [Kcp.mergeFragments]
      split_ifs
      · exact .of_same rfl rfl rfl rfl
      · refine Thinned.trans ?_ (inductionHypothesis _)
        exact .of_same rfl rfl rfl rfl

theorem recv_thinned : Thinned kcp kcp.recv.2.2 := by
  have moved := (mergeFragments_thinned kcp kcp.rcvQueue).trans
    (moveAvailable_thinned _ (Kcp.mergeFragments kcp.rcvQueue kcp).2.rcvBuf)
  simp only [Kcp.recv]
  split_ifs
  · exact .refl kcp
  · exact .refl kcp
  · exact moved.trans (.of_same rfl rfl rfl rfl)
  · exact moved

end Input

end CrossOver.Engine.Ikcp
