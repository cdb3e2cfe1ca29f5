import Mathlib.Data.List.Forall2
import CrossOver.Engine.Ikcp.Clock
import CrossOver.Engine.Ikcp.Sender

/-!
# The origin of the clock

Two runs of a control block whose clocks differ by a constant.  Once the clock
has been read by `ikcp_update`, flushing does not tell them apart, but for the
times in the data segments it puts out.

`ikcp_flush` also runs at the end of `ikcp_send`, and may do so before the clock
has ever been read; then it stamps segments with a time that moves with nothing.
-/

namespace CrossOver.Engine.Ikcp

open CrossOver.Lib

/-! ## Packets -/

/-- Data segments carry the time of the clock; acknowledgements and probes carry
the time of the peer. -/
def restamp (offset : UInt32) (seg : Seg) : Seg :=
  if seg.cmd = cmdPush then { seg with ts := seg.ts + offset } else seg

/-- The same packet but for the times of its data segments. -/
def Restamped (offset : UInt32) (packet packet' : Bytes) : Prop :=
  ∃ segs : List Seg, packet = segs.flatMap wire ∧
    packet' = (segs.map (restamp offset)).flatMap wire

structure RestampedOut (offset : UInt32) (out out' : Outgoing) : Prop where
  buffer : Restamped offset out.buffer out'.buffer
  packets : List.Forall₂ (Restamped offset) out.packets out'.packets

section Packets

variable {offset : UInt32} {out out' : Outgoing}

theorem restamp_wire_length (offset : UInt32) (seg : Seg) :
    (wire (restamp offset seg)).length = (wire seg).length := by
  have header : ∀ other : Seg, (encodeSeg other).length = 24 := fun other =>
    encodeHeader_length (headerOf other)
  have data : (restamp offset seg).data = seg.data := by
    unfold restamp
    split <;> rfl
  rw [wire, wire, List.length_append, List.length_append, header, header, data]

theorem Restamped.length {packet packet' : Bytes} (restamped : Restamped offset packet packet') :
    packet'.length = packet.length := by
  obtain ⟨segs, rfl, rfl⟩ := restamped
  induction segs with
  | nil => rfl
  | cons seg rest inductionHypothesis =>
      rw [List.map_cons, List.flatMap_cons, List.flatMap_cons, List.length_append,
        List.length_append, restamp_wire_length, inductionHypothesis]

theorem Restamped.snoc {packet packet' : Bytes} (restamped : Restamped offset packet packet')
    (seg : Seg) : Restamped offset (packet ++ wire seg) (packet' ++ wire (restamp offset seg)) := by
  obtain ⟨segs, rfl, rfl⟩ := restamped
  exact ⟨segs ++ [seg], by simp, by simp⟩

theorem RestampedOut.output (restamped : RestampedOut offset out out') :
    RestampedOut offset out.output out'.output := by
  refine ⟨⟨[], rfl, rfl⟩, ?_⟩
  have length := restamped.buffer.length
  by_cases empty : out.buffer = []
  · have empty' : out'.buffer = [] := by
      rw [empty] at length
      exact List.eq_nil_of_length_eq_zero length
    simp only [Outgoing.output, empty, empty', if_true]
    exact restamped.packets
  · have full : out'.buffer ≠ [] := by
      intro empty'
      rw [empty'] at length
      exact empty (List.eq_nil_of_length_eq_zero length.symm)
    simp only [Outgoing.output, empty, full, if_false]
    exact List.rel_append restamped.packets (.cons restamped.buffer .nil)

theorem RestampedOut.append (restamped : RestampedOut offset out out') (mtu : UInt32) (need : Nat)
    (seg : Seg) : RestampedOut offset (out.append mtu need (wire seg))
      (out'.append mtu need (wire (restamp offset seg))) := by
  unfold Outgoing.append
  rw [restamped.buffer.length]
  split
  · exact ⟨restamped.output.buffer.snoc seg, restamped.output.packets⟩
  · exact ⟨restamped.buffer.snoc seg, restamped.packets⟩

/-- Control segments are the same whatever the clock. -/
theorem restamped_of_control {packet : Bytes} (proper : ProperPacket (fun _ => False) packet) :
    Restamped offset packet packet := by
  obtain ⟨segs, rfl, each⟩ := proper
  refine ⟨segs, rfl, ?_⟩
  have same : segs.map (restamp offset) = segs.map id := by
    refine List.map_congr_left ?_
    intro seg membership
    rcases each seg membership with ⟨cmd, -⟩ | ⟨-, wrong⟩
    · have notPush : seg.cmd ≠ cmdPush := by
        rcases cmd with cmd | cmd | cmd <;> rw [cmd] <;> decide
      exact if_neg notPush
    · exact wrong.elim
  rw [same, List.map_id]

theorem restampedOut_of_control (proper : ProperOut (fun _ => False) out) :
    RestampedOut offset out out := by
  refine ⟨restamped_of_control proper.buffer, ?_⟩
  exact List.forall₂_same.mpr fun packet membership =>
    restamped_of_control (proper.packets packet membership)

end Packets

/-! ## Flushing -/

section Flushing

variable (offset tsProbe : UInt32) (kcp : Kcp)

theorem dueSegment_shift (resent rtomin : UInt32) (segment : Seg) (now : Kcp.Resending)
    (out : Outgoing) :
    (kcp.shift offset tsProbe).dueSegment resent rtomin (segment.shift offset)
        { now with out := out } =
      (kcp.dueSegment resent rtomin segment now).map fun due =>
        (due.1.shift offset, { due.2 with out := out }) := by
  have fields : (segment.shift offset).xmit = segment.xmit ∧
      (segment.shift offset).resendts = segment.resendts + offset ∧
      (segment.shift offset).fastack = segment.fastack ∧
      (kcp.shift offset tsProbe).current = kcp.current + offset := ⟨rfl, rfl, rfl, rfl⟩
  unfold Kcp.dueSegment
  rw [fields.1, fields.2.1, fields.2.2.1, fields.2.2.2, itimediff_shift]
  have rearranged : ∀ delay : UInt32, kcp.current + offset + delay = kcp.current + delay + offset := by
    intro delay
    grind
  split
  · have later : kcp.current + offset + kcp.rxRto.toUInt32 + rtomin =
        kcp.current + kcp.rxRto.toUInt32 + rtomin + offset := by grind
    have same : (kcp.shift offset tsProbe).rxRto = kcp.rxRto := rfl
    rw [same, later]
    rfl
  · split
    · simp only [rearranged]
      rfl
    · split
      · simp only [rearranged]
        rfl
      · rfl

/-- The loop over the send buffer. -/
theorem flushSegments_shift (resent rtomin wnd : UInt32) (segments : List Seg)
    (push : ∀ seg ∈ segments, seg.cmd = cmdPush) (now : Kcp.Resending) (out : Outgoing)
    (restamped : RestampedOut offset now.out out) :
    ∃ out', (kcp.shift offset tsProbe).flushSegments resent rtomin wnd
        (segments.map (Seg.shift offset)) { now with out := out } =
      ((kcp.flushSegments resent rtomin wnd segments now).1.map (Seg.shift offset),
        { (kcp.flushSegments resent rtomin wnd segments now).2 with out := out' }) ∧
      RestampedOut offset (kcp.flushSegments resent rtomin wnd segments now).2.out out' := by
  induction segments generalizing now out with
  | nil => exact ⟨out, rfl, restamped⟩
  | cons segment rest inductionHypothesis =>
      have pushRest : ∀ seg ∈ rest, seg.cmd = cmdPush := fun seg membership =>
        push seg (List.mem_cons_of_mem _ membership)
      rw [List.map_cons, Kcp.flushSegments, Kcp.flushSegments, dueSegment_shift]
      cases isDue : kcp.dueSegment resent rtomin segment now with
      | none =>
          obtain ⟨out', same, later⟩ := inductionHypothesis pushRest now out restamped
          refine ⟨out', ?_, later⟩
          simp only [Option.map_none, same]
          rfl
      | some found =>
          obtain ⟨due, counted⟩ := found
          obtain ⟨-, -, cmdEq, outEq⟩ := dueSegment_spec isDue
          let sent : Seg := { due with ts := kcp.current, wnd := wnd, una := kcp.rcvNxt }
          have sentPush : sent.cmd = cmdPush := cmdEq.trans (push segment List.mem_cons_self)
          have bytes : wire (sent.shift offset) = wire (restamp offset sent) := by
            rw [restamp, if_pos sentPush]
            rfl
          have extended := RestampedOut.append (outEq ▸ restamped) kcp.mtu (24 + sent.data.length) sent
          rw [← bytes] at extended
          obtain ⟨out', same, later⟩ := inductionHypothesis pushRest
            { counted with
              out := counted.out.append kcp.mtu (24 + sent.data.length) (wire sent)
              state := if sent.xmit ≥ kcp.deadLink then 0xffffffff else counted.state } _ extended
          refine ⟨out', ?_, later⟩
          exact congrArg (fun result => (sent.shift offset :: result.1, result.2)) same

theorem moveToSndBuf_shift (cwnd wnd : UInt32) (queue : List Seg) :
    Kcp.moveToSndBuf cwnd wnd queue (kcp.shift offset tsProbe) =
      (Kcp.moveToSndBuf cwnd wnd queue kcp).shift offset tsProbe := by
  induction queue generalizing kcp with
  | nil => rfl
  | cons newseg rest inductionHypothesis =>
      have numbers : (kcp.shift offset tsProbe).sndNxt = kcp.sndNxt ∧
          (kcp.shift offset tsProbe).sndUna = kcp.sndUna := ⟨rfl, rfl⟩
      rw [Kcp.moveToSndBuf, Kcp.moveToSndBuf, numbers.1, numbers.2]
      split
      · rw [← inductionHypothesis]
        congr 1
        simp only [Kcp.shift, List.map_append]
        rfl
      · rfl

theorem moveToSndBuf_push (cwnd wnd : UInt32) (queue : List Seg)
    (push : ∀ seg ∈ kcp.sndBuf, seg.cmd = cmdPush) :
    ∀ seg ∈ (Kcp.moveToSndBuf cwnd wnd queue kcp).sndBuf, seg.cmd = cmdPush := by
  induction queue generalizing kcp with
  | nil => exact push
  | cons newseg rest inductionHypothesis =>
      rw [Kcp.moveToSndBuf]
      split
      · refine inductionHypothesis _ ?_
        intro seg membership
        rcases List.mem_append.mp membership with old | new
        · exact push seg old
        · rw [List.mem_singleton.mp new]
      · exact push

theorem adjustWindow_shift (cwnd resent : UInt32) (change lost : Bool) :
    (kcp.shift offset tsProbe).adjustWindow cwnd resent change lost =
      (kcp.adjustWindow cwnd resent change lost).shift offset tsProbe := by
  unfold Kcp.adjustWindow
  cases change <;> cases lost <;> simp only [Bool.false_eq_true, if_false, if_true] <;>
    rw [apply_ite (Kcp.shift offset tsProbe)] <;> rfl

/-- When the next probe is due moves with the clock, if one is waiting. -/
theorem probed_shift (waiting : kcp.probeWait ≠ 0 → tsProbe = kcp.tsProbe + offset) :
    ∃ tsProbe', (kcp.shift offset tsProbe).probed = kcp.probed.shift offset tsProbe' ∧
      (kcp.probed.probeWait ≠ 0 → tsProbe' = kcp.probed.tsProbe + offset) := by
  have rearranged : ∀ delay : UInt32, kcp.current + offset + delay = kcp.current + delay + offset := by
    intro delay
    grind
  by_cases closed : kcp.rmtWnd = 0
  · by_cases idle : kcp.probeWait = 0
    · refine ⟨kcp.current + offset + probeInit, ?_, ?_⟩
      · simp only [Kcp.probed, Kcp.probeWindow, Kcp.shift, closed, idle, if_true]
      · intro _
        simp only [Kcp.probed, Kcp.probeWindow, closed, idle, if_true, rearranged]
    · have due : itimediff (kcp.current + offset) tsProbe = itimediff kcp.current kcp.tsProbe := by
        rw [waiting idle, itimediff_shift]
      by_cases now : itimediff kcp.current kcp.tsProbe ≥ 0
      · simp only [Kcp.probed, Kcp.probeWindow, Kcp.shift, closed, idle, due, now, if_true,
          if_false, rearranged]
        exact ⟨_, rfl, fun _ => rfl⟩
      · refine ⟨tsProbe, ?_, ?_⟩
        · simp only [Kcp.probed, Kcp.probeWindow, Kcp.shift, closed, idle, due, now, if_true, if_false]
        · intro _
          simp only [Kcp.probed, Kcp.probeWindow, closed, idle, now, if_true, if_false]
          exact waiting idle
  · refine ⟨0, ?_, ?_⟩
    · simp only [Kcp.probed, Kcp.probeWindow, Kcp.shift, closed, if_false]
    · intro wrong
      simp [Kcp.probed, Kcp.probeWindow, closed] at wrong

end Flushing

/-- The second control block is the first with a clock that is `offset` ahead. -/
structure Ahead (offset : UInt32) (kcp kcp' : Kcp) : Prop where
  shifted : ∃ tsProbe, kcp' = kcp.shift offset tsProbe ∧
    (kcp.probeWait ≠ 0 → tsProbe = kcp.tsProbe + offset)
  push : ∀ seg ∈ kcp.sndBuf, seg.cmd = cmdPush

section Operations

variable {offset : UInt32} {kcp kcp' : Kcp}

theorem flushControl_shift {tsProbe tsProbe' : UInt32}
    (probed : (kcp.shift offset tsProbe).probed = kcp.probed.shift offset tsProbe') :
    (kcp.shift offset tsProbe).flushControl = kcp.flushControl := by
  unfold Kcp.flushControl
  rw [probed]
  rfl

/-- The parts of a flush behind the control segments. -/
def Kcp.filled (kcp : Kcp) : Kcp :=
  Kcp.moveToSndBuf kcp.probed.flushWindow kcp.wndUnused kcp.probed.sndQueue
    { kcp.probed with probe := 0 }

def Kcp.emptied (kcp : Kcp) : List Seg × Kcp.Resending :=
  kcp.filled.flushSegments kcp.filled.resent kcp.filled.rtomin kcp.wndUnused kcp.filled.sndBuf
    { out := kcp.flushControl, xmit := kcp.filled.xmit, state := kcp.filled.state, lost := false,
      change := false }

def Kcp.conclude (kcp : Kcp) (cwnd : UInt32) (sent : List Seg × Kcp.Resending) : Kcp :=
  ({ kcp with sndBuf := sent.1, xmit := sent.2.xmit, state := sent.2.state }).adjustWindow cwnd
    kcp.resent sent.2.change sent.2.lost

theorem flush_eq (kcp : Kcp) : kcp.flush =
    (kcp.filled.conclude kcp.probed.flushWindow kcp.emptied, kcp.emptied.2.out.output.packets) := rfl

theorem conclude_shift (offset tsProbe : UInt32) (kcp : Kcp) (cwnd : UInt32) (segments : List Seg)
    (now : Kcp.Resending) (out : Outgoing) :
    (kcp.shift offset tsProbe).conclude cwnd
        (segments.map (Seg.shift offset), { now with out := out }) =
      (kcp.conclude cwnd (segments, now)).shift offset tsProbe := by
  unfold Kcp.conclude
  rw [← adjustWindow_shift]
  rfl

/-- The window moves, and neither the buffer nor the probes. -/
theorem adjustWindow_frame (kcp : Kcp) (cwnd resent : UInt32) (change lost : Bool) :
    (kcp.adjustWindow cwnd resent change lost).probeWait = kcp.probeWait ∧
      (kcp.adjustWindow cwnd resent change lost).tsProbe = kcp.tsProbe ∧
      (kcp.adjustWindow cwnd resent change lost).sndBuf = kcp.sndBuf := by
  simp only [Kcp.adjustWindow]
  split_ifs <;> exact ⟨rfl, rfl, rfl⟩

theorem moveToSndBuf_probe (cwnd wnd : UInt32) (queue : List Seg) (kcp : Kcp) :
    (Kcp.moveToSndBuf cwnd wnd queue kcp).probeWait = kcp.probeWait ∧
      (Kcp.moveToSndBuf cwnd wnd queue kcp).tsProbe = kcp.tsProbe := by
  induction queue generalizing kcp with
  | nil => exact ⟨rfl, rfl⟩
  | cons newseg rest inductionHypothesis =>
      rw [Kcp.moveToSndBuf]
      split
      · exact inductionHypothesis _
      · exact ⟨rfl, rfl⟩

theorem filled_shift {tsProbe tsProbe' : UInt32}
    (probed : (kcp.shift offset tsProbe).probed = kcp.probed.shift offset tsProbe') :
    (kcp.shift offset tsProbe).filled = kcp.filled.shift offset tsProbe' := by
  unfold Kcp.filled
  rw [← moveToSndBuf_shift, probed]
  rfl

theorem Ahead.flush (ahead : Ahead offset kcp kcp') :
    Ahead offset kcp.flush.1 kcp'.flush.1 ∧
      List.Forall₂ (Restamped offset) kcp.flush.2 kcp'.flush.2 := by
  obtain ⟨⟨tsProbe, rfl, waiting⟩, push⟩ := ahead
  obtain ⟨tsProbe', probed, waiting'⟩ := probed_shift offset tsProbe kcp waiting
  have probedPush : ∀ seg ∈ kcp.probed.sndBuf, seg.cmd = cmdPush := by
    intro seg membership
    obtain ⟨old, there, same, -⟩ := (probed_thinned kcp).buf seg membership
    exact same.trans (push old there)
  have filledPush : ∀ seg ∈ kcp.filled.sndBuf, seg.cmd = cmdPush :=
    moveToSndBuf_push _ _ _ _ probedPush
  have filled := filled_shift probed
  have control : RestampedOut offset kcp.flushControl kcp.flushControl :=
    restampedOut_of_control (flushControl_proper kcp)
  obtain ⟨out, emptied, restamped⟩ := flushSegments_shift offset tsProbe' kcp.filled
    kcp.filled.resent kcp.filled.rtomin kcp.wndUnused kcp.filled.sndBuf filledPush
    { out := kcp.flushControl, xmit := kcp.filled.xmit, state := kcp.filled.state, lost := false,
      change := false } kcp.flushControl control
  have sent : (kcp.shift offset tsProbe).emptied =
      (kcp.emptied.1.map (Seg.shift offset), { kcp.emptied.2 with out := out }) := by
    rw [Kcp.emptied, filled, flushControl_shift probed]
    exact emptied
  have kept : kcp.filled.probeWait = kcp.probed.probeWait ∧ kcp.filled.tsProbe = kcp.probed.tsProbe :=
    moveToSndBuf_probe _ _ _ _
  have frame := adjustWindow_frame
    { kcp.filled with
      sndBuf := kcp.emptied.1, xmit := kcp.emptied.2.xmit, state := kcp.emptied.2.state }
    kcp.probed.flushWindow kcp.filled.resent kcp.emptied.2.change kcp.emptied.2.lost
  have emptiedPush : ∀ seg ∈ kcp.emptied.1, seg.cmd = cmdPush := by
    intro seg membership
    have any : Stable fun _ => True := fun _ _ _ _ _ => trivial
    have proper := flushSegments_proper kcp.filled kcp.filled.resent kcp.filled.rtomin kcp.wndUnused
      kcp.filled.sndBuf { out := kcp.flushControl, xmit := kcp.filled.xmit,
                          state := kcp.filled.state, lost := false, change := false }
      any (fun seg membership => ⟨filledPush seg membership, trivial⟩) (flushControl_proper kcp)
    exact (proper.1 seg membership).1
  rw [flush_eq, flush_eq, sent, filled, probed]
  refine ⟨⟨⟨tsProbe', conclude_shift .., ?_⟩, ?_⟩, restamped.output.packets⟩
  · intro armed
    rw [Kcp.conclude, frame.1] at armed
    rw [Kcp.conclude, frame.2.1]
    exact (waiting' (kept.1 ▸ armed)).trans (congrArg (· + offset) kept.2.symm)
  · intro seg membership
    rw [Kcp.conclude, frame.2.2] at membership
    exact emptiedPush seg membership

theorem Ahead.send (ahead : Ahead offset kcp kcp') (buffer : Bytes) :
    Ahead offset (kcp.send buffer).1 (kcp'.send buffer).1 ∧
      List.Forall₂ (Restamped offset) (kcp.send buffer).2.2 (kcp'.send buffer).2.2 := by
  obtain ⟨⟨tsProbe, rfl, waiting⟩, push⟩ := ahead
  have same : (kcp.shift offset tsProbe).mss = kcp.mss := rfl
  unfold Kcp.send
  rw [same]
  dsimp only
  split
  · exact ⟨⟨⟨tsProbe, rfl, waiting⟩, push⟩, .nil⟩
  · refine Ahead.flush ⟨⟨tsProbe, rfl, waiting⟩, push⟩

/-- A change of the receiving side that both control blocks make. -/
theorem Ahead.received (ahead : Ahead offset kcp kcp') {after after' : Kcp}
    (shifted : ∀ tsProbe, kcp' = kcp.shift offset tsProbe → after' = after.shift offset tsProbe)
    (timers : after.timers = kcp.timers) (thinned : Thinned kcp after) :
    Ahead offset after after' := by
  obtain ⟨⟨tsProbe, same, waiting⟩, push⟩ := ahead
  simp only [Kcp.timers, Prod.mk.injEq] at timers
  refine ⟨⟨tsProbe, shifted tsProbe same, ?_⟩, ?_⟩
  · rw [timers.2.1, timers.2.2]
    exact waiting
  · intro seg membership
    obtain ⟨old, there, same, -⟩ := thinned.buf seg membership
    exact same.trans (push old there)

theorem Ahead.input (ahead : Ahead offset kcp kcp') (data : Bytes) :
    Ahead offset (kcp.input data).1 (kcp'.input (shiftAcks offset data)).1 := by
  refine ahead.received ?_ (input_timers kcp data) (input_thinned kcp data)
  rintro tsProbe rfl
  rw [input_shift]

theorem Ahead.recv (ahead : Ahead offset kcp kcp') :
    Ahead offset kcp.recv.2.2 kcp'.recv.2.2 := by
  refine ahead.received ?_ (recv_timers kcp) (recv_thinned kcp)
  rintro tsProbe rfl
  rw [recv_shift]

def nextFlush (interval started current : UInt32) : UInt32 × Bool :=
  let slap := itimediff current started
  let jumped := slap ≥ 10000 ∨ slap < -10000
  let aligned := if jumped then current else started
  let due := jumped ∨ slap ≥ 0
  let next := aligned + interval
  let ahead := if itimediff current next ≥ 0 then current + interval else next
  (if due then ahead else aligned, due)

def Kcp.started (kcp : Kcp) (current : UInt32) : UInt32 :=
  if kcp.updated = 0 then current else kcp.tsFlush

theorem schedule_eq (kcp : Kcp) (current : UInt32) : kcp.schedule current =
    ({ kcp with
      current := current
      updated := if kcp.updated = 0 then 1 else kcp.updated
      tsFlush := (nextFlush kcp.interval (kcp.started current) current).1 },
      (nextFlush kcp.interval (kcp.started current) current).2) := rfl

theorem nextFlush_shift (offset interval started current : UInt32) :
    nextFlush interval (started + offset) (current + offset) =
      ((nextFlush interval started current).1 + offset, (nextFlush interval started current).2) := by
  have rearranged : ∀ time : UInt32, time + offset + interval = time + interval + offset := by
    intro time
    grind
  unfold nextFlush
  simp only [itimediff_shift]
  by_cases jumped : itimediff current started ≥ 10000 ∨ itimediff current started < -10000
  · simp only [jumped, if_true, true_or, rearranged, itimediff_shift]
    split <;> rfl
  · simp only [jumped, if_false, false_or, rearranged, itimediff_shift]
    split
    · split <;> rfl
    · rfl

theorem schedule_shift (offset tsProbe : UInt32) (kcp : Kcp) (current : UInt32) :
    (kcp.shift offset tsProbe).schedule (current + offset) =
      ((kcp.schedule current).1.shift offset tsProbe, (kcp.schedule current).2) := by
  have started : (kcp.shift offset tsProbe).started (current + offset) =
      kcp.started current + offset := by
    unfold Kcp.started
    split
    · next unread => rw [if_pos (by exact unread)]
    · next read => rw [if_neg (by exact read)]; rfl
  rw [schedule_eq, schedule_eq, started]
  have interval : (kcp.shift offset tsProbe).interval = kcp.interval := rfl
  rw [interval, nextFlush_shift]
  rfl

/-- The first reading of the clock does not depend on what was there before. -/
theorem schedule_first (offset : UInt32) {kcp : Kcp} (unread : kcp.updated = 0)
    (empty : kcp.sndBuf = []) (current : UInt32) :
    kcp.schedule current = (kcp.shift offset kcp.tsProbe).schedule current := by
  simp only [Kcp.schedule, Kcp.shift, unread, empty, if_true, List.map_nil]

theorem Ahead.schedule (ahead : Ahead offset kcp kcp') (current : UInt32) :
    Ahead offset (kcp.schedule current).1 (kcp'.schedule (current + offset)).1 ∧
      (kcp'.schedule (current + offset)).2 = (kcp.schedule current).2 := by
  obtain ⟨⟨tsProbe, rfl, waiting⟩, push⟩ := ahead
  rw [schedule_shift]
  exact ⟨⟨⟨tsProbe, rfl, waiting⟩, push⟩, rfl⟩

theorem Ahead.update (ahead : Ahead offset kcp kcp') (current : UInt32) :
    Ahead offset (kcp.update current).1 (kcp'.update (current + offset)).1 ∧
      List.Forall₂ (Restamped offset) (kcp.update current).2 (kcp'.update (current + offset)).2 := by
  obtain ⟨scheduled, due⟩ := ahead.schedule current
  unfold Kcp.update
  rw [due]
  split
  · exact scheduled.flush
  · exact ⟨scheduled, .nil⟩

end Operations

/-! ## Runs -/

/-- What `Socket` does with its control block. -/
inductive Operation where
  | send (buffer : Bytes)
  | input (packet : Bytes)
  | recv
  | update (current : UInt32)
  deriving DecidableEq, Repr

def Operation.run (kcp : Kcp) : Operation → Kcp × List Bytes
  | .send buffer => ((kcp.send buffer).1, (kcp.send buffer).2.2)
  | .input packet => ((kcp.input packet).1, [])
  | .recv => (kcp.recv.2.2, [])
  | .update current => kcp.update current

/-- The packets and the retransmission timeout of every step. -/
def observe (kcp : Kcp) : List Operation → List (List Bytes × Int32)
  | [] => []
  | operation :: rest =>
      ((operation.run kcp).2, (operation.run kcp).1.rxRto) :: observe (operation.run kcp).1 rest

def Operation.shift (offset : UInt32) : Operation → Operation
  | .send buffer => .send buffer
  | .input packet => .input (shiftAcks offset packet)
  | .recv => .recv
  | .update current => .update (current + offset)

/-- The whole run by that clock.  Segments that are sent before the clock is read
do not carry its time, and so neither do the acknowledgements before that. -/
def shiftRun (offset : UInt32) : List Operation → List Operation
  | [] => []
  | .update current :: rest => .update (current + offset) :: rest.map (Operation.shift offset)
  | operation :: rest => operation :: shiftRun offset rest

def SameButTimes (offset : UInt32) : List (List Bytes × Int32) → List (List Bytes × Int32) → Prop :=
  List.Forall₂ fun one other =>
    List.Forall₂ (Restamped offset) one.1 other.1 ∧ one.2 = other.2

/-- The control block that the constructor of `Socket` makes. -/
def socketKcp (conv : UInt32) : Kcp := (create conv).setNodelay 1 10 2 1

/-- Whether `ikcp_send` gets as far as `ikcp_flush`. -/
def Operation.flushes : Operation → Bool
  | .send buffer => Kcp.fragmentCount (mtuDef - overhead).toNat buffer.length ≤ 255
  | _ => false

/-- No message is taken by `ikcp_send` before the first `ikcp_update`. -/
def ClockFirst : List Operation → Prop
  | [] => True
  | .update _ :: _ => True
  | operation :: rest => operation.flushes = false ∧ ClockFirst rest

theorem Ahead.run {offset : UInt32} {kcp kcp' : Kcp} (ahead : Ahead offset kcp kcp') :
    ∀ operation : Operation,
      Ahead offset (operation.run kcp).1 ((operation.shift offset).run kcp').1 ∧
        List.Forall₂ (Restamped offset) (operation.run kcp).2 ((operation.shift offset).run kcp').2
  | .send buffer => ahead.send buffer
  | .input packet => ⟨ahead.input packet, .nil⟩
  | .recv => ⟨ahead.recv, .nil⟩
  | .update current => ahead.update current

theorem Ahead.observe {offset : UInt32} {kcp kcp' : Kcp} (ahead : Ahead offset kcp kcp')
    (operations : List Operation) :
    SameButTimes offset (observe kcp operations)
      (observe kcp' (operations.map (Operation.shift offset))) := by
  induction operations generalizing kcp kcp' with
  | nil => exact .nil
  | cons operation rest inductionHypothesis =>
      obtain ⟨next, packets⟩ := ahead.run operation
      refine .cons ⟨packets, ?_⟩ (inductionHypothesis next)
      obtain ⟨tsProbe, same, -⟩ := next.shifted
      rw [same]
      rfl

/-- The control block before its clock is read, if nothing has been flushed. -/
structure Unread (kcp : Kcp) : Prop where
  updated : kcp.updated = 0
  probeWait : kcp.probeWait = 0
  empty : kcp.sndBuf = []
  mss : kcp.mss = mtuDef - overhead

theorem socketKcp_unread (conv : UInt32) : Unread (socketKcp conv) := ⟨rfl, rfl, rfl, rfl⟩

theorem Unread.received {kcp after : Kcp} (unread : Unread kcp) (timers : after.timers = kcp.timers)
    (thinned : Thinned kcp after) : Unread after := by
  simp only [Kcp.timers, Prod.mk.injEq] at timers
  refine ⟨timers.1.trans unread.updated, timers.2.1.trans unread.probeWait, ?_,
    thinned.mss.trans unread.mss⟩
  refine List.eq_nil_iff_forall_not_mem.mpr ?_
  intro seg membership
  obtain ⟨old, there, -⟩ := thinned.buf seg membership
  rw [unread.empty] at there
  cases there

/-- A message that is not taken changes nothing. -/
theorem Unread.refused {kcp : Kcp} (unread : Unread kcp) {buffer : Bytes}
    (long : Operation.flushes (.send buffer) = false) : kcp.send buffer = (kcp, -2, []) := by
  have many : Kcp.fragmentCount kcp.mss.toNat buffer.length > 255 := by
    rw [unread.mss]
    simpa [Operation.flushes] using long
  rw [Kcp.send]
  dsimp only
  rw [if_pos many]

theorem Unread.update {kcp : Kcp} (unread : Unread kcp) (offset current : UInt32) :
    kcp.update (current + offset) =
        (kcp.shift offset kcp.tsProbe).update (current + offset) ∧
      Ahead offset kcp (kcp.shift offset kcp.tsProbe) := by
  have first := schedule_first offset unread.updated unread.empty (current + offset)
  refine ⟨?_, ⟨kcp.tsProbe, rfl, fun waiting => absurd unread.probeWait waiting⟩, ?_⟩
  · rw [Kcp.update, Kcp.update, first]
  · intro seg membership
    rw [unread.empty] at membership
    cases membership

/-- In every run that takes no message before the clock is first read, and for
every offset, the clock only shows in the times of the data segments. -/
theorem origin_free (conv offset : UInt32) (operations : List Operation)
    (clockFirst : ClockFirst operations) :
    SameButTimes offset (observe (socketKcp conv) operations)
      (observe (socketKcp conv) (shiftRun offset operations)) := by
  have unread := socketKcp_unread conv
  generalize socketKcp conv = kcp at unread
  induction operations generalizing kcp with
  | nil => exact .nil
  | cons operation rest inductionHypothesis =>
      cases operation with
      | send buffer =>
          have refused := unread.refused clockFirst.1
          have same : (Operation.send buffer).run kcp = (kcp, []) := by
            rw [Operation.run, refused]
          have shifted : shiftRun offset (.send buffer :: rest) =
              .send buffer :: shiftRun offset rest := rfl
          rw [shifted, observe, observe, same]
          exact .cons ⟨.nil, rfl⟩ (inductionHypothesis clockFirst.2 kcp unread)
      | input packet =>
          refine .cons ⟨.nil, rfl⟩ (inductionHypothesis clockFirst.2 _ ?_)
          exact unread.received (input_timers kcp packet) (input_thinned kcp packet)
      | recv =>
          refine .cons ⟨.nil, rfl⟩ (inductionHypothesis clockFirst.2 _ ?_)
          exact unread.received (recv_timers kcp) (recv_thinned kcp)
      | update current =>
          obtain ⟨same, ahead⟩ := unread.update offset current
          have both := ahead.observe (.update current :: rest)
          rw [List.map_cons, Operation.shift, observe, observe] at both
          rw [shiftRun, observe, observe, Operation.run, Operation.run, same]
          exact both

/-- A message is sent after the clock has been read, and again when it is not
acknowledged in time. -/
def patient : List Operation := [.update 0, .send [7], .update 300]

theorem origin_free_patient :
    ClockFirst patient ∧
      (observe (socketKcp 1) patient).map (fun step => step.1.length) = [0, 1, 1] ∧
      SameButTimes 1000 (observe (socketKcp 1) patient)
        (observe (socketKcp 1) [.update 1000, .send [7], .update 1300]) :=
  ⟨trivial, by decide +kernel, origin_free 1 1000 patient trivial⟩

/-- A message is sent before the clock is read.  Whether it is sent again at once
depends on where the clock starts. -/
def hasty : List Operation := [.send [7], .update 0]

theorem hasty_depends :
    ¬∀ operations offset, SameButTimes offset (observe (socketKcp 1) operations)
      (observe (socketKcp 1) (shiftRun offset operations)) := by
  intro same
  have lengths : (observe (socketKcp 1) hasty).map (fun step => step.1.length) = [1, 0] ∧
      (observe (socketKcp 1) (shiftRun 1000 hasty)).map (fun step => step.1.length) = [1, 1] := by
    decide +kernel
  have equal : ∀ one other, SameButTimes 1000 one other →
      one.map (fun step => step.1.length) = other.map fun step => step.1.length := by
    intro one other both
    induction both with
    | nil => rfl
    | cons here _ inductionHypothesis =>
        rw [List.map_cons, List.map_cons, here.1.length_eq, inductionHypothesis]
  have wrong := equal _ _ (same hasty 1000)
  rw [lengths.1, lengths.2] at wrong
  cases wrong

end CrossOver.Engine.Ikcp
