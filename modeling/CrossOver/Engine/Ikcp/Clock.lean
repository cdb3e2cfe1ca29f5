import CrossOver.Engine.Ikcp.Wire

/-!
# Control blocks with different clocks

A control block whose clock is ahead by a constant: everything it knows about
time is ahead with it, that is the current time, the next flush, the next probe
and the times of the segments it has sent.  The rest is the same.

Receiving does not tell the two apart, if the acknowledgements of one are ahead
as well.
-/

namespace CrossOver.Engine.Ikcp

open CrossOver.Lib

/-- A segment sent by a clock that is `offset` ahead. -/
def Seg.shift (offset : UInt32) (seg : Seg) : Seg :=
  { seg with ts := seg.ts + offset, resendts := seg.resendts + offset }

/-- The control block of a clock that is `offset` ahead.  When the next probe is
due is only known if one is waiting. -/
def Kcp.shift (offset tsProbe : UInt32) (kcp : Kcp) : Kcp :=
  { kcp with
    current := kcp.current + offset
    tsFlush := kcp.tsFlush + offset
    tsProbe := tsProbe
    sndBuf := kcp.sndBuf.map (Seg.shift offset) }

def Header.shiftAck (offset : UInt32) (header : Header) : Header :=
  { header with ts := if header.cmd.toUInt32 = cmdAck then header.ts + offset else header.ts }

/-- A packet whose acknowledgements answer segments of a clock that is `offset`
ahead.  It is taken apart as `ikcp_input` does. -/
def shiftAcksLoop (offset : UInt32) : Nat → Bytes → Bytes
  | 0, data => data
  | turns + 1, data =>
      if data.length < 24 then data
      else
        let header := decodeHeader data
        let rest := data.drop 24
        if rest.length < header.len.toNat then data
        else if !Kcp.knownCmd header.cmd.toUInt32 then data
        else
          encodeHeader (header.shiftAck offset) ++ (rest.take header.len.toNat ++
            shiftAcksLoop offset turns (rest.drop header.len.toNat))

def shiftAcks (offset : UInt32) (data : Bytes) : Bytes := shiftAcksLoop offset data.length data

@[simp]
theorem itimediff_shift (later earlier offset : UInt32) :
    itimediff (later + offset) (earlier + offset) = itimediff later earlier := by
  have same : later + offset - (earlier + offset) = later - earlier := by grind
  rw [itimediff, itimediff, same]

theorem sub_shift (later earlier offset : UInt32) :
    later + offset - (earlier + offset) = later - earlier := by grind

section Receiving

variable (offset tsProbe : UInt32) (kcp : Kcp)

theorem shrinkBuf_shift :
    (kcp.shift offset tsProbe).shrinkBuf = kcp.shrinkBuf.shift offset tsProbe := by
  unfold Kcp.shrinkBuf Kcp.shift
  rcases kcp.sndBuf with _ | ⟨seg, rest⟩ <;> rfl

theorem ackLoop_shift (sn : UInt32) (segments : List Seg) :
    Kcp.ackLoop sn (segments.map (Seg.shift offset)) =
      ((Kcp.ackLoop sn segments).1.map (Seg.shift offset), (Kcp.ackLoop sn segments).2) := by
  induction segments with
  | nil => rfl
  | cons seg rest inductionHypothesis =>
      have number : (Seg.shift offset seg).sn = seg.sn := rfl
      rw [List.map_cons, Kcp.ackLoop, Kcp.ackLoop, number, inductionHypothesis]
      split <;> rfl

theorem parseAck_shift (sn : UInt32) :
    (kcp.shift offset tsProbe).parseAck sn = (kcp.parseAck sn).shift offset tsProbe := by
  have loop := ackLoop_shift offset sn kcp.sndBuf
  unfold Kcp.parseAck
  simp only [Kcp.shift, loop]
  split <;> rfl

theorem unaLoop_shift (una : UInt32) (segments : List Seg) :
    Kcp.unaLoop una (segments.map (Seg.shift offset)) =
      (Kcp.unaLoop una segments).map (Seg.shift offset) := by
  induction segments with
  | nil => rfl
  | cons seg rest inductionHypothesis =>
      have number : (Seg.shift offset seg).sn = seg.sn := rfl
      rw [List.map_cons, Kcp.unaLoop, Kcp.unaLoop, number, inductionHypothesis]
      split <;> rfl

theorem parseUna_shift (una : UInt32) :
    (kcp.shift offset tsProbe).parseUna una = (kcp.parseUna una).shift offset tsProbe := by
  unfold Kcp.parseUna
  simp only [Kcp.shift, unaLoop_shift, List.length_map]

theorem updateAck_shift (rtt : Int32) :
    (kcp.shift offset tsProbe).updateAck rtt = (kcp.updateAck rtt).shift offset tsProbe := by
  unfold Kcp.updateAck
  have srtt : (kcp.shift offset tsProbe).rxSrtt = kcp.rxSrtt := rfl
  rw [srtt]
  split <;> rfl

theorem moveAvailable_shift (buffer : List Seg) :
    Kcp.moveAvailable buffer (kcp.shift offset tsProbe) =
      (Kcp.moveAvailable buffer kcp).shift offset tsProbe := by
  induction buffer generalizing kcp with
  | nil => rfl
  | cons seg rest inductionHypothesis =>
      have numbers : (kcp.shift offset tsProbe).rcvNxt = kcp.rcvNxt ∧
          (kcp.shift offset tsProbe).nrcvQue = kcp.nrcvQue ∧
          (kcp.shift offset tsProbe).rcvWnd = kcp.rcvWnd := ⟨rfl, rfl, rfl⟩
      rw [Kcp.moveAvailable, Kcp.moveAvailable, numbers.1, numbers.2.1, numbers.2.2]
      split
      · rw [← inductionHypothesis]
        rfl
      · rfl

theorem parseData_shift (newseg : Seg) :
    (kcp.shift offset tsProbe).parseData newseg = (kcp.parseData newseg).shift offset tsProbe := by
  have numbers : (kcp.shift offset tsProbe).rcvNxt = kcp.rcvNxt ∧
      (kcp.shift offset tsProbe).rcvWnd = kcp.rcvWnd ∧
      (kcp.shift offset tsProbe).rcvBuf = kcp.rcvBuf := ⟨rfl, rfl, rfl⟩
  unfold Kcp.parseData
  rw [numbers.1, numbers.2.1, numbers.2.2]
  split
  · rfl
  · rcases Kcp.insertLoop newseg kcp.rcvBuf.reverse with _ | reversed
    · exact moveAvailable_shift offset tsProbe kcp _
    · dsimp only
      rw [← moveAvailable_shift]
      rfl

/-- The window and the acknowledged numbers of a segment. -/
def Kcp.heed (kcp : Kcp) (header : Header) : Kcp :=
  (({ kcp with rmtWnd := header.wnd.toUInt32 }).parseUna header.una).shrinkBuf

/-- What its command asks for. -/
def Kcp.respond (kcp : Kcp) (header : Header) (data : Bytes) : Kcp :=
  let cmd := header.cmd.toUInt32
  if cmd = cmdAck then
    let sampled :=
      if itimediff kcp.current header.ts ≥ 0 then
        kcp.updateAck (kcp.current - header.ts).toInt32
      else kcp
    (sampled.parseAck header.sn).shrinkBuf
  else if cmd = cmdPush then
    if itimediff header.sn (kcp.rcvNxt + kcp.rcvWnd) < 0 then
      let acked := kcp.ackPush header.sn header.ts
      if itimediff header.sn acked.rcvNxt ≥ 0 then
        acked.parseData
          { conv := header.conv, cmd := cmd, frg := header.frg.toUInt32,
            wnd := header.wnd.toUInt32, ts := header.ts, sn := header.sn, una := header.una,
            data := data }
      else acked
    else kcp
  else if cmd = cmdWask then { kcp with probe := kcp.probe ||| askTell }
  else kcp

theorem inputSegment_eq (header : Header) (data : Bytes) :
    kcp.inputSegment header data = (kcp.heed header).respond header data := rfl

theorem heed_shift (header : Header) :
    (kcp.shift offset tsProbe).heed header = (kcp.heed header).shift offset tsProbe := by
  unfold Kcp.heed
  rw [← shrinkBuf_shift, ← parseUna_shift]
  rfl

theorem respond_shift (header : Header) (data : Bytes) :
    (kcp.shift offset tsProbe).respond (header.shiftAck offset) data =
      (kcp.respond header data).shift offset tsProbe := by
  have current : (kcp.shift offset tsProbe).current = kcp.current + offset := rfl
  have numbers : (kcp.shift offset tsProbe).rcvNxt = kcp.rcvNxt ∧
      (kcp.shift offset tsProbe).rcvWnd = kcp.rcvWnd := ⟨rfl, rfl⟩
  unfold Kcp.respond
  by_cases ack : header.cmd.toUInt32 = cmdAck
  · simp only [Header.shiftAck, ack, if_true]
    rw [current, itimediff_shift, sub_shift]
    split
    · rw [updateAck_shift, parseAck_shift, shrinkBuf_shift]
    · rw [parseAck_shift, shrinkBuf_shift]
  · have same : header.shiftAck offset = header := by
      rw [Header.shiftAck, if_neg ack]
    rw [same]
    simp only [ack, if_false]
    split
    · rw [numbers.1, numbers.2]
      split
      · have acked : (kcp.shift offset tsProbe).ackPush header.sn header.ts =
            (kcp.ackPush header.sn header.ts).shift offset tsProbe := rfl
        have next : ((kcp.ackPush header.sn header.ts).shift offset tsProbe).rcvNxt =
            (kcp.ackPush header.sn header.ts).rcvNxt := rfl
        rw [acked, next]
        split
        · exact parseData_shift offset tsProbe _ _
        · rfl
      · rfl
    · split <;> rfl

theorem inputSegment_shift (header : Header) (data : Bytes) :
    (kcp.shift offset tsProbe).inputSegment (header.shiftAck offset) data =
      (kcp.inputSegment header data).shift offset tsProbe := by
  have same : (kcp.shift offset tsProbe).heed (header.shiftAck offset) =
      (kcp.shift offset tsProbe).heed header := rfl
  rw [inputSegment_eq, inputSegment_eq, same, heed_shift, respond_shift]

theorem growWindow_shift (una : UInt32) :
    (kcp.shift offset tsProbe).growWindow una = (kcp.growWindow una).shift offset tsProbe := by
  unfold Kcp.growWindow
  rw [apply_ite (Kcp.shift offset tsProbe), apply_ite (Kcp.shift offset tsProbe)]
  refine if_congr Iff.rfl (if_congr Iff.rfl ?_ rfl) rfl
  dsimp only
  rw [apply_ite (Kcp.shift offset tsProbe)]
  by_cases slow : kcp.cwnd < kcp.ssthresh
  · have slower : (kcp.shift offset tsProbe).cwnd < (kcp.shift offset tsProbe).ssthresh := slow
    simp only [if_pos slow, if_pos slower]
    rfl
  · have faster : ¬(kcp.shift offset tsProbe).cwnd < (kcp.shift offset tsProbe).ssthresh := slow
    simp only [if_neg slow, if_neg faster]
    rfl

/-- The loop of `ikcp_input` on a packet that starts with a header and its data. -/
theorem inputLoop_header (turns : Nat) {header : Header} {data : Bytes} (rest : Bytes)
    (complete : data.length = header.len.toNat)
    (known : Kcp.knownCmd header.cmd.toUInt32 = true) :
    Kcp.inputLoop (turns + 1) kcp (encodeHeader header ++ (data ++ rest)) =
      Kcp.inputLoop turns (kcp.inputSegment header data) rest := by
  have length := encodeHeader_length header
  have enough : ¬(encodeHeader header ++ (data ++ rest)).length < 24 := by
    rw [List.length_append, length]
    omega
  have whole : ¬(data ++ rest).length < header.len.toNat := by
    rw [List.length_append]
    omega
  rw [Kcp.inputLoop, if_neg enough]
  dsimp only
  rw [decodeHeader_encodeHeader, List.drop_left' length, if_neg whole, known, Bool.not_true,
    if_neg Bool.false_ne_true, List.take_left' complete, List.drop_left' complete]

/-- The loop of `ikcp_input`. -/
theorem inputLoop_shift (turns : Nat) (data : Bytes) :
    Kcp.inputLoop turns (kcp.shift offset tsProbe) (shiftAcksLoop offset turns data) =
      ((Kcp.inputLoop turns kcp data).1.shift offset tsProbe, (Kcp.inputLoop turns kcp data).2) := by
  induction turns generalizing kcp data with
  | zero => rfl
  | succ turns inductionHypothesis =>
      rw [shiftAcksLoop]
      by_cases short : data.length < 24
      · simp only [Kcp.inputLoop, short, if_true]
      · by_cases cut : (data.drop 24).length < (decodeHeader data).len.toNat
        · simp only [Kcp.inputLoop, short, cut, if_true, if_false]
        · cases known : Kcp.knownCmd (decodeHeader data).cmd.toUInt32 with
          | false => simp only [Kcp.inputLoop, short, cut, known, Bool.not_false, if_true, if_false]
          | true =>
              have enough : (decodeHeader data).len.toNat ≤ (data.drop 24).length := Nat.not_lt.mp cut
              rw [if_neg short]
              dsimp only
              rw [if_neg cut, known, Bool.not_true, if_neg Bool.false_ne_true]
              have complete : ((data.drop 24).take (decodeHeader data).len.toNat).length =
                  ((decodeHeader data).shiftAck offset).len.toNat := List.length_take_of_le enough
              rw [inputLoop_header _ _ _ complete known, inputSegment_shift, inductionHypothesis]
              simp only [Kcp.inputLoop, short, cut, known, Bool.not_true, Bool.false_eq_true, if_false]

theorem shiftAcksLoop_length (turns : Nat) (data : Bytes) :
    (shiftAcksLoop offset turns data).length = data.length := by
  induction turns generalizing data with
  | zero => rfl
  | succ turns inductionHypothesis =>
      rw [shiftAcksLoop]
      split
      · rfl
      · next enough =>
          dsimp only
          split
          · rfl
          · split
            · rfl
            · simp only [List.length_append, encodeHeader_length, inductionHypothesis,
                List.length_take, List.length_drop]
              omega

theorem input_shift (data : Bytes) :
    (kcp.shift offset tsProbe).input (shiftAcks offset data) =
      ((kcp.input data).1.shift offset tsProbe, (kcp.input data).2) := by
  have length : (shiftAcks offset data).length = data.length := shiftAcksLoop_length offset _ _
  have una : (kcp.shift offset tsProbe).sndUna = kcp.sndUna := rfl
  unfold Kcp.input
  rw [length, una]
  split
  · rfl
  · rw [shiftAcks, inputLoop_shift]
    rcases Kcp.inputLoop data.length kcp data with ⟨parsed, code⟩
    by_cases zero : code = 0
    · subst zero
      exact congrArg (·, 0) (growWindow_shift offset tsProbe parsed kcp.sndUna)
    · simp only
      split <;> split <;> simp_all

theorem mergeFragments_shift (queue : List Seg) :
    Kcp.mergeFragments queue (kcp.shift offset tsProbe) =
      ((Kcp.mergeFragments queue kcp).1, (Kcp.mergeFragments queue kcp).2.shift offset tsProbe) := by
  induction queue generalizing kcp with
  | nil => rfl
  | cons seg rest inductionHypothesis =>
      have taken : { kcp.shift offset tsProbe with
            rcvQueue := rest, nrcvQue := (kcp.shift offset tsProbe).nrcvQue - 1 } =
          ({ kcp with rcvQueue := rest, nrcvQue := kcp.nrcvQue - 1 }).shift offset tsProbe := rfl
      rw [Kcp.mergeFragments, Kcp.mergeFragments, taken, inductionHypothesis]
      split <;> rfl

theorem recv_shift :
    (kcp.shift offset tsProbe).recv =
      (kcp.recv.1, kcp.recv.2.1, kcp.recv.2.2.shift offset tsProbe) := by
  have queue : (kcp.shift offset tsProbe).rcvQueue = kcp.rcvQueue := rfl
  have size : (kcp.shift offset tsProbe).peeksize = kcp.peeksize := rfl
  unfold Kcp.recv
  rw [queue, size]
  split
  · rfl
  · split
    · rfl
    · simp only [mergeFragments_shift]
      generalize Kcp.mergeFragments kcp.rcvQueue kcp = merged
      have moved : Kcp.moveAvailable (merged.2.shift offset tsProbe).rcvBuf
          (merged.2.shift offset tsProbe) =
            (Kcp.moveAvailable merged.2.rcvBuf merged.2).shift offset tsProbe :=
        moveAvailable_shift offset tsProbe _ _
      rw [moved]
      generalize Kcp.moveAvailable merged.2.rcvBuf merged.2 = settled
      rw [apply_ite (Kcp.shift offset tsProbe)]
      rfl

end Receiving

/-! ## What receiving leaves alone -/

/-- Whether the clock has been read, and the state of the probes. -/
def Kcp.timers (kcp : Kcp) : UInt32 × UInt32 × UInt32 := (kcp.updated, kcp.probeWait, kcp.tsProbe)

section Timers

variable (kcp : Kcp)

theorem shrinkBuf_timers : kcp.shrinkBuf.timers = kcp.timers := by
  unfold Kcp.shrinkBuf
  split <;> rfl

theorem parseAck_timers (sn : UInt32) : (kcp.parseAck sn).timers = kcp.timers := by
  unfold Kcp.parseAck
  split <;> rfl

theorem updateAck_timers (rtt : Int32) : (kcp.updateAck rtt).timers = kcp.timers := by
  unfold Kcp.updateAck
  split <;> rfl

theorem moveAvailable_timers (buffer : List Seg) :
    (Kcp.moveAvailable buffer kcp).timers = kcp.timers := by
  induction buffer generalizing kcp with
  | nil => rfl
  | cons seg rest inductionHypothesis =>
      rw [Kcp.moveAvailable]
      split
      · exact inductionHypothesis _
      · rfl

theorem parseData_timers (newseg : Seg) : (kcp.parseData newseg).timers = kcp.timers := by
  unfold Kcp.parseData
  split
  · rfl
  · dsimp only
    rw [moveAvailable_timers]
    split <;> rfl

theorem respond_timers (header : Header) (data : Bytes) :
    (kcp.respond header data).timers = kcp.timers := by
  unfold Kcp.respond
  dsimp only
  split
  · rw [shrinkBuf_timers, parseAck_timers]
    split
    · exact updateAck_timers kcp _
    · rfl
  · split
    · split
      · split
        · exact parseData_timers _ _
        · rfl
      · rfl
    · split <;> rfl

theorem inputSegment_timers (header : Header) (data : Bytes) :
    (kcp.inputSegment header data).timers = kcp.timers := by
  rw [inputSegment_eq, respond_timers, Kcp.heed, shrinkBuf_timers]
  rfl

theorem inputLoop_timers (turns : Nat) (data : Bytes) :
    (Kcp.inputLoop turns kcp data).1.timers = kcp.timers := by
  induction turns generalizing kcp data with
  | zero => rfl
  | succ turns inductionHypothesis =>
      rw [Kcp.inputLoop]
      split
      · rfl
      · dsimp only
        split
        · rfl
        · split
          · rfl
          · rw [inductionHypothesis, inputSegment_timers]

theorem growWindow_timers (una : UInt32) : (kcp.growWindow una).timers = kcp.timers := by
  simp only [Kcp.growWindow]
  split_ifs <;> rfl

theorem input_timers (data : Bytes) : (kcp.input data).1.timers = kcp.timers := by
  have loop := inputLoop_timers kcp data.length data
  unfold Kcp.input
  split
  · rfl
  · split
    · next parsed whole =>
        rw [whole] at loop
        exact (growWindow_timers parsed _).trans loop
    · exact loop

theorem mergeFragments_timers (queue : List Seg) :
    (Kcp.mergeFragments queue kcp).2.timers = kcp.timers := by
  induction queue generalizing kcp with
  | nil => rfl
  | cons seg rest inductionHypothesis =>
      rw [Kcp.mergeFragments]
      dsimp only
      split
      · rfl
      · exact inductionHypothesis _

theorem recv_timers : kcp.recv.2.2.timers = kcp.timers := by
  unfold Kcp.recv
  split
  · rfl
  · split
    · rfl
    · dsimp only
      have moved := (moveAvailable_timers (Kcp.mergeFragments kcp.rcvQueue kcp).2
        (Kcp.mergeFragments kcp.rcvQueue kcp).2.rcvBuf).trans (mergeFragments_timers kcp _)
      split <;> exact moved

end Timers

end CrossOver.Engine.Ikcp
