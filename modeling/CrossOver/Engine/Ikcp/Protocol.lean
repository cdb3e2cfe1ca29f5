import CrossOver.Lib.Bytes

/-!
# `ikcp`: the reliable transport over UDP

The control block with every operation on it, in 32-bit arithmetic.  Queues are
lists from head to tail; the length of a segment is the length of its data.
`ikcp_flush` returns the packets it passes to the output callback, and
`ikcp_recv` the chunks it passes to the input callback, both in order.  Logging
is left out.
-/

namespace CrossOver.Engine.Ikcp

open CrossOver.Lib

def rtoNdl : UInt32 := 30
def rtoMin : UInt32 := 100
def rtoDef : UInt32 := 200
def rtoMax : UInt32 := 60000
def cmdPush : UInt32 := 81
def cmdAck : UInt32 := 82
def cmdWask : UInt32 := 83
def cmdWins : UInt32 := 84
def askSend : UInt32 := 1
def askTell : UInt32 := 2
def wndSnd : UInt32 := 32
def wndRcv : UInt32 := 32
def mtuDef : UInt32 := 1400
def intervalDef : UInt32 := 100
def overhead : UInt32 := 24
def deadLink : UInt32 := 10
def threshInit : UInt32 := 2
def threshMin : UInt32 := 2
def probeInit : UInt32 := 7000
def probeLimit : UInt32 := 120000

/-- `_itimediff`: the signed distance of two wrapping counters. -/
def itimediff (later earlier : UInt32) : Int := (later - earlier).toInt32.toInt

def ibound (lower middle upper : UInt32) : UInt32 := min (max lower middle) upper

/-- `IKCPSEG` -/
structure Seg where
  conv : UInt32 := 0
  cmd : UInt32 := 0
  frg : UInt32 := 0
  wnd : UInt32 := 0
  ts : UInt32 := 0
  sn : UInt32 := 0
  una : UInt32 := 0
  resendts : UInt32 := 0
  rto : UInt32 := 0
  fastack : UInt32 := 0
  xmit : UInt32 := 0
  data : Bytes := []
  deriving DecidableEq, Repr

def Seg.len (seg : Seg) : UInt32 := UInt32.ofNat seg.data.length

/-- `IKCPCB` -/
structure Kcp where
  conv : UInt32
  mtu : UInt32
  mss : UInt32
  state : UInt32
  sndUna : UInt32
  sndNxt : UInt32
  rcvNxt : UInt32
  ssthresh : UInt32
  rxRttval : Int32
  rxSrtt : Int32
  rxRto : Int32
  rxMinrto : Int32
  sndWnd : UInt32
  rcvWnd : UInt32
  rmtWnd : UInt32
  cwnd : UInt32
  probe : UInt32
  current : UInt32
  interval : UInt32
  tsFlush : UInt32
  xmit : UInt32
  nrcvBuf : UInt32
  nsndBuf : UInt32
  nrcvQue : UInt32
  nsndQue : UInt32
  nodelay : UInt32
  updated : UInt32
  tsProbe : UInt32
  probeWait : UInt32
  deadLink : UInt32
  incr : UInt32
  sndQueue : List Seg
  rcvQueue : List Seg
  sndBuf : List Seg
  rcvBuf : List Seg
  /-- sequence number and timestamp of each segment to acknowledge -/
  acklist : List (UInt32 × UInt32)
  fastresend : Int
  nocwnd : Int
  deriving DecidableEq, Repr

def create (conv : UInt32) : Kcp where
  conv := conv
  mtu := mtuDef
  mss := mtuDef - overhead
  state := 0
  sndUna := 0
  sndNxt := 0
  rcvNxt := 0
  ssthresh := threshInit
  rxRttval := 0
  rxSrtt := 0
  rxRto := rtoDef.toInt32
  rxMinrto := rtoMin.toInt32
  sndWnd := wndSnd
  rcvWnd := wndRcv
  rmtWnd := wndRcv
  cwnd := 0
  probe := 0
  current := 0
  interval := intervalDef
  tsFlush := intervalDef
  xmit := 0
  nrcvBuf := 0
  nsndBuf := 0
  nrcvQue := 0
  nsndQue := 0
  nodelay := 0
  updated := 0
  tsProbe := 0
  probeWait := 0
  deadLink := Ikcp.deadLink
  incr := 0
  sndQueue := []
  rcvQueue := []
  sndBuf := []
  rcvBuf := []
  acklist := []
  fastresend := 0
  nocwnd := 0

namespace Kcp

def setNodelay (kcp : Kcp) (nodelay interval resend nc : Int) : Kcp :=
  let delayed :=
    if nodelay ≥ 0 then
      { kcp with
        nodelay := UInt32.ofInt nodelay
        rxMinrto := if nodelay ≠ 0 then rtoNdl.toInt32 else rtoMin.toInt32 }
    else kcp
  let timed :=
    if interval ≥ 0 then
      { delayed with
        interval := UInt32.ofInt
          (if interval > 5000 then 5000 else if interval < 2 then 2 else interval) }
    else delayed
  let fast := if resend ≥ 0 then { timed with fastresend := resend } else timed
  if nc ≥ 0 then { fast with nocwnd := nc } else fast

def peeksizeLoop : List Seg → Int
  | [] => 0
  | seg :: rest => if seg.frg = 0 then seg.data.length else seg.data.length + peeksizeLoop rest

def peeksize (kcp : Kcp) : Int :=
  match kcp.rcvQueue with
  | [] => -1
  | seg :: _ =>
      if seg.frg = 0 then seg.data.length
      else if kcp.nrcvQue < seg.frg + 1 then -1
      else peeksizeLoop kcp.rcvQueue

/-- The merge loop of `ikcp_recv`: the chunks passed to the input callback. -/
def mergeFragments : List Seg → Kcp → List Bytes × Kcp
  | [], kcp => ([], kcp)
  | seg :: rest, kcp =>
      let taken := { kcp with rcvQueue := rest, nrcvQue := kcp.nrcvQue - 1 }
      if seg.frg = 0 then ([seg.data], taken)
      else
        let (chunks, merged) := mergeFragments rest taken
        (seg.data :: chunks, merged)

/-- Move available segments from `rcv_buf` to `rcv_queue`. -/
def moveAvailable : List Seg → Kcp → Kcp
  | [], kcp => kcp
  | seg :: rest, kcp =>
      if seg.sn = kcp.rcvNxt ∧ kcp.nrcvQue < kcp.rcvWnd then
        moveAvailable rest
          { kcp with
            rcvBuf := rest
            nrcvBuf := kcp.nrcvBuf - 1
            rcvQueue := kcp.rcvQueue ++ [seg]
            nrcvQue := kcp.nrcvQue + 1
            rcvNxt := kcp.rcvNxt + 1 }
      else kcp

/-- The chunks, the returned size and the control block after `ikcp_recv`. -/
def recv (kcp : Kcp) : List Bytes × Int × Kcp :=
  if kcp.rcvQueue = [] then ([], -1, kcp)
  else if kcp.peeksize < 0 then ([], -2, kcp)
  else
    let recover := kcp.nrcvQue ≥ kcp.rcvWnd
    let (chunks, merged) := mergeFragments kcp.rcvQueue kcp
    let moved := moveAvailable merged.rcvBuf merged
    let told :=
      if moved.nrcvQue < moved.rcvWnd ∧ recover then { moved with probe := moved.probe ||| askTell }
      else moved
    (chunks, chunks.flatten.length, told)

def updateAck (kcp : Kcp) (rtt : Int32) : Kcp :=
  let sampled :=
    if kcp.rxSrtt = 0 then { kcp with rxSrtt := rtt, rxRttval := rtt / 2 }
    else
      let delta : Int := |(rtt - kcp.rxSrtt).toInt|
      let srtt := (7 * kcp.rxSrtt + rtt) / 8
      { kcp with
        rxRttval := Int32.ofInt ((3 * kcp.rxRttval.toInt + delta).tdiv 4)
        rxSrtt := if srtt < 1 then 1 else srtt }
  let rto := sampled.rxSrtt.toUInt32 + max 1 (4 * sampled.rxRttval).toUInt32
  { sampled with rxRto := (ibound sampled.rxMinrto.toUInt32 rto rtoMax).toInt32 }

def shrinkBuf (kcp : Kcp) : Kcp :=
  match kcp.sndBuf with
  | seg :: _ => { kcp with sndUna := seg.sn }
  | [] => { kcp with sndUna := kcp.sndNxt }

/-- Segments passed over by an acknowledgement, and whether it hit one. -/
def ackLoop (sn : UInt32) : List Seg → List Seg × Bool
  | [] => ([], false)
  | seg :: rest =>
      if sn = seg.sn then (rest, true)
      else
        let (kept, hit) := ackLoop sn rest
        ({ seg with fastack := seg.fastack + 1 } :: kept, hit)

def parseAck (kcp : Kcp) (sn : UInt32) : Kcp :=
  if itimediff sn kcp.sndUna < 0 ∨ itimediff sn kcp.sndNxt ≥ 0 then kcp
  else
    let (kept, hit) := ackLoop sn kcp.sndBuf
    { kcp with sndBuf := kept, nsndBuf := if hit then kcp.nsndBuf - 1 else kcp.nsndBuf }

def unaLoop (una : UInt32) : List Seg → List Seg
  | [] => []
  | seg :: rest => if itimediff una seg.sn > 0 then unaLoop una rest else seg :: rest

def parseUna (kcp : Kcp) (una : UInt32) : Kcp :=
  let kept := unaLoop una kcp.sndBuf
  { kcp with
    sndBuf := kept
    nsndBuf := kcp.nsndBuf - UInt32.ofNat (kcp.sndBuf.length - kept.length) }

def ackPush (kcp : Kcp) (sn ts : UInt32) : Kcp :=
  { kcp with acklist := kcp.acklist ++ [(sn, ts)] }

/-- Insert behind the last segment with a smaller number, searching from the
tail; `none` when the number is already there.  The list is reversed. -/
def insertLoop (newseg : Seg) : List Seg → Option (List Seg)
  | [] => some [newseg]
  | seg :: before =>
      if seg.sn = newseg.sn then none
      else if itimediff newseg.sn seg.sn > 0 then some (newseg :: seg :: before)
      else (insertLoop newseg before).map fun inserted => seg :: inserted

def parseData (kcp : Kcp) (newseg : Seg) : Kcp :=
  if itimediff newseg.sn (kcp.rcvNxt + kcp.rcvWnd) ≥ 0 ∨ itimediff newseg.sn kcp.rcvNxt < 0 then kcp
  else
    let inserted :=
      match insertLoop newseg kcp.rcvBuf.reverse with
      | some reversed => { kcp with rcvBuf := reversed.reverse, nrcvBuf := kcp.nrcvBuf + 1 }
      | none => kcp
    moveAvailable inserted.rcvBuf inserted

end Kcp

/-- The fields in front of the data of a segment on the wire. -/
structure Header where
  conv : UInt32
  cmd : UInt8
  frg : UInt8
  wnd : UInt16
  ts : UInt32
  sn : UInt32
  una : UInt32
  len : UInt32
  deriving DecidableEq, Repr

def encodeHeader (header : Header) : Bytes :=
  leBytes 4 header.conv.toNat ++ [header.cmd] ++ [header.frg] ++ leBytes 2 header.wnd.toNat ++
    leBytes 4 header.ts.toNat ++ leBytes 4 header.sn.toNat ++ leBytes 4 header.una.toNat ++
    leBytes 4 header.len.toNat

def encodeSeg (seg : Seg) : Bytes :=
  encodeHeader
    { conv := seg.conv, cmd := seg.cmd.toUInt8, frg := seg.frg.toUInt8, wnd := seg.wnd.toUInt16,
      ts := seg.ts, sn := seg.sn, una := seg.una, len := seg.len }

/-- The little-endian word of `width` bytes at an offset. -/
def wordAt (data : Bytes) (offset width : Nat) : Nat := leValue ((data.drop offset).take width)

/-- The header at the front of at least `IKCP_OVERHEAD` bytes. -/
def decodeHeader (data : Bytes) : Header where
  conv := UInt32.ofNat (wordAt data 0 4)
  cmd := UInt8.ofNat (wordAt data 4 1)
  frg := UInt8.ofNat (wordAt data 5 1)
  wnd := UInt16.ofNat (wordAt data 6 2)
  ts := UInt32.ofNat (wordAt data 8 4)
  sn := UInt32.ofNat (wordAt data 12 4)
  una := UInt32.ofNat (wordAt data 16 4)
  len := UInt32.ofNat (wordAt data 20 4)

namespace Kcp

/-- The commands `ikcp_input` knows. -/
def knownCmd (cmd : UInt32) : Bool :=
  cmd == cmdPush || cmd == cmdAck || cmd == cmdWask || cmd == cmdWins

/-- What `ikcp_input` does with one segment. -/
def inputSegment (kcp : Kcp) (header : Header) (data : Bytes) : Kcp :=
  let shrunk := (({ kcp with rmtWnd := header.wnd.toUInt32 }).parseUna header.una).shrinkBuf
  let cmd := header.cmd.toUInt32
  if cmd = cmdAck then
    let sampled :=
      if itimediff shrunk.current header.ts ≥ 0 then
        shrunk.updateAck (shrunk.current - header.ts).toInt32
      else shrunk
    (sampled.parseAck header.sn).shrinkBuf
  else if cmd = cmdPush then
    if itimediff header.sn (shrunk.rcvNxt + shrunk.rcvWnd) < 0 then
      let acked := shrunk.ackPush header.sn header.ts
      if itimediff header.sn acked.rcvNxt ≥ 0 then
        acked.parseData
          { conv := header.conv, cmd := cmd, frg := header.frg.toUInt32,
            wnd := header.wnd.toUInt32, ts := header.ts, sn := header.sn, una := header.una,
            data := data }
      else acked
    else shrunk
  else if cmd = cmdWask then { shrunk with probe := shrunk.probe ||| askTell }
  else shrunk

/-- The loop of `ikcp_input`; every turn takes a header off the data, so their
number is bounded by the length of the data. -/
def inputLoop : Nat → Kcp → Bytes → Kcp × Int
  | 0, kcp, _ => (kcp, 0)
  | turns + 1, kcp, data =>
      if data.length < 24 then (kcp, 0)
      else
        let header := decodeHeader data
        let rest := data.drop 24
        if rest.length < header.len.toNat then (kcp, -2)
        else if !knownCmd header.cmd.toUInt32 then (kcp, -3)
        else
          inputLoop turns (kcp.inputSegment header (rest.take header.len.toNat))
            (rest.drop header.len.toNat)

/-- The growth of the congestion window at the end of `ikcp_input`. -/
def growWindow (kcp : Kcp) (una : UInt32) : Kcp :=
  if itimediff kcp.sndUna una > 0 then
    if kcp.cwnd < kcp.rmtWnd then
      let grown :=
        if kcp.cwnd < kcp.ssthresh then { kcp with cwnd := kcp.cwnd + 1, incr := kcp.incr + kcp.mss }
        else
          let start := if kcp.incr < kcp.mss then kcp.mss else kcp.incr
          let incr := start + ((kcp.mss * kcp.mss) / start + kcp.mss / 16)
          { kcp with
            incr := incr
            cwnd := if (kcp.cwnd + 1) * kcp.mss ≥ incr then kcp.cwnd + 1 else kcp.cwnd }
      if grown.cwnd > grown.rmtWnd then
        { grown with cwnd := grown.rmtWnd, incr := grown.rmtWnd * kcp.mss }
      else grown
    else kcp
  else kcp

def input (kcp : Kcp) (data : Bytes) : Kcp × Int :=
  if data.length < 24 then (kcp, 0)
  else
    match inputLoop data.length kcp data with
    | (parsed, 0) => (parsed.growWindow kcp.sndUna, 0)
    | failed => failed

def wndUnused (kcp : Kcp) : UInt32 :=
  if kcp.nrcvQue < kcp.rcvWnd then kcp.rcvWnd - kcp.nrcvQue else 0

end Kcp

/-- The buffer `ikcp_flush` fills and the packets it has put out. -/
structure Outgoing where
  buffer : Bytes
  packets : List Bytes
  deriving DecidableEq, Repr

namespace Outgoing

/-- `ikcp_output`; nothing is put out for an empty buffer. -/
def output (out : Outgoing) : Outgoing :=
  { buffer := [], packets := if out.buffer = [] then out.packets else out.packets ++ [out.buffer] }

/-- Put the buffer out if `need` more bytes would exceed the mtu, then append. -/
def append (out : Outgoing) (mtu : UInt32) (need : Nat) (bytes : Bytes) : Outgoing :=
  let room := if out.buffer.length + need > mtu.toNat then out.output else out
  { room with buffer := room.buffer ++ bytes }

end Outgoing

namespace Kcp

/-- The segment the acknowledgements and probes of a flush are built from. -/
def ackSeg (kcp : Kcp) : Seg :=
  { conv := kcp.conv, cmd := cmdAck, wnd := kcp.wndUnused, una := kcp.rcvNxt }

/-- Flush acknowledges; the segment keeps the numbers of the last one. -/
def flushAcks (mtu : UInt32) : List (UInt32 × UInt32) → Seg → Outgoing → Seg × Outgoing
  | [], seg, out => (seg, out)
  | (sn, ts) :: rest, seg, out =>
      let acking := { seg with sn := sn, ts := ts }
      flushAcks mtu rest acking (out.append mtu 24 (encodeSeg acking))

def probeWindow (kcp : Kcp) : Kcp :=
  if kcp.rmtWnd = 0 then
    if kcp.probeWait = 0 then
      { kcp with probeWait := probeInit, tsProbe := kcp.current + probeInit }
    else if itimediff kcp.current kcp.tsProbe ≥ 0 then
      let start := if kcp.probeWait < probeInit then probeInit else kcp.probeWait
      let wait := start + start / 2
      let limited := if wait > probeLimit then probeLimit else wait
      { kcp with
        probeWait := limited, tsProbe := kcp.current + limited, probe := kcp.probe ||| askSend }
    else kcp
  else { kcp with tsProbe := 0, probeWait := 0 }

def flushProbe (kcp : Kcp) (ask cmd : UInt32) (seg : Seg) (out : Outgoing) : Seg × Outgoing :=
  if kcp.probe &&& ask ≠ 0 then
    let probing := { seg with cmd := cmd }
    (probing, out.append kcp.mtu 24 (encodeSeg probing))
  else (seg, out)

/-- Move data from `snd_queue` to `snd_buf`. -/
def moveToSndBuf (cwnd wnd : UInt32) : List Seg → Kcp → Kcp
  | [], kcp => kcp
  | newseg :: rest, kcp =>
      if itimediff kcp.sndNxt (kcp.sndUna + cwnd) < 0 then
        moveToSndBuf cwnd wnd rest
          { kcp with
            sndQueue := rest
            nsndQue := kcp.nsndQue - 1
            nsndBuf := kcp.nsndBuf + 1
            sndNxt := kcp.sndNxt + 1
            sndBuf := kcp.sndBuf ++
              [{ newseg with
                conv := kcp.conv, cmd := cmdPush, wnd := wnd, ts := kcp.current, sn := kcp.sndNxt,
                una := kcp.rcvNxt, resendts := kcp.current, rto := kcp.rxRto.toUInt32,
                fastack := 0, xmit := 0 }] }
      else kcp

/-- What the loop over `snd_buf` accumulates. -/
structure Resending where
  out : Outgoing
  xmit : UInt32
  state : UInt32
  lost : Bool
  change : Bool
  deriving DecidableEq, Repr

def dueSegment (kcp : Kcp) (resent rtomin : UInt32) (segment : Seg) (now : Resending) :
    Option (Seg × Resending) :=
  if segment.xmit = 0 then
    some ({ segment with
        xmit := segment.xmit + 1, rto := kcp.rxRto.toUInt32,
        resendts := kcp.current + kcp.rxRto.toUInt32 + rtomin }, now)
  else if itimediff kcp.current segment.resendts ≥ 0 then
    let rto := segment.rto +
      (if kcp.nodelay = 0 then kcp.rxRto.toUInt32 else (kcp.rxRto / 2).toUInt32)
    some ({ segment with xmit := segment.xmit + 1, rto := rto, resendts := kcp.current + rto },
      { now with xmit := now.xmit + 1, lost := true })
  else if segment.fastack ≥ resent then
    some ({ segment with
        xmit := segment.xmit + 1, fastack := 0, resendts := kcp.current + segment.rto },
      { now with change := true })
  else none

def flushSegments (kcp : Kcp) (resent rtomin wnd : UInt32) :
    List Seg → Resending → List Seg × Resending
  | [], now => ([], now)
  | segment :: rest, now =>
      match kcp.dueSegment resent rtomin segment now with
      | none =>
          let (kept, final) := flushSegments kcp resent rtomin wnd rest now
          (segment :: kept, final)
      | some (due, counted) =>
          let sent := { due with ts := kcp.current, wnd := wnd, una := kcp.rcvNxt }
          let out := counted.out.append kcp.mtu (24 + sent.data.length) (encodeSeg sent ++ sent.data)
          let state := if sent.xmit ≥ kcp.deadLink then 0xffffffff else counted.state
          let (kept, final) :=
            flushSegments kcp resent rtomin wnd rest { counted with out := out, state := state }
          (sent :: kept, final)

def adjustWindow (kcp : Kcp) (cwnd resent : UInt32) (change lost : Bool) : Kcp :=
  let changed :=
    if change then
      let half := (kcp.sndNxt - kcp.sndUna) / 2
      let thresh := if half < threshMin then threshMin else half
      { kcp with
        ssthresh := thresh, cwnd := thresh + resent, incr := (thresh + resent) * kcp.mss }
    else kcp
  let slowed :=
    if lost then
      let half := cwnd / 2
      { changed with
        ssthresh := if half < threshMin then threshMin else half, cwnd := 1, incr := kcp.mss }
    else changed
  if slowed.cwnd < 1 then { slowed with cwnd := 1, incr := kcp.mss } else slowed

/-- The control block once the acknowledgements are on their way. -/
def probed (kcp : Kcp) : Kcp := ({ kcp with acklist := [] }).probeWindow

def flushControl (kcp : Kcp) : Outgoing :=
  let acks := flushAcks kcp.mtu kcp.acklist kcp.ackSeg { buffer := [], packets := [] }
  let asks := kcp.probed.flushProbe askSend cmdWask acks.1 acks.2
  (kcp.probed.flushProbe askTell cmdWins asks.1 asks.2).2

def flushWindow (kcp : Kcp) : UInt32 :=
  let window := min kcp.sndWnd kcp.rmtWnd
  if kcp.nocwnd = 0 then min kcp.cwnd window else window

def resent (kcp : Kcp) : UInt32 :=
  if kcp.fastresend > 0 then UInt32.ofInt kcp.fastresend else 0xffffffff

def rtomin (kcp : Kcp) : UInt32 := if kcp.nodelay = 0 then (kcp.rxRto >>> 3).toUInt32 else 0

def flush (kcp : Kcp) : Kcp × List Bytes :=
  let probed := kcp.probed
  let cwnd := probed.flushWindow
  let moved := moveToSndBuf cwnd kcp.wndUnused probed.sndQueue { probed with probe := 0 }
  let sent := flushSegments moved moved.resent moved.rtomin kcp.wndUnused moved.sndBuf
    { out := kcp.flushControl, xmit := moved.xmit, state := moved.state, lost := false,
      change := false }
  (({ moved with sndBuf := sent.1, xmit := sent.2.xmit, state := sent.2.state }).adjustWindow cwnd
    moved.resent sent.2.change sent.2.lost, sent.2.out.output.packets)

/-- The segments a message is cut into. -/
def fragments (mss : Nat) : Nat → Bytes → List Seg
  | 0, _ => []
  | count + 1, buffer =>
      let size := min buffer.length mss
      { frg := UInt32.ofNat count, data := buffer.take size } ::
        fragments mss count (buffer.drop size)

def fragmentCount (mss len : Nat) : Nat :=
  if len ≤ mss then 1 else (len + mss - 1) / mss

/-- `ikcp_send` of a buffer whose length is an `int`. -/
def send (kcp : Kcp) (buffer : Bytes) : Kcp × Int × List Bytes :=
  let count := fragmentCount kcp.mss.toNat buffer.length
  if count > 255 then (kcp, -2, [])
  else
    let queued :=
      { kcp with
        sndQueue := kcp.sndQueue ++ fragments kcp.mss.toNat count buffer
        nsndQue := kcp.nsndQue + UInt32.ofNat count }
    let (flushed, packets) := queued.flush
    (flushed, 0, packets)

/-- The clock part of `ikcp_update`: the next time to flush, and whether a flush
is due now. -/
def schedule (kcp : Kcp) (current : UInt32) : Kcp × Bool :=
  let started := if kcp.updated = 0 then current else kcp.tsFlush
  let slap := itimediff current started
  let jumped := slap ≥ 10000 ∨ slap < -10000
  let aligned := if jumped then current else started
  let due := jumped ∨ slap ≥ 0
  let next := aligned + kcp.interval
  let ahead := if itimediff current next ≥ 0 then current + kcp.interval else next
  ({ kcp with
    current := current
    updated := if kcp.updated = 0 then 1 else kcp.updated
    tsFlush := if due then ahead else aligned }, due)

def update (kcp : Kcp) (current : UInt32) : Kcp × List Bytes :=
  if (kcp.schedule current).2 then (kcp.schedule current).1.flush
  else ((kcp.schedule current).1, [])

end Kcp

end CrossOver.Engine.Ikcp
