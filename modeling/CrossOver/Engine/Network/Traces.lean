import CrossOver.Engine.Network.EventLoop

/-!
# Reading with a record

`HandleReadComplete`, `OnRead` and its loop with a record of what they ask of
`recv` and what they hand to `ikcp_input`.  Each is the function itself as soon
as the record is dropped.
-/

namespace CrossOver.Engine.Network

open CrossOver.Lib

inductive RecvAnswer where
  | bytes (count : Nat)
  | again
  | error
  deriving DecidableEq, Repr

/-- How the loop of `HandleReadComplete` ends. -/
inductive ReadEnd where
  /-- the exit at `space == 0` -/
  | full
  | failed
  | peerClosed
  /-- the code behind the loop is reached -/
  | left
  deriving DecidableEq, Repr

/-- One `OnRead`. -/
structure Look where
  /-- what `recv` was offered, and what it put into the buffer -/
  data : Bytes
  received : Bytes
  before : Mgr
  after : Mgr
  /-- what was handed to `ikcp_input` -/
  frames : List Bytes

structure ReadTrace where
  /-- for each `recv`, the size that was asked for and the answer -/
  recvs : List (Nat × RecvAnswer)
  looks : List Look
  ending : ReadEnd

namespace Socket

def onFrameTrace (s : SockRef) (packetLen cursor len : Nat) : M (List Bytes) := do
  let sock ← deref s
  onFrame s packetLen cursor len
  match sock.socketType with
  | .tcp => pure []
  | .udp =>
      pure (if sock.isUdpConnected then
        [(sock.readBuffer.buffer.drop (cursor + 4)).take len] else [])

def onReadLoopTrace (s : SockRef) (packetLen : Nat) : Nat → Nat → M (List Bytes × Nat)
  | 0, _ => throw .diverges
  | turns + 1, cursor => do
      let bodyStart ← addUInt32 s cursor 4
      if packetLen > bodyStart then
        let sock ← deref s
        let len := leValue ((sock.readBuffer.buffer.drop cursor).take 4)
        if 0 < len ∧ len ≤ (sock.recvBufferSize + 2 ^ 32 - 4) % 2 ^ 32 then
          let bodyEnd ← addUInt32 s bodyStart len
          if packetLen ≥ bodyEnd then
            let first ← onFrameTrace s packetLen cursor len
            let rest ← onReadLoopTrace s packetLen turns bodyEnd
            pure (first ++ rest.1, rest.2)
          else
            pure ([], cursor)
        else
          record (.packetError s)
          Network.disconnect sock.connIdx
          pure ([], cursor)
      else
        pure ([], cursor)

def onReadTrace (s : SockRef) : M (List Bytes) := do
  let sock ← deref s
  let packetLen := sock.readBuffer.getSize
  if sock.isParsePackage then
    let ended ← onReadLoopTrace s packetLen (cursorCount + 1) 0
    if ended.2 ≠ 0 then
      updateSocket s fun sock => { sock with readBuffer := sock.readBuffer.remove ended.2 }
    pure ended.1
  else
    onData s (sock.readBuffer.buffer.take packetLen)
    updateSocket s fun sock => { sock with readBuffer := sock.readBuffer.remove packetLen }
    pure []

def feedTrace (s : SockRef) (data : Bytes) : M (List Bytes) := do
  updateSocket s fun sock =>
    { sock with
      readBuffer := (sock.readBuffer.storeAtBuffer data).incrementWritten data.length }
  onReadTrace s

end Socket

/-- An `int` passed as a `size_t`. -/
def sizeOf (space : Int) : Nat := (space % 2 ^ 64).toNat

def readTrace (s : SockRef) : List RecvResult → M ReadTrace
  | [] => do
      let sock ← deref s
      let space := intOf sock.readBuffer.getSpace
      if space = 0 then
        pure ⟨[], [], .full⟩
      else
        pure ⟨[(sizeOf space, .again)], [], .left⟩
  | result :: rest => do
      let sock ← deref s
      let space := intOf sock.readBuffer.getSpace
      if space = 0 then
        pure ⟨[], [], .full⟩
      else
        match result with
        | .again => pure ⟨[(sizeOf space, .again)], [], .left⟩
        | .error => pure ⟨[(sizeOf space, .error)], [], .failed⟩
        | .bytes data =>
            let received := data.take (transferLimit space)
            let call := (sizeOf space, RecvAnswer.bytes received.length)
            if received = [] then
              handlePeerClosed s
              pure ⟨[call], [], .peerClosed⟩
            else
              let before ← get
              let frames ← Socket.feedTrace s received
              let after ← get
              let look := ⟨data, received, before.mgr, after.mgr, frames⟩
              if (received.length : Int) = space then
                let trace ← readTrace s rest
                pure ⟨call :: trace.recvs, look :: trace.looks, trace.ending⟩
              else
                pure ⟨[call], [look], .left⟩

/-- It reads from a connected socket only. -/
def handleReadTrace (s : SockRef) (results : List RecvResult) : M (Option ReadTrace) := do
  let sock ← deref s
  if sock.status = .connected then
    let trace ← readTrace s results
    if trace.ending = .left then
      fillAndPush s
    pure (some trace)
  else
    pure none

section Traces

variable {s : SockRef} {First : Type}

theorem deref_apply (w : World) :
    deref s w = match w.mgr.heap s with
      | some sock => (.ok sock, w)
      | none => (.error .useAfterFree, w) := by
  have got : (get : M World) w = (.ok w, w) := rfl
  rw [deref, bind_apply, got]
  dsimp only
  cases present : w.mgr.heap s with
  | none => rfl
  | some sock => rfl

/-- Looking at a socket before using it changes nothing. -/
theorem deref_bind_deref (f : Socket → M First) :
    (deref s >>= fun _ => deref s >>= f) = deref s >>= f := by
  funext w
  rw [bind_apply, bind_apply, deref_apply]
  cases present : w.mgr.heap s with
  | none => rfl
  | some sock => simp only [bind_apply, deref_apply, present]

theorem onFrame_eq (packetLen cursor len : Nat) (rest : M First) :
    (Socket.onFrame s packetLen cursor len >>= fun _ => rest) =
      (Socket.onFrameTrace s packetLen cursor len >>= fun _ => rest) := by
  have looked : Socket.onFrame s packetLen cursor len =
      (deref s >>= fun _ => Socket.onFrame s packetLen cursor len) := by
    unfold Socket.onFrame
    rw [deref_bind_deref]
  rw [looked]
  unfold Socket.onFrameTrace
  rw [bind_assoc, bind_assoc]
  refine bind_congr fun sock => ?_
  rw [bind_assoc]
  refine bind_congr fun _ => ?_
  cases sock.socketType with
  | tcp => rfl
  | udp => rfl

theorem onReadLoop_eq (packetLen turns cursor : Nat) :
    Socket.onReadLoop s packetLen turns cursor = (do
      let ended ← Socket.onReadLoopTrace s packetLen turns cursor
      pure ended.2) := by
  induction turns generalizing cursor with
  | zero => rfl
  | succ turns inductionHypothesis =>
      unfold Socket.onReadLoop Socket.onReadLoopTrace
      rw [bind_assoc]
      refine bind_congr fun bodyStart => ?_
      by_cases more : packetLen > bodyStart
      · rw [if_pos more, if_pos more, bind_assoc]
        refine bind_congr fun sock => ?_
        dsimp only
        generalize (sock.recvBufferSize + 2 ^ 32 - 4) % 2 ^ 32 = limit
        generalize leValue ((sock.readBuffer.buffer.drop cursor).take 4) = len
        by_cases legal : 0 < len ∧ len ≤ limit
        · rw [if_pos legal, if_pos legal, bind_assoc]
          refine bind_congr fun bodyEnd => ?_
          by_cases complete : packetLen ≥ bodyEnd
          · rw [if_pos complete, if_pos complete, onFrame_eq, bind_assoc, inductionHypothesis]
            simp only [bind_assoc, pure_bind]
          · rw [if_neg complete, if_neg complete, pure_bind]
        · rw [if_neg legal, if_neg legal]
          simp only [bind_assoc, pure_bind]
      · rw [if_neg more, if_neg more, pure_bind]

theorem onRead_eq : Socket.onRead s = (do
    let _ ← Socket.onReadTrace s
    pure ()) := by
  unfold Socket.onRead Socket.onReadTrace
  generalize Socket.cursorCount + 1 = turns
  rw [bind_assoc]
  refine bind_congr fun sock => ?_
  dsimp only
  by_cases parse : sock.isParsePackage = true
  · rw [if_pos parse, if_pos parse, onReadLoop_eq, bind_assoc, bind_assoc]
    refine bind_congr fun ended => ?_
    rw [pure_bind]
    by_cases moved : ended.2 ≠ 0
    · rw [if_pos moved, if_pos moved]
      simp only [bind_assoc, pure_bind, bind_pure_unit]
    · rw [if_neg moved, if_neg moved]
      rfl
  · rw [if_neg parse, if_neg parse]
    simp only [bind_assoc, pure_bind, bind_pure_unit]

theorem feed_eq (data : Bytes) : Socket.feed s data = (do
    let _ ← Socket.feedTrace s data
    pure ()) := by
  unfold Socket.feed Socket.feedTrace
  rw [onRead_eq, bind_assoc]

theorem readLoop_eq (results : List RecvResult) :
    readLoop s results = (do
      let trace ← readTrace s results
      pure (decide (trace.ending = .left))) := by
  induction results with
  | nil =>
      unfold readLoop readTrace
      rw [bind_assoc]
      refine bind_congr fun sock => ?_
      generalize intOf sock.readBuffer.getSpace = space
      by_cases full : space = 0
      · simp [full]
      · simp [full]
  | cons result rest inductionHypothesis =>
      unfold readLoop readTrace
      rw [bind_assoc]
      refine bind_congr fun sock => ?_
      generalize intOf sock.readBuffer.getSpace = space
      by_cases full : space = 0
      · simp [full]
      · cases result with
        | again => simp [full]
        | error => simp [full]
        | bytes data =>
            simp only [full, if_false]
            generalize data.take (transferLimit space) = received
            by_cases closed : received = []
            · simp [closed]
            · by_cases whole : (received.length : Int) = space
              · simp only [closed, whole, if_true, if_false, inductionHypothesis, feed_eq,
                  bind_assoc, pure_bind]
                rfl
              · simp only [closed, whole, if_false, feed_eq, bind_assoc, pure_bind, decide_true]
                rfl

theorem handleReadComplete_eq (results : List RecvResult) :
    handleReadComplete s results = (do
      let _ ← handleReadTrace s results
      pure ()) := by
  unfold handleReadComplete handleReadTrace
  rw [bind_assoc]
  refine bind_congr fun sock => ?_
  by_cases connected : sock.status = .connected
  · simp only [connected, if_true, readLoop_eq, bind_assoc, pure_bind]
    refine bind_congr fun trace => ?_
    by_cases left : trace.ending = .left
    · simp [left]
    · simp [left]
  · simp [connected]

end Traces

end CrossOver.Engine.Network
