import CrossOver.Engine.Network.State

/-!
# `Socket` and `SocketMgr` on epoll

The functions of `socket.cpp`, `socket_linux.cpp` and `socket_mgr_linux.cpp`
that run after a socket has been configured.  A Lua callback is a list of calls
back into the manager, so the functions a script may call come first; of these
only a failing UDP connect runs a callback of its own.
-/

namespace CrossOver.Engine.Network

open CrossOver.Lib

def intOf (value : Nat) : Int := (value : Int).bmod (2 ^ 32)

/-- The most bytes one `recv` or `send` moves when asked for `size`: an `int`
becomes a `size_t`, and the kernel caps it. -/
def transferLimit (size : Int) : Nat := min (size % 2 ^ 64).toNat 0x7ffff000

/-! ## What a script may call -/

def postEvent (s : SockRef) (events : Interest) : M Bool := do
  let _ ← deref s
  if ← epollCtlMod s events then
    pure true
  else
    record (.epollError s)
    pure false

def burstPush (s : SockRef) : M Bool := do
  let sock ← deref s
  if sock.writeLock = 0 then
    updateSocket s fun sock => { sock with writeLock := sock.writeLock + 1 }
    postEvent s { epollIn := false, epollOut := true }
  else
    pure false

namespace Socket

def disconnect (s : SockRef) : M Unit :=
  modifyMgr fun m => m.push { customizedEvents := .close, s := s }

/-- `Socket::Send` and `Socket::SendMsg` differ in what they write. -/
def queueFrame (s : SockRef) (frame : Bytes) (write : SequenceBuffer → Bool × SequenceBuffer) :
    M Bool := do
  let sock ← deref s
  let ret := (write sock.writeBuffer).1
  updateSocket s fun sock => { sock with writeBuffer := (write sock.writeBuffer).2 }
  record (.queued s sock.status frame)
  if ret then
    modifyMgr fun m => m.push { customizedEvents := .delaySend, s := s }
  pure ret

def send (s : SockRef) (buff : Bytes) : M Bool :=
  queueFrame s buff fun writeBuffer => writeBuffer.write buff

def sendMsg (s : SockRef) (buff : Bytes) : M Bool :=
  queueFrame s (leBytes 4 buff.length ++ buff) fun writeBuffer =>
    writeBuffer.writeMsg (leBytes 4 buff.length) buff

/-- `udp_output` through `send_udp_package` for each packet. -/
def sendUdpPackages (s : SockRef) : List Bytes → M Unit
  | [] => pure ()
  | packet :: rest => do
      refAdd s
      let _ ← sendMsg s packet
      sendUdpPackages s rest

def sendUDP (s : SockRef) (buff : Bytes) : M Bool := do
  let sock ← deref s
  match sock.kcp with
  | none => throw .useAfterFree
  | some kcp =>
      if 2 ^ 31 ≤ buff.length then
        pure false
      else
        let (sent, ret, packets) := kcp.send buff
        updateSocket s fun sock => { sock with kcp := some sent }
        recordIf (ret ≥ 0) (.taken s)
        sendUdpPackages s packets
        pure (ret ≥ 0)

end Socket

/-- The search of `MakeGeneralConnID`.  It only sees the keys of the map, so one
turn more than there are keys decides whether it ends. -/
def makeGeneralConnIDLoop (m : Mgr) : Nat → Nat → Option Nat
  | 0, _ => none
  | turns + 1, autoConnIdx =>
      if (m.find autoConnIdx).isSome then
        let next := (autoConnIdx + 1) % 2 ^ 32
        makeGeneralConnIDLoop m turns (if next = 2 ^ 32 - 1 then 1 else next)
      else some autoConnIdx

def makeGeneralConnID : M Nat := do
  let m := (← get).mgr
  match makeGeneralConnIDLoop m (m.socketMap.length + 1) m.autoConnIdx with
  | none => throw .idsExhausted
  | some connIdx =>
      let next := (connIdx + 1) % 2 ^ 32
      modifyMgr fun m => { m with autoConnIdx := if next = 2 ^ 32 - 1 then 1 else next }
      pure connIdx

def addSocket (s : SockRef) : M Unit := do
  let sock ← deref s
  if ((← get).mgr.find sock.connIdx).isSome then
    throw .assertFailed
  else
    modifyMgr fun m => m.insert sock.connIdx s
    refAdd s

/-- If the descriptor has been closed before, its number may be that of an heir. -/
def removeSocket (connIdx : Nat) (heir : Option SockRef := none) : M Unit := do
  match (← get).mgr.find connIdx with
  | none => pure ()
  | some s =>
      if !(← epollCtlDel (heir.getD s)) then
        record (.epollError s)
      refRelease s
      modifyMgr fun m => m.erase connIdx

def disconnect (connIdx : Nat) : M Unit := do
  match (← get).mgr.find connIdx with
  | none => pure ()
  | some s =>
      refAdd s
      Socket.disconnect s

/-- The common frame of `SocketMgr::Send` and `SocketMgr::SendMsg`. -/
def sendThrough (connIdx : Nat) (sendTo : SockRef → M Bool) : M Bool := do
  match (← get).mgr.find connIdx with
  | none => pure false
  | some s =>
      refAdd s
      let ret ← sendTo s
      if !ret then
        refRelease s
      pure ret

def send (connIdx : Nat) (content : Bytes) : M Bool :=
  sendThrough connIdx fun s => Socket.send s content

def sendMsg (connIdx : Nat) (content : Bytes) : M Bool :=
  sendThrough connIdx fun s => do
    let sock ← deref s
    match sock.socketType with
    | .tcp => Socket.sendMsg s content
    | .udp =>
        if sock.isUdpConnected then Socket.sendUDP s content
        else Socket.sendMsg s content

def connectEx (config : Config) (outcome : ConnectOutcome) : M Nat := do
  let connIdx ← makeGeneralConnID
  let s ← allocate (newSocket .tcp 0 connIdx config)
  record (.registered s config.onconnectedHandler config.onrecvHandler config.oncloseHandler)
  updateSocket s fun sock => { sock with status := .connecting }
  -- `Socket::ConnectEx` succeeds exactly when `connect` reports -1
  if outcome = .minusOne then
    addSocket s
    if !(← epollCtlAdd s { epollIn := true, epollOut := true }) then
      record (.epollError s)
  else
    delete s
  pure connIdx

def invalidIndex : Nat := 2 ^ 32 - 1

/-- `SocketMgr::ConnectUDP`; `established` is the result of `Socket::ConnectUDP`. -/
def connectUDP (onConnect : SockRef → Bool → M Unit) (config : Config)
    (established isServerBuild : Bool) : M Nat := do
  let connIdx ← makeGeneralConnID
  let s ← allocate (newSocket .udp 0 connIdx { config with isParsePackage := true })
  record (if isServerBuild then .borrowed s else
    .registered s config.onconnectedHandler config.onrecvHandler config.oncloseHandler)
  updateSocket s fun sock => { sock with status := .connecting }
  if established then
    addSocket s
    updateSocket s fun sock => { sock with status := .connected }
    if ← epollCtlAdd s { epollIn := true, epollOut := true } then
      if isServerBuild then
        updateSocket s fun sock => { sock with isUdpConnected := true }
        onConnect s true
      pure connIdx
    else
      record (.epollError s)
      closeDescriptor s
      updateSocket s fun sock => { sock with status := .closed }
      onConnect s false
      removeSocket connIdx (← heirOf s)
      pure invalidIndex
  else
    delete s
    pure invalidIndex

/-- The eight characters that ask a UDP server for a connection. -/
def connectRequest : Bytes := [99, 111, 110, 110, 101, 99, 116, 0]

namespace UDPClient

def connect (onConnect : SockRef → Bool → M Unit) (config : Config) (established : Bool) :
    M Unit := do
  let connIdx ← connectUDP onConnect config established false
  if connIdx ≠ invalidIndex then
    let _ ← sendMsg connIdx connectRequest

end UDPClient

def runTask (script : M Unit) (handle : HandleInfo) (task : LogEntry) : M Unit := do
  record task
  if handle.funId > 0 then
    script

/-- `Socket::OnConnect` -/
def runConnectTask (script : M Unit) (s : SockRef) (isSuccess : Bool) : M Unit := do
  let sock ← deref s
  runTask script sock.onconnectedHandler (.connectTask s sock.connIdx isSuccess)

mutual

def luaCall : LuaCall → M Unit
  | .sendMsg connIdx message => do
      let _ ← sendMsg connIdx message.data
  | .send connIdx message => do
      let _ ← send connIdx message.data
  | .disconnect connIdx => disconnect connIdx
  | .connectEx config outcome => do
      let _ ← connectEx config outcome
  | .connectUDP config established callback =>
      UDPClient.connect (fun s isSuccess => runConnectTask (runCalls callback) s isSuccess)
        config established

def runCalls : List LuaCall → M Unit
  | [] => mark
  | call :: rest => do
      mark
      luaCall call
      runCalls rest

end

/-- `LuaCall(g_lua_state, ...)`: the next script. -/
def runScript : M Unit := do
  let w ← get
  modify fun w => { w with scripts := w.scripts.tail }
  runCalls (w.scripts.headD [])

/-! ## Callbacks and the socket's own functions -/

/-- `process` of `SocketConnectTask`, `SocketReadTask` and `SocketCloseTask`. -/
def process (handle : HandleInfo) (task : LogEntry) : M Unit := runTask runScript handle task

namespace Socket

def onConnect (s : SockRef) (isSuccess : Bool) : M Unit := runConnectTask runScript s isSuccess

def onDisconnect (s : SockRef) : M Unit := do
  let sock ← deref s
  process sock.oncloseHandler (.closeTask s sock.connIdx)

/-- `SocketReadTask::process` as called by `OnRead` and `on_udp_package_recv`. -/
def onData (s : SockRef) (data : Bytes) : M Unit := do
  let sock ← deref s
  process sock.onrecvHandler (.readTask s sock.connIdx data)

def updateKcp (s : SockRef) (f : Ikcp.Kcp → Ikcp.Kcp) : M Unit :=
  updateSocket s fun sock => { sock with kcp := sock.kcp.map f }

/-- The merge loop of `ikcp_recv`.  The callback runs before its segment is
taken from the queue, and it may send through the same control block. -/
def kcpMergeLoop (s : SockRef) : List Ikcp.Seg → M Int
  | [] => pure 0
  | seg :: rest => do
      onData s seg.data
      updateKcp s fun kcp =>
        { kcp with rcvQueue := kcp.rcvQueue.tail, nrcvQue := kcp.nrcvQue - 1 }
      if seg.frg = 0 then
        pure seg.data.length
      else
        let len ← kcpMergeLoop s rest
        pure (seg.data.length + len)

/-- `ikcp_recv` with its callbacks. -/
def kcpRecv (s : SockRef) : M Int := do
  let sock ← deref s
  match sock.kcp with
  | none => throw .useAfterFree
  | some kcp =>
      if kcp.rcvQueue = [] then
        pure (-1)
      else if kcp.peeksize < 0 then
        pure (-2)
      else
        let len ← kcpMergeLoop s kcp.rcvQueue
        updateKcp s fun merged =>
          let moved := Ikcp.Kcp.moveAvailable merged.rcvBuf merged
          if moved.nrcvQue < moved.rcvWnd ∧ kcp.nrcvQue ≥ kcp.rcvWnd then
            { moved with probe := moved.probe ||| Ikcp.askTell }
          else moved
        pure len

/-- The loop over `ikcp_recv`.  A call that reports progress has taken a segment
from the queue or the buffer, so their number bounds the turns. -/
def kcpRecvLoop (s : SockRef) : Nat → M Unit
  | 0 => throw .diverges
  | turns + 1 => do
      if (← kcpRecv s) > 0 then
        kcpRecvLoop s turns

/-- `cursor + ...` in `uint32`. -/
def addUInt32 (s : SockRef) (a b : Nat) : M Nat := do
  if 2 ^ 32 ≤ a + b then
    record (.wrapped s)
  pure ((a + b) % 2 ^ 32)

/-- `sizeof(RepServerPort)`, packed. -/
def repServerPortSize : Nat := 11

/-- The `flags` of the `RepServerPort` at the cursor read as a C string. -/
def isPortReply (buffer : Bytes) (cursor : Nat) : Bool :=
  (buffer.drop (cursor + 4)).take 5 = [112, 111, 114, 116, 0]

def connectUdpPort (s : SockRef) : M Bool := do
  let w ← get
  modify fun w => { w with udpConnects := w.udpConnects.tail }
  let _ ← deref s
  pure (w.udpConnects.headD true)

/-- The first frame of a UDP socket: the port of its peer. -/
def onHandshake (s : SockRef) (packetLen cursor : Nat) : M Unit := do
  let sock ← deref s
  if packetLen = repServerPortSize then
    if isPortReply sock.readBuffer.buffer cursor then
      if ← connectUdpPort s then
        updateSocket s fun sock => { sock with isUdpConnected := true }
        onConnect s true
      else
        record (.halfOpen s)
        onConnect s false
        Network.disconnect sock.connIdx
  else
    Network.disconnect sock.connIdx

def onKcpFrame (s : SockRef) (data : Bytes) : M Unit := do
  let sock ← deref s
  match sock.kcp with
  | none => throw .useAfterFree
  | some kcp =>
      updateSocket s fun sock => { sock with kcp := some (kcp.input data).1 }
      let received := (kcp.input data).1
      kcpRecvLoop s (received.rcvQueue.length + received.rcvBuf.length + 1)

/-- What `OnRead` does with a complete frame. -/
def onFrame (s : SockRef) (packetLen cursor len : Nat) : M Unit := do
  let sock ← deref s
  let body := (sock.readBuffer.buffer.drop (cursor + 4)).take len
  match sock.socketType with
  | .tcp => onData s body
  | .udp =>
      if sock.isUdpConnected then onKcpFrame s body
      else onHandshake s packetLen cursor

/-- The loop of `OnRead`; it returns the final cursor.  Its course depends only
on the cursor, so a loop that takes more turns than there are cursors is endless. -/
def onReadLoop (s : SockRef) (packetLen : Nat) : Nat → Nat → M Nat
  | 0, _ => throw .diverges
  | turns + 1, cursor => do
      let bodyStart ← addUInt32 s cursor 4
      if packetLen > bodyStart then
        let sock ← deref s
        let len := leValue ((sock.readBuffer.buffer.drop cursor).take 4)
        if 0 < len ∧ len ≤ (sock.recvBufferSize + 2 ^ 32 - 4) % 2 ^ 32 then
          let bodyEnd ← addUInt32 s bodyStart len
          if packetLen ≥ bodyEnd then
            onFrame s packetLen cursor len
            onReadLoop s packetLen turns bodyEnd
          else
            pure cursor
        else
          record (.packetError s)
          Network.disconnect sock.connIdx
          pure cursor
      else
        pure cursor

def cursorCount : Nat := 2 ^ 32

def onRead (s : SockRef) : M Unit := do
  let sock ← deref s
  let packetLen := sock.readBuffer.getSize
  if sock.isParsePackage then
    let cursor ← onReadLoop s packetLen (cursorCount + 1) 0
    if cursor ≠ 0 then
      updateSocket s fun sock => { sock with readBuffer := sock.readBuffer.remove cursor }
  else
    onData s (sock.readBuffer.buffer.take packetLen)
    updateSocket s fun sock => { sock with readBuffer := sock.readBuffer.remove packetLen }

def update (s : SockRef) (curTime : UInt32) : M Unit := do
  let sock ← deref s
  if sock.socketType = .udp ∧ sock.isUdpConnected then
    match sock.kcp with
    | none => pure ()
    | some kcp =>
        updateSocket s fun sock => { sock with kcp := some (kcp.update curTime).1 }
        sendUdpPackages s (kcp.update curTime).2

end Socket

end CrossOver.Engine.Network
