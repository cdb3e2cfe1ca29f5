import CrossOver.Engine.Network.EventLoop

/-!
# `SocketMgr` on an I/O completion port

The functions of `socket_win32.cpp` and `socket_mgr_win32.cpp`.  What they share
with epoll is taken from there: the objects, the map, and the calls of a script
on a connection it has; the queue of events is here the `CLOSE` and `DELAY_SEND`
packets that have been posted to the port.  The other packets belong to
overlapped operations, and `Port` has those that have not been dequeued.

Closing a descriptor has no effect here: its operations complete all the same,
and it is for the environment to say how.
-/

namespace CrossOver.Engine.Network.Iocp

open CrossOver.Lib

/-- An overlapped `WSASend`. -/
structure Write where
  s : SockRef
  /-- the start of `buffer_` at the time of the call -/
  data : Bytes
  deriving DecidableEq, Repr

/-- The overlapped operations that are outstanding. -/
structure Port where
  connects : List SockRef
  reads : List SockRef
  writes : List Write

/-- What a script passes to `Send` and `SendMsg`.  Addresses have 32 bits here, so
a message with its header is shorter than `2 ^ 32`. -/
structure Message where
  data : Bytes
  short : data.length + 4 < 2 ^ 32

/-- How `Socket::ConnectEx` ends: without a report, with a report, or with an
operation under way. -/
inductive ConnectResult where
  | unresolved
  | refused
  | pending
  deriving DecidableEq, Repr

/-- What a script may ask of the manager.  A connect may report its own failure
before it returns, and what that callback does comes with the call. -/
inductive LuaCall where
  | sendMsg (connIdx : Nat) (message : Message)
  | send (connIdx : Nat) (message : Message)
  | disconnect (connIdx : Nat)
  | connectEx (config : Config) (result : ConnectResult) (callback : List LuaCall)
  | connectUDP (config : Config) (established : Bool) (callback : List LuaCall)

structure World where
  mgr : Mgr
  port : Port
  /-- what the next callbacks do; further ones do nothing -/
  scripts : List (List LuaCall)
  /-- whether the next `WSARecv` calls are accepted; further ones are -/
  recvResults : List Bool
  /-- whether the next `WSASend` calls are accepted; further ones are -/
  sendResults : List Bool
  /-- whether the next `connect` calls of UDP handshakes succeed; further ones do -/
  udpConnects : List Bool

abbrev W := Program World Fault

/-- The part of the world that the functions of both platforms know. -/
def World.shared (w : World) : Network.World where
  mgr := w.mgr
  scripts := []
  epollResults := []
  udpConnects := w.udpConnects
  seen := []

def World.resume (w : World) (shared : Network.World) : World :=
  { w with mgr := shared.mgr, udpConnects := shared.udpConnects }

/-- Functions that run no callback and make no overlapped call are those of epoll. -/
instance (priority := low) : MonadLift M W where
  monadLift x := fun w =>
    let (result, shared) := x w.shared
    (result, w.resume shared)

def modifyPort (f : Port → Port) : W Unit := modify fun w => { w with port := f w.port }

/-! ## Overlapped operations -/

def wsaRecv : W Bool := do
  let w ← get
  modify fun w => { w with recvResults := w.recvResults.tail }
  pure (w.recvResults.headD true)

def wsaSend : W Bool := do
  let w ← get
  modify fun w => { w with sendResults := w.sendResults.tail }
  pure (w.sendResults.headD true)

def setupReadEvent (s : SockRef) : W Bool := do
  let _ ← deref s
  if ← wsaRecv then
    modifyPort fun port => { port with reads := s :: port.reads }
    refAdd s
    pure true
  else
    pure false

/-- `buf.len`: the `int` becomes a `ULONG`. -/
def bufLen (writeBuffer : SequenceBuffer) : Nat := (Socket.sendLen writeBuffer % 2 ^ 32).toNat

def decSendLock (s : SockRef) : M Unit :=
  updateSocket s fun sock => { sock with writeLock := sock.writeLock - 1 }

def writeCallback (s : SockRef) : W Bool := do
  updateSocket s fun sock => { sock with writeBuffer := sock.writeBuffer.fillVector.2 }
  let sock ← deref s
  if sock.writeBuffer.getSize > 0 then
    if ← wsaSend then
      let data := sock.writeBuffer.buffer.take (bufLen sock.writeBuffer)
      modifyPort fun port => { port with writes := { s := s, data := data } :: port.writes }
      refAdd s
      pure true
    else
      decSendLock s
      pure false
  else
    decSendLock s
    pure true

def burstPush (s : SockRef) : W Bool := do
  let sock ← deref s
  if sock.writeLock = 0 then
    updateSocket s fun sock => { sock with writeLock := sock.writeLock + 1 }
    writeCallback s
  else
    pure true

/-! ## What a script may call -/

def removeSocket (connIdx : Nat) : M Unit := do
  match (← get).mgr.find connIdx with
  | none => pure ()
  | some s =>
      refRelease s
      modifyMgr fun m => m.erase connIdx

def connectEx (onConnect : SockRef → Bool → W Unit) (config : Config) (result : ConnectResult) :
    W Nat := do
  let connIdx ← makeGeneralConnID
  let s ← allocate { newSocket .tcp 0 connIdx config with status := .connecting }
  match result with
  | .pending =>
      modifyPort fun port => { port with connects := s :: port.connects }
      pure connIdx
  | .refused =>
      onConnect s false
      delete s
      pure connIdx
  | .unresolved =>
      delete s
      pure connIdx

def connectUDP (onConnect : SockRef → Bool → W Unit) (config : Config)
    (established isServerBuild : Bool) : W Nat := do
  let connIdx ← makeGeneralConnID
  let s ← allocate
    { newSocket .udp 0 connIdx { config with isParsePackage := true } with status := .connecting }
  if established then
    addSocket s
    updateSocket s fun sock => { sock with status := .connected }
    if ← setupReadEvent s then
      if isServerBuild then
        updateSocket s fun sock => { sock with isUdpConnected := true }
        onConnect s true
      pure connIdx
    else
      updateSocket s fun sock => { sock with status := .closed }
      onConnect s false
      removeSocket (← deref s).connIdx
      pure invalidIndex
  else
    delete s
    pure invalidIndex

/-- `UDPClient::Connect` -/
def udpConnect (onConnect : SockRef → Bool → W Unit) (config : Config) (established : Bool) :
    W Unit := do
  let connIdx ← connectUDP onConnect config established false
  if connIdx ≠ invalidIndex then
    let _ ← sendMsg connIdx connectRequest

def runTask (script : W Unit) (handle : HandleInfo) (task : LogEntry) : W Unit := do
  record task
  if handle.funId > 0 then
    script

def runConnectTask (script : W Unit) (s : SockRef) (isSuccess : Bool) : W Unit := do
  let sock ← deref s
  runTask script sock.onconnectedHandler (.connectTask s sock.connIdx isSuccess)

mutual

def luaCall : LuaCall → W Unit
  | .sendMsg connIdx message => do
      let _ ← Network.sendMsg connIdx message.data
  | .send connIdx message => do
      let _ ← Network.send connIdx message.data
  | .disconnect connIdx => do
      Network.disconnect connIdx
  | .connectEx config result callback => do
      let _ ← connectEx
        (fun s isSuccess => runConnectTask (runCalls callback) s isSuccess) config result
  | .connectUDP config established callback =>
      udpConnect (fun s isSuccess => runConnectTask (runCalls callback) s isSuccess)
        config established

def runCalls : List LuaCall → W Unit
  | [] => pure ()
  | call :: rest => do
      luaCall call
      runCalls rest

end

def runScript : W Unit := do
  let w ← get
  modify fun w => { w with scripts := w.scripts.tail }
  runCalls (w.scripts.headD [])

/-! ## The socket's own functions -/

namespace Socket

def onConnect (s : SockRef) (isSuccess : Bool) : W Unit := runConnectTask runScript s isSuccess

def onDisconnect (s : SockRef) : W Unit := do
  let sock ← deref s
  runTask runScript sock.oncloseHandler (.closeTask s sock.connIdx)

def onData (s : SockRef) (data : Bytes) : W Unit := do
  let sock ← deref s
  runTask runScript sock.onrecvHandler (.readTask s sock.connIdx data)

/-- The merge loop of `ikcp_recv`. -/
def kcpMergeLoop (s : SockRef) : List Ikcp.Seg → W Int
  | [] => pure 0
  | seg :: rest => do
      onData s seg.data
      Network.Socket.updateKcp s fun kcp =>
        { kcp with rcvQueue := kcp.rcvQueue.tail, nrcvQue := kcp.nrcvQue - 1 }
      if seg.frg = 0 then
        pure seg.data.length
      else
        let len ← kcpMergeLoop s rest
        pure (seg.data.length + len)

def kcpRecv (s : SockRef) : W Int := do
  let sock ← deref s
  match sock.kcp with
  | none => throw .useAfterFree
  | some kcp =>
      if kcp.rcvQueue = [] then
        pure (-1)
      else if kcp.peeksize < 0 then
        pure (-2)
      else
        let len ← kcpMergeLoop s kcp.rcvQueue
        Network.Socket.updateKcp s fun merged =>
          let moved := Ikcp.Kcp.moveAvailable merged.rcvBuf merged
          if moved.nrcvQue < moved.rcvWnd ∧ kcp.nrcvQue ≥ kcp.rcvWnd then
            { moved with probe := moved.probe ||| Ikcp.askTell }
          else moved
        pure len

def kcpRecvLoop (s : SockRef) : Nat → W Unit
  | 0 => throw .diverges
  | turns + 1 => do
      if (← kcpRecv s) > 0 then
        kcpRecvLoop s turns

def onHandshake (s : SockRef) (packetLen cursor : Nat) : W Unit := do
  let sock ← deref s
  if packetLen = Network.Socket.repServerPortSize then
    if Network.Socket.isPortReply sock.readBuffer.buffer cursor then
      if ← Network.Socket.connectUdpPort s then
        updateSocket s fun sock => { sock with isUdpConnected := true }
        onConnect s true
      else
        onConnect s false
        Network.disconnect sock.connIdx
  else
    Network.disconnect sock.connIdx

def onKcpFrame (s : SockRef) (data : Bytes) : W Unit := do
  let sock ← deref s
  match sock.kcp with
  | none => throw .useAfterFree
  | some kcp =>
      updateSocket s fun sock => { sock with kcp := some (kcp.input data).1 }
      let received := (kcp.input data).1
      kcpRecvLoop s (received.rcvQueue.length + received.rcvBuf.length + 1)

def onFrame (s : SockRef) (packetLen cursor len : Nat) : W Unit := do
  let sock ← deref s
  let body := (sock.readBuffer.buffer.drop (cursor + 4)).take len
  match sock.socketType with
  | .tcp => onData s body
  | .udp =>
      if sock.isUdpConnected then onKcpFrame s body
      else onHandshake s packetLen cursor

/-- The loop of `OnRead`, bounded as on epoll. -/
def onReadLoop (s : SockRef) (packetLen : Nat) : Nat → Nat → W Nat
  | 0, _ => throw .diverges
  | turns + 1, cursor => do
      let bodyStart ← Network.Socket.addUInt32 s cursor 4
      if packetLen > bodyStart then
        let sock ← deref s
        let len := leValue ((sock.readBuffer.buffer.drop cursor).take 4)
        if 0 < len ∧ len ≤ (sock.recvBufferSize + 2 ^ 32 - 4) % 2 ^ 32 then
          let bodyEnd ← Network.Socket.addUInt32 s bodyStart len
          if packetLen ≥ bodyEnd then
            onFrame s packetLen cursor len
            onReadLoop s packetLen turns bodyEnd
          else
            pure cursor
        else
          record (.packetError s)
          Network.disconnect sock.connIdx
          pure cursor
      else
        pure cursor

def onRead (s : SockRef) : W Unit := do
  let sock ← deref s
  let packetLen := sock.readBuffer.getSize
  if sock.isParsePackage then
    let cursor ← onReadLoop s packetLen (Network.Socket.cursorCount + 1) 0
    if cursor ≠ 0 then
      updateSocket s fun sock => { sock with readBuffer := sock.readBuffer.remove cursor }
  else
    onData s (sock.readBuffer.buffer.take packetLen)
    updateSocket s fun sock => { sock with readBuffer := sock.readBuffer.remove packetLen }

end Socket

/-! ## Handlers -/

def closeSocket (s : SockRef) : W Unit := do
  let sock ← deref s
  if sock.status = .closing ∨ sock.status = .connected then
    updateSocket s fun sock => { sock with status := .closed }
    Socket.onDisconnect s
    removeSocket (← deref s).connIdx

def handleConnectComplete (s : SockRef) (isSuccess : Bool) : W Unit := do
  if isSuccess then
    updateSocket s fun sock => { sock with status := .connected }
    addSocket s
    if ← setupReadEvent s then
      Socket.onConnect s true
    else
      updateSocket s fun sock => { sock with status := .closed }
      Socket.onConnect s false
      removeSocket (← deref s).connIdx
  else
    updateSocket s fun sock => { sock with status := .closed }
    Socket.onConnect s false

/-- A read of no bytes. -/
def handlePeerClosed (s : SockRef) : W Unit := do
  let sock ← deref s
  match sock.socketType with
  | .tcp => closeSocket s
  | .udp =>
      if sock.isUdpConnected then closeSocket s
      else
        updateSocket s fun sock => { sock with status := .closed }
        Socket.onConnect s false

/-- `data` is what `WSARecv` has left in the space it was given.  Nothing else
touches the read buffer while a read is outstanding. -/
def handleReadComplete (s : SockRef) (data : Bytes) : W Unit := do
  unhold s
  let sock ← deref s
  if sock.status = .connected then
    let received := data.take sock.readBuffer.getSpace
    if received ≠ [] then
      updateSocket s fun sock =>
        { sock with
          readBuffer := (sock.readBuffer.storeAtBuffer received).incrementWritten received.length }
      Socket.onRead s
      if !(← setupReadEvent s) then
        closeSocket s
    else
      handlePeerClosed s
  else if sock.status = .closing then
    closeSocket s

def handleWriteComplete (s : SockRef) (len : Nat) : W Unit := do
  unhold s
  let sock ← deref s
  if sock.status = .connected then
    updateSocket s fun sock => { sock with writeBuffer := sock.writeBuffer.remove len }
    let _ ← writeCallback s

def handleClose (s : SockRef) : W Unit := do
  unhold s
  let sock ← deref s
  if sock.status = .connected then
    updateSocket s fun sock => { sock with status := .closing }

def handleDelaySend (s : SockRef) : W Unit := do
  unhold s
  let sock ← deref s
  if sock.status = .connected then
    let _ ← burstPush s

/-! ## New sockets -/

def accept (aSocket : Nat) (config : Config) : W Unit := do
  let connIdx ← makeGeneralConnID
  let s ← allocate (newSocket .tcp aSocket connIdx config)
  addSocket s
  updateSocket s fun sock => { sock with status := .connected }
  if ← setupReadEvent s then
    Socket.onConnect s true
  else
    removeSocket (← deref s).connIdx

/-- `SocketMgr::Connect`; its sockets always parse packages. -/
def connect (config : Config) (connected : Bool) : W Nat := do
  let connIdx ← makeGeneralConnID
  let s ← allocate
    { newSocket .tcp 0 connIdx { config with isParsePackage := true } with status := .connecting }
  if connected then
    addSocket s
    updateSocket s fun sock => { sock with status := .connected }
    if ← setupReadEvent s then
      Socket.onConnect s true
      pure connIdx
    else
      updateSocket s fun sock => { sock with status := .closed }
      Socket.onConnect s false
      removeSocket (← deref s).connIdx
      pure invalidIndex
  else
    delete s
    pure invalidIndex

/-! ## The completion port -/

inductive Operation where
  | connect
  | read (data : Bytes)
  | write (write : Write) (bytes : Nat)
  | delaySend
  | close

/-- What `GetQueuedCompletionStatus` dequeues for a connection, and what it returns. -/
structure Completion where
  s : SockRef
  operation : Operation
  ret : Bool

def Completion.bytesTransferred (completion : Completion) : Nat :=
  match completion.operation with
  | .read data => data.length
  | .write _ bytes => bytes
  | _ => 0

structure State where
  mgr : Mgr
  port : Port

/-- Posted packets never fail, and no more is transferred than was submitted. -/
def Completion.Outstanding (completion : Completion) (state : State) : Prop :=
  match completion.operation with
  | .connect => completion.s ∈ state.port.connects
  | .read _ => completion.s ∈ state.port.reads
  | .write write bytes =>
      write ∈ state.port.writes ∧ write.s = completion.s ∧ bytes ≤ write.data.length
  | .delaySend =>
      { customizedEvents := .delaySend, s := completion.s } ∈ state.mgr.eventQueue ∧
        completion.ret = true
  | .close =>
      { customizedEvents := .close, s := completion.s } ∈ state.mgr.eventQueue ∧
        completion.ret = true

/-- The reference of the operation passes to the loop. -/
def inherit (s : SockRef) : M Unit := modifyMgr fun m => m.hold s

def takePosted (event : SocketEvent) : M Unit := do
  modifyMgr fun m => { m with eventQueue := m.eventQueue.erase event }
  inherit event.s

def dequeue (completion : Completion) : W Unit := do
  match completion.operation with
  | .connect =>
      modifyPort fun port => { port with connects := port.connects.erase completion.s }
  | .read _ =>
      modifyPort fun port => { port with reads := port.reads.erase completion.s }
      inherit completion.s
  | .write write bytes =>
      modifyPort fun port => { port with writes := port.writes.erase write }
      inherit completion.s
      recordIf (completion.ret = true) (.sent completion.s (write.data.take bytes))
  | .delaySend => takePosted { customizedEvents := .delaySend, s := completion.s }
  | .close => takePosted { customizedEvents := .close, s := completion.s }

/-- The first `switch` of `EventLoop`. -/
def handleSuccess (completion : Completion) : W Unit :=
  match completion.operation with
  | .connect => handleConnectComplete completion.s true
  | .read data => handleReadComplete completion.s data
  | .write _ bytes => handleWriteComplete completion.s bytes
  | .delaySend => handleDelaySend completion.s
  | .close => handleClose completion.s

/-- The second `switch` of `EventLoop`. -/
def handleFailure (completion : Completion) : W Unit :=
  match completion.operation with
  | .connect => handleConnectComplete completion.s false
  | .read data => handleReadComplete completion.s data
  | _ => pure ()

/-- One turn of the loop of `EventLoop`; after a failure with bytes it ends. -/
def complete (completion : Completion) : W Unit := do
  dequeue completion
  if completion.ret then
    hold completion.s
    handleSuccess completion
    unhold completion.s
  else if completion.bytesTransferred = 0 then
    hold completion.s
    handleFailure completion
    unhold completion.s

/-! ## Runs -/

inductive Op where
  /-- `Update` at the start of `EventLoop` -/
  | update (curTime : UInt32)
  | complete (completion : Completion)
  | acceptTcp (config : Config) (aSocket : Nat)
  | acceptUdp (config : Config) (datagram : Bytes) (established : Bool)
  | connect (config : Config) (connected : Bool)
  | lua (call : LuaCall)

def Op.run : Op → W Unit
  | .update curTime => do
      updateAll curTime (← get).mgr.socketMap
  | .complete completion => Iocp.complete completion
  | .acceptTcp config aSocket => accept aSocket config
  | .acceptUdp config datagram established => do
      if datagram = leBytes 4 8 ++ connectRequest then
        let _ ← connectUDP Socket.onConnect config established true
  | .connect config connected => do
      let _ ← Iocp.connect config connected
  | .lua call => luaCall call

/-- Only outstanding operations complete. -/
def Op.Possible (op : Op) (state : State) : Prop :=
  match op with
  | .complete completion => completion.Outstanding state
  | _ => True

/-- An operation with what its environment will decide. -/
structure Step where
  op : Op
  scripts : List (List LuaCall)
  recvResults : List Bool
  sendResults : List Bool
  udpConnects : List Bool

def Step.start (step : Step) (state : State) : World where
  mgr := state.mgr
  port := state.port
  scripts := step.scripts
  recvResults := step.recvResults
  sendResults := step.sendResults
  udpConnects := step.udpConnects

def Step.exec (step : Step) (state : State) : Except Fault Unit × World :=
  step.op.run (step.start state)

def World.state (w : World) : State where
  mgr := w.mgr
  port := w.port

def State.initial : State where
  mgr := Mgr.initial
  port := { connects := [], reads := [], writes := [] }

def system : System State Step where
  initial state := state = State.initial
  step state step state' :=
    step.op.Possible state ∧ (step.exec state).1 = .ok () ∧ (step.exec state).2.state = state'

end CrossOver.Engine.Network.Iocp
