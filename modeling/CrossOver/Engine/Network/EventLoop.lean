import CrossOver.Engine.Network.Manager
import CrossOver.Lib.Transition

/-!
# The event loop of `SocketMgr`

The handlers of epoll events, the ways a socket comes into being, and
`EventLoop` over the batches that `epoll_wait` returns.  The results of the
system calls made for an event come with the event.
-/

namespace CrossOver.Engine.Network

open CrossOver.Lib

structure Flags where
  epollIn : Bool := false
  epollOut : Bool := false
  epollHup : Bool := false
  epollErr : Bool := false
  deriving DecidableEq, Repr

/-- `recv`: no bytes mean that the peer has closed. -/
inductive RecvResult where
  | bytes (data : Bytes)
  | again
  | error
  deriving DecidableEq, Repr

inductive SendResult where
  | accepted (bytes : Nat)
  | error
  deriving DecidableEq, Repr

namespace Socket

/-- At most 1000K are offered at once. -/
def sendLen (writeBuffer : SequenceBuffer) : Int :=
  let size := intOf writeBuffer.getSize
  if size > 1000000 then 1000000 else size

/-- Once the results are used up `send` reports an error. -/
def writeCallback (s : SockRef) : List SendResult → M Bool
  | [] => do
      let sock ← deref s
      pure (sock.writeBuffer.getSize = 0)
  | result :: rest => do
      let sock ← deref s
      if sock.writeBuffer.getSize = 0 then
        pure true
      else
        match result with
        | .error => pure false
        | .accepted bytes =>
            let bytesWritten := min bytes (transferLimit (sendLen sock.writeBuffer))
            record (.sent s (sock.writeBuffer.buffer.take bytesWritten))
            updateSocket s fun sock =>
              { sock with writeBuffer := sock.writeBuffer.remove bytesWritten }
            if (bytesWritten : Int) < sendLen sock.writeBuffer then pure false
            else writeCallback s rest

/-- What `HandleReadComplete` does with the bytes that `recv` has left in the buffer. -/
def feed (s : SockRef) (data : Bytes) : M Unit := do
  updateSocket s fun sock =>
    { sock with
      readBuffer := (sock.readBuffer.storeAtBuffer data).incrementWritten data.length }
  onRead s

end Socket

/-! ## Handlers -/

/-- `SocketMgr::CloseSocket` -/
def closeSocket (s : SockRef) : M Unit := do
  let sock ← deref s
  if sock.status = .closing ∨ sock.status = .connected then
    recordIf (sock.socketType = .udp ∧ sock.isUdpConnected = false) (.halfOpen s)
    updateSocket s fun sock => { sock with status := .closed }
    Socket.onDisconnect s
    let sock ← deref s
    removeSocket sock.connIdx
    closeDescriptor s

def handleConnect (s : SockRef) (isSuccess : Bool) : M Unit := do
  if isSuccess then
    updateSocket s fun sock => { sock with status := .connected }
    let _ ← postEvent s { epollIn := true, epollOut := false }
    Socket.onConnect s true
  else
    Socket.onConnect s false
    updateSocket s fun sock => { sock with status := .closed }
    let sock ← deref s
    removeSocket sock.connIdx
    closeDescriptor s

/-- `FillVector` and, if there is something to send, `BurstPush`. -/
def fillAndPush (s : SockRef) : M Unit := do
  updateSocket s fun sock => { sock with writeBuffer := sock.writeBuffer.fillVector.2 }
  if (← deref s).writeBuffer.getSize > 0 then
    let _ ← burstPush s

/-- A `recv` that returned 0. -/
def handlePeerClosed (s : SockRef) : M Unit := do
  let sock ← deref s
  match sock.socketType with
  | .tcp => closeSocket s
  | .udp =>
      if sock.isUdpConnected then closeSocket s
      else
        record (.halfOpen s)
        closeDescriptor s
        updateSocket s fun sock => { sock with status := .closed }
        Socket.onConnect s false

/-- The loop of `HandleReadComplete`; it returns whether the code behind the
loop is reached.  Once the results are used up `recv` reports `EAGAIN`. -/
def readLoop (s : SockRef) : List RecvResult → M Bool
  | [] => do
      let sock ← deref s
      pure (intOf sock.readBuffer.getSpace ≠ 0)
  | result :: rest => do
      let sock ← deref s
      let space := intOf sock.readBuffer.getSpace
      if space = 0 then
        pure false
      else
        match result with
        | .again => pure true
        | .error => pure false
        | .bytes data =>
            let received := data.take (transferLimit space)
            if received = [] then
              handlePeerClosed s
              pure false
            else
              Socket.feed s received
              if (received.length : Int) = space then readLoop s rest
              else pure true

def handleReadComplete (s : SockRef) (results : List RecvResult) : M Unit := do
  let sock ← deref s
  if sock.status = .connected then
    if ← readLoop s results then
      fillAndPush s

def handleCanWrite (s : SockRef) (results : List SendResult) : M Unit := do
  let sock ← deref s
  if sock.writeLock ≠ 0 then
    if sock.status = .connected then
      updateSocket s fun sock => { sock with writeBuffer := sock.writeBuffer.fillVector.2 }
      let _ ← Socket.writeCallback s results
      if (← deref s).writeBuffer.getSize = 0 then
        updateSocket s fun sock => { sock with writeLock := sock.writeLock - 1 }
        let _ ← postEvent s { epollIn := true, epollOut := false }
      else
        let _ ← postEvent s { epollIn := true, epollOut := true }
    else if sock.status = .closing then
      closeSocket s

def handleDelaySend (s : SockRef) : M Unit := do
  let sock ← deref s
  if sock.status = .connected then
    fillAndPush s

def handleClose (s : SockRef) : M Unit := do
  let sock ← deref s
  if sock.status = .connected then
    updateSocket s fun sock => { sock with status := .closing }
    let _ ← burstPush s

/-- The reference of a popped event passes to the loop. -/
def popEvent (event : SocketEvent) (rest : List SocketEvent) : M Unit :=
  modifyMgr fun m => { m with eventQueue := rest, held := event.s :: m.held }

/-- None of the handlers adds to the queue, so its length bounds the turns. -/
def handleDelayEventLoop : Nat → M Unit
  | 0 => throw .diverges
  | turns + 1 => do
      mark
      match (← get).mgr.eventQueue with
      | [] => pure ()
      | event :: rest =>
          popEvent event rest
          match event.customizedEvents with
          | .close => handleClose event.s
          | .delaySend => handleDelaySend event.s
          unhold event.s
          handleDelayEventLoop turns

def handleDelayEvent : M Unit := do
  handleDelayEventLoop ((← get).mgr.eventQueue.length + 1)

/-! ## New sockets -/

/-- `SocketMgr::Accept` -/
def accept (aSocket : Nat) (config : Config) : M Unit := do
  let connIdx ← makeGeneralConnID
  let s ← allocate (newSocket .tcp aSocket connIdx config)
  recordIf (aSocket = 0) (.borrowed s)
  addSocket s
  updateSocket s fun sock => { sock with status := .connected }
  let sock ← deref s
  let toWrite : Bool := sock.writeBuffer.getSize ≠ 0
  if ← epollCtlAdd s { epollIn := !toWrite, epollOut := toWrite } then
    Socket.onConnect s true
  else
    record (.epollError s)
    closeDescriptor s
    removeSocket sock.connIdx

/-- `SocketMgr::Connect`; its sockets always parse packages. -/
def connect (config : Config) (outcome : ConnectOutcome) : M Nat := do
  let connIdx ← makeGeneralConnID
  let s ← allocate (newSocket .tcp 0 connIdx { config with isParsePackage := true })
  record (.registered s config.onconnectedHandler config.onrecvHandler config.oncloseHandler)
  updateSocket s fun sock => { sock with status := .connecting }
  if outcome = .zero then
    addSocket s
    updateSocket s fun sock => { sock with status := .connected }
    let sock ← deref s
    let toWrite : Bool := sock.writeBuffer.getSize ≠ 0
    if !(← epollCtlAdd s { epollIn := !toWrite, epollOut := toWrite }) then
      record (.epollError s)
    Socket.onConnect s true
    pure (← deref s).connIdx
  else
    delete s
    pure invalidIndex

def handleAcceptTCPComplete (config : Config) : Option Nat → M Unit
  | none => pure ()
  | some aSocket => accept aSocket config

/-- A listening UDP socket answers the 12 bytes of a `connect` request. -/
def handleAcceptUDPComplete (config : Config) (datagram : Bytes) (established : Bool) : M Unit := do
  if datagram = leBytes 4 8 ++ connectRequest then
    let _ ← connectUDP Socket.onConnect config established true

/-! ## Batches -/

/-- What `epoll_wait` may report, with the results of the calls it leads to. -/
inductive Entry where
  | wakeup (epollIn readOk : Bool)
  | listenTcp (config : Config) (accepted : Option Nat)
  | listenUdp (config : Config) (datagram : Bytes) (established : Bool)
  | socket (s : SockRef) (events : Flags) (recvs : List RecvResult) (sends : List SendResult)

/-- The kernel reports registered descriptors, each once in a batch. -/
def reportable (m : Mgr) : List SockRef → List Entry → List Entry
  | _, [] => []
  | earlier, .socket s events recvs sends :: rest =>
      if (m.interest s).isSome ∧ s ∉ earlier then
        .socket s events recvs sends :: reportable m (s :: earlier) rest
      else reportable m earlier rest
  | earlier, entry :: rest => entry :: reportable m earlier rest

def Entry.target : Entry → Option SockRef
  | .socket s _ _ _ => some s
  | _ => none

def epollWait (entries : List Entry) : M (List Entry) := do
  let reported := reportable (← get).mgr [] entries
  modifyMgr fun m => { m with batch := reported.filterMap Entry.target }
  pure reported

def handleSocketEvent (s : SockRef) (events : Flags) (recvs : List RecvResult)
    (sends : List SendResult) : M Unit := do
  if events.epollHup || events.epollErr then
    if (← deref s).status = .connecting then handleConnect s false
    else closeSocket s
  else
    if events.epollIn then
      handleReadComplete s recvs
    if events.epollOut then
      if (← deref s).status = .connecting then handleConnect s true
      else handleCanWrite s sends

def processEntry : Entry → M Unit
  | .wakeup epollIn readOk =>
      if epollIn && readOk then handleDelayEvent else pure ()
  | .listenTcp config accepted => handleAcceptTCPComplete config accepted
  | .listenUdp config datagram established => handleAcceptUDPComplete config datagram established
  | .socket s events recvs sends => do
      modifyMgr fun m => { m with batch := m.batch.erase s }
      hold s
      handleSocketEvent s events recvs sends
      unhold s

def processBatch : List Entry → M Unit
  | [] => pure ()
  | entry :: rest => do
      mark
      processEntry entry
      processBatch rest

def updateAll (curTime : UInt32) : List (Nat × SockRef) → M Unit
  | [] => pure ()
  | (_, s) :: rest => do
      hold s
      Socket.update s curTime
      unhold s
      updateAll curTime rest

/-- `EventLoop` ends when `epoll_wait` times out or fails. -/
def batchLoop : List (List Entry) → M Unit
  | [] => pure ()
  | entries :: rest => do
      let reported ← epollWait entries
      if reported.isEmpty then pure ()
      else
        processBatch reported
        batchLoop rest

def eventLoop (startTime : UInt32) (batches : List (List Entry)) : M Unit := do
  updateAll startTime (← get).mgr.socketMap
  batchLoop batches

/-! ## Runs -/

inductive Op where
  | eventLoop (startTime : UInt32) (batches : List (List Entry))
  | connect (config : Config) (outcome : ConnectOutcome)
  | lua (call : LuaCall)

def Op.run : Op → M Unit
  | .eventLoop startTime batches => Network.eventLoop startTime batches
  | .connect config outcome => do
      let _ ← Network.connect config outcome
  | .lua call => luaCall call

/-- An operation with what its environment will decide. -/
structure Step where
  op : Op
  scripts : List (List LuaCall)
  epollResults : List Bool
  udpConnects : List Bool
  heirs : List (Option SockRef) := []

def Step.start (step : Step) (m : Mgr) : World where
  mgr := m
  scripts := step.scripts
  epollResults := step.epollResults
  udpConnects := step.udpConnects
  heirs := step.heirs
  seen := []

def Step.exec (step : Step) (m : Mgr) : Except Fault Unit × World := step.op.run (step.start m)

def system : System Mgr Step where
  initial m := m = Mgr.initial
  step m step m' := (step.exec m).1 = .ok () ∧ (step.exec m).2.mgr = m'

end CrossOver.Engine.Network
