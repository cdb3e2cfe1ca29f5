import Mathlib.Logic.Function.Basic
import CrossOver.Engine.SequenceBuffer
import CrossOver.Engine.Ikcp.Protocol
import CrossOver.Lib.Hoare

/-!
# Sockets and the state of `SocketMgr`

A `Socket*` is a reference into a heap whose entries disappear when the object
is deleted; references are never reused.  What the kernel and the Lua scripts
decide (results of system calls, what a callback does) is supplied from
outside: as arguments where it belongs to one call, in `World` where it may be
needed anywhere.

`held`, `batch`, `seen` and the log entries from `queued` on are bookkeeping
that no function reads.
-/

namespace CrossOver.Engine.Network

open CrossOver.Lib

abbrev SockRef := Nat

inductive SocketType where
  | tcp
  | udp
  deriving DecidableEq, Repr

inductive SocketStatus where
  | closed
  | listening
  | connecting
  | connected
  | closing
  deriving DecidableEq, Repr

structure HandleInfo where
  funId : UInt32 := 0
  paramId : UInt32 := 0
  deriving DecidableEq, Repr

/-- The arguments a listening socket or a `connect` call gives to its sockets. -/
structure Config where
  onconnectedHandler : HandleInfo
  oncloseHandler : HandleInfo
  onrecvHandler : HandleInfo
  sendBufferSize : UInt32
  recvBufferSize : UInt32
  isParsePackage : Bool := true
  deriving DecidableEq, Repr

structure Socket where
  socketType : SocketType
  connIdx : Nat
  onconnectedHandler : HandleInfo
  oncloseHandler : HandleInfo
  onrecvHandler : HandleInfo
  readBuffer : SequenceBuffer
  writeBuffer : SequenceBuffer
  recvBufferSize : Nat
  status : SocketStatus
  writeLock : Int
  /-- `count_` of `Referable`, which has no room for `2 ^ 32` references -/
  count : Int
  isParsePackage : Bool
  isClient : Bool
  isUdpConnected : Bool
  kcp : Option Ikcp.Kcp

/-- The constructor.  A zero `fd` asks for a descriptor of its own. -/
def newSocket (socketType : SocketType) (fd connIdx : Nat) (config : Config) : Socket where
  socketType := socketType
  connIdx := connIdx
  onconnectedHandler := config.onconnectedHandler
  oncloseHandler := config.oncloseHandler
  onrecvHandler := config.onrecvHandler
  readBuffer := .allocate config.recvBufferSize.toNat
  writeBuffer := .allocate config.sendBufferSize.toNat
  recvBufferSize := config.recvBufferSize.toNat
  status := .closed
  writeLock := 0
  count := 0
  isParsePackage := config.isParsePackage
  isClient := fd = 0
  isUdpConnected := false
  kcp :=
    if fd = 0 ∧ socketType = .udp then
      some ((Ikcp.create (UInt32.ofNat connIdx)).setNodelay 1 10 2 1)
    else none

inductive SocketIOEvent where
  | delaySend
  | close
  deriving DecidableEq, Repr

structure SocketEvent where
  customizedEvents : SocketIOEvent
  s : SockRef
  deriving DecidableEq, Repr

structure Interest where
  epollIn : Bool
  epollOut : Bool
  deriving DecidableEq, Repr

inductive LogEntry where
  | connectTask (s : SockRef) (connIdx : Nat) (isSuccess : Bool)
  | readTask (s : SockRef) (connIdx : Nat) (data : Bytes)
  | closeTask (s : SockRef) (connIdx : Nat)
  | clientDeleteTask (connectHandle recvHandle closeHandle : HandleInfo)
  /-- `read packet is error!` -/
  | packetError (s : SockRef)
  /-- `Could not post event` and its variants -/
  | epollError (s : SockRef)
  /-- a frame written to the send buffer, with the status at that time -/
  | queued (s : SockRef) (status : SocketStatus) (frame : Bytes)
  /-- bytes accepted by `send()` -/
  | sent (s : SockRef) (data : Bytes)
  /-- a `uint32` sum of `OnRead` exceeded its range -/
  | wrapped (s : SockRef)
  /-- a message taken by `ikcp_send` -/
  | taken (s : SockRef)
  /-- a UDP socket given up that has not learned the port of its peer -/
  | halfOpen (s : SockRef)
  /-- the handlers that a caller has registered for a connection of its own -/
  | registered (s : SockRef) (connectHandle recvHandle closeHandle : HandleInfo)
  /-- a client socket that carries the handlers of the listener it comes from -/
  | borrowed (s : SockRef)
  /-- its descriptor number is deleted from the epoll set on behalf of another socket -/
  | evicted (s : SockRef)
  deriving DecidableEq, Repr

def LogEntry.subject : LogEntry → Option SockRef
  | .connectTask s _ _ => some s
  | .readTask s _ _ => some s
  | .closeTask s _ => some s
  | .clientDeleteTask _ _ _ => none
  | .packetError s => some s
  | .epollError s => some s
  | .queued s _ _ => some s
  | .sent s _ => some s
  | .wrapped s => some s
  | .taken s => some s
  | .halfOpen s => some s
  | .registered _ _ _ _ => none
  | .borrowed _ => none
  | .evicted s => some s

structure Mgr where
  heap : SockRef → Option Socket
  nextRef : SockRef
  socketMap : List (Nat × SockRef)
  eventQueue : List SocketEvent
  autoConnIdx : Nat
  /-- the epoll set; a socket leaves it when its descriptor is closed -/
  interest : SockRef → Option Interest
  /-- references that the running iteration will give back -/
  held : List SockRef
  /-- unprocessed socket entries of the current epoll batch -/
  batch : List SockRef
  log : List LogEntry

/-- The manager as constructed. -/
def Mgr.initial : Mgr where
  heap _ := none
  nextRef := 0
  socketMap := []
  eventQueue := []
  autoConnIdx := 1
  interest _ := none
  held := []
  batch := []
  log := []

def Mgr.find (m : Mgr) (connIdx : Nat) : Option SockRef :=
  (m.socketMap.find? fun entry => entry.1 = connIdx).map Prod.snd

def Mgr.setSocket (m : Mgr) (s : SockRef) (sock : Socket) : Mgr :=
  { m with heap := Function.update m.heap s (some sock) }

def Mgr.free (m : Mgr) (s : SockRef) : Mgr :=
  { m with heap := Function.update m.heap s none }

def Mgr.setInterest (m : Mgr) (s : SockRef) (interest : Option Interest) : Mgr :=
  { m with interest := Function.update m.interest s interest }

def Mgr.record (m : Mgr) (entry : LogEntry) : Mgr := { m with log := m.log ++ [entry] }

def Mgr.push (m : Mgr) (event : SocketEvent) : Mgr :=
  { m with eventQueue := m.eventQueue ++ [event] }

/-- `socket_map_.insert` of a key that is not there. -/
def Mgr.insert (m : Mgr) (connIdx : Nat) (s : SockRef) : Mgr :=
  { m with socketMap := m.socketMap ++ [(connIdx, s)] }

/-- `socket_map_.erase` -/
def Mgr.erase (m : Mgr) (connIdx : Nat) : Mgr :=
  { m with socketMap := m.socketMap.filter fun entry => entry.1 ≠ connIdx }

def Mgr.hold (m : Mgr) (s : SockRef) : Mgr := { m with held := s :: m.held }

def Mgr.unhold (m : Mgr) (s : SockRef) : Mgr := { m with held := m.held.erase s }

/-- What the caller of `Send` and `SendMsg` passes: its length is a `uint32`. -/
structure Message where
  data : Bytes
  short : data.length < 2 ^ 32

/-- The outcome of resolving a host and calling `connect()` on it. -/
inductive ConnectOutcome where
  | unresolved
  | minusOne
  | zero
  deriving DecidableEq, Repr

/-- What a Lua script may ask of the manager.  A UDP connect reports its own
failure before it returns, and what that callback does comes with the call. -/
inductive LuaCall where
  | sendMsg (connIdx : Nat) (message : Message)
  | send (connIdx : Nat) (message : Message)
  | disconnect (connIdx : Nat)
  | connectEx (config : Config) (outcome : ConnectOutcome)
  | connectUDP (config : Config) (established : Bool) (callback : List LuaCall)

structure World where
  mgr : Mgr
  /-- what the next callbacks do; further ones do nothing -/
  scripts : List (List LuaCall)
  /-- whether the next `epoll_ctl` calls succeed; further ones do -/
  epollResults : List Bool
  /-- whether the next `connect` calls of UDP handshakes succeed; further ones do -/
  udpConnects : List Bool
  /-- which sockets have got the numbers of descriptors that were closed too early -/
  heirs : List (Option SockRef) := []
  /-- the manager at each point where a step has been completed -/
  seen : List Mgr

inductive Fault where
  | useAfterFree
  | assertFailed
  /-- `MakeGeneralConnID` never returns -/
  | idsExhausted
  | diverges
  deriving DecidableEq, Repr

abbrev M := Program World Fault

def modifyMgr (f : Mgr → Mgr) : M Unit := modify fun w => { w with mgr := f w.mgr }

def record (entry : LogEntry) : M Unit := modifyMgr fun m => m.record entry

def recordIf (condition : Prop) [Decidable condition] (entry : LogEntry) : M Unit :=
  if condition then record entry else pure ()

/-- A point between two steps. -/
def mark : M Unit := modify fun w => { w with seen := w.mgr :: w.seen }

/-- Every access through a `Socket*` goes through here. -/
def deref (s : SockRef) : M Socket := do
  match (← get).mgr.heap s with
  | some sock => pure sock
  | none => throw .useAfterFree

def updateSocket (s : SockRef) (f : Socket → Socket) : M Unit := do
  let sock ← deref s
  modifyMgr fun m => m.setSocket s (f sock)

/-- `new Socket(...)` -/
def allocate (sock : Socket) : M SockRef := do
  let s := (← get).mgr.nextRef
  modifyMgr fun m => { m.setSocket s sock with nextRef := s + 1 }
  pure s

def delete (s : SockRef) : M Unit := do
  let sock ← deref s
  if sock.isClient then
    record (.clientDeleteTask sock.onconnectedHandler sock.onrecvHandler sock.oncloseHandler)
  modifyMgr fun m => m.free s

def refAdd (s : SockRef) : M Unit := updateSocket s fun sock => { sock with count := sock.count + 1 }

def refRelease (s : SockRef) : M Unit := do
  updateSocket s fun sock => { sock with count := sock.count - 1 }
  if (← deref s).count = 0 then delete s

/-- `REF_ADD` of a reference that the running iteration gives back. -/
def hold (s : SockRef) : M Unit := do
  refAdd s
  modifyMgr fun m => m.hold s

def unhold (s : SockRef) : M Unit := do
  modifyMgr fun m => m.unhold s
  refRelease s

/-- The next result of `epoll_ctl`; an unregistered descriptor is refused.  It goes by
the number of a descriptor, which belongs to the socket as long as that is open. -/
def epollCtl (s : SockRef) (mustExist : Bool) (interest : Option Interest) : M Bool := do
  let w ← get
  let accepted := w.epollResults.headD true && (!mustExist || (w.mgr.interest s).isSome)
  modify fun w => { w with epollResults := w.epollResults.tail }
  if accepted then
    modifyMgr fun m => m.setInterest s interest
  pure accepted

def epollCtlAdd (s : SockRef) (interest : Interest) : M Bool := epollCtl s false (some interest)

def epollCtlMod (s : SockRef) (interest : Interest) : M Bool := epollCtl s true (some interest)

def epollCtlDel (s : SockRef) : M Bool := epollCtl s true none

/-- The number of a closed descriptor belongs to nobody, or to a socket made since: which
one it is, if it is registered, is up to the kernel. -/
def heirOf (s : SockRef) : M (Option SockRef) := do
  let w ← get
  modify fun w => { w with heirs := w.heirs.tail }
  match w.heirs.headD none with
  | none => pure none
  | some t =>
      if s < t ∧ (w.mgr.interest t).isSome then
        record (.evicted t)
        pure (some t)
      else pure none

/-- `SocketOps::CloseSocket`: the descriptor is closed and leaves the epoll set. -/
def closeDescriptor (s : SockRef) : M Unit := modifyMgr fun m => m.setInterest s none

end CrossOver.Engine.Network
