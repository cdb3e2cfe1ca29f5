import Mathlib.Data.List.Perm.Basic
import CrossOver.Engine.Network.Manager
import CrossOver.Lib.Transition

/-!
# How a UDP client and a UDP server meet

`State` leaves out addresses and ports; here they are all that matters.  The
client's `Connect` sends a request to the listening port.  The server answers
every request it receives with a new socket, connected to the sender, and tells
the port of that socket; the client connects to the port it is told.

The network loses, delays, reorders and duplicates datagrams.  `delivered`,
`duplicated` and `closed` are bookkeeping that no function reads.
-/

namespace CrossOver.Engine.Network.Handshake

open CrossOver.Lib Socket

structure Address where
  ip : UInt32
  port : UInt16
  deriving DecidableEq, Repr

structure Datagram where
  source : Address
  destination : Address
  payload : Bytes
  deriving DecidableEq, Repr

/-- A UDP `Socket` with its addresses; `connects` are the calls of `OnConnect`. -/
structure UdpSocket where
  localPort : UInt16
  client : Address
  status : SocketStatus
  isUdpConnected : Bool
  recvBufferSize : Nat
  connects : List Bool
  deriving DecidableEq, Repr

/-- The results of the system calls for a new socket: whether the host is known,
the port it is bound to, and whether `connect` and `epoll_ctl` succeed. -/
structure Opening where
  resolved : Bool := true
  localPort : Option UInt16
  connected : Bool := true
  added : Bool := true
  deriving DecidableEq, Repr

/-- `SocketMgr::ConnectUDP`; no socket is left if `Socket::ConnectUDP` fails, and
the second component tells whether there is a valid index to return. -/
def connectUDP (address : Address) (recvBufferSize : Nat) (isServerBuild : Bool)
    (opening : Opening) : Option UdpSocket × Bool :=
  match opening.resolved, opening.localPort, opening.connected with
  | true, some localPort, true =>
      if opening.added then
        (some { localPort := localPort, client := address, status := .connected,
                isUdpConnected := isServerBuild, recvBufferSize := recvBufferSize,
                connects := if isServerBuild then [true] else [] }, true)
      else
        (some { localPort := localPort, client := address, status := .closed,
                isUdpConnected := false, recvBufferSize := recvBufferSize,
                connects := [false] }, false)
  | _, _, _ => (none, false)

/-- What `UDPClient_impl::Connect` sends. -/
def request : Bytes := leBytes 4 8 ++ connectRequest

def repServerPort (port : UInt16) : Bytes :=
  leBytes 4 (repServerPortSize - 4) ++ [112, 111, 114, 116, 0] ++ leBytes 2 port.toNat

/-- The `port` of the `RepServerPort` in the buffer. -/
def portOf (buffer : Bytes) : UInt16 := UInt16.ofNat (leValue ((buffer.drop 9).take 2))

/-- `HandleAcceptUDPComplete` of the socket listening at `server`: the sockets it
makes and the datagrams it sends. -/
def handleAcceptUDPComplete (server : Address) (recvBufferSize : Nat) (datagram : Datagram)
    (opening : Opening) : List UdpSocket × List Datagram :=
  if datagram.payload = request then
    match connectUDP datagram.source recvBufferSize true opening with
    | (some sock, true) =>
        ([sock], [{ source := server, destination := datagram.source,
                    payload := repServerPort sock.localPort }])
    | (made, _) => (made.toList, [])
  else ([], [])

/-- The handshake of `OnRead` with a datagram that fills the buffer alone; a call
of `Disconnect` only asks for the socket to be closed later. -/
def onHandshake (sock : UdpSocket) (buffer : Bytes) (connected : Bool) : UdpSocket :=
  if buffer.length = repServerPortSize ∧ isPortReply buffer 0 then
    let named := { sock with client := { sock.client with port := portOf buffer } }
    if connected then
      { named with isUdpConnected := true, connects := sock.connects ++ [true] }
    else { named with connects := sock.connects ++ [false] }
  else sock

/-- A datagram read by the client.  A closed socket reads nothing, a buffer that
is too small never holds a whole reply, and once the socket is connected the
datagram is one for KCP. -/
def onRead (sock : UdpSocket) (datagram : Datagram) (connected : Bool) : UdpSocket :=
  if sock.status = .connected ∧ repServerPortSize ≤ sock.recvBufferSize ∧
      sock.isUdpConnected = false then onHandshake sock datagram.payload connected
  else sock

structure Parties where
  server : Address
  clientIp : UInt32
  serverBuffer : Nat
  clientBuffer : Nat
  deriving DecidableEq, Repr

structure Exchange where
  /-- whether `Connect` has been called -/
  called : Bool
  client : Option UdpSocket
  /-- the request waits in the send buffer -/
  unsent : Bool
  /-- the sockets that the server has made -/
  sockets : List UdpSocket
  inFlight : List Datagram
  /-- copies of the request that have reached the server -/
  delivered : Nat
  /-- copies of the request that the network has made -/
  duplicated : Nat
  /-- which of its sockets the server has closed -/
  closed : List Nat

def Exchange.initial : Exchange where
  called := false
  client := none
  unsent := false
  sockets := []
  inFlight := []
  delivered := 0
  duplicated := 0
  closed := []

inductive Action where
  | connect (opening : Opening)
  | send
  | drop (index : Nat)
  | duplicate (index : Nat)
  | deliver (index : Nat) (opening : Opening) (connected : Bool)
  | closeServer (index : Nat)
  | closeClient

variable (parties : Parties)

def clientAddress (sock : UdpSocket) : Address where
  ip := parties.clientIp
  port := sock.localPort

/-- A datagram arrives at the listening socket, at the client, or nowhere. -/
def arrive (opening : Opening) (connected : Bool) (datagram : Datagram) (state : Exchange) :
    Exchange :=
  if datagram.destination = parties.server then
    let answer := handleAcceptUDPComplete parties.server parties.serverBuffer datagram opening
    { state with
      sockets := state.sockets ++ answer.1, inFlight := state.inFlight ++ answer.2
      delivered := state.delivered + if datagram.payload = request then 1 else 0 }
  else
    match state.client with
    | some sock =>
        if datagram.destination = clientAddress parties sock then
          { state with client := some (onRead sock datagram connected) }
        else state
    | none => state

def step (state : Exchange) : Action → Exchange
  | .connect opening =>
      if state.called then state
      else
        let made := connectUDP parties.server parties.clientBuffer false opening
        { state with called := true, client := made.1, unsent := made.2 }
  | .send =>
      match state.client with
      | some sock =>
          if state.unsent ∧ sock.status = .connected then
            { state with
              unsent := false
              inFlight := state.inFlight ++ [{ source := clientAddress parties sock,
                                               destination := parties.server, payload := request }] }
          else state
      | none => state
  | .drop index => { state with inFlight := state.inFlight.eraseIdx index }
  | .duplicate index =>
      match state.inFlight[index]? with
      | some datagram =>
          { state with
            inFlight := state.inFlight ++ [datagram]
            duplicated := state.duplicated + if datagram.payload = request then 1 else 0 }
      | none => state
  | .deliver index opening connected =>
      match state.inFlight[index]? with
      | some datagram =>
          arrive parties opening connected datagram
            { state with inFlight := state.inFlight.eraseIdx index }
      | none => state
  | .closeServer index =>
      { state with
        sockets := state.sockets.modify index fun sock => { sock with status := .closed }
        closed := index :: state.closed }
  | .closeClient =>
      { state with client := state.client.map fun sock => { sock with status := .closed } }

def system : System Exchange Action where
  initial state := state = Exchange.initial
  step state action state' := step parties state action = state'

/-! ## Datagrams -/

theorem portOf_repServerPort (port : UInt16) : portOf (repServerPort port) = port := by
  have tail : (repServerPort port).drop 9 = leBytes 2 port.toNat := rfl
  have whole : (leBytes 2 port.toNat).take 2 = leBytes 2 port.toNat := rfl
  rw [portOf, tail, whole, leValue_leBytes port.toNat_lt, UInt16.ofNat_toNat]

theorem request_ne_repServerPort (port : UInt16) : repServerPort port ≠ request := by
  intro same
  have lengths := congrArg List.length same
  simp [repServerPort, request, connectRequest] at lengths

theorem connectUDP_spec (address : Address) (recvBufferSize : Nat) (isServerBuild : Bool)
    (opening : Opening) :
    connectUDP address recvBufferSize isServerBuild opening = (none, false) ∨
      ∃ sock, sock.client = address ∧
        (connectUDP address recvBufferSize isServerBuild opening = (some sock, false) ∧
            sock.isUdpConnected = false ∧ sock.connects = [false] ∨
          connectUDP address recvBufferSize isServerBuild opening = (some sock, true) ∧
            sock.isUdpConnected = isServerBuild ∧ sock.status = .connected ∧
            sock.connects = if isServerBuild then [true] else []) := by
  unfold connectUDP
  split
  · split
    · exact Or.inr ⟨_, rfl, Or.inr ⟨rfl, rfl, rfl, rfl⟩⟩
    · exact Or.inr ⟨_, rfl, Or.inl ⟨rfl, rfl, rfl⟩⟩
  · exact Or.inl rfl

/-- A socket that the server makes belongs to the sender of a request, and if it
was connected its port is told. -/
theorem handleAcceptUDPComplete_spec (server : Address) (recvBufferSize : Nat)
    (datagram : Datagram) (opening : Opening) :
    handleAcceptUDPComplete server recvBufferSize datagram opening = ([], []) ∨
      datagram.payload = request ∧ ∃ sock, sock.client = datagram.source ∧
        (handleAcceptUDPComplete server recvBufferSize datagram opening = ([sock], []) ∧
            sock.connects = [false] ∨
          handleAcceptUDPComplete server recvBufferSize datagram opening =
              ([sock], [{ source := server, destination := datagram.source,
                          payload := repServerPort sock.localPort }]) ∧
            sock.connects = [true] ∧ sock.status = .connected) := by
  unfold handleAcceptUDPComplete
  split
  · next asked =>
      rcases connectUDP_spec datagram.source recvBufferSize true opening with
        failed | ⟨sock, sender, ⟨refused, -, told⟩ | ⟨opened, -, status, told⟩⟩
      · rw [failed]
        exact Or.inl rfl
      · rw [refused]
        exact Or.inr ⟨asked, sock, sender, Or.inl ⟨rfl, told⟩⟩
      · rw [opened]
        exact Or.inr ⟨asked, sock, sender, Or.inr ⟨rfl, told, status⟩⟩
  · exact Or.inl rfl

/-! ## What every run keeps -/

/-- Among its sockets the server has one with this port, connected to this
address, which is open unless the server has closed it. -/
def Exchange.Answered (state : Exchange) (address : Address) (port : UInt16) : Prop :=
  ∃ index sock, state.sockets[index]? = some sock ∧ sock.localPort = port ∧
    sock.client = address ∧ sock.connects = [true] ∧
    (index ∉ state.closed → sock.status = .connected)

/-- What is in flight: a request of the client, or the port of a socket made for it. -/
def Exchange.Carried (state : Exchange) (address : Address) (datagram : Datagram) : Prop :=
  datagram.source = address ∧ datagram.payload = request ∨
    ∃ port, datagram.payload = repServerPort port ∧ state.Answered address port

def Exchange.requests (state : Exchange) : Nat :=
  state.inFlight.countP fun datagram => datagram.payload = request

structure Orderly (state : Exchange) : Prop where
  uncalled : state.called = false → state.client = none
  quiet : state.client = none → state.inFlight = [] ∧ state.sockets = [] ∧ state.unsent = false
  carried : ∀ client, state.client = some client →
    ∀ datagram ∈ state.inFlight, state.Carried (clientAddress parties client) datagram
  budget : state.delivered + state.requests + (if state.unsent then 1 else 0) ≤
    (if state.called then 1 else 0) + state.duplicated
  made : state.sockets.length ≤ state.delivered
  told : ∀ sock ∈ state.sockets, sock.connects = [true] ∨ sock.connects = [false]
  owned : ∀ client, state.client = some client →
    ∀ sock ∈ state.sockets, sock.client = clientAddress parties client
  reported : ∀ client, state.client = some client →
    client.connects.count true = if client.isUdpConnected then 1 else 0
  met : ∀ client, state.client = some client → client.isUdpConnected = true →
    state.Answered (clientAddress parties client) client.client.port

theorem Exchange.Answered.append {state state' : Exchange} {address : Address} {port : UInt16}
    {more : List UdpSocket} (answered : state.Answered address port)
    (sockets : state'.sockets = state.sockets ++ more) (closed : state'.closed = state.closed) :
    state'.Answered address port := by
  obtain ⟨index, sock, found, rest⟩ := answered
  refine ⟨index, sock, ?_, closed ▸ rest⟩
  rw [sockets, List.getElem?_append_left (List.getElem?_eq_some_iff.mp found).1]
  exact found

theorem Exchange.Carried.append {state state' : Exchange} {address : Address}
    {datagram : Datagram} {more : List UdpSocket} (carried : state.Carried address datagram)
    (sockets : state'.sockets = state.sockets ++ more) (closed : state'.closed = state.closed) :
    state'.Carried address datagram := by
  rcases carried with asked | ⟨port, told, answered⟩
  · exact Or.inl asked
  · exact Or.inr ⟨port, told, answered.append sockets closed⟩

variable {parties} {state : Exchange}

theorem initial_orderly : Orderly parties Exchange.initial := by
  constructor <;> simp [Exchange.initial, Exchange.requests]

theorem Orderly.lose (orderly : Orderly parties state) (index : Nat) :
    Orderly parties { state with inFlight := state.inFlight.eraseIdx index } := by
  have fewer := state.inFlight.eraseIdx_sublist index
  refine { orderly with quiet := ?_, carried := ?_, budget := ?_ }
  · intro none
    obtain ⟨empty, rest⟩ := orderly.quiet none
    exact ⟨by rw [empty]; rfl, rest⟩
  · exact fun client known datagram membership =>
      orderly.carried client known datagram (fewer.subset membership)
  · have count : Exchange.requests { state with inFlight := state.inFlight.eraseIdx index } ≤
        state.requests := fewer.countP_le
    have before := orderly.budget
    dsimp only at before ⊢
    omega

/-- Nothing has happened before `Connect`. -/
theorem Orderly.fresh (orderly : Orderly parties state) (absent : state.client = none)
    {made : Option UdpSocket} {unsent : Bool} (uncalled : state.called = false)
    (sends : unsent = true → made ≠ none)
    (reported : ∀ client, made = some client →
      client.isUdpConnected = false ∧ client.connects.count true = 0) :
    Orderly parties { state with called := true, client := made, unsent := unsent } := by
  obtain ⟨empty, noSockets, -⟩ := orderly.quiet absent
  have before := orderly.budget
  refine ⟨by simp, ?_, ?_, ?_, orderly.made, orderly.told, ?_, ?_, ?_⟩
  · intro nothing
    refine ⟨empty, noSockets, ?_⟩
    by_contra waiting
    exact sends (by simpa using waiting) nothing
  · intro client _ datagram membership
    dsimp only at membership
    rw [empty] at membership
    cases membership
  · rw [uncalled] at before
    have limit : (if unsent then 1 else 0) ≤ 1 := by split <;> decide
    simp only [Exchange.requests, Bool.false_eq_true, if_false, if_true] at before ⊢
    omega
  · intro client _ sock membership
    dsimp only at membership
    rw [noSockets] at membership
    cases membership
  · intro client known
    rw [(reported client known).1, (reported client known).2]
    rfl
  · intro client known connected
    rw [(reported client known).1] at connected
    cases connected

theorem Orderly.connect (orderly : Orderly parties state) (opening : Opening) :
    Orderly parties (step parties state (.connect opening)) := by
  rw [step]
  split
  · exact orderly
  · next called =>
      have uncalled : state.called = false := by simpa using called
      have absent := orderly.uncalled uncalled
      rcases connectUDP_spec parties.server parties.clientBuffer false opening with
        failed | ⟨sock, -, ⟨refused, waiting, told⟩ | ⟨opened, waiting, -, told⟩⟩
      · rw [failed]
        exact orderly.fresh absent uncalled (by simp) (by simp)
      · rw [refused]
        refine orderly.fresh absent uncalled (by simp) ?_
        rintro client ⟨⟩
        exact ⟨waiting, by rw [told]; rfl⟩
      · rw [opened]
        refine orderly.fresh absent uncalled (by simp) ?_
        rintro client ⟨⟩
        exact ⟨waiting, by rw [told]; rfl⟩

theorem Orderly.send (orderly : Orderly parties state) :
    Orderly parties (step parties state .send) := by
  rw [step]
  split
  · next client known =>
      split
      · next ready =>
          refine { orderly with quiet := ?_, carried := ?_, budget := ?_ }
          · intro none
            rw [known] at none
            cases none
          · intro other same datagram membership
            rcases List.mem_append.mp membership with old | new
            · exact orderly.carried other same datagram old
            · rw [List.mem_singleton.mp new]
              rw [known] at same
              cases same
              exact Or.inl ⟨rfl, rfl⟩
          · have before := orderly.budget
            rw [ready.1] at before
            simpa [Exchange.requests, Nat.add_assoc] using before
      · exact orderly
  · exact orderly

theorem Orderly.duplicate (orderly : Orderly parties state) (index : Nat) :
    Orderly parties (step parties state (.duplicate index)) := by
  rw [step]
  split
  · next datagram found =>
      have there : datagram ∈ state.inFlight := List.mem_of_getElem? found
      refine { orderly with quiet := ?_, carried := ?_, budget := ?_ }
      · intro none
        rw [(orderly.quiet none).1] at there
        cases there
      · intro client known other membership
        rcases List.mem_append.mp membership with old | new
        · exact orderly.carried client known other old
        · rw [List.mem_singleton.mp new]
          exact orderly.carried client known datagram there
      · have before := orderly.budget
        simp only [Exchange.requests, List.countP_append, List.countP_singleton, decide_eq_true_eq]
          at before ⊢
        omega
  · exact orderly

theorem Orderly.closeServer (orderly : Orderly parties state) (index : Nat) :
    Orderly parties (step parties state (.closeServer index)) := by
  have answered : ∀ address port, state.Answered address port →
      (step parties state (.closeServer index)).Answered address port := by
    rintro address port ⟨place, sock, found, port, peer, told, status⟩
    by_cases same : index = place
    · refine ⟨place, { sock with status := .closed }, ?_, port, peer, told, ?_⟩
      · rw [step, same]
        simp [found]
      · exact fun still => absurd (List.mem_cons.mpr (Or.inl same.symm)) still
    · refine ⟨place, sock, ?_, port, peer, told, ?_⟩
      · rw [step]
        simp [found, same]
      · exact fun still => status fun closed => still (List.mem_cons_of_mem _ closed)
  have unchanged : ∀ sock ∈ (step parties state (.closeServer index)).sockets,
      ∃ old ∈ state.sockets, sock.client = old.client ∧ sock.connects = old.connects := by
    intro sock membership
    obtain ⟨place, found⟩ := List.mem_iff_getElem?.mp membership
    rw [step, List.getElem?_modify] at found
    obtain ⟨old, there, same⟩ := Option.map_eq_some_iff.mp found
    refine ⟨old, List.mem_of_getElem? there, ?_⟩
    rw [← same]
    split <;> exact ⟨rfl, rfl⟩
  refine ⟨orderly.uncalled, ?_, ?_, orderly.budget, ?_, ?_, ?_, orderly.reported, ?_⟩
  · intro none
    obtain ⟨empty, noSockets, sent⟩ := orderly.quiet none
    exact ⟨empty, by simp [step, noSockets], sent⟩
  · intro client known datagram membership
    rcases orderly.carried client known datagram membership with asked | ⟨port, told, there⟩
    · exact Or.inl asked
    · exact Or.inr ⟨port, told, answered _ _ there⟩
  · simpa [step] using orderly.made
  · intro sock membership
    obtain ⟨old, there, -, same⟩ := unchanged sock membership
    rw [same]
    exact orderly.told old there
  · intro client known sock membership
    obtain ⟨old, there, same, -⟩ := unchanged sock membership
    rw [same]
    exact orderly.owned client known old there
  · exact fun client known connected => answered _ _ (orderly.met client known connected)

/-- A client that keeps its port, with a new account of what it has reported. -/
theorem Orderly.update (orderly : Orderly parties state) {client client' : UdpSocket}
    (known : state.client = some client) (same : client'.localPort = client.localPort)
    (reported : client'.connects.count true = if client'.isUdpConnected then 1 else 0)
    (met : client'.isUdpConnected = true →
      state.Answered (clientAddress parties client) client'.client.port) :
    Orderly parties { state with client := some client' } := by
  have address : clientAddress parties client' = clientAddress parties client := by
    rw [clientAddress, clientAddress, same]
  refine ⟨?_, by simp, ?_, orderly.budget, orderly.made, orderly.told, ?_, ?_, ?_⟩
  · intro uncalled
    rw [orderly.uncalled uncalled] at known
    cases known
  · rintro _ ⟨⟩ datagram membership
    rw [address]
    exact orderly.carried client known datagram membership
  · rintro _ ⟨⟩ sock membership
    rw [address]
    exact orderly.owned client known sock membership
  · rintro _ ⟨⟩
    exact reported
  · rintro _ ⟨⟩ connected
    rw [address]
    exact met connected

theorem Orderly.closeClient (orderly : Orderly parties state) :
    Orderly parties (step parties state .closeClient) := by
  rw [step]
  cases known : state.client with
  | none =>
      have same : { state with client := none } = state := by rw [← known]
      rw [Option.map_none, same]
      exact orderly
  | some client =>
      exact orderly.update known rfl (orderly.reported client known) (orderly.met client known)

/-- The client learns a port, or has learned one. -/
theorem Orderly.read (orderly : Orderly parties state) {client : UdpSocket}
    (known : state.client = some client) {datagram : Datagram}
    (carried : state.Carried (clientAddress parties client) datagram) (connected : Bool) :
    Orderly parties { state with client := some (onRead client datagram connected) } := by
  have reported := orderly.reported client known
  have same : { state with client := some client } = state := by rw [← known]
  unfold onRead
  split
  · next waiting =>
      rw [waiting.2.2] at reported
      unfold onHandshake
      split
      · next reply =>
          obtain ⟨port, told, answered⟩ : ∃ port, datagram.payload = repServerPort port ∧
              state.Answered (clientAddress parties client) port := by
            rcases carried with ⟨-, asked⟩ | found
            · rw [asked] at reply
              exact absurd reply.1 (by decide)
            · exact found
          dsimp only
          split
          · refine orderly.update known rfl ?_ ?_
            · simpa using reported
            · intro _
              rw [told, portOf_repServerPort]
              exact answered
          · refine orderly.update known rfl ?_ ?_
            · simpa [waiting.2.2] using reported
            · intro wrong
              rw [waiting.2.2] at wrong
              cases wrong
      · rw [same]
        exact orderly
  · rw [same]
    exact orderly

/-- A new socket of the server and what it says about it. -/
theorem Orderly.admit (orderly : Orderly parties state) {client sock : UdpSocket}
    (known : state.client = some client) (peer : sock.client = clientAddress parties client)
    (told : sock.connects = [true] ∨ sock.connects = [false]) {replies : List Datagram}
    (answers : ∀ datagram ∈ replies, datagram.payload = repServerPort sock.localPort ∧
      sock.connects = [true] ∧ sock.status = .connected)
    (budget : state.delivered + 1 + state.requests + (if state.unsent then 1 else 0) ≤
      (if state.called then 1 else 0) + state.duplicated) :
    Orderly parties { state with
      sockets := state.sockets ++ [sock], inFlight := state.inFlight ++ replies,
      delivered := state.delivered + 1 } := by
  refine ⟨orderly.uncalled, ?_, ?_, ?_, ?_, ?_, ?_, orderly.reported, ?_⟩
  · intro absent
    dsimp only at absent
    rw [known] at absent
    cases absent
  · intro other same datagram membership
    rcases List.mem_append.mp membership with old | new
    · exact (orderly.carried other same datagram old).append rfl rfl
    · obtain ⟨payload, reported, status⟩ := answers datagram new
      rw [known] at same
      cases same
      refine Or.inr ⟨sock.localPort, payload, state.sockets.length, sock, ?_⟩
      exact ⟨by simp, rfl, peer, reported, fun _ => status⟩
  · have none : replies.countP (fun datagram => datagram.payload = request) = 0 := by
      rw [List.countP_eq_zero]
      intro datagram membership
      rw [(answers datagram membership).1]
      simpa using request_ne_repServerPort sock.localPort
    simp only [Exchange.requests, List.countP_append, none] at budget ⊢
    exact budget
  · simpa using orderly.made
  · intro other membership
    rcases List.mem_append.mp membership with old | new
    · exact orderly.told other old
    · rw [List.mem_singleton.mp new]
      exact told
  · intro other same made membership
    rcases List.mem_append.mp membership with old | new
    · exact orderly.owned other same made old
    · rw [known] at same
      cases same
      rw [List.mem_singleton.mp new]
      exact peer
  · exact fun other same connected => (orderly.met other same connected).append rfl rfl

theorem Orderly.serve (orderly : Orderly parties state) {client : UdpSocket}
    (known : state.client = some client) {datagram : Datagram}
    (carried : state.Carried (clientAddress parties client) datagram)
    (budget : datagram.payload = request → state.delivered + 1 + state.requests +
      (if state.unsent then 1 else 0) ≤ (if state.called then 1 else 0) + state.duplicated)
    (opening : Opening) (connected : Bool) (listening : datagram.destination = parties.server) :
    Orderly parties (arrive parties opening connected datagram state) := by
  have sender : datagram.payload = request → datagram.source = clientAddress parties client := by
    intro asked
    rcases carried with ⟨source, -⟩ | ⟨port, reply, -⟩
    · exact source
    · exact absurd (reply.symm.trans asked) (request_ne_repServerPort port)
  rw [arrive, if_pos listening]
  rcases handleAcceptUDPComplete_spec parties.server parties.serverBuffer datagram opening with
    ignored | ⟨asked, sock, peer, ⟨answer, told⟩ | ⟨answer, told, status⟩⟩
  · rw [ignored]
    dsimp only
    rw [List.append_nil, List.append_nil]
    refine { orderly with budget := ?_, made := Nat.le_add_right_of_le orderly.made }
    split
    · next asked =>
        have spent := budget asked
        simp only [Exchange.requests] at spent ⊢
        omega
    · exact orderly.budget
  · rw [answer, if_pos asked]
    refine orderly.admit known (peer.trans (sender asked)) (Or.inr told) ?_ (budget asked)
    exact fun _ membership => absurd membership List.not_mem_nil
  · rw [answer, if_pos asked]
    refine orderly.admit known (peer.trans (sender asked)) (Or.inl told) ?_ (budget asked)
    intro reply membership
    rw [List.mem_singleton.mp membership]
    exact ⟨rfl, told, status⟩

theorem requests_eraseIdx {index : Nat} {datagram : Datagram}
    (found : state.inFlight[index]? = some datagram) (asked : datagram.payload = request) :
    Exchange.requests { state with inFlight := state.inFlight.eraseIdx index } + 1 =
      state.requests := by
  obtain ⟨bound, there⟩ := List.getElem?_eq_some_iff.mp found
  have same := (List.getElem_cons_eraseIdx_perm bound).countP_eq
    fun datagram => datagram.payload = request
  rw [there, List.countP_cons_of_pos (by simpa using asked)] at same
  exact same

theorem Orderly.deliver (orderly : Orderly parties state) (index : Nat) (opening : Opening)
    (connected : Bool) : Orderly parties (step parties state (.deliver index opening connected)) := by
  rw [step]
  split
  · next datagram found =>
      have there : datagram ∈ state.inFlight := List.mem_of_getElem? found
      have lost := orderly.lose index
      obtain absent | ⟨client, known⟩ := Option.eq_none_or_eq_some state.client
      · rw [(orderly.quiet absent).1] at there
        cases there
      · have carried := orderly.carried client known datagram there
        by_cases listening : datagram.destination = parties.server
        · refine lost.serve known carried ?_ opening connected listening
          intro asked
          have taken := requests_eraseIdx found asked
          have before := orderly.budget
          dsimp only
          omega
        · rw [arrive, if_neg listening]
          dsimp only
          split
          · next sock same =>
              rw [known] at same
              cases same
              split
              · exact lost.read known carried connected
              · exact lost
          · exact lost
  · exact orderly

theorem Orderly.step (orderly : Orderly parties state) :
    ∀ action, Orderly parties (step parties state action)
  | .connect opening => orderly.connect opening
  | .send => orderly.send
  | .drop index => orderly.lose index
  | .duplicate index => orderly.duplicate index
  | .deliver index opening connected => orderly.deliver index opening connected
  | .closeServer index => orderly.closeServer index
  | .closeClient => orderly.closeClient

theorem reachable_orderly (reached : (system parties).Reachable state) : Orderly parties state := by
  refine reached.invariant ?_ ?_
  · rintro state rfl
    exact initial_orderly
  · rintro state action _ - orderly rfl
    exact orderly.step action

/-- In every run the server reports a connection for at most one socket more than
the network has made copies of the request, and only for requests that reached
it; the client reports one at most once.  The port that the client has then
connected to is that of a socket which the server has made for it, connected to
its address, and which is open unless the server has closed it. -/
theorem handshake_agrees (reached : (system parties).Reachable state) :
    (state.sockets.countP (fun sock => true ∈ sock.connects) ≤ state.delivered ∧
      state.delivered ≤ 1 + state.duplicated ∧
      ∀ sock ∈ state.sockets, sock.connects.count true ≤ 1) ∧
    ∀ client, state.client = some client → client.connects.count true ≤ 1 ∧
      (true ∈ client.connects → ∃ index sock, state.sockets[index]? = some sock ∧
        sock.localPort = client.client.port ∧ sock.client = clientAddress parties client ∧
        sock.connects = [true] ∧ (index ∉ state.closed → sock.status = .connected)) := by
  have orderly := reachable_orderly reached
  refine ⟨⟨List.countP_le_length.trans orderly.made, ?_, ?_⟩, ?_⟩
  · have spent := orderly.budget
    have calls : (if state.called then 1 else 0) ≤ 1 := by split <;> decide
    omega
  · intro sock membership
    rcases orderly.told sock membership with told | told <;> simp [told]
  · intro client known
    have reported := orderly.reported client known
    refine ⟨?_, ?_⟩
    · rw [reported]
      split <;> decide
    · intro told
      refine orderly.met client known ?_
      by_contra waiting
      rw [if_neg waiting, List.count_eq_zero] at reported
      exact reported told

def neighbours : Parties where
  server := { ip := 1, port := 7000 }
  clientIp := 2
  serverBuffer := 4096
  clientBuffer := 4096

/-- The client asks, the server answers and the client is connected. -/
def meeting : List Action :=
  [.connect { localPort := some 5000 }, .send, .deliver 0 { localPort := some 6000 } true,
    .deliver 0 { localPort := none } true]

/-- The network delivers the request twice. -/
def doubled : List Action :=
  [.connect { localPort := some 5000 }, .send, .duplicate 0,
    .deliver 0 { localPort := some 6000 } true, .deliver 0 { localPort := some 6001 } true]

/-- The server gives its socket up while its answer is under way. -/
def regretted : List Action :=
  [.connect { localPort := some 5000 }, .send, .deliver 0 { localPort := some 6000 } true,
    .closeServer 0, .deliver 0 { localPort := none } true]

def after (actions : List Action) : Exchange := actions.foldl (step neighbours) .initial

theorem after_reachable (actions : List Action) : (system neighbours).Reachable (after actions) := by
  have onward : ∀ state, (system neighbours).Reachable state →
      (system neighbours).Reachable (actions.foldl (step neighbours) state) := by
    induction actions with
    | nil => exact fun _ reached => reached
    | cons action rest inductionHypothesis =>
        exact fun state reached => inductionHypothesis _ (.next reached rfl)
  exact onward _ (.start rfl)

theorem handshake_agrees_meeting :
    (after meeting).client.map (fun client => (client.client.port, client.connects)) =
        some (6000, [true]) ∧
      ∃ index sock, (after meeting).sockets[index]? = some sock ∧ sock.localPort = 6000 ∧
        sock.client = { ip := 2, port := 5000 } ∧
        (index ∉ (after meeting).closed → sock.status = .connected) := by
  have shown : (after meeting).client.map (fun client =>
      (client.localPort, client.client.port, client.connects)) = some (5000, 6000, [true]) := rfl
  obtain ⟨client, known, same⟩ := Option.map_eq_some_iff.mp shown
  simp only [Prod.mk.injEq] at same
  obtain ⟨own, port, told⟩ := same
  have agreed := (handshake_agrees (after_reachable meeting)).2 client known
  obtain ⟨index, sock, found, there, peer, -, status⟩ := agreed.2 (by rw [told]; decide)
  refine ⟨rfl, index, sock, found, there.trans port, peer.trans ?_, status⟩
  rw [clientAddress, own]
  rfl

/-- Two connections for one call, and a port whose socket is closed. -/
theorem doubled_regretted :
    (∃ state, (system neighbours).Reachable state ∧
      ¬state.sockets.countP (fun sock => true ∈ sock.connects) ≤ 1) ∧
    ∃ state client, (system neighbours).Reachable state ∧ state.client = some client ∧
      true ∈ client.connects ∧ ¬∃ sock ∈ state.sockets, sock.status = .connected ∧
        sock.localPort = client.client.port ∧ sock.client = clientAddress neighbours client := by
  refine ⟨⟨after doubled, after_reachable doubled, by decide +kernel⟩, after regretted, _,
    after_reachable regretted, rfl, by decide +kernel, ?_⟩
  rintro ⟨sock, membership, status, -⟩
  have closed : ∀ sock ∈ (after regretted).sockets, sock.status = .closed := by decide +kernel
  rw [closed sock membership] at status
  cases status

end CrossOver.Engine.Network.Handshake
