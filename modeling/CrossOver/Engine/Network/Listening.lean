import CrossOver.Engine.Network.EventLoop

/-!
# Listening descriptors

What waits at a listening descriptor, and when `epoll_wait` reports it.  The
descriptors are registered edge-triggered: one is reported only if something has
arrived since it was last reported.  Its handler calls `accept` or `recvfrom`
once.

Arrivals may come at any time, also between the handlers of a batch.
-/

namespace CrossOver.Engine.Network.Listening

open CrossOver.Lib

inductive Arrival where
  | connection (aSocket : Nat)
  | datagram (data : Bytes)
  deriving DecidableEq, Repr

/-- `TCPListenSocket` and `UDPListenSocket` with their descriptor in the kernel. -/
structure Listener where
  socketType : SocketType
  config : Config
  /-- what waits at the descriptor -/
  backlog : List Arrival
  /-- something has arrived that has not been reported -/
  edge : Bool
  deriving DecidableEq, Repr

namespace Listener

def arrive (listener : Listener) (arrival : Arrival) : Listener :=
  { listener with backlog := listener.backlog ++ [arrival], edge := true }

def report (listener : Listener) : Listener := { listener with edge := false }

/-- The result of `accept` or `recvfrom`: the first that waits, unless the call fails. -/
def take (listener : Listener) (succeeds : Bool) : Option Arrival × Listener :=
  if succeeds then (listener.backlog.head?, { listener with backlog := listener.backlog.tail })
  else (none, listener)

/-- What the loop processes for a reported listener. -/
def entry (listener : Listener) (taken : Option Arrival) (established : Bool) : Entry :=
  match listener.socketType, taken with
  | .tcp, some (.connection aSocket) => .listenTcp listener.config (some aSocket)
  | .tcp, _ => .listenTcp listener.config none
  | .udp, some (.datagram data) => .listenUdp listener.config data established
  | .udp, _ => .listenUdp listener.config [] established

def Heard (listener : Listener) : Prop := listener.backlog ≠ [] → listener.edge = true

end Listener

structure Environment where
  scripts : List (List LuaCall)
  epollResults : List Bool
  udpConnects : List Bool
  heirs : List (Option SockRef) := []

def Environment.start (environment : Environment) (m : Mgr) : World where
  mgr := m
  scripts := environment.scripts
  epollResults := environment.epollResults
  udpConnects := environment.udpConnects
  heirs := environment.heirs
  seen := []

structure State where
  listeners : Nat → Listener
  /-- listeners of the current batch that have not been handled -/
  reported : List Nat
  mgr : Mgr

inductive Action where
  | arrive (i : Nat) (arrival : Arrival)
  | wait (reported : List Nat)
  | handle (succeeds established : Bool) (environment : Environment)

inductive Steps : State → Action → State → Prop where
  | arrive {state : State} {i : Nat} {arrival : Arrival} :
      Steps state (.arrive i arrival)
        { state with listeners :=
            Function.update state.listeners i ((state.listeners i).arrive arrival) }
  | wait {state : State} {reported : List Nat} :
      state.reported = [] → (∀ i ∈ reported, (state.listeners i).edge = true) → reported.Nodup →
      Steps state (.wait reported)
        { state with
          listeners := fun i =>
            if i ∈ reported then (state.listeners i).report else state.listeners i
          reported := reported }
  | handle {state : State} {i : Nat} {rest : List Nat} {succeeds established : Bool}
      {environment : Environment} {w : World} :
      state.reported = i :: rest →
      processEntry ((state.listeners i).entry ((state.listeners i).take succeeds).1 established)
        (environment.start state.mgr) = (.ok (), w) →
      Steps state (.handle succeeds established environment)
        { listeners := Function.update state.listeners i ((state.listeners i).take succeeds).2
          reported := rest
          mgr := w.mgr }

def system : System State Action where
  initial state := (∀ i, (state.listeners i).backlog = [] ∧ (state.listeners i).edge = false) ∧
    state.reported = [] ∧ state.mgr = Mgr.initial
  step := Steps

/-- When a handler runs, no more waits than it takes, or there will be a new report. -/
def Prompt (state : State) : Action → Prop
  | .handle succeeds _ _ => ∀ i ∈ state.reported.head?,
      (state.listeners i).edge = true ∨
        (state.listeners i).backlog.length ≤ if succeeds then 1 else 0
  | _ => True

theorem take_heard_iff (listener : Listener) (succeeds : Bool) :
    (listener.take succeeds).2.Heard ↔
      listener.edge = true ∨ listener.backlog.length ≤ if succeeds then 1 else 0 := by
  obtain ⟨socketType, config, backlog, edge⟩ := listener
  unfold Listener.Heard Listener.take
  cases succeeds with
  | true => rcases backlog with _ | ⟨first, _ | ⟨second, rest⟩⟩ <;> simp
  | false => rcases backlog with _ | ⟨first, rest⟩ <;> simp

/-- Whoever waits will be heard of, or the listener is being reported. -/
def Attended (state : State) : Prop :=
  state.reported.Nodup ∧ ∀ i, i ∉ state.reported → (state.listeners i).Heard

theorem Steps.attended {state state' : State} {action : Action} (step : Steps state action state')
    (prompt : Prompt state action) (attended : Attended state) : Attended state' := by
  obtain ⟨once, heard⟩ := attended
  cases step with
  | @arrive i arrival =>
      refine ⟨once, ?_⟩
      intro j unreported
      by_cases same : j = i
      · subst same
        dsimp only
        rw [Function.update_self]
        exact fun _ => rfl
      · dsimp only
        rw [Function.update_of_ne same]
        exact heard j unreported
  | @wait reported idle edges once =>
      refine ⟨once, ?_⟩
      intro j unreported
      dsimp only
      rw [if_neg unreported]
      exact heard j (by simp [idle])
  | @handle i rest succeeds established environment w next run =>
      rw [next] at once heard
      refine ⟨once.of_cons, ?_⟩
      intro j unreported
      by_cases same : j = i
      · subst same
        dsimp only
        rw [Function.update_self]
        exact (take_heard_iff _ _).mpr (prompt j (by simp [next]))
      · dsimp only
        rw [Function.update_of_ne same]
        exact heard j (by simp [same, unreported])

/-- In every run in which no handler leaves more behind than a new report will
fetch, between two batches whoever waits at a listener will be heard of. -/
theorem none_stranded {state : State} (reached : (system.restrict Prompt).Reachable state)
    (between : state.reported = []) (i : Nat) :
    (state.listeners i).backlog ≠ [] → (state.listeners i).edge = true := by
  have attended : Attended state := by
    refine reached.invariant ?_ ?_
    · rintro start ⟨empty, idle, -⟩
      refine ⟨by simp [idle], ?_⟩
      intro j _ waiting
      exact absurd (empty j).1 waiting
    · rintro before action after - attended ⟨prompt, step⟩
      exact step.attended prompt attended
  exact attended.2 i (by simp [between])

def hostConfig : Config where
  onconnectedHandler := { funId := 1 }
  oncloseHandler := { funId := 2 }
  onrecvHandler := { funId := 3 }
  sendBufferSize := 4096
  recvBufferSize := 4096

/-- Listeners of one kind at which nothing has arrived. -/
def quiet (socketType : SocketType) : State where
  listeners _ := { socketType := socketType, config := hostConfig, backlog := [], edge := false }
  reported := []
  mgr := Mgr.initial

/-- Nothing out of the ordinary happens while a handler runs. -/
def calm : Environment where
  scripts := []
  epollResults := []
  udpConnects := []

def State.arrive (state : State) (arrival : Arrival) : State :=
  { state with listeners := Function.update state.listeners 0 ((state.listeners 0).arrive arrival) }

def State.wait (state : State) : State :=
  { state with
    listeners := fun i => if i ∈ [0] then (state.listeners i).report else state.listeners i
    reported := [0] }

def State.handle (state : State) : State where
  listeners := Function.update state.listeners 0 ((state.listeners 0).take true).2
  reported := []
  mgr := (processEntry ((state.listeners 0).entry ((state.listeners 0).take true).1 true)
    (calm.start state.mgr)).2.mgr

/-- Another comes while the first is handled. -/
def overlapping : State :=
  (((quiet .tcp).arrive (.connection 5)).wait.arrive (.connection 6)).handle

/-- Two come before anything is reported. -/
def crowded (socketType : SocketType) (one other : Arrival) : State :=
  (((quiet socketType).arrive one).arrive other).wait.handle

section Runs

variable {guard : State → Action → Prop} {state : State}

theorem quiet_reachable (socketType : SocketType) :
    (system.restrict guard).Reachable (quiet socketType) :=
  .start ⟨fun _ => ⟨rfl, rfl⟩, rfl, rfl⟩

theorem arrive_reachable {arrival : Arrival} (reached : (system.restrict guard).Reachable state)
    (allowed : guard state (.arrive 0 arrival)) :
    (system.restrict guard).Reachable (state.arrive arrival) := .next reached ⟨allowed, .arrive⟩

theorem wait_reachable (reached : (system.restrict guard).Reachable state)
    (allowed : guard state (.wait [0])) (idle : state.reported = [])
    (edge : (state.listeners 0).edge = true) : (system.restrict guard).Reachable state.wait := by
  refine .next reached ⟨allowed, .wait idle ?_ (by simp)⟩
  intro i reported
  rw [List.mem_singleton.mp reported]
  exact edge

theorem handle_reachable (reached : (system.restrict guard).Reachable state)
    (allowed : guard state (.handle true true calm)) (reported : state.reported = [0])
    (ends : (processEntry ((state.listeners 0).entry ((state.listeners 0).take true).1 true)
      (calm.start state.mgr)).1 = .ok ()) :
    (system.restrict guard).Reachable state.handle :=
  .next reached ⟨allowed, .handle reported (Prod.ext ends rfl)⟩

end Runs

theorem none_stranded_overlapping :
    overlapping.reported = [] ∧ (overlapping.listeners 0).backlog = [.connection 6] ∧
      (overlapping.listeners 0).edge = true := by
  have prompt : Prompt (((quiet .tcp).arrive (.connection 5)).wait.arrive (.connection 6))
      (.handle true true calm) := by
    rintro _ ⟨⟩
    exact Or.inl rfl
  have reached : (system.restrict Prompt).Reachable overlapping :=
    handle_reachable (arrive_reachable (wait_reachable
      (arrive_reachable (quiet_reachable .tcp) trivial) trivial rfl rfl) trivial) prompt rfl rfl
  exact ⟨rfl, rfl, none_stranded reached rfl 0 (List.cons_ne_nil _ _)⟩

def connectDatagram : Arrival := .datagram (leBytes 4 8 ++ connectRequest)

theorem crowded_reachable {socketType : SocketType} {one other : Arrival}
    (ends : (processEntry ((quiet socketType).listeners 0 |>.entry (some one) true)
      (calm.start Mgr.initial)).1 = .ok ()) :
    system.Reachable (crowded socketType one other) := by
  have arrived : (system.restrict fun _ _ => True).Reachable
      (((quiet socketType).arrive one).arrive other) :=
    arrive_reachable (arrive_reachable (quiet_reachable socketType) trivial) trivial
  exact (handle_reachable (wait_reachable arrived trivial rfl rfl) trivial rfl ends).of_restrict

/-- Of two that come at once the second waits unheard, at either kind of listener. -/
theorem crowded_stranded :
    (∃ state, system.Reachable state ∧ state.reported = [] ∧
      (state.listeners 0).socketType = .tcp ∧
      ¬((state.listeners 0).backlog ≠ [] → (state.listeners 0).edge = true)) ∧
    ∃ state, system.Reachable state ∧ state.reported = [] ∧
      (state.listeners 0).socketType = .udp ∧
      ¬((state.listeners 0).backlog ≠ [] → (state.listeners 0).edge = true) := by
  refine ⟨⟨crowded .tcp (.connection 5) (.connection 6), crowded_reachable rfl, rfl, rfl, ?_⟩,
    ⟨crowded .udp connectDatagram connectDatagram, crowded_reachable rfl, rfl, rfl, ?_⟩⟩
  · exact fun heard => Bool.noConfusion (heard (List.cons_ne_nil _ _))
  · exact fun heard => Bool.noConfusion (heard (List.cons_ne_nil _ _))

end CrossOver.Engine.Network.Listening
