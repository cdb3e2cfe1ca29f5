import CrossOver.Engine.Network.Runs

/-!
# References and callbacks of TCP sockets

What the lives of the sockets say about the manager: the counts agree with the
references that exist, nothing refers to a deleted socket, and the callbacks of
a socket come in order.
-/

namespace CrossOver.Engine.Network

open CrossOver.Lib

namespace Mgr

def registered (m : Mgr) (s : SockRef) : Bool := decide (s ∈ m.socketMap.map Prod.snd)

/-- The references to `s` that exist: the map's, the queue's and the running iteration's. -/
def references (m : Mgr) (s : SockRef) : Nat :=
  (if m.registered s then 1 else 0) + m.eventQueue.countP (fun event => event.s = s) +
    m.held.count s

def logOf (m : Mgr) (s : SockRef) : List LogEntry :=
  m.log.filter fun entry => entry.subject = some s

def callbacks (m : Mgr) (s : SockRef) : List Callback := traceOf (m.logOf s)

end Mgr

section Accounting

variable {m : Mgr} {s : SockRef} {sock : Socket}

theorem registered_iff : m.registered s = true ↔ (m.view s).names ≠ [] := by
  simp only [Mgr.registered, decide_eq_true_eq, ne_eq, Mgr.view, List.map_eq_nil_iff,
    List.filter_eq_nil_iff, List.mem_map]
  constructor
  · rintro ⟨entry, inside, same⟩ none
    exact none entry inside (by simpa using same)
  · intro some
    by_contra missing
    exact some fun entry inside same => missing ⟨entry, inside, by simpa using same⟩

/-- The references of a socket that the map holds at most once. -/
theorem references_view (single : (m.view s).names ≠ [] → ∃ name, (m.view s).names = [name]) :
    m.references s = (m.view s).refs := by
  have queued : m.eventQueue.countP (fun event => event.s = s) = (m.view s).events.length := by
    simp [Mgr.view, List.countP_eq_length_filter]
  have mapped : (if m.registered s then 1 else 0) = (m.view s).names.length := by
    by_cases named : (m.view s).names = []
    · have absent : m.registered s = false := by
        rw [Bool.eq_false_iff]
        exact fun present => registered_iff.mp present named
      simp [absent, named]
    · obtain ⟨name, names⟩ := single named
      simp [registered_iff.mpr named, names]
  rw [Mgr.references, mapped, queued]
  rfl

theorem Consistent.references_eq (consistent : Consistent m) (s : SockRef) :
    m.references s = (m.view s).refs := by
  apply references_view
  intro named
  obtain ⟨holder, _, names⟩ := (consistent.good s).outline.named named
  exact ⟨holder.connIdx, names⟩

/-- A reference that exists keeps its socket alive. -/
theorem Consistent.alive (consistent : Consistent m) (used : (m.view s).refs ≠ 0) :
    m.heap s ≠ none := by
  intro gone
  have missing : (m.view s).outline.sock = none := by
    simp [View.outline, Mgr.view, gone]
  obtain ⟨names, events, held, _⟩ := (consistent.good s).outline.gone missing
  apply used
  have unnamed : (m.view s).names = [] := names
  have unqueued : (m.view s).events.length = 0 := events
  have unheld : (m.view s).held = 0 := held
  simp [View.refs, unnamed, unqueued, unheld]

/-- The counts are exact and nothing refers to a deleted socket. -/
structure Exact (m : Mgr) : Prop where
  counted : ∀ s sock, m.heap s = some sock → sock.count = m.references s
  deleted : ∀ s, s < m.nextRef → (m.heap s = none ↔ m.references s = 0)
  mapped : ∀ entry ∈ m.socketMap, m.heap entry.2 ≠ none
  queued : ∀ event ∈ m.eventQueue, m.heap event.s ≠ none
  held : ∀ s ∈ m.held, m.heap s ≠ none
  batched : ∀ s ∈ m.batch, m.heap s ≠ none

theorem Consistent.exact (consistent : Consistent m) : Exact m where
  counted := by
    intro s sock present
    rw [consistent.references_eq]
    exact ((consistent.good s).outline.counted _ (View.outline_sock present)).1
  deleted := by
    intro s _
    rw [consistent.references_eq]
    constructor
    · intro gone
      by_contra used
      exact consistent.alive used gone
    · intro unused
      cases present : m.heap s with
      | none => rfl
      | some sock =>
          have positive := ((consistent.good s).outline.counted _ (View.outline_sock present)).2
          exact absurd unused (Nat.ne_of_gt positive)
  mapped := by
    intro entry inside
    obtain ⟨sock, present, _⟩ := consistent.found inside
    simp [present]
  queued := by
    intro event inside
    apply consistent.alive
    rw [← consistent.references_eq, Mgr.references]
    have positive : 0 < m.eventQueue.countP fun other => other.s = event.s :=
      List.countP_pos_iff.mpr ⟨event, inside, by simp⟩
    omega
  held := by
    intro s inside
    apply consistent.alive
    rw [← consistent.references_eq, Mgr.references]
    have positive := List.count_pos_iff.mpr inside
    omega
  batched := by
    intro s inside
    have waiting : (m.view s).unprocessed ≠ 0 := Nat.ne_of_gt (List.count_pos_iff.mpr inside)
    obtain ⟨_, named, _⟩ := (consistent.good s).outline.batched waiting
    obtain ⟨identity, holds, _⟩ := (consistent.good s).outline.named named
    intro gone
    simp [View.outline, Mgr.view, gone] at holds

/-- At every point of every run the counts are exact, and no step uses a deleted
socket: it returns or goes on for ever. -/
theorem references_exact (reached : tcpSystem.Reachable m) (step : Step) (tcp : step.Tcp) :
    Exact m ∧ (∀ point ∈ step.points m, Exact point) ∧
      ∀ fault, (step.exec m).1 = .error fault → fault = .idsExhausted ∨ fault = .diverges := by
  have idle := reached_idle reached tcp
  refine ⟨idle.sane.1.exact, ?_, ?_⟩
  · intro point passed
    exact (points_consistent idle tcp point passed).exact
  · intro fault failed
    exact exec_fault idle tcp failed

/-! ### A short visit -/

def visitorConfig : Config where
  onconnectedHandler := { funId := 1 }
  oncloseHandler := { funId := 2 }
  onrecvHandler := { funId := 3 }
  sendBufferSize := 16
  recvBufferSize := 16

/-- A peer connects. -/
def arrival : Step where
  op := .eventLoop 0 [[.listenTcp visitorConfig (some 7)]]
  scripts := []
  epollResults := []
  udpConnects := []

/-- It sends a frame, the callback answers and asks for the end, and it hangs up. -/
def departure : Step where
  op := .eventLoop 0
    [[.socket 0 { epollIn := true } [.bytes [1, 0, 0, 0, 42]] []],
      [.socket 0 { epollHup := true } [] []]]
  scripts := [[.sendMsg 1 ⟨[43], by decide⟩, .disconnect 1]]
  epollResults := []
  udpConnects := []

def visited : Mgr := (arrival.exec Mgr.initial).2.mgr

theorem arrival_tcp : arrival.Tcp := by
  simp [Step.Tcp, Op.Tcp, arrival, Entry.Tcp]

theorem departure_tcp : departure.Tcp := by
  simp [Step.Tcp, Op.Tcp, departure, Entry.Tcp, LuaCall.Tcp]

theorem visited_reachable : tcpSystem.Reachable visited :=
  .next (.start rfl) ⟨arrival_tcp, rfl, rfl⟩

/-- The answer and the request are still queued when the socket has left the map. -/
theorem references_exact_departure :
    (departure.exec visited).1 = .ok () ∧ (departure.exec visited).2.mgr.references 0 = 2 ∧
      (departure.exec visited).2.mgr.registered 0 = false ∧
      Exact (departure.exec visited).2.mgr :=
  ⟨rfl, rfl, rfl,
    (references_exact visited_reachable departure departure_tcp).2.1 _ List.mem_cons_self⟩

/-! ## Callbacks -/

/-- The callbacks of every socket come in order, and a socket that no handler is
busy with is in the map as long as its status says so. -/
structure Orderly (m : Mgr) : Prop where
  callbacks : ∀ s, m.callbacks s <+: [.connect false] ∨
    ∃ bodies : List Bytes, m.callbacks s <+: .connect true :: bodies.map .recv ++ [.close]
  mapped : ∀ s, s ∉ m.held → (m.registered s = true ↔ ∃ sock, m.heap s = some sock ∧
    (sock.status = .connecting ∨ sock.status = .connected ∨ sock.status = .closing))

theorem View.Good.ordered {v : View} (good : v.Good) :
    v.trace <+: [.connect false] ∨
      ∃ bodies : List Bytes, v.trace <+: .connect true :: bodies.map .recv ++ [.close] := by
  have silent : v.trace = [] → v.trace <+: [.connect false] := by
    intro empty
    rw [empty]
    exact List.nil_prefix
  cases present : v.sock with
  | none =>
      have gone : v.outline.sock = none := by simp [View.outline, present]
      rcases (good.outline.gone gone).2.2.2 with empty | finished
      · exact Or.inl (silent empty)
      · exact Finished.ordered finished
  | some sock =>
      cases status : sock.status with
      | connecting =>
          rcases (phaseOf status good present).2 with empty | failing
          · exact Or.inl (silent empty)
          · have single : v.trace = [.connect false] := failing.1
            rw [single]
            exact Or.inl (List.prefix_refl _)
      | connected => exact Or.inr (Talking.ordered (phaseOf status good present).2)
      | closing => exact Or.inr (Talking.ordered (phaseOf status good present).2)
      | closed => exact Finished.ordered (phaseOf status good present).1
      | listening => exact absurd (phaseOf status good present) id

theorem Consistent.orderly (consistent : Consistent m) : Orderly m where
  callbacks := fun s => (consistent.good s).ordered
  mapped := by
    intro s unheld
    have good := consistent.good s
    have idle : (m.view s).held = 0 := List.count_eq_zero_of_not_mem unheld
    rw [registered_iff]
    constructor
    · intro named
      obtain ⟨_, holds, _⟩ := good.outline.named named
      obtain ⟨sock, present, _⟩ := Option.map_eq_some_iff.mp holds
      refine ⟨sock, present, ?_⟩
      cases status : sock.status with
      | connecting => exact Or.inl rfl
      | connected => exact Or.inr (Or.inl rfl)
      | closing => exact Or.inr (Or.inr rfl)
      | closed => exact absurd idle ((phaseOf status good present).2 named)
      | listening => exact absurd (phaseOf status good present) id
    · rintro ⟨sock, present, connecting | connected | closing⟩
      · exact (phaseOf connecting good present).1
      · exact (phaseOf connected good present).1
      · exact (phaseOf closing good present).1

/-- Between two steps nothing is held, so there the map is the set of open sockets. -/
theorem callbacks_orderly (reached : tcpSystem.Reachable m) (step : Step) (tcp : step.Tcp) :
    Orderly m ∧ m.held = [] ∧ ∀ point ∈ step.points m, Orderly point := by
  have idle := reached_idle reached tcp
  refine ⟨idle.sane.1.orderly, idle.held, ?_⟩
  intro point passed
  exact (points_consistent idle tcp point passed).orderly

theorem callbacks_orderly_departure :
    (departure.exec visited).2.mgr.callbacks 0 = [.connect true, .recv [42], .close] ∧
      Orderly (departure.exec visited).2.mgr :=
  ⟨rfl, (callbacks_orderly visited_reachable departure departure_tcp).2.2 _ List.mem_cons_self⟩

end Accounting

end CrossOver.Engine.Network
