import CrossOver.Engine.LuaFix
import CrossOver.Engine.Network.Keeping
import CrossOver.Engine.Network.Datagrams

/-!
# Who removes which handlers

A client socket removes its handlers when it is deleted, as they were registered
for it alone.  The constructor takes a socket for a client's if it is not given
a descriptor.  So do the sockets of `AcceptUDP`, and of a TCP accept that
returns descriptor 0, although they carry the handlers of their listener.

The registry belongs to the Lua state and not to the manager.  `Reflects` says
which registries there can be once the log has grown to where it is.
-/

namespace CrossOver.Engine.Network

open CrossOver.Lib CrossOver.Engine.LuaFix

variable {Value : Type} {m : Mgr} {r r' : Registry Value} {listeners others : List (Registration Value)}

/-- What an entry of the log does to the registry. -/
inductive Enters : LogEntry → Registry Value → Registry Value → Prop where
  | connection {r r' : Registry Value} {s : SockRef} {values : List (Value × Option Value)}
      {connectHandle recvHandle closeHandle : HandleInfo} :
      r.register values = some ([connectHandle, closeHandle, recvHandle], r') →
      Enters (.registered s connectHandle recvHandle closeHandle) r r'
  | clientDelete {r : Registry Value} {connectHandle recvHandle closeHandle : HandleInfo} :
      Enters (.clientDeleteTask connectHandle recvHandle closeHandle) r
        (r.removeHandlers [connectHandle, recvHandle, closeHandle])
  | borrowed {r : Registry Value} {s : SockRef} : Enters (.borrowed s) r r
  | plain {r : Registry Value} {entry : LogEntry} : entry.isPlain = true → Enters entry r r

/-- The registry may look so after these entries.  Besides the connections,
listeners register handlers for good, and timers and queries until they are done. -/
inductive Reflects : List LogEntry → Registry Value → List (Registration Value) →
    List (Registration Value) → Prop where
  | initial : Reflects [] .initial [] []
  | entry {log : List LogEntry} {entry : LogEntry} {r r' : Registry Value}
      {listeners others : List (Registration Value)} :
      Reflects log r listeners others → Enters entry r r' →
      Reflects (log ++ [entry]) r' listeners others
  | listen {log : List LogEntry} {r r' : Registry Value}
      {listeners others : List (Registration Value)} {values : List (Value × Option Value)}
      {handles : List HandleInfo} :
      Reflects log r listeners others → r.register values = some (handles, r') →
      Reflects log r' ({ handles := handles, values := values } :: listeners) others
  | schedule {log : List LogEntry} {r r' : Registry Value}
      {listeners others : List (Registration Value)} {values : List (Value × Option Value)}
      {handles : List HandleInfo} :
      Reflects log r listeners others → r.register values = some (handles, r') →
      Reflects log r' listeners ({ handles := handles, values := values } :: others)
  | finish {log : List LogEntry} {r : Registry Value}
      {listeners earlier later : List (Registration Value)} {other : Registration Value} :
      Reflects log r listeners (earlier ++ other :: later) →
      Reflects log (r.removeHandlers other.handles) listeners (earlier ++ later)

def Socket.handlers (sock : Socket) : List HandleInfo :=
  [sock.onconnectedHandler, sock.onrecvHandler, sock.oncloseHandler]

/-- The handlers that a socket will remove and that were registered for it. -/
def Mgr.Owns (m : Mgr) (s : SockRef) (handles : List HandleInfo) : Prop :=
  ∃ sock, m.heap s = some sock ∧ sock.isClient = true ∧ .borrowed s ∉ m.log ∧
    handles = sock.handlers

/-- No socket that carries the handlers of its listener as its own has been deleted. -/
def Mgr.NoneLost (m : Mgr) : Prop := ∀ s, .borrowed s ∈ m.log → m.heap s ≠ none

/-- What the table looks like after every run in which none is lost. -/
structure Provided (Value : Type) (m : Mgr) : Prop where
  known : ∀ s, .borrowed s ∈ m.log → s < m.nextRef
  sound : m.NoneLost → ∀ (r : Registry Value) listeners others,
    Reflects m.log r listeners others → r.Sound m.Owns (listeners ++ others)

/-- Between two entries of the log handlers come and go without the sockets. -/
theorem Reflects.sound_of {owned : SockRef → List HandleInfo → Prop} {log : List LogEntry}
    (initially : log = [] → (Registry.initial : Registry Value).Sound owned [])
    (enters : ∀ earlier entry (r : Registry Value) listeners others r', log = earlier ++ [entry] →
      Reflects earlier r listeners others → Enters entry r r' →
      r'.Sound owned (listeners ++ others))
    (reflects : Reflects log r listeners others) : r.Sound owned (listeners ++ others) := by
  induction reflects with
  | initial => exact initially rfl
  | entry before entered => exact enters _ _ _ _ _ _ rfl before entered
  | listen _ made inductionHypothesis => exact (inductionHypothesis initially enters).register made
  | schedule _ made inductionHypothesis =>
      exact ((inductionHypothesis initially enters).register made).perm List.perm_middle
  | finish _ inductionHypothesis =>
      have sound := inductionHypothesis initially enters
      rw [← List.append_assoc] at sound ⊢
      exact (sound.perm List.perm_middle.symm).release

/-! ## One change -/

section Changes

/-- A change that brings in no client and deletes none. -/
theorem Provided.carry {m' : Mgr} (provided : Provided Value m) (log : m'.log = m.log)
    (nextRef : m.nextRef ≤ m'.nextRef) (lost : m'.NoneLost → m.NoneLost)
    (owns : ∀ s handles, m'.Owns s handles → m.Owns s handles) : Provided Value m' where
  known := fun s borrowed => Nat.lt_of_lt_of_le (provided.known s (log ▸ borrowed)) nextRef
  sound := by
    intro none r listeners others reflects
    rw [log] at reflects
    exact (provided.sound (lost none) r listeners others reflects).mono owns

/-- A change with an entry. -/
theorem Provided.enter {m' : Mgr} {entry : LogEntry} (provided : Provided Value m)
    (log : m'.log = m.log ++ [entry]) (known : ∀ s, entry = .borrowed s → s < m'.nextRef)
    (nextRef : m.nextRef ≤ m'.nextRef) (lost : m'.NoneLost → m.NoneLost)
    (enters : m'.NoneLost → ∀ (r : Registry Value) holders r', r.Sound m.Owns holders →
      Enters entry r r' → r'.Sound m'.Owns holders) : Provided Value m' where
  known := by
    intro s borrowed
    rw [log, List.mem_append, List.mem_singleton] at borrowed
    rcases borrowed with old | new
    · exact Nat.lt_of_lt_of_le (provided.known s old) nextRef
    · exact known s new.symm
  sound := by
    intro none r listeners others reflects
    refine reflects.sound_of (fun empty => by simp [log] at empty) ?_
    intro earlier last r listeners others r' whole before entered
    obtain ⟨rfl, same⟩ := List.append_inj' (log.symm.trans whole) rfl
    cases same
    exact enters none r _ r' (provided.sound (lost none) r listeners others before) entered

theorem owns_of_update (m : Mgr) {m' : Mgr} {s other : SockRef} {object : Option Socket}
    {handles : List HandleInfo} (owns : m'.Owns other handles)
    (heap : m'.heap = Function.update m.heap s object) (log : m.log ⊆ m'.log) :
    other ≠ s ∧ m.Owns other handles ∨
      other = s ∧ ∃ sock, object = some sock ∧ sock.isClient = true ∧ .borrowed s ∉ m'.log ∧
        handles = sock.handlers := by
  obtain ⟨sock, present, client, own, same⟩ := owns
  rw [heap] at present
  by_cases self : other = s
  · subst self
    rw [Function.update_self] at present
    exact Or.inr ⟨rfl, sock, present, client, own, same⟩
  · rw [Function.update_of_ne self] at present
    exact Or.inl ⟨self, sock, present, client, fun borrowed => own (log borrowed), same⟩

theorem noneLost_of_update {m' : Mgr} {s : SockRef} {object : Option Socket}
    (heap : m'.heap = Function.update m.heap s object) (log : m.log ⊆ m'.log)
    (there : .borrowed s ∈ m.log → m.heap s ≠ none) (none : m'.NoneLost) : m.NoneLost := by
  intro other borrowed
  by_cases self : other = s
  · subst self
    exact there borrowed
  · have kept := none other (log borrowed)
    rwa [heap, Function.update_of_ne self] at kept

theorem Provided.frame {m' : Mgr} (provided : Provided Value m) (same : m'.objects = m.objects) :
    Provided Value m' := by
  obtain ⟨heap, rest⟩ := Prod.mk.inj same
  obtain ⟨log, nextRef⟩ := Prod.mk.inj rest
  refine provided.carry log (Nat.le_of_eq nextRef.symm) ?_ ?_
  · intro none s borrowed
    rw [← heap]
    exact none s (log ▸ borrowed)
  · rintro s handles ⟨sock, present, client, own, same⟩
    exact ⟨sock, heap ▸ present, client, log ▸ own, same⟩

theorem Provided.socket (provided : Provided Value m) {s : SockRef} {before after : Socket}
    (present : m.heap s = some before) (same : after.ownership = before.ownership) :
    Provided Value (m.setSocket s after) := by
  refine provided.carry rfl (Nat.le_refl _) ?_ ?_
  · refine noneLost_of_update rfl (List.Subset.refl _) ?_
    intro _ gone
    rw [present] at gone
    cases gone
  · intro other handles owns
    rcases owns_of_update m owns rfl (List.Subset.refl _) with
      ⟨-, old⟩ | ⟨rfl, found, new, client, own, rfl⟩
    · exact old
    · cases new
      simp only [Socket.ownership, Prod.mk.injEq] at same
      obtain ⟨isClient, connect, recv, close⟩ := same
      refine ⟨before, present, isClient ▸ client, own, ?_⟩
      rw [Socket.handlers, Socket.handlers, connect, recv, close]

theorem Provided.record (provided : Provided Value m) {entry : LogEntry}
    (plain : entry.isPlain = true) : Provided Value (m.record entry) := by
  refine provided.enter rfl ?_ (Nat.le_refl _) ?_ ?_
  · rintro s rfl
    cases plain
  · exact fun none s borrowed => none s (List.mem_append_left _ borrowed)
  · intro none r holders r' sound entered
    have same : r' = r := by
      cases entered with
      | connection => cases plain
      | clientDelete => cases plain
      | borrowed => rfl
      | plain => rfl
    subst same
    refine sound.mono ?_
    rintro s handles ⟨sock, present, client, own, same⟩
    exact ⟨sock, present, client, fun borrowed => own (List.mem_append_left _ borrowed), same⟩

theorem Provided.serve (provided : Provided Value m) {sock : Socket} (server : sock.isClient = false) :
    Provided Value { m.setSocket m.nextRef sock with nextRef := m.nextRef + 1 } := by
  refine provided.carry rfl (Nat.le_succ _) ?_ ?_
  · refine noneLost_of_update rfl (List.Subset.refl _) ?_
    exact fun borrowed => absurd (provided.known _ borrowed) (Nat.lt_irrefl _)
  · intro other handles owns
    rcases owns_of_update m owns rfl (List.Subset.refl _) with ⟨-, old⟩ | ⟨-, found, new, client, -⟩
    · exact old
    · cases new
      rw [server] at client
      cases client

theorem Provided.create (provided : Provided Value m) {sock : Socket} {entry : LogEntry}
    (origin : Origin m.nextRef sock entry) :
    Provided Value
      (Mgr.record { m.setSocket m.nextRef sock with nextRef := m.nextRef + 1 } entry) := by
  refine provided.enter rfl ?_ (Nat.le_succ _) ?_ ?_
  · rintro s rfl
    rcases origin with same | same
    · cases same
      exact Nat.lt_succ_self _
    · cases same
  · refine noneLost_of_update rfl (List.subset_append_left _ _) ?_
    exact fun borrowed => absurd (provided.known _ borrowed) (Nat.lt_irrefl _)
  · intro none r holders r' sound entered
    rcases origin with rfl | rfl
    · have same : r' = r := by
        cases entered with
        | borrowed => rfl
        | plain => rfl
      subst same
      refine sound.mono ?_
      intro other handles owns
      rcases owns_of_update m owns rfl (List.subset_append_left _ _) with
        ⟨-, old⟩ | ⟨rfl, -, -, -, own, -⟩
      · exact old
      · exact absurd (List.mem_append_right _ List.mem_cons_self) own
    · cases entered with
      | connection made =>
          have among : sock.handlers ⊆
              [sock.onconnectedHandler, sock.oncloseHandler, sock.onrecvHandler] := by
            simp [Socket.handlers]
          refine (sound.assign made m.nextRef among).mono ?_
          intro other handles owns
          rcases owns_of_update m owns rfl (List.subset_append_left _ _) with
            ⟨differ, old⟩ | ⟨rfl, found, new, -, -, same⟩
          · exact Or.inl ⟨differ, old⟩
          · cases new
            exact Or.inr ⟨rfl, same⟩
      | plain wrong => cases wrong

theorem Provided.delete (provided : Provided Value m) {s : SockRef} {sock : Socket}
    (present : m.heap s = some sock) : Provided Value (m.destroy s sock) := by
  have there : .borrowed s ∈ m.log → m.heap s ≠ none := by
    intro _ gone
    rw [present] at gone
    cases gone
  unfold Mgr.destroy
  split
  · next client =>
      refine provided.enter rfl (by simp) (Nat.le_refl _) ?_ ?_
      · exact noneLost_of_update rfl (List.subset_append_left _ _) there
      · intro none r holders r' sound entered
        cases entered with
        | clientDelete =>
            have own : .borrowed s ∉ m.log := by
              intro borrowed
              refine none s (List.mem_append_left _ borrowed) ?_
              exact Function.update_self ..
            have owns : m.Owns s sock.handlers := ⟨sock, present, client, own, rfl⟩
            refine (sound.part owns).mono ?_
            intro other handles later
            rcases owns_of_update m later rfl (List.subset_append_left _ _) with old | ⟨-, _, gone, -⟩
            · exact old
            · cases gone
        | plain wrong => cases wrong
  · refine provided.carry rfl (Nat.le_refl _) ?_ ?_
    · exact noneLost_of_update rfl (List.Subset.refl _) there
    · intro other handles owns
      rcases owns_of_update m owns rfl (List.Subset.refl _) with ⟨-, old⟩ | ⟨-, _, gone, -⟩
      · exact old
      · cases gone

theorem provided_stable : Stable (Provided Value) where
  frame := fun _ _ same provided => provided.frame same
  socket := fun _ _ _ _ present same provided => provided.socket present same
  record := fun _ _ plain provided => provided.record plain
  serve := fun _ _ server provided => provided.serve server
  create := fun _ _ _ origin provided => provided.create origin
  delete := fun _ _ _ present provided => provided.delete present

end Changes

theorem initial_provided : Provided Value Mgr.initial where
  known := fun _ borrowed => absurd borrowed List.not_mem_nil
  sound := by
    intro _ r listeners others reflects
    refine reflects.sound_of ?_ ?_
    · exact fun _ => .initial fun _ _ ⟨_, present, _⟩ => nomatch present
    · exact fun _ _ _ _ _ _ wrong => absurd wrong (by simp [Mgr.initial])

/-! ## Listeners -/

/-- In every run, between two steps and at every point of a step, the handlers of
every listener lead to what was registered, as long as no socket that carries
the handlers of its listener as its own has been deleted. -/
theorem listeners_stand (reached : system.Reachable m) (step : Step) (point : Mgr)
    (passed : point = m ∨ point ∈ (step.exec m).2.seen) (none : point.NoneLost)
    (reflects : Reflects point.log r listeners others) :
    ∀ listener ∈ listeners, listener.Stands r := by
  have provided : Provided Value m := reachable_keeps provided_stable initial_provided reached
  have there : Provided Value point := by
    rcases passed with rfl | seen
    · exact provided
    · exact (exec_keeps provided_stable step provided).2 point seen
  intro listener membership
  exact (there.sound none r listeners others reflects).stands (List.mem_append_left _ membership)

/-- The handlers that the first registered functions get. -/
def hostConfig : Config where
  onconnectedHandler := { funId := 1 }
  oncloseHandler := { funId := 2 }
  onrecvHandler := { funId := 3 }
  sendBufferSize := 4096
  recvBufferSize := 4096

/-- A UDP server takes a connection. -/
def welcome : Step where
  op := .eventLoop 0 [[.listenUdp hostConfig (leBytes 4 8 ++ connectRequest) true]]
  scripts := []
  epollResults := []
  udpConnects := []

/-- The peer goes. -/
def farewell : Step where
  op := .eventLoop 0 [[.socket 0 { epollHup := true } [] []]]
  scripts := []
  epollResults := []
  udpConnects := []

def welcomed : Mgr := (welcome.exec Mgr.initial).2.mgr

def departed : Mgr := (farewell.exec welcomed).2.mgr

/-- What the server has registered before, with numbers for functions. -/
def host : Registration Nat where
  handles := [hostConfig.onconnectedHandler, hostConfig.oncloseHandler, hostConfig.onrecvHandler]
  values := [(10, none), (11, none), (12, none)]

def attending : Registry Nat :=
  ((Registry.initial.register host.values).map Prod.snd).getD .initial

theorem attending_reflects : Reflects [] attending [host] [] := by
  have registered : Registry.initial.register host.values = some (host.handles, attending) := rfl
  exact .listen .initial registered

theorem welcomed_reachable : system.Reachable welcomed := .next (.start rfl) ⟨rfl, rfl⟩

theorem welcomed_reflects : Reflects welcomed.log attending [host] [] :=
  .entry (.entry attending_reflects .borrowed) (.plain rfl)

theorem listeners_stand_welcomed :
    welcomed.NoneLost ∧ host.functions = [(1, 10), (2, 11), (3, 12)] ∧ host.Stands attending := by
  have none : welcomed.NoneLost := by
    intro s borrowed
    have zero : s = 0 := by
      change .borrowed s ∈ [LogEntry.borrowed 0, .connectTask 0 1 true] at borrowed
      simpa using borrowed
    rw [zero]
    exact Option.some_ne_none _
  exact ⟨none, rfl, listeners_stand welcomed_reachable farewell welcomed (Or.inl rfl) none
    welcomed_reflects host List.mem_cons_self⟩

/-- With the connection go the handlers of the server. -/
theorem departed_unregistered : ∃ m, ∃ r : Registry Nat, system.Reachable m ∧
    Reflects m.log r [host] [] ∧ r.functions.get hostConfig.onrecvHandler.funId = none ∧
    ¬host.Stands r := by
  have reflects : Reflects departed.log (attending.removeHandlers [hostConfig.onconnectedHandler,
      hostConfig.onrecvHandler, hostConfig.oncloseHandler]) [host] [] :=
    .entry (.entry welcomed_reflects (.plain rfl)) .clientDelete
  refine ⟨departed, _, .next welcomed_reachable ⟨rfl, rfl⟩, reflects, rfl, ?_⟩
  intro stands
  have called := stands.1 (3, 12) (by decide)
  cases called

end CrossOver.Engine.Network
