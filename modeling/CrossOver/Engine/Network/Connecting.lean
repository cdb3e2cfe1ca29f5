import CrossOver.Engine.Network.Bursts
import CrossOver.Engine.Network.Numbers

/-!
# The answer to a connect request

`lua_tcpclient_connectex` returns nothing to the script, so the connect callback
is the only answer to a request.  A socket that `SocketMgr::ConnectEx` keeps
waits for an event of its own; one that it deletes has no callback any more.
A socket is evicted when `RemoveSocket` deletes its descriptor number from the
epoll set for a UDP socket that had the number before; then no event will come.

A course is a run as the list of the managers it has passed, the last one first.
-/

namespace CrossOver.Engine.Network

open CrossOver.Lib

def Callback.result : Callback → Option Bool
  | .connect isSuccess => some isSuccess
  | _ => none

namespace Mgr

def connects (m : Mgr) (s : SockRef) : List Bool := (m.callbacks s).filterMap Callback.result

/-- An event is outstanding for the connect request of `s`. -/
def Asking (m : Mgr) (s : SockRef) : Prop :=
  ∃ sock, m.heap s = some sock ∧ sock.status = .connecting ∧ m.interest s ≠ none

/-- `RemoveSocket` has passed its descriptor number to `epoll_ctl` for another socket. -/
def Evicted (m : Mgr) (s : SockRef) : Prop := .evicted s ∈ m.log

instance (m : Mgr) (s : SockRef) : Decidable (m.Evicted s) :=
  inferInstanceAs (Decidable (_ ∈ _))

end Mgr

namespace Flags

/-- The event settles a connect request. -/
def decisive (events : Flags) : Bool := events.epollOut || events.epollHup || events.epollErr

def establishes (events : Flags) : Bool :=
  events.epollOut && !(events.epollHup || events.epollErr)

end Flags

/-- Completed steps, with the points between them. -/
inductive Course : List Mgr → Prop where
  | start : Course [Mgr.initial]
  | next {m : Mgr} {earlier : List Mgr} (step : Step) : Course (m :: earlier) →
      (step.exec m).1 = .ok () →
      Course ((step.exec m).2.mgr :: (step.exec m).2.seen ++ m :: earlier)

/-- A request leads from the one manager to the other: no callback is made in
between, and scripts have a point before and behind every call. -/
def Requests (config : Config) (outcome : ConnectOutcome) (accepted : Bool)
    (before after : Mgr) : Prop :=
  ∃ w w' connIdx, w.mgr = before ∧ w.epollResults.headD true = accepted ∧
    connectEx config outcome w = (.ok connIdx, w') ∧ w'.mgr = after

section Answers

variable {m : Mgr} {s : SockRef} {w w' : World} {sock : Socket}

theorem Mgr.callbacks_view (m : Mgr) (s : SockRef) :
    m.callbacks s = (m.view s).standing.trace := rfl

/-! ## Callbacks in their order -/

/-- The first callback is the answer, and no other one is. -/
theorem Ordered.answer {trace : List Callback} (ordered : Ordered trace) (heard : trace ≠ []) :
    ∃ isSuccess, trace.filterMap Callback.result = [isSuccess] := by
  obtain ⟨callback, rest, rfl⟩ := List.exists_cons_of_ne_nil heard
  rcases ordered with ordered | ⟨bodies, ordered⟩
  · obtain ⟨rfl, last⟩ := List.cons_prefix_cons.mp ordered
    rw [List.prefix_nil.mp last]
    exact ⟨false, rfl⟩
  · rw [List.cons_append] at ordered
    obtain ⟨rfl, later⟩ := List.cons_prefix_cons.mp ordered
    have silent : rest.filterMap Callback.result = [] := by
      rw [List.filterMap_eq_nil_iff]
      intro callback inside
      rcases List.mem_append.mp (later.subset inside) with received | closed
      · obtain ⟨body, _, rfl⟩ := List.mem_map.mp received
        rfl
      · rw [List.mem_singleton.mp closed]
        rfl
    refine ⟨true, ?_⟩
    rw [List.filterMap_cons, silent]
    rfl

theorem not_evicted (spared : ¬m.Evicted s) :
    (m.view s).log.any LogEntry.isEvicted = false := by
  rw [List.any_eq_false]
  intro entry membership evicts
  obtain ⟨inside, about⟩ := List.mem_filter.mp membership
  cases entry with
  | evicted other =>
      have same : other = s := by simpa [LogEntry.subject] using about
      exact spared (same ▸ inside)
  | _ => cases evicts

/-- Whoever does not wait for an event any more and has not been evicted has been answered. -/
theorem Kept.answered {busy : List SockRef} (kept : Kept busy m) (spared : ¬m.Evicted s)
    (answerable : (m.view s).standing.Answerable) (idle : ¬m.Asking s) :
    ∃ isSuccess, m.connects s = [isSuccess] := by
  refine ((kept.good s).ordered answerable.kept).answer fun silent => idle ?_
  obtain ⟨face, holds, connecting, registered⟩ := answerable.awaited silent
  obtain ⟨sock, present, rfl⟩ := Option.map_eq_some_iff.mp holds
  change ((m.interest s).isSome || (m.view s).log.any LogEntry.isEvicted) = true at registered
  rw [not_evicted spared, Bool.or_false] at registered
  exact ⟨sock, present, connecting, Option.isSome_iff_ne_none.mp registered⟩

/-! ## A request -/

def Waits (s : SockRef) (m : Mgr) : Prop := (m.view s).standing.Answerable

/-- The socket of a request for which nothing will come. -/
def Forgotten (s : SockRef) (m : Mgr) : Prop := ¬m.Asking s ∧ m.connects s = []

theorem forgotten_of_blank (blank : m.view s = .blank) : Forgotten s m := by
  refine ⟨?_, ?_⟩
  · rintro ⟨sock, present, _⟩
    have gone : m.heap s = none := congrArg View.sock blank
    exact absurd (gone.symm.trans present) (by simp)
  · rw [Mgr.connects, Mgr.callbacks_view, blank]
    rfl

theorem forgotten_of_refused {names : List Nat} (refused : m.view s =
    { View.blank with sock := some sock, names := names, log := [.epollError s] }) :
    Forgotten s m := by
  refine ⟨?_, ?_⟩
  · rintro ⟨_, _, _, registered⟩
    exact registered (congrArg View.interest refused)
  · rw [Mgr.connects, Mgr.callbacks_view, refused]
    rfl

theorem waits_of_born {names : List Nat} {interest : Interest} (born : m.view s =
    { View.blank with
      sock := some sock, names := names, interest := some interest })
    (tcp : sock.socketType = .tcp) (connecting : sock.status = .connecting) : Waits s m := by
  rw [Waits, born]
  refine ⟨?_, rfl, fun _ => ⟨_, rfl, connecting, rfl⟩⟩
  rintro _ ⟨rfl⟩
  exact tcp

theorem wp_epollCtlAdd {allowed : Fault → World → Prop} {interest : Interest}
    {post : Bool → World → Prop} :
    Wp allowed (epollCtlAdd s interest) post w ↔
      post (w.epollResults.headD true) { w with
        epollResults := w.epollResults.tail
        mgr := if w.epollResults.headD true then w.mgr.setInterest s (some interest)
          else w.mgr } := by
  unfold epollCtlAdd epollCtl
  simp only [wp_bind, wp_get, wp_modify, Bool.not_false, Bool.true_or, Bool.and_true]
  cases w.epollResults.headD true with
  | true => exact Iff.rfl
  | false => exact Iff.rfl

theorem connectEx_outcome (fresh : w.mgr.view w.mgr.nextRef = .blank) (config : Config)
    (outcome : ConnectOutcome) :
    Wp Anyhow (connectEx config outcome) (fun _ w' => w'.seen = w.seen ∧
      if outcome = .minusOne ∧ w.epollResults.headD true = true
      then Waits w.mgr.nextRef w'.mgr else Forgotten w.mgr.nextRef w'.mgr) w := by
  unfold connectEx
  apply wp_new trivial
  intro connIdx auto missing
  have kind : (newSocket .tcp 0 connIdx config).socketType = .tcp := rfl
  have key : (newSocket .tcp 0 connIdx config).connIdx = connIdx := rfl
  generalize newSocket .tcp 0 connIdx config = sock at kind key ⊢
  subst key
  have subject : LogEntry.subject (.registered w.mgr.nextRef config.onconnectedHandler
    config.onrecvHandler config.oncloseHandler) = none := rfl
  have made := (local_new fresh auto sock).silent subject
  have connecting := made.setSocket { sock with status := .connecting }
  rw [View.setSock_setSock] at connecting
  rw [wp_bind, wp_record, wp_bind, wp_updateSocket made.heap]
  by_cases pending : outcome = .minusOne
  · have free : w.mgr.find sock.connIdx = none := missing
    simp only [pending, if_true, true_and]
    rw [wp_bind, wp_addSocket connecting.heap (by exact free)]
    have enrolled := enrolled_add connecting
    rw [wp_bind, wp_epollCtlAdd]
    dsimp only
    cases w.epollResults.headD true with
    | true =>
        have joined := enrolled.then (local_setInterest _ w.mgr.nextRef
          (some { epollIn := true, epollOut := true }))
        rw [enrolled.self] at joined
        simp only [Bool.not_true, Bool.false_eq_true, if_true, if_false, wp_pure]
        exact ⟨trivial, waits_of_born joined.self kind rfl⟩
    | false =>
        have about : LogEntry.subject (.epollError w.mgr.nextRef) = some w.mgr.nextRef := rfl
        simp only [Bool.not_false, Bool.false_eq_true, if_true, if_false, wp_bind, wp_record,
          wp_pure]
        exact ⟨trivial, forgotten_of_refused (enrolled.note about).self⟩
  · simp only [pending, if_false, false_and]
    rw [wp_bind]
    refine (delete_spec connecting.heap).mono ?_
    rintro _ w' ⟨v', rfl, deleted, course⟩
    have gone := connecting.trans deleted
    rw [connecting.self] at gone
    exact ⟨congrArg Prod.fst course, forgotten_of_blank gone.self⟩

/-! ## Courses -/

theorem Lasting.behind {recent earlier : List Mgr} (first : Lasting (recent ++ [m]))
    (second : Lasting (m :: earlier)) : Lasting (recent ++ m :: earlier) := by
  obtain ⟨within, _, across⟩ := List.pairwise_append.mp first
  refine List.pairwise_append.mpr ⟨within, second, ?_⟩
  intro later inside point membership
  have onward := across later inside m (List.mem_singleton_self m)
  rcases List.mem_cons.mp membership with rfl | old
  · exact onward
  · exact ((List.pairwise_cons.mp second).1 point old).trans onward

/-- Every manager of a course keeps its sockets and answers the earlier ones. -/
structure Seamless (managers : List Mgr) : Prop where
  kept : ∀ point ∈ managers, ∃ busy, Kept busy point
  lasting : Lasting managers

theorem Seamless.extend {recent earlier : List Mgr} (seamless : Seamless (m :: earlier))
    (kept : ∀ point ∈ recent, ∃ busy, Kept busy point) (lasting : Lasting (recent ++ [m])) :
    Seamless (recent ++ m :: earlier) := by
  refine ⟨?_, lasting.behind seamless.lasting⟩
  intro point membership
  rcases List.mem_append.mp membership with inside | old
  · exact kept point inside
  · exact seamless.kept point old

theorem Course.seamless {managers : List Mgr} (course : Course managers) :
    Seamless managers ∧ ∃ m earlier, managers = m :: earlier ∧ system.Reachable m := by
  induction course with
  | start =>
      refine ⟨⟨?_, List.pairwise_singleton _ _⟩, _, _, rfl, .start rfl⟩
      intro point membership
      rw [List.mem_singleton.mp membership]
      exact ⟨[], initial_kept⟩
  | @next m earlier step _ returned inductionHypothesis =>
      obtain ⟨seamless, _, _, same, reached⟩ := inductionHypothesis
      obtain ⟨rfl, -⟩ := List.cons.inj same
      -- within the step sockets are followed from where it starts
      let _ : Past := ⟨m⟩
      have ran : step.op.run (step.start m) = (.ok (), (step.exec m).2) := Prod.ext returned rfl
      obtain ⟨rested, steady⟩ := ((reached_rested reached).exec (.refl m) step).ended ran
      refine ⟨seamless.extend ?_ (List.pairwise_cons.mpr ⟨steady.answers, steady.passed.lasting⟩),
        _, _, rfl, .next reached ⟨returned, rfl⟩⟩
      intro point membership
      rcases List.mem_cons.mp membership with rfl | inside
      · exact ⟨[], rested.kept⟩
      · exact steady.passed.kept point inside

/-- The points of a step, whether it returns or not. -/
theorem Course.passes {earlier : List Mgr} (course : Course (m :: earlier)) (step : Step) :
    Seamless ((step.exec m).2.seen ++ m :: earlier) := by
  obtain ⟨seamless, _, _, same, reached⟩ := course.seamless
  obtain ⟨rfl, -⟩ := List.cons.inj same
  let _ : Past := ⟨m⟩
  have passed := exec_passed (reached_rested reached) (.refl m) step
  exact seamless.extend passed.kept passed.lasting

theorem Requests.outcome {config : Config} {outcome : ConnectOutcome} {accepted : Bool}
    {before after : Mgr} {busy : List SockRef}
    (requests : Requests config outcome accepted before after) (kept : Kept busy before) :
    if outcome = .minusOne ∧ accepted = true
    then Waits before.nextRef after else Forgotten before.nextRef after := by
  obtain ⟨w, w', connIdx, rfl, rfl, ran, rfl⟩ := requests
  exact ((connectEx_outcome (kept.fresh _ le_rfl) config outcome).ended ran).2

theorem points_robust (base : List Mgr) : Robust Anyhow fun w => base <:+ w.seen where
  freed _ _ := trivial
  diverged _ _ := trivial
  exhausted _ _ _ := trivial
  number _ _ _ passed := passed
  mark _ passed := passed.trans (List.suffix_cons _ _)
  frame _ _ _ seen passed := seen ▸ passed
  socket _ _ _ _ _ _ _ passed := passed
  status _ _ _ _ _ _ passed := passed
  closing _ _ _ _ _ _ _ _ _ passed := passed
  fill _ _ _ _ passed := passed
  queue _ _ _ _ _ _ _ passed := passed
  transmit _ _ _ _ _ _ passed := passed
  record _ _ _ _ passed := passed
  serve _ _ _ _ _ _ passed := passed
  create _ _ _ _ _ _ _ passed := passed
  delete _ _ _ _ passed := passed

theorem runCalls_passes (calls : List LuaCall) :
    Wp Anyhow (runCalls calls) (fun _ w' => w.mgr :: w.seen <:+ w'.seen) w := by
  have robust := points_robust (w.mgr :: w.seen)
  cases calls with
  | nil => exact List.suffix_refl _
  | cons call rest =>
      rw [runCalls, wp_bind, wp_mark]
      exact ((luaCall_keeps robust call).bind fun _ => runCalls_keeps robust rest) _
        (List.suffix_refl _)

theorem runCalls_requests (fresh : w.mgr.view w.mgr.nextRef = .blank) {config : Config}
    {outcome : ConnectOutcome} {rest : List LuaCall} :
    Wp Anyhow (runCalls (.connectEx config outcome :: rest)) (fun _ w' => ∃ after,
      Requests config outcome (w.epollResults.headD true) w.mgr after ∧
        after :: w.mgr :: w.seen <:+ w'.seen) w := by
  rw [runCalls, wp_bind, wp_mark, wp_bind, luaCall, wp_bind]
  have called := connectEx_outcome (w := { w with seen := w.mgr :: w.seen }) fresh config outcome
  refine (Wp.ran called).mono ?_
  rintro connIdx w₁ ⟨⟨seen, _⟩, ran⟩
  refine (runCalls_passes rest).mono ?_
  intro _ w' passed
  rw [seen] at passed
  exact ⟨w₁.mgr, ⟨{ w with seen := w.mgr :: w.seen }, w₁, connIdx, rfl, rfl, ran, rfl⟩, passed⟩

/-! ## Events -/

theorem handleSocketEvent_reports [Past] (steady : Steady [] w)
    (mine : (w.mgr.view s).held ≠ 0) (present : w.mgr.heap s = some sock)
    (connecting : sock.status = .connecting) (waits : Waits s w.mgr) (events : Flags)
    (recvs : List RecvResult) (sends : List SendResult) :
    Wp anyFault (handleSocketEvent s events recvs sends) (fun _ w' =>
      w'.mgr.connects s = if events.decisive then [events.establishes] else []) w := by
  have told : ∀ (w' : World) isSuccess, (w'.mgr.view s).trace = [.connect isSuccess] →
      w'.mgr.connects s = [isSuccess] := by
    intro w' isSuccess trace
    rw [Mgr.connects]
    change List.filterMap _ (w'.mgr.view s).trace = _
    rw [trace]
    rfl
  unfold handleSocketEvent
  by_cases broken : (events.epollHup || events.epollErr) = true
  · have meant : events.decisive = true ∧ events.establishes = false := by
      simp only [Flags.decisive, Flags.establishes, Bool.or_assoc, broken, Bool.or_true,
        Bool.not_true, Bool.and_false, and_self]
    rw [if_pos broken, wp_bind, wp_deref present, if_pos connecting, if_pos meant.1, meant.2]
    exact (handleConnect_false_any steady mine present connecting).mono
      fun _ w' done => told w' false (done.2 waits.kept)
  · have meant : events.decisive = events.epollOut ∧ events.establishes = events.epollOut := by
      rw [Bool.not_eq_true] at broken
      simp only [Flags.decisive, Flags.establishes, Bool.or_assoc, broken, Bool.or_false,
        Bool.not_false, Bool.and_true, and_self]
    have idle : sock.status ≠ .connected := by simp [connecting]
    -- nothing is read from a socket that is not connected
    have writes : Wp anyFault (do
        if events.epollOut then
          if (← deref s).status = .connecting then handleConnect s true
          else handleCanWrite s sends) (fun _ w' =>
        w'.mgr.connects s = if events.decisive then [events.establishes] else []) w := by
      rw [meant.1, meant.2]
      cases events.epollOut with
      | false =>
          have silent := (steady.kept.settled s (by simp) _ (Mgr.standing_face present)
            waits.kept).1 connecting
          change List.filterMap _ (w.mgr.view s).standing.trace = []
          rw [silent]
          rfl
      | true =>
          simp only [if_true]
          rw [wp_bind, wp_deref present, if_pos connecting]
          exact (handleConnect_true_any steady present connecting).mono
            fun _ w' done => told w' true (done.2 waits.kept)
    rw [if_neg broken]
    dsimp only
    split
    · rw [handleReadComplete, wp_bind, wp_bind, wp_deref present, if_neg idle]
      exact writes
    · exact writes

theorem Seamless.answers {recent earlier : List Mgr} {point : Mgr}
    (seamless : Seamless (m :: earlier))
    (answers : ∀ other ∈ recent ++ [m], Answers other w.mgr)
    (membership : point ∈ recent ++ m :: earlier) : Answers point w.mgr := by
  have last := answers m (List.mem_append_right _ (List.mem_singleton_self m))
  rcases List.mem_append.mp membership with inside | old
  · exact answers point (List.mem_append_left _ inside)
  · rcases List.mem_cons.mp old with rfl | older
    · exact last
    · exact ((List.pairwise_cons.mp seamless.lasting).1 point older).trans last

/-! ## Every request -/

/-- In every run and for every request of a script whose socket is not evicted: from then
on, whenever no event is outstanding for the new socket its connect callback has been
called exactly once, and an event that settles the request reports whether the
connection has been established, if and only if `connect` has reported -1 and the
epoll set has taken the socket. -/
theorem connectEx_answered_iff {config : Config} {outcome : ConnectOutcome} {accepted : Bool}
    {before after : Mgr} (requests : Requests config outcome accepted before after)
    {earlier future past : List Mgr} (course : Course (m :: earlier)) (step : Step)
    (passed : (step.exec m).2.seen ++ m :: earlier = future ++ after :: before :: past)
    (spared : ∀ later ∈ future ++ [after], ¬later.Evicted before.nextRef) :
    ((∀ later ∈ future ++ [after], ¬later.Asking before.nextRef →
        ∃ isSuccess, later.connects before.nextRef = [isSuccess]) ∧
      ∀ (startTime : UInt32) (batches : List (List Entry)) (entries : List Entry) (handled : Nat)
        (w w' : World) (events : Flags) (recvs : List RecvResult) (sends : List SendResult),
        awaitEvent startTime batches entries handled before.nextRef (step.start m) = (.ok (), w) →
        [after, before] <:+: w.seen ++ m :: earlier →
        HasStatus before.nextRef .connecting w →
        handleSocketEvent before.nextRef events recvs sends w = (.ok (), w') →
        w'.mgr.connects before.nextRef =
          if events.decisive then [events.establishes] else []) ↔
      outcome = .minusOne ∧ accepted = true := by
  have seamless := course.passes step
  rw [passed] at seamless
  obtain ⟨_, keptBefore⟩ := seamless.kept before (by simp)
  have result := requests.outcome keptBefore
  constructor
  · rintro ⟨answered, -⟩
    by_contra unfit
    rw [if_neg unfit] at result
    obtain ⟨isSuccess, told⟩ := answered after (by simp) result.1
    rw [result.2] at told
    exact absurd told (by simp)
  · intro fit
    rw [if_pos fit] at result
    refine ⟨?_, ?_⟩
    · intro later inside idle
      obtain ⟨_, kept⟩ := seamless.kept later (by
        rcases List.mem_append.mp inside with future | now
        · exact List.mem_append_left _ future
        · rw [List.mem_singleton.mp now]
          simp)
      refine kept.answered (spared later inside) ?_ idle
      rcases List.mem_append.mp inside with inFuture | now
      · obtain ⟨_, _, across⟩ := List.pairwise_append.mp seamless.lasting
        exact across later inFuture after List.mem_cons_self _ result
      · rw [List.mem_singleton.mp now]
        exact result
    · rintro startTime batches entries handled w w' events recvs sends awaited behind
        ⟨sock, present, connecting⟩ returned
      obtain ⟨whole, _, _, same, reached⟩ := course.seamless
      obtain ⟨rfl, -⟩ := List.cons.inj same
      let _ : Past := ⟨m⟩
      obtain ⟨steady, mine⟩ :=
        (awaitEvent_any reached (.refl m) step startTime batches entries handled).ended awaited
      have waits := whole.answers steady.answers (behind.subset List.mem_cons_self) _ result
      exact (handleSocketEvent_reports steady mine present connecting waits events recvs
        sends).ended returned

end Answers

def callingConfig : Config where
  onconnectedHandler := { funId := 1 }
  oncloseHandler := { funId := 2 }
  onrecvHandler := { funId := 3 }
  sendBufferSize := 16
  recvBufferSize := 16

/-- The connection that `calling` has asked for comes about. -/
def establishing : Step where
  op := .eventLoop 0 [[.socket 0 { epollOut := true } [] []]]
  scripts := []
  epollResults := []
  udpConnects := []

theorem called_course : Course [called, Mgr.initial] := .next calling .start rfl

theorem called_requests : Requests callingConfig .minusOne true Mgr.initial called :=
  ⟨calling.start Mgr.initial, (calling.exec Mgr.initial).2, 1, rfl, rfl, rfl, rfl⟩

/-- The loop has taken its event. -/
def establishable : World :=
  (awaitEvent 0 [] [.socket 0 { epollOut := true } [] []] 0 0 (establishing.start called)).2

theorem connectEx_answered_iff_called :
    ∃ w', handleSocketEvent 0 { epollOut := true } [] [] establishable = (.ok (), w') ∧
      w'.mgr.connects 0 = [true] := by
  have returned : handleSocketEvent 0 { epollOut := true } [] [] establishable =
    (.ok (), (handleSocketEvent 0 { epollOut := true } [] [] establishable).2) := rfl
  have passed : (establishing.exec called).2.seen ++ [called, Mgr.initial] =
    (establishing.exec called).2.seen ++ called :: Mgr.initial :: [] := rfl
  have spared : ∀ later ∈ (establishing.exec called).2.seen ++ [called], ¬later.Evicted 0 := by
    decide +kernel
  obtain ⟨-, reports⟩ := (connectEx_answered_iff called_requests called_course establishing
    passed spared).mpr ⟨rfl, rfl⟩
  exact ⟨_, returned, reports 0 [] [.socket 0 { epollOut := true } [] []] 0 establishable _ _ _ _
    rfl ⟨[], [], rfl⟩ ⟨_, rfl, rfl⟩ returned⟩

/-- A UDP connect that `epoll_ctl` refuses, with a request in its callback, which gets the
number of the descriptor that has just been closed. -/
def evicting : Step where
  op := .lua (.connectUDP callingConfig true [.connectEx callingConfig .minusOne])
  scripts := []
  epollResults := [false]
  udpConnects := []
  heirs := [some 1]

example : (evicting.exec Mgr.initial).2.mgr.Evicted 1 ∧
    (evicting.exec Mgr.initial).2.mgr.interest 1 = none ∧
    (evicting.exec Mgr.initial).2.mgr.connects 1 = [] := by
  decide +kernel

/-- The name of the server cannot be resolved. -/
def misnaming : Step where
  op := .lua (.connectEx callingConfig .unresolved)
  scripts := []
  epollResults := []
  udpConnects := []

theorem unresolved_unanswered : ∃ after, Course [after, Mgr.initial] ∧
    Requests callingConfig .unresolved true Mgr.initial after ∧
    ¬after.Asking 0 ∧ after.connects 0 = [] := by
  refine ⟨(misnaming.exec Mgr.initial).2.mgr, .next misnaming .start rfl,
    ⟨misnaming.start Mgr.initial, _, 1, rfl, rfl, rfl, rfl⟩, ?_, rfl⟩
  have gone : (misnaming.exec Mgr.initial).2.mgr.heap 0 = none := rfl
  rintro ⟨sock, present, _⟩
  exact absurd (gone.symm.trans present) (by simp)

end CrossOver.Engine.Network
