import CrossOver.Engine.Network.Handlers

/-!
# Runs of the event loop

From the constructed manager, every step that involves TCP sockets only leads
to a consistent manager, passes only consistent ones on its way, and never uses
a deleted socket or fails an assertion.
-/

namespace CrossOver.Engine.Network

open CrossOver.Lib

section Views

variable {m : Mgr} {s : SockRef}

theorem queue_view {event : SocketEvent} {rest : List SocketEvent}
    (queue : m.eventQueue = event :: rest) :
    (m.view event.s).events = event.customizedEvents ::
      ((rest.filter fun other => other.s = event.s).map SocketEvent.customizedEvents) := by
  simp [Mgr.view, queue]

theorem pop_view {event : SocketEvent} {rest : List SocketEvent}
    (queue : m.eventQueue = event :: rest) :
    ({ m with eventQueue := rest, held := event.s :: m.held } : Mgr).view =
      Function.update m.view event.s
        { m.view event.s with
          events := (rest.filter fun other => other.s = event.s).map SocketEvent.customizedEvents
          held := (m.view event.s).held + 1 } := by
  have here : ({ m with eventQueue := rest, held := event.s :: m.held } : Mgr).view event.s =
      { m.view event.s with
        events := (rest.filter fun other => other.s = event.s).map SocketEvent.customizedEvents
        held := (m.view event.s).held + 1 } := by
    simp [Mgr.view]
  rw [← here]
  apply view_eq_update
  intro other different
  simp [Mgr.view, queue, different.symm]

theorem unhold_view (m : Mgr) (s : SockRef) :
    (m.unhold s).view =
      Function.update m.view s { m.view s with held := (m.view s).held - 1 } := by
  have here : (m.unhold s).view s = { m.view s with held := (m.view s).held - 1 } := by
    simp [Mgr.view, Mgr.unhold]
  rw [← here]
  apply view_eq_update
  intro other different
  simp [Mgr.view, Mgr.unhold, List.count_erase_of_ne different]

theorem hold_view (m : Mgr) (s : SockRef) :
    (m.hold s).view = Function.update m.view s { m.view s with held := (m.view s).held + 1 } := by
  have here : (m.hold s).view s = { m.view s with held := (m.view s).held + 1 } := by
    simp [Mgr.view, Mgr.hold]
  rw [← here]
  apply view_eq_update
  intro other different
  simp [Mgr.view, Mgr.hold, different.symm]

theorem take_view (m : Mgr) (s : SockRef) :
    ({ m with batch := m.batch.erase s, held := s :: m.held } : Mgr).view =
      Function.update m.view s
        { m.view s with
          unprocessed := (m.view s).unprocessed - 1, held := (m.view s).held + 1 } := by
  have here : ({ m with batch := m.batch.erase s, held := s :: m.held } : Mgr).view s =
      { m.view s with
        unprocessed := (m.view s).unprocessed - 1, held := (m.view s).held + 1 } := by
    simp [Mgr.view]
  rw [← here]
  apply view_eq_update
  intro other different
  simp [Mgr.view, List.count_erase_of_ne different, different.symm]

end Views

section Runs

variable {allowed : Fault → World → Prop} {w w' : World} {s : SockRef} {sock : Socket}

theorem View.Good.settled {v : View} (good : v.Good) (unheld : v.held = 0) : v.Settled := by
  intro sock present
  constructor
  · intro connecting
    rcases (phaseOf connecting good present).2 with silent | failing
    · exact silent
    · exact absurd unheld failing.2
  · intro closed
    by_contra named
    exact (phaseOf closed good present).2 named unheld

/-- The iteration gives its reference back. -/
theorem unhold_spec (sane : Sane w) (held : (w.mgr.view s).held ≠ 0)
    (settled : (w.mgr.view s).Settled) :
    Wp allowed (unhold s) (fun _ w' => Sane w' ∧ w'.mgr.held = w.mgr.held.erase s ∧
      w'.mgr.batch = w.mgr.batch) w := by
  obtain ⟨sock, present⟩ := sane.alive held
  unfold unhold
  rw [wp_bind, wp_modifyMgr]
  refine (refRelease_spec (w := { w with mgr := w.mgr.unhold s })
    present).mono ?_
  rintro _ w' ⟨v', rfl, released, seen⟩
  refine ⟨sane.next seen ?_, released.held, released.batch⟩
  have view : w'.mgr.view = Function.update w.mgr.view s
      ({ w.mgr.view s with held := (w.mgr.view s).held - 1 }.release sock) := by
    rw [released.view]
    simp only
    rw [unhold_view, Function.update_idem, Function.update_self]
  exact sane.1.at view (.release present held settled)
    (released.socketMap ▸ sane.1.keys) released.nextRef (sane.1.allocated present)

/-! ## Delayed events -/

theorem Sane.queue_alive (sane : Sane w) {event : SocketEvent} {rest : List SocketEvent}
    (queue : w.mgr.eventQueue = event :: rest) : ∃ sock, w.mgr.heap event.s = some sock := by
  cases present : w.mgr.heap event.s with
  | some sock => exact ⟨sock, rfl⟩
  | none =>
      have gone : (w.mgr.view event.s).outline.sock = none := by
        simp [View.outline, Mgr.view, present]
      have empty := ((sane.1.good event.s).outline.gone gone).2.1
      simp [View.outline, queue_view queue] at empty

theorem popped_spec (sane : Sane w) {event : SocketEvent} {rest : List SocketEvent}
    (queue : w.mgr.eventQueue = event :: rest) {change : View → View → Prop}
    {handle : SockRef → M Unit}
    (handled : ∀ w₁ sock, w₁.mgr.heap event.s = some sock →
      Wp allowed (handle event.s) (fun _ => Touched event.s change w₁) w₁)
    (alive : ∀ v v', change v v' → ∃ sock, v'.sock = some sock)
    (step : ∀ v' sock,
      change { w.mgr.view event.s with
          events := (rest.filter fun other => other.s = event.s).map SocketEvent.customizedEvents
          held := (w.mgr.view event.s).held + 1 } v' →
      v'.sock = some sock →
      Lives event.s (w.mgr.view event.s)
        ({ v' with held := (w.mgr.view event.s).held }.release sock)) :
    Wp allowed (do
      popEvent event rest
      handle event.s
      unhold event.s) (fun _ w' => Sane w' ∧ SameTurn w w' ∧ w'.mgr.eventQueue = rest) w := by
  obtain ⟨before, present⟩ := sane.queue_alive queue
  rw [wp_bind, popEvent, wp_modifyMgr]
  refine (handled { w with
    mgr := { w.mgr with eventQueue := rest, held := event.s :: w.mgr.held } } before present).seq ?_
  rintro _ w₁ ⟨v₁, changed, moved, seen⟩
  simp only [pop_view queue, Function.update_self] at changed
  obtain ⟨sock, still⟩ := alive _ _ changed
  unfold unhold
  rw [wp_bind, wp_modifyMgr]
  refine (refRelease_spec (w := { w₁ with mgr := w₁.mgr.unhold event.s })
    (moved.heap.trans still)).mono ?_
  rintro _ w' ⟨v', rfl, released, seenLast⟩
  have taken : v₁.held = (w.mgr.view event.s).held + 1 := by
    rw [← moved.self]
    simp only [Mgr.view, moved.held, List.count_cons_self]
  have view : w'.mgr.view = Function.update w.mgr.view event.s
      ({ v₁ with held := (w.mgr.view event.s).held }.release sock) := by
    rw [released.view]
    simp only
    rw [unhold_view, Function.update_idem, Function.update_self, moved.view, Function.update_idem,
      Function.update_self, pop_view queue, Function.update_idem, taken]
    rfl
  refine ⟨sane.next (seenLast.trans seen) ?_, ⟨?_, released.batch.trans moved.batch⟩,
    released.eventQueue.trans moved.eventQueue⟩
  · refine sane.1.at view (step v₁ sock changed still) ?_ (released.nextRef.trans moved.nextRef)
      (sane.1.allocated present)
    rw [released.socketMap]
    change (w₁.mgr.socketMap.map Prod.fst).Nodup
    rw [moved.socketMap]
    exact sane.1.keys
  · rw [released.held]
    change w₁.mgr.held.erase event.s = _
    rw [moved.held]
    exact List.erase_cons_head _ _

theorem Quiet.alive {v v' : View} (quiet : Quiet v v') (present : v.sock = some sock) :
    ∃ after, v'.sock = some after := by
  have outlined := View.outline_sock present
  rw [← quiet.outline] at outlined
  obtain ⟨after, still, _⟩ := Option.map_eq_some_iff.mp outlined
  exact ⟨after, still⟩

theorem DelaySends.alive {v v' : View} (sends : DelaySends s v v') :
    ∃ after, v'.sock = some after := by
  have quiet := sends.quiet
  cases sends with
  | ignored present => exact ⟨_, present⟩
  | done present => exact quiet.alive present

theorem Closes.alive {v v' : View} (closes : Closes s v v') : ∃ after, v'.sock = some after := by
  cases closes with
  | ignored present => exact ⟨_, present⟩
  | done _ _ pushes => exact pushes.quiet.alive rfl

theorem handleDelayEventLoop_spec (turns : Nat) (sane : Sane w)
    (enough : w.mgr.eventQueue.length < turns) :
    Wp allowed (handleDelayEventLoop turns) (fun _ w' => Sane w' ∧ SameTurn w w') w := by
  induction turns generalizing w with
  | zero => exact absurd enough (Nat.not_lt_zero _)
  | succ turns inductionHypothesis =>
      rw [handleDelayEventLoop, wp_bind, wp_mark, wp_bind, wp_get]
      cases queue : w.mgr.eventQueue with
      | nil => exact ⟨sane.marked, rfl, rfl⟩
      | cons event rest =>
          have again : ∀ w₁, (Sane w₁ ∧ SameTurn { w with seen := w.mgr :: w.seen } w₁ ∧
                w₁.mgr.eventQueue = rest) →
              Wp allowed (handleDelayEventLoop turns) (fun _ w' => Sane w' ∧ SameTurn w w') w₁ := by
            rintro w₁ ⟨sane₁, turn, queue₁⟩
            have shorter : w₁.mgr.eventQueue.length < turns := by
              rw [queue₁]
              rw [queue, List.length_cons] at enough
              omega
            refine (inductionHypothesis sane₁ shorter).mono ?_
            rintro _ w₂ ⟨sane₂, turn₂⟩
            exact ⟨sane₂, SameTurn.trans ⟨turn.held, turn.batch⟩ turn₂⟩
          have known := queue_view queue
          dsimp only
          cases kind : event.customizedEvents with
          | close =>
              rw [kind] at known
              have handled := (popped_spec sane.marked queue
                (fun _ _ present => handleClose_spec present) (fun _ _ closes => closes.alive)
                fun v' sock closes still => .close known closes still).seq fun _ => again
              simpa only [bind_assoc] using handled
          | delaySend =>
              rw [kind] at known
              have handled := (popped_spec sane.marked queue
                (fun _ _ present => handleDelaySend_spec present) (fun _ _ sends => sends.alive)
                fun v' sock sends still => .delaySend known sends still).seq fun _ => again
              simpa only [bind_assoc] using handled

theorem handleDelayEvent_spec (sane : Sane w) :
    Wp allowed handleDelayEvent (fun _ w' => Sane w' ∧ SameTurn w w') w := by
  unfold handleDelayEvent
  rw [wp_bind, wp_get]
  exact handleDelayEventLoop_spec _ sane (Nat.lt_succ_self _)

/-! ## New connections -/

theorem Enrolled.find {m m₁ : Mgr} {connIdx : Nat} {v : View}
    (enrolled : Enrolled m m₁ connIdx v) (missing : m.find connIdx = none) :
    m₁.find connIdx = some m.nextRef := by
  have absent := Option.map_eq_none_iff.mp missing
  simp [Mgr.find, enrolled.socketMap, List.find?_append, absent]

/-- A socket that could not be registered leaves again. -/
theorem discard_spec (sane : Sane w) (w₁ : World) {connIdx : Nat} {v : View}
    (enrolled : Enrolled w.mgr w₁.mgr connIdx v) (seen : w₁.course = w.course)
    (missing : w.mgr.find connIdx = none) (unregistered : v.interest = none)
    (present : v.sock = some sock) (count : sock.count = 1) (names : v.names = [connIdx])
    (step : Lives w.mgr.nextRef .blank
      { v.note (.epollError w.mgr.nextRef) with sock := none, names := [] }) :
    Wp allowed (removeSocket connIdx) (fun _ w' => Sane w' ∧ SameTurn w w') w₁ := by
  rw [removeSocket, wp_bind, wp_get]
  simp only [enrolled.find missing]
  refine (epollCtl_spec w.mgr.nextRef true none).seq ?_
  rintro accepted w₂ ⟨seenDel, ⟨rfl, registered, _⟩ | ⟨rfl, mgr⟩⟩
  · have interest : w₁.mgr.interest w.mgr.nextRef = v.interest :=
      congrArg View.interest enrolled.self
    exact absurd (interest.trans unregistered) (registered rfl)
  · rw [← mgr] at enrolled
    have about : LogEntry.subject (.epollError w.mgr.nextRef) = some w.mgr.nextRef := rfl
    have noted := enrolled.note about
    simp only [Bool.not_false, if_true]
    rw [wp_bind, wp_record]
    have alive : (w₂.mgr.record (.epollError w.mgr.nextRef)).heap w.mgr.nextRef = some sock :=
      (congrArg View.sock noted.self).trans present
    refine (refRelease_spec
      (w := { w₂ with mgr := w₂.mgr.record (.epollError w.mgr.nextRef) }) alive).seq ?_
    rintro _ w₃ ⟨v₃, rfl, released, seenRelease⟩
    simp only [noted.self] at released
    have gone := noted.then released
    have keys : (w₃.mgr.socketMap.map Prod.fst).Nodup := by
      rw [gone.socketMap, List.map_append]
      exact List.Nodup.append sane.1.keys (List.nodup_singleton _)
        (by simpa using Mgr.find_none missing)
    have inside : (connIdx, w.mgr.nextRef) ∈ w₃.mgr.socketMap := by
      rw [gone.socketMap]
      simp
    have erased := erase_view keys inside (by rw [gone.self]; exact names)
    have map : (w₃.mgr.erase connIdx).socketMap = w.mgr.socketMap := by
      have others : w.mgr.socketMap.filter (fun entry => entry.1 ≠ connIdx) = w.mgr.socketMap := by
        rw [List.filter_eq_self]
        intro entry membership
        have different : entry.1 ≠ connIdx := by
          intro same
          exact Mgr.find_none missing (same ▸ List.mem_map_of_mem membership)
        simpa using different
      change w₃.mgr.socketMap.filter (fun entry => entry.1 ≠ connIdx) = _
      rw [gone.socketMap, List.filter_append, others]
      simp
    have view : (w₃.mgr.erase connIdx).view = Function.update w.mgr.view w.mgr.nextRef
        { v.note (.epollError w.mgr.nextRef) with sock := none, names := [] } := by
      rw [erased, gone.self, gone.view, Function.update_idem]
      simp [View.release, count]
    rw [wp_modifyMgr]
    have fresh : (w.mgr.bump 0).view w.mgr.nextRef = .blank := sane.1.fresh w.mgr.nextRef le_rfl
    refine ⟨sane.next (seenRelease.trans (seenDel.trans seen)) ?_, gone.held, gone.batch⟩
    refine (sane.1.bump 0).at view ?_ ?_ gone.nextRef (Nat.lt_succ_self _)
    · rw [fresh]
      exact step
    · rw [map]
      exact sane.1.keys

section Scripted

variable (exhausted : ∀ w, Sane w → allowed .idsExhausted w)

include exhausted

theorem greet_spec (sane : Sane w) (w₁ : World) {connIdx : Nat} {v : View}
    (enrolled : Enrolled w.mgr w₁.mgr connIdx v) (seen : w₁.course = w.course)
    (missing : w.mgr.find connIdx = none) (present : v.sock = some sock)
    (step : Lives w.mgr.nextRef .blank
      (v.note (.connectTask w.mgr.nextRef sock.connIdx true))) :
    Wp allowed (Socket.onConnect w.mgr.nextRef true) (fun _ w' => Sane w' ∧ SameTurn w w' ∧
      ∃ after, w'.mgr.heap w.mgr.nextRef = some after) w₁ := by
  have alive : w₁.mgr.heap w.mgr.nextRef = some sock :=
    (congrArg View.sock enrolled.self).trans present
  have about : LogEntry.subject (.connectTask w.mgr.nextRef sock.connIdx true) =
      some w.mgr.nextRef := rfl
  have noted := enrolled.note about
  rw [Socket.onConnect, runConnectTask, wp_bind, wp_deref alive]
  have greeted : Sane { w₁ with
      mgr := w₁.mgr.record (.connectTask w.mgr.nextRef sock.connIdx true) } :=
    sane.next seen (noted.consistent sane.1 missing step)
  refine (process_spec exhausted _ greeted).mono ?_
  rintro _ w' ⟨sane', carried⟩
  obtain ⟨_, _, still⟩ := (carried.sockets w.mgr.nextRef sock
    ((congrArg View.sock noted.self).trans present)).sock sock
    ((congrArg View.sock noted.self).trans present)
  exact ⟨sane', ⟨carried.held.trans noted.held, carried.batch.trans noted.batch⟩, _, still⟩

theorem accept_spec (sane : Sane w) (aSocket : Nat) (config : Config) :
    Wp allowed (accept aSocket config) (fun _ w' => Sane w' ∧ SameTurn w w') w := by
  unfold accept
  apply wp_new (exhausted w sane)
  intro connIdx auto missing
  have newborn : Newborn w.mgr.nextRef
      { newSocket .tcp aSocket connIdx config with status := .connected, count := 1 }
      [.connectTask w.mgr.nextRef connIdx true] := newSocket_newborn (Or.inr ⟨rfl, rfl⟩)
  have key : (newSocket .tcp aSocket connIdx config).connIdx = connIdx := rfl
  have unheld : (newSocket .tcp aSocket connIdx config).count = 0 := rfl
  generalize newSocket .tcp aSocket connIdx config = sock at newborn key unheld ⊢
  subst key
  have subject : LogEntry.subject (.borrowed w.mgr.nextRef) = none := rfl
  have made := (local_new (sane.1.fresh _ le_rfl) auto sock).silentIf (aSocket = 0) subject
  rw [wp_bind, wp_recordIf]
  refine (addSocket_spec made (by exact missing)).seq ?_
  rintro _ w₁ ⟨seen, enrolled⟩
  simp only [unheld, Int.zero_add] at enrolled
  have connected := enrolled.update { sock with status := .connected, count := 1 }
  rw [wp_bind, wp_updateSocket (congrArg View.sock enrolled.self), wp_bind,
    wp_deref (congrArg View.sock connected.self)]
  dsimp only
  refine (epollCtlAdd_spec
    { w₁ with
      mgr := w₁.mgr.setSocket w.mgr.nextRef { sock with status := .connected, count := 1 } }
    connected _).seq ?_
  rintro accepted w₂ ⟨seenAdd, ⟨rfl, registered⟩ | ⟨rfl, refused⟩⟩
  · simp only [if_true]
    refine (greet_spec exhausted sane w₂ registered (seenAdd.trans seen) missing rfl
      (.born newborn)).mono ?_
    rintro _ w' ⟨sane', turn, _⟩
    exact ⟨sane', turn⟩
  · have about : LogEntry.subject (.epollError w.mgr.nextRef) = some w.mgr.nextRef := rfl
    have noted := refused.note about
    have closed := noted.then (local_setInterest _ w.mgr.nextRef none)
    rw [noted.self] at closed
    simp only [Bool.false_eq_true, if_false]
    rw [wp_bind, wp_record, wp_bind, closeDescriptor, wp_modifyMgr]
    refine discard_spec sane
      { w₂ with
        mgr := (w₂.mgr.record (.epollError w.mgr.nextRef)).setInterest w.mgr.nextRef none }
      closed (seenAdd.trans seen) missing rfl rfl rfl rfl (.stillborn ?_)
    simp [View.note, View.setSock, View.blank]

theorem connect_spec (sane : Sane w) (config : Config) (outcome : ConnectOutcome) :
    Wp allowed (connect config outcome) (fun _ w' => Sane w' ∧ SameTurn w w') w := by
  unfold connect
  apply wp_new (exhausted w sane)
  intro connIdx auto missing
  have newborn : Newborn w.mgr.nextRef
      { newSocket .tcp 0 connIdx { config with isParsePackage := true } with
        status := .connected, count := 1 }
      [.connectTask w.mgr.nextRef connIdx true] := newSocket_newborn (Or.inr ⟨rfl, rfl⟩)
  have key : (newSocket .tcp 0 connIdx { config with isParsePackage := true }).connIdx = connIdx :=
    rfl
  have unheld : (newSocket .tcp 0 connIdx { config with isParsePackage := true }).count = 0 := rfl
  generalize newSocket .tcp 0 connIdx { config with isParsePackage := true } = sock
    at newborn key unheld ⊢
  subst key
  have subject : LogEntry.subject (.registered w.mgr.nextRef config.onconnectedHandler
    config.onrecvHandler config.oncloseHandler) = none := rfl
  have made := (local_new (sane.1.fresh _ le_rfl) auto sock).silent subject
  have connecting := made.setSocket { sock with status := .connecting }
  rw [View.setSock_setSock] at connecting
  rw [wp_bind, wp_record, wp_bind, wp_updateSocket made.heap]
  by_cases established : outcome = .zero
  · simp only [established, if_true]
    refine (addSocket_spec connecting (by exact missing)).seq ?_
    rintro _ w₁ ⟨seen, enrolled⟩
    simp only [unheld, Int.zero_add] at enrolled
    have connected := enrolled.update { sock with status := .connected, count := 1 }
    rw [wp_bind, wp_updateSocket (congrArg View.sock enrolled.self), wp_bind,
      wp_deref (congrArg View.sock connected.self)]
    dsimp only
    refine (epollCtlAdd_spec
      { w₁ with
        mgr := w₁.mgr.setSocket w.mgr.nextRef { sock with status := .connected, count := 1 } }
      connected _).seq ?_
    rintro accepted w₂ ⟨seenAdd, ⟨rfl, registered⟩ | ⟨rfl, refused⟩⟩
    · simp only [Bool.not_true, Bool.false_eq_true, if_false]
      refine (greet_spec exhausted sane w₂ registered (seenAdd.trans seen) missing rfl
        (.born newborn)).seq ?_
      rintro _ w' ⟨sane', turn, after, alive⟩
      rw [wp_bind, wp_deref alive]
      exact ⟨sane', turn⟩
    · have about : LogEntry.subject (.epollError w.mgr.nextRef) = some w.mgr.nextRef := rfl
      have noted := refused.note about
      simp only [Bool.not_false, if_true]
      rw [wp_bind, wp_record]
      refine (greet_spec exhausted sane
        { w₂ with mgr := w₂.mgr.record (.epollError w.mgr.nextRef) } noted (seenAdd.trans seen)
        missing rfl (.bornUnregistered newborn)).seq ?_
      rintro _ w' ⟨sane', turn, after, alive⟩
      rw [wp_bind, wp_deref alive]
      exact ⟨sane', turn⟩
  · simp only [established, if_false]
    rw [wp_bind]
    refine (delete_spec connecting.heap).mono ?_
    rintro _ w' ⟨v', rfl, deleted, seen⟩
    have gone := connecting.trans deleted
    rw [connecting.self] at gone
    obtain ⟨sane', carried⟩ := sane.discard gone seen
    exact ⟨sane', carried.sameTurn⟩

end Scripted

/-! ## Batches -/

def Entry.Tcp : Entry → Prop
  | .listenUdp _ _ _ => False
  | _ => True

/-- Between two entries of a batch nothing is held. -/
structure Idle (entries : List Entry) (w : World) : Prop where
  sane : Sane w
  held : w.mgr.held = []
  batch : w.mgr.batch = entries.filterMap Entry.target

theorem take_spec {rest : List Entry} {events : Flags} {recvs : List RecvResult}
    {sends : List SendResult} (idle : Idle (.socket s events recvs sends :: rest) w) :
    Wp allowed (do
      modifyMgr fun m => { m with batch := m.batch.erase s }
      hold s) (fun _ w' => Sane w' ∧ w'.mgr.held = [s] ∧
        w'.mgr.batch = rest.filterMap Entry.target ∧ (w'.mgr.view s).Settled) w := by
  have batch : w.mgr.batch = s :: rest.filterMap Entry.target := idle.batch
  have good := idle.sane.1.good s
  have waiting : (w.mgr.view s).unprocessed ≠ 0 := by
    simp [Mgr.view, batch]
  obtain ⟨once, named, unheld⟩ := good.outline.batched waiting
  obtain ⟨identity, holds, _⟩ := good.outline.named named
  obtain ⟨sock, present, _⟩ := Option.map_eq_some_iff.mp holds
  rw [wp_bind, wp_modifyMgr]
  simp only [hold, refAdd]
  rw [wp_bind, wp_updateSocket (w := { w with mgr := { w.mgr with batch := w.mgr.batch.erase s } })
    present, wp_modifyMgr]
  have view : (({ w.mgr with batch := w.mgr.batch.erase s, held := s :: w.mgr.held } : Mgr).setSocket
      s { sock with count := sock.count + 1 }).view = Function.update w.mgr.view s
        { w.mgr.view s with
          sock := some { sock with count := sock.count + 1 }
          unprocessed := 0, held := (w.mgr.view s).held + 1 } := by
    have once' : (w.mgr.view s).unprocessed = 1 := once
    rw [(local_setSocket _ _ _).view, take_view, Function.update_idem, Function.update_self, once']
    rfl
  refine ⟨idle.sane.next rfl ?_, ?_, ?_, ?_⟩
  · exact idle.sane.1.at view (.take present once) idle.sane.1.keys rfl
      (idle.sane.1.allocated present)
  · simp only [Mgr.setSocket, Mgr.hold, idle.held]
  · simp only [Mgr.setSocket, Mgr.hold, batch, List.erase_cons_head]
  · have settled := good.settled unheld
    change (Mgr.view (({ w.mgr with
      batch := w.mgr.batch.erase s, held := s :: w.mgr.held } : Mgr).setSocket s _) s).Settled
    rw [view, Function.update_self]
    intro after still
    obtain rfl := Option.some.inj still
    exact settled sock present

theorem reportable_targets (m : Mgr) (earlier : List SockRef) (entries : List Entry) :
    ((reportable m earlier entries).filterMap Entry.target).Nodup ∧
      ∀ s ∈ (reportable m earlier entries).filterMap Entry.target,
        m.interest s ≠ none ∧ s ∉ earlier := by
  induction entries generalizing earlier with
  | nil => simp [reportable]
  | cons entry rest inductionHypothesis =>
      cases entry with
      | socket s events recvs sends =>
          rw [reportable]
          split
          · next kept =>
              obtain ⟨unique, members⟩ := inductionHypothesis (s :: earlier)
              have absent : s ∉ (reportable m (s :: earlier) rest).filterMap Entry.target :=
                fun membership => (members s membership).2 List.mem_cons_self
              simp only [List.filterMap_cons, Entry.target, List.nodup_cons, List.mem_cons]
              refine ⟨⟨absent, unique⟩, ?_⟩
              rintro other (rfl | later)
              · exact ⟨Option.isSome_iff_ne_none.mp kept.1, kept.2⟩
              · have known := members other later
                exact ⟨known.1, fun before => known.2 (List.mem_cons_of_mem _ before)⟩
          · exact inductionHypothesis earlier
      | wakeup epollIn readOk => exact inductionHypothesis earlier
      | listenTcp config accepted => exact inductionHypothesis earlier
      | listenUdp config datagram established => exact inductionHypothesis earlier

theorem reportable_tcp (m : Mgr) (earlier : List SockRef) {entries : List Entry}
    (tcp : ∀ entry ∈ entries, entry.Tcp) : ∀ entry ∈ reportable m earlier entries, entry.Tcp := by
  induction entries generalizing earlier with
  | nil => simp [reportable]
  | cons entry rest inductionHypothesis =>
      have later : ∀ earlier, ∀ entry ∈ reportable m earlier rest, entry.Tcp := fun earlier =>
        inductionHypothesis earlier
          fun other membership => tcp other (List.mem_cons_of_mem _ membership)
      have first := tcp entry List.mem_cons_self
      cases entry with
      | socket s events recvs sends =>
          rw [reportable]
          split
          · simpa using ⟨first, later (s :: earlier)⟩
          · exact later earlier
      | wakeup epollIn readOk => simpa [reportable] using ⟨first, later earlier⟩
      | listenTcp config accepted => simpa [reportable] using ⟨first, later earlier⟩
      | listenUdp config datagram established => exact absurd first id

theorem epollWait_spec (entries : List Entry) (tcp : ∀ entry ∈ entries, entry.Tcp)
    (idle : Idle [] w) :
    Wp allowed (epollWait entries) (fun reported w' =>
      Idle reported w' ∧ ∀ entry ∈ reported, entry.Tcp) w := by
  obtain ⟨unique, members⟩ := reportable_targets w.mgr [] entries
  have reportedTcp := reportable_tcp w.mgr [] tcp
  unfold epollWait
  rw [wp_bind, wp_get, wp_bind, wp_modifyMgr, wp_pure]
  generalize reportable w.mgr [] entries = reported at unique members reportedTcp ⊢
  refine ⟨⟨idle.sane.next rfl ?_, idle.held, rfl⟩, reportedTcp⟩
  have unheld : ∀ s, (w.mgr.view s).held = 0 := by simp [Mgr.view, idle.held]
  have waiting : ∀ s, (w.mgr.view s).unprocessed = 0 := by simp [Mgr.view, idle.batch]
  have view : ∀ s, ({ w.mgr with batch := reported.filterMap Entry.target } : Mgr).view s =
      { w.mgr.view s with unprocessed := (reported.filterMap Entry.target).count s } :=
    fun _ => rfl
  refine idle.sane.1.advance ?_ idle.sane.1.keys ?_
  · intro s
    rw [view s]
    by_cases inside : s ∈ reported.filterMap Entry.target
    · rw [List.count_eq_one_of_mem unique inside]
      exact Or.inr (.report (members s inside).1 (waiting s) (unheld s))
    · rw [List.count_eq_zero_of_not_mem inside, ← waiting s]
      exact Or.inl rfl
  · intro s large
    have blank := idle.sane.1.fresh s large
    have absent : s ∉ reported.filterMap Entry.target := by
      intro inside
      exact (members s inside).1 (congrArg View.interest blank)
    rw [view s, List.count_eq_zero_of_not_mem absent, ← waiting s]
    exact blank

theorem socketUpdate_tcp (curTime : UInt32) (present : w.mgr.heap s = some sock)
    (tcp : sock.socketType = .tcp) {post : Unit → World → Prop} :
    Wp allowed (Socket.update s curTime) post w ↔ post () w := by
  rw [Socket.update, wp_bind, wp_deref present]
  simp only [tcp, reduceCtorEq, false_and, if_false, wp_pure]

/-- `Update` does nothing to a TCP socket but take a reference and give it back. -/
theorem updateOne_spec (curTime : UInt32) (idle : Idle [] w) (present : w.mgr.heap s = some sock)
    (tcp : sock.socketType = .tcp) :
    Wp allowed (do
      hold s
      Socket.update s curTime
      unhold s) (fun _ w' => Idle [] w' ∧ w'.mgr.socketMap = w.mgr.socketMap) w := by
  have counted := (idle.sane.1.good s).outline.counted _ (View.outline_sock present)
  have remains : sock.count + 1 - 1 ≠ 0 := by
    have exactly : sock.count = _ := counted.1
    omega
  have changed := local_setSocket w.mgr s { sock with count := sock.count + 1 }
  have taken : ((w.mgr.setSocket s { sock with count := sock.count + 1 }).hold s).unhold s =
      w.mgr.setSocket s { sock with count := sock.count + 1 } := by
    simp [Mgr.hold, Mgr.unhold]
  simp only [hold, refAdd, unhold]
  rw [bind_assoc, wp_bind, wp_updateSocket present, wp_bind, wp_modifyMgr, wp_bind]
  refine (socketUpdate_tcp
    (w := { w with mgr := (w.mgr.setSocket s { sock with count := sock.count + 1 }).hold s })
    curTime changed.heap tcp).mpr ?_
  rw [wp_bind, wp_modifyMgr, taken]
  refine (refRelease_spec
    (w := { w with mgr := w.mgr.setSocket s { sock with count := sock.count + 1 } })
    changed.heap).mono ?_
  rintro _ w' ⟨v', rfl, released, seen⟩
  have back : ((w.mgr.view s).setSock { sock with count := sock.count + 1 }).release
      { sock with count := sock.count + 1 } = w.mgr.view s := by
    have same : w.mgr.view s = { w.mgr.view s with sock := some sock } := by
      conv_rhs => rw [← present]
      rfl
    rw [View.release, if_neg remains]
    simp only [View.setSock, Int.add_sub_cancel]
    exact same.symm
  have unchanged := changed.trans released
  simp only [changed.self, back] at unchanged
  have views : w'.mgr.view = w.mgr.view := by
    rw [unchanged.view, Function.update_eq_self]
  refine ⟨⟨idle.sane.next seen ?_, unchanged.held.trans idle.held,
    unchanged.batch.trans idle.batch⟩, unchanged.socketMap⟩
  refine idle.sane.1.advance (fun other => Or.inl (congrFun views other)) ?_ ?_
  · rw [unchanged.socketMap]
    exact idle.sane.1.keys
  · rw [views, unchanged.nextRef]
    exact idle.sane.1.fresh

theorem updateAll_spec (curTime : UInt32) (entries : List (Nat × SockRef))
    (inside : ∀ entry ∈ entries, entry ∈ w.mgr.socketMap) (idle : Idle [] w) :
    Wp allowed (updateAll curTime entries) (fun _ w' => Idle [] w') w := by
  induction entries generalizing w with
  | nil => exact idle
  | cons entry rest inductionHypothesis =>
      obtain ⟨connIdx, s⟩ := entry
      obtain ⟨sock, present, _, tcp, _⟩ := idle.sane.1.found (inside (connIdx, s) (by simp))
      have updated : Wp allowed ((do
          hold s
          Socket.update s curTime
          unhold s) >>= fun _ => updateAll curTime rest) (fun _ w' => Idle [] w') w := by
        refine (updateOne_spec curTime idle present tcp).seq ?_
        rintro _ w₁ ⟨idle₁, map⟩
        refine inductionHypothesis ?_ idle₁
        intro entry membership
        rw [map]
        exact inside entry (List.mem_cons_of_mem _ membership)
      simpa only [updateAll, bind_assoc] using updated

section Looping

variable (exhausted : ∀ w, Sane w → allowed .idsExhausted w)
  (diverges : ∀ w, Sane w → allowed .diverges w)

include exhausted diverges

theorem processEntry_spec {entry : Entry} {rest : List Entry} (tcp : entry.Tcp)
    (idle : Idle (entry :: rest) w) :
    Wp allowed (processEntry entry) (fun _ w' => Idle rest w') w := by
  have same : ∀ w', entry.target = none → Sane w' ∧ SameTurn w w' → Idle rest w' := by
    rintro w' untargeted ⟨sane', turn⟩
    refine ⟨sane', turn.held.trans idle.held, turn.batch.trans (idle.batch.trans ?_)⟩
    simp [untargeted]
  cases entry with
  | wakeup epollIn readOk =>
      rw [processEntry]
      split
      · exact (handleDelayEvent_spec idle.sane).mono fun _ w' => same w' rfl
      · exact same w rfl ⟨idle.sane, .refl w⟩
  | listenTcp config accepted =>
      rw [processEntry]
      cases accepted with
      | none => exact same w rfl ⟨idle.sane, .refl w⟩
      | some aSocket =>
          exact (accept_spec exhausted idle.sane aSocket config).mono fun _ w' => same w' rfl
  | listenUdp config datagram established => exact absurd tcp id
  | socket s events recvs sends =>
      have processed : Wp allowed ((do
          modifyMgr fun m => { m with batch := m.batch.erase s }
          hold s) >>= fun _ => do
            handleSocketEvent s events recvs sends
            unhold s) (fun _ w' => Idle rest w') w := by
        refine (take_spec idle).seq ?_
        rintro _ w₁ ⟨sane₁, held, batch, settled⟩
        have mine : (w₁.mgr.view s).held ≠ 0 := by simp [Mgr.view, held]
        refine (handleSocketEvent_spec exhausted diverges events recvs sends sane₁ mine settled).seq ?_
        intro _ w₂ handled
        refine (unhold_spec handled.sane (handled.turn.held_ne mine) handled.settled).mono ?_
        rintro _ w₃ ⟨sane₃, released, batch₃⟩
        refine ⟨sane₃, ?_, ?_⟩
        · rw [released, handled.turn.held, held]
          simp
        · rw [batch₃, handled.turn.batch, batch]
      simpa only [processEntry, bind_assoc] using processed

theorem processBatch_spec (entries : List Entry) (tcp : ∀ entry ∈ entries, entry.Tcp)
    (idle : Idle entries w) :
    Wp allowed (processBatch entries) (fun _ w' => Idle [] w') w := by
  induction entries generalizing w with
  | nil => exact idle
  | cons entry rest inductionHypothesis =>
      rw [processBatch, wp_bind, wp_mark]
      have marked : Idle (entry :: rest) { w with seen := w.mgr :: w.seen } :=
        ⟨idle.sane.marked, idle.held, idle.batch⟩
      refine (processEntry_spec exhausted diverges (tcp entry (by simp)) marked).seq ?_
      intro _ w₁ idle₁
      exact inductionHypothesis (fun other membership => tcp other (by simp [membership])) idle₁

theorem batchLoop_spec (batches : List (List Entry))
    (tcp : ∀ entries ∈ batches, ∀ entry ∈ entries, entry.Tcp) (idle : Idle [] w) :
    Wp allowed (batchLoop batches) (fun _ w' => Idle [] w') w := by
  induction batches generalizing w with
  | nil => exact idle
  | cons entries rest inductionHypothesis =>
      rw [batchLoop]
      refine (epollWait_spec entries (tcp entries (by simp)) idle).seq ?_
      rintro reported w₁ ⟨idle₁, reportedTcp⟩
      split
      · next empty =>
          rw [List.isEmpty_iff] at empty
          exact empty ▸ idle₁
      · refine (processBatch_spec exhausted diverges reported reportedTcp idle₁).seq ?_
        intro _ w₂ idle₂
        exact inductionHypothesis (fun later membership => tcp later (by simp [membership])) idle₂

theorem eventLoop_spec (startTime : UInt32) (batches : List (List Entry))
    (tcp : ∀ entries ∈ batches, ∀ entry ∈ entries, entry.Tcp) (idle : Idle [] w) :
    Wp allowed (eventLoop startTime batches) (fun _ w' => Idle [] w') w := by
  unfold eventLoop
  rw [wp_bind, wp_get]
  refine (updateAll_spec startTime _ (fun _ membership => membership) idle).seq ?_
  intro _ w₁ idle₁
  exact batchLoop_spec exhausted diverges batches tcp idle₁

def Op.Tcp : Op → Prop
  | .eventLoop _ batches => ∀ entries ∈ batches, ∀ entry ∈ entries, entry.Tcp
  | .connect _ _ => True
  | .lua call => call.Tcp

theorem run_spec (op : Op) (tcp : op.Tcp) (idle : Idle [] w) :
    Wp allowed op.run (fun _ w' => Idle [] w') w := by
  have still : ∀ w', Sane w' ∧ SameTurn w w' → Idle [] w' := fun w' kept =>
    ⟨kept.1, kept.2.held.trans idle.held, kept.2.batch.trans idle.batch⟩
  cases op with
  | eventLoop startTime batches =>
      exact eventLoop_spec exhausted diverges startTime batches tcp idle
  | connect config outcome =>
      exact (connect_spec exhausted idle.sane config outcome).seq fun _ w' => still w'
  | lua call =>
      exact (luaCall_spec exhausted idle.sane tcp).mono
        fun _ w' kept => still w' ⟨kept.1, kept.2.sameTurn⟩

end Looping

end Runs

/-! ## Whole runs -/

def Step.Tcp (step : Step) : Prop :=
  step.op.Tcp ∧ ∀ calls ∈ step.scripts, ∀ call ∈ calls, LuaCall.Tcp call

def Step.points (step : Step) (m : Mgr) : List Mgr := (step.exec m).2.mgr :: (step.exec m).2.seen

/-- Runs whose steps all involve TCP sockets only. -/
def tcpSystem : System Mgr Step := system.restrict fun _ step => step.Tcp

theorem exec_spec {m : Mgr} {step : Step} (idle : Idle [] (step.start m)) (tcp : step.Tcp) :
    Wp (fun fault w => (fault = .idsExhausted ∨ fault = .diverges) ∧ Sane w) step.op.run
      (fun _ w' => Idle [] w') (step.start m) :=
  run_spec (fun _ sane => ⟨Or.inl rfl, sane⟩) (fun _ sane => ⟨Or.inr rfl, sane⟩) step.op tcp.1 idle

/-- Whether it returns or not, a step passes consistent managers only. -/
theorem points_consistent {m : Mgr} {step : Step} (idle : Idle [] (step.start m))
    (tcp : step.Tcp) : ∀ point ∈ step.points m, Consistent point := by
  have spec := exec_spec idle tcp
  have sane : Sane (step.exec m).2 := by
    unfold Wp at spec
    rcases ending : step.op.run (step.start m) with ⟨fault | value, w'⟩
    · simp only [ending] at spec
      simpa only [Step.exec, ending] using spec.2
    · simp only [ending] at spec
      simpa only [Step.exec, ending] using spec.sane
  intro point membership
  rcases List.mem_cons.mp membership with rfl | passed
  · exact sane.1
  · exact sane.2.1 point passed

/-- A step fails only by never returning. -/
theorem exec_fault {m : Mgr} {step : Step} (idle : Idle [] (step.start m)) (tcp : step.Tcp)
    {fault : Fault} (failed : (step.exec m).1 = .error fault) :
    fault = .idsExhausted ∨ fault = .diverges := by
  have spec := exec_spec idle tcp
  unfold Wp at spec
  rcases ending : step.op.run (step.start m) with ⟨other | value, w'⟩
  · simp only [Step.exec, ending, Except.error.injEq] at failed
    simp only [ending] at spec
    exact failed ▸ spec.1
  · simp [Step.exec, ending] at failed

theorem reached_idle {m : Mgr} (reached : tcpSystem.Reachable m) {step : Step} (tcp : step.Tcp) :
    Idle [] (step.start m) := by
  induction reached generalizing step with
  | start initial =>
      rw [initial]
      exact ⟨⟨initial_consistent, by simp [Step.start], tcp.2⟩, rfl, rfl⟩
  | @next m m' taken _ executed inductionHypothesis =>
      obtain ⟨takenTcp, returned, rfl⟩ := executed
      have spec := exec_spec (inductionHypothesis takenTcp) takenTcp
      unfold Wp at spec
      rcases ending : taken.op.run (taken.start m) with ⟨fault | value, w'⟩
      · simp [Step.exec, ending] at returned
      · simp only [ending] at spec
        simp only [Step.exec, ending]
        exact ⟨⟨spec.sane.1, by simp [Step.start], tcp.2⟩, spec.held, spec.batch⟩

end CrossOver.Engine.Network
