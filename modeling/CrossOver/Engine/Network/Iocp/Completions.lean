import CrossOver.Engine.Network.Iocp.Operations

/-!
# Completions

What a turn of the event loop does to the accounts.  A dequeued operation leaves
its reference to the loop.  Its handler gives it back, if there is one: a write
that fails is not handled at all, and after a failure with bytes the loop ends
before it looks at the operation.
-/

namespace CrossOver.Engine.Network.Iocp

open CrossOver.Lib

section Handlers

variable {mood : SockRef → Mood} {held : List SockRef} {w : World} {s : SockRef} {sock : Socket}

theorem hold_spec (good : Good mood held w) (active : owed (w.port.lane s) (w.mgr.view s) ≠ 0) :
    Wp Tolerated (liftM (hold s) : W Unit) (fun _ => Good mood (s :: held)) w := by
  rw [wp_lift]
  refine (hold_calm (w := w.shared) good active).mono ?_
  rintro _ shared ⟨calm, _⟩
  exact calm

theorem unhold_spec (good : Good mood (s :: held) w) :
    Wp Tolerated (liftM (unhold s) : W Unit) (fun _ => Good mood held) w := by
  rw [wp_lift]
  refine (unhold_calm (w := w.shared) good List.mem_cons_self).mono ?_
  rintro _ shared ⟨calm, _⟩
  rwa [List.erase_cons_head] at calm

theorem closeSocket_safe (mine : s ∈ held) (settled : mood s = .settled) :
    Safe (Good mood held) (closeSocket s) := by
  intro w good
  obtain ⟨sock, present⟩ := good.alive mine
  unfold closeSocket
  rw [wp_bind, wp_derefs present]
  split
  · next talking =>
      have named := ((good.1.fair s).account sock present).linked talking.symm
      refine shut_spec settled good present named ?_
      intro w₁ sock₁ good₁ present₁
      exact onDisconnect_spec good₁ present₁
  · exact good

theorem handlePeerClosed_safe (mine : s ∈ held) (settled : mood s = .settled) :
    Safe (Good mood held) (handlePeerClosed s) := by
  intro w good
  obtain ⟨sock, present⟩ := good.alive mine
  unfold handlePeerClosed
  rw [wp_bind, wp_derefs present]
  split
  · exact closeSocket_safe mine settled w good
  · next udp =>
      split
      · exact closeSocket_safe mine settled w good
      · have before := good.1.fair s
        rw [settled] at before
        have stopped := before.stop .closed .settled
          (good.active_held mine) present (Or.inl rfl) (fun way => Mood.noConfusion way)
          fun _ => ⟨rfl, fun tcp => absurd (tcp.symm.trans udp) (by simp)⟩
        rw [← settled] at stopped
        have changed := local_setSocket w.mgr s { sock with status := .closed }
        rw [wp_bind, wp_updates present]
        exact onConnect_spec false (good.local present changed stopped) changed.heap

theorem handleReadComplete_spec (settled : mood s = .settled) (data : Bytes)
    (good : Good mood (s :: s :: held) w) :
    Wp Tolerated (handleReadComplete s data) (fun _ => Good mood (s :: held)) w := by
  have mine : s ∈ s :: held := List.mem_cons_self
  unfold handleReadComplete
  refine (unhold_spec good).seq ?_
  intro _ w₁ good₁
  refine (deref_safe mine).then good₁ ?_
  intro sock w₂ good₂
  split
  · dsimp only
    split
    · refine (update_safe mine (by intro _; rfl) (by intro _; rfl)).then good₂ ?_
      intro _ w₃ good₃
      refine (onRead_safe mine settled).then good₃ ?_
      intro _ w₄ good₄
      refine (setupReadEvent_spec good₄ (good₄.active_held mine)).seq ?_
      rintro _ w₅ (⟨rfl, good₅, _⟩ | ⟨rfl, mgr, port⟩)
      · exact good₅
      · refine closeSocket_safe mine settled w₅ ?_
        rw [Good, mgr, port]
        exact good₄
    · exact handlePeerClosed_safe mine settled w₂ good₂
  · split
    · exact closeSocket_safe mine settled w₂ good₂
    · exact good₂

theorem handleClose_spec (settled : mood s = .settled) (good : Good mood (s :: s :: held) w) :
    Wp Tolerated (handleClose s) (fun _ => Good mood (s :: held)) w := by
  have mine : s ∈ s :: held := List.mem_cons_self
  unfold handleClose
  refine (unhold_spec good).seq ?_
  intro _ w₁ good₁
  obtain ⟨sock, present⟩ := good₁.alive mine
  rw [wp_bind, wp_derefs present]
  split
  · next connected =>
      have before := good₁.1.fair s
      rw [settled] at before
      have named := (before.account sock present).linked (Or.inl connected)
      have stopped := before.stop .closing .settled
        (good₁.active_held mine) present (Or.inr ⟨rfl, named⟩) (fun way => Mood.noConfusion way)
        fun _ => ⟨rfl, fun _ finished => SocketStatus.noConfusion finished⟩
      rw [← settled] at stopped
      rw [wp_updates present]
      exact good₁.local present (local_setSocket _ _ _) stopped
  · exact good₁

theorem handleDelaySend_spec (good : Good mood (s :: s :: held) w) :
    Wp Tolerated (handleDelaySend s) (fun _ => Good mood (s :: held)) w := by
  have mine : s ∈ s :: held := List.mem_cons_self
  unfold handleDelaySend
  refine (unhold_spec good).seq ?_
  intro _ w₁ good₁
  obtain ⟨sock, present⟩ := good₁.alive mine
  rw [wp_bind, wp_derefs present]
  split
  · next connected =>
      refine (burstPush_spec good₁ present (good₁.active_held mine) connected).seq ?_
      intro _ _ kept
      exact kept
  · exact good₁

/-- What is known of a socket whose connect has completed. -/
structure Arriving (w : World) (s : SockRef) (sock : Socket) : Prop where
  present : w.mgr.heap s = some sock
  unnamed : (w.mgr.view s).names = []
  status : sock.status = .connecting

theorem handleConnectComplete_spec (settled : mood s = .settled) (isSuccess : Bool)
    (good : Good mood held w) (mine : s ∈ held) (arriving : Arriving w s sock) :
    Wp Tolerated (handleConnectComplete s isSuccess) (fun _ => Good mood held) w := by
  obtain ⟨present, unnamed, status⟩ := arriving
  have before := good.1.fair s
  rw [settled] at before
  unfold handleConnectComplete
  cases isSuccess with
  | false =>
      have stopped := before.stop .closed .settled (good.active_held mine) present (Or.inl rfl)
        (fun way => Mood.noConfusion way) fun _ => ⟨rfl, fun _ _ => unnamed⟩
      rw [← settled] at stopped
      have changed := local_setSocket w.mgr s { sock with status := .closed }
      simp only [Bool.false_eq_true, if_false]
      rw [wp_bind, wp_updates present]
      exact onConnect_spec false (good.local present changed stopped) changed.heap
  | true =>
      simp only [if_true]
      rw [wp_bind, wp_updates present, wp_bind, wp_lift]
      have changed := local_setSocket w.mgr s { sock with status := .connected }
      cases taken : w.mgr.find sock.connIdx with
      | some other =>
          have busy : (w.setSocket s { sock with status := .connected }).shared.mgr.find
              sock.connIdx = some other := taken
          unfold addSocket
          rw [wp_bind, wp_deref (by exact changed.heap), wp_bind, wp_get]
          simp only [busy, Option.isSome_some, if_true]
          simp [Tolerated]
      | none =>
          rw [wp_addSocket (by exact changed.heap) (by exact taken)]
          have view : (((w.mgr.setSocket s { sock with status := .connected }).insert
              sock.connIdx s).setSocket s
                { sock with status := .connected, count := sock.count + 1 }).view =
              Function.update w.mgr.view s
                { w.mgr.view s with
                  sock := some { sock with status := .connected, count := sock.count + 1 }
                  names := [sock.connIdx] } := by
            rw [(local_setSocket _ _ _).view, insert_view, changed.view, Function.update_self,
              Function.update_idem, Function.update_idem, Function.update_self]
            simp [View.setSock, unnamed]
          have keys : ((w.mgr.socketMap ++ [(sock.connIdx, s)]).map Prod.fst).Nodup := by
            rw [List.map_append]
            exact List.Nodup.append good.1.keys (List.nodup_singleton _)
              (List.disjoint_singleton.mpr (Mgr.find_none taken))
          have entered := good.1.at .settled (good.1.allocated present)
            (Function.update_eq_self s w.port.lane).symm view keys rfl
            (before.enter (good.active_held mine) present unnamed status)
          rw [← settled, Function.update_eq_self] at entered
          have good₁ : Good mood held ((w.setSocket s { sock with status := .connected }).resume
              { (w.setSocket s { sock with status := .connected }).shared with
                mgr := ((w.mgr.setSocket s { sock with status := .connected }).insert
                  sock.connIdx s).setSocket s
                    { sock with status := .connected, count := sock.count + 1 } }) :=
            ⟨entered, good.2⟩
          have present₁ := congrArg View.sock ((congrFun view s).trans (Function.update_self ..))
          have names₁ := congrArg View.names ((congrFun view s).trans (Function.update_self ..))
          refine setup_then good₁ (good₁.active_held mine) ?_ ?_
          · intro w₂ sock₂ good₂ present₂ _
            exact onConnect_spec true good₂ present₂
          · intro w₂ good₂ same
            refine shut_spec settled good₂ (by rw [same]; exact present₁) ?_ ?_
            · rw [same]
              exact fun empty => absurd (names₁.symm.trans empty) (by simp)
            · intro w₃ sock₃ good₃ present₃
              exact onConnect_spec false good₃ present₃

end Handlers

/-! ## New connections -/

section Births

variable {mood : SockRef → Mood} {held : List SockRef}

theorem accept_safe (aSocket : Nat) (config : Config) :
    Safe (Good mood held) (accept aSocket config) := by
  intro w good
  unfold accept
  refine wp_fresh ?_
  intro connIdx auto missing
  have unused := newSocket_unused .tcp aSocket connIdx config .closed fun udp => nomatch udp
  have same : ({ newSocket .tcp aSocket connIdx config with status := .closed } : Socket) =
      newSocket .tcp aSocket connIdx config := rfl
  have key : (newSocket .tcp aSocket connIdx config).connIdx = connIdx := rfl
  rw [same] at unused
  generalize newSocket .tcp aSocket connIdx config = sock at unused key ⊢
  refine enroll_then good unused (by rw [key]; exact missing) auto ?_
  intro w₁ good₁ present₁ named₁
  refine setup_then good₁ (owed_pos_of_named named₁) ?_ ?_
  · intro w₂ sock₂ good₂ present₂ _
    exact onConnect_spec true good₂ present₂
  · intro w₂ good₂ same
    have present₂ := present₁
    rw [← same] at present₂
    rw [wp_bind, wp_derefs present₂]
    refine (removeSocket_spec good₂ present₂ (by rw [same]; exact named₁) (Or.inr ?_)).mono ?_
    · change sock.count + 1 - 1 = 0
      rw [unused.count]
      rfl
    · intro _ w₃ good₃
      rwa [good.moods] at good₃

theorem connect_safe (config : Config) (connected : Bool) :
    Safe (Good mood held) (connect config connected) := by
  intro w good
  unfold connect
  refine wp_fresh ?_
  intro connIdx auto missing
  have unused := newSocket_unused .tcp 0 connIdx { config with isParsePackage := true } .connecting
    fun _ => rfl
  have key : (newSocket .tcp 0 connIdx { config with isParsePackage := true }).connIdx = connIdx := rfl
  generalize made : ({ newSocket .tcp 0 connIdx { config with isParsePackage := true } with
    status := .connecting } : Socket) = sock at unused ⊢
  have sameKey : sock.connIdx = connIdx := by
    rw [← made]
    exact key
  cases connected with
  | false =>
      simp only [Bool.false_eq_true, if_false]
      refine (discard_spec good auto sock).seq ?_
      intro _ _ kept
      exact kept
  | true =>
      simp only [if_true]
      refine enroll_then good unused (by rw [sameKey]; exact missing) auto ?_
      intro w₁ good₁ present₁ named₁
      refine setup_then good₁ (owed_pos_of_named named₁) ?_ ?_
      · intro w₂ sock₂ good₂ present₂ _
        refine (onConnect_spec true good₂ present₂).seq ?_
        intro _ _ good₃
        exact good₃
      · intro w₂ good₂ same
        refine shut_then (good.1.fresh _ le_rfl).2.2 good₂ (by rw [same]; exact present₁)
          (by rw [same]; exact named₁) ?_ fun _ kept => kept
        intro w₃ sock₃ good₃ present₃
        exact onConnect_spec false good₃ present₃

end Births

/-! ## Dequeued operations -/

section Dequeue

variable {mood : SockRef → Mood} {held : List SockRef} {w : World} {s : SockRef} {sock : Socket}

/-- The reference of an operation of `s` passes to the loop. -/
theorem Good.inherit (good : Good mood held w) {w' : World} {lane : Lane} {v : View}
    (present : w.mgr.heap s = some sock)
    (lanes : w'.port.lane = Function.update w.port.lane s lane)
    (view : w'.mgr.view = Function.update w.mgr.view s v)
    (socketMap : w'.mgr.socketMap = w.mgr.socketMap) (nextRef : w'.mgr.nextRef = w.mgr.nextRef)
    (inherited : w'.mgr.held = s :: w.mgr.held) (fair : Fair (mood s) lane v) :
    Good mood (s :: held) w' := by
  have moved := good.1.at (mood s) (good.1.allocated present) lanes view (socketMap ▸ good.1.keys)
    nextRef fair
  rw [Function.update_eq_self] at moved
  exact ⟨moved, by rw [inherited, good.2]⟩

theorem lane_unread (port : Port) (s : SockRef) :
    ({ port with reads := port.reads.erase s } : Port).lane =
      Function.update port.lane s { port.lane s with reads := (port.lane s).reads - 1 } := by
  funext other
  by_cases here : other = s
  · subst here
    simp [Port.lane]
  · simp [Port.lane, here, List.count_erase_of_ne here]

theorem read_dequeued (good : Good mood held w) (outstanding : s ∈ w.port.reads) :
    Good mood (s :: held)
      { w with port := { w.port with reads := w.port.reads.erase s }, mgr := w.mgr.hold s } := by
  have counted : 0 < (w.port.lane s).reads := List.count_pos_iff.mpr outstanding
  have active : owed (w.port.lane s) (w.mgr.view s) ≠ 0 := by
    simp only [owed]
    omega
  obtain ⟨sock, present⟩ := good.1.alive active
  refine good.inherit present (lane_unread w.port s) (hold_view w.mgr s) rfl rfl rfl ?_
  refine (good.1.fair s).advance active present present rfl rfl rfl ?_ ?_
  · intro account
    have same : owed { w.port.lane s with reads := (w.port.lane s).reads - 1 }
        { w.mgr.view s with held := (w.mgr.view s).held + 1 } =
        owed (w.port.lane s) (w.mgr.view s) := by
      simp only [owed, View.refs]
      omega
    rw [same]
    exact account
  · intro _ conduit
    exact conduit

theorem erase_event_view (m : Mgr) (event : SocketEvent) :
    ({ m with eventQueue := m.eventQueue.erase event } : Mgr).view =
      Function.update m.view event.s
        { m.view event.s with
          events := ((m.eventQueue.erase event).filter fun other => other.s = event.s).map
            SocketEvent.customizedEvents } := by
  have here : ({ m with eventQueue := m.eventQueue.erase event } : Mgr).view event.s =
      { m.view event.s with
        events := ((m.eventQueue.erase event).filter fun other => other.s = event.s).map
          SocketEvent.customizedEvents } := rfl
  rw [← here]
  apply view_eq_update
  intro other different
  have same : (m.eventQueue.erase event).filter (fun queued => queued.s = other) =
      m.eventQueue.filter fun queued => queued.s = other := by
    rw [← List.erase_filter, List.erase_of_not_mem]
    intro inside
    simp only [List.mem_filter, decide_eq_true_eq] at inside
    exact different inside.2.symm
  simp only [Mgr.view, same]

theorem length_filter_erase {Value : Type} [DecidableEq Value] (p : Value → Bool)
    {values : List Value} {value : Value} (inside : value ∈ values) (meets : p value = true) :
    ((values.erase value).filter p).length + 1 = (values.filter p).length := by
  have moved := ((List.perm_cons_erase inside).filter p).length_eq
  rw [List.filter_cons_of_pos meets, List.length_cons] at moved
  exact moved.symm

theorem posted_dequeued (good : Good mood held w) {event : SocketEvent}
    (posted : event ∈ w.mgr.eventQueue) :
    Good mood (event.s :: held)
      { w with
        mgr := ({ w.mgr with eventQueue := w.mgr.eventQueue.erase event } : Mgr).hold event.s } := by
  have fewer := length_filter_erase (fun other => decide (other.s = event.s)) posted (by simp)
  have active : owed (w.port.lane event.s) (w.mgr.view event.s) ≠ 0 := by
    simp only [owed, View.refs, Mgr.view, List.length_map]
    omega
  obtain ⟨sock, present⟩ := good.1.alive active
  have view := hold_view { w.mgr with eventQueue := w.mgr.eventQueue.erase event } event.s
  rw [erase_event_view, Function.update_idem, Function.update_self] at view
  refine good.inherit present (Function.update_eq_self event.s w.port.lane).symm view rfl rfl rfl ?_
  refine (good.1.fair event.s).advance active present present rfl rfl rfl ?_ ?_
  · intro account
    have same : owed (w.port.lane event.s)
        { w.mgr.view event.s with
          events := ((w.mgr.eventQueue.erase event).filter fun other => other.s = event.s).map
            SocketEvent.customizedEvents
          held := (w.mgr.view event.s).held + 1 } =
        owed (w.port.lane event.s) (w.mgr.view event.s) := by
      simp only [owed, View.refs, Mgr.view, List.length_map]
      omega
    rw [same]
    exact account
  · intro _ conduit
    exact conduit

theorem lane_unconnect (port : Port) (s : SockRef) :
    ({ port with connects := port.connects.erase s } : Port).lane =
      Function.update port.lane s
        { port.lane s with connects := (port.lane s).connects - 1 } := by
  funext other
  by_cases here : other = s
  · subst here
    simp [Port.lane]
  · simp [Port.lane, here, List.count_erase_of_ne here]

/-- The loop takes a reference to a socket whose connect has completed. -/
theorem connect_dequeued (settled : mood s = .settled) (good : Good mood held w)
    (outstanding : s ∈ w.port.connects) :
    Wp Tolerated (liftM (hold s) : W Unit)
      (fun _ w' => Good mood (s :: held) w' ∧ ∃ sock, Arriving w' s sock)
      { w with port := { w.port with connects := w.port.connects.erase s } } := by
  have connecting : (w.port.lane s).connects ≠ 0 :=
    Nat.ne_of_gt (List.count_pos_iff.mpr outstanding)
  have before := good.1.fair s
  rw [settled] at before
  obtain ⟨_, nothing, kind⟩ := before.pending connecting
  obtain ⟨sock, present⟩ : ∃ sock, w.mgr.heap s = some sock := by
    obtain absent | ⟨sock, present⟩ := Option.eq_none_or_eq_some (w.mgr.heap s)
    · exact absurd (before.gone absent).2 connecting
    · exact ⟨sock, present⟩
  have fair := before.arrive connecting present
  rw [← settled] at fair
  rw [wp_lift]
  simp only [hold, refAdd]
  rw [wp_bind, wp_updateSocket (by exact present), wp_modifyMgr]
  have view : ((w.mgr.setSocket s { sock with count := sock.count + 1 }).hold s).view =
      Function.update w.mgr.view s
        { (w.mgr.view s).setSock { sock with count := sock.count + 1 } with
          held := (w.mgr.view s).held + 1 } := by
    rw [hold_view, (local_setSocket _ _ _).view, Function.update_idem, Function.update_self]
    rfl
  have here := (congrFun view s).trans (Function.update_self ..)
  refine ⟨good.inherit present (lane_unconnect w.port s) view rfl rfl rfl fair,
    { sock with count := sock.count + 1 }, congrArg View.sock here, ?_, (kind sock present).2⟩
  have unnamed : (w.mgr.view s).names = [] := by
    by_contra named
    exact owed_pos_of_named named nothing
  exact (congrArg View.names here).trans unnamed

theorem lane_unwrite (port : Port) (write : Write) :
    ({ port with writes := port.writes.erase write } : Port).lane =
      Function.update port.lane write.s
        { port.lane write.s with
          writes := ((port.writes.erase write).filter fun other => other.s = write.s).map
            Write.data } := by
  funext other
  by_cases here : other = write.s
  · subst here
    simp [Port.lane]
  · have same : (port.writes.erase write).filter (fun queued => queued.s = other) =
        port.writes.filter fun queued => queued.s = other := by
      rw [← List.erase_filter, List.erase_of_not_mem]
      intro inside
      simp only [List.mem_filter, decide_eq_true_eq] at inside
      exact here inside.2.symm
    simp [Port.lane, here, same]

theorem active_write {port : Port} {v : View} {write : Write} (outstanding : write ∈ port.writes) :
    owed (port.lane write.s) v ≠ 0 := by
  have fewer := length_filter_erase (fun other => decide (other.s = write.s)) outstanding (by simp)
  simp only [owed, Port.lane, List.length_map]
  omega

structure Writing (write : Write) (sock : Socket) : Prop where
  locked : sock.writeLock = 1
  short : write.data.length ≤ sock.writeBuffer.len
  start : sock.writeBuffer.buffer.take write.data.length = write.data
  status : sock.status ≠ .connecting

theorem write_dequeued {write : Write} {w' : World} {after : SequenceBuffer} {log : List LogEntry}
    (good : Good mood held w) (outstanding : write ∈ w.port.writes)
    (present : w.mgr.heap write.s = some sock)
    (port : w'.port = { w.port with writes := w.port.writes.erase write })
    (view : w'.mgr.view = Function.update w.mgr.view write.s
      { w.mgr.view write.s with
        sock := some { sock with writeBuffer := after }
        held := (w.mgr.view write.s).held + 1
        log := log })
    (rest : (w'.mgr.socketMap, w'.mgr.nextRef, w'.mgr.held) =
      (w.mgr.socketMap, w.mgr.nextRef, write.s :: w.mgr.held))
    (conduit : Writing write sock →
      Conduit (w.port.lane write.s).writes (w.mgr.view write.s).log sock →
      Conduit [] log { sock with writeBuffer := after }) :
    Good mood (write.s :: held) w' ∧
      (sock.socketType = .tcp → (w'.port.lane write.s).writes = [] ∧ Writing write sock) := by
  simp only [Prod.mk.injEq] at rest
  have fewer := length_filter_erase (fun other => decide (other.s = write.s)) outstanding (by simp)
  have inside : write.data ∈ (w.port.lane write.s).writes := by
    simp only [Port.lane, List.mem_map, List.mem_filter, decide_eq_true_eq]
    exact ⟨write, ⟨outstanding, rfl⟩, rfl⟩
  have last : sock.socketType = .tcp →
      ((w.port.writes.erase write).filter fun other => other.s = write.s).map Write.data = [] ∧
        Writing write sock := by
    intro tcp
    have before := (good.1.fair write.s).conduit sock present tcp
    obtain ⟨_, nothing⟩ | ⟨locked, few⟩ := before.lock
    · rw [nothing] at inside
      cases inside
    · obtain ⟨short, start⟩ := before.handed write.data inside
      refine ⟨?_, locked, short, start, ?_⟩
      · apply List.length_eq_zero_iff.mp
        simp only [Port.lane, List.length_map] at few
        rw [List.length_map]
        omega
      · intro connecting
        rw [before.idle connecting] at inside
        cases inside
  have lanes : w'.port.lane = _ := (congrArg Port.lane port).trans (lane_unwrite w.port write)
  refine ⟨good.inherit present lanes view rest.1 rest.2.1 rest.2.2 ?_, ?_⟩
  · refine (good.1.fair write.s).advance (active_write outstanding) present rfl rfl rfl rfl ?_ ?_
    · intro account
      have same : owed
          { w.port.lane write.s with
            writes := ((w.port.writes.erase write).filter fun other => other.s = write.s).map
              Write.data }
          { w.mgr.view write.s with
            sock := some { sock with writeBuffer := after }
            held := (w.mgr.view write.s).held + 1
            log := log } = owed (w.port.lane write.s) (w.mgr.view write.s) := by
        simp only [owed, View.refs, Port.lane, List.length_map]
        omega
      rw [same]
      exact account.same rfl
    · intro tcp before
      obtain ⟨none, writing⟩ := last tcp
      dsimp only
      rw [none]
      exact conduit writing before
  · intro tcp
    obtain ⟨none, writing⟩ := last tcp
    refine ⟨?_, writing⟩
    rw [lanes, Function.update_self]
    exact none

theorem Conduit.taken {writes : List Bytes} {log : List LogEntry} {write : Write} {bytes : Nat}
    (conduit : Conduit writes log sock) (writing : Writing write sock)
    (few : bytes ≤ write.data.length) :
    Conduit [] (log ++ [.sent write.s (write.data.take bytes)])
      { sock with writeBuffer := sock.writeBuffer.remove bytes } := by
  have sound := conduit.whole.toSound
  have inside : bytes ≤ sock.writeBuffer.len := few.trans writing.short
  obtain ⟨whole, content, _⟩ := SequenceBuffer.remove_inside sound inside
  have taken : write.data.take bytes = sock.writeBuffer.content.take bytes := by
    rw [← writing.start, List.take_take, Nat.min_eq_left few, SequenceBuffer.take_buffer sound inside]
  refine ⟨whole, Or.inr ⟨writing.locked, by simp⟩, by simp, fun _ => rfl, ?_⟩
  intro sending
  have flow := conduit.flow sending
  dsimp only
  rw [content, List.flatMap_append, List.flatMap_append]
  simp only [List.flatMap_singleton, LogEntry.sentBytes, LogEntry.queuedBytes, List.append_nil]
  rw [taken, List.append_assoc, List.take_append_drop, flow]

end Dequeue

/-! ## A turn of the loop -/

/-- The operation is handled: it succeeded, or it is one that the second `switch`
knows and has transferred nothing. -/
def Completion.Handled (completion : Completion) : Prop :=
  completion.ret = true ∨ completion.bytesTransferred = 0 ∧
    match completion.operation with
    | .write _ _ => False
    | _ => True

section Turn

variable {mood : SockRef → Mood} {held : List SockRef} {w : World} {s : SockRef} {sock : Socket}

/-- A reference that is taken and given back. -/
theorem wp_hold_unhold {Value : Type} {rest : W Value} {post : Value → World → Prop}
    (present : w.mgr.heap s = some sock) (counted : sock.count ≠ 0) :
    Wp Tolerated (do
      hold s
      unhold s
      rest : W Value) post w ↔ Wp Tolerated rest post w := by
  have raised := (local_setSocket w.mgr s { sock with count := sock.count + 1 }).heap
  have same : ((((w.mgr.setSocket s { sock with count := sock.count + 1 }).hold s).unhold s).setSocket
      s { sock with count := sock.count + 1 - 1 }) = w.mgr := by
    rw [Int.add_sub_cancel]
    simp only [Mgr.setSocket, Mgr.hold, Mgr.unhold, List.erase_cons_head, Function.update_idem]
    rw [← present, Function.update_eq_self]
  have lowered := (local_setSocket
    (((w.mgr.setSocket s { sock with count := sock.count + 1 }).hold s).unhold s) s
      { sock with count := sock.count + 1 - 1 }).heap
  simp only [hold, refAdd, unhold, refRelease]
  rw [wp_bind, wp_lift, wp_bind, wp_updateSocket (by exact present), wp_modifyMgr, wp_bind, wp_lift,
    wp_bind, wp_modifyMgr, wp_bind, wp_updateSocket (by exact raised), wp_bind,
    wp_deref (by exact lowered), if_neg (by rw [Int.add_sub_cancel]; exact counted), wp_pure]
  change Wp Tolerated rest post { w with mgr := ((((w.mgr.setSocket s
    { sock with count := sock.count + 1 }).hold s).unhold s).setSocket s
      { sock with count := sock.count + 1 - 1 }) } ↔ Wp Tolerated rest post w
  rw [same]

/-- The handler gives back the reference of the operation, the loop its own. -/
theorem turn_spec {handler : W Unit} (good : Good mood (s :: held) w)
    (handles : ∀ w', Good mood (s :: s :: held) w' →
      Wp Tolerated handler (fun _ => Good mood (s :: held)) w') :
    Wp Tolerated (do
      hold s
      handler
      unhold s : W Unit) (fun _ => Good mood held) w := by
  refine (hold_spec good (good.active_held List.mem_cons_self)).seq ?_
  intro _ w₁ good₁
  refine (handles w₁ good₁).seq ?_
  intro _ w₂ good₂
  exact unhold_spec good₂

theorem read_spec (settled : ∀ s, mood s = .settled) (ret : Bool) (data : Bytes)
    (good : Good mood held w) (outstanding : s ∈ w.port.reads) :
    Wp Tolerated (complete { s := s, operation := .read data, ret := ret }) (fun _ w' =>
      Good mood held w' ∨
        ¬Completion.Handled { s := s, operation := .read data, ret := ret } ∧
          Good mood (s :: held) w') w := by
  have dequeued := read_dequeued good outstanding
  unfold complete dequeue
  dsimp only
  rw [wp_bind, wp_bind, wp_modifyPort]
  unfold inherit
  rw [wp_lift, wp_modifyMgr]
  split
  · refine (turn_spec dequeued ?_).mono fun _ _ kept => Or.inl kept
    intro w' good'
    exact handleReadComplete_spec (settled s) data good'
  · next failed =>
      split
      · refine (turn_spec dequeued ?_).mono fun _ _ kept => Or.inl kept
        intro w' good'
        exact handleReadComplete_spec (settled s) data good'
      · next some =>
          refine Or.inr ⟨?_, dequeued⟩
          rintro (succeeded | ⟨nothing, _⟩)
          · exact failed succeeded
          · exact some nothing

theorem posted_spec {event : SocketEvent} {handler : W Unit} (good : Good mood held w)
    (posted : event ∈ w.mgr.eventQueue)
    (handles : ∀ w', Good mood (event.s :: event.s :: held) w' →
      Wp Tolerated handler (fun _ => Good mood (event.s :: held)) w') :
    Wp Tolerated (do
      takePosted event
      hold event.s
      handler
      unhold event.s : W Unit) (fun _ => Good mood held) w := by
  have dequeued := posted_dequeued good posted
  rw [wp_bind, wp_lift]
  unfold takePosted inherit
  rw [wp_bind, wp_modifyMgr, wp_modifyMgr]
  exact turn_spec dequeued handles

theorem connect_spec (settled : ∀ s, mood s = .settled) (ret : Bool) (good : Good mood held w)
    (outstanding : s ∈ w.port.connects) :
    Wp Tolerated (complete { s := s, operation := .connect, ret := ret })
      (fun _ => Good mood held) w := by
  unfold complete dequeue
  dsimp only
  rw [wp_bind, wp_modifyPort]
  have handled : ∀ isSuccess, Wp Tolerated (do
      hold s
      handleConnectComplete s isSuccess
      unhold s : W Unit) (fun _ => Good mood held)
      { w with port := { w.port with connects := w.port.connects.erase s } } := by
    intro isSuccess
    refine (connect_dequeued (settled s) good outstanding).seq ?_
    rintro _ w₁ ⟨good₁, sock, arriving⟩
    refine (handleConnectComplete_spec (settled s) isSuccess good₁ List.mem_cons_self arriving).seq ?_
    intro _ w₂ good₂
    exact unhold_spec good₂
  split
  · exact handled true
  · exact handled false

def World.unwrite (w : World) (write : Write) : World :=
  { w with
    port := { w.port with writes := w.port.writes.erase write }
    mgr := w.mgr.hold write.s }

theorem failed_spec {write : Write} (good : Good mood held w)
    (outstanding : write ∈ w.port.writes) : Good mood (write.s :: held) (w.unwrite write) := by
  obtain ⟨sock, present⟩ := good.1.alive (active_write outstanding)
  have view : (w.unwrite write).mgr.view = Function.update w.mgr.view write.s
      { w.mgr.view write.s with
        sock := some { sock with writeBuffer := sock.writeBuffer }
        held := (w.mgr.view write.s).held + 1
        log := (w.mgr.view write.s).log } := by
    have alive : (w.mgr.view write.s).sock = some sock := present
    rw [← alive]
    exact hold_view w.mgr write.s
  refine (write_dequeued good outstanding present rfl view rfl ?_).1
  intro writing conduit
  exact ⟨conduit.whole, Or.inr ⟨writing.locked, by simp⟩, by simp, fun _ => rfl, conduit.flow⟩

def World.sent (w : World) (write : Write) (bytes : Nat) : World :=
  { w.unwrite write with
    mgr := (w.mgr.hold write.s).record (.sent write.s (write.data.take bytes)) }

theorem sent_view (w : World) (write : Write) (bytes : Nat) :
    (w.sent write bytes).mgr.view = Function.update w.mgr.view write.s
      { w.mgr.view write.s with
        held := (w.mgr.view write.s).held + 1
        log := (w.mgr.view write.s).log ++ [.sent write.s (write.data.take bytes)] } := by
  have subject : LogEntry.subject (.sent write.s (write.data.take bytes)) = some write.s := rfl
  have recorded := (local_record (w.mgr.hold write.s) subject).view
  rw [hold_view, Function.update_idem, Function.update_self] at recorded
  exact recorded

theorem write_spec {write : Write} {bytes : Nat} (good : Good mood held w)
    (outstanding : write ∈ w.port.writes) (few : bytes ≤ write.data.length) :
    Wp Tolerated (complete { s := write.s, operation := .write write bytes, ret := true })
      (fun _ => Good mood held) w := by
  have active := active_write (v := w.mgr.view write.s) outstanding
  obtain ⟨sock, present⟩ := good.1.alive active
  have counted : sock.count ≠ 0 := by
    have bounded := ((good.1.fair write.s).account sock present).bounded
    omega
  have present₁ : (w.sent write bytes).mgr.heap write.s = some sock := present
  have begun : complete { s := write.s, operation := .write write bytes, ret := true } w =
      (do
        hold write.s
        handleWriteComplete write.s bytes
        unhold write.s : W Unit) (w.sent write bytes) := rfl
  rw [Wp, begun]
  change Wp Tolerated (do
    hold write.s
    handleWriteComplete write.s bytes
    unhold write.s : W Unit) (fun _ => Good mood held) (w.sent write bytes)
  simp only [handleWriteComplete, bind_assoc]
  rw [wp_hold_unhold present₁ counted, wp_bind, wp_derefs present₁, wp_bind]
  by_cases connected : sock.status = .connected
  · rw [if_pos connected, wp_bind, wp_updates present₁]
    have changed := local_setSocket (w.sent write bytes).mgr write.s
      { sock with writeBuffer := sock.writeBuffer.remove bytes }
    have view : ((w.sent write bytes).setSocket write.s
        { sock with writeBuffer := sock.writeBuffer.remove bytes }).mgr.view =
        Function.update w.mgr.view write.s
          { w.mgr.view write.s with
            sock := some { sock with writeBuffer := sock.writeBuffer.remove bytes }
            held := (w.mgr.view write.s).held + 1
            log := (w.mgr.view write.s).log ++ [.sent write.s (write.data.take bytes)] } := by
      refine changed.view.trans ?_
      rw [sent_view, Function.update_idem, Function.update_self]
      rfl
    obtain ⟨good₁, last⟩ := write_dequeued good outstanding present rfl view rfl
      fun writing conduit => conduit.taken writing few
    have active₁ := good₁.active_held (List.mem_cons_self)
    rw [wp_bind]
    refine (writeCallback_spec good₁ changed.heap active₁ ?_ connected).mono ?_
    · intro tcp
      obtain ⟨none, writing⟩ := last tcp
      exact ⟨writing.locked, none⟩
    · intro _ w₂ good₂
      rw [wp_pure]
      exact unhold_spec good₂
  · rw [if_neg connected, wp_pure]
    have view : (w.sent write bytes).mgr.view = Function.update w.mgr.view write.s
        { w.mgr.view write.s with
          sock := some { sock with writeBuffer := sock.writeBuffer }
          held := (w.mgr.view write.s).held + 1
          log := (w.mgr.view write.s).log ++ [.sent write.s (write.data.take bytes)] } := by
      have alive : (w.mgr.view write.s).sock = some sock := present
      rw [← alive]
      exact sent_view w write bytes
    refine unhold_spec (write_dequeued good outstanding present rfl view rfl ?_).1
    intro writing conduit
    refine ⟨conduit.whole, Or.inr ⟨writing.locked, by simp⟩, by simp, fun _ => rfl, ?_⟩
    rintro (connecting | open_)
    · exact absurd connecting writing.status
    · exact absurd open_ connected

end Turn

end CrossOver.Engine.Network.Iocp
