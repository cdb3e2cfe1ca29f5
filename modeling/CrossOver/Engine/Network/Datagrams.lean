import CrossOver.Engine.Network.Accounting
import CrossOver.Engine.Network.Serving

/-!
# Runs with UDP sockets

Every run of the manager, whatever sockets it makes and whatever its peers, its
scripts and the kernel do, keeps the standing of all sockets.  What this says
about a UDP socket has two exceptions, and the log shows both: a message that
`ikcp_send` has taken keeps a reference for good, and a socket that is given up
before it knows the port of its peer reports what it likes.
-/

namespace CrossOver.Engine.Network

open CrossOver.Lib

section Loops

variable {w w' : World} {s : SockRef} {sock : Socket}

/-! ## References of the loop -/

theorem hold_any [Past] (steady : Steady [] w) (s : SockRef) :
    Wp anyFault (hold s) (fun _ w' => Steady [] w' ∧ w'.mgr.held = s :: w.mgr.held) w := by
  simp only [hold, refAdd]
  rw [wp_bind]
  refine wp_updateSocket_any steady.passed ?_
  intro sock present
  rw [wp_modifyMgr]
  have account := (steady.kept.good s).counted _ (Mgr.standing_face present)
  simp only [Socket.face] at account
  have view : ((w.mgr.setSocket s { sock with count := sock.count + 1 }).hold s).view =
      Function.update w.mgr.view s
        { (w.mgr.view s).setSock { sock with count := sock.count + 1 } with
          held := (w.mgr.view s).held + 1 } := by
    rw [hold_view, (local_setSocket _ _ _).view, Function.update_idem, Function.update_self]
    rfl
  have shape : View.standing { (w.mgr.view s).setSock { sock with count := sock.count + 1 } with
      held := (w.mgr.view s).held + 1 } =
      (w.mgr.view s).standing.recount sock.face (sock.count + 1) (w.mgr.view s).standing.events
        ((w.mgr.view s).standing.held + 1) (w.mgr.view s).standing.taken := rfl
  refine ⟨steady.recounted rfl present view rfl rfl shape (by omega) (by omega) ?_, rfl⟩
  exact fun _ => Or.inl (Nat.succ_ne_zero _)

theorem unhold_any [Past] (steady : Steady [] w) (mine : (w.mgr.view s).held ≠ 0) :
    Wp anyFault (unhold s) (fun _ w' => Steady [] w' ∧ w'.mgr.held = w.mgr.held.erase s) w := by
  obtain ⟨sock, present⟩ := steady.alive mine
  have face := Mgr.standing_face present
  have good := steady.kept.good s
  have settled := steady.kept.settled s (by simp)
  have account := good.counted _ face
  unfold unhold
  rw [wp_bind, wp_modifyMgr]
  refine (refRelease_spec (by exact present)).mono ?_
  rintro _ w' ⟨_, rfl, released, course⟩
  have view : w'.mgr.view = Function.update w.mgr.view s
      ({ w.mgr.view s with held := (w.mgr.view s).held - 1 }.release sock) := by
    rw [released.view]
    simp only
    rw [unhold_view, Function.update_idem, Function.update_self]
  have shape : (View.release { w.mgr.view s with held := (w.mgr.view s).held - 1 } sock).standing =
      ((w.mgr.view s).standing.recount sock.face sock.face.count (w.mgr.view s).standing.events
        ((w.mgr.view s).standing.held - 1) (w.mgr.view s).standing.taken).release sock.face := by
    rw [View.release_standing]
    congr 1
    simp only [Standing.recount, ← face]
    rfl
  have positive : (w.mgr.view s).standing.held ≠ 0 := mine
  have owed : sock.face.count = ((w.mgr.view s).standing.recount sock.face sock.face.count
      (w.mgr.view s).standing.events ((w.mgr.view s).standing.held - 1)
      (w.mgr.view s).standing.taken).refs + 1 := by
    simp only [Standing.recount, Standing.refs] at account ⊢
    omega
  refine ⟨steady.next course (steady.kept.at view ?_ ?_ (fun _ outside => Or.inr outside)
    (released.socketMap ▸ steady.kept.keys) released.nextRef (steady.kept.allocated present))
    (.of_update view ?_), released.held⟩
  · rw [shape]
    exact (good.toSound.recount face fun _ => Or.inr settled).release rfl owed
  · intro _
    rw [shape]
    exact (settled.recount face).release rfl
  · intro answerable
    rw [shape]
    exact (answerable.recount face).release
      (good.toSound.recount face fun _ => Or.inr settled) rfl owed

/-- What is done with a reference in hand. -/
theorem bracket_any [Past] (steady : Steady [] w) (s : SockRef) {work : M Unit}
    (works : ∀ w₁, Steady [] w₁ → (w₁.mgr.view s).held ≠ 0 →
      Wp anyFault work (fun _ w' => Through w₁ w') w₁) :
    Wp anyFault (do
      hold s
      work
      unhold s) (fun _ w' => Through w w') w := by
  refine (hold_any steady s).seq ?_
  rintro _ w₁ ⟨steady₁, held⟩
  have mine : (w₁.mgr.view s).held ≠ 0 := by simp [Mgr.view, held]
  refine (works w₁ steady₁ mine).seq ?_
  intro _ w₂ through
  have stillMine : (w₂.mgr.view s).held ≠ 0 := by
    rw [view_held _ _ through.held]
    exact mine
  refine (unhold_any through.steady stillMine).mono ?_
  rintro _ w₃ ⟨steady₃, erased⟩
  refine ⟨steady₃, ?_⟩
  rw [erased, through.held, held, List.erase_cons_head]

/-! ## Delayed events -/

theorem popEvent_any [Past] (steady : Steady [] w) {event : SocketEvent} {rest : List SocketEvent}
    (queue : w.mgr.eventQueue = event :: rest) :
    Wp anyFault (popEvent event rest)
      (fun _ w' => Steady [] w' ∧ w'.mgr.held = event.s :: w.mgr.held) w := by
  have waiting : (w.mgr.view event.s).standing.events =
      (rest.filter fun other => other.s = event.s).length + 1 := by
    simp [View.standing, queue_view queue]
  obtain ⟨sock, present⟩ : ∃ sock, w.mgr.heap event.s = some sock := by
    cases present : w.mgr.heap event.s with
    | some sock => exact ⟨sock, rfl⟩
    | none =>
        have gone : (w.mgr.view event.s).standing.face = none := by
          simp [View.standing, Mgr.view, present]
        have none := ((steady.kept.good event.s).gone gone).2.1
        omega
  have face := Mgr.standing_face present
  have account := (steady.kept.good event.s).counted _ face
  simp only [Socket.face] at account
  rw [popEvent, wp_modifyMgr]
  have shape : View.standing { w.mgr.view event.s with
      events := (rest.filter fun other => other.s = event.s).map SocketEvent.customizedEvents
      held := (w.mgr.view event.s).held + 1 } =
      (w.mgr.view event.s).standing.recount sock.face sock.count
        (rest.filter fun other => other.s = event.s).length
        ((w.mgr.view event.s).standing.held + 1) (w.mgr.view event.s).standing.taken := by
    have same : { sock.face with count := sock.count } = sock.face := rfl
    simp only [Standing.recount, same, ← face]
    simp [View.standing, View.trace]
  refine ⟨steady.recounted rfl present (pop_view queue) rfl rfl shape (by omega) (by omega) ?_, rfl⟩
  exact fun _ => Or.inl (Nat.succ_ne_zero _)

theorem handleDelayEventLoop_any [Past] (turns : Nat) (steady : Steady [] w) :
    Wp anyFault (handleDelayEventLoop turns) (fun _ w' => Through w w') w := by
  induction turns generalizing w with
  | zero => exact steady.passed
  | succ turns inductionHypothesis =>
      rw [handleDelayEventLoop, wp_bind, wp_mark, wp_bind, wp_get]
      cases queue : w.mgr.eventQueue with
      | nil => exact ⟨steady.marked, rfl⟩
      | cons event rest =>
          dsimp only
          refine (popEvent_any steady.marked queue).seq ?_
          rintro _ w₁ ⟨steady₁, held⟩
          have mine : (w₁.mgr.view event.s).held ≠ 0 := by simp [Mgr.view, held]
          have finish : ∀ w₂, Through w₁ w₂ → Wp anyFault (do
              unhold event.s
              handleDelayEventLoop turns) (fun _ w' => Through w w') w₂ := by
            intro w₂ through
            have stillMine : (w₂.mgr.view event.s).held ≠ 0 := by
              rw [view_held _ _ through.held]
              exact mine
            refine (unhold_any through.steady stillMine).seq ?_
            rintro _ w₃ ⟨steady₃, erased⟩
            refine (inductionHypothesis steady₃).mono ?_
            intro _ w₄ later
            refine ⟨later.steady, ?_⟩
            rw [later.held, erased, through.held, held, List.erase_cons_head]
          cases event.customizedEvents with
          | close => exact (handleClose_any steady₁ mine).seq fun _ w₂ through => finish w₂ through
          | delaySend =>
              exact (handleDelaySend_any steady₁ mine).seq fun _ w₂ through => finish w₂ through

/-! ## New connections -/

/-- A socket that could not be registered leaves the map before it has said anything. -/
theorem Arrives.dropped [Past] {w₁ : World} (arrives : Arrives w w₁ sock []) (steady : Steady [] w)
    (missing : w.mgr.find sock.connIdx = none) (count : sock.count = 1) :
    Wp anyFault (removeSocket sock.connIdx) (fun _ w' => Through w w') w₁ := by
  obtain ⟨v₁, joined, enrolled, course, present, born⟩ := arrives
  have keys : (w₁.mgr.socketMap.map Prod.fst).Nodup := by
    rw [enrolled.socketMap, List.map_append]
    exact List.Nodup.append steady.kept.keys (List.nodup_singleton _)
      (by simpa using Mgr.find_none missing)
  have inside : (sock.connIdx, w.mgr.nextRef) ∈ w₁.mgr.socketMap := by
    rw [enrolled.socketMap]
    simp
  have known := Mgr.find_of_mem keys inside
  have alive : (w₁.mgr.view w.mgr.nextRef).sock = some sock := by
    rw [enrolled.self]
    exact present
  have drops : ∀ w₂ v registered, Moved w₁ w₂ w.mgr.nextRef v →
      v.standing = v₁.standing.register registered →
      v.sock = some sock → Wp anyFault (do
        refRelease w.mgr.nextRef
        modifyMgr fun m => m.erase sock.connIdx) (fun _ w' => Through w w') w₂ := by
    intro w₂ v registered moved same holds
    have names : v.names = [sock.connIdx] :=
      (congrArg Standing.names same).trans (congrArg Standing.names born)
    refine (dropEntry_spec keys moved holds names inside).mono ?_
    rintro _ w' ⟨view, keys', nextRef, turn, course'⟩
    have gone : ({ v with names := [] }.release sock).standing =
        View.blank.standing.register registered := by
      have shape : View.standing { v with names := [] } =
          { v.standing with names := [] } := rfl
      rw [View.release_standing, shape, same, born]
      simp [Standing.release, Standing.newborn, Standing.register, Socket.face, count,
        View.standing, View.blank, View.trace, traceOf]
    rw [enrolled.view, Function.update_idem] at view
    refine ⟨steady.next (course'.trans course) ((steady.kept.bump 0).at view ?_ ?_
      (fun _ outside => Or.inr outside) keys' (nextRef.trans enrolled.nextRef)
      (Nat.lt_succ_self _)) (.of_update view ?_), turn.held.trans enrolled.held⟩
    · rw [gone]
      exact blank_good.register registered
    · intro _
      rw [gone]
      exact blank_settled.register registered
    · rw [steady.kept.fresh _ le_rfl]
      exact fun answerable => absurd answerable blank_unanswerable
  rw [removeSocket, wp_bind, wp_get]
  simp only [known]
  rw [wp_bind]
  refine (epollCtl_spec w.mgr.nextRef true none).mono ?_
  rintro accepted w₂ ⟨course₂, ⟨rfl, _, mgr⟩ | ⟨rfl, mgr⟩⟩
  · have forgotten : Moved w₁ w₂ w.mgr.nextRef
        { w₁.mgr.view w.mgr.nextRef with interest := none } :=
      ⟨by rw [mgr]; exact local_setInterest _ _ _, course₂⟩
    exact drops _ _ _ forgotten (by rw [enrolled.self]; rfl) alive
  · have about : LogEntry.subject (.epollError w.mgr.nextRef) = some w.mgr.nextRef := rfl
    have told : Moved w₁ w₂ w.mgr.nextRef (w₁.mgr.view w.mgr.nextRef) :=
      ⟨by rw [mgr]; exact .refl _ _, course₂⟩
    exact drops _ _ v₁.standing.registered (told.record about)
      (by rw [View.standing_remark _ rfl rfl rfl rfl, enrolled.self]; rfl) alive

theorem accept_any [Past] (steady : Steady [] w) (aSocket : Nat) (config : Config) :
    Wp anyFault (accept aSocket config) (fun _ w' => Through w w') w := by
  unfold accept
  apply wp_new steady.passed
  intro connIdx auto missing
  have kind : (newSocket .tcp aSocket connIdx config).socketType = .tcp := rfl
  have unheld : (newSocket .tcp aSocket connIdx config).count = 0 := rfl
  have key : (newSocket .tcp aSocket connIdx config).connIdx = connIdx := rfl
  generalize newSocket .tcp aSocket connIdx config = sock at kind unheld key ⊢
  subst key
  have subject : LogEntry.subject (.borrowed w.mgr.nextRef) = none := rfl
  have made := (local_new (steady.kept.fresh _ le_rfl) auto sock).silentIf (aSocket = 0) subject
  have one : sock.count + 1 = 1 := by omega
  rw [wp_bind, wp_recordIf, wp_bind]
  refine (addSocket_any made (by rfl) (by exact missing)).mono ?_
  intro _ w₁ arrives
  have connected : Arrives w _
      { sock with count := sock.count + 1, status := .connected } [] := arrives.update rfl
  rw [wp_bind, wp_updateSocket arrives.present, wp_bind, wp_deref connected.present]
  dsimp only
  refine (connected.epollCtlAdd_any _).seq ?_
  intro accepted w₂ arrives₂
  cases accepted with
  | true =>
      simp only [if_true]
      have about : LogEntry.subject (.connectTask w.mgr.nextRef sock.connIdx true) =
        some w.mgr.nextRef := rfl
      have told := arrives₂.record about rfl rfl rfl
      refine (runConnectTask_any runScript_any arrives₂.present
        (told.greeted steady missing one (by simp [Socket.face, Face.halfOpen, kind])
          (by simp [kind]) rfl)).mono ?_
      rintro _ w₃ ⟨steady₃, left⟩
      exact ⟨steady₃, ((told.leaves steady).trans left).held⟩
  | false =>
      simp only [Bool.false_eq_true, if_false]
      have about : LogEntry.subject (.epollError w.mgr.nextRef) = some w.mgr.nextRef := rfl
      have shut := (arrives₂.record about rfl rfl rfl).closeDescriptor
      rw [wp_bind, wp_record, wp_bind, closeDescriptor, wp_modifyMgr]
      exact shut.dropped steady missing one

theorem connect_any [Past] (steady : Steady [] w) (config : Config) (outcome : ConnectOutcome) :
    Wp anyFault (connect config outcome) (fun _ w' => Through w w') w := by
  unfold connect
  apply wp_new steady.passed
  intro connIdx auto missing
  have kind : (newSocket .tcp 0 connIdx { config with isParsePackage := true }).socketType = .tcp :=
    rfl
  have unheld : (newSocket .tcp 0 connIdx { config with isParsePackage := true }).count = 0 := rfl
  have key : (newSocket .tcp 0 connIdx { config with isParsePackage := true }).connIdx = connIdx :=
    rfl
  generalize newSocket .tcp 0 connIdx { config with isParsePackage := true } = sock
    at kind unheld key ⊢
  subst key
  have subject : LogEntry.subject (.registered w.mgr.nextRef config.onconnectedHandler
    config.onrecvHandler config.oncloseHandler) = none := rfl
  have made := (local_new (steady.kept.fresh _ le_rfl) auto sock).silent subject
  have connecting := made.setSocket { sock with status := .connecting }
  rw [View.setSock_setSock] at connecting
  have one : sock.count + 1 = 1 := by omega
  rw [wp_bind, wp_record, wp_bind, wp_updateSocket made.heap]
  by_cases established : outcome = .zero
  · simp only [established, if_true]
    rw [wp_bind]
    refine (addSocket_any connecting (by rfl) (by exact missing)).mono ?_
    intro _ w₁ arrives
    have connected : Arrives w _
        { sock with count := sock.count + 1, status := .connected } [] := arrives.update rfl
    have greets : ∀ w₂, Arrives w w₂
        { sock with count := sock.count + 1, status := .connected } [] →
        Wp anyFault (do
          Socket.onConnect w.mgr.nextRef true
          pure (← deref w.mgr.nextRef).connIdx) (fun _ w' => Through w w') w₂ := by
      intro w₂ arrives₂
      have about : LogEntry.subject (.connectTask w.mgr.nextRef sock.connIdx true) =
        some w.mgr.nextRef := rfl
      have told := arrives₂.record about rfl rfl rfl
      refine (runConnectTask_any runScript_any arrives₂.present
        (told.greeted steady missing one (by simp [Socket.face, Face.halfOpen, kind])
          (by simp [kind]) rfl)).seq ?_
      rintro _ w₃ ⟨steady₃, left⟩
      rw [wp_bind]
      exact wp_deref_any steady₃.passed fun _ _ =>
        ⟨steady₃, ((told.leaves steady).trans left).held⟩
    rw [wp_bind, wp_updateSocket arrives.present, wp_bind, wp_deref connected.present]
    dsimp only
    refine (connected.epollCtlAdd_any _).seq ?_
    intro accepted w₂ arrives₂
    cases accepted with
    | true => exact greets w₂ arrives₂
    | false =>
        have about : LogEntry.subject (.epollError w.mgr.nextRef) = some w.mgr.nextRef := rfl
        simp only [Bool.not_false, if_true]
        rw [wp_bind, wp_record]
        exact greets _ (arrives₂.record about rfl rfl rfl)
  · simp only [established, if_false]
    rw [wp_bind]
    refine (delete_spec connecting.heap).mono ?_
    rintro _ w' ⟨v', rfl, deleted, course⟩
    have gone := connecting.trans deleted
    rw [connecting.self] at gone
    obtain ⟨steady', left⟩ := steady.discard gone course
    exact ⟨steady', left.held⟩

theorem handleAcceptUDPComplete_any [Past] (steady : Steady [] w) (config : Config)
    (datagram : Bytes) (established : Bool) :
    Wp anyFault (handleAcceptUDPComplete config datagram established)
      (fun _ w' => Through w w') w := by
  unfold handleAcceptUDPComplete
  split
  · refine (connectUDP_any runScript_any steady config established true).seq ?_
    rintro _ w₁ ⟨steady₁, left⟩
    exact ⟨steady₁, left.held⟩
  · exact .refl steady

/-! ## Batches -/

/-- The batch is not part of any standing. -/
theorem Steady.batched [Past] (steady : Steady [] w) {batch : List SockRef}
    (fresh : ∀ s ∈ batch, s < w.mgr.nextRef) :
    Steady [] { w with mgr := { w.mgr with batch := batch } } := by
  refine steady.next rfl ⟨steady.kept.keys, ?_, steady.kept.good, steady.kept.settled⟩
    fun _ => id
  intro s large
  have blank := steady.kept.fresh s large
  have absent : s ∉ batch := fun inside => absurd (fresh s inside) (Nat.not_lt.mpr large)
  change { w.mgr.view s with unprocessed := batch.count s } = _
  rw [blank, List.count_eq_zero_of_not_mem absent]
  rfl

theorem epollWait_any [Past] (entries : List Entry) (steady : Steady [] w) :
    Wp anyFault (epollWait entries) (fun _ w' => Through w w') w := by
  obtain ⟨_, members⟩ := reportable_targets w.mgr [] entries
  unfold epollWait
  rw [wp_bind, wp_get, wp_bind, wp_modifyMgr, wp_pure]
  refine ⟨steady.batched ?_, rfl⟩
  intro s inside
  by_contra large
  have blank := steady.kept.fresh s (Nat.le_of_not_lt large)
  exact (members s inside).1 (congrArg View.interest blank)

theorem processEntry_any [Past] (entry : Entry) (steady : Steady [] w) :
    Wp anyFault (processEntry entry) (fun _ w' => Through w w') w := by
  cases entry with
  | wakeup epollIn readOk =>
      rw [processEntry]
      split
      · rw [handleDelayEvent, wp_bind, wp_get]
        exact handleDelayEventLoop_any _ steady
      · exact .refl steady
  | listenTcp config accepted =>
      cases accepted with
      | none => exact .refl steady
      | some aSocket => exact accept_any steady aSocket config
  | listenUdp config datagram established =>
      exact handleAcceptUDPComplete_any steady config datagram established
  | socket s events recvs sends =>
      rw [processEntry, wp_bind, wp_modifyMgr]
      have taken : Steady [] { w with mgr := { w.mgr with batch := w.mgr.batch.erase s } } := by
        apply steady.batched
        intro other inside
        by_contra large
        have blank := congrArg View.unprocessed (steady.kept.fresh other (Nat.le_of_not_lt large))
        exact absurd (List.mem_of_mem_erase inside) (List.count_eq_zero.mp blank)
      refine (bracket_any taken s ?_).mono ?_
      · intro w₁ steady₁ mine
        exact handleSocketEvent_any events recvs sends steady₁ mine
      · intro _ w' through
        exact ⟨through.steady, through.held⟩

theorem processBatch_any [Past] (entries : List Entry) (steady : Steady [] w) :
    Wp anyFault (processBatch entries) (fun _ w' => Through w w') w := by
  induction entries generalizing w with
  | nil => exact .refl steady
  | cons entry rest inductionHypothesis =>
      rw [processBatch, wp_bind, wp_mark]
      refine (processEntry_any entry steady.marked).seq ?_
      intro _ w₁ through
      refine (inductionHypothesis through.steady).mono ?_
      intro _ w₂ later
      exact ⟨later.steady, later.held.trans through.held⟩

theorem socketUpdate_any [Past] (curTime : UInt32) (steady : Steady [] w) :
    Wp anyFault (Socket.update s curTime) (fun _ w' => Through w w') w := by
  rw [Socket.update, wp_bind]
  refine wp_deref_any steady.passed ?_
  intro sock _
  split
  · split
    · exact .refl steady
    · refine (updateSocket_quiet steady ?_).seq ?_
      · exact fun _ => rfl
      · rintro _ w₁ ⟨steady₁, left₁⟩
        refine (sendUdpPackages_any _ steady₁).mono ?_
        rintro _ w₂ ⟨steady₂, left₂⟩
        exact ⟨steady₂, (left₁.trans left₂).held⟩
  · exact .refl steady

theorem updateAll_any [Past] (curTime : UInt32) (entries : List (Nat × SockRef))
    (steady : Steady [] w) :
    Wp anyFault (updateAll curTime entries) (fun _ w' => Through w w') w := by
  induction entries generalizing w with
  | nil => exact .refl steady
  | cons entry rest inductionHypothesis =>
      obtain ⟨connIdx, s⟩ := entry
      have updated : Wp anyFault ((do
          hold s
          Socket.update s curTime
          unhold s) >>= fun _ => updateAll curTime rest) (fun _ w' => Through w w') w := by
        refine (bracket_any steady s ?_).seq ?_
        · exact fun w₁ steady₁ _ => socketUpdate_any curTime steady₁
        · intro _ w₁ through
          exact (inductionHypothesis through.steady).mono fun _ _ later => through.trans later
      simpa only [updateAll, bind_assoc] using updated

theorem batchLoop_any [Past] (batches : List (List Entry)) (steady : Steady [] w) :
    Wp anyFault (batchLoop batches) (fun _ w' => Through w w') w := by
  induction batches generalizing w with
  | nil => exact .refl steady
  | cons entries rest inductionHypothesis =>
      rw [batchLoop]
      refine (epollWait_any entries steady).seq ?_
      intro reported w₁ through₁
      split
      · exact through₁
      · refine (processBatch_any reported through₁.steady).seq ?_
        intro _ w₂ through₂
        exact (inductionHypothesis through₂.steady).mono fun _ _ later =>
          (through₁.trans through₂).trans later

theorem run_any [Past] (op : Op) (steady : Steady [] w) :
    Wp anyFault op.run (fun _ w' => Through w w') w := by
  cases op with
  | eventLoop startTime batches =>
      rw [Op.run, eventLoop, wp_bind, wp_get]
      refine (updateAll_any startTime _ steady).seq ?_
      intro _ w₁ through
      exact (batchLoop_any batches through.steady).mono fun _ _ later => through.trans later
  | connect config outcome => exact (connect_any steady config outcome).seq fun _ _ done => done
  | lua call =>
      refine (luaCall_any call [] w steady).mono ?_
      rintro _ w₁ ⟨steady₁, left⟩
      exact ⟨steady₁, left.held⟩

end Loops

/-! ## Whole runs -/

section Runs

variable {m : Mgr}

/-- Between two steps every socket has settled and nothing is held. -/
structure Rested (m : Mgr) : Prop where
  kept : Kept [] m
  held : m.held = []

theorem Rested.start [Past] (rested : Rested m) (answers : Answers Past.mgr m) (step : Step) :
    Steady [] (step.start m) := by
  refine ⟨rested.kept, ⟨by simp [Step.start], List.pairwise_singleton _ _⟩, ?_⟩
  intro earlier membership
  rw [List.mem_singleton.mp membership]
  exact answers

theorem Rested.exec [Past] (rested : Rested m) (answers : Answers Past.mgr m) (step : Step) :
    Wp anyFault step.op.run (fun _ w' => Rested w'.mgr ∧ Steady [] w') (step.start m) := by
  refine (run_any step.op (rested.start answers step)).mono ?_
  intro _ w' through
  exact ⟨⟨through.steady.kept, through.held.trans rested.held⟩, through.steady⟩

/-- Sockets are followed from the start of the run. -/
instance : Past where
  mgr := Mgr.initial

theorem initial_answers (m : Mgr) : Answers Mgr.initial m := fun _ answerable =>
  absurd answerable blank_unanswerable

theorem reached_rested (reached : system.Reachable m) : Rested m := by
  induction reached with
  | start initial =>
      rw [initial]
      exact ⟨initial_kept, rfl⟩
  | @next m m' taken _ executed inductionHypothesis =>
      obtain ⟨returned, rfl⟩ := executed
      have spec := inductionHypothesis.exec (initial_answers m) taken
      unfold Wp at spec
      rcases ending : taken.op.run (taken.start m) with ⟨fault | value, w'⟩
      · simp [Step.exec, ending] at returned
      · simp only [ending] at spec
        simpa only [Step.exec, ending] using spec.1

/-- The points between steps that a step passes, whether it returns or not. -/
theorem exec_passed [Past] (rested : Rested m) (answers : Answers Past.mgr m) (step : Step) :
    Passed (step.exec m).2 := by
  have spec := rested.exec answers step
  unfold Wp at spec
  rcases ending : step.op.run (step.start m) with ⟨fault | value, w'⟩
  · simp only [ending] at spec
    simp only [Step.exec, ending]
    exact spec
  · simp only [ending] at spec
    simp only [Step.exec, ending]
    exact spec.2.passed

theorem seen_kept (reached : system.Reachable m) (step : Step) :
    ∀ point ∈ (step.exec m).2.seen, ∃ busy, Kept busy point :=
  (exec_passed (reached_rested reached) (initial_answers m) step).kept

theorem standing_givenUp (s : SockRef) (kept : .halfOpen s ∉ m.log) :
    (m.view s).standing.givenUp = false := by
  simp only [View.standing, List.any_eq_false]
  intro entry membership wrong
  obtain ⟨inside, about⟩ := List.mem_filter.mp membership
  cases entry with
  | halfOpen other =>
      have same : other = s := by simpa [LogEntry.subject] using about
      exact kept (same ▸ inside)
  | _ => simp [LogEntry.isHalfOpen] at wrong

theorem standing_taken (m : Mgr) (s : SockRef) :
    (m.view s).standing.taken = m.log.count (.taken s) := by
  simp only [View.standing, Mgr.view, List.countP_filter, List.count]
  apply List.countP_congr
  intro entry _
  cases entry with
  | taken other => simp [LogEntry.isTaken, LogEntry.subject]
  | _ => simp [LogEntry.isTaken]

theorem kept_references {busy : List SockRef} (kept : Kept busy m) (s : SockRef) :
    (m.view s).standing.refs = m.references s + m.log.count (.taken s) := by
  have single : (m.view s).names ≠ [] → ∃ name, (m.view s).names = [name] := by
    intro named
    obtain ⟨face, _, names⟩ := (kept.good s).named named
    exact ⟨face.connIdx, names⟩
  rw [Standing.refs, standing_taken, references_view single]
  rfl

/-! ## Callbacks -/

/-- The callbacks of a socket that was never given up half-open, and its place in the map. -/
structure InOrder (m : Mgr) (s : SockRef) : Prop where
  callbacks : m.callbacks s <+: [.connect false] ∨
    ∃ bodies : List Bytes, m.callbacks s <+: .connect true :: bodies.map .recv ++ [.close]
  leaving : ∀ sock, m.heap s = some sock → sock.status = .closed → m.registered s = true →
    s ∈ m.held ∨ m.callbacks s = [.connect false]

theorem Kept.inOrder {busy : List SockRef} (kept : Kept busy m) {s : SockRef}
    (never : .halfOpen s ∉ m.log) : InOrder m s where
  callbacks := (kept.good s).ordered (standing_givenUp s never)
  leaving := by
    intro sock present closed registered
    rcases (kept.good s).leaving _ (Mgr.standing_face present) (standing_givenUp s never) closed
      (registered_iff.mp registered) with held | failed
    · exact Or.inl (List.count_pos_iff.mp (Nat.pos_of_ne_zero held))
    · exact Or.inr failed

theorem Rested.unregistered (rested : Rested m) {s : SockRef} {sock : Socket}
    (never : .halfOpen s ∉ m.log) (present : m.heap s = some sock) (closed : sock.status = .closed) :
    m.registered s = false := by
  have unnamed := (rested.kept.settled s (by simp) _ (Mgr.standing_face present)
    (standing_givenUp s never)).2 closed
  rw [Bool.eq_false_iff]
  exact fun registered => registered_iff.mp registered unnamed

/-- In every run, at every point, as long as a socket has not been given up
half-open its callbacks come in order; and between two steps it is in the map
only if its status says so. -/
theorem orderly_unless_halfOpen (reached : system.Reachable m) (step : Step) (s : SockRef) :
    (.halfOpen s ∉ m.log → InOrder m s ∧
      ∀ sock, m.heap s = some sock → sock.status = .closed → m.registered s = false) ∧
    ∀ point ∈ (step.exec m).2.seen, .halfOpen s ∉ point.log → InOrder point s := by
  have rested := reached_rested reached
  refine ⟨?_, ?_⟩
  · intro never
    exact ⟨rested.kept.inOrder never, fun sock => rested.unregistered never⟩
  · intro point passed never
    obtain ⟨busy, kept⟩ := seen_kept reached step point passed
    exact kept.inOrder never

/-- A UDP server with room for a packet of `ikcp` takes a connection. -/
def greeting : Step where
  op := .eventLoop 0 [[.listenUdp { visitorConfig with recvBufferSize := 64 }
    (leBytes 4 8 ++ connectRequest) true]]
  scripts := []
  epollResults := []
  udpConnects := []

/-- A frame with the packet of `ikcp` that brings a message of one byte. -/
def pushDatagram (sn body : UInt8) : Bytes :=
  leBytes 4 25 ++
    [1, 0, 0, 0, 81, 0, 32, 0, 0, 0, 0, 0, sn, 0, 0, 0, 0, 0, 0, 0, 1, 0, 0, 0, body]

/-- The second message overtakes the first, and then there is an error. -/
def quarrel : Step where
  op := .eventLoop 0
    [[.socket 0 { epollIn := true } [.bytes (pushDatagram 1 43)] []],
      [.socket 0 { epollIn := true } [.bytes (pushDatagram 0 42)] []],
      [.socket 0 { epollErr := true } [] []]]
  scripts := []
  epollResults := []
  udpConnects := []

def greeted : Mgr := (greeting.exec Mgr.initial).2.mgr

def quarrelled : Mgr := (quarrel.exec greeted).2.mgr

theorem greeted_reachable : system.Reachable greeted := .next (.start rfl) ⟨rfl, rfl⟩

theorem quarrelled_reachable : system.Reachable quarrelled :=
  .next greeted_reachable ⟨by decide +kernel, rfl⟩

theorem orderly_unless_halfOpen_quarrelled :
    .halfOpen 0 ∉ quarrelled.log ∧
      quarrelled.callbacks 0 = [.connect true, .recv [42], .recv [43], .close] ∧
      InOrder quarrelled 0 := by
  have never : .halfOpen 0 ∉ quarrelled.log := by decide +kernel
  exact ⟨never, by decide +kernel,
    ((orderly_unless_halfOpen quarrelled_reachable quarrel 0).1 never).1⟩

/-- A client asks a UDP server for a connection. -/
def dialing : Step where
  op := .lua (.connectUDP visitorConfig true [])
  scripts := []
  epollResults := []
  udpConnects := []

/-- Its port does not answer. -/
def unanswered : Step where
  op := .eventLoop 0 [[.socket 0 { epollErr := true } [] []]]
  scripts := []
  epollResults := []
  udpConnects := []

def dialed : Mgr := (dialing.exec Mgr.initial).2.mgr

theorem dialed_reachable : system.Reachable dialed := .next (.start rfl) ⟨rfl, rfl⟩

/-- The socket reports that it was closed and never that it was connected. -/
theorem unanswered_closed : ∃ m, system.Reachable m ∧ m.callbacks 0 = [.close] ∧
    ¬(m.callbacks 0 <+: [.connect false] ∨
      ∃ bodies : List Bytes, m.callbacks 0 <+: .connect true :: bodies.map .recv ++ [.close]) := by
  refine ⟨(unanswered.exec dialed).2.mgr, .next dialed_reachable ⟨rfl, rfl⟩, rfl, ?_⟩
  have made : (unanswered.exec dialed).2.mgr.callbacks 0 = [.close] := rfl
  rw [made]
  rintro (⟨_, wrong⟩ | ⟨_, _, wrong⟩) <;> simp at wrong

/-! ## References -/

theorem Kept.count_eq {busy : List SockRef} (kept : Kept busy m) {s : SockRef} {sock : Socket}
    (present : m.heap s = some sock) :
    sock.count = m.references s + m.log.count (.taken s) ∧
      0 < m.references s + m.log.count (.taken s) := by
  have account := (kept.good s).counted _ (Mgr.standing_face present)
  rw [kept_references kept] at account
  exact ⟨by simpa [Socket.face] using account.1, account.2⟩

theorem Kept.exact_iff {busy : List SockRef} (kept : Kept busy m) {s : SockRef} {sock : Socket}
    (present : m.heap s = some sock) : sock.count = m.references s ↔ .taken s ∉ m.log := by
  have account := (kept.count_eq present).1
  rw [← List.count_eq_zero]
  omega

/-- In every run, between two steps and at every point of a step, the count of a
socket is the number of its references exactly when `ikcp_send` has taken no
message for it; then a closed socket is gone once the queue is empty, unless it
was given up half-open. -/
theorem counts_exact_iff (reached : system.Reachable m) (step : Step) (s : SockRef) :
    (∀ sock, m.heap s = some sock →
      (sock.count = (if m.registered s then 1 else 0) +
        (m.eventQueue.countP fun event => event.s = s) ↔ .taken s ∉ m.log)) ∧
    (∀ point ∈ (step.exec m).2.seen, ∀ sock, point.heap s = some sock →
      (sock.count = point.references s ↔ .taken s ∉ point.log)) ∧
    (.taken s ∉ m.log → .halfOpen s ∉ m.log → m.eventQueue = [] →
      ∀ sock, m.heap s = some sock → sock.status ≠ .closed) := by
  have rested := reached_rested reached
  have unheld : m.held.count s = 0 := by simp [rested.held]
  refine ⟨?_, ?_, ?_⟩
  · intro sock present
    rw [← rested.kept.exact_iff present, Mgr.references, unheld]
    simp
  · intro point passed sock present
    obtain ⟨busy, kept⟩ := seen_kept reached step point passed
    exact kept.exact_iff present
  · intro never settled empty sock present closed
    have registered := rested.unregistered settled present closed
    have used := (rested.kept.count_eq present).2
    rw [List.count_eq_zero_of_not_mem never, Mgr.references, registered, empty, unheld] at used
    simp at used

/-- A UDP server takes a connection. -/
def admission : Step where
  op := .eventLoop 0 [[.listenUdp visitorConfig (leBytes 4 8 ++ connectRequest) true]]
  scripts := []
  epollResults := []
  udpConnects := []

/-- It sends a byte, and its packet has been handed on. -/
def chat : Step where
  op := .lua (.sendMsg 1 ⟨[45], by decide⟩)
  scripts := []
  epollResults := []
  udpConnects := []

/-- The delayed events are handled and the peer goes. -/
def parting : Step where
  op := .eventLoop 0 [[.wakeup true true], [.socket 0 { epollHup := true } [] []]]
  scripts := []
  epollResults := []
  udpConnects := []

def admitted : Mgr := (admission.exec Mgr.initial).2.mgr

def chatted : Mgr := (chat.exec admitted).2.mgr

def parted : Mgr := (parting.exec chatted).2.mgr

theorem admitted_reachable : system.Reachable admitted := .next (.start rfl) ⟨rfl, rfl⟩

theorem counts_exact_iff_admitted :
    ∃ sock, admitted.heap 0 = some sock ∧ .taken 0 ∉ admitted.log ∧ sock.count = 1 ∧
      sock.count = (if admitted.registered 0 then 1 else 0) +
        (admitted.eventQueue.countP fun event => event.s = 0) := by
  have never : .taken 0 ∉ admitted.log := by decide
  refine ⟨_, rfl, never, rfl, ?_⟩
  exact ((counts_exact_iff admitted_reachable chat 0).1 _ rfl).mpr never

theorem chatted_reachable : system.Reachable chatted :=
  .next admitted_reachable ⟨by decide +kernel, rfl⟩

theorem parted_reachable : system.Reachable parted :=
  .next chatted_reachable ⟨by decide +kernel, rfl⟩

/-- One message, and the closed socket stays for good with a count of one. -/
theorem parted_undeleted : ∃ m, system.Reachable m ∧ ∃ sock, m.heap 0 = some sock ∧
    sock.status = .closed ∧ m.eventQueue = [] ∧ m.registered 0 = false ∧ sock.count = 1 := by
  have left : (parted.heap 0).map (fun sock => (sock.status, sock.count)) = some (.closed, 1) ∧
      parted.eventQueue = [] ∧ parted.registered 0 = false := by decide +kernel
  obtain ⟨sock, present, shown⟩ := Option.map_eq_some_iff.mp left.1
  exact ⟨parted, parted_reachable, sock, present, congrArg Prod.fst shown, left.2.1, left.2.2,
    congrArg Prod.snd shown⟩

end Runs

end CrossOver.Engine.Network
