import CrossOver.Engine.Network.Iocp.Calls

/-!
# Overlapped operations, scripts and reading

What the functions below the handlers do to the accounts, for any state of the
port and whatever their callbacks do.  A function that is in the middle of
closing a socket changes the mood of the socket for as long as its callback runs.
-/

namespace CrossOver.Engine.Network.Iocp

open CrossOver.Lib

def Good (mood : SockRef → Mood) (held : List SockRef) (w : World) : Prop :=
  Steady mood w.port w.mgr ∧ w.mgr.held = held

def World.setSocket (w : World) (s : SockRef) (sock : Socket) : World :=
  { w with mgr := w.mgr.setSocket s sock }

section Rules

variable {Value : Type} {w : World} {s : SockRef} {sock : Socket}

theorem wp_lift {x : M Value} {post : Value → World → Prop} :
    Wp Tolerated (liftM x : W Value) post w ↔
      Wp Tolerated x (fun value shared => post value (w.resume shared)) w.shared := by
  have unlifted : (liftM x : W Value) w = ((x w.shared).1, w.resume (x w.shared).2) := rfl
  unfold Wp
  rw [unlifted]
  rcases x w.shared with ⟨value | fault, shared⟩ <;> rfl

theorem wp_derefs (present : w.mgr.heap s = some sock) {post : Socket → World → Prop} :
    Wp Tolerated (liftM (deref s) : W Socket) post w ↔ post sock w := by
  rw [wp_lift, wp_deref (w := w.shared) present]
  rfl

theorem wp_updates (present : w.mgr.heap s = some sock) {f : Socket → Socket}
    {post : Unit → World → Prop} :
    Wp Tolerated (liftM (updateSocket s f) : W Unit) post w ↔
      post () (w.setSocket s (f sock)) := by
  rw [wp_lift, wp_updateSocket (w := w.shared) present]
  rfl

theorem wp_records {entry : LogEntry} {post : Unit → World → Prop} :
    Wp Tolerated (liftM (record entry) : W Unit) post w ↔
      post () { w with mgr := w.mgr.record entry } := by
  rw [wp_lift, wp_record]
  rfl

theorem wp_modifyPort {f : Port → Port} {post : Unit → World → Prop} :
    Wp Tolerated (modifyPort f) post w ↔ post () { w with port := f w.port } := Iff.rfl

theorem lift_safe {mood : SockRef → Mood} {held : List SockRef} {x : M Value}
    (safe : ∀ port, Safe (Calm mood port held) x) : Safe (Good mood held) (liftM x : W Value) := by
  intro w good
  exact wp_lift.mpr (safe w.port w.shared good)

end Rules

section Operations

variable {mood : SockRef → Mood} {held : List SockRef} {w : World} {s : SockRef} {sock : Socket}

theorem Good.at (good : Good mood held w) (w' : World) {feeling : Mood} {lane : Lane} {v : View}
    (present : w.mgr.heap s = some sock)
    (lanes : w'.port.lane = Function.update w.port.lane s lane)
    (view : w'.mgr.view = Function.update w.mgr.view s v)
    (socketMap : w'.mgr.socketMap = w.mgr.socketMap) (nextRef : w'.mgr.nextRef = w.mgr.nextRef)
    (sameHeld : w'.mgr.held = w.mgr.held) (fair : Fair feeling lane v) :
    Good (Function.update mood s feeling) held w' :=
  ⟨good.1.at feeling (good.1.allocated present) lanes view (socketMap ▸ good.1.keys) nextRef fair,
    sameHeld.trans good.2⟩

/-- A change to one socket that does not concern the port. -/
theorem Good.local (good : Good mood held w) {m : Mgr} {v : View}
    (present : w.mgr.heap s = some sock) (changed : Local w.mgr m s v)
    (fair : Fair (mood s) (w.port.lane s) v) : Good mood held { w with mgr := m } :=
  ⟨good.1.local present changed fair, changed.held.trans good.2⟩

theorem Good.active_held (good : Good mood held w) (mine : s ∈ held) :
    owed (w.port.lane s) (w.mgr.view s) ≠ 0 :=
  Iocp.active_held (by rw [good.2]; exact mine)

theorem Good.alive (good : Good mood held w) (mine : s ∈ held) :
    ∃ sock, w.mgr.heap s = some sock := good.1.alive (good.active_held mine)

/-! ## Overlapped operations -/

def Lane.read (lane : Lane) : Lane := { lane with reads := lane.reads + 1 }

def Lane.write (lane : Lane) (data : Bytes) : Lane := { lane with writes := data :: lane.writes }

theorem lane_read (port : Port) (s : SockRef) :
    ({ port with reads := s :: port.reads } : Port).lane =
      Function.update port.lane s (port.lane s).read := by
  funext other
  by_cases here : other = s
  · subst here
    simp [Port.lane, Lane.read]
  · simp [Port.lane, here, Ne.symm here]

theorem lane_write (port : Port) (s : SockRef) (data : Bytes) :
    ({ port with writes := { s := s, data := data } :: port.writes } : Port).lane =
      Function.update port.lane s ((port.lane s).write data) := by
  funext other
  by_cases here : other = s
  · subst here
    simp [Port.lane, Lane.write]
  · simp [Port.lane, here, Ne.symm here]

/-- An accepted `WSARecv` refers to its socket; a refused one leaves no trace. -/
theorem setupReadEvent_spec (good : Good mood held w)
    (active : owed (w.port.lane s) (w.mgr.view s) ≠ 0) :
    Wp Tolerated (setupReadEvent s) (fun accepted w' =>
      accepted = true ∧ Good mood held w' ∧ owed (w'.port.lane s) (w'.mgr.view s) ≠ 0 ∨
        accepted = false ∧ w'.mgr = w.mgr ∧ w'.port = w.port) w := by
  obtain ⟨sock, present⟩ := good.1.alive active
  unfold setupReadEvent wsaRecv
  rw [wp_bind, wp_derefs present, wp_bind, wp_bind, wp_get, wp_bind, wp_modify, wp_pure]
  cases w.recvResults.headD true with
  | false => exact Or.inr ⟨rfl, rfl, rfl⟩
  | true =>
      simp only [if_true]
      rw [wp_bind, wp_modifyPort, wp_bind]
      unfold refAdd
      rw [wp_updates (by exact present)]
      have changed := local_setSocket w.mgr s { sock with count := sock.count + 1 }
      have more : owed (w.port.lane s).read
          ((w.mgr.view s).setSock { sock with count := sock.count + 1 }) =
          owed (w.port.lane s) (w.mgr.view s) + 1 := by
        simp only [owed, View.refs, View.setSock, Lane.read]
        omega
      have fair : Fair (mood s) (w.port.lane s).read
          ((w.mgr.view s).setSock { sock with count := sock.count + 1 }) :=
        (good.1.fair s).gain active present rfl rfl rfl more
      have kept := good.at { w with
          mgr := w.mgr.setSocket s { sock with count := sock.count + 1 }
          port := { w.port with reads := s :: w.port.reads } }
        present (lane_read w.port s) changed.view rfl rfl rfl fair
      rw [Function.update_eq_self] at kept
      refine Or.inl ⟨rfl, kept, ?_⟩
      change owed (Port.lane { w.port with reads := s :: w.port.reads } s)
        (Mgr.view (w.mgr.setSocket s { sock with count := sock.count + 1 }) s) ≠ 0
      rw [lane_read, Function.update_self, changed.self, more]
      exact Nat.succ_ne_zero _

theorem setup_then {Value : Type} {accepted refused : W Value} {post : Value → World → Prop}
    (good : Good mood held w) (active : owed (w.port.lane s) (w.mgr.view s) ≠ 0)
    (success : ∀ w' sock', Good mood held w' → w'.mgr.heap s = some sock' →
      owed (w'.port.lane s) (w'.mgr.view s) ≠ 0 → Wp Tolerated accepted post w')
    (failure : ∀ w', Good mood held w' → w'.mgr = w.mgr → Wp Tolerated refused post w') :
    Wp Tolerated (do
      if ← setupReadEvent s then
        accepted
      else
        refused : W Value) post w := by
  refine (setupReadEvent_spec good active).seq ?_
  rintro _ w₁ (⟨rfl, good₁, active₁⟩ | ⟨rfl, mgr, port⟩)
  · obtain ⟨sock₁, present₁⟩ := good₁.1.alive active₁
    exact success w₁ sock₁ good₁ present₁ active₁
  · refine failure w₁ ?_ mgr
    rw [Good, mgr, port]
    exact good

theorem bufLen_le (writeBuffer : SequenceBuffer) : bufLen writeBuffer ≤ writeBuffer.len := by
  have signed : intOf writeBuffer.len ≤ writeBuffer.len ∧
      intOf writeBuffer.len % 2 ^ 32 = (writeBuffer.len : Int) % 2 ^ 32 := by
    unfold intOf
    rw [Int.bmod_def]
    push_cast
    split_ifs <;> omega
  unfold bufLen Network.Socket.sendLen SequenceBuffer.getSize
  dsimp only
  split <;> omega

theorem handed_start {b : SequenceBuffer} (sound : b.Sound) :
    (b.buffer.take (bufLen b)).length ≤ b.len ∧
      b.buffer.take (b.buffer.take (bufLen b)).length = b.buffer.take (bufLen b) := by
  have short := bufLen_le b
  have allocated := sound.allocated
  have fits := sound.fits
  have length : (b.buffer.take (bufLen b)).length = bufLen b := by
    rw [List.length_take]
    omega
  rw [length]
  exact ⟨short, rfl⟩

/-- Nobody but the running function may submit a write. -/
def Ready (w : World) (s : SockRef) (sock : Socket) : Prop :=
  sock.socketType = .tcp → sock.writeLock = 1 ∧ (w.port.lane s).writes = []

theorem Good.unlock (good : Good mood held w) (present : w.mgr.heap s = some sock)
    (active : owed (w.port.lane s) (w.mgr.view s) ≠ 0) (ready : Ready w s sock) :
    Good mood held (w.setSocket s { sock with writeLock := sock.writeLock - 1 }) := by
  refine good.local present (local_setSocket _ _ _) ?_
  refine (good.1.fair s).advance active present rfl rfl rfl rfl ?_ ?_
  · intro account
    exact account.same rfl
  · intro tcp conduit
    obtain ⟨locked, nothing⟩ := ready tcp
    refine ⟨conduit.whole, Or.inl ⟨?_, nothing⟩, conduit.handed, conduit.idle, conduit.flow⟩
    change sock.writeLock - 1 = 0
    omega

theorem Good.submit (good : Good mood held w) (present : w.mgr.heap s = some sock)
    (active : owed (w.port.lane s) (w.mgr.view s) ≠ 0) (ready : Ready w s sock)
    (connected : sock.status = .connected) :
    Good mood held
      { w with
        mgr := w.mgr.setSocket s { sock with count := sock.count + 1 }
        port := { w.port with writes :=
          { s := s, data := sock.writeBuffer.buffer.take (bufLen sock.writeBuffer) } ::
            w.port.writes } } := by
  have more : owed ((w.port.lane s).write (sock.writeBuffer.buffer.take (bufLen sock.writeBuffer)))
      ((w.mgr.view s).setSock { sock with count := sock.count + 1 }) =
      owed (w.port.lane s) (w.mgr.view s) + 1 := by
    simp only [owed, View.refs, View.setSock, Lane.write, List.length_cons]
    omega
  have fair : Fair (mood s)
      ((w.port.lane s).write (sock.writeBuffer.buffer.take (bufLen sock.writeBuffer)))
      ((w.mgr.view s).setSock { sock with count := sock.count + 1 }) := by
    refine (good.1.fair s).advance active present rfl rfl rfl rfl ?_ ?_
    · intro account
      rw [more]
      exact account.gain
    · intro tcp conduit
      obtain ⟨locked, nothing⟩ := ready tcp
      refine ⟨conduit.whole, Or.inr ⟨locked, ?_⟩, ?_, ?_, conduit.flow⟩
      · simp [Lane.write, nothing]
      · have start := handed_start conduit.whole.toSound
        intro data outstanding
        simp only [Lane.write, nothing, List.mem_singleton] at outstanding
        rw [outstanding]
        exact start
      · intro connecting
        exact absurd (connected.symm.trans connecting) (by simp)
  have kept := good.at { w with
      mgr := w.mgr.setSocket s { sock with count := sock.count + 1 }
      port := { w.port with writes :=
        { s := s, data := sock.writeBuffer.buffer.take (bufLen sock.writeBuffer) } ::
          w.port.writes } }
    present (lane_write w.port s _) (local_setSocket _ _ _).view rfl rfl rfl fair
  rwa [Function.update_eq_self] at kept

theorem writeCallback_spec (good : Good mood held w) (present : w.mgr.heap s = some sock)
    (active : owed (w.port.lane s) (w.mgr.view s) ≠ 0) (ready : Ready w s sock)
    (connected : sock.status = .connected) :
    Wp Tolerated (writeCallback s) (fun _ => Good mood held) w := by
  have changed := local_setSocket w.mgr s { sock with writeBuffer := sock.writeBuffer.fillVector.2 }
  have filled : Good mood held
      (w.setSocket s { sock with writeBuffer := sock.writeBuffer.fillVector.2 }) := by
    refine good.local present changed ?_
    refine (good.1.fair s).advance active present rfl rfl rfl rfl ?_ ?_
    · intro account
      exact account.same rfl
    · intro _ conduit
      exact conduit.append (appends_fill conduit.whole) rfl (List.append_nil _).symm
  have still : owed (w.port.lane s)
      ((w.mgr.setSocket s { sock with writeBuffer := sock.writeBuffer.fillVector.2 }).view s) ≠ 0 := by
    rw [changed.self]
    exact active
  unfold writeCallback decSendLock
  rw [wp_bind, wp_updates present, wp_bind, wp_derefs changed.heap]
  split
  · unfold wsaSend
    rw [wp_bind, wp_bind, wp_get, wp_bind, wp_modify, wp_pure]
    split
    · rw [wp_bind, wp_modifyPort, wp_bind]
      unfold refAdd
      rw [wp_updates (by exact changed.heap)]
      exact filled.submit changed.heap still ready connected
    · rw [wp_bind, wp_updates (by exact changed.heap)]
      exact filled.unlock changed.heap still ready
  · rw [wp_bind, wp_updates (by exact changed.heap)]
    exact filled.unlock changed.heap still ready

theorem burstPush_spec (good : Good mood held w) (present : w.mgr.heap s = some sock)
    (active : owed (w.port.lane s) (w.mgr.view s) ≠ 0) (connected : sock.status = .connected) :
    Wp Tolerated (burstPush s) (fun _ => Good mood held) w := by
  unfold burstPush
  rw [wp_bind, wp_derefs present]
  split
  · next idle =>
      have changed := local_setSocket w.mgr s { sock with writeLock := sock.writeLock + 1 }
      have nothing : sock.socketType = .tcp → (w.port.lane s).writes = [] := by
        intro tcp
        rcases ((good.1.fair s).conduit sock present tcp).lock with ⟨_, none⟩ | ⟨locked, _⟩
        · exact none
        · exact absurd (idle.symm.trans locked) (by simp)
      have locked : Good mood held
          (w.setSocket s { sock with writeLock := sock.writeLock + 1 }) := by
        refine good.local present changed ?_
        refine (good.1.fair s).advance active present rfl rfl rfl rfl ?_ ?_
        · intro account
          exact account.same rfl
        · intro tcp conduit
          refine ⟨conduit.whole, Or.inr ⟨?_, ?_⟩, conduit.handed, conduit.idle, conduit.flow⟩
          · change sock.writeLock + 1 = 1
            omega
          · simp [nothing tcp]
      rw [wp_bind, wp_updates present]
      refine writeCallback_spec locked changed.heap ?_ ?_ connected
      · change owed _ (Mgr.view (w.mgr.setSocket s _) s) ≠ 0
        rw [changed.self]
        exact active
      · intro tcp
        refine ⟨?_, nothing tcp⟩
        change sock.writeLock + 1 = 1
        omega
  · exact good

/-! ## Leaving the map -/

theorem removeSocket_spec (good : Good mood held w) (present : w.mgr.heap s = some sock)
    (named : (w.mgr.view s).names ≠ [])
    (finished : sock.status ≠ .connected ∧ sock.status ≠ .closing ∨ sock.count - 1 = 0) :
    Wp Tolerated (liftM (removeSocket sock.connIdx) : W Unit)
      (fun _ => Good (Function.update mood s .settled) held) w := by
  obtain ⟨holder, holds, names⟩ := (good.1.fair s).named named
  obtain rfl := Option.some.inj (present.symm.trans holds)
  have inside : (sock.connIdx, s) ∈ w.mgr.socketMap := names_mem (by rw [names]; simp)
  have found := Mgr.find_of_mem good.1.keys inside
  rw [wp_lift, removeSocket, wp_bind, wp_get]
  have sharedFound : w.shared.mgr.find sock.connIdx = some s := found
  simp only [sharedFound]
  refine (refRelease_spec (w := w.shared) present).seq ?_
  rintro _ shared ⟨_, rfl, released, _⟩
  rw [wp_modifyMgr]
  have keys : (shared.mgr.socketMap.map Prod.fst).Nodup := by
    rw [released.socketMap]
    exact good.1.keys
  have view : (shared.mgr.erase sock.connIdx).view = Function.update w.mgr.view s
      ({ w.mgr.view s with names := [] }.release sock) := by
    rw [erase_view keys (by rw [released.socketMap]; exact inside)
      (by rw [released.self]; exact names), released.self, released.view, Function.update_idem]
    rfl
  refine ⟨good.1.at .settled (good.1.allocated present)
    (Function.update_eq_self s w.port.lane).symm view ?_
    released.nextRef ((good.1.fair s).leave present named finished), released.held.trans good.2⟩
  exact keys.sublist (List.filter_sublist.map _)

/-! ## Callbacks -/

theorem Good.noted (good : Good mood held w) (present : w.mgr.heap s = some sock)
    {entry : LogEntry} (subject : entry.subject = some s) (unsent : entry.sentBytes = [])
    (unqueued : entry.queuedBytes = []) :
    Good mood held { w with mgr := w.mgr.record entry } :=
  good.local present (local_record w.mgr subject) ((good.1.fair s).note unsent unqueued)

theorem runTask_spec {script : W Unit} (scripted : Safe (Good mood held) script)
    (handle : HandleInfo) {task : LogEntry} (good : Good mood held w)
    (present : w.mgr.heap s = some sock) (subject : task.subject = some s)
    (unsent : task.sentBytes = []) (unqueued : task.queuedBytes = []) :
    Wp Tolerated (runTask script handle task) (fun _ => Good mood held) w := by
  have noted := good.noted present subject unsent unqueued
  unfold runTask
  rw [wp_bind, wp_records]
  split
  · exact scripted _ noted
  · exact noted

theorem runConnectTask_spec {script : W Unit} (scripted : Safe (Good mood held) script)
    (isSuccess : Bool) (good : Good mood held w) (present : w.mgr.heap s = some sock) :
    Wp Tolerated (runConnectTask script s isSuccess) (fun _ => Good mood held) w := by
  unfold runConnectTask
  rw [wp_bind, wp_derefs present]
  exact runTask_spec scripted _ good present rfl rfl rfl

/-- A socket is closed, a callback runs, and the socket leaves the map. -/
theorem shut_spec {callback : W Unit} (settled : mood s = .settled) (good : Good mood held w)
    (present : w.mgr.heap s = some sock) (named : (w.mgr.view s).names ≠ [])
    (callbacks : ∀ w sock, Good (Function.update mood s .shutting) held w →
      w.mgr.heap s = some sock →
      Wp Tolerated callback (fun _ => Good (Function.update mood s .shutting) held) w) :
    Wp Tolerated (do
      updateSocket s fun sock => { sock with status := .closed }
      callback
      removeSocket (← deref s).connIdx : W Unit) (fun _ => Good mood held) w := by
  have changed := local_setSocket w.mgr s { sock with status := .closed }
  have before := good.1.fair s
  rw [settled] at before
  have fair : Fair .shutting (w.port.lane s)
      ((w.mgr.view s).setSock { sock with status := .closed }) :=
    before.stop .closed .shutting (owed_pos_of_named named) present (Or.inl rfl) (fun _ => ⟨rfl, named⟩)
      fun way => absurd rfl way
  have shutting := good.at (w.setSocket s { sock with status := .closed }) present
    (Function.update_eq_self s w.port.lane).symm changed.view rfl rfl rfl fair
  rw [wp_bind, wp_updates present]
  refine (callbacks _ _ shutting changed.heap).seq ?_
  intro _ w₁ good₁
  have fair₁ := good₁.1.fair s
  rw [Function.update_self] at fair₁
  have named₁ := fair₁.shut rfl
  obtain ⟨sock₁, present₁, _⟩ := fair₁.named named₁
  have finished := fair₁.closed rfl sock₁ present₁
  rw [wp_bind, wp_derefs present₁]
  refine (removeSocket_spec good₁ present₁ named₁ (Or.inl (by simp [finished]))).mono ?_
  intro _ w₂ good₂
  rwa [Function.update_idem, ← settled, Function.update_eq_self] at good₂

/-- The same with something to follow. -/
theorem shut_then {Value : Type} {callback : W Unit} {rest : W Value}
    {post : Value → World → Prop} (settled : mood s = .settled) (good : Good mood held w)
    (present : w.mgr.heap s = some sock) (named : (w.mgr.view s).names ≠ [])
    (callbacks : ∀ w sock, Good (Function.update mood s .shutting) held w →
      w.mgr.heap s = some sock →
      Wp Tolerated callback (fun _ => Good (Function.update mood s .shutting) held) w)
    (later : ∀ w', Good mood held w' → Wp Tolerated rest post w') :
    Wp Tolerated (do
      updateSocket s fun sock => { sock with status := .closed }
      callback
      removeSocket (← deref s).connIdx
      rest : W Value) post w := by
  have first := (shut_spec settled good present named callbacks).seq fun _ w' kept => later w' kept
  simpa only [bind_assoc] using first

/-! ## New sockets -/

/-- What the constructor leaves, whatever the status. -/
structure Unused (sock : Socket) : Prop where
  count : sock.count = 0
  writeLock : sock.writeLock = 0
  writeBuffer : sock.writeBuffer.WellFormed ∧ sock.writeBuffer.content = []
  kcp : sock.socketType = .udp → sock.kcp ≠ none

theorem newSocket_unused (socketType : SocketType) (fd connIdx : Nat) (config : Config)
    (status : SocketStatus) (own : socketType = .udp → fd = 0) :
    Unused { newSocket socketType fd connIdx config with status := status } where
  count := rfl
  writeLock := rfl
  writeBuffer := ⟨SequenceBuffer.allocate_wellFormed _, SequenceBuffer.allocate_content _⟩
  kcp := by
    intro udp
    have udp : socketType = .udp := udp
    simp [newSocket, udp, own udp]

theorem Unused.conduit (unused : Unused sock) (status : SocketStatus) (count : Int) :
    Conduit [] [] { sock with status := status, count := count } where
  whole := unused.writeBuffer.1
  lock := Or.inl ⟨unused.writeLock, rfl⟩
  handed := by simp
  idle := fun _ => rfl
  flow := by
    intro _
    simpa using unused.writeBuffer.2

theorem fair_enrolled (unused : Unused sock) :
    Fair .settled .empty
      { View.blank with
        sock := some { sock with count := sock.count + 1, status := .connected }
        names := [sock.connIdx] } := by
  have count : sock.count + 1 = 1 := by rw [unused.count]; rfl
  refine ⟨by simp, ?_, ?_, ?_, by simp, by simp, by simp, by simp [Lane.empty], by simp⟩
  · intro _
    exact ⟨_, rfl, rfl⟩
  · intro other holds
    obtain rfl := Option.some.inj holds
    refine ⟨?_, ?_, ?_, ?_, ?_, unused.kcp⟩ <;> simp [count, owed, View.refs, View.blank, Lane.empty]
  · intro other holds _
    obtain rfl := Option.some.inj holds
    exact unused.conduit _ _

theorem fair_connecting (unused : Unused sock) (tcp : sock.socketType = .tcp)
    (status : sock.status = .connecting) :
    Fair .settled { Lane.empty with connects := 1 } (View.blank.setSock sock) := by
  refine ⟨by simp [View.setSock], by simp [View.setSock, View.blank], ?_, ?_, by simp, by simp,
    by simp, ?_, by simp⟩
  · intro other holds
    obtain rfl := Option.some.inj holds
    refine ⟨?_, ?_, ?_, ?_, ?_, unused.kcp⟩ <;>
      simp [unused.count, owed, View.refs, View.blank, Lane.empty, View.setSock, status]
  · intro other holds _
    obtain rfl := Option.some.inj holds
    exact (unused.conduit sock.status sock.count).same rfl rfl rfl
  · intro _
    refine ⟨rfl, rfl, ?_⟩
    intro other holds
    obtain rfl := Option.some.inj holds
    exact ⟨tcp, status⟩

theorem fair_spare (unused : Unused sock) (status : sock.status = .connecting) :
    Fair .spare .empty (View.blank.setSock sock) := by
  refine ⟨by simp [View.setSock], by simp [View.setSock, View.blank], ?_, ?_, by simp, by simp,
    ?_, by simp [Lane.empty], by simp⟩
  · intro other holds
    obtain rfl := Option.some.inj holds
    refine ⟨?_, ?_, ?_, ?_, ?_, unused.kcp⟩ <;>
      simp [unused.count, owed, View.refs, View.blank, Lane.empty, View.setSock, status]
  · intro other holds _
    obtain rfl := Option.some.inj holds
    exact (unused.conduit sock.status sock.count).same rfl rfl rfl
  · intro _
    exact ⟨rfl, rfl, by simp [View.setSock]⟩

def World.with (w : World) (auto : Nat) (sock : Socket) : World :=
  { w with mgr := (w.mgr.bump auto).setSocket w.mgr.nextRef sock }

theorem wp_fresh {Value : Type} {post : Value → World → Prop} {sock : Nat → Socket}
    {next : Nat → SockRef → W Value}
    (rest : ∀ connIdx auto, w.mgr.find connIdx = none →
      Wp Tolerated (next connIdx w.mgr.nextRef) post (w.with auto (sock connIdx))) :
    Wp Tolerated (do
      let connIdx ← makeGeneralConnID
      let s ← allocate (sock connIdx)
      next connIdx s : W Value) post w := by
  rw [wp_bind, wp_lift]
  refine (makeGeneralConnID_spec (by simp [Tolerated])).mono ?_
  rintro connIdx shared ⟨missing, auto, rfl⟩
  rw [wp_bind, wp_lift]
  exact rest connIdx auto missing

theorem Good.with_local (good : Good mood held w) (auto : Nat) (sock : Socket) :
    Local (w.mgr.bump auto) (w.with auto sock).mgr w.mgr.nextRef (View.blank.setSock sock) :=
  local_new (good.1.fresh _ le_rfl).1 auto sock

theorem Good.with_heap (good : Good mood held w) (auto : Nat) (sock : Socket) :
    (w.with auto sock).mgr.heap w.mgr.nextRef = some sock := (good.with_local auto sock).heap

/-- The next reference, when nothing has been submitted for it. -/
theorem Good.lanes (good : Good mood held w) :
    w.port.lane = Function.update w.port.lane w.mgr.nextRef .empty := by
  rw [← (good.1.fresh _ le_rfl).2.1, Function.update_eq_self]

theorem Good.moods (good : Good mood held w) :
    Function.update mood w.mgr.nextRef .settled = mood := by
  rw [← (good.1.fresh _ le_rfl).2.2, Function.update_eq_self]

/-- A new socket enters the map and is connected. -/
theorem enroll_then {Value : Type} {rest : W Value} {post : Value → World → Prop}
    (good : Good mood held w) (unused : Unused sock) (missing : w.mgr.find sock.connIdx = none)
    (auto : Nat)
    (later : ∀ w', Good mood held w' → w'.mgr.heap w.mgr.nextRef =
        some { sock with count := sock.count + 1, status := .connected } →
      (w'.mgr.view w.mgr.nextRef).names ≠ [] → Wp Tolerated rest post w') :
    Wp Tolerated (do
      addSocket w.mgr.nextRef
      updateSocket w.mgr.nextRef fun sock => { sock with status := .connected }
      rest : W Value) post (w.with auto sock) := by
  have made := good.with_local auto sock
  rw [wp_bind, wp_lift]
  refine (show Wp Tolerated _ _ (w.with auto sock).shared from
    addSocket_spec (w := w.shared) made missing).mono ?_
  rintro _ shared ⟨-, enrolled⟩
  have present : ((w.with auto sock).resume shared).mgr.heap w.mgr.nextRef =
      some { sock with count := sock.count + 1 } := congrArg View.sock enrolled.self
  rw [wp_bind, wp_updates present]
  have updated := enrolled.update { sock with count := sock.count + 1, status := .connected }
  have keys : (shared.mgr.socketMap.map Prod.fst).Nodup := by
    rw [enrolled.socketMap, List.map_append]
    exact List.Nodup.append good.1.keys (List.nodup_singleton _)
      (List.disjoint_singleton.mpr (Mgr.find_none missing))
  have born := good.1.born _ good.lanes updated.view keys updated.nextRef (fair_enrolled unused)
  rw [good.moods] at born
  refine later _ ⟨born, updated.held.trans good.2⟩ (congrArg View.sock updated.self) ?_
  have names := congrArg View.names updated.self
  exact fun empty => absurd (names.symm.trans empty) (by simp [View.setSock])

/-- A new socket is deleted at once. -/
theorem discard_spec (good : Good mood held w) (auto : Nat) (sock : Socket) :
    Wp Tolerated (liftM (delete w.mgr.nextRef) : W Unit) (fun _ => Good mood held)
      (w.with auto sock) := by
  have made := good.with_local auto sock
  rw [wp_lift]
  refine (delete_spec (w := (w.with auto sock).shared) made.heap).mono ?_
  rintro _ shared ⟨_, rfl, deleted, _⟩
  have gone := made.trans deleted
  have blank : View.blank = { (w.with auto sock).shared.mgr.view w.mgr.nextRef with
      sock := none } := by
    change _ = { (w.with auto sock).mgr.view w.mgr.nextRef with sock := none }
    rw [made.self]
    rfl
  rw [← blank] at gone
  have born := good.1.born shared.mgr good.lanes gone.view
    (by rw [gone.socketMap]; exact good.1.keys) gone.nextRef fair_blank
  rw [good.moods] at born
  exact ⟨born, gone.held.trans good.2⟩

section Connects

variable {onConnect : SockRef → Bool → W Unit}
  (reports : ∀ mood held w s sock isSuccess, Good mood held w → w.mgr.heap s = some sock →
    Wp Tolerated (onConnect s isSuccess) (fun _ => Good mood held) w)

include reports

theorem connectEx_safe (config : Config) (result : ConnectResult) :
    Safe (Good mood held) (connectEx onConnect config result) := by
  intro w good
  unfold connectEx
  refine wp_fresh ?_
  intro connIdx auto missing
  have unused := newSocket_unused .tcp 0 connIdx config .connecting fun _ => rfl
  have tcp : (newSocket .tcp 0 connIdx config).socketType = .tcp := rfl
  generalize made : ({ newSocket .tcp 0 connIdx config with status := .connecting } : Socket) = sock
    at unused ⊢
  have kind : sock.socketType = .tcp ∧ sock.status = .connecting := by
    rw [← made]
    exact ⟨tcp, rfl⟩
  cases result with
  | pending =>
      dsimp only
      rw [wp_bind, wp_modifyPort]
      have lanes : ({ w.port with connects := w.mgr.nextRef :: w.port.connects } : Port).lane =
          Function.update w.port.lane w.mgr.nextRef { Lane.empty with connects := 1 } := by
        have empty := (good.1.fresh _ le_rfl).2.1
        funext other
        by_cases here : other = w.mgr.nextRef
        · subst here
          rw [Function.update_self, ← empty]
          have zero := congrArg Lane.connects empty
          simp only [Port.lane, Lane.empty] at zero
          simp [Port.lane, zero]
        · simp [Port.lane, here, Ne.symm here]
      have born := good.1.born (w.with auto sock).mgr lanes
        (good.with_local auto sock).view good.1.keys rfl (fair_connecting unused kind.1 kind.2)
      rw [good.moods] at born
      exact ⟨born, good.2⟩
  | refused =>
      dsimp only
      have born := good.1.born (w.with auto sock).mgr good.lanes
        (good.with_local auto sock).view good.1.keys rfl (fair_spare unused kind.2)
      have spared : Good (Function.update mood w.mgr.nextRef .spare) held (w.with auto sock) :=
        ⟨born, good.2⟩
      refine (reports _ _ _ _ _ false spared (good.with_heap auto sock)).seq ?_
      intro _ w₁ good₁
      have fair₁ := good₁.1.fair w.mgr.nextRef
      rw [Function.update_self] at fair₁
      obtain ⟨sock₁, present₁⟩ := Option.ne_none_iff_exists'.mp (fair₁.spared rfl).2.2
      rw [wp_bind, wp_lift]
      refine (delete_spec (w := w₁.shared) present₁).mono ?_
      rintro _ shared ⟨_, rfl, deleted, _⟩
      have kept := good₁.at (w₁.resume shared) present₁
        (Function.update_eq_self w.mgr.nextRef w₁.port.lane).symm deleted.view deleted.socketMap
        deleted.nextRef deleted.held fair₁.discard
      rwa [Function.update_idem, good.moods] at kept
  | unresolved =>
      dsimp only
      refine (discard_spec good auto sock).seq ?_
      intro _ _ kept
      exact kept

theorem connectUDP_safe (config : Config) (established isServerBuild : Bool) :
    Safe (Good mood held) (connectUDP onConnect config established isServerBuild) := by
  intro w good
  unfold connectUDP
  refine wp_fresh ?_
  intro connIdx auto missing
  have unused := newSocket_unused .udp 0 connIdx { config with isParsePackage := true } .connecting
    fun _ => rfl
  have key : (newSocket .udp 0 connIdx { config with isParsePackage := true }).connIdx = connIdx := rfl
  generalize made : ({ newSocket .udp 0 connIdx { config with isParsePackage := true } with
    status := .connecting } : Socket) = sock at unused ⊢
  have sameKey : sock.connIdx = connIdx := by
    rw [← made]
    exact key
  cases established with
  | false =>
      simp only [Bool.false_eq_true, if_false]
      refine (discard_spec good auto sock).seq ?_
      intro _ _ kept
      exact kept
  | true =>
      simp only [if_true]
      refine enroll_then good unused (by rw [sameKey]; exact missing) auto ?_
      intro w₁ good₁ present₁ named₁
      refine setup_then good₁ (owed_pos_of_named named₁) ?_ ?_
      · intro w₂ sock₂ good₂ present₂ active₂
        split
        · have changed := local_setSocket w₂.mgr w.mgr.nextRef { sock₂ with isUdpConnected := true }
          have kept : Good mood held
              (w₂.setSocket w.mgr.nextRef { sock₂ with isUdpConnected := true }) :=
            good₂.local present₂ changed
              ((good₂.1.fair _).quiet active₂ present₂ rfl rfl rfl rfl rfl rfl)
          rw [wp_bind, wp_updates present₂]
          refine (reports _ _ _ _ _ true kept changed.heap).seq ?_
          intro _ _ good₃
          exact good₃
        · exact good₂
      · intro w₂ good₂ same
        refine shut_then (good.1.fresh _ le_rfl).2.2 good₂ (by rw [same]; exact present₁)
          (by rw [same]; exact named₁) ?_ fun _ kept => kept
        intro w₃ sock₃ good₃ present₃
        exact reports _ _ _ _ _ false good₃ present₃

theorem udpConnect_safe (config : Config) (established : Bool) :
    Safe (Good mood held) (udpConnect onConnect config established) := by
  unfold udpConnect
  refine (connectUDP_safe reports config established false).bind fun connIdx => ?_
  split
  · exact (lift_safe fun _ => sendMsg_safe (by decide)).bind fun _ => Safe.pure _
  · exact Safe.pure _

end Connects

end Operations

/-! ## Scripts -/

mutual

theorem luaCall_safe : ∀ call mood held, Safe (Good mood held) (luaCall call)
  | .sendMsg connIdx message, mood, held => by
      unfold luaCall
      exact (lift_safe fun _ => sendMsg_safe message.short).bind fun _ => Safe.pure _
  | .send connIdx message, mood, held => by
      unfold luaCall
      have short : message.data.length < 2 ^ 32 := by
        have := message.short
        omega
      exact (lift_safe fun _ => send_safe short).bind fun _ => Safe.pure _
  | .disconnect connIdx, mood, held => by
      unfold luaCall
      exact lift_safe fun _ => disconnect_safe
  | .connectEx config result callback, mood, held => by
      unfold luaCall
      refine (connectEx_safe ?_ config result).bind fun _ => Safe.pure _
      intro mood held w s sock isSuccess good present
      exact runConnectTask_spec (runCalls_safe callback mood held) isSuccess good present
  | .connectUDP config established callback, mood, held => by
      unfold luaCall
      refine udpConnect_safe ?_ config established
      intro mood held w s sock isSuccess good present
      exact runConnectTask_spec (runCalls_safe callback mood held) isSuccess good present

theorem runCalls_safe : ∀ calls mood held, Safe (Good mood held) (runCalls calls)
  | [], mood, held => by
      unfold runCalls
      exact Safe.pure _
  | call :: rest, mood, held => by
      unfold runCalls
      exact (luaCall_safe call mood held).bind fun _ => runCalls_safe rest mood held

end

section Reading

variable {mood : SockRef → Mood} {held : List SockRef} {w : World} {s : SockRef} {sock : Socket}

theorem runScript_safe : Safe (Good mood held) runScript := by
  intro w good
  unfold runScript
  rw [wp_bind, wp_get, wp_bind, wp_modify]
  exact runCalls_safe _ mood held _ good

theorem onConnect_spec (isSuccess : Bool) (good : Good mood held w)
    (present : w.mgr.heap s = some sock) :
    Wp Tolerated (Socket.onConnect s isSuccess) (fun _ => Good mood held) w :=
  runConnectTask_spec runScript_safe isSuccess good present

theorem onDisconnect_spec (good : Good mood held w) (present : w.mgr.heap s = some sock) :
    Wp Tolerated (Socket.onDisconnect s) (fun _ => Good mood held) w := by
  unfold Socket.onDisconnect
  rw [wp_bind, wp_derefs present]
  exact runTask_spec runScript_safe _ good present rfl rfl rfl

/-! ## Reading -/

variable (mine : s ∈ held)

include mine

theorem onData_safe (data : Bytes) : Safe (Good mood held) (Socket.onData s data) := by
  intro w good
  obtain ⟨sock, present⟩ := good.alive mine
  unfold Socket.onData
  rw [wp_bind, wp_derefs present]
  exact runTask_spec runScript_safe _ good present rfl rfl rfl

/-- A change that concerns neither references nor the write path. -/
theorem update_safe {f : Network.Socket → Network.Socket}
    (standing : ∀ sock, (Socket.standing (f sock), (f sock).connIdx) =
      (Socket.standing sock, sock.connIdx))
    (outlet : ∀ sock, Socket.outlet (f sock) = Socket.outlet sock) :
    Safe (Good mood held) (liftM (updateSocket s f) : W Unit) := by
  intro w good
  obtain ⟨sock, present⟩ := good.alive mine
  rw [wp_updates present]
  exact good.local present (local_setSocket _ _ _) ((good.1.fair s).quiet (good.active_held mine)
    present rfl rfl (standing sock) (outlet sock) rfl rfl)

theorem record_safe {entry : LogEntry} (subject : entry.subject = some s)
    (unsent : entry.sentBytes = []) (unqueued : entry.queuedBytes = []) :
    Safe (Good mood held) (liftM (record entry) : W Unit) := by
  intro w good
  obtain ⟨sock, present⟩ := good.alive mine
  rw [wp_records]
  exact good.noted present subject unsent unqueued

theorem deref_safe : Safe (Good mood held) (liftM (deref s) : W Network.Socket) := by
  intro w good
  obtain ⟨sock, present⟩ := good.alive mine
  rw [wp_derefs present]
  exact good

theorem updateKcp_safe (f : Ikcp.Kcp → Ikcp.Kcp) :
    Safe (Good mood held) (liftM (Network.Socket.updateKcp s f) : W Unit) :=
  update_safe mine (by intro sock; simp [Socket.standing]) (by intro _; rfl)

theorem kcpMergeLoop_safe (segs : List Ikcp.Seg) :
    Safe (Good mood held) (Socket.kcpMergeLoop s segs) := by
  induction segs with
  | nil => exact Safe.pure _
  | cons seg rest inductionHypothesis =>
      rw [Socket.kcpMergeLoop]
      refine (onData_safe mine seg.data).bind fun _ => (updateKcp_safe mine _).bind fun _ => ?_
      split
      · exact Safe.pure _
      · exact inductionHypothesis.bind fun _ => Safe.pure _

theorem kcpRecv_safe (wired : mood s = .wired) : Safe (Good mood held) (Socket.kcpRecv s) := by
  intro w good
  obtain ⟨sock, present⟩ := good.alive mine
  have udp := (good.1.fair s).wired wired sock present
  unfold Socket.kcpRecv
  rw [wp_bind, wp_derefs present]
  cases connected : sock.kcp with
  | none => exact absurd connected (((good.1.fair s).account sock present).kcp udp)
  | some kcp =>
      dsimp only
      split
      · exact good
      · split
        · exact good
        · refine ((kcpMergeLoop_safe mine _).bind fun len => ?_) w good
          exact (updateKcp_safe mine _).bind fun _ => Safe.pure _

theorem kcpRecvLoop_safe (wired : mood s = .wired) (turns : Nat) :
    Safe (Good mood held) (Socket.kcpRecvLoop s turns) := by
  induction turns with
  | zero =>
      intro w _
      simp [Socket.kcpRecvLoop, Tolerated]
  | succ turns inductionHypothesis =>
      rw [Socket.kcpRecvLoop]
      refine (kcpRecv_safe mine wired).bind fun _ => ?_
      split
      · exact inductionHypothesis
      · exact Safe.pure _

omit mine in
/-- The mood of a UDP socket changes. -/
theorem Good.rewire (good : Good mood held w) {feeling : Mood}
    (present : w.mgr.heap s = some sock) (udp : sock.socketType = .udp)
    (after : feeling = .settled ∨ feeling = .wired) :
    Good (Function.update mood s feeling) held w := by
  refine good.at w present (Function.update_eq_self s w.port.lane).symm
    (Function.update_eq_self s w.mgr.view).symm rfl rfl rfl ((good.1.fair s).rewire ?_ after)
  intro other holds
  obtain rfl := Option.some.inj (present.symm.trans holds)
  exact udp

theorem onKcpFrame_spec (data : Bytes) (settled : mood s = .settled) (good : Good mood held w)
    (present : w.mgr.heap s = some sock) (udp : sock.socketType = .udp) :
    Wp Tolerated (Socket.onKcpFrame s data) (fun _ => Good mood held) w := by
  unfold Socket.onKcpFrame
  rw [wp_bind, wp_derefs present]
  cases connected : sock.kcp with
  | none => exact absurd connected (((good.1.fair s).account sock present).kcp udp)
  | some kcp =>
      have wired := good.rewire present udp (Or.inr rfl)
      have kept := wired.local present
        (local_setSocket w.mgr s { sock with kcp := some (kcp.input data).1 })
        ((wired.1.fair s).quiet (wired.active_held mine) present rfl rfl
          (by simp [Socket.standing, connected]) rfl rfl rfl)
      dsimp only
      rw [wp_bind, wp_updates present]
      refine (kcpRecvLoop_safe mine (Function.update_self s .wired mood) _ _ kept).mono ?_
      intro _ w₁ good₁
      obtain ⟨sock₁, present₁⟩ := good₁.alive mine
      have udp₁ := (good₁.1.fair s).wired (Function.update_self s .wired mood) sock₁ present₁
      have back := good₁.rewire present₁ udp₁ (Or.inl rfl)
      rwa [Function.update_idem, ← settled, Function.update_eq_self] at back

theorem onHandshake_safe (packetLen cursor : Nat) :
    Safe (Good mood held) (Socket.onHandshake s packetLen cursor) := by
  intro w good
  obtain ⟨sock, present⟩ := good.alive mine
  unfold Socket.onHandshake
  rw [wp_bind, wp_derefs present]
  split
  · split
    · have asked : Safe (Good mood held) (liftM (Network.Socket.connectUdpPort s) : W Bool) := by
        intro w good
        obtain ⟨sock, present⟩ := good.alive mine
        rw [wp_lift]
        unfold Network.Socket.connectUdpPort
        rw [wp_bind, wp_get, wp_bind, wp_modify, wp_bind, wp_deref (by exact present), wp_pure]
        exact good
      refine (asked.bind fun connected => ?_) w good
      split
      · refine (update_safe mine (by intro _; rfl) (by intro _; rfl)).bind fun _ => ?_
        intro w₁ good₁
        obtain ⟨sock₁, present₁⟩ := good₁.alive mine
        exact onConnect_spec true good₁ present₁
      · intro w₁ good₁
        obtain ⟨sock₁, present₁⟩ := good₁.alive mine
        refine (onConnect_spec false good₁ present₁).seq ?_
        intro _ w₂ good₂
        exact lift_safe (fun _ => disconnect_safe) w₂ good₂
    · exact good
  · exact lift_safe (fun _ => disconnect_safe) w good

theorem onFrame_safe (settled : mood s = .settled) (packetLen cursor len : Nat) :
    Safe (Good mood held) (Socket.onFrame s packetLen cursor len) := by
  intro w good
  obtain ⟨sock, present⟩ := good.alive mine
  unfold Socket.onFrame
  rw [wp_bind, wp_derefs present]
  dsimp only
  split
  · exact onData_safe mine _ w good
  · next udp =>
      split
      · exact onKcpFrame_spec mine _ settled good present udp
      · exact onHandshake_safe mine packetLen cursor w good

theorem addUInt32_safe (a b : Nat) :
    Safe (Good mood held) (liftM (Network.Socket.addUInt32 s a b) : W Nat) := by
  intro w good
  obtain ⟨sock, present⟩ := good.alive mine
  rw [wp_lift]
  unfold Network.Socket.addUInt32
  split
  · rw [wp_bind, wp_record]
    exact good.noted present rfl rfl rfl
  · exact good

theorem onReadLoop_safe (settled : mood s = .settled) (packetLen turns cursor : Nat) :
    Safe (Good mood held) (Socket.onReadLoop s packetLen turns cursor) := by
  induction turns generalizing cursor with
  | zero =>
      intro w _
      simp [Socket.onReadLoop, Tolerated]
  | succ turns inductionHypothesis =>
      rw [Socket.onReadLoop]
      refine (addUInt32_safe mine cursor 4).bind fun bodyStart => ?_
      split
      · refine (deref_safe mine).bind fun sock => ?_
        dsimp only
        split
        · refine (addUInt32_safe mine _ _).bind fun bodyEnd => ?_
          split
          · exact (onFrame_safe mine settled _ _ _).bind fun _ => inductionHypothesis _
          · exact Safe.pure _
        · refine (record_safe mine rfl rfl rfl).bind fun _ => ?_
          exact (lift_safe fun _ => disconnect_safe).bind fun _ => Safe.pure _
      · exact Safe.pure _

theorem onRead_safe (settled : mood s = .settled) : Safe (Good mood held) (Socket.onRead s) := by
  unfold Socket.onRead
  refine (deref_safe mine).bind fun sock => ?_
  dsimp only
  split
  · refine (onReadLoop_safe mine settled _ _ _).bind fun cursor => ?_
    split
    · exact update_safe mine (by intro _; rfl) (by intro _; rfl)
    · exact Safe.pure _
  · refine (onData_safe mine _).bind fun _ => ?_
    exact update_safe mine (by intro _; rfl) (by intro _; rfl)

end Reading

end CrossOver.Engine.Network.Iocp
