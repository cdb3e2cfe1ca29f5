import CrossOver.Engine.Network.Calls

/-!
# The handlers keep the manager consistent

Each handler runs for a socket that the running iteration holds.  It keeps the
manager consistent at every point between steps, whatever the callbacks do, and
leaves no half-closed socket behind.
-/

namespace CrossOver.Engine.Network

open CrossOver.Lib

/-- The references and the batch of the running iteration are as before. -/
structure SameTurn (w w' : World) : Prop where
  held : w'.mgr.held = w.mgr.held
  batch : w'.mgr.batch = w.mgr.batch

theorem SameTurn.refl (w : World) : SameTurn w w := ⟨rfl, rfl⟩

theorem SameTurn.trans {w₁ w₂ w₃ : World} (first : SameTurn w₁ w₂) (second : SameTurn w₂ w₃) :
    SameTurn w₁ w₃ := ⟨second.held.trans first.held, second.batch.trans first.batch⟩

theorem Carried.sameTurn {w w' : World} (carried : Carried w w') : SameTurn w w' :=
  ⟨carried.held, carried.batch⟩

theorem Touched.sameTurn {w w' : World} {s : SockRef} {change : View → View → Prop}
    (touched : Touched s change w w') : SameTurn w w' := by
  obtain ⟨_, _, changed, _⟩ := touched
  exact ⟨changed.held, changed.batch⟩

/-- Since the last step only `s` has changed, and it now looks like `v`. -/
structure Moved (w w' : World) (s : SockRef) (v : View) : Prop where
  mgr : Local w.mgr w'.mgr s v
  seen : w'.course = w.course

theorem moved_setSocket (w : World) (s : SockRef) (sock : Socket) :
    Moved w { w with mgr := w.mgr.setSocket s sock } s ((w.mgr.view s).setSock sock) :=
  ⟨local_setSocket _ _ _, rfl⟩

theorem moved_record (w : World) {s : SockRef} {entry : LogEntry}
    (about : entry.subject = some s) :
    Moved w { w with mgr := w.mgr.record entry } s ((w.mgr.view s).note entry) :=
  ⟨local_record _ about, rfl⟩

theorem Moved.trans {w₁ w₂ w₃ : World} {s : SockRef} {v v' : View} (first : Moved w₁ w₂ s v)
    (second : Moved w₂ w₃ s v') : Moved w₁ w₃ s v' :=
  ⟨first.mgr.trans second.mgr, second.seen.trans first.seen⟩

theorem Moved.setSocket {w w₁ : World} {s : SockRef} {v : View} (moved : Moved w w₁ s v)
    (sock : Socket) : Moved w { w₁ with mgr := w₁.mgr.setSocket s sock } s (v.setSock sock) := by
  have next := moved.trans (moved_setSocket w₁ s sock)
  rwa [moved.mgr.self] at next

theorem Moved.record {w w₁ : World} {s : SockRef} {v : View} (moved : Moved w w₁ s v)
    {entry : LogEntry} (about : entry.subject = some s) :
    Moved w { w₁ with mgr := w₁.mgr.record entry } s (v.note entry) := by
  have next := moved.trans (moved_record w₁ about)
  rwa [moved.mgr.self] at next

theorem View.setSock_self {v : View} {sock : Socket} (present : v.sock = some sock) :
    v.setSock sock = v := by
  rw [View.setSock, ← present]

theorem moved_refl (w : World) (s : SockRef) : Moved w w s (w.mgr.view s) := ⟨.refl _ _, rfl⟩

theorem Moved.sameTurn {w w' : World} {s : SockRef} {v : View} (moved : Moved w w' s v) :
    SameTurn w w' := ⟨moved.mgr.held, moved.mgr.batch⟩

theorem Moved.sane {w w' : World} {s : SockRef} {v : View} {sock : Socket}
    (moved : Moved w w' s v) (sane : Sane w) (present : w.mgr.heap s = some sock)
    (step : Lives s (w.mgr.view s) v) : Sane w' :=
  sane.next moved.seen (sane.1.local present moved.mgr step)

def HasStatus (s : SockRef) (status : SocketStatus) (w : World) : Prop :=
  ∃ sock, w.mgr.heap s = some sock ∧ sock.status = status

section Handlers

variable {allowed : Fault → World → Prop} {w w' : World} {s : SockRef} {sock : Socket}

theorem Carried.hasStatus (carried : Carried w w') {status : SocketStatus}
    (has : HasStatus s status w) : HasStatus s status w' := by
  obtain ⟨sock, present, same⟩ := has
  obtain ⟨_, _, still⟩ := (carried.sockets s sock present).sock sock present
  exact ⟨_, still, same⟩

theorem Sane.tcp (sane : Sane w) (present : w.mgr.heap s = some sock) :
    sock.socketType = .tcp :=
  ((sane.1.good s).outline.phase sock.identity (View.outline_sock present)).1

theorem Sane.phase (sane : Sane w) (present : w.mgr.heap s = some sock) {status : SocketStatus}
    (same : sock.status = status) : (w.mgr.view s).outline.Phase status :=
  phaseOf same (sane.1.good s) present

theorem Sane.alive (sane : Sane w) (held : (w.mgr.view s).held ≠ 0) :
    ∃ sock, w.mgr.heap s = some sock := by
  cases present : w.mgr.heap s with
  | some sock => exact ⟨sock, rfl⟩
  | none =>
      have gone : (w.mgr.view s).outline.sock = none := by
        simp [View.outline, Mgr.view, present]
      exact absurd ((sane.1.good s).outline.gone gone).2.2.1 held

theorem SameTurn.view_held (same : SameTurn w w') (s : SockRef) :
    (w'.mgr.view s).held = (w.mgr.view s).held := by
  simp only [Mgr.view, same.held]

/-! ## Reading -/

section Reading

/-- The world after a part of `OnRead`. -/
structure Going (s : SockRef) (w w' : World) : Prop where
  sane : Sane w'
  turn : SameTurn w w'
  connected : HasStatus s .connected w'

theorem Going.trans {w₁ w₂ w₃ : World} (first : Going s w₁ w₂) (second : Going s w₂ w₃) :
    Going s w₁ w₃ := ⟨second.sane, first.turn.trans second.turn, second.connected⟩

variable (exhausted : ∀ w, Sane w → allowed .idsExhausted w)
  (diverges : ∀ w, Sane w → allowed .diverges w)

include exhausted

theorem onData_spec (sane : Sane w) (connected : HasStatus s .connected w) (data : Bytes) :
    Wp allowed (Socket.onData s data) (fun _ w' => Going s w w') w := by
  obtain ⟨sock, present, status⟩ := connected
  have about : LogEntry.subject (.readTask s sock.connIdx data) = some s := rfl
  have noted := local_record w.mgr about
  have recorded : Sane { w with mgr := w.mgr.record (.readTask s sock.connIdx data) } :=
    sane.next rfl (sane.1.local present noted (.receive present status))
  unfold Socket.onData
  rw [wp_bind, wp_deref present]
  refine (process_spec exhausted _ recorded).mono ?_
  rintro _ w' ⟨sane', carried⟩
  have still : HasStatus s .connected
      { w with mgr := w.mgr.record (.readTask s sock.connIdx data) } := ⟨sock, present, status⟩
  exact ⟨sane', ⟨carried.held, carried.batch⟩, carried.hasStatus still⟩

omit exhausted in
theorem addUInt32_spec (sane : Sane w) (connected : HasStatus s .connected w) (a b : Nat) :
    Wp allowed (Socket.addUInt32 s a b) (fun _ w' => Going s w w') w := by
  obtain ⟨sock, present, status⟩ := connected
  have about : LogEntry.subject (.wrapped s) = some s := rfl
  unfold Socket.addUInt32
  by_cases large : 2 ^ 32 ≤ a + b
  · simp only [large, if_true, wp_bind, wp_record, wp_pure]
    exact ⟨sane.next rfl (sane.1.local present (local_record w.mgr about) (.remark (Or.inr rfl))),
      ⟨rfl, rfl⟩, sock, present, status⟩
  · simp only [large, if_false, wp_pure]
    exact ⟨sane, .refl w, sock, present, status⟩

theorem onFrame_spec (packetLen cursor len : Nat) (sane : Sane w)
    (connected : HasStatus s .connected w) :
    Wp allowed (Socket.onFrame s packetLen cursor len) (fun _ w' => Going s w w') w := by
  obtain ⟨sock, present, status⟩ := connected
  unfold Socket.onFrame
  rw [wp_bind, wp_deref present]
  dsimp only
  split
  · exact onData_spec exhausted sane ⟨sock, present, status⟩ _
  · next udp => exact absurd ((sane.tcp present).symm.trans udp) (by simp)

omit exhausted in
theorem packetError_spec (sane : Sane w) (connected : HasStatus s .connected w) (connIdx : Nat) :
    Wp allowed (disconnect connIdx) (fun _ w' => Going s w w')
      { w with mgr := w.mgr.record (.packetError s) } := by
  obtain ⟨sock, present, status⟩ := connected
  have about : LogEntry.subject (.packetError s) = some s := rfl
  have recorded : Sane { w with mgr := w.mgr.record (.packetError s) } :=
    sane.next rfl (sane.1.local present (local_record w.mgr about) (.remark (Or.inl rfl)))
  refine (disconnect_spec recorded connIdx).mono ?_
  rintro _ w' ⟨sane', carried⟩
  have still : HasStatus s .connected { w with mgr := w.mgr.record (.packetError s) } :=
    ⟨sock, present, status⟩
  exact ⟨sane', ⟨carried.held, carried.batch⟩, carried.hasStatus still⟩

include diverges

theorem onReadLoop_spec (packetLen turns cursor : Nat) (sane : Sane w)
    (connected : HasStatus s .connected w) :
    Wp allowed (Socket.onReadLoop s packetLen turns cursor) (fun _ w' => Going s w w') w := by
  induction turns generalizing w cursor with
  | zero => exact diverges w sane
  | succ turns inductionHypothesis =>
      rw [Socket.onReadLoop]
      refine (addUInt32_spec sane connected _ _).seq ?_
      intro bodyStart w₁ started
      split
      · obtain ⟨sock, present, status⟩ := started.connected
        rw [wp_bind, wp_deref present]
        dsimp only
        split
        · refine (addUInt32_spec started.sane started.connected _ _).seq ?_
          intro bodyEnd w₂ measured
          have reached := started.trans measured
          split
          · refine (onFrame_spec exhausted packetLen cursor _ reached.sane reached.connected).seq ?_
            intro _ w₃ delivered
            refine (inductionHypothesis bodyEnd delivered.sane delivered.connected).mono ?_
            intro _ w₄ rest
            exact (reached.trans delivered).trans rest
          · exact reached
        · rw [wp_bind, wp_record, wp_bind]
          refine (packetError_spec started.sane started.connected sock.connIdx).mono ?_
          intro _ w₂ failed
          exact started.trans failed
      · exact started

theorem onRead_spec (sane : Sane w) (connected : HasStatus s .connected w) :
    Wp allowed (Socket.onRead s) (fun _ w' => Going s w w') w := by
  obtain ⟨sock, present, status⟩ := connected
  -- removing what has been read changes the read buffer only
  have removed : ∀ w₁ bytes, Going s w w₁ → Wp allowed
      (updateSocket s fun sock => { sock with readBuffer := sock.readBuffer.remove bytes })
      (fun _ w' => Going s w w') w₁ := by
    intro w₁ bytes going
    obtain ⟨sock, present, status⟩ := going.connected
    rw [wp_updateSocket present]
    have changed := local_setSocket w₁.mgr s
      { sock with readBuffer := sock.readBuffer.remove bytes }
    exact ⟨going.sane.next rfl (going.sane.1.local present changed (.store present)),
      going.turn.trans ⟨rfl, rfl⟩, _, changed.heap, status⟩
  unfold Socket.onRead
  rw [wp_bind, wp_deref present]
  dsimp only
  split
  · refine (onReadLoop_spec exhausted diverges _ _ 0 sane ⟨sock, present, status⟩).seq ?_
    intro cursor w₁ going
    split
    · exact removed w₁ cursor going
    · exact going
  · refine (onData_spec exhausted sane ⟨sock, present, status⟩ _).seq ?_
    intro _ w₁ going
    exact removed w₁ _ going

end Reading

/-! ## Closing -/

theorem Consistent.find_named {m : Mgr} (consistent : Consistent m)
    (present : m.heap s = some sock) (named : (m.view s).names ≠ []) :
    m.find sock.connIdx = some s := by
  obtain ⟨identity, holds, unique⟩ := (consistent.good s).outline.named named
  obtain rfl := Option.some.inj ((View.outline_sock present).symm.trans holds)
  apply Mgr.find_of_mem consistent.keys
  apply names_mem
  change (m.view s).names = [sock.connIdx] at unique
  simp [unique]

/-- The map gives up its reference and its entry. -/
theorem dropEntry_spec (keys : (w.mgr.socketMap.map Prod.fst).Nodup) {w₁ : World} {v : View}
    {connIdx : Nat} (moved : Moved w w₁ s v) (present : v.sock = some sock)
    (names : v.names = [connIdx]) (inside : (connIdx, s) ∈ w.mgr.socketMap) :
    Wp allowed (do
      refRelease s
      modifyMgr fun m => m.erase connIdx) (fun _ w' =>
        w'.mgr.view = Function.update w.mgr.view s ({ v with names := [] }.release sock) ∧
        (w'.mgr.socketMap.map Prod.fst).Nodup ∧ w'.mgr.nextRef = w.mgr.nextRef ∧
        SameTurn w w' ∧ w'.course = w.course) w₁ := by
  refine (refRelease_spec (moved.mgr.heap.trans present)).seq ?_
  rintro _ w₂ ⟨v₂, rfl, released, seen⟩
  have total := moved.mgr.trans released
  rw [moved.mgr.self] at total
  have stillInside : (connIdx, s) ∈ w₂.mgr.socketMap := by
    rw [total.socketMap]
    exact inside
  have stillKeys : (w₂.mgr.socketMap.map Prod.fst).Nodup := by
    rw [total.socketMap]
    exact keys
  have erased := erase_view stillKeys stillInside (by rw [total.self]; exact names)
  rw [wp_modifyMgr]
  refine ⟨?_, ?_, total.nextRef, ⟨total.held, total.batch⟩, seen.trans moved.seen⟩
  · rw [erased, total.view, Function.update_idem, Function.update_self]
    rfl
  · exact stillKeys.sublist (List.filter_sublist.map _)

/-- The last part of leaving, once the epoll set has been told. -/
theorem detach_spec (sane : Sane w) {w₁ : World} {v : View} {connIdx : Nat}
    (moved : Moved w w₁ s v) (present : v.sock = some sock)
    (names : v.names = [connIdx]) (inside : (connIdx, s) ∈ w.mgr.socketMap) :
    Wp allowed (do
      refRelease s
      modifyMgr fun m => m.erase connIdx
      closeDescriptor s) (fun _ w' =>
        w'.mgr.view = Function.update w.mgr.view s
          ({ v with names := [], interest := none }.release sock) ∧
        (w'.mgr.socketMap.map Prod.fst).Nodup ∧ w'.mgr.nextRef = w.mgr.nextRef ∧
        SameTurn w w' ∧ w'.course = w.course) w₁ := by
  rw [← bind_assoc]
  refine (dropEntry_spec sane.1.keys moved present names inside).seq ?_
  rintro _ w₂ ⟨view, keys, nextRef, turn, course⟩
  rw [closeDescriptor, wp_modifyMgr]
  refine ⟨?_, keys, nextRef, ⟨turn.held, turn.batch⟩, course⟩
  rw [(local_setInterest _ s none).view, view, Function.update_self, Function.update_idem]
  rfl

theorem remove_spec (sane : Sane w) {w₁ : World} {before : Socket}
    (leaving : Moved w w₁ s ((w.mgr.view s).setSock sock)) (present : w.mgr.heap s = some before)
    (key : sock.connIdx = before.connIdx) (named : (w.mgr.view s).names ≠ [])
    (step : ∀ v', Removes s ((w.mgr.view s).setSock sock) v' → Lives s (w.mgr.view s) v') :
    Wp allowed (do
      removeSocket sock.connIdx
      closeDescriptor s) (fun _ w' => Sane w' ∧ SameTurn w w' ∧
        Removes s ((w.mgr.view s).setSock sock) (w'.mgr.view s)) w₁ := by
  have known := sane.1.find_named present named
  rw [← key] at known
  have found : w₁.mgr.find sock.connIdx = some s := by
    rw [Mgr.find, leaving.mgr.socketMap]
    exact known
  have inside := Mgr.find_mem known
  obtain ⟨_, _, _, _, names⟩ := sane.1.found inside
  have finish : ∀ w' v', Removes s ((w.mgr.view s).setSock sock) v' →
      (w'.mgr.view = Function.update w.mgr.view s v' ∧
        (w'.mgr.socketMap.map Prod.fst).Nodup ∧ w'.mgr.nextRef = w.mgr.nextRef ∧
        SameTurn w w' ∧ w'.course = w.course) →
      Sane w' ∧ SameTurn w w' ∧ Removes s ((w.mgr.view s).setSock sock) (w'.mgr.view s) := by
    rintro w' v' removes ⟨view, keys, nextRef, turn, seen⟩
    refine ⟨sane.next seen (sane.1.at view (step v' removes) keys nextRef
      (sane.1.allocated present)), turn, ?_⟩
    rw [view, Function.update_self]
    exact removes
  rw [wp_bind, removeSocket, wp_bind, wp_get]
  simp only [found]
  rw [wp_bind]
  refine (epollCtl_spec s true none).mono ?_
  rintro accepted w₂ ⟨seen, ⟨rfl, _, mgr⟩ | ⟨rfl, mgr⟩⟩
  · have moved : Moved w w₂ s { (w.mgr.view s).setSock sock with interest := none } := by
      have forgotten := leaving.mgr.trans (local_setInterest w₁.mgr s none)
      rw [leaving.mgr.self, ← mgr] at forgotten
      exact ⟨forgotten, seen.trans leaving.seen⟩
    simp only [Bool.not_true, Bool.false_eq_true, if_false]
    rw [← wp_bind, bind_assoc]
    refine (detach_spec sane moved rfl names inside).mono ?_
    intro _ w' detached
    exact finish w' _ (.clean rfl named) detached
  · have about : LogEntry.subject (.epollError s) = some s := rfl
    have told : Moved w w₂ s ((w.mgr.view s).setSock sock) :=
      ⟨by rw [mgr]; exact leaving.mgr, seen.trans leaving.seen⟩
    simp only [Bool.not_false, if_true]
    rw [wp_bind, wp_record, ← wp_bind, bind_assoc]
    refine (detach_spec sane (told.record about) rfl names inside).mono ?_
    intro _ w' detached
    exact finish w' _ (.noisy rfl named) detached

theorem Removes.settled {v v' : View} (removes : Removes s v v') (present : v.sock = some sock)
    (closed : sock.status = .closed) : v'.Settled := by
  have shape : v'.names = [] ∧ ∀ after, v'.sock = some after → after.status = .closed := by
    cases removes with
    | clean holds named =>
        obtain rfl := Option.some.inj (present.symm.trans holds)
        refine ⟨rfl, ?_⟩
        intro after still
        simp only [View.release] at still
        split at still
        · exact absurd still (by simp)
        · obtain rfl := Option.some.inj still
          exact closed
    | noisy holds named =>
        obtain rfl := Option.some.inj (present.symm.trans holds)
        refine ⟨rfl, ?_⟩
        intro after still
        simp only [View.release] at still
        split at still
        · exact absurd still (by simp)
        · obtain rfl := Option.some.inj still
          exact closed
  intro after still
  refine ⟨?_, fun _ => shape.1⟩
  intro connecting
  rw [shape.2 after still] at connecting
  exact absurd connecting (by simp)

theorem Posts.keeps_sock {events : Interest} {v v' : View} (posts : Posts s events v v') :
    v'.sock = v.sock := by
  cases posts with
  | accepted => rfl
  | refused => rfl

theorem settled_of_connected {v : View} (present : v.sock = some sock)
    (connected : sock.status = .connected) : v.Settled := by
  intro after holds
  obtain rfl := Option.some.inj (present.symm.trans holds)
  simp [connected]

theorem Quiet.settled {v v' : View} (quiet : Quiet v v') (settled : v.Settled) : v'.Settled := by
  intro after holds
  have outlined := View.outline_sock holds
  rw [quiet.outline] at outlined
  obtain ⟨sock, present, identity⟩ := Option.map_eq_some_iff.mp outlined
  have status : sock.status = after.status := congrArg Identity.status identity
  have trace : v'.trace = v.trace := congrArg Outline.trace quiet.outline
  have names : v'.names = v.names := congrArg Outline.names quiet.outline
  rw [trace, names, ← status]
  exact settled sock present

structure Handled (s : SockRef) (w w' : World) : Prop where
  sane : Sane w'
  turn : SameTurn w w'
  settled : (w'.mgr.view s).Settled

theorem Undisturbed.settled {v v' : View} (kept : Undisturbed v v') (settled : v.Settled)
    (present : v.sock = some sock) : v'.Settled := by
  obtain ⟨count, writeBuffer, still⟩ := kept.sock sock present
  intro after holds
  obtain rfl := Option.some.inj (still.symm.trans holds)
  obtain ⟨silent, left⟩ := settled sock present
  exact ⟨fun connecting => kept.trace.trans (silent connecting),
    fun closed => kept.names.trans (left closed)⟩

section Closing

variable (exhausted : ∀ w, Sane w → allowed .idsExhausted w)

include exhausted

/-- A callback that completes a step of the socket's life. -/
theorem announce_spec (sane : Sane w) (present : w.mgr.heap s = some sock) {w₁ : World} {v : View}
    (moved : Moved w w₁ s v) {after : Socket} (alive : v.sock = some after) {entry : LogEntry}
    (about : entry.subject = some s) (step : Lives s (w.mgr.view s) (v.note entry))
    (handle : HandleInfo) :
    Wp allowed (process handle entry) (fun _ w' =>
      Sane w' ∧ SameTurn w w' ∧ Undisturbed (v.note entry) (w'.mgr.view s)) w₁ := by
  have noted := moved.record about
  refine (process_spec exhausted handle (noted.sane sane present step)).mono ?_
  rintro _ w' ⟨sane', carried⟩
  have kept := carried.sockets s after (noted.mgr.heap.trans alive)
  rw [noted.mgr.self] at kept
  exact ⟨sane', noted.sameTurn.trans carried.sameTurn, kept⟩

theorem closeSocket_spec (sane : Sane w) (present : w.mgr.heap s = some sock)
    (held : (w.mgr.view s).held ≠ 0) (settled : (w.mgr.view s).Settled) :
    Wp allowed (closeSocket s) (fun _ w' => Handled s w w') w := by
  unfold closeSocket
  rw [wp_bind, wp_deref present]
  by_cases opened : sock.status = .closing ∨ sock.status = .connected
  · simp only [opened, if_true]
    have named : (w.mgr.view s).names ≠ [] := by
      rcases opened with status | status
      · exact (sane.phase present status).1
      · exact (sane.phase present status).1
    have closed := moved_setSocket w s { sock with status := .closed }
    have tcp : ¬(sock.socketType = .udp ∧ sock.isUdpConnected = false) := by
      simp [sane.tcp present]
    rw [wp_bind, wp_recordIf, if_neg tcp, wp_bind, wp_updateSocket present, Socket.onDisconnect,
      wp_bind, wp_bind, wp_deref closed.mgr.heap]
    refine (announce_spec exhausted sane present closed rfl rfl (.shut present opened held)
      _).mono ?_
    rintro _ w₁ ⟨sane₁, turn, kept⟩
    obtain ⟨count, writeBuffer, still⟩ := kept.sock _ rfl
    have same := View.setSock_self still
    have here := moved_refl w₁ s
    rw [← same] at here
    rw [wp_bind, wp_deref still]
    refine (remove_spec sane₁ here still rfl (by rw [kept.names]; exact named) ?_).mono ?_
    · intro v' removes
      rw [same] at removes
      exact .leave still rfl (by rw [kept.held]; exact held) removes
    · rintro _ w' ⟨sane', turn', removes⟩
      exact ⟨sane', turn.trans turn', removes.settled rfl rfl⟩
  · simp only [opened, if_false, wp_pure]
    exact ⟨sane, .refl w, settled⟩

theorem handleConnect_fail_spec (sane : Sane w) (present : w.mgr.heap s = some sock)
    (held : (w.mgr.view s).held ≠ 0) (connecting : sock.status = .connecting)
    (silent : (w.mgr.view s).trace = []) :
    Wp allowed (handleConnect s false) (fun _ w' => Handled s w w') w := by
  unfold handleConnect
  simp only [Bool.false_eq_true, if_false]
  rw [wp_bind, Socket.onConnect, runConnectTask, wp_bind, wp_deref present]
  refine (announce_spec exhausted sane present (moved_refl w s) present rfl
    (.refuse present connecting silent held) _).mono ?_
  rintro _ w₁ ⟨sane₁, turn, kept⟩
  obtain ⟨count, writeBuffer, still⟩ := kept.sock _ present
  rw [wp_bind, wp_updateSocket still]
  have closed := moved_setSocket w₁ s
    { sock with count := count, writeBuffer := writeBuffer, status := .closed }
  rw [wp_bind, wp_deref closed.mgr.heap]
  have named : (w₁.mgr.view s).names ≠ [] := by
    rw [kept.names]
    exact (sane.phase present connecting).1
  have failed : (w₁.mgr.view s).trace = [.connect false] := by
    rw [kept.trace]
    change ((w.mgr.view s).note _).outline.trace = _
    rw [View.note_outline_trace, silent]
    rfl
  refine (remove_spec sane₁ closed still rfl named ?_).mono ?_
  · intro v' removes
    exact .abandon still connecting failed (by rw [kept.held]; exact held) removes
  · rintro _ w' ⟨sane', turn', removes⟩
    exact ⟨sane', turn.trans turn', removes.settled rfl rfl⟩

theorem handleConnect_success_spec (sane : Sane w) (present : w.mgr.heap s = some sock)
    (connecting : sock.status = .connecting) (silent : (w.mgr.view s).trace = []) :
    Wp allowed (handleConnect s true) (fun _ w' => Handled s w w') w := by
  unfold handleConnect
  simp only [if_true]
  have connected := moved_setSocket w s { sock with status := .connected }
  rw [wp_bind, wp_updateSocket present]
  refine (postEvent_spec connected.mgr.heap _).seq ?_
  rintro _ w₁ ⟨v₁, posts, posted, seen⟩
  rw [connected.mgr.self] at posts
  have moved : Moved w w₁ s v₁ := connected.trans ⟨posted, seen⟩
  have alive : v₁.sock = some { sock with status := .connected } := posts.keeps_sock
  rw [Socket.onConnect, runConnectTask, wp_bind, wp_deref (moved.mgr.heap.trans alive)]
  refine (announce_spec exhausted sane present moved alive rfl
    (.establish present connecting silent posts) _).mono ?_
  rintro _ w' ⟨sane', turn, kept⟩
  exact ⟨sane', turn, kept.settled (settled_of_connected alive rfl) alive⟩

end Closing

/-! ## Epoll events -/

section Events

variable (exhausted : ∀ w, Sane w → allowed .idsExhausted w)
  (diverges : ∀ w, Sane w → allowed .diverges w)

theorem Going.handled (going : Going s w w') : Handled s w w' := by
  obtain ⟨sock, present, connected⟩ := going.connected
  exact ⟨going.sane, going.turn, settled_of_connected present connected⟩

theorem Handled.after {w₁ w₂ : World} (second : Handled s w₁ w₂) (turn : SameTurn w w₁) :
    Handled s w w₂ := ⟨second.sane, turn.trans second.turn, second.settled⟩

theorem SameTurn.held_ne (turn : SameTurn w w') (held : (w.mgr.view s).held ≠ 0) :
    (w'.mgr.view s).held ≠ 0 := by
  rw [turn.view_held]
  exact held

theorem fillAndPush_handled (sane : Sane w) (connected : HasStatus s .connected w) :
    Wp allowed (fillAndPush s) (fun _ w' => Handled s w w') w := by
  obtain ⟨sock, present, status⟩ := connected
  refine (fillAndPush_spec present).mono ?_
  intro _ w' pushed
  have sane' := pushed.sane sane present fun v' fills => .push present status fills
  refine ⟨sane', pushed.sameTurn, ?_⟩
  obtain ⟨v', fills, moved, _⟩ := pushed
  rw [moved.self]
  exact fills.quiet.settled (settled_of_connected present status)

include exhausted

theorem handlePeerClosed_spec (sane : Sane w) (connected : HasStatus s .connected w)
    (held : (w.mgr.view s).held ≠ 0) :
    Wp allowed (handlePeerClosed s) (fun _ w' => Handled s w w') w := by
  obtain ⟨sock, present, status⟩ := connected
  unfold handlePeerClosed
  rw [wp_bind, wp_deref present]
  split
  · exact closeSocket_spec exhausted sane present held (settled_of_connected present status)
  · next udp => exact absurd ((sane.tcp present).symm.trans udp) (by simp)

include diverges

theorem feed_spec (data : Bytes) (sane : Sane w) (connected : HasStatus s .connected w) :
    Wp allowed (Socket.feed s data) (fun _ w' => Going s w w') w := by
  obtain ⟨sock, present, status⟩ := connected
  unfold Socket.feed
  rw [wp_bind, wp_updateSocket present]
  have stored := moved_setSocket w s
    { sock with
      readBuffer := (sock.readBuffer.storeAtBuffer data).incrementWritten data.length }
  have saneStored := stored.sane sane present (.store present)
  refine (onRead_spec exhausted diverges saneStored ⟨_, stored.mgr.heap, status⟩).mono ?_
  intro _ w₁ going
  exact ⟨going.sane, stored.sameTurn.trans going.turn, going.connected⟩

/-- The loop goes on connected or stops with the socket handled. -/
theorem readLoop_spec (results : List RecvResult) (sane : Sane w)
    (connected : HasStatus s .connected w) (held : (w.mgr.view s).held ≠ 0) :
    Wp allowed (readLoop s results) (fun behind w' =>
      Handled s w w' ∧ (behind = true → HasStatus s .connected w')) w := by
  have here : Going s w w := ⟨sane, .refl w, connected⟩
  induction results generalizing w with
  | nil =>
      obtain ⟨sock, present, status⟩ := connected
      rw [readLoop, wp_bind, wp_deref present, wp_pure]
      exact ⟨here.handled, fun _ => here.connected⟩
  | cons result rest inductionHypothesis =>
      obtain ⟨sock, present, status⟩ := connected
      rw [readLoop, wp_bind, wp_deref present]
      generalize intOf sock.readBuffer.getSpace = space
      dsimp only
      split
      · exact ⟨here.handled, fun _ => here.connected⟩
      · cases result with
        | again => exact ⟨here.handled, fun _ => here.connected⟩
        | error => exact ⟨here.handled, fun _ => here.connected⟩
        | bytes data =>
            dsimp only
            generalize data.take (transferLimit space) = received
            split
            · refine (handlePeerClosed_spec exhausted sane here.connected held).seq ?_
              intro _ w₁ handled
              exact ⟨handled, by simp⟩
            · refine (feed_spec exhausted diverges received sane here.connected).seq ?_
              intro _ w₁ going
              split
              · refine (inductionHypothesis going.sane going.connected (going.turn.held_ne held)
                  ⟨going.sane, .refl w₁, going.connected⟩).mono ?_
                rintro _ w₂ ⟨handled, behind⟩
                exact ⟨handled.after going.turn, behind⟩
              · exact ⟨going.handled, fun _ => going.connected⟩

theorem handleReadComplete_spec (results : List RecvResult) (sane : Sane w)
    (present : w.mgr.heap s = some sock) (held : (w.mgr.view s).held ≠ 0)
    (settled : (w.mgr.view s).Settled) :
    Wp allowed (handleReadComplete s results) (fun _ w' => Handled s w w') w := by
  unfold handleReadComplete
  rw [wp_bind, wp_deref present]
  by_cases connected : sock.status = .connected
  · simp only [connected, if_true]
    refine (readLoop_spec exhausted diverges results sane ⟨sock, present, connected⟩ held).seq ?_
    rintro behind w₁ ⟨handled, still⟩
    split
    · next reached =>
        refine (fillAndPush_handled handled.sane (still reached)).mono ?_
        intro _ w₂ filled
        exact filled.after handled.turn
    · exact handled
  · simp only [connected, if_false, wp_pure]
    exact ⟨sane, .refl w, settled⟩

omit exhausted diverges

/-- The buffer loses what `send` accepts, under the lock. -/
theorem writeCallback_spec (results : List SendResult) (sane : Sane w)
    (present : w.mgr.heap s = some sock) (connected : sock.status = .connected)
    (locked : sock.writeLock ≠ 0) :
    Wp allowed (Socket.writeCallback s results) (fun _ w' => Sane w' ∧ SameTurn w w' ∧
      ∃ writeBuffer, w'.mgr.heap s = some { sock with writeBuffer := writeBuffer }) w := by
  induction results generalizing w sock with
  | nil =>
      rw [Socket.writeCallback, wp_bind, wp_deref present, wp_pure]
      exact ⟨sane, .refl w, sock.writeBuffer, present⟩
  | cons result rest inductionHypothesis =>
      rw [Socket.writeCallback, wp_bind, wp_deref present]
      split
      · exact ⟨sane, .refl w, sock.writeBuffer, present⟩
      · cases result with
        | error => exact ⟨sane, .refl w, sock.writeBuffer, present⟩
        | accepted bytes =>
            have bounded : min bytes (transferLimit (Socket.sendLen sock.writeBuffer)) ≤
                transferLimit (Socket.sendLen sock.writeBuffer) := min_le_right _ _
            dsimp only
            generalize min bytes (transferLimit (Socket.sendLen sock.writeBuffer)) = written
              at bounded ⊢
            have about :
                LogEntry.subject (.sent s (sock.writeBuffer.buffer.take written)) = some s := rfl
            have sent := moved_record w about
            have removed := sent.setSocket
              { sock with writeBuffer := sock.writeBuffer.remove written }
            have sane' := removed.sane sane present (.write present locked bounded)
            rw [wp_bind, wp_record, wp_bind, wp_updateSocket (sent.mgr.heap.trans present)]
            generalize Socket.sendLen sock.writeBuffer = offered
            split
            · exact ⟨sane', removed.sameTurn, _, removed.mgr.heap⟩
            · refine (inductionHypothesis sane' removed.mgr.heap connected locked).mono ?_
              rintro _ w' ⟨sane'', turn, writeBuffer, still⟩
              exact ⟨sane'', removed.sameTurn.trans turn, writeBuffer, still⟩

include exhausted

theorem handleCanWrite_spec (results : List SendResult) (sane : Sane w)
    (present : w.mgr.heap s = some sock) (held : (w.mgr.view s).held ≠ 0)
    (settled : (w.mgr.view s).Settled) :
    Wp allowed (handleCanWrite s results) (fun _ w' => Handled s w w') w := by
  unfold handleCanWrite
  rw [wp_bind, wp_deref present]
  by_cases locked : sock.writeLock ≠ 0
  · rw [if_pos locked]
    by_cases connected : sock.status = .connected
    · simp only [connected, if_true]
      have filled := moved_setSocket w s
        { sock with writeBuffer := sock.writeBuffer.fillVector.2 }
      have saneFilled := filled.sane sane present (.fill present)
      rw [wp_bind, wp_updateSocket present]
      refine (writeCallback_spec results saneFilled filled.mgr.heap connected locked).seq ?_
      rintro _ w₁ ⟨sane₁, turn, writeBuffer, still⟩
      rw [wp_bind, wp_deref still]
      split
      · next empty =>
          have unlocked := moved_setSocket w₁ s
            { sock with writeBuffer := writeBuffer, writeLock := sock.writeLock - 1 }
          rw [wp_bind, wp_updateSocket still, wp_bind]
          refine (postEvent_spec unlocked.mgr.heap _).mono ?_
          rintro _ w₂ ⟨v₂, posts, posted, seen⟩
          rw [unlocked.mgr.self] at posts
          have moved : Moved w₁ w₂ s v₂ := unlocked.trans ⟨posted, seen⟩
          have step : Lives s (w₁.mgr.view s) v₂ := .unlock still connected locked empty posts
          refine ⟨moved.sane sane₁ still step, (filled.sameTurn.trans turn).trans moved.sameTurn, ?_⟩
          rw [moved.mgr.self]
          exact settled_of_connected posts.keeps_sock connected
      · rw [wp_bind]
        refine (postEvent_spec still _).mono ?_
        rintro _ w₂ ⟨v₂, posts, posted, seen⟩
        have moved : Moved w₁ w₂ s v₂ := ⟨posted, seen⟩
        refine ⟨moved.sane sane₁ still (.rearm still connected posts),
          (filled.sameTurn.trans turn).trans moved.sameTurn, ?_⟩
        rw [moved.mgr.self]
        exact settled_of_connected (posts.keeps_sock.trans still) connected
    · simp only [connected, if_false]
      split
      · exact closeSocket_spec exhausted sane present held settled
      · exact ⟨sane, .refl w, settled⟩
  · rw [if_neg locked]
    exact ⟨sane, .refl w, settled⟩

include diverges

theorem handleSocketEvent_spec (events : Flags) (recvs : List RecvResult)
    (sends : List SendResult) (sane : Sane w) (held : (w.mgr.view s).held ≠ 0)
    (settled : (w.mgr.view s).Settled) :
    Wp allowed (handleSocketEvent s events recvs sends) (fun _ w' => Handled s w w') w := by
  obtain ⟨sock, present⟩ := sane.alive held
  unfold handleSocketEvent
  split
  · rw [wp_bind, wp_deref present]
    split
    · next connecting =>
        exact handleConnect_fail_spec exhausted sane present held connecting
          ((settled sock present).1 connecting)
    · exact closeSocket_spec exhausted sane present held settled
  · -- `EPOLLOUT` is looked at after `EPOLLIN` has been handled
    have writing : ∀ w₁, Handled s w w₁ → Wp allowed (do
        if events.epollOut then
          if (← deref s).status = .connecting then handleConnect s true
          else handleCanWrite s sends) (fun _ w' => Handled s w w') w₁ := by
      intro w₁ handled
      have stillHeld := handled.turn.held_ne held
      obtain ⟨sock₁, present₁⟩ := handled.sane.alive stillHeld
      split
      · rw [wp_bind, wp_deref present₁]
        split
        · next connecting =>
            refine (handleConnect_success_spec exhausted handled.sane present₁ connecting
              ((handled.settled sock₁ present₁).1 connecting)).mono ?_
            intro _ w₂ opened
            exact opened.after handled.turn
        · refine (handleCanWrite_spec exhausted sends handled.sane present₁ stillHeld
            handled.settled).mono ?_
          intro _ w₂ wrote
          exact wrote.after handled.turn
      · exact handled
    by_cases readable : events.epollIn = true
    · simp only [readable, if_true]
      refine (handleReadComplete_spec exhausted diverges recvs sane present held settled).seq ?_
      intro _ w₁ handled
      exact writing w₁ handled
    · simp only [readable]
      exact writing w ⟨sane, .refl w, settled⟩

end Events

end Handlers

end CrossOver.Engine.Network
