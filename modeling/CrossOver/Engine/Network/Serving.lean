import CrossOver.Engine.Network.Runs
import CrossOver.Engine.Network.Scripts

/-!
# Handlers on sockets of both kinds

While the loop works on a socket it holds a reference to it, and no other socket
is about to leave the map.  A handler that closes its socket makes it busy for
the time of the callback; when it returns every socket has settled again.
-/

namespace CrossOver.Engine.Network

open CrossOver.Lib

/-- Every socket has settled, and the loop holds what it held. -/
structure Through [Past] (w w' : World) : Prop where
  steady : Steady [] w'
  held : w'.mgr.held = w.mgr.held

structure AtWork [Past] (s : SockRef) (w w' : World) : Prop extends Through w w' where
  connected : HasStatus s .connected w'
  mine : (w'.mgr.view s).held ≠ 0

/-- The peer of the socket is known. -/
def Joined (s : SockRef) (w : World) : Prop := ∃ sock, w.mgr.heap s = some sock ∧ ¬sock.face.halfOpen

section Serving

variable {w w₀ w₁ w₂ w' : World} {s : SockRef} {sock : Socket} {v : View}

theorem Through.refl [Past] (steady : Steady [] w) : Through w w := ⟨steady, rfl⟩

theorem Through.trans [Past] (first : Through w₀ w₁) (second : Through w₁ w₂) : Through w₀ w₂ :=
  ⟨second.steady, second.held.trans first.held⟩

theorem Leaves.hasStatus {status : SocketStatus} (left : Leaves w w') (has : HasStatus s status w) :
    HasStatus s status w' := by
  obtain ⟨sock, present, same⟩ := has
  obtain ⟨after, _, _, _, still, face, _⟩ := left.alive present
  exact ⟨after, still, (congrArg Face.status face).trans same⟩

theorem Leaves.joined (left : Leaves w w') (joined : Joined s w) : Joined s w' := by
  obtain ⟨sock, present, known⟩ := joined
  obtain ⟨after, _, _, _, still, face, _⟩ := left.alive present
  exact ⟨after, still, by rw [face]; exact known⟩

theorem view_held (m m' : Mgr) (held : m'.held = m.held) : (m'.view s).held = (m.view s).held := by
  simp only [Mgr.view, held]

theorem AtWork.after [Past] (atWork : AtWork s w₀ w) (steady : Steady [] w') (left : Leaves w w') :
    AtWork s w₀ w' where
  steady := steady
  held := left.held.trans atWork.held
  connected := left.hasStatus atWork.connected
  mine := by
    rw [view_held _ _ left.held]
    exact atWork.mine

theorem AtWork.through [Past] (atWork : AtWork s w₀ w) (through : Through w w') : Through w₀ w' :=
  atWork.toThrough.trans through

theorem Steady.alive [Past] {busy : List SockRef} (steady : Steady busy w)
    (mine : (w.mgr.view s).held ≠ 0) : ∃ sock, w.mgr.heap s = some sock := by
  cases present : w.mgr.heap s with
  | some sock => exact ⟨sock, rfl⟩
  | none =>
      have gone : (w.mgr.view s).standing.face = none := by simp [View.standing, Mgr.view, present]
      exact absurd ((steady.kept.good s).gone gone).2.2 mine

/-! ## Functions that the standing does not show -/

theorem updateSocket_quiet [Past] {busy : List SockRef} (steady : Steady busy w)
    {f : Socket → Socket} (same : ∀ sock, (f sock).face = sock.face) :
    Wp anyFault (updateSocket s f) (fun _ w' => Steady busy w' ∧ Leaves w w') w := by
  refine wp_updateSocket_any steady.passed ?_
  intro sock present
  refine (moved_setSocket w s (f sock)).quietly steady present ?_
  rw [View.standing_setSock, same, ← Mgr.standing_face present]

theorem record_quiet [Past] {busy : List SockRef} (steady : Steady busy w)
    (present : w.mgr.heap s = some sock) {entry : LogEntry} (about : entry.subject = some s)
    (silent : entry.callback = none) (free : entry.isTaken = false)
    (harmless : entry.isHalfOpen = false) (stays : entry.isEvicted = false) :
    Steady busy { w with mgr := w.mgr.record entry } ∧
      Leaves w { w with mgr := w.mgr.record entry } :=
  (moved_record w about).quietly steady present (View.standing_remark _ silent free harmless stays)

theorem Posts.standing {events : Interest} {v v' : View} (posts : Posts s events v v') :
    v'.standing = v.standing := by
  cases posts with
  | accepted registered =>
      have same : (some events).isSome = v.interest.isSome :=
        (Option.isSome_iff_ne_none.mpr registered).symm
      exact congrArg (fun held => v.standing.register (held || v.log.any LogEntry.isEvicted)) same
  | refused => exact View.standing_remark _ rfl rfl rfl rfl

theorem Pushes.standing {v v' : View} (pushes : Pushes s v v') : v'.standing = v.standing := by
  cases pushes with
  | busy => rfl
  | idle present _ posts =>
      rw [posts.standing, View.standing_setSock]
      simp [View.standing, present, Socket.face]

theorem FillsAndPushes.standing {v v' : View} (fills : FillsAndPushes s v v') :
    v'.standing = v.standing := by
  cases fills with
  | empty present =>
      rw [View.standing_setSock]
      simp [View.standing, present, Socket.face]
  | filled present _ pushes =>
      rw [pushes.standing, View.standing_setSock]
      simp [View.standing, present, Socket.face]

theorem Touched.quietly [Past] {busy : List SockRef} {change : View → View → Prop}
    (touched : Touched s change w w') (steady : Steady busy w) (present : w.mgr.heap s = some sock)
    (same : ∀ v', change (w.mgr.view s) v' → v'.standing = (w.mgr.view s).standing) :
    Steady busy w' ∧ Leaves w w' := by
  obtain ⟨v', changed, moved, course⟩ := touched
  exact Moved.quietly ⟨moved, course⟩ steady present (same v' changed)

section Quiet

variable {busy : List SockRef}

theorem postEvent_any [Past] (steady : Steady busy w) (present : w.mgr.heap s = some sock)
    (events : Interest) :
    Wp anyFault (postEvent s events) (fun _ w' => Steady busy w' ∧ Leaves w w') w :=
  (postEvent_spec present events).mono fun _ _ touched =>
    touched.quietly steady present fun _ posts => posts.standing

theorem fillAndPush_any [Past] (steady : Steady busy w) (present : w.mgr.heap s = some sock) :
    Wp anyFault (fillAndPush s) (fun _ w' => Steady busy w' ∧ Leaves w w') w :=
  (fillAndPush_spec present).mono fun _ _ touched =>
    touched.quietly steady present fun _ fills => fills.standing

theorem writeCallback_any [Past] (results : List SendResult) (steady : Steady busy w) :
    Wp anyFault (Socket.writeCallback s results) (fun _ w' => Steady busy w' ∧ Leaves w w') w := by
  induction results generalizing w with
  | nil =>
      rw [Socket.writeCallback, wp_bind]
      exact wp_deref_any steady.passed fun _ _ => ⟨steady, .refl w⟩
  | cons result rest inductionHypothesis =>
      rw [Socket.writeCallback, wp_bind]
      refine wp_deref_any steady.passed ?_
      intro sock present
      split
      · exact ⟨steady, .refl w⟩
      · cases result with
        | error => exact ⟨steady, .refl w⟩
        | accepted bytes =>
            dsimp only
            generalize min bytes (transferLimit (Socket.sendLen sock.writeBuffer)) = bytesWritten
            generalize Socket.sendLen sock.writeBuffer = offered
            have about : LogEntry.subject
              (.sent s (sock.writeBuffer.buffer.take bytesWritten)) = some s := rfl
            obtain ⟨steady₁, left₁⟩ := record_quiet steady present about rfl rfl rfl rfl
            rw [wp_bind, wp_record]
            refine (updateSocket_quiet steady₁ ?_).seq ?_
            · exact fun _ => rfl
            · rintro _ w₂ ⟨steady₂, left₂⟩
              split
              · exact ⟨steady₂, left₁.trans left₂⟩
              · refine (inductionHypothesis steady₂).mono ?_
                rintro _ w₃ ⟨steady₃, left₃⟩
                exact ⟨steady₃, (left₁.trans left₂).trans left₃⟩

theorem closeDescriptor_any [Past] (steady : Steady busy w) (shut : Shut s w) :
    Steady busy { w with mgr := w.mgr.setInterest s none } := by
  have view := (local_setInterest w.mgr s none).view
  refine steady.next rfl ⟨steady.kept.keys, ?_, ?_, ?_⟩ (.of_update view ?_)
  · intro other large
    have blank := steady.kept.fresh other large
    rw [view]
    by_cases here : other = s
    · subst here
      rw [Function.update_self, blank]
      rfl
    · rw [Function.update_of_ne here]
      exact blank
  · intro other
    rw [view]
    by_cases here : other = s
    · subst here
      rw [Function.update_self]
      exact (steady.kept.good other).register _
    · rw [Function.update_of_ne here]
      exact steady.kept.good other
  · intro other outside
    rw [view]
    by_cases here : other = s
    · subst here
      rw [Function.update_self]
      exact (steady.kept.settled other outside).register _
    · rw [Function.update_of_ne here]
      exact steady.kept.settled other outside
  · intro answerable
    refine answerable.register (fun silent => ?_) _
    obtain ⟨face, holds, connecting, _⟩ := answerable.awaited silent
    obtain ⟨sock, present, rfl⟩ := Option.map_eq_some_iff.mp holds
    exact absurd ((shut sock present).symm.trans connecting) (by simp)

end Quiet

/-! ## Reading -/

section Reading

theorem Steady.receive [Past] (steady : Steady [] w) (present : w.mgr.heap s = some sock)
    (connected : sock.status = .connected) (known : ¬sock.face.halfOpen) (data : Bytes) :
    Steady [] { w with mgr := w.mgr.record (.readTask s sock.connIdx data) } := by
  have about : LogEntry.subject (.readTask s sock.connIdx data) = some s := rfl
  have face := Mgr.standing_face present
  have good := steady.kept.good s
  have made : LogEntry.callback (.readTask s sock.connIdx data) = some (.recv data) := rfl
  have shape := View.standing_callback (w.mgr.view s) face made rfl rfl
  have status : sock.face.status = .connected := connected
  refine (moved_record w about).steady steady present ?_ ?_ ?_
  · rw [shape]
    refine good.restage face rfl rfl (good.parses _ face) (good.opened _ face) ?_ ?_
    · intro kept
      have stage := good.stage _ face kept
      simp only [Standing.Stage, status, known, false_and, false_or, not_false_eq_true,
        true_and] at stage ⊢
      exact stage.recv data
    · intro _ closed
      exact absurd (status.symm.trans closed) (by simp)
  · intro _
    rw [shape]
    refine restage_settled fun _ => ⟨?_, ?_⟩
    · intro connecting
      exact absurd (status.symm.trans connecting) (by simp)
    · intro closed
      exact absurd (status.symm.trans closed) (by simp)
  · intro answerable
    rw [shape]
    exact answerable.restage (answerable.tcp _ face) (by simp)

theorem onData_any [Past] (atWork : AtWork s w₀ w) (joined : Joined s w) (data : Bytes) :
    Wp anyFault (Socket.onData s data) (fun _ w' => AtWork s w₀ w' ∧ Joined s w') w := by
  obtain ⟨sock, present, known⟩ := joined
  obtain ⟨_, holds, connected⟩ := atWork.connected
  obtain rfl := Option.some.inj (present.symm.trans holds)
  have steady := atWork.steady.receive present connected known data
  have heard : AtWork s w₀ { w with mgr := w.mgr.record (.readTask s sock.connIdx data) } :=
    ⟨⟨steady, atWork.held⟩, ⟨sock, present, connected⟩, atWork.mine⟩
  rw [Socket.onData, wp_bind, wp_deref present, process]
  refine (runTask_any runScript_any _ steady).mono ?_
  rintro _ w' ⟨steady', left⟩
  exact ⟨heard.after steady' left, left.joined ⟨sock, present, known⟩⟩

theorem updateKcp_any [Past] (atWork : AtWork s w₀ w) (joined : Joined s w)
    (f : Ikcp.Kcp → Ikcp.Kcp) :
    Wp anyFault (Socket.updateKcp s f) (fun _ w' => AtWork s w₀ w' ∧ Joined s w') w := by
  unfold Socket.updateKcp
  refine (updateSocket_quiet atWork.steady ?_).mono ?_
  · exact fun _ => rfl
  · rintro _ w' ⟨steady', left⟩
    exact ⟨atWork.after steady' left, left.joined joined⟩

theorem kcpMergeLoop_any [Past] (segs : List Ikcp.Seg) (atWork : AtWork s w₀ w)
    (joined : Joined s w) :
    Wp anyFault (Socket.kcpMergeLoop s segs) (fun _ w' => AtWork s w₀ w' ∧ Joined s w') w := by
  induction segs generalizing w with
  | nil => exact ⟨atWork, joined⟩
  | cons seg rest inductionHypothesis =>
      rw [Socket.kcpMergeLoop]
      refine (onData_any atWork joined seg.data).seq ?_
      rintro _ w₁ ⟨atWork₁, joined₁⟩
      refine (updateKcp_any atWork₁ joined₁ _).seq ?_
      rintro _ w₂ ⟨atWork₂, joined₂⟩
      split
      · exact ⟨atWork₂, joined₂⟩
      · exact (inductionHypothesis atWork₂ joined₂).seq fun _ _ done => done

theorem kcpRecv_any [Past] (atWork : AtWork s w₀ w) (joined : Joined s w) :
    Wp anyFault (Socket.kcpRecv s) (fun _ w' => AtWork s w₀ w' ∧ Joined s w') w := by
  unfold Socket.kcpRecv
  rw [wp_bind]
  refine wp_deref_any atWork.steady.passed ?_
  intro sock _
  split
  · exact atWork.steady.passed
  · split
    · exact ⟨atWork, joined⟩
    · split
      · exact ⟨atWork, joined⟩
      · refine (kcpMergeLoop_any _ atWork joined).seq ?_
        rintro len w₁ ⟨atWork₁, joined₁⟩
        exact (updateKcp_any atWork₁ joined₁ _).seq fun _ _ done => done

theorem kcpRecvLoop_any [Past] (turns : Nat) (atWork : AtWork s w₀ w) (joined : Joined s w) :
    Wp anyFault (Socket.kcpRecvLoop s turns) (fun _ w' => AtWork s w₀ w') w := by
  induction turns generalizing w with
  | zero => exact atWork.steady.passed
  | succ turns inductionHypothesis =>
      rw [Socket.kcpRecvLoop]
      refine (kcpRecv_any atWork joined).seq ?_
      rintro len w₁ ⟨atWork₁, joined₁⟩
      split
      · exact inductionHypothesis atWork₁ joined₁
      · exact atWork₁

theorem onKcpFrame_any [Past] (atWork : AtWork s w₀ w) (joined : Joined s w) (data : Bytes) :
    Wp anyFault (Socket.onKcpFrame s data) (fun _ w' => AtWork s w₀ w') w := by
  unfold Socket.onKcpFrame
  rw [wp_bind]
  refine wp_deref_any atWork.steady.passed ?_
  intro sock _
  split
  · exact atWork.steady.passed
  · refine (updateSocket_quiet atWork.steady ?_).seq ?_
    · exact fun _ => rfl
    · rintro _ w₁ ⟨steady₁, left⟩
      exact kcpRecvLoop_any _ (atWork.after steady₁ left) (left.joined joined)

/-- From now on nothing is claimed about the callbacks of `s`. -/
theorem Steady.giveUp [Past] {busy : List SockRef} (steady : Steady busy w)
    (present : w.mgr.heap s = some sock) {after : Face} {isSuccess : Bool}
    (moved : Moved w w' s v)
    (shape : v.standing.register (w.mgr.view s).standing.registered =
      (w.mgr.view s).standing.restage after
        ((w.mgr.view s).standing.trace ++ [.connect isSuccess]) true)
    (udp : sock.socketType = .udp)
    (key : after.connIdx = sock.connIdx) (count : after.count = sock.count)
    (parses : after.socketType = .udp → after.isParsePackage = true)
    (opened : after.status ≠ .closed → (w.mgr.view s).names ≠ []) : Steady busy w' := by
  have face := Mgr.standing_face present
  have good := steady.kept.good s
  have whole : v.standing = (v.standing.register (w.mgr.view s).standing.registered).register
    v.standing.registered := rfl
  refine moved.steady steady present ?_ ?_ ?_
  · rw [whole, shape]
    exact (good.restage face key count parses opened (by simp) (by simp)).register _
  · intro _
    rw [whole, shape]
    exact Standing.Settled.register (restage_settled (by simp)) _
  · intro answerable
    exact absurd (udp.symm.trans (answerable.tcp _ face)) (by simp)

theorem Steady.opened [Past] {busy : List SockRef} (steady : Steady busy w)
    (present : w.mgr.heap s = some sock) (status : sock.status ≠ .closed) :
    (w.mgr.view s).names ≠ [] :=
  (steady.kept.good s).opened _ (Mgr.standing_face present) status

theorem Steady.parses [Past] {busy : List SockRef} (steady : Steady busy w)
    (present : w.mgr.heap s = some sock) (udp : sock.socketType = .udp) :
    sock.isParsePackage = true :=
  (steady.kept.good s).parses _ (Mgr.standing_face present) udp

/-- The port has come: the socket reports that it is connected. -/
theorem Steady.join [Past] (steady : Steady [] w) (present : w.mgr.heap s = some sock)
    (connected : sock.status = .connected) (unheard : sock.face.halfOpen) :
    Steady [] { w with
      mgr := (w.mgr.setSocket s { sock with isUdpConnected := true }).record
        (.connectTask s sock.connIdx true) } := by
  have about : LogEntry.subject (.connectTask s sock.connIdx true) = some s := rfl
  have made : LogEntry.callback (.connectTask s sock.connIdx true) = some (.connect true) := rfl
  have moved := (moved_setSocket w s { sock with isUdpConnected := true }).record about
  have good := steady.kept.good s
  have face := Mgr.standing_face present
  have status : sock.face.status = .connected := connected
  have shape := View.standing_callback ((w.mgr.view s).setSock { sock with isUdpConnected := true })
    rfl made rfl rfl
  refine moved.steady steady present ?_ ?_ ?_
  · rw [shape]
    refine good.restage face rfl rfl (steady.parses present) (steady.opened present) ?_ ?_
    · intro kept
      have stage := good.stage _ face kept
      simp only [Standing.Stage, status, unheard, true_and, not_true_eq_false, false_and,
        or_false] at stage
      simp only [Standing.Stage, Socket.face, connected]
      refine Or.inr ⟨by simp [Face.halfOpen], [], ?_⟩
      change (w.mgr.view s).standing.trace ++ _ = _
      rw [stage]
      rfl
    · intro _ closed
      exact absurd (status.symm.trans closed) (by simp)
  · intro _
    rw [shape]
    refine restage_settled fun _ => ⟨?_, ?_⟩
    · intro connecting
      exact absurd (status.symm.trans connecting) (by simp)
    · intro closed
      exact absurd (status.symm.trans closed) (by simp)
  · intro answerable
    exact absurd (unheard.1.symm.trans (answerable.tcp _ face)) (by simp)

theorem onHandshake_any [Past] (atWork : AtWork s w₀ w) (present : w.mgr.heap s = some sock)
    (unheard : sock.face.halfOpen) (packetLen cursor : Nat) :
    Wp anyFault (Socket.onHandshake s packetLen cursor) (fun _ w' => AtWork s w₀ w') w := by
  have asked : ∀ w₁, AtWork s w₀ w₁ →
      Wp anyFault (Network.disconnect sock.connIdx) (fun _ w' => AtWork s w₀ w') w₁ := by
    intro w₁ atWork₁
    refine (disconnect_any atWork₁.steady sock.connIdx).mono ?_
    rintro _ w₂ ⟨steady₂, left⟩
    exact atWork₁.after steady₂ left
  obtain ⟨_, holds, connected⟩ := atWork.connected
  obtain rfl := Option.some.inj (present.symm.trans holds)
  unfold Socket.onHandshake
  rw [wp_bind, wp_deref present]
  split
  · split
    · unfold Socket.connectUdpPort
      rw [wp_bind, wp_bind, wp_get, wp_bind, wp_modify, wp_bind, wp_deref (by exact present),
        wp_pure]
      have next : AtWork s w₀ { w with udpConnects := w.udpConnects.tail } :=
        ⟨⟨atWork.steady.next rfl atWork.steady.kept (.refl _), atWork.held⟩,
          ⟨sock, present, connected⟩, atWork.mine⟩
      cases outcome : w.udpConnects.headD true with
      | true =>
          have joined := next.steady.join present connected unheard
          simp only [if_true]
          rw [wp_bind, wp_updateSocket (by exact present)]
          refine (runConnectTask_any runScript_any
            (local_setSocket _ s { sock with isUdpConnected := true }).heap joined).mono ?_
          rintro _ w₁ ⟨steady₁, left⟩
          have told : AtWork s w₀ { w with
              udpConnects := w.udpConnects.tail
              mgr := (w.mgr.setSocket s { sock with isUdpConnected := true }).record
                (.connectTask s sock.connIdx true) } :=
            ⟨⟨joined, atWork.held⟩,
              ⟨_, (local_setSocket _ s { sock with isUdpConnected := true }).heap, connected⟩,
              atWork.mine⟩
          exact told.after steady₁ left
      | false =>
          simp only [Bool.false_eq_true, if_false]
          have about : LogEntry.subject (.halfOpen s) = some s := rfl
          have told : LogEntry.subject (.connectTask s sock.connIdx false) = some s := rfl
          have moved := (moved_record { w with udpConnects := w.udpConnects.tail } about).record told
          have shape : (((w.mgr.view s).note (.halfOpen s)).note
              (.connectTask s sock.connIdx false)).standing.register
                (w.mgr.view s).standing.registered =
              (w.mgr.view s).standing.restage sock.face
                ((w.mgr.view s).standing.trace ++ [.connect false]) true := by
            have face := Mgr.standing_face present
            simp [View.standing_note, LogEntry.callback, LogEntry.isTaken, LogEntry.isHalfOpen,
              LogEntry.isEvicted, Standing.restage, Standing.register, ← face]
          have steady : Steady [] _ := next.steady.giveUp present moved shape unheard.1 rfl rfl
            (atWork.steady.parses present) (atWork.steady.opened present)
          rw [wp_bind, wp_record, wp_bind]
          refine (runConnectTask_any runScript_any (by exact present) steady).mono ?_
          rintro _ w₁ ⟨steady₁, left⟩
          have failed : AtWork s w₀ _ := ⟨⟨steady, atWork.held⟩, ⟨sock, present, connected⟩,
            atWork.mine⟩
          exact asked w₁ (failed.after steady₁ left)
    · exact atWork
  · exact asked w atWork

theorem onFrame_any [Past] (atWork : AtWork s w₀ w) (packetLen cursor len : Nat) :
    Wp anyFault (Socket.onFrame s packetLen cursor len) (fun _ w' => AtWork s w₀ w') w := by
  obtain ⟨sock, present, connected⟩ := atWork.connected
  unfold Socket.onFrame
  rw [wp_bind, wp_deref present]
  dsimp only
  split
  · next tcp =>
      have joined : Joined s w := ⟨sock, present, by simp [Face.halfOpen, Socket.face, tcp]⟩
      exact (onData_any atWork joined _).mono fun _ _ done => done.1
  · next udp =>
      by_cases heard : sock.isUdpConnected = true
      · have joined : Joined s w := ⟨sock, present, by simp [Face.halfOpen, Socket.face, heard]⟩
        simp only [heard, if_true]
        exact onKcpFrame_any atWork joined _
      · have unheard : sock.face.halfOpen := ⟨udp, by simpa [Socket.face] using heard⟩
        simp only [heard, Bool.false_eq_true, if_false]
        exact onHandshake_any atWork present unheard packetLen cursor

theorem addUInt32_any [Past] (atWork : AtWork s w₀ w) (a b : Nat) :
    Wp anyFault (Socket.addUInt32 s a b) (fun _ w' => AtWork s w₀ w') w := by
  obtain ⟨sock, present, _⟩ := atWork.connected
  unfold Socket.addUInt32
  split
  · have about : LogEntry.subject (.wrapped s) = some s := rfl
    obtain ⟨steady, left⟩ := record_quiet atWork.steady present about rfl rfl rfl rfl
    rw [wp_bind, wp_record, wp_pure]
    exact atWork.after steady left
  · exact atWork

theorem onReadLoop_any [Past] (packetLen turns cursor : Nat) (atWork : AtWork s w₀ w) :
    Wp anyFault (Socket.onReadLoop s packetLen turns cursor) (fun _ w' => AtWork s w₀ w') w := by
  induction turns generalizing w cursor with
  | zero => exact atWork.steady.passed
  | succ turns inductionHypothesis =>
      rw [Socket.onReadLoop]
      refine (addUInt32_any atWork cursor 4).seq ?_
      intro bodyStart w₁ atWork₁
      split
      · obtain ⟨sock, present, _⟩ := atWork₁.connected
        rw [wp_bind, wp_deref present]
        dsimp only
        split
        · refine (addUInt32_any atWork₁ bodyStart _).seq ?_
          intro bodyEnd w₂ atWork₂
          split
          · refine (onFrame_any atWork₂ packetLen cursor _).seq ?_
            intro _ w₃ atWork₃
            exact inductionHypothesis bodyEnd atWork₃
          · exact atWork₂
        · have about : LogEntry.subject (.packetError s) = some s := rfl
          obtain ⟨steady, left⟩ := record_quiet atWork₁.steady present about rfl rfl rfl rfl
          rw [wp_bind, wp_record]
          refine (disconnect_any steady sock.connIdx).seq ?_
          rintro _ w₂ ⟨steady₂, later⟩
          exact (atWork₁.after steady left).after steady₂ later
      · exact atWork₁

theorem AtWork.updated [Past] (atWork : AtWork s w₀ w) {f : Socket → Socket}
    (same : ∀ sock, (f sock).face = sock.face) :
    Wp anyFault (updateSocket s f) (fun _ w' => AtWork s w₀ w') w :=
  (updateSocket_quiet atWork.steady same).mono fun _ _ done => atWork.after done.1 done.2

theorem onRead_any [Past] (atWork : AtWork s w₀ w) :
    Wp anyFault (Socket.onRead s) (fun _ w' => AtWork s w₀ w') w := by
  obtain ⟨sock, present, _⟩ := atWork.connected
  unfold Socket.onRead
  rw [wp_bind, wp_deref present]
  dsimp only
  generalize Socket.cursorCount = cursors
  split
  · refine (onReadLoop_any _ (cursors + 1) 0 atWork).seq ?_
    intro cursor w₁ atWork₁
    split
    · refine atWork₁.updated ?_
      exact fun _ => rfl
    · exact atWork₁
  · next raw =>
      have tcp : sock.socketType ≠ .udp := fun udp => raw (atWork.steady.parses present udp)
      have joined : Joined s w := ⟨sock, present, fun half => tcp half.1⟩
      refine (onData_any atWork joined _).seq ?_
      rintro _ w₁ ⟨atWork₁, _⟩
      refine atWork₁.updated ?_
      exact fun _ => rfl

theorem feed_any [Past] (atWork : AtWork s w₀ w) (data : Bytes) :
    Wp anyFault (Socket.feed s data) (fun _ w' => AtWork s w₀ w') w := by
  unfold Socket.feed
  rw [wp_bind]
  refine Wp.mono (atWork.updated ?_) ?_
  · exact fun _ => rfl
  · exact fun _ _ atWork₁ => onRead_any atWork₁

end Reading

/-! ## Closing -/

section Closing

theorem Moved.leaving [Past] {busy : List SockRef} (moved : Moved w w' s v) (steady : Steady busy w)
    (present : w.mgr.heap s = some sock) (good : v.standing.Good)
    (answers : (w.mgr.view s).standing.Answerable → v.standing.Answerable) :
    Steady (s :: busy) w' :=
  steady.next moved.seen (steady.kept.at moved.mgr.view good (by simp)
    (fun t outside => Or.inr fun inside => outside (List.mem_cons_of_mem _ inside))
    (moved.mgr.socketMap ▸ steady.kept.keys) moved.mgr.nextRef (steady.kept.allocated present))
    (.of_update moved.mgr.view answers)

theorem leave_any [Past] (steady : Steady [s] w) (present : w.mgr.heap s = some sock)
    (closed : sock.status = .closed) (named : (w.mgr.view s).names ≠ []) :
    Wp anyFault (do
      removeSocket sock.connIdx
      closeDescriptor s) (fun _ w' => Through w w' ∧ Shut s w' ∧
        (w'.mgr.view s).trace = (w.mgr.view s).trace) w := by
  refine (removeSocket_any steady present closed named (others_busy s [])).seq ?_
  rintro _ w₁ ⟨steady₁, shut, held, v, view, trace⟩
  rw [closeDescriptor, wp_modifyMgr]
  refine ⟨⟨closeDescriptor_any steady₁ shut, held⟩, shut, ?_⟩
  change (w₁.mgr.view s).trace = _
  rw [view, Function.update_self]
  exact trace

/-- What closing does once a half-open socket has been noted. -/
theorem shut_any [Past] (steady : Steady [] w) (mine : (w.mgr.view s).held ≠ 0)
    (present : w.mgr.heap s = some sock)
    (opened : sock.status = .closing ∨ sock.status = .connected) {givenUp : Bool}
    (moved : Moved w w₁ s v) (alive : v.sock = some sock)
    (noted : v.standing = { (w.mgr.view s).standing with givenUp := givenUp })
    (known : givenUp = false → (w.mgr.view s).standing.givenUp = false ∧ ¬sock.face.halfOpen)
    (still : (w.mgr.view s).standing.Answerable → givenUp = (w.mgr.view s).standing.givenUp) :
    Wp anyFault (do
      updateSocket s fun sock => { sock with status := .closed }
      Socket.onDisconnect s
      let sock ← deref s
      removeSocket sock.connIdx
      closeDescriptor s) (fun _ w' => Through w w' ∧ Shut s w') w₁ := by
  have named : (w.mgr.view s).names ≠ [] := by
    apply steady.opened present
    rcases opened with status | status <;> simp [status]
  have good := steady.kept.good s
  have face := Mgr.standing_face present
  have about : LogEntry.subject (.closeTask s sock.connIdx) = some s := rfl
  have made : LogEntry.callback (.closeTask s sock.connIdx) = some .close := rfl
  have closed := moved.setSocket { sock with status := .closed }
  have told := closed.record about
  have shape : ((v.setSock { sock with status := .closed }).note
      (.closeTask s sock.connIdx)).standing =
      (w.mgr.view s).standing.restage { sock.face with status := .closed }
        ((w.mgr.view s).standing.trace ++ [.close]) givenUp := by
    rw [View.standing_callback _ rfl made rfl rfl, View.standing_setSock, noted]
    rfl
  have finished : Steady [s] _ := told.leaving steady present (by
    rw [shape]
    refine good.restage face rfl rfl (steady.parses present) (fun wrong => absurd rfl wrong) ?_
      (fun _ _ _ => Or.inl mine)
    intro kept
    obtain ⟨before, joined⟩ := known kept
    have stage := good.stage _ face before
    apply Talking.close
    rcases opened with status | status
    · have status : sock.face.status = .closing := status
      simpa [Standing.Stage, status, joined] using stage
    · have status : sock.face.status = .connected := status
      simpa [Standing.Stage, status, joined] using stage) (by
    intro answerable
    have kept : givenUp = (w.mgr.view s).standing.givenUp := still answerable
    rw [shape, kept]
    exact answerable.restage (answerable.tcp sock.face face) (by simp))
  rw [wp_bind, wp_updateSocket (moved.mgr.heap.trans alive), wp_bind, Socket.onDisconnect, wp_bind,
    wp_deref closed.mgr.heap, process]
  refine (runTask_any runScript_any _ finished).mono ?_
  rintro _ w₂ ⟨steady₂, left⟩
  obtain ⟨after, count, events, taken, still, same, standing⟩ := left.alive told.mgr.heap
  have names : (w₂.mgr.view s).names ≠ [] := by
    have equal := congrArg Standing.names standing
    change (w₂.mgr.view s).names = _ at equal
    rw [equal]
    change (Mgr.view _ s).names ≠ []
    rw [told.mgr.self]
    change v.standing.names ≠ []
    rw [noted]
    exact named
  rw [wp_bind, wp_deref still]
  refine (leave_any steady₂ still (congrArg Face.status same) names).mono ?_
  rintro _ w' ⟨through, shut, _⟩
  exact ⟨⟨through.steady, through.held.trans (left.held.trans told.mgr.held)⟩, shut⟩

theorem closeSocket_any [Past] (steady : Steady [] w) (mine : (w.mgr.view s).held ≠ 0) :
    Wp anyFault (closeSocket s) (fun _ w' => Through w w' ∧
      (HasStatus s .connected w → Shut s w')) w := by
  obtain ⟨sock, present⟩ := steady.alive mine
  unfold closeSocket
  rw [wp_bind, wp_deref present]
  by_cases opened : sock.status = .closing ∨ sock.status = .connected
  · simp only [opened, if_true]
    rw [wp_bind, wp_recordIf]
    by_cases half : sock.socketType = .udp ∧ sock.isUdpConnected = false
    · have about : LogEntry.subject (.halfOpen s) = some s := rfl
      have noted : ((w.mgr.view s).note (.halfOpen s)).standing =
          { (w.mgr.view s).standing with givenUp := true } := by
        simp [View.standing_note, LogEntry.callback, LogEntry.isTaken, LogEntry.isHalfOpen,
          LogEntry.isEvicted]
      rw [if_pos half]
      have still : (w.mgr.view s).standing.Answerable →
          true = (w.mgr.view s).standing.givenUp := fun answerable =>
        absurd (half.1.symm.trans (answerable.tcp _ (Mgr.standing_face present))) (by simp)
      exact (shut_any steady mine present opened (moved_record w about) present noted
        (by simp) still).mono fun _ _ both => ⟨both.1, fun _ => both.2⟩
    · rw [if_neg half]
      exact (shut_any steady mine present opened (moved_refl w s) present rfl
        (fun kept => ⟨kept, half⟩) fun _ => rfl).mono fun _ _ both => ⟨both.1, fun _ => both.2⟩
  · simp only [opened, if_false, wp_pure]
    refine ⟨.refl steady, ?_⟩
    rintro ⟨other, there, connected⟩
    obtain rfl := Option.some.inj (present.symm.trans there)
    exact absurd (Or.inr connected) opened

theorem handleConnect_true_any [Past] (steady : Steady [] w) (present : w.mgr.heap s = some sock)
    (connecting : sock.status = .connecting) :
    Wp anyFault (handleConnect s true) (fun _ w' => Through w w' ∧
      ((w.mgr.view s).standing.givenUp = false →
        (w'.mgr.view s).trace = [.connect true])) w := by
  have good := steady.kept.good s
  have face := Mgr.standing_face present
  have waiting : sock.face.status = .connecting := connecting
  have changed := local_setSocket w.mgr s { sock with status := .connected }
  unfold handleConnect
  simp only [if_true]
  rw [wp_bind, wp_updateSocket present, wp_bind]
  refine (postEvent_spec changed.heap _).mono ?_
  rintro _ w₁ ⟨v₁, posts, posted, course⟩
  rw [changed.self] at posts
  have moved : Moved w w₁ s v₁ := ⟨changed.trans posted, course⟩
  have standing : v₁.standing = { (w.mgr.view s).standing with
      face := some { sock.face with status := .connected } } := by
    rw [posts.standing]
    rfl
  obtain ⟨after, alive, shown⟩ := Option.map_eq_some_iff.mp (congrArg Standing.face standing)
  have key : after.connIdx = sock.connIdx := congrArg Face.connIdx shown
  have about : LogEntry.subject (.connectTask s after.connIdx true) = some s := rfl
  have made : LogEntry.callback (.connectTask s after.connIdx true) = some (.connect true) := rfl
  have told := moved.record about
  have shape : (v₁.note (.connectTask s after.connIdx true)).standing =
      (w.mgr.view s).standing.restage { sock.face with status := .connected }
        ((w.mgr.view s).standing.trace ++ [.connect true]) (w.mgr.view s).standing.givenUp := by
    rw [View.standing_callback v₁ (by rw [standing]) made rfl rfl, standing]
    rfl
  have connected : Steady [] _ := told.steady steady present (by
    rw [shape]
    refine good.restage face rfl rfl (steady.parses present) ?_ ?_ (by simp)
    · exact fun _ => steady.opened present (by simp [connecting])
    · intro kept
      have stage := good.stage _ face kept
      have silent := (steady.kept.settled s (by simp) _ face kept).1 waiting
      simp only [Standing.Stage, waiting] at stage
      refine Or.inr ⟨by simp [Face.halfOpen, stage.1], [], ?_⟩
      change (w.mgr.view s).standing.trace ++ _ = _
      rw [silent]
      rfl) (by
    intro _
    rw [shape]
    exact restage_settled fun _ => ⟨by simp, by simp⟩) (by
    intro answerable
    rw [shape]
    exact answerable.restage (answerable.tcp sock.face face) (by simp))
  refine (runConnectTask_any runScript_any (moved.mgr.heap.trans alive) connected).mono ?_
  rintro _ w₂ ⟨steady₂, left⟩
  refine ⟨⟨steady₂, left.held.trans told.mgr.held⟩, fun kept => ?_⟩
  obtain ⟨_, _, _, _, _, _, kept₂⟩ := left.alive (told.mgr.heap.trans alive)
  have trace := congrArg Standing.trace kept₂
  have silent := (steady.kept.settled s (by simp) _ face kept).1 waiting
  change (w₂.mgr.view s).trace = (Mgr.view _ s).standing.trace at trace
  rw [trace, told.mgr.self, shape, Standing.restage, silent]
  rfl

theorem handleConnect_false_any [Past] (steady : Steady [] w) (mine : (w.mgr.view s).held ≠ 0)
    (present : w.mgr.heap s = some sock) (connecting : sock.status = .connecting) :
    Wp anyFault (handleConnect s false) (fun _ w' => Through w w' ∧
      ((w.mgr.view s).standing.givenUp = false →
        (w'.mgr.view s).trace = [.connect false])) w := by
  have good := steady.kept.good s
  have face := Mgr.standing_face present
  have waiting : sock.face.status = .connecting := connecting
  have about : LogEntry.subject (.connectTask s sock.connIdx false) = some s := rfl
  have made : LogEntry.callback (.connectTask s sock.connIdx false) = some (.connect false) := rfl
  have told := moved_record w about
  have named := steady.opened present (by simp [connecting])
  have shape := View.standing_callback (w.mgr.view s) face made rfl rfl
  have refused : Steady [s] _ := told.leaving steady present (by
    rw [shape]
    refine good.restage face rfl rfl (good.parses _ face) (good.opened _ face) ?_ ?_
    · intro kept
      have stage := good.stage _ face kept
      have silent := (steady.kept.settled s (by simp) _ face kept).1 waiting
      simp only [Standing.Stage, waiting] at stage ⊢
      refine ⟨stage.1, Or.inr ?_⟩
      change (w.mgr.view s).standing.trace ++ _ = _
      rw [silent]
      rfl
    · intro _ closed
      exact absurd (waiting.symm.trans closed) (by simp)) (by
    intro answerable
    rw [shape]
    exact answerable.restage (answerable.tcp sock.face face) (by simp))
  unfold handleConnect
  simp only [Bool.false_eq_true, if_false]
  rw [wp_bind]
  refine (runConnectTask_any runScript_any present refused).mono ?_
  rintro _ w₁ ⟨steady₁, left⟩
  obtain ⟨after, count, events, taken, still, same, standing⟩ := left.alive (by exact present)
  have stillNamed : (w₁.mgr.view s).names ≠ [] := by
    have equal := congrArg Standing.names standing
    change (w₁.mgr.view s).names = _ at equal
    rw [equal]
    exact named
  have stillMine : (w₁.mgr.view s).held ≠ 0 := by
    rw [view_held _ _ left.held]
    exact mine
  have closed := moved_setSocket w₁ s { after with status := .closed }
  have heard : (w₁.mgr.view s).standing.trace ≠ [] := by
    rw [congrArg Standing.trace standing]
    change (Mgr.view _ s).standing.trace ≠ []
    rw [told.mgr.self, shape]
    simp [Standing.restage]
  have good₁ := steady₁.kept.good s
  have face₁ := Mgr.standing_face still
  have gone : Steady [s] _ := closed.steady steady₁ still (by
    have set : ((w₁.mgr.view s).setSock { after with status := .closed }).standing =
        (w₁.mgr.view s).standing.restage { after.face with status := .closed }
          (w₁.mgr.view s).standing.trace (w₁.mgr.view s).standing.givenUp := rfl
    rw [set]
    refine good₁.restage face₁ rfl rfl (steady₁.parses still) (fun wrong => absurd rfl wrong) ?_
      (fun _ _ _ => Or.inl stillMine)
    intro kept
    have before : (w.mgr.view s).standing.givenUp = false := by
      have equal := congrArg Standing.givenUp standing
      rw [kept] at equal
      simpa [Standing.recount, View.standing_note, LogEntry.isHalfOpen, told.mgr.self]
        using equal.symm
    have silent := (steady.kept.settled s (by simp) _ face before).1 waiting
    have trace := congrArg Standing.trace standing
    refine Or.inl ?_
    change (w₁.mgr.view s).standing.trace = _
    rw [trace]
    change (Mgr.view _ s).standing.trace = _
    rw [told.mgr.self, shape]
    change (w.mgr.view s).standing.trace ++ _ = _
    rw [silent]
    rfl) (by simp) (by
    intro answerable
    exact answerable.restage (answerable.tcp after.face face₁) heard)
  rw [wp_bind, wp_updateSocket still, wp_bind, wp_deref closed.mgr.heap]
  refine (leave_any gone closed.mgr.heap rfl stillNamed).mono ?_
  rintro _ w' ⟨through, _, trace⟩
  refine ⟨⟨through.steady, through.held.trans left.held⟩, fun kept => ?_⟩
  have silent := (steady.kept.settled s (by simp) _ face kept).1 waiting
  rw [trace, closed.mgr.self]
  change (w₁.mgr.view s).standing.trace = _
  rw [congrArg Standing.trace standing]
  change (Mgr.view _ s).standing.trace = _
  rw [told.mgr.self, shape, Standing.restage, silent]
  rfl

/-- An empty datagram for a half-open socket: it is closed and stays in the map. -/
theorem handlePeerClosed_any [Past] (atWork : AtWork s w₀ w) :
    Wp anyFault (handlePeerClosed s) (fun _ w' => Through w w' ∧ Shut s w') w := by
  have steady := atWork.steady
  have closes : Wp anyFault (closeSocket s) (fun _ w' => Through w w' ∧ Shut s w') w :=
    (closeSocket_any steady atWork.mine).mono fun _ _ ⟨through, shut⟩ =>
      ⟨through, shut atWork.connected⟩
  obtain ⟨sock, present, _⟩ := atWork.connected
  unfold handlePeerClosed
  rw [wp_bind, wp_deref present]
  split
  · exact closes
  · next udp =>
    split
    · exact closes
    · have about : LogEntry.subject (.halfOpen s) = some s := rfl
      have told : LogEntry.subject (.connectTask s sock.connIdx false) = some s := rfl
      have noted := moved_record w about
      have closing : Moved w
          { w with mgr := (w.mgr.record (.halfOpen s)).setInterest s none } s
          { (w.mgr.view s).note (.halfOpen s) with interest := none } := by
        have dropped := noted.mgr.trans (local_setInterest _ s none)
        rw [noted.mgr.self] at dropped
        exact ⟨dropped, rfl⟩
      have closed := closing.setSocket { sock with status := .closed }
      have reported := closed.record told
      have shape : ((View.setSock { (w.mgr.view s).note (.halfOpen s) with interest := none }
          { sock with status := .closed }).note
            (.connectTask s sock.connIdx false)).standing.register
              (w.mgr.view s).standing.registered =
          (w.mgr.view s).standing.restage { sock.face with status := .closed }
            ((w.mgr.view s).standing.trace ++ [.connect false]) true := by
        have left : View.standing { (w.mgr.view s).note (.halfOpen s) with interest := none } =
            ((w.mgr.view s).note (.halfOpen s)).standing.register
              (((w.mgr.view s).note (.halfOpen s)).log.any LogEntry.isEvicted) := rfl
        rw [View.standing_note, View.standing_setSock, left, View.standing_note]
        simp [LogEntry.callback, LogEntry.isTaken, LogEntry.isHalfOpen, Standing.restage,
          Standing.register, Socket.face]
      have given : Steady [] _ := steady.giveUp present reported shape udp rfl rfl
        (steady.parses present) (fun wrong => absurd rfl wrong)
      rw [wp_bind, wp_record, wp_bind, closeDescriptor, wp_modifyMgr, wp_bind,
        wp_updateSocket (by exact present)]
      refine (runConnectTask_any runScript_any closed.mgr.heap given).mono ?_
      rintro _ w₁ ⟨steady₁, left⟩
      refine ⟨⟨steady₁, left.held.trans reported.mgr.held⟩, fun after still => ?_⟩
      obtain ⟨_, _, _, _, there, face, _⟩ := left.alive reported.mgr.heap
      obtain rfl := Option.some.inj (there.symm.trans still)
      exact congrArg Face.status face

theorem readLoop_any [Past] (results : List RecvResult) (atWork : AtWork s w₀ w) :
    Wp anyFault (readLoop s results) (fun _ w' => Through w₀ w') w := by
  induction results generalizing w with
  | nil =>
      obtain ⟨sock, present, _⟩ := atWork.connected
      rw [readLoop, wp_bind, wp_deref present, wp_pure]
      exact atWork.toThrough
  | cons result rest inductionHypothesis =>
      obtain ⟨sock, present, _⟩ := atWork.connected
      rw [readLoop, wp_bind, wp_deref present]
      generalize intOf sock.readBuffer.getSpace = space
      dsimp only
      split
      · exact atWork.toThrough
      · cases result with
        | again => exact atWork.toThrough
        | error => exact atWork.toThrough
        | bytes data =>
            dsimp only
            generalize data.take (transferLimit space) = received
            split
            · refine (handlePeerClosed_any atWork).seq ?_
              rintro _ w₁ ⟨through, _⟩
              exact atWork.through through
            · refine (feed_any atWork received).seq ?_
              intro _ w₁ atWork₁
              split
              · exact inductionHypothesis atWork₁
              · exact atWork₁.toThrough

theorem handleReadComplete_any [Past] (steady : Steady [] w) (mine : (w.mgr.view s).held ≠ 0)
    (results : List RecvResult) :
    Wp anyFault (handleReadComplete s results) (fun _ w' => Through w w') w := by
  obtain ⟨sock, present⟩ := steady.alive mine
  unfold handleReadComplete
  rw [wp_bind, wp_deref present]
  split
  · next connected =>
      have atWork : AtWork s w w := ⟨.refl steady, ⟨sock, present, connected⟩, mine⟩
      refine (readLoop_any results atWork).seq ?_
      intro behind w₁ through
      split
      · have stillMine : (w₁.mgr.view s).held ≠ 0 := by
          rw [view_held _ _ through.held]
          exact mine
        obtain ⟨after, still⟩ := through.steady.alive stillMine
        refine (fillAndPush_any through.steady still).mono ?_
        rintro _ w₂ ⟨steady₂, left⟩
        exact ⟨steady₂, left.held.trans through.held⟩
      · exact through
  · exact .refl steady

theorem handleCanWrite_any [Past] (steady : Steady [] w) (mine : (w.mgr.view s).held ≠ 0)
    (results : List SendResult) :
    Wp anyFault (handleCanWrite s results) (fun _ w' => Through w w') w := by
  obtain ⟨sock, present⟩ := steady.alive mine
  have posts : ∀ w₁ events, Steady [] w₁ → Leaves w w₁ →
      Wp anyFault (postEvent s events) (fun _ w' => Through w w') w₁ := by
    intro w₁ events steady₁ left₁
    obtain ⟨after, _, _, _, still, _, _⟩ := left₁.alive present
    refine (postEvent_any steady₁ still events).mono ?_
    rintro _ w₂ ⟨steady₂, left₂⟩
    exact ⟨steady₂, left₂.held.trans left₁.held⟩
  unfold handleCanWrite
  rw [wp_bind, wp_deref present]
  split
  · split
    · refine (updateSocket_quiet steady ?_).seq ?_
      · exact fun _ => rfl
      · rintro _ w₁ ⟨steady₁, left₁⟩
        refine (writeCallback_any results steady₁).seq ?_
        rintro _ w₂ ⟨steady₂, left₂⟩
        rw [wp_bind]
        refine wp_deref_any steady₂.passed ?_
        intro after _
        split
        · refine (updateSocket_quiet steady₂ ?_).seq ?_
          · exact fun _ => rfl
          · rintro _ w₃ ⟨steady₃, left₃⟩
            exact (posts w₃ _ steady₃ ((left₁.trans left₂).trans left₃)).seq fun _ _ done => done
        · exact (posts w₂ _ steady₂ (left₁.trans left₂)).seq fun _ _ done => done
    · split
      · exact (closeSocket_any steady mine).mono fun _ _ done => done.1
      · exact .refl steady
  · exact .refl steady

theorem handleSocketEvent_any [Past] (events : Flags) (recvs : List RecvResult)
    (sends : List SendResult) (steady : Steady [] w) (mine : (w.mgr.view s).held ≠ 0) :
    Wp anyFault (handleSocketEvent s events recvs sends) (fun _ w' => Through w w') w := by
  obtain ⟨sock, present⟩ := steady.alive mine
  unfold handleSocketEvent
  split
  · rw [wp_bind, wp_deref present]
    split
    · next connecting =>
        exact (handleConnect_false_any steady mine present connecting).mono fun _ _ done => done.1
    · exact (closeSocket_any steady mine).mono fun _ _ done => done.1
  · -- `EPOLLOUT` is looked at after `EPOLLIN` has been handled
    have writing : ∀ w₁, Through w w₁ → Wp anyFault (do
        if events.epollOut then
          if (← deref s).status = .connecting then handleConnect s true
          else handleCanWrite s sends) (fun _ w' => Through w w') w₁ := by
      intro w₁ through
      have stillMine : (w₁.mgr.view s).held ≠ 0 := by
        rw [view_held _ _ through.held]
        exact mine
      obtain ⟨after, still⟩ := through.steady.alive stillMine
      split
      · rw [wp_bind, wp_deref still]
        split
        · next connecting =>
            exact (handleConnect_true_any through.steady still connecting).mono
              fun _ _ done => through.trans done.1
        · exact (handleCanWrite_any through.steady stillMine sends).mono
            fun _ _ done => through.trans done
      · exact through
    by_cases readable : events.epollIn = true
    · simp only [readable, if_true]
      refine (handleReadComplete_any steady mine recvs).seq ?_
      intro _ w₁ through
      exact writing w₁ through
    · simp only [readable]
      exact writing w (.refl steady)

theorem handleClose_any [Past] (steady : Steady [] w) (mine : (w.mgr.view s).held ≠ 0) :
    Wp anyFault (handleClose s) (fun _ w' => Through w w') w := by
  obtain ⟨sock, present⟩ := steady.alive mine
  have good := steady.kept.good s
  have face := Mgr.standing_face present
  refine (handleClose_spec present).mono ?_
  rintro _ w' ⟨v', closes, moved, course⟩
  have change : Moved w w' s v' := ⟨moved, course⟩
  cases closes with
  | ignored holds _ => exact ⟨(change.quietly steady present rfl).1, moved.held⟩
  | done holds connected pushes =>
      obtain rfl := Option.some.inj (present.symm.trans holds)
      have status : sock.face.status = .connected := connected
      have shape : v'.standing =
          (w.mgr.view s).standing.restage { sock.face with status := .closing }
            (w.mgr.view s).standing.trace (w.mgr.view s).standing.givenUp := by
        rw [pushes.standing]
        rfl
      refine ⟨change.steady steady present ?_ ?_ ?_, moved.held⟩
      · rw [shape]
        refine good.restage face rfl rfl (steady.parses present) ?_ ?_ (by simp)
        · exact fun _ => steady.opened present (by simp [connected])
        · intro kept
          have stage := good.stage _ face kept
          simp only [Standing.Stage, status] at stage
          exact stage
      · intro _
        rw [shape]
        exact restage_settled fun _ => ⟨by simp, by simp⟩
      · intro answerable
        rw [shape]
        exact answerable.restage (answerable.tcp sock.face face)
          (answerable.heard face (by simp [status]))

theorem handleDelaySend_any [Past] (steady : Steady [] w) (mine : (w.mgr.view s).held ≠ 0) :
    Wp anyFault (handleDelaySend s) (fun _ w' => Through w w') w := by
  obtain ⟨sock, present⟩ := steady.alive mine
  unfold handleDelaySend
  rw [wp_bind, wp_deref present]
  split
  · refine (fillAndPush_any steady present).mono ?_
    rintro _ w₁ ⟨steady₁, left⟩
    exact ⟨steady₁, left.held⟩
  · exact .refl steady

end Closing

end Serving

end CrossOver.Engine.Network
