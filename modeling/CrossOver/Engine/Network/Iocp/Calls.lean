import CrossOver.Engine.Network.Iocp.Ledger

/-!
# Calls from Lua on a completion port

The account of every socket is in order while handlers and callbacks run, and
what a script calls keeps it so.  The functions both platforms share are treated
for any state of the port, as they do not know of it.
-/

namespace CrossOver.Engine.Network.Iocp

open CrossOver.Lib

structure Steady (mood : SockRef → Mood) (port : Port) (m : Mgr) : Prop where
  keys : (m.socketMap.map Prod.fst).Nodup
  fresh : ∀ s, m.nextRef ≤ s → m.view s = .blank ∧ port.lane s = .empty ∧ mood s = .settled
  fair : ∀ s, Fair (mood s) (port.lane s) (m.view s)

/-- Nothing but an access to an object that is gone is ruled out. -/
def Tolerated {Any : Type} (fault : Fault) (_ : Any) : Prop := fault ≠ .useAfterFree

/-- The program keeps the invariant and never accesses an object that is gone. -/
def Safe {Any Value : Type} (holds : Any → Prop) (x : Program Any Fault Value) : Prop :=
  ∀ w, holds w → Wp Tolerated x (fun _ => holds) w

section Safe

variable {Any First Second : Type} {holds : Any → Prop} {x : Program Any Fault First}
  {f : First → Program Any Fault Second}

theorem Safe.pure (value : First) : Safe holds (pure value : Program Any Fault First) :=
  fun _ kept => kept

theorem Safe.bind (first : Safe holds x) (rest : ∀ value, Safe holds (f value)) :
    Safe holds (x >>= f) :=
  fun w kept => (first w kept).seq fun value t keptThere => rest value t keptThere

theorem Safe.then {post : Second → Any → Prop} {w : Any} (first : Safe holds x) (kept : holds w)
    (rest : ∀ value t, holds t → Wp Tolerated (f value) post t) :
    Wp Tolerated (x >>= f) post w := (first w kept).seq rest

end Safe

section Steady

variable {mood : SockRef → Mood} {port port' : Port} {m m' m₁ : Mgr} {s : SockRef} {sock : Socket}
  {v : View} {connIdx : Nat}

theorem Steady.at (steady : Steady mood port m) (feeling : Mood) {lane : Lane}
    (old : s < m.nextRef) (lanes : port'.lane = Function.update port.lane s lane)
    (view : m'.view = Function.update m.view s v) (keys : (m'.socketMap.map Prod.fst).Nodup)
    (nextRef : m'.nextRef = m.nextRef) (fair : Fair feeling lane v) :
    Steady (Function.update mood s feeling) port' m' where
  keys := keys
  fresh := by
    intro other large
    rw [nextRef] at large
    have different : other ≠ s := Nat.ne_of_gt (Nat.lt_of_lt_of_le old large)
    rw [view, lanes, Function.update_of_ne different, Function.update_of_ne different,
      Function.update_of_ne different]
    exact steady.fresh other large
  fair := by
    intro other
    rw [view, lanes]
    by_cases here : other = s
    · subst here
      simpa using fair
    · simpa [here] using steady.fair other

/-- A new object, under the next reference. -/
theorem Steady.born (steady : Steady mood port m) (m' : Mgr) {feeling : Mood} {lane : Lane}
    (lanes : port'.lane = Function.update port.lane m.nextRef lane)
    (view : m'.view = Function.update m.view m.nextRef v)
    (keys : (m'.socketMap.map Prod.fst).Nodup) (nextRef : m'.nextRef = m.nextRef + 1)
    (fair : Fair feeling lane v) :
    Steady (Function.update mood m.nextRef feeling) port' m' where
  keys := keys
  fresh := by
    intro other large
    rw [nextRef] at large
    have different : other ≠ m.nextRef := Nat.ne_of_gt large
    rw [view, lanes, Function.update_of_ne different, Function.update_of_ne different,
      Function.update_of_ne different]
    exact steady.fresh other (Nat.le_of_succ_le large)
  fair := by
    intro other
    rw [view, lanes]
    by_cases here : other = m.nextRef
    · subst here
      simpa using fair
    · simpa [here] using steady.fair other

theorem Steady.allocated (steady : Steady mood port m) (present : m.heap s = some sock) :
    s < m.nextRef := by
  by_contra large
  have blank := congrArg View.sock (steady.fresh s (Nat.le_of_not_lt large)).1
  simp only [Mgr.view, View.blank, present] at blank
  cases blank

/-- The same for a socket whose mood and operations do not change. -/
theorem Steady.here (steady : Steady mood port m) (present : m.heap s = some sock)
    (view : m'.view = Function.update m.view s v) (keys : m'.socketMap = m.socketMap)
    (nextRef : m'.nextRef = m.nextRef) (fair : Fair (mood s) (port.lane s) v) :
    Steady mood port m' := by
  have moved := steady.at (mood s) (steady.allocated present)
    (Function.update_eq_self s port.lane).symm view (keys ▸ steady.keys) nextRef fair
  rwa [Function.update_eq_self] at moved

theorem Steady.local (steady : Steady mood port m) (present : m.heap s = some sock)
    (changed : Local m m₁ s v) (fair : Fair (mood s) (port.lane s) v) : Steady mood port m₁ :=
  steady.here present changed.view changed.socketMap changed.nextRef fair

theorem Steady.push (steady : Steady mood port m) (present : m.heap s = some sock)
    (changed : Local m m₁ s v) (event : SocketIOEvent)
    (fair : Fair (mood s) (port.lane s) { v with events := v.events ++ [event] }) :
    Steady mood port (m₁.push { customizedEvents := event, s := s }) := by
  refine steady.here present ?_ changed.socketMap changed.nextRef fair
  rw [push_view, changed.view, Function.update_self, Function.update_idem]

/-- Whom the map names is alive and knows its name. -/
theorem Steady.found (steady : Steady mood port m) (found : m.find connIdx = some s) :
    ∃ sock, m.heap s = some sock ∧ sock.connIdx = connIdx ∧ (m.view s).names = [connIdx] := by
  have named := mem_names (Mgr.find_mem found)
  obtain ⟨sock, present, unique⟩ := (steady.fair s).named (List.ne_nil_of_mem named)
  rw [unique] at named
  have key := List.mem_singleton.mp named
  exact ⟨sock, present, key.symm, by rw [key]; exact unique⟩

theorem Steady.active_found (steady : Steady mood port m) (found : m.find connIdx = some s) :
    owed (port.lane s) (m.view s) ≠ 0 := by
  obtain ⟨_, _, _, names⟩ := steady.found found
  exact owed_pos_of_named (by simp [names])

/-- Whom the running iteration holds is alive. -/
theorem active_held (holds : s ∈ m.held) : owed (port.lane s) (m.view s) ≠ 0 := by
  have counted : 0 < (m.view s).held := List.count_pos_iff.mpr holds
  simp only [owed, View.refs]
  omega

theorem Steady.alive (steady : Steady mood port m) (active : owed (port.lane s) (m.view s) ≠ 0) :
    ∃ sock, m.heap s = some sock := (steady.fair s).alive active

end Steady

/-! ## Frames -/

/-- The shared functions see the manager. -/
def Calm (mood : SockRef → Mood) (port : Port) (held : List SockRef) (w : Network.World) : Prop :=
  Steady mood port w.mgr ∧ w.mgr.held = held

/-- What is counted beyond the references that something will give back. -/
def surplus (port : Port) (m : Mgr) (s : SockRef) (sock : Socket) : Int :=
  sock.count - owed (port.lane s) (m.view s)

section Frames

variable {mood : SockRef → Mood} {port : Port} {held : List SockRef} {w : Network.World}
  {s : SockRef} {sock : Socket} {connIdx : Nat}

def postedFrame (v : View) (s : SockRef) (sock : Socket) (after : SequenceBuffer) (frame : Bytes) :
    View :=
  { v with
    sock := some { sock with count := sock.count + 1, writeBuffer := after }
    events := v.events ++ [.delaySend]
    log := v.log ++ [.queued s sock.status frame] }

structure Queued (mood : SockRef → Mood) (port : Port) (held : List SockRef) (w : Network.World)
    (s : SockRef) (sock : Socket) (w' : Network.World) : Prop where
  calm : Calm mood port held w'
  socketMap : w'.mgr.socketMap = w.mgr.socketMap
  active : owed (port.lane s) (w'.mgr.view s) ≠ 0
  still : ∃ sock', w'.mgr.heap s = some sock' ∧ sock'.socketType = sock.socketType ∧
    surplus port w'.mgr s sock' = surplus port w.mgr s sock

/-- `Send` and `SendMsg` of the socket, once the reference has been taken. -/
theorem queueFrame_queued (calm : Calm mood port held w) (present : w.mgr.heap s = some sock)
    (active : owed (port.lane s) (w.mgr.view s) ≠ 0) {frame : Bytes}
    {write : SequenceBuffer → Bool × SequenceBuffer} (accepts : (write sock.writeBuffer).1 = true)
    (appends : sock.socketType = .tcp → sock.writeBuffer.WellFormed →
      Appends sock.writeBuffer (write sock.writeBuffer).2 frame) :
    Wp Tolerated (Network.Socket.queueFrame s frame write)
      (fun ret w' => ret = true ∧ Queued mood port held w s sock w')
      { w with mgr := w.mgr.setSocket s { sock with count := sock.count + 1 } } := by
  have counted := local_setSocket w.mgr s { sock with count := sock.count + 1 }
  have written := counted.setSocket
    { sock with count := sock.count + 1, writeBuffer := (write sock.writeBuffer).2 }
  have subject : LogEntry.subject (.queued s sock.status frame) = some s := rfl
  have recorded := written.trans (local_record _ subject)
  rw [written.self] at recorded
  unfold Network.Socket.queueFrame
  rw [wp_bind, wp_deref counted.heap]
  simp only [accepts]
  rw [wp_bind, wp_updateSocket counted.heap, wp_bind, wp_record]
  have more : owed (port.lane s) (postedFrame (w.mgr.view s) s sock (write sock.writeBuffer).2 frame) =
      owed (port.lane s) (w.mgr.view s) + 1 := by
    simp only [owed, View.refs, postedFrame, List.length_append, List.length_singleton]
    omega
  have fair : Fair (mood s) (port.lane s)
      (postedFrame (w.mgr.view s) s sock (write sock.writeBuffer).2 frame) := by
    refine (calm.1.fair s).advance active present rfl rfl rfl rfl ?_ ?_
    · intro account
      rw [more]
      exact account.gain.same rfl
    · intro tcp conduit
      have appended : Conduit (port.lane s).writes
          ((w.mgr.view s).log ++ [.queued s sock.status frame])
          { sock with writeBuffer := (write sock.writeBuffer).2 } :=
        conduit.append (appends tcp conduit.whole) (by simp [LogEntry.sentBytes])
          (by simp [LogEntry.queuedBytes])
      exact appended.same rfl rfl rfl
  have steady := calm.1.push present recorded .delaySend fair
  have view : ((((w.mgr.setSocket s { sock with count := sock.count + 1 }).setSocket s
      { sock with count := sock.count + 1, writeBuffer := (write sock.writeBuffer).2 }).record
        (.queued s sock.status frame)).push { customizedEvents := .delaySend, s := s }).view s =
      postedFrame (w.mgr.view s) s sock (write sock.writeBuffer).2 frame := by
    rw [push_view, Function.update_self, recorded.self]
    rfl
  refine ⟨rfl, ⟨steady, calm.2⟩, rfl, ?_,
    { sock with count := sock.count + 1, writeBuffer := (write sock.writeBuffer).2 }, ?_, rfl, ?_⟩
  · rw [view, more]
    exact Nat.succ_ne_zero _
  · exact congrArg View.sock view
  · change _ - (owed _ (Mgr.view _ s) : Int) = _
    rw [view, more]
    simp only [surplus]
    push_cast
    omega

theorem Queued.refl (calm : Calm mood port held w) (present : w.mgr.heap s = some sock)
    (active : owed (port.lane s) (w.mgr.view s) ≠ 0) : Queued mood port held w s sock w :=
  ⟨calm, rfl, active, sock, present, rfl, rfl⟩

theorem Queued.trans {w₁ w₂ : Network.World} {sock₁ : Socket}
    (first : Queued mood port held w s sock w₁) (between : w₁.mgr.heap s = some sock₁)
    (second : Queued mood port held w₁ s sock₁ w₂) : Queued mood port held w s sock w₂ := by
  obtain ⟨other, still, kind, rest⟩ := first.still
  obtain rfl := Option.some.inj (between.symm.trans still)
  obtain ⟨sock₂, present, sameKind, sameRest⟩ := second.still
  exact ⟨second.calm, second.socketMap.trans first.socketMap, second.active, sock₂, present,
    sameKind.trans kind, sameRest.trans rest⟩

theorem sendUdpPackages_queued (packets : List Bytes) (calm : Calm mood port held w)
    (present : w.mgr.heap s = some sock) (udp : sock.socketType = .udp)
    (active : owed (port.lane s) (w.mgr.view s) ≠ 0) :
    Wp Tolerated (Network.Socket.sendUdpPackages s packets)
      (fun _ => Queued mood port held w s sock) w := by
  induction packets generalizing w sock with
  | nil => exact .refl calm present active
  | cons packet rest inductionHypothesis =>
      rw [Network.Socket.sendUdpPackages]
      simp only [refAdd]
      rw [wp_bind, wp_updateSocket present]
      refine (queueFrame_queued calm present active (SequenceBuffer.writeMsg_ret _ _ _) ?_).seq ?_
      · intro tcp
        exact absurd (tcp.symm.trans udp) (by simp)
      · rintro _ w₁ ⟨-, queued⟩
        obtain ⟨sock₁, between, kind, _⟩ := queued.still
        refine (inductionHypothesis queued.calm between (kind.trans udp) queued.active).mono ?_
        intro _ w₂ later
        exact queued.trans between later

/-- A change of the control block. -/
theorem Calm.rewire (calm : Calm mood port held w) (present : w.mgr.heap s = some sock)
    (active : owed (port.lane s) (w.mgr.view s) ≠ 0) (kcp : Ikcp.Kcp) :
    Queued mood port held w s sock
      { w with mgr := w.mgr.setSocket s { sock with kcp := some kcp } } := by
  have changed := local_setSocket w.mgr s { sock with kcp := some kcp }
  have fair : Fair (mood s) (port.lane s) ((w.mgr.view s).setSock { sock with kcp := some kcp }) := by
    refine (calm.1.fair s).advance active present rfl rfl rfl rfl ?_ ?_
    · intro account
      exact ⟨account.bounded, account.exact, account.used, account.linked, account.left, by simp⟩
    · intro _ conduit
      exact conduit.same rfl rfl rfl
  have same : owed (port.lane s) ((w.mgr.setSocket s { sock with kcp := some kcp }).view s) =
      owed (port.lane s) (w.mgr.view s) := by
    rw [changed.self]
    rfl
  refine ⟨⟨calm.1.local present changed fair, calm.2⟩, rfl, ?_, _, changed.heap, rfl, ?_⟩
  · rw [same]
    exact active
  · simp only [surplus, same]

theorem Calm.noted (calm : Calm mood port held w) (present : w.mgr.heap s = some sock)
    (active : owed (port.lane s) (w.mgr.view s) ≠ 0) {entry : LogEntry}
    (subject : entry.subject = some s) (unsent : entry.sentBytes = [])
    (unqueued : entry.queuedBytes = []) :
    Queued mood port held w s sock { w with mgr := w.mgr.record entry } := by
  have changed := local_record w.mgr subject
  have fair := (calm.1.fair s).note unsent unqueued
  have same : owed (port.lane s) ((w.mgr.record entry).view s) =
      owed (port.lane s) (w.mgr.view s) := by
    rw [changed.self]
    rfl
  refine ⟨⟨calm.1.local present changed fair, calm.2⟩, rfl, ?_, sock, present, rfl, ?_⟩
  · rw [same]
    exact active
  · simp only [surplus, same]

theorem sendUDP_queued (buff : Bytes) (calm : Calm mood port held w)
    (present : w.mgr.heap s = some sock) (udp : sock.socketType = .udp)
    (active : owed (port.lane s) (w.mgr.view s) ≠ 0) :
    Wp Tolerated (Network.Socket.sendUDP s buff) (fun _ => Queued mood port held w s sock) w := by
  unfold Network.Socket.sendUDP
  rw [wp_bind, wp_deref present]
  cases wired : sock.kcp with
  | none => exact absurd wired (((calm.1.fair s).account sock present).kcp udp)
  | some kcp =>
      dsimp only
      split
      · exact .refl calm present active
      · have rewired := calm.rewire present active (kcp.send buff).1
        rw [wp_bind, wp_updateSocket present, wp_bind, wp_recordIf]
        have noted : Queued mood port held w s sock
            { w with mgr :=
                if (kcp.send buff).2.1 ≥ 0 then
                  (w.mgr.setSocket s { sock with kcp := some (kcp.send buff).1 }).record (.taken s)
                else w.mgr.setSocket s { sock with kcp := some (kcp.send buff).1 } } := by
          have there := (local_setSocket w.mgr s { sock with kcp := some (kcp.send buff).1 }).heap
          split
          · exact rewired.trans there (rewired.calm.noted there rewired.active rfl rfl rfl)
          · exact rewired
        obtain ⟨sock₁, between, kind, _⟩ := noted.still
        refine (sendUdpPackages_queued _ noted.calm between (kind.trans udp) noted.active).seq ?_
        intro _ w₂ later
        exact noted.trans between later

/-- A reference beyond those that are accounted for is given back. -/
theorem refRelease_refund (calm : Calm mood port held w) (present : w.mgr.heap s = some sock)
    (udp : sock.socketType = .udp) (active : owed (port.lane s) (w.mgr.view s) ≠ 0)
    (beyond : 1 ≤ surplus port w.mgr s sock) :
    Wp Tolerated (refRelease s) (fun _ => Calm mood port held) w := by
  refine (refRelease_spec present).mono ?_
  rintro _ w' ⟨_, rfl, released, _⟩
  have more : sock.count - 1 ≠ 0 := by
    unfold surplus at beyond
    omega
  have still : ((w.mgr.view s).release sock).sock = some { sock with count := sock.count - 1 } := by
    simp [View.release, more]
  refine ⟨calm.1.local present released ?_, released.held.trans calm.2⟩
  refine (calm.1.fair s).advance active present still rfl rfl rfl ?_ ?_
  · intro account
    refine ⟨?_, ?_, ?_, account.linked, account.left, account.kcp⟩
    · change (owed (port.lane s) (w.mgr.view s) : Int) ≤ sock.count - 1
      unfold surplus at beyond
      omega
    · intro tcp
      exact absurd (tcp.symm.trans udp) (by simp)
    · intro tcp
      exact absurd (tcp.symm.trans udp) (by simp)
  · intro _ conduit
    exact conduit.same rfl rfl rfl

/-- The reference that `SendMsg` takes before it asks the control block. -/
theorem Calm.excess (calm : Calm mood port held w) (present : w.mgr.heap s = some sock)
    (udp : sock.socketType = .udp) (active : owed (port.lane s) (w.mgr.view s) ≠ 0) :
    Calm mood port held
      { w with mgr := w.mgr.setSocket s { sock with count := sock.count + 1 } } := by
  have changed := local_setSocket w.mgr s { sock with count := sock.count + 1 }
  refine ⟨calm.1.local present changed ?_, calm.2⟩
  refine (calm.1.fair s).advance active present rfl rfl rfl rfl ?_ ?_
  · intro account
    exact account.excess udp
  · intro _ conduit
    exact conduit.same rfl rfl rfl

theorem sendThrough_safe {sendTo : SockRef → M Bool}
    (sends : ∀ w s sock, Calm mood port held w → w.mgr.heap s = some sock →
      owed (port.lane s) (w.mgr.view s) ≠ 0 →
      Wp Tolerated (do
        let ret ← sendTo s
        if !ret then
          refRelease s
        pure ret) (fun _ => Calm mood port held)
        { w with mgr := w.mgr.setSocket s { sock with count := sock.count + 1 } }) :
    Safe (Calm mood port held) (sendThrough connIdx sendTo) := by
  intro w calm
  unfold sendThrough
  rw [wp_bind, wp_get]
  cases found : w.mgr.find connIdx with
  | none => exact calm
  | some s =>
      obtain ⟨sock, present, _⟩ := calm.1.found found
      simp only [refAdd]
      rw [wp_bind, wp_updateSocket present]
      exact sends w s sock calm present (calm.1.active_found found)

theorem queueFrame_kept (calm : Calm mood port held w) (present : w.mgr.heap s = some sock)
    (active : owed (port.lane s) (w.mgr.view s) ≠ 0) {frame : Bytes}
    {write : SequenceBuffer → Bool × SequenceBuffer} (accepts : (write sock.writeBuffer).1 = true)
    (appends : sock.socketType = .tcp → sock.writeBuffer.WellFormed →
      Appends sock.writeBuffer (write sock.writeBuffer).2 frame) :
    Wp Tolerated (do
      let ret ← Network.Socket.queueFrame s frame write
      if !ret then
        refRelease s
      pure ret) (fun _ => Calm mood port held)
      { w with mgr := w.mgr.setSocket s { sock with count := sock.count + 1 } } := by
  refine (queueFrame_queued calm present active accepts appends).seq ?_
  rintro _ w' ⟨rfl, queued⟩
  exact queued.calm

theorem send_safe {content : Bytes} (short : content.length < 2 ^ 32) :
    Safe (Calm mood port held) (Network.send connIdx content) := by
  refine sendThrough_safe ?_
  intro w s sock calm present active
  exact queueFrame_kept calm present active (SequenceBuffer.write_ret _ _)
    fun _ whole => appends_write whole short

theorem sendMsg_safe {content : Bytes} (short : content.length + 4 < 2 ^ 32) :
    Safe (Calm mood port held) (Network.sendMsg connIdx content) := by
  have fits : (leBytes 4 content.length).length + content.length < 2 ^ 32 := by
    rw [leBytes_length]
    omega
  refine sendThrough_safe ?_
  intro w s sock calm present active
  have there := (local_setSocket w.mgr s { sock with count := sock.count + 1 }).heap
  have plain : Wp Tolerated (do
      let ret ← Network.Socket.sendMsg s content
      if !ret then
        refRelease s
      pure ret) (fun _ => Calm mood port held)
      { w with mgr := w.mgr.setSocket s { sock with count := sock.count + 1 } } :=
    queueFrame_kept calm present active (SequenceBuffer.writeMsg_ret _ _ _)
      fun _ whole => appends_writeMsg whole fits
  rw [bind_assoc, wp_bind, wp_deref there]
  split
  · exact plain
  · next udp =>
      split
      · have excess := calm.excess present udp active
        have sameOwed : owed (port.lane s)
            ((w.mgr.setSocket s { sock with count := sock.count + 1 }).view s) =
            owed (port.lane s) (w.mgr.view s) := by
          rw [(local_setSocket w.mgr s { sock with count := sock.count + 1 }).self]
          rfl
        refine (sendUDP_queued content excess there udp (by rw [sameOwed]; exact active)).seq ?_
        intro ret w' queued
        obtain ⟨sock', still, kind, rest⟩ := queued.still
        cases ret with
        | true => exact queued.calm
        | false =>
            refine (refRelease_refund queued.calm still (kind.trans udp) queued.active ?_).seq ?_
            · have bounded := ((calm.1.fair s).account sock present).bounded
              rw [rest]
              simp only [surplus, sameOwed]
              omega
            · intro _ _ released
              exact released
      · exact plain

theorem disconnect_safe : Safe (Calm mood port held) (Network.disconnect connIdx) := by
  intro w calm
  unfold Network.disconnect
  rw [wp_bind, wp_get]
  cases found : w.mgr.find connIdx with
  | none => exact calm
  | some s =>
      obtain ⟨sock, present, _⟩ := calm.1.found found
      have changed := local_setSocket w.mgr s { sock with count := sock.count + 1 }
      simp only [refAdd]
      rw [wp_bind, wp_updateSocket present]
      refine ⟨calm.1.push present changed .close ?_, calm.2⟩
      refine (calm.1.fair s).gain (calm.1.active_found found) present rfl rfl rfl ?_
      simp only [owed, View.refs, View.setSock, List.length_append, List.length_singleton]
      omega

/-! ## References of the loop -/

theorem hold_calm (calm : Calm mood port held w) (active : owed (port.lane s) (w.mgr.view s) ≠ 0) :
    Wp Tolerated (hold s) (fun _ w' => Calm mood port (s :: held) w' ∧
      w'.mgr.socketMap = w.mgr.socketMap) w := by
  obtain ⟨sock, present⟩ := calm.1.alive active
  simp only [hold, refAdd]
  rw [wp_bind, wp_updateSocket present, wp_modifyMgr]
  have view : ((w.mgr.setSocket s { sock with count := sock.count + 1 }).hold s).view =
      Function.update w.mgr.view s
        { (w.mgr.view s).setSock { sock with count := sock.count + 1 } with
          held := (w.mgr.view s).held + 1 } := by
    rw [hold_view, (local_setSocket _ _ _).view, Function.update_idem, Function.update_self]
    rfl
  refine ⟨⟨calm.1.here present view rfl rfl ?_, ?_⟩, rfl⟩
  · refine (calm.1.fair s).gain active present rfl rfl rfl ?_
    simp only [owed, View.refs, View.setSock]
    omega
  · change s :: w.mgr.held = s :: held
    rw [calm.2]

theorem unhold_calm (calm : Calm mood port held w) (mine : s ∈ held) :
    Wp Tolerated (unhold s) (fun _ w' => Calm mood port (held.erase s) w' ∧
      w'.mgr.socketMap = w.mgr.socketMap) w := by
  have holds : s ∈ w.mgr.held := by rw [calm.2]; exact mine
  obtain ⟨sock, present⟩ := calm.1.alive (active_held holds)
  unfold unhold
  rw [wp_bind, wp_modifyMgr]
  refine (refRelease_spec (by exact present)).mono ?_
  rintro _ w' ⟨_, rfl, released, _⟩
  have view : w'.mgr.view = Function.update w.mgr.view s
      ({ w.mgr.view s with held := (w.mgr.view s).held - 1 }.release sock) := by
    rw [released.view]
    simp only
    rw [unhold_view, Function.update_idem, Function.update_self]
  refine ⟨⟨calm.1.here present view released.socketMap released.nextRef ?_, ?_⟩,
    released.socketMap⟩
  · refine (calm.1.fair s).release present rfl rfl ?_
    have counted : 0 < (w.mgr.view s).held := List.count_pos_iff.mpr holds
    simp only [owed, View.refs]
    omega
  · rw [released.held, ← calm.2]
    rfl

theorem update_calm (curTime : UInt32) (calm : Calm mood port held w) (mine : s ∈ held) :
    Wp Tolerated (Network.Socket.update s curTime) (fun _ w' => Calm mood port held w' ∧
      w'.mgr.socketMap = w.mgr.socketMap) w := by
  have active : owed (port.lane s) (w.mgr.view s) ≠ 0 := active_held (by rw [calm.2]; exact mine)
  obtain ⟨sock, present⟩ := calm.1.alive active
  unfold Network.Socket.update
  rw [wp_bind, wp_deref present]
  split
  · next connected =>
      split
      · exact ⟨calm, rfl⟩
      · next kcp _ =>
          have rewired := calm.rewire present active (kcp.update curTime).1
          have there := (local_setSocket w.mgr s { sock with kcp := some (kcp.update curTime).1 }).heap
          rw [wp_bind, wp_updateSocket present]
          refine (sendUdpPackages_queued _ rewired.calm there connected.1 rewired.active).mono ?_
          intro _ w' queued
          exact ⟨queued.calm, queued.socketMap⟩
  · exact ⟨calm, rfl⟩

theorem updateAll_calm (curTime : UInt32) {entries : List (Nat × SockRef)}
    (calm : Calm mood port held w) (inside : ∀ entry ∈ entries, entry ∈ w.mgr.socketMap) :
    Wp Tolerated (updateAll curTime entries) (fun _ => Calm mood port held) w := by
  induction entries generalizing w with
  | nil => exact calm
  | cons entry rest inductionHypothesis =>
      obtain ⟨connIdx, s⟩ := entry
      have active : owed (port.lane s) (w.mgr.view s) ≠ 0 :=
        owed_pos_of_named (List.ne_nil_of_mem (mem_names (inside _ List.mem_cons_self)))
      rw [updateAll]
      refine (hold_calm calm active).seq ?_
      rintro _ w₁ ⟨calm₁, same₁⟩
      refine (update_calm curTime calm₁ List.mem_cons_self).seq ?_
      rintro _ w₂ ⟨calm₂, same₂⟩
      refine (unhold_calm calm₂ List.mem_cons_self).seq ?_
      rintro _ w₃ ⟨calm₃, same₃⟩
      rw [List.erase_cons_head] at calm₃
      refine inductionHypothesis calm₃ ?_
      intro other later
      rw [same₃, same₂, same₁]
      exact inside other (List.mem_cons_of_mem _ later)

end Frames

end CrossOver.Engine.Network.Iocp
