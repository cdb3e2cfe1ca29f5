import CrossOver.Engine.Network.Standing

/-!
# Scripts on sockets of both kinds

What a script may call keeps every socket in good standing, also when a handler
is busy with some of them, and it moves nothing of a socket that exists but its
count, its queued events and the messages its control block has taken.  A socket
that waits for its connect callback goes on to wait for it or hears it.  Nothing
is said here about the faults a call may end in.
-/

namespace CrossOver.Engine.Network

open CrossOver.Lib

/-- Whoever waits for a connect callback in the one manager waits for it in the
other, or has heard it. -/
def Answers (m m' : Mgr) : Prop :=
  ∀ s, (m.view s).standing.Answerable → (m'.view s).standing.Answerable

theorem Answers.refl (m : Mgr) : Answers m m := fun _ => id

theorem Answers.trans {m₁ m₂ m₃ : Mgr} (first : Answers m₁ m₂) (second : Answers m₂ m₃) :
    Answers m₁ m₃ := fun s answerable => second s (first s answerable)

/-- Each of the managers answers all that stand behind it. -/
def Lasting (managers : List Mgr) : Prop :=
  managers.Pairwise fun later earlier => Answers earlier later

/-- The manager from which the sockets are followed. -/
class Past where
  mgr : Mgr

/-- The points between steps so far. -/
structure Passed [Past] (w : World) : Prop where
  kept : ∀ point ∈ w.seen, ∃ busy, Kept busy point
  lasting : Lasting (w.seen ++ [Past.mgr])

abbrev anyFault [Past] : Fault → World → Prop := fun _ w => Passed w

structure Steady [Past] (busy : List SockRef) (w : World) : Prop where
  kept : Kept busy w.mgr
  passed : Passed w
  answers : ∀ earlier ∈ w.seen ++ [Past.mgr], Answers earlier w.mgr

/-- What a script leaves of a socket. -/
def Standing.Undisturbed (a a' : Standing) : Prop :=
  ∀ face, a.face = some face → ∃ count events taken, a' = a.recount face count events a.held taken

theorem Standing.Undisturbed.refl (a : Standing) : a.Undisturbed a := by
  intro face present
  refine ⟨face.count, a.events, a.taken, ?_⟩
  simp [Standing.recount, ← present]

theorem Standing.Undisturbed.trans {a₁ a₂ a₃ : Standing} (first : a₁.Undisturbed a₂)
    (second : a₂.Undisturbed a₃) : a₁.Undisturbed a₃ := by
  intro face present
  obtain ⟨_, _, _, rfl⟩ := first face present
  obtain ⟨count, events, taken, rfl⟩ := second _ rfl
  exact ⟨count, events, taken, rfl⟩

structure Leaves (w w' : World) : Prop where
  held : w'.mgr.held = w.mgr.held
  sockets : ∀ s, (w.mgr.view s).standing.Undisturbed (w'.mgr.view s).standing

theorem Leaves.refl (w : World) : Leaves w w := ⟨rfl, fun _ => .refl _⟩

theorem Leaves.trans {w₁ w₂ w₃ : World} (first : Leaves w₁ w₂) (second : Leaves w₂ w₃) :
    Leaves w₁ w₃ :=
  ⟨second.held.trans first.held, fun s => (first.sockets s).trans (second.sockets s)⟩

section Scripts

variable {busy : List SockRef} {w w' : World} {s : SockRef} {sock : Socket} {v : View}

theorem Passed.next [Past] (passed : Passed w) (course : w'.course = w.course) : Passed w' := by
  have seen : w'.seen = w.seen := congrArg Prod.fst course
  exact ⟨seen ▸ passed.kept, seen ▸ passed.lasting⟩

theorem Steady.next [Past] {busy' : List SockRef} (steady : Steady busy w)
    (course : w'.course = w.course) (kept : Kept busy' w'.mgr)
    (answers : Answers w.mgr w'.mgr) : Steady busy' w' := by
  have seen : w'.seen = w.seen := congrArg Prod.fst course
  refine ⟨kept, steady.passed.next course, ?_⟩
  rw [seen]
  exact fun earlier membership => (steady.answers earlier membership).trans answers

theorem Steady.marked [Past] (steady : Steady busy w) :
    Steady busy { w with seen := w.mgr :: w.seen } := by
  refine ⟨steady.kept, ⟨?_, List.pairwise_cons.mpr ⟨steady.answers, steady.passed.lasting⟩⟩, ?_⟩
  · intro point membership
    rcases List.mem_cons.mp membership with rfl | old
    · exact ⟨busy, steady.kept⟩
    · exact steady.passed.kept point old
  · intro earlier membership
    rcases List.mem_cons.mp membership with rfl | old
    · exact .refl _
    · exact steady.answers earlier old

theorem wp_deref_any [Past] (passed : Passed w) {post : Socket → World → Prop}
    (rest : ∀ sock, w.mgr.heap s = some sock → post sock w) :
    Wp anyFault (deref s) post w := by
  cases present : w.mgr.heap s with
  | none =>
      rw [deref, wp_bind, wp_get]
      simp only [present]
      exact passed
  | some sock => exact (wp_deref present).mpr (rest sock present)

theorem wp_updateSocket_any [Past] (passed : Passed w) {f : Socket → Socket}
    {post : Unit → World → Prop}
    (rest : ∀ sock, w.mgr.heap s = some sock →
      post () { w with mgr := w.mgr.setSocket s (f sock) }) :
    Wp anyFault (updateSocket s f) post w := by
  rw [updateSocket, wp_bind]
  exact wp_deref_any passed rest

/-- Only `s` has changed. -/
theorem Answers.of_update {m m' : Mgr} (view : m'.view = Function.update m.view s v)
    (answers : (m.view s).standing.Answerable → v.standing.Answerable) : Answers m m' := by
  intro other
  rw [view]
  by_cases here : other = s
  · subst here
    simpa using answers
  · rw [Function.update_of_ne here]
    exact id

/-- Only `s` has changed. -/
theorem Leaves.of_update (held : w'.mgr.held = w.mgr.held)
    (view : w'.mgr.view = Function.update w.mgr.view s v)
    (kept : (w.mgr.view s).standing.Undisturbed v.standing) : Leaves w w' := by
  refine ⟨held, ?_⟩
  intro other
  rw [view]
  by_cases here : other = s
  · subst here
    simpa using kept
  · rw [Function.update_of_ne here]
    exact .refl _

theorem Moved.steady [Past] (moved : Moved w w' s v) (steady : Steady busy w)
    (present : w.mgr.heap s = some sock) (good : v.standing.Good)
    (settled : s ∉ busy → v.standing.Settled)
    (answers : (w.mgr.view s).standing.Answerable → v.standing.Answerable) : Steady busy w' :=
  steady.next moved.seen (steady.kept.local present moved.mgr good settled)
    (.of_update moved.mgr.view answers)

/-- A change that the standing does not show. -/
theorem Moved.unshown [Past] (moved : Moved w w' s v) (steady : Steady busy w)
    (old : s < w.mgr.nextRef) (same : v.standing = (w.mgr.view s).standing) :
    Steady busy w' ∧ Leaves w w' := by
  refine ⟨steady.next moved.seen (steady.kept.at moved.mgr.view (same ▸ steady.kept.good s)
    (fun outside => same ▸ steady.kept.settled s outside) (fun _ outside => Or.inr outside)
    (moved.mgr.socketMap ▸ steady.kept.keys) moved.mgr.nextRef old)
    (.of_update moved.mgr.view (same ▸ id)), .of_update moved.mgr.held moved.mgr.view ?_⟩
  rw [same]
  exact .refl _

/-- The same for a change to an object. -/
theorem Moved.quietly [Past] (moved : Moved w w' s v) (steady : Steady busy w)
    (present : w.mgr.heap s = some sock) (same : v.standing = (w.mgr.view s).standing) :
    Steady busy w' ∧ Leaves w w' :=
  moved.unshown steady (steady.kept.allocated present) same

/-! ## Events and messages -/

/-- References have been taken or given back, and so have the reasons for them. -/
theorem Steady.recounted [Past] {count : Int} {events held taken : Nat} (steady : Steady busy w)
    (course : w'.course = w.course) (present : w.mgr.heap s = some sock)
    (view : w'.mgr.view = Function.update w.mgr.view s v)
    (socketMap : w'.mgr.socketMap = w.mgr.socketMap) (nextRef : w'.mgr.nextRef = w.mgr.nextRef)
    (shape : v.standing =
      (w.mgr.view s).standing.recount sock.face count events held taken)
    (counted : count + (w.mgr.view s).standing.events + (w.mgr.view s).standing.held +
      (w.mgr.view s).standing.taken = sock.count + events + held + taken)
    (used : 0 < count)
    (holds : (w.mgr.view s).standing.held ≠ 0 → held ≠ 0 ∨ (w.mgr.view s).standing.Settled) :
    Steady busy w' := by
  have face := Mgr.standing_face present
  have good := steady.kept.good s
  have account := good.counted _ face
  refine steady.next course (steady.kept.at view ?_ ?_ (fun _ outside => Or.inr outside)
    (socketMap ▸ steady.kept.keys) nextRef (steady.kept.allocated present)) (.of_update view ?_)
  · rw [shape]
    refine (good.toSound.recount face holds).good ?_
    rintro _ ⟨rfl⟩
    simp only [Standing.recount, Standing.refs, Socket.face] at account ⊢
    omega
  · intro outside
    rw [shape]
    exact (steady.kept.settled s outside).recount face
  · intro answerable
    rw [shape]
    exact answerable.recount face

/-- One more reference, and one more reason for it. -/
theorem Steady.gained [Past] {events taken : Nat} (steady : Steady busy w)
    (course : w'.course = w.course) (held : w'.mgr.held = w.mgr.held)
    (present : w.mgr.heap s = some sock)
    (view : w'.mgr.view = Function.update w.mgr.view s v)
    (socketMap : w'.mgr.socketMap = w.mgr.socketMap) (nextRef : w'.mgr.nextRef = w.mgr.nextRef)
    (shape : v.standing = (w.mgr.view s).standing.recount sock.face (sock.count + 1) events
      (w.mgr.view s).standing.held taken)
    (gained : events + taken =
      (w.mgr.view s).standing.events + (w.mgr.view s).standing.taken + 1) :
    Steady busy w' ∧ Leaves w w' := by
  have face := Mgr.standing_face present
  have account := (steady.kept.good s).counted _ face
  simp only [Socket.face] at account
  refine ⟨steady.recounted course present view socketMap nextRef shape (by omega) (by omega)
    Or.inl, .of_update held view ?_⟩
  rw [shape]
  intro other holds
  obtain rfl := Option.some.inj (face.symm.trans holds)
  exact ⟨_, _, _, rfl⟩

/-- An event is queued with a reference to its socket. -/
theorem Steady.queued [Past] {m : Mgr} {event : SocketIOEvent} {w₀ : World} (steady : Steady busy w)
    (course : w₀.course = w.course) (present : w.mgr.heap s = some sock)
    (changed : Local w.mgr m s v)
    (counted : v.standing = { (w.mgr.view s).standing with
      face := some { sock.face with count := sock.count + 1 } }) :
    Steady busy { w₀ with mgr := m.push { customizedEvents := event, s := s } } ∧
      Leaves w { w₀ with mgr := m.push { customizedEvents := event, s := s } } := by
  have view : (m.push { customizedEvents := event, s := s }).view =
      Function.update w.mgr.view s { v with events := v.events ++ [event] } := by
    rw [push_view, changed.view, Function.update_self, Function.update_idem]
  have shape : View.standing { v with events := v.events ++ [event] } =
      (w.mgr.view s).standing.recount sock.face (sock.count + 1)
        ((w.mgr.view s).standing.events + 1) (w.mgr.view s).standing.held
        (w.mgr.view s).standing.taken := by
    have events : v.events.length = (w.mgr.view s).standing.events :=
      congrArg Standing.events counted
    have same : View.standing { v with events := v.events ++ [event] } =
        { v.standing with events := v.events.length + 1 } := by
      simp [View.standing, View.trace]
    rw [same, events, counted]
    rfl
  exact steady.gained course changed.held present view changed.socketMap changed.nextRef shape
    (by omega)

theorem disconnect_any [Past] (steady : Steady busy w) (connIdx : Nat) :
    Wp anyFault (disconnect connIdx) (fun _ w' => Steady busy w' ∧ Leaves w w') w := by
  unfold disconnect
  rw [wp_bind, wp_get]
  cases found : w.mgr.find connIdx with
  | none => exact ⟨steady, .refl w⟩
  | some s =>
      obtain ⟨sock, present, _, _⟩ := steady.kept.found (Mgr.find_mem found)
      simp only [refAdd]
      rw [wp_bind, wp_updateSocket present]
      exact steady.queued rfl present
        (local_setSocket w.mgr s { sock with count := sock.count + 1 }) rfl

/-- `Send` and `SendMsg` of the socket, once the reference has been taken. -/
theorem queueFrame_any [Past] (steady : Steady busy w) (present : w.mgr.heap s = some sock)
    {frame : Bytes} {write : SequenceBuffer → Bool × SequenceBuffer}
    (accepts : ∀ writeBuffer, (write writeBuffer).1 = true) :
    Wp anyFault (Socket.queueFrame s frame write)
      (fun ret w' => ret = true ∧ Steady busy w' ∧ Leaves w w')
      { w with mgr := w.mgr.setSocket s { sock with count := sock.count + 1 } } := by
  have counted := local_setSocket w.mgr s { sock with count := sock.count + 1 }
  have written := counted.setSocket
    { sock with count := sock.count + 1, writeBuffer := (write sock.writeBuffer).2 }
  have about : LogEntry.subject (.queued s sock.status frame) = some s := rfl
  have recorded := written.trans (local_record _ about)
  rw [written.self] at recorded
  unfold Socket.queueFrame
  rw [wp_bind, wp_deref counted.heap]
  simp only [accepts]
  rw [wp_bind, wp_updateSocket counted.heap, wp_bind, wp_record]
  simp only [if_true]
  rw [wp_bind, wp_modifyMgr, wp_pure]
  refine ⟨rfl, steady.queued rfl present recorded ?_⟩
  rw [View.standing_remark _ rfl rfl rfl rfl]
  rfl

theorem queueMsg_any [Past] (steady : Steady busy w) (present : w.mgr.heap s = some sock)
    (buff : Bytes) :
    Wp anyFault (Socket.sendMsg s buff) (fun ret w' => ret = true ∧ Steady busy w' ∧ Leaves w w')
      { w with mgr := w.mgr.setSocket s { sock with count := sock.count + 1 } } :=
  queueFrame_any steady present fun writeBuffer =>
    SequenceBuffer.writeMsg_ret writeBuffer (leBytes 4 buff.length) buff

/-- Every packet takes a reference that its event gives back. -/
theorem sendUdpPackages_any [Past] (packets : List Bytes) (steady : Steady busy w) :
    Wp anyFault (Socket.sendUdpPackages s packets)
      (fun _ w' => Steady busy w' ∧ Leaves w w') w := by
  induction packets generalizing w with
  | nil => exact ⟨steady, .refl w⟩
  | cons packet rest inductionHypothesis =>
      rw [Socket.sendUdpPackages, refAdd, wp_bind]
      refine wp_updateSocket_any steady.passed ?_
      intro sock present
      refine (queueMsg_any steady present packet).seq ?_
      rintro _ w₁ ⟨_, steady₁, left⟩
      refine (inductionHypothesis steady₁).mono ?_
      rintro _ w₂ ⟨steady₂, later⟩
      exact ⟨steady₂, left.trans later⟩

/-- The socket has a reference more than there is a reason for. -/
def Owing (s : SockRef) (sock : Socket) (w w' : World) : Prop :=
  ∃ after : Socket, Moved w w' s ((w.mgr.view s).setSock after) ∧
    after.face = { sock.face with count := sock.count + 1 }

/-- The reference taken for a message stays as long as the message counts. -/
def Delivered [Past] (busy : List SockRef) (s : SockRef) (sock : Socket) (w : World) (ret : Bool)
    (w' : World) : Prop :=
  ret = true ∧ Steady busy w' ∧ Leaves w w' ∨ ret = false ∧ Owing s sock w w'

theorem kcpSend_refused {kcp : Ikcp.Kcp} {buff : Bytes} (refused : ¬(kcp.send buff).2.1 ≥ 0) :
    (kcp.send buff).2.2 = [] := by
  unfold Ikcp.Kcp.send at refused ⊢
  dsimp only at refused ⊢
  split at refused
  · next many => rw [if_pos many]
  · exact absurd (le_refl _) refused

theorem sendUDP_any [Past] (steady : Steady busy w) (present : w.mgr.heap s = some sock)
    (buff : Bytes) :
    Wp anyFault (Socket.sendUDP s buff) (Delivered busy s sock w)
      { w with mgr := w.mgr.setSocket s { sock with count := sock.count + 1 } } := by
  have counted := moved_setSocket w s { sock with count := sock.count + 1 }
  unfold Socket.sendUDP
  rw [wp_bind, wp_deref counted.mgr.heap]
  dsimp only
  split
  · exact steady.passed.next rfl
  · next kcp block =>
      split
      · exact Or.inr ⟨rfl, _, counted, rfl⟩
      · have loaded := counted.setSocket
          { sock with count := sock.count + 1, kcp := some (kcp.send buff).1 }
        rw [View.setSock_setSock] at loaded
        rw [wp_bind, wp_updateSocket counted.mgr.heap, wp_bind, wp_recordIf]
        by_cases taken : (kcp.send buff).2.1 ≥ 0
        · have about : LogEntry.subject (.taken s) = some s := rfl
          have noted := loaded.record about
          have shape : (((w.mgr.view s).setSock { sock with
              count := sock.count + 1, kcp := some (kcp.send buff).1 }).note (.taken s)).standing =
              (w.mgr.view s).standing.recount sock.face (sock.count + 1)
                (w.mgr.view s).standing.events (w.mgr.view s).standing.held
                ((w.mgr.view s).standing.taken + 1) := by
            rw [View.standing_note]
            simp [Standing.recount, LogEntry.callback, LogEntry.isTaken, LogEntry.isHalfOpen,
              LogEntry.isEvicted, Socket.face]
          obtain ⟨sound, left⟩ := steady.gained noted.seen noted.mgr.held present noted.mgr.view
            noted.mgr.socketMap noted.mgr.nextRef shape (by omega)
          rw [if_pos taken]
          refine (sendUdpPackages_any _ sound).seq ?_
          rintro _ w₁ ⟨steady₁, later⟩
          exact Or.inl ⟨decide_eq_true taken, steady₁, left.trans later⟩
        · rw [if_neg taken, kcpSend_refused taken, Socket.sendUdpPackages, wp_bind, wp_pure, wp_pure]
          exact Or.inr ⟨decide_eq_false taken, _, loaded, rfl⟩

/-- A message that was not sent gives its reference back. -/
theorem Owing.released [Past] {w₁ : World} (owing : Owing s sock w w₁) (steady : Steady busy w)
    (present : w.mgr.heap s = some sock) :
    Wp anyFault (refRelease s) (fun _ w' => Steady busy w' ∧ Leaves w w') w₁ := by
  obtain ⟨after, moved, shown⟩ := owing
  have face := Mgr.standing_face present
  have account := (steady.kept.good s).counted _ face
  refine (refRelease_spec moved.mgr.heap).mono ?_
  rintro _ w' ⟨_, rfl, released, course⟩
  rw [moved.mgr.self] at released
  have total : Moved w w' s _ := ⟨moved.mgr.trans released, course.trans moved.seen⟩
  have same : (((w.mgr.view s).setSock after).release after).standing =
      (w.mgr.view s).standing := by
    have remains : sock.count + 1 - 1 ≠ 0 := by
      simp only [Socket.face] at account
      omega
    have back : { sock.face with count := sock.count + 1 - 1 } = sock.face := by
      simp [Socket.face]
    rw [View.release_standing, View.standing_setSock, shown, Standing.release]
    simp only [if_neg remains, back, ← face]
  exact total.quietly steady present same

theorem sendThrough_any [Past] (steady : Steady busy w) (connIdx : Nat) {sendTo : SockRef → M Bool}
    (sends : ∀ s sock, w.mgr.heap s = some sock →
      Wp anyFault (sendTo s) (Delivered busy s sock w)
        { w with mgr := w.mgr.setSocket s { sock with count := sock.count + 1 } }) :
    Wp anyFault (sendThrough connIdx sendTo) (fun _ w' => Steady busy w' ∧ Leaves w w') w := by
  unfold sendThrough
  rw [wp_bind, wp_get]
  cases found : w.mgr.find connIdx with
  | none => exact ⟨steady, .refl w⟩
  | some s =>
      obtain ⟨sock, present, _, _⟩ := steady.kept.found (Mgr.find_mem found)
      simp only [refAdd]
      rw [wp_bind, wp_updateSocket present]
      refine (sends s sock present).seq ?_
      rintro ret w₁ (⟨rfl, done⟩ | ⟨rfl, owing⟩)
      · exact done
      · exact (owing.released steady present).seq fun _ _ done => done

theorem send_any [Past] (steady : Steady busy w) (connIdx : Nat) (content : Bytes) :
    Wp anyFault (send connIdx content) (fun _ w' => Steady busy w' ∧ Leaves w w') w := by
  refine sendThrough_any steady connIdx ?_
  intro s sock present
  refine (queueFrame_any steady present fun writeBuffer =>
    SequenceBuffer.write_ret writeBuffer content).mono ?_
  rintro ret w' done
  exact Or.inl done

theorem sendMsg_any [Past] (steady : Steady busy w) (connIdx : Nat) (content : Bytes) :
    Wp anyFault (sendMsg connIdx content) (fun _ w' => Steady busy w' ∧ Leaves w w') w := by
  refine sendThrough_any steady connIdx ?_
  intro s sock present
  have queued : Wp anyFault (Socket.sendMsg s content) (Delivered busy s sock w)
      { w with mgr := w.mgr.setSocket s { sock with count := sock.count + 1 } } :=
    (queueMsg_any steady present content).mono fun _ _ done => Or.inl done
  rw [wp_bind, wp_deref (local_setSocket w.mgr s { sock with count := sock.count + 1 }).heap]
  split
  · exact queued
  · split
    · exact sendUDP_any steady present content
    · exact queued

/-! ## New sockets -/

/-- The next reference has come into the map as `sock`. -/
def Arrives (w w' : World) (sock : Socket) (trace : List Callback) : Prop :=
  ∃ v registered, Enrolled w.mgr w'.mgr sock.connIdx v ∧ w'.course = w.course ∧
    v.sock = some sock ∧ v.standing = (Standing.newborn sock.face trace).register registered

section Arrives

variable {trace : List Callback}

theorem Arrives.present (arrives : Arrives w w' sock trace) :
    w'.mgr.heap w.mgr.nextRef = some sock := by
  obtain ⟨v, _, enrolled, _, present, _⟩ := arrives
  exact (congrArg View.sock enrolled.self).trans present

theorem Arrives.update (arrives : Arrives w w' sock trace) {after : Socket}
    (key : after.connIdx = sock.connIdx) :
    Arrives w { w' with mgr := w'.mgr.setSocket w.mgr.nextRef after } after trace := by
  obtain ⟨v, registered, enrolled, course, present, shape⟩ := arrives
  refine ⟨v.setSock after, registered, ?_, course, rfl, ?_⟩
  · rw [key]
    exact enrolled.update after
  · rw [View.standing_setSock, shape]
    simp [Standing.newborn, Standing.register, Socket.face, key]

theorem Arrives.record (arrives : Arrives w w' sock trace) {entry : LogEntry}
    (about : entry.subject = some w.mgr.nextRef) (free : entry.isTaken = false)
    (harmless : entry.isHalfOpen = false) (stays : entry.isEvicted = false) :
    Arrives w { w' with mgr := w'.mgr.record entry } sock (trace ++ entry.callback.toList) := by
  obtain ⟨v, registered, enrolled, course, present, shape⟩ := arrives
  refine ⟨v.note entry, registered, enrolled.note about, course, present, ?_⟩
  rw [View.standing_note, shape, free, harmless, stays]
  cases registered <;> rfl

theorem Arrives.closeDescriptor (arrives : Arrives w w' sock trace) :
    Arrives w { w' with mgr := w'.mgr.setInterest w.mgr.nextRef none } sock trace := by
  obtain ⟨v, _, enrolled, course, present, shape⟩ := arrives
  have changed := enrolled.then (local_setInterest w'.mgr w.mgr.nextRef none)
  rw [enrolled.self] at changed
  have left : View.standing { v with interest := none } =
      v.standing.register (v.log.any LogEntry.isEvicted) := rfl
  exact ⟨_, _, changed, course, present, by rw [left, shape]; rfl⟩

theorem Arrives.epollCtlAdd_any [Past] (arrives : Arrives w w' sock trace) (interest : Interest) :
    Wp anyFault (epollCtlAdd w.mgr.nextRef interest) (fun _ w₁ => Arrives w w₁ sock trace) w' := by
  obtain ⟨v, registered, enrolled, course, present, shape⟩ := arrives
  have joined : View.standing { v with interest := some interest } = v.standing.register true := rfl
  refine (epollCtlAdd_spec w' enrolled interest).mono ?_
  rintro _ w₁ ⟨seen, ⟨_, added⟩ | ⟨_, refused⟩⟩
  · exact ⟨_, true, added, seen.trans course, present, by rw [joined, shape]; rfl⟩
  · exact ⟨_, registered, refused, seen.trans course, present, shape⟩

/-- A fresh object enters the map. -/
theorem addSocket_any [Past] {auto : Nat} {w₁ : World}
    (made : Local (w.mgr.bump auto) w₁.mgr w.mgr.nextRef (View.blank.setSock sock))
    (course : w₁.course = w.course) (missing : w.mgr.find sock.connIdx = none) :
    Wp anyFault (addSocket w.mgr.nextRef)
      (fun _ w₂ => Arrives w w₂ { sock with count := sock.count + 1 } []) w₁ := by
  refine (addSocket_spec made missing).mono ?_
  rintro _ w₂ ⟨seen, enrolled⟩
  exact ⟨_, false, enrolled, seen.trans course, rfl, rfl⟩

theorem Arrives.leaves [Past] (arrives : Arrives w w' sock trace) (steady : Steady busy w) :
    Leaves w w' := by
  obtain ⟨v, _, enrolled, _⟩ := arrives
  refine ⟨enrolled.held, ?_⟩
  intro other face holds
  have different : other ≠ w.mgr.nextRef := by
    rintro rfl
    rw [steady.kept.fresh _ le_rfl] at holds
    simp [View.standing, View.blank] at holds
  rw [enrolled.view, Function.update_of_ne different]
  exact Standing.Undisturbed.refl _ face holds

theorem Arrives.steady [Past] {busy' : List SockRef} (arrives : Arrives w w' sock trace)
    (steady : Steady busy w) (missing : w.mgr.find sock.connIdx = none)
    (good : (Standing.newborn sock.face trace).Good)
    (settled : w.mgr.nextRef ∉ busy' → (Standing.newborn sock.face trace).Settled)
    (others : ∀ t, t ∉ busy' → t = w.mgr.nextRef ∨ t ∉ busy) : Steady busy' w' := by
  obtain ⟨v, registered, enrolled, course, _, shape⟩ := arrives
  refine steady.next course ((steady.kept.bump w.mgr.autoConnIdx).at enrolled.view
    (shape ▸ good.register registered)
    (fun outside => shape ▸ (settled outside).register registered) others ?_ enrolled.nextRef
    (Nat.lt_succ_self _)) (.of_update enrolled.view ?_)
  · rw [enrolled.socketMap, List.map_append]
    exact List.Nodup.append steady.kept.keys (List.nodup_singleton _)
      (by simpa using Mgr.find_none missing)
  · rw [steady.kept.fresh _ le_rfl]
    exact fun answerable => absurd answerable blank_unanswerable

/-- A new connection whose peer is known has been reported. -/
theorem Arrives.greeted [Past] (arrives : Arrives w w' sock [.connect true])
    (steady : Steady busy w) (missing : w.mgr.find sock.connIdx = none) (count : sock.count = 1)
    (joined : ¬sock.face.halfOpen) (parses : sock.socketType = .udp → sock.isParsePackage = true)
    (connected : sock.status = .connected) : Steady busy w' := by
  have status : sock.face.status = .connected := connected
  have talking : (Standing.newborn sock.face [.connect true]).Stage sock.face := by
    simp only [Standing.Stage, status]
    exact Or.inr ⟨joined, [], rfl⟩
  exact arrives.steady steady missing (newborn_good count parses talking (by simp [status]))
    (fun _ => newborn_settled (by simp [status]) (by simp [status]))
    (fun _ outside => Or.inr outside)

end Arrives

/-- A new object that is deleted at once. -/
theorem Steady.discard [Past] {auto : Nat} (steady : Steady busy w)
    (deleted : Local (w.mgr.bump auto) w'.mgr w.mgr.nextRef .blank)
    (course : w'.course = w.course) :
    Steady busy w' ∧ Leaves w w' := by
  have fresh : (w.mgr.bump auto).view w.mgr.nextRef = .blank := steady.kept.fresh _ le_rfl
  have view : w'.mgr.view = w.mgr.view := by
    rw [deleted.view, ← fresh, Function.update_eq_self]
    rfl
  refine ⟨steady.next course ⟨?_, ?_, ?_, ?_⟩ ?_, deleted.held, ?_⟩
  · rw [deleted.socketMap]
    exact steady.kept.keys
  · intro s large
    rw [deleted.nextRef] at large
    rw [view]
    exact steady.kept.fresh s (Nat.le_of_succ_le large)
  · rw [view]
    exact steady.kept.good
  · rw [view]
    exact steady.kept.settled
  · intro s
    rw [view]
    exact id
  · intro s
    rw [view]
    exact .refl _

theorem connectEx_any [Past] (steady : Steady busy w) (config : Config) (outcome : ConnectOutcome) :
    Wp anyFault (connectEx config outcome) (fun _ w' => Steady busy w' ∧ Leaves w w') w := by
  unfold connectEx
  apply wp_new steady.passed
  intro connIdx auto missing
  have kind : (newSocket .tcp 0 connIdx config).socketType = .tcp := rfl
  have unheld : (newSocket .tcp 0 connIdx config).count = 0 := rfl
  have key : (newSocket .tcp 0 connIdx config).connIdx = connIdx := rfl
  generalize newSocket .tcp 0 connIdx config = sock at kind unheld key ⊢
  subst key
  have subject : LogEntry.subject (.registered w.mgr.nextRef config.onconnectedHandler
    config.onrecvHandler config.oncloseHandler) = none := rfl
  have made := (local_new (steady.kept.fresh _ le_rfl) auto sock).silent subject
  have connecting := made.setSocket { sock with status := .connecting }
  rw [View.setSock_setSock] at connecting
  rw [wp_bind, wp_record, wp_bind, wp_updateSocket made.heap]
  by_cases pending : outcome = .minusOne
  · have done : ∀ w₁, Arrives w w₁ { sock with status := .connecting, count := sock.count + 1 } [] →
        Steady busy w₁ ∧ Leaves w w₁ := by
      intro w₁ arrives
      refine ⟨arrives.steady steady missing ?_ ?_ (fun _ outside => Or.inr outside),
        arrives.leaves steady⟩
      · refine newborn_good ?_ ?_ ⟨kind, Or.inl rfl⟩ (by simp [Socket.face])
        · simp [Socket.face, unheld]
        · simp [Socket.face, kind]
      · exact fun _ => newborn_settled (fun _ => rfl) (by simp [Socket.face])
    simp only [pending, if_true]
    rw [wp_bind]
    refine (addSocket_any connecting (by rfl) (by exact missing)).mono ?_
    intro _ w₁ arrives
    rw [wp_bind]
    refine (arrives.epollCtlAdd_any _).mono ?_
    intro accepted w₂ arrives₂
    cases accepted with
    | true => exact done w₂ arrives₂
    | false =>
        have about : LogEntry.subject (.epollError w.mgr.nextRef) = some w.mgr.nextRef := rfl
        exact done _ (arrives₂.record about rfl rfl rfl)
  · simp only [pending, if_false]
    rw [wp_bind]
    refine (delete_spec connecting.heap).mono ?_
    rintro _ w' ⟨v', rfl, deleted, course⟩
    have gone := connecting.trans deleted
    rw [connecting.self] at gone
    exact steady.discard gone course

/-! ## Callbacks -/

/-- What a callback may do. -/
def Harmless [Past] (script : M Unit) : Prop :=
  ∀ busy w, Steady busy w → Wp anyFault script (fun _ w' => Steady busy w' ∧ Leaves w w') w

theorem Leaves.alive (left : Leaves w w') (present : w.mgr.heap s = some sock) :
    ∃ after count events taken, w'.mgr.heap s = some after ∧
      after.face = { sock.face with count := count } ∧
      (w'.mgr.view s).standing = (w.mgr.view s).standing.recount sock.face count events
        (w.mgr.view s).standing.held taken := by
  obtain ⟨count, events, taken, shape⟩ := left.sockets s _ (Mgr.standing_face present)
  have holds := congrArg Standing.face shape
  obtain ⟨after, alive, face⟩ := Option.map_eq_some_iff.mp holds
  exact ⟨after, count, events, taken, alive, face, shape⟩

section Callbacks

variable [Past] {script : M Unit} (harmless : Harmless script)

include harmless

theorem runTask_any (handle : HandleInfo) {task : LogEntry}
    (steady : Steady busy { w with mgr := w.mgr.record task }) :
    Wp anyFault (runTask script handle task)
      (fun _ w' => Steady busy w' ∧ Leaves { w with mgr := w.mgr.record task } w') w := by
  unfold runTask
  rw [wp_bind, wp_record]
  split
  · exact harmless _ _ steady
  · exact ⟨steady, .refl _⟩

theorem runConnectTask_any (present : w.mgr.heap s = some sock) {isSuccess : Bool}
    (steady : Steady busy
      { w with mgr := w.mgr.record (.connectTask s sock.connIdx isSuccess) }) :
    Wp anyFault (runConnectTask script s isSuccess) (fun _ w' => Steady busy w' ∧
      Leaves { w with mgr := w.mgr.record (.connectTask s sock.connIdx isSuccess) } w') w := by
  rw [runConnectTask, wp_bind, wp_deref present]
  exact runTask_any harmless _ steady

end Callbacks

theorem others_busy (s : SockRef) (busy : List SockRef) :
    ∀ t, t ∉ busy → t = s ∨ t ∉ s :: busy := by
  intro t outside
  by_cases here : t = s
  · exact Or.inl here
  · exact Or.inr (by simp [here, outside])

/-- If the object is still there, it is closed. -/
def Shut (s : SockRef) (w : World) : Prop :=
  ∀ after, w.mgr.heap s = some after → after.status = .closed

theorem shut_of_release (view : w'.mgr.view s = v.release sock) (closed : sock.status = .closed) :
    Shut s w' := by
  intro after present
  have alive : (v.release sock).sock = some after := by
    rw [← view]
    exact present
  unfold View.release at alive
  dsimp only at alive
  split at alive
  · exact absurd alive (by simp)
  · rw [← Option.some.inj alive]
    exact closed

/-- What `RemoveSocket` does behind `epoll_ctl`. -/
theorem dropSocket_any [Past] {busy' : List SockRef} (steady : Steady busy' w)
    (present : w.mgr.heap s = some sock) (closed : sock.status = .closed)
    (named : (w.mgr.view s).names ≠ []) (others : ∀ t, t ∉ busy → t = s ∨ t ∉ busy')
    {w₁ : World} {registered : Bool} (moved : Moved w w₁ s v)
    (same : v.standing = (w.mgr.view s).standing.register registered)
    (holds : v.sock = some sock) :
    Wp anyFault (do
      refRelease s
      modifyMgr fun m => m.erase sock.connIdx) (fun _ w' => Steady busy w' ∧ Shut s w' ∧
        w'.mgr.held = w.mgr.held ∧ ∃ v, w'.mgr.view = Function.update w.mgr.view s v ∧
          v.trace = (w.mgr.view s).trace) w₁ := by
  have known := steady.kept.find_named present named
  have inside := Mgr.find_mem known
  obtain ⟨_, _, _, names⟩ := steady.kept.found inside
  have face := Mgr.standing_face present
  have called : v.names = [sock.connIdx] := (congrArg Standing.names same).trans names
  refine (dropEntry_spec steady.kept.keys moved holds called inside).mono ?_
  rintro _ w' ⟨view, keys, nextRef, turn, course⟩
  have shape : ({ v with names := [] }.release sock).standing =
      ({ (w.mgr.view s).standing.register registered with names := [] }).release sock.face := by
    rw [View.release_standing, ← same]
    rfl
  obtain ⟨good, settled⟩ := ((steady.kept.good s).register registered).leave face closed
    (by change (w.mgr.view s).names ≠ []; simp [names])
  have answers : (w.mgr.view s).standing.Answerable →
      ({ v with names := [] }.release sock).standing.Answerable := by
    intro answerable
    rw [shape]
    exact (answerable.register (answerable.heard face (by simp [Socket.face, closed])) _).leave
      face closed
  rw [← shape] at good settled
  have shut : Shut s w' := shut_of_release (by rw [view, Function.update_self]) closed
  exact ⟨steady.next course (steady.kept.at view good (fun _ => settled) others keys nextRef
    (steady.kept.allocated present)) (.of_update view answers), shut, turn.held, _, view,
    congrArg Standing.trace same⟩

theorem removeSocket_any [Past] {busy' : List SockRef} (steady : Steady busy' w)
    (present : w.mgr.heap s = some sock) (closed : sock.status = .closed)
    (named : (w.mgr.view s).names ≠ []) (others : ∀ t, t ∉ busy → t = s ∨ t ∉ busy') :
    Wp anyFault (removeSocket sock.connIdx) (fun _ w' => Steady busy w' ∧ Shut s w' ∧
      w'.mgr.held = w.mgr.held ∧ ∃ v, w'.mgr.view = Function.update w.mgr.view s v ∧
        v.trace = (w.mgr.view s).trace) w := by
  have known := steady.kept.find_named present named
  rw [removeSocket, wp_bind, wp_get]
  simp only [known]
  rw [wp_bind]
  refine (epollCtl_spec s true none).mono ?_
  rintro accepted w₁ ⟨course, ⟨rfl, _, mgr⟩ | ⟨rfl, mgr⟩⟩
  · have forgotten : Moved w w₁ s { w.mgr.view s with interest := none } :=
      ⟨by rw [mgr]; exact local_setInterest _ _ _, course⟩
    exact dropSocket_any steady present closed named others forgotten rfl present
  · have about : LogEntry.subject (.epollError s) = some s := rfl
    have told : Moved w w₁ s (w.mgr.view s) := ⟨by rw [mgr]; exact .refl _ _, course⟩
    exact dropSocket_any steady present closed named others (told.record about)
      (View.standing_remark _ rfl rfl rfl rfl) present

/-! ## Numbers of closed descriptors -/

theorem heirOf_spec {allowed : Fault → World → Prop} (s : SockRef) :
    Wp allowed (heirOf s) (fun heir w' => w'.course = w.course ∧
      (heir = none ∧ w'.mgr = w.mgr ∨ ∃ t, heir = some t ∧ s < t ∧
        (w.mgr.interest t).isSome = true ∧ w'.mgr = w.mgr.record (.evicted t))) w := by
  unfold heirOf
  rw [wp_bind, wp_get, wp_bind, wp_modify]
  split
  · exact ⟨rfl, Or.inl ⟨rfl, rfl⟩⟩
  · next t chosen =>
      split
      · next fits =>
          rw [wp_bind, wp_record]
          exact ⟨rfl, Or.inr ⟨t, rfl, fits.1, fits.2, rfl⟩⟩
      · exact ⟨rfl, Or.inl ⟨rfl, rfl⟩⟩

theorem Kept.made {m : Mgr} (kept : Kept busy m) (registered : (m.interest s).isSome = true) :
    s < m.nextRef := by
  by_contra large
  have blank := congrArg View.interest (kept.fresh s (Nat.le_of_not_lt large))
  change m.interest s = none at blank
  rw [blank] at registered
  cases registered

/-- `epoll_ctl` for another socket, which is no loss that its standing shows. -/
theorem evict_any [Past] {t : SockRef} (steady : Steady busy w)
    (registered : (w.mgr.interest t).isSome = true) {w₁ : World} (course : w₁.course = w.course)
    (mgr : w₁.mgr = w.mgr.record (.evicted t)) :
    Wp anyFault (epollCtlDel t) (fun _ w' => Steady busy w' ∧ w'.mgr.held = w.mgr.held ∧
      w'.mgr.socketMap = w.mgr.socketMap ∧ (∀ o, o ≠ t → w'.mgr.view o = w.mgr.view o) ∧
      (w'.mgr.view t).standing = (w.mgr.view t).standing) w₁ := by
  have about : LogEntry.subject (.evicted t) = some t := rfl
  have noted : Moved w w₁ t ((w.mgr.view t).note (.evicted t)) :=
    ⟨by rw [mgr]; exact local_record _ about, course⟩
  have shown : (w.mgr.view t).standing.registered = true := by
    change ((w.mgr.interest t).isSome || _) = true
    rw [registered, Bool.true_or]
  have same : ((w.mgr.view t).note (.evicted t)).standing = (w.mgr.view t).standing := by
    rw [View.standing_note, shown, Bool.true_or]
    simp only [LogEntry.callback, Option.toList_none, List.append_nil, LogEntry.isTaken,
      LogEntry.isHalfOpen, Bool.false_eq_true, if_false, Nat.add_zero, Bool.or_false]
    rw [← shown]
  have old := steady.kept.made registered
  refine (epollCtl_spec t true none).mono ?_
  rintro accepted w₂ ⟨course₂, ⟨rfl, _, mgr₂⟩ | ⟨rfl, mgr₂⟩⟩
  · have gone : Moved w w₂ t { (w.mgr.view t).note (.evicted t) with interest := none } := by
      have next := noted.mgr.trans (local_setInterest w₁.mgr t none)
      rw [noted.mgr.self, ← mgr₂] at next
      exact ⟨next, course₂.trans course⟩
    have hidden : View.standing { (w.mgr.view t).note (.evicted t) with interest := none } =
        (w.mgr.view t).standing := by
      have evicted : ((w.mgr.view t).note (.evicted t)).log.any LogEntry.isEvicted = true := by
        simp [View.note, LogEntry.isEvicted]
      have left : View.standing { (w.mgr.view t).note (.evicted t) with interest := none } =
          ((w.mgr.view t).note (.evicted t)).standing.register
            (((w.mgr.view t).note (.evicted t)).log.any LogEntry.isEvicted) := rfl
      rw [left, same, evicted, ← shown]
      rfl
    refine ⟨(gone.unshown steady old hidden).1, gone.mgr.held, gone.mgr.socketMap, ?_, ?_⟩
    · intro o other
      rw [gone.mgr.view, Function.update_of_ne other]
    · rw [gone.mgr.self, hidden]
  · have told : Moved w w₂ t ((w.mgr.view t).note (.evicted t)) :=
      ⟨by rw [mgr₂]; exact noted.mgr, course₂.trans course⟩
    refine ⟨(told.unshown steady old same).1, told.mgr.held, told.mgr.socketMap, ?_, ?_⟩
    · intro o other
      rw [told.mgr.view, Function.update_of_ne other]
    · rw [told.mgr.self, same]

/-- The same for a socket whose descriptor has been closed before. -/
theorem removeReused_any [Past] {busy' : List SockRef} (steady : Steady busy' w)
    (present : w.mgr.heap s = some sock) (closed : sock.status = .closed)
    (named : (w.mgr.view s).names ≠ []) (others : ∀ t, t ∉ busy → t = s ∨ t ∉ busy') :
    Wp anyFault (do removeSocket sock.connIdx (← heirOf s)) (fun _ w' => Steady busy w' ∧
      w'.mgr.held = w.mgr.held ∧ ∀ t, t ≠ s →
        (w.mgr.view t).standing.Undisturbed (w'.mgr.view t).standing) w := by
  have known := steady.kept.find_named present named
  rw [wp_bind]
  refine (heirOf_spec s).mono ?_
  rintro heir w₁ ⟨course, ⟨rfl, mgr⟩ | ⟨t, rfl, later, registered, mgr⟩⟩
  · have idle : Moved w w₁ s (w.mgr.view s) := ⟨by rw [mgr]; exact .refl _ _, course⟩
    have steady₁ := (idle.quietly steady present rfl).1
    rw [← mgr] at present named
    refine (removeSocket_any steady₁ present closed named others).mono ?_
    rintro _ w₂ ⟨steady₂, _, held, v, view, _⟩
    refine ⟨steady₂, held.trans idle.mgr.held, fun t other => ?_⟩
    rw [view, Function.update_of_ne other, mgr]
    exact .refl _
  · have different : s ≠ t := Nat.ne_of_lt later
    have find : w₁.mgr.find sock.connIdx = some s := by
      rw [mgr]
      exact known
    rw [removeSocket, wp_bind, wp_get]
    simp only [find]
    rw [wp_bind]
    refine (evict_any steady registered course mgr).mono ?_
    rintro accepted w₂ ⟨steady₂, held, socketMap, rest, heard⟩
    have view := rest s different
    have present₂ : w₂.mgr.heap s = some sock := (congrArg View.sock view).trans present
    rw [← view] at named
    have drops : ∀ w₃ v registered, Moved w₂ w₃ s v →
        v.standing = (w₂.mgr.view s).standing.register registered → v.sock = some sock →
        Wp anyFault (do
          refRelease s
          modifyMgr fun m => m.erase sock.connIdx) (fun _ w' => Steady busy w' ∧
            w'.mgr.held = w.mgr.held ∧ ∀ t, t ≠ s →
              (w.mgr.view t).standing.Undisturbed (w'.mgr.view t).standing) w₃ := by
      intro w₃ v registered moved same holds
      refine (dropSocket_any steady₂ present₂ closed named others moved same holds).mono ?_
      rintro _ w₄ ⟨steady₄, _, held₄, v, view₄, _⟩
      refine ⟨steady₄, held₄.trans held, fun o other => ?_⟩
      rw [view₄, Function.update_of_ne other]
      by_cases evicted : o = t
      · rw [evicted, heard]
        exact .refl _
      · rw [rest o evicted]
        exact .refl _
    cases accepted with
    | true => exact drops _ _ _ ⟨.refl _ _, rfl⟩ rfl present₂
    | false =>
        have about : LogEntry.subject (.epollError s) = some s := rfl
        exact drops _ _ _ (moved_record w₂ about) (View.standing_remark _ rfl rfl rfl rfl) present₂

section Connecting

variable [Past] {script : M Unit} (harmless : Harmless script)

include harmless

/-- The registration is refused: the failure is reported while the socket is
still in the map. -/
theorem refuse_any (steady : Steady busy w) {w₁ : World} (arrives : Arrives w w₁ sock [])
    (missing : w.mgr.find sock.connIdx = none) (count : sock.count = 1)
    (parses : sock.socketType = .udp → sock.isParsePackage = true)
    (closed : sock.status = .closed) :
    Wp anyFault (do
      runConnectTask script w.mgr.nextRef false
      removeSocket sock.connIdx (← heirOf w.mgr.nextRef))
      (fun _ w' => Steady busy w' ∧ Leaves w w') w₁ := by
  have about : LogEntry.subject (.connectTask w.mgr.nextRef sock.connIdx false) =
    some w.mgr.nextRef := rfl
  have told := arrives.record about rfl rfl rfl
  have finished : (Standing.newborn sock.face [.connect false]).Stage sock.face := by
    simp only [Standing.Stage, Socket.face, closed]
    exact Or.inl rfl
  have leaving : Steady (w.mgr.nextRef :: busy) _ :=
    told.steady steady missing (newborn_good count parses finished fun _ => rfl)
      (by simp) (fun t outside => Or.inr fun inside => outside (List.mem_cons_of_mem _ inside))
  refine (runConnectTask_any harmless arrives.present leaving).seq ?_
  rintro _ w₂ ⟨steady₂, left⟩
  obtain ⟨after, count, events, taken, still, face, shape⟩ := left.alive told.present
  have key : after.connIdx = sock.connIdx := congrArg Face.connIdx face
  have status : after.status = .closed := (congrArg Face.status face).trans closed
  have named : (w₂.mgr.view w.mgr.nextRef).names ≠ [] := by
    obtain ⟨v, _, enrolled, _, _, born⟩ := told
    have names := congrArg Standing.names shape
    change (w₂.mgr.view w.mgr.nextRef).names = _ at names
    rw [names, enrolled.self, born]
    simp [Standing.recount, Standing.register, Standing.newborn]
  rw [← key]
  refine (removeReused_any steady₂ still status named (others_busy w.mgr.nextRef busy)).mono ?_
  rintro _ w₃ ⟨steady₃, held, kept⟩
  have whole := (told.leaves steady).trans left
  refine ⟨steady₃, held.trans whole.held, ?_⟩
  intro other face holds
  have different : other ≠ w.mgr.nextRef := by
    rintro rfl
    rw [steady.kept.fresh _ le_rfl] at holds
    simp [View.standing, View.blank] at holds
  exact (whole.sockets other).trans (kept other different) face holds

theorem connectUDP_any (steady : Steady busy w) (config : Config)
    (established isServerBuild : Bool) :
    Wp anyFault (connectUDP (runConnectTask script) config established isServerBuild)
      (fun _ w' => Steady busy w' ∧ Leaves w w') w := by
  unfold connectUDP
  apply wp_new steady.passed
  intro connIdx auto missing
  have kind : (newSocket .udp 0 connIdx { config with isParsePackage := true }).socketType = .udp :=
    rfl
  have unheld : (newSocket .udp 0 connIdx { config with isParsePackage := true }).count = 0 := rfl
  have key : (newSocket .udp 0 connIdx { config with isParsePackage := true }).connIdx = connIdx :=
    rfl
  have parses : (newSocket .udp 0 connIdx
    { config with isParsePackage := true }).isParsePackage = true := rfl
  have unheard : (newSocket .udp 0 connIdx
    { config with isParsePackage := true }).isUdpConnected = false := rfl
  generalize newSocket .udp 0 connIdx { config with isParsePackage := true } = sock
    at kind unheld key parses unheard ⊢
  subst key
  have subject : LogEntry.subject (if isServerBuild then .borrowed w.mgr.nextRef else
      .registered w.mgr.nextRef config.onconnectedHandler config.onrecvHandler
        config.oncloseHandler) = none := by
    cases isServerBuild <;> rfl
  have made := (local_new (steady.kept.fresh _ le_rfl) auto sock).silent subject
  have connecting := made.setSocket { sock with status := .connecting }
  rw [View.setSock_setSock] at connecting
  have one : sock.count + 1 = 1 := by omega
  rw [wp_bind, wp_record, wp_bind, wp_updateSocket made.heap]
  cases established with
  | false =>
      simp only [Bool.false_eq_true, if_false]
      rw [wp_bind]
      refine (delete_spec connecting.heap).mono ?_
      rintro _ w' ⟨v', rfl, deleted, course⟩
      have gone := connecting.trans deleted
      rw [connecting.self] at gone
      exact steady.discard gone course
  | true =>
      simp only [if_true]
      rw [wp_bind]
      refine (addSocket_any connecting (by rfl) (by exact missing)).mono ?_
      intro _ w₁ arrives
      rw [wp_bind, wp_updateSocket arrives.present]
      have connected : Arrives w _
          { sock with count := sock.count + 1, status := .connected } [] := arrives.update rfl
      rw [wp_bind]
      refine (connected.epollCtlAdd_any _).mono ?_
      intro accepted w₂ arrives₂
      cases accepted with
      | false =>
          simp only [Bool.false_eq_true, if_false]
          have about : LogEntry.subject (.epollError w.mgr.nextRef) = some w.mgr.nextRef := rfl
          have shut := (arrives₂.record about rfl rfl rfl).closeDescriptor
          have closed : Arrives w _
              { sock with count := sock.count + 1, status := .closed } [] := shut.update rfl
          rw [wp_bind, wp_record, wp_bind, closeDescriptor, wp_modifyMgr, wp_bind,
            wp_updateSocket shut.present]
          have refused := refuse_any harmless steady closed missing one (fun _ => parses) rfl
          simpa only [bind_assoc] using refused.seq fun _ _ done => wp_pure.mpr done
      | true =>
          simp only [if_true]
          cases isServerBuild with
          | false =>
              simp only [Bool.false_eq_true, if_false]
              have silent : (Standing.newborn (Socket.face { sock with
                  count := sock.count + 1, status := .connected }) []).Stage (Socket.face
                    { sock with count := sock.count + 1, status := .connected }) :=
                Or.inl ⟨⟨kind, unheard⟩, rfl⟩
              exact ⟨arrives₂.steady steady missing
                (newborn_good one (fun _ => parses) silent (by simp [Socket.face]))
                (fun _ => newborn_settled (by simp [Socket.face]) (by simp [Socket.face]))
                (fun _ outside => Or.inr outside), arrives₂.leaves steady⟩
          | true =>
              simp only [if_true]
              have heard : Arrives w _ { sock with
                  count := sock.count + 1, status := .connected, isUdpConnected := true } [] :=
                arrives₂.update rfl
              have about : LogEntry.subject (.connectTask w.mgr.nextRef sock.connIdx true) =
                some w.mgr.nextRef := rfl
              have told := heard.record about rfl rfl rfl
              have greeted := told.greeted steady missing one
                (by simp [Face.halfOpen, Socket.face]) (fun _ => parses) rfl
              rw [wp_bind, wp_updateSocket arrives₂.present]
              refine (runConnectTask_any harmless heard.present greeted).seq ?_
              rintro _ w₃ ⟨steady₃, left⟩
              exact ⟨steady₃, (told.leaves steady).trans left⟩

theorem udpConnect_any (steady : Steady busy w) (config : Config) (established : Bool) :
    Wp anyFault (UDPClient.connect (runConnectTask script) config established)
      (fun _ w' => Steady busy w' ∧ Leaves w w') w := by
  unfold UDPClient.connect
  refine (connectUDP_any harmless steady config established false).seq ?_
  rintro connIdx w₁ ⟨steady₁, left⟩
  split
  · refine (sendMsg_any steady₁ connIdx connectRequest).seq ?_
    rintro _ w₂ ⟨steady₂, later⟩
    exact ⟨steady₂, left.trans later⟩
  · exact ⟨steady₁, left⟩

end Connecting

/-! ## Scripts -/

mutual

theorem luaCall_any [Past] (call : LuaCall) : Harmless (luaCall call) := by
  intro busy w steady
  cases call with
  | sendMsg connIdx message =>
      rw [luaCall]
      exact (sendMsg_any steady connIdx message.data).seq fun _ _ done => done
  | send connIdx message =>
      rw [luaCall]
      exact (send_any steady connIdx message.data).seq fun _ _ done => done
  | disconnect connIdx =>
      rw [luaCall]
      exact disconnect_any steady connIdx
  | connectEx config outcome =>
      rw [luaCall]
      exact (connectEx_any steady config outcome).seq fun _ _ done => done
  | connectUDP config established callback =>
      rw [luaCall]
      exact udpConnect_any (runCalls_any callback) steady config established

theorem runCalls_any [Past] (calls : List LuaCall) : Harmless (runCalls calls) := by
  intro busy w steady
  cases calls with
  | nil =>
      rw [runCalls]
      exact ⟨steady.marked, ⟨rfl, fun _ => .refl _⟩⟩
  | cons call rest =>
      rw [runCalls, wp_bind, wp_mark]
      refine (luaCall_any call busy _ steady.marked).seq ?_
      rintro _ w₁ ⟨steady₁, left⟩
      refine (runCalls_any rest busy w₁ steady₁).mono ?_
      rintro _ w₂ ⟨steady₂, later⟩
      exact ⟨steady₂, Leaves.trans ⟨left.held, left.sockets⟩ later⟩

end

theorem runScript_any [Past] : Harmless runScript := by
  intro busy w steady
  unfold runScript
  rw [wp_bind, wp_get, wp_bind, wp_modify]
  refine (runCalls_any _ busy { w with scripts := w.scripts.tail }
    ⟨steady.kept, ⟨steady.passed.kept, steady.passed.lasting⟩, steady.answers⟩).mono ?_
  rintro _ w' ⟨steady', left⟩
  exact ⟨steady', left.held, left.sockets⟩

end Scripts

end CrossOver.Engine.Network
