import CrossOver.Engine.Network.Primitives

/-!
# Calls from Lua

A script may run in the middle of a handler.  What it does keeps the manager
consistent, and it leaves a socket that already exists as it was, but for its
count, its write buffer, its queued events and the record of its frames.
-/

namespace CrossOver.Engine.Network

open CrossOver.Lib

/-- The calls that do not connect over UDP. -/
def LuaCall.Tcp : LuaCall → Prop
  | .connectUDP _ _ _ => False
  | _ => True

/-- The manager is consistent now and was at every point between steps, and what
is left to run stays with TCP. -/
def Sane (w : World) : Prop :=
  Consistent w.mgr ∧ (∀ m ∈ w.seen, Consistent m) ∧
    ∀ calls ∈ w.scripts, ∀ call ∈ calls, LuaCall.Tcp call

theorem Sane.next {w w' : World} (sane : Sane w) (course : w'.course = w.course)
    (consistent : Consistent w'.mgr) : Sane w' := by
  have seen : w'.seen = w.seen := congrArg Prod.fst course
  have scripts : w'.scripts = w.scripts := congrArg Prod.snd course
  refine ⟨consistent, ?_, ?_⟩
  · rw [seen]
    exact sane.2.1
  · rw [scripts]
    exact sane.2.2

theorem Touched.sane {w w' : World} {s : SockRef} {sock : Socket} {change : View → View → Prop}
    (touched : Touched s change w w') (sane : Sane w) (present : w.mgr.heap s = some sock)
    (step : ∀ v', change (w.mgr.view s) v' → Lives s (w.mgr.view s) v') : Sane w' := by
  obtain ⟨v', changed, moved, seen⟩ := touched
  exact sane.next seen (sane.1.local present moved (step v' changed))

/-- What a script leaves of a socket. -/
structure Undisturbed (v v' : View) : Prop where
  sock : ∀ sock, v.sock = some sock → ∃ count writeBuffer,
    v'.sock = some { sock with count := count, writeBuffer := writeBuffer }
  names : v'.names = v.names
  held : v'.held = v.held
  unprocessed : v'.unprocessed = v.unprocessed
  interest : v'.interest = v.interest
  log : ∃ added, v'.log = v.log ++ added ∧
    ∀ entry ∈ added, ∃ s status frame, entry = .queued s status frame

theorem Undisturbed.refl (v : View) : Undisturbed v v where
  sock := fun sock present => ⟨sock.count, sock.writeBuffer, present⟩
  names := rfl
  held := rfl
  unprocessed := rfl
  interest := rfl
  log := ⟨[], by simp, by simp⟩

theorem Undisturbed.trans {v₁ v₂ v₃ : View} (first : Undisturbed v₁ v₂)
    (second : Undisturbed v₂ v₃) : Undisturbed v₁ v₃ where
  sock := by
    intro sock present
    obtain ⟨_, _, between⟩ := first.sock sock present
    obtain ⟨count, writeBuffer, still⟩ := second.sock _ between
    exact ⟨count, writeBuffer, still⟩
  names := second.names.trans first.names
  held := second.held.trans first.held
  unprocessed := second.unprocessed.trans first.unprocessed
  interest := second.interest.trans first.interest
  log := by
    obtain ⟨added, extended, frames⟩ := first.log
    obtain ⟨more, extendedMore, moreFrames⟩ := second.log
    refine ⟨added ++ more, by rw [extendedMore, extended, List.append_assoc], ?_⟩
    intro entry membership
    rcases List.mem_append.mp membership with old | new
    · exact frames entry old
    · exact moreFrames entry new

theorem Undisturbed.trace {v v' : View} (undisturbed : Undisturbed v v') : v'.trace = v.trace := by
  obtain ⟨added, extended, frames⟩ := undisturbed.log
  have silent : traceOf added = [] := by
    apply List.filterMap_eq_nil_iff.mpr
    intro entry membership
    obtain ⟨s, status, frame, rfl⟩ := frames entry membership
    rfl
  rw [View.trace, extended, traceOf_append, silent, List.append_nil]
  rfl

/-- What a script leaves of the world. -/
structure Carried (w w' : World) : Prop where
  held : w'.mgr.held = w.mgr.held
  batch : w'.mgr.batch = w.mgr.batch
  sockets : ∀ s sock, w.mgr.heap s = some sock → Undisturbed (w.mgr.view s) (w'.mgr.view s)

theorem Carried.refl (w : World) : Carried w w := ⟨rfl, rfl, fun _ _ _ => .refl _⟩

theorem Carried.trans {w₁ w₂ w₃ : World} (first : Carried w₁ w₂) (second : Carried w₂ w₃) :
    Carried w₁ w₃ where
  held := second.held.trans first.held
  batch := second.batch.trans first.batch
  sockets := by
    intro s sock present
    have kept := first.sockets s sock present
    obtain ⟨_, _, still⟩ := kept.sock sock present
    exact kept.trans (second.sockets s _ still)

section Calls

variable {allowed : Fault → World → Prop} {w : World} {s : SockRef} {sock : Socket}

theorem delete_spec (present : w.mgr.heap s = some sock) :
    Wp allowed (delete s) (fun _ => Touched s (fun v v' => v' = { v with sock := none }) w) w := by
  unfold delete
  rw [wp_bind, wp_deref present]
  by_cases client : sock.isClient = true
  · simp only [client, if_true, wp_bind, wp_record, wp_modifyMgr]
    refine ⟨_, ?_, (local_silent w.mgr s rfl).trans (local_free _ s), rfl⟩
    rw [record_view _ rfl]
  · simp only [client, Bool.false_eq_true, if_false, wp_modifyMgr]
    exact ⟨_, rfl, local_free _ s, rfl⟩

theorem refRelease_spec (present : w.mgr.heap s = some sock) :
    Wp allowed (refRelease s) (fun _ => Touched s (fun v v' => v' = v.release sock) w) w := by
  have changed := local_setSocket w.mgr s { sock with count := sock.count - 1 }
  unfold refRelease
  rw [wp_bind, wp_updateSocket present, wp_bind, wp_deref changed.heap]
  by_cases last : sock.count - 1 = 0
  · simp only [last, if_true]
    have now := local_setSocket w.mgr s { sock with count := 0 }
    refine (delete_spec now.heap).mono ?_
    intro _ w' deleted
    refine deleted.after now rfl ?_
    rintro v' rfl
    simp [View.release, View.setSock, last]
  · simp only [last, if_false, wp_pure]
    refine ⟨_, ?_, changed, rfl⟩
    simp [View.release, last, View.setSock]

theorem Carried.of_update {w' : World} {v' : View}
    (view : w'.mgr.view = Function.update w.mgr.view s v') (held : w'.mgr.held = w.mgr.held)
    (batch : w'.mgr.batch = w.mgr.batch) (kept : Undisturbed (w.mgr.view s) v') :
    Carried w w' where
  held := held
  batch := batch
  sockets := by
    intro other _ _
    rw [view]
    by_cases here : other = s
    · subst here
      simpa using kept
    · rw [Function.update_of_ne here]
      exact .refl _

/-- An event is queued with a reference to its socket. -/
theorem Sane.queued {m : Mgr} {v : View} {event : SocketIOEvent} (sane : Sane w)
    (present : w.mgr.heap s = some sock) (changed : Local w.mgr m s v)
    (step : Lives s (w.mgr.view s) { v with events := v.events ++ [event] })
    (kept : Undisturbed (w.mgr.view s) v) :
    Sane { w with mgr := m.push { customizedEvents := event, s := s } } ∧
      Carried w { w with mgr := m.push { customizedEvents := event, s := s } } := by
  have view : (m.push { customizedEvents := event, s := s }).view =
      Function.update w.mgr.view s { v with events := v.events ++ [event] } := by
    rw [push_view, changed.view, Function.update_self, Function.update_idem]
  constructor
  · exact sane.next rfl (sane.1.at view step (changed.socketMap ▸ sane.1.keys) changed.nextRef
      (sane.1.allocated present))
  · exact .of_update view changed.held changed.batch
      ⟨kept.sock, kept.names, kept.held, kept.unprocessed, kept.interest, kept.log⟩

theorem disconnect_spec (sane : Sane w) (connIdx : Nat) :
    Wp allowed (disconnect connIdx) (fun _ w' => Sane w' ∧ Carried w w') w := by
  unfold disconnect
  rw [wp_bind, wp_get]
  cases found : w.mgr.find connIdx with
  | none => exact ⟨sane, .refl w⟩
  | some s =>
      obtain ⟨sock, present, key, _, names⟩ := sane.1.found (Mgr.find_mem found)
      have changed := local_setSocket w.mgr s { sock with count := sock.count + 1 }
      simp only [refAdd]
      rw [wp_bind, wp_updateSocket present]
      refine sane.queued present changed (.disconnect present (by simp [names]))
        ⟨?_, rfl, rfl, rfl, rfl, ?_⟩
      · intro other holds
        obtain rfl := Option.some.inj (present.symm.trans holds)
        exact ⟨_, _, rfl⟩
      · exact ⟨[], by simp [View.setSock], by simp⟩

/-- `Send` and `SendMsg` of the socket, once the reference has been taken. -/
theorem queueFrame_spec (sane : Sane w) (present : w.mgr.heap s = some sock)
    (named : (w.mgr.view s).names ≠ []) {frame : Bytes}
    {write : SequenceBuffer → Bool × SequenceBuffer}
    (accepts : (write sock.writeBuffer).1 = true)
    (writes : Writes sock.writeBuffer frame (write sock.writeBuffer).2) :
    Wp allowed (Socket.queueFrame s frame write)
      (fun ret w' => ret = true ∧ Sane w' ∧ Carried w w')
      { w with mgr := w.mgr.setSocket s { sock with count := sock.count + 1 } } := by
  have counted := local_setSocket w.mgr s { sock with count := sock.count + 1 }
  have written := counted.trans (local_setSocket _ s
    { sock with count := sock.count + 1, writeBuffer := (write sock.writeBuffer).2 })
  have queued : LogEntry.subject (.queued s sock.status frame) = some s := rfl
  have recorded := written.trans (local_record _ queued)
  unfold Socket.queueFrame
  rw [wp_bind, wp_deref counted.heap]
  simp only [accepts]
  rw [wp_bind, wp_updateSocket counted.heap, wp_bind, wp_record]
  refine ⟨rfl, sane.queued present recorded ?_ ⟨?_, ?_, ?_, ?_, ?_, ?_⟩⟩
  · rw [written.self]
    exact .send present named writes
  · intro other holds
    obtain rfl := Option.some.inj (present.symm.trans holds)
    rw [written.self]
    exact ⟨_, _, rfl⟩
  · rw [written.self]; rfl
  · rw [written.self]; rfl
  · rw [written.self]; rfl
  · rw [written.self]; rfl
  · rw [written.self]
    exact ⟨[.queued s sock.status frame], rfl, by simp⟩

theorem SequenceBuffer.write_ret (b : SequenceBuffer) (data : Bytes) : (b.write data).1 = true := by
  unfold SequenceBuffer.write
  dsimp only
  split <;> [split; skip] <;> rfl

theorem SequenceBuffer.writeMsg_ret (b : SequenceBuffer) (head body : Bytes) :
    (b.writeMsg head body).1 = true := by
  unfold SequenceBuffer.writeMsg
  dsimp only
  split <;> [split; skip] <;> rfl

/-- A send that the socket accepts keeps its reference for the queue. -/
theorem sendThrough_spec (sane : Sane w) (connIdx : Nat) {sendTo : SockRef → M Bool}
    (accepted : ∀ s sock, w.mgr.heap s = some sock → (w.mgr.view s).names ≠ [] →
      sock.socketType = .tcp →
      Wp allowed (sendTo s) (fun ret w' => ret = true ∧ Sane w' ∧ Carried w w')
        { w with mgr := w.mgr.setSocket s { sock with count := sock.count + 1 } }) :
    Wp allowed (sendThrough connIdx sendTo) (fun _ w' => Sane w' ∧ Carried w w') w := by
  unfold sendThrough
  rw [wp_bind, wp_get]
  cases found : w.mgr.find connIdx with
  | none => exact ⟨sane, .refl w⟩
  | some s =>
      obtain ⟨sock, present, _, tcp, names⟩ := sane.1.found (Mgr.find_mem found)
      simp only [refAdd]
      rw [wp_bind, wp_updateSocket present]
      refine (accepted s sock present (by simp [names]) tcp).seq ?_
      rintro ret w' ⟨rfl, done⟩
      exact done

theorem queueMsg_spec (sane : Sane w) (present : w.mgr.heap s = some sock)
    (named : (w.mgr.view s).names ≠ []) (head body : Bytes) :
    Wp allowed (Socket.queueFrame s (head ++ body) fun b => b.writeMsg head body)
      (fun ret w' => ret = true ∧ Sane w' ∧ Carried w w')
      { w with mgr := w.mgr.setSocket s { sock with count := sock.count + 1 } } :=
  queueFrame_spec sane present named (SequenceBuffer.writeMsg_ret _ head body)
    (Or.inr ⟨head, body, rfl, rfl⟩)

theorem send_spec (sane : Sane w) (connIdx : Nat) (content : Bytes) :
    Wp allowed (send connIdx content) (fun _ w' => Sane w' ∧ Carried w w') w :=
  sendThrough_spec sane connIdx fun _ _ present named _ =>
    queueFrame_spec sane present named (SequenceBuffer.write_ret _ _) (Or.inl rfl)

theorem sendMsg_spec (sane : Sane w) (connIdx : Nat) (content : Bytes) :
    Wp allowed (sendMsg connIdx content) (fun _ w' => Sane w' ∧ Carried w w') w := by
  apply sendThrough_spec sane connIdx
  intro s sock present named tcp
  rw [wp_bind, wp_deref (local_setSocket w.mgr s { sock with count := sock.count + 1 }).heap]
  split
  · exact queueMsg_spec sane present named _ content
  · next udp => exact absurd (tcp.symm.trans udp) (by simp)

/-! ## New sockets -/

/-- The manager once a number and a reference have been given out. -/
def Mgr.bump (m : Mgr) (autoConnIdx : Nat) : Mgr :=
  { m with autoConnIdx := autoConnIdx, nextRef := m.nextRef + 1 }

theorem Consistent.bump {m : Mgr} (consistent : Consistent m) (autoConnIdx : Nat) :
    Consistent (m.bump autoConnIdx) :=
  consistent.advance (fun _ => Or.inl rfl) consistent.keys fun s large =>
    consistent.fresh s (Nat.le_of_succ_le large)

theorem makeGeneralConnID_spec (exhausted : allowed .idsExhausted w) :
    Wp allowed makeGeneralConnID (fun connIdx w' => w.mgr.find connIdx = none ∧
      ∃ auto, w' = { w with mgr := { w.mgr with autoConnIdx := auto } }) w := by
  rw [makeGeneralConnID, wp_bind, wp_get]
  dsimp only
  split
  · exact exhausted
  · next connIdx found => exact ⟨makeGeneralConnIDLoop_free found, _, rfl⟩

/-- A number that is free, then an object under the next reference. -/
theorem wp_new {Value : Type} {post : Value → World → Prop} {sock : Nat → Socket}
    {next : Nat → SockRef → M Value} (exhausted : allowed .idsExhausted w)
    (rest : ∀ connIdx auto, w.mgr.find connIdx = none →
      Wp allowed (next connIdx w.mgr.nextRef) post
        { w with mgr := (w.mgr.bump auto).setSocket w.mgr.nextRef (sock connIdx) }) :
    Wp allowed (do
      let connIdx ← makeGeneralConnID
      let s ← allocate (sock connIdx)
      next connIdx s) post w := by
  refine (makeGeneralConnID_spec exhausted).seq ?_
  rintro connIdx w' ⟨missing, auto, rfl⟩
  exact rest connIdx auto missing

/-- The next reference has come into the map, and nothing else has changed. -/
structure Enrolled (m m' : Mgr) (connIdx : Nat) (v : View) : Prop where
  view : m'.view = Function.update m.view m.nextRef v
  socketMap : m'.socketMap = m.socketMap ++ [(connIdx, m.nextRef)]
  nextRef : m'.nextRef = m.nextRef + 1
  eventQueue : m'.eventQueue = m.eventQueue
  held : m'.held = m.held
  batch : m'.batch = m.batch

theorem Enrolled.then {m m₁ m₂ : Mgr} {connIdx : Nat} {v v' : View}
    (enrolled : Enrolled m m₁ connIdx v) (changed : Local m₁ m₂ m.nextRef v') :
    Enrolled m m₂ connIdx v' where
  view := by rw [changed.view, enrolled.view, Function.update_idem]
  socketMap := changed.socketMap.trans enrolled.socketMap
  nextRef := changed.nextRef.trans enrolled.nextRef
  eventQueue := changed.eventQueue.trans enrolled.eventQueue
  held := changed.held.trans enrolled.held
  batch := changed.batch.trans enrolled.batch

theorem Enrolled.self {m m₁ : Mgr} {connIdx : Nat} {v : View}
    (enrolled : Enrolled m m₁ connIdx v) : m₁.view m.nextRef = v := by
  rw [enrolled.view, Function.update_self]

theorem Enrolled.consistent {m m₁ : Mgr} {connIdx : Nat} {v : View}
    (enrolled : Enrolled m m₁ connIdx v) (consistent : Consistent m)
    (missing : m.find connIdx = none) (step : Lives m.nextRef .blank v) : Consistent m₁ := by
  have fresh := consistent.fresh m.nextRef le_rfl
  refine (consistent.bump m.autoConnIdx).at enrolled.view ?_ ?_ enrolled.nextRef
    (Nat.lt_succ_self _)
  · change Lives m.nextRef (m.view m.nextRef) v
    rw [fresh]
    exact step
  · rw [enrolled.socketMap, List.map_append]
    exact List.Nodup.append consistent.keys (List.nodup_singleton _)
      (by simpa using Mgr.find_none missing)

theorem enrolled_add {m m₁ : Mgr} {auto : Nat}
    (made : Local (m.bump auto) m₁ m.nextRef (View.blank.setSock sock)) :
    Enrolled m
      ((m₁.insert sock.connIdx m.nextRef).setSocket m.nextRef { sock with count := sock.count + 1 })
      sock.connIdx
      { View.blank with
        sock := some { sock with count := sock.count + 1 }, names := [sock.connIdx] } where
  view := by
    rw [(local_setSocket _ _ _).view, insert_view, made.view, Function.update_self,
      Function.update_idem, Function.update_idem, Function.update_self]
    rfl
  socketMap := by
    change m₁.socketMap ++ _ = _
    rw [made.socketMap]
    rfl
  nextRef := made.nextRef
  eventQueue := made.eventQueue
  held := made.held
  batch := made.batch

/-- A new object leaves the others alone. -/
theorem Enrolled.carried {w' : World} {connIdx : Nat} {v : View}
    (enrolled : Enrolled w.mgr w'.mgr connIdx v) (consistent : Consistent w.mgr) :
    Carried w w' where
  held := enrolled.held
  batch := enrolled.batch
  sockets := by
    intro other sock present
    have different : other ≠ w.mgr.nextRef := Nat.ne_of_lt (consistent.allocated present)
    rw [enrolled.view, Function.update_of_ne different]
    exact .refl _

theorem local_new {m : Mgr} (fresh : m.view m.nextRef = .blank) (auto : Nat) (sock : Socket) :
    Local (m.bump auto) ((m.bump auto).setSocket m.nextRef sock) m.nextRef
      (View.blank.setSock sock) := by
  rw [← fresh]
  exact local_setSocket (m.bump auto) _ _

/-- A new object that is deleted at once. -/
theorem Sane.discard {w' : World} {auto : Nat} (sane : Sane w)
    (deleted : Local (w.mgr.bump auto) w'.mgr w.mgr.nextRef .blank) (seen : w'.course = w.course) :
    Sane w' ∧ Carried w w' := by
  have fresh : (w.mgr.bump auto).view w.mgr.nextRef = .blank := sane.1.fresh w.mgr.nextRef le_rfl
  have view : w'.mgr.view = w.mgr.view := by
    rw [deleted.view, ← fresh, Function.update_eq_self]
    rfl
  refine ⟨sane.next seen ?_, ⟨deleted.held, deleted.batch, ?_⟩⟩
  · refine (sane.1.bump auto).advance (fun s => Or.inl (congrFun view s)) ?_ ?_
    · rw [deleted.socketMap]
      exact sane.1.keys
    · intro s large
      rw [deleted.nextRef] at large
      rw [view]
      exact sane.1.fresh s (Nat.le_of_succ_le large)
  · intro s _ _
    rw [view]
    exact .refl _

theorem newSocket_newborn {config : Config} {fd connIdx : Nat} {status : SocketStatus}
    {greeting : List LogEntry}
    (kind : status = .connecting ∧ greeting = [] ∨
      status = .connected ∧ greeting = [.connectTask s connIdx true]) :
    Newborn s { newSocket .tcp fd connIdx config with status := status, count := 1 } greeting :=
  ⟨rfl, rfl, rfl, ⟨_, rfl⟩, kind⟩

theorem addSocket_spec {w₁ : World} {auto : Nat}
    (made : Local (w.mgr.bump auto) w₁.mgr w.mgr.nextRef (View.blank.setSock sock))
    (missing : w.mgr.find sock.connIdx = none) :
    Wp allowed (addSocket w.mgr.nextRef) (fun _ w₂ => w₂.course = w₁.course ∧
      Enrolled w.mgr w₂.mgr sock.connIdx
        { View.blank with
          sock := some { sock with count := sock.count + 1 }, names := [sock.connIdx] }) w₁ := by
  have free : w₁.mgr.find sock.connIdx = none := by
    rw [Mgr.find, made.socketMap]
    exact missing
  rw [wp_addSocket made.heap free]
  exact ⟨rfl, enrolled_add made⟩

theorem epollCtlAdd_spec (w₁ : World) {connIdx : Nat} {v : View}
    (enrolled : Enrolled w.mgr w₁.mgr connIdx v) (interest : Interest) :
    Wp allowed (epollCtlAdd w.mgr.nextRef interest) (fun accepted w₂ => w₂.course = w₁.course ∧
      (accepted = true ∧ Enrolled w.mgr w₂.mgr connIdx { v with interest := some interest } ∨
        accepted = false ∧ Enrolled w.mgr w₂.mgr connIdx v)) w₁ := by
  refine (epollCtl_spec w.mgr.nextRef false (some interest)).mono ?_
  rintro accepted w₂ ⟨seen, ⟨rfl, _, mgr⟩ | ⟨rfl, mgr⟩⟩
  · refine ⟨seen, Or.inl ⟨rfl, ?_⟩⟩
    have changed := enrolled.then (local_setInterest w₁.mgr w.mgr.nextRef (some interest))
    rw [enrolled.self] at changed
    rw [mgr]
    exact changed
  · exact ⟨seen, Or.inr ⟨rfl, by rw [mgr]; exact enrolled⟩⟩

/-- A registration that may have failed is recorded before it is greeted. -/
theorem Enrolled.note {m m₁ : Mgr} {connIdx : Nat} {v : View} (enrolled : Enrolled m m₁ connIdx v)
    {entry : LogEntry} (subject : entry.subject = some m.nextRef) :
    Enrolled m (m₁.record entry) connIdx (v.note entry) := by
  have changed := enrolled.then (local_record m₁ subject)
  rwa [enrolled.self] at changed

theorem Enrolled.update {m m₁ : Mgr} {connIdx : Nat} {v : View} (enrolled : Enrolled m m₁ connIdx v)
    (after : Socket) : Enrolled m (m₁.setSocket m.nextRef after) connIdx (v.setSock after) := by
  have changed := enrolled.then (local_setSocket m₁ m.nextRef after)
  rwa [enrolled.self] at changed

theorem connectEx_spec (sane : Sane w) (exhausted : allowed .idsExhausted w) (config : Config)
    (outcome : ConnectOutcome) :
    Wp allowed (connectEx config outcome) (fun _ w' => Sane w' ∧ Carried w w') w := by
  unfold connectEx
  apply wp_new exhausted
  intro connIdx auto missing
  have newborn : Newborn w.mgr.nextRef
      { newSocket .tcp 0 connIdx config with status := .connecting, count := 1 } [] :=
    newSocket_newborn (Or.inl ⟨rfl, rfl⟩)
  have key : (newSocket .tcp 0 connIdx config).connIdx = connIdx := rfl
  have unheld : (newSocket .tcp 0 connIdx config).count = 0 := rfl
  generalize newSocket .tcp 0 connIdx config = sock at newborn key unheld ⊢
  have subject : LogEntry.subject (.registered w.mgr.nextRef config.onconnectedHandler
    config.onrecvHandler config.oncloseHandler) = none := rfl
  have made := (local_new (sane.1.fresh _ le_rfl) auto sock).silent subject
  have connecting := made.setSocket { sock with status := .connecting }
  rw [View.setSock_setSock] at connecting
  rw [wp_bind, wp_record, wp_bind, wp_updateSocket made.heap]
  by_cases pending : outcome = .minusOne
  · simp only [pending, if_true]
    rw [wp_bind]
    refine (addSocket_spec connecting (by rw [key]; exact missing)).mono ?_
    rintro _ w₁ ⟨seen, enrolled⟩
    refine (epollCtlAdd_spec w₁ enrolled _).seq ?_
    rintro accepted w₂ ⟨seenAdd, ⟨rfl, registered⟩ | ⟨rfl, refused⟩⟩
    · simp only [unheld, Int.zero_add] at registered
      have consistent := registered.consistent sane.1 (by rw [← key] at missing; exact missing)
        (.born newborn)
      exact ⟨sane.next (seenAdd.trans seen) consistent, registered.carried sane.1⟩
    · simp only [unheld, Int.zero_add] at refused
      have about : LogEntry.subject (.epollError w.mgr.nextRef) = some w.mgr.nextRef := rfl
      have noted := refused.note about
      have consistent := noted.consistent sane.1 (by rw [← key] at missing; exact missing)
        (.bornUnregistered newborn)
      exact ⟨sane.next (seenAdd.trans seen) consistent, noted.carried sane.1⟩
  · simp only [pending, if_false]
    rw [wp_bind]
    refine (delete_spec connecting.heap).mono ?_
    rintro _ w' ⟨v', rfl, deleted, seen⟩
    have gone := connecting.trans deleted
    rw [connecting.self] at gone
    exact sane.discard gone seen

/-! ## Scripts -/

theorem Sane.marked (sane : Sane w) : Sane { w with seen := w.mgr :: w.seen } := by
  refine ⟨sane.1, ?_, sane.2.2⟩
  intro m membership
  rcases List.mem_cons.mp membership with rfl | old
  · exact sane.1
  · exact sane.2.1 m old

section Scripts

variable (exhausted : ∀ w, Sane w → allowed .idsExhausted w)

include exhausted

theorem luaCall_spec (sane : Sane w) {call : LuaCall} (tcp : call.Tcp) :
    Wp allowed (luaCall call) (fun _ w' => Sane w' ∧ Carried w w') w := by
  cases call with
  | connectUDP config established callback => exact absurd tcp id
  | sendMsg connIdx message =>
      exact (sendMsg_spec sane connIdx message.data).seq fun _ _ done => done
  | send connIdx message =>
      exact (send_spec sane connIdx message.data).seq fun _ _ done => done
  | disconnect connIdx => exact disconnect_spec sane connIdx
  | connectEx config outcome =>
      exact (connectEx_spec sane (exhausted w sane) config outcome).seq fun _ _ done => done

theorem runCalls_spec {calls : List LuaCall} (tcp : ∀ call ∈ calls, LuaCall.Tcp call)
    (sane : Sane w) : Wp allowed (runCalls calls) (fun _ w' => Sane w' ∧ Carried w w') w := by
  induction calls generalizing w with
  | nil => exact ⟨sane.marked, ⟨rfl, rfl, fun _ _ _ => .refl _⟩⟩
  | cons call rest inductionHypothesis =>
      rw [runCalls, wp_bind, wp_mark]
      have here : call.Tcp := tcp call List.mem_cons_self
      refine (luaCall_spec exhausted sane.marked here).seq ?_
      rintro _ w₁ ⟨sane₁, carried⟩
      have remaining : ∀ other ∈ rest, LuaCall.Tcp other := fun other membership =>
        tcp other (List.mem_cons_of_mem _ membership)
      refine (inductionHypothesis remaining sane₁).mono ?_
      rintro _ w₂ ⟨sane₂, later⟩
      exact ⟨sane₂, Carried.trans ⟨carried.held, carried.batch, carried.sockets⟩ later⟩

theorem runScript_spec (sane : Sane w) :
    Wp allowed runScript (fun _ w' => Sane w' ∧ Carried w w') w := by
  have started : Sane { w with scripts := w.scripts.tail } :=
    ⟨sane.1, sane.2.1, fun calls membership => sane.2.2 calls (List.mem_of_mem_tail membership)⟩
  have tcp : ∀ call ∈ w.scripts.headD [], LuaCall.Tcp call := by
    cases scripts : w.scripts with
    | nil => simp
    | cons calls rest => exact sane.2.2 calls (by simp [scripts])
  unfold runScript
  rw [wp_bind, wp_get, wp_bind, wp_modify]
  refine (runCalls_spec exhausted tcp started).mono ?_
  rintro _ w' ⟨sane', carried⟩
  exact ⟨sane', carried.held, carried.batch, carried.sockets⟩

/-- A callback is recorded, and then its script runs. -/
theorem process_spec (handle : HandleInfo) {task : LogEntry}
    (sane : Sane { w with mgr := w.mgr.record task }) :
    Wp allowed (process handle task)
      (fun _ w' => Sane w' ∧ Carried { w with mgr := w.mgr.record task } w') w := by
  unfold process runTask
  rw [wp_bind, wp_record]
  by_cases registered : handle.funId > 0
  · simp only [registered, if_true]
    exact runScript_spec exhausted sane
  · simp only [registered, if_false, wp_pure]
    exact ⟨sane, .refl _⟩

end Scripts

end Calls

end CrossOver.Engine.Network
