import CrossOver.Engine.Network.Primitives

/-!
# What no function of the manager can change

`Robust` lists all that the functions of the manager do to objects and the log.
An invariant that survives it is kept by every operation.

The handlers of a socket and whether they are its own are fixed by the
constructor.  A predicate on the manager is `Stable` if it survives the few
things that can touch them or the log: a new object, an object that is deleted,
and entries of the log.  Every operation keeps a stable predicate, at every
point it passes.
-/

namespace CrossOver.Engine.Network

open CrossOver.Lib

/-- What the destructor depends on. -/
def Socket.ownership (sock : Socket) : Bool × HandleInfo × HandleInfo × HandleInfo :=
  (sock.isClient, sock.onconnectedHandler, sock.onrecvHandler, sock.oncloseHandler)

/-- Entries that are not about handlers. -/
def LogEntry.isPlain : LogEntry → Bool
  | .clientDeleteTask _ _ _ => false
  | .registered _ _ _ _ => false
  | .borrowed _ => false
  | _ => true

/-- The entry that tells where the handlers of a new object come from. -/
def Origin (s : SockRef) (sock : Socket) (entry : LogEntry) : Prop :=
  entry = .borrowed s ∨
    entry = .registered s sock.onconnectedHandler sock.onrecvHandler sock.oncloseHandler

/-- `delete` on the manager. -/
def Mgr.destroy (m : Mgr) (s : SockRef) (sock : Socket) : Mgr :=
  Mgr.free (if sock.isClient then
    m.record (.clientDeleteTask sock.onconnectedHandler sock.onrecvHandler sock.oncloseHandler)
    else m) s

theorem free_heap {m : Mgr} {s t : SockRef} {sock : Socket}
    (present : (m.free t).heap s = some sock) :
    m.heap s = some sock := by
  by_cases same : s = t
  · subst same
    simp [Mgr.free] at present
  · simpa [Mgr.free, same] using present

def Mgr.objects (m : Mgr) : (SockRef → Option Socket) × List LogEntry × SockRef :=
  (m.heap, m.log, m.nextRef)

structure Stable (P : Mgr → Prop) : Prop where
  frame : ∀ m m', m'.objects = m.objects → P m → P m'
  socket : ∀ m s before after, m.heap s = some before → after.ownership = before.ownership →
    P m → P (m.setSocket s after)
  record : ∀ m entry, entry.isPlain = true → P m → P (m.record entry)
  serve : ∀ m sock, sock.isClient = false → P m →
    P { m.setSocket m.nextRef sock with nextRef := m.nextRef + 1 }
  create : ∀ m sock entry, Origin m.nextRef sock entry → P m →
    P (Mgr.record { m.setSocket m.nextRef sock with nextRef := m.nextRef + 1 } entry)
  delete : ∀ m s sock, m.heap s = some sock → P m → P (m.destroy s sock)

/-- Now and at every point between steps. -/
def Always (P : Mgr → Prop) (w : World) : Prop := P w.mgr ∧ ∀ point ∈ w.seen, P point

/-- What `OnRead` depends on. -/
structure ReadSide where
  socketType : SocketType
  isParsePackage : Bool
  recvBufferSize : Nat
  readBuffer : SequenceBuffer

def Socket.readSide (sock : Socket) : ReadSide where
  socketType := sock.socketType
  isParsePackage := sock.isParsePackage
  recvBufferSize := sock.recvBufferSize
  readBuffer := sock.readBuffer

def Socket.SameReading (before after : Socket) : Prop :=
  after.readSide = before.readSide ∧ (before.isUdpConnected = true → after.isUdpConnected = true)

/-- What the destructor and the write path depend on. -/
def Socket.core (sock : Socket) :
    (Bool × HandleInfo × HandleInfo × HandleInfo) × SocketStatus × SequenceBuffer :=
  (sock.ownership, sock.status, sock.writeBuffer)

def LogEntry.isTraffic : LogEntry → Bool
  | .queued _ _ _ => true
  | .sent _ _ => true
  | _ => false

def World.withMgr (w : World) (m : Mgr) : World := { w with mgr := m }

def Mgr.born (m : Mgr) (sock : Socket) : Mgr :=
  { m.setSocket m.nextRef sock with nextRef := m.nextRef + 1 }

/-- The objects, and the counter of `MakeGeneralConnID`. -/
def Mgr.counted (m : Mgr) : ((SockRef → Option Socket) × List LogEntry × SockRef) × Nat :=
  (m.objects, m.autoConnIdx)

/-- What `MakeGeneralConnID` finds. -/
def Mgr.search (m : Mgr) : Option Nat :=
  makeGeneralConnIDLoop m (m.socketMap.length + 1) m.autoConnIdx

/-- How `MakeGeneralConnID` moves on. -/
def nextConnIdx (connIdx : Nat) : Nat :=
  let next := (connIdx + 1) % 2 ^ 32
  if next = 2 ^ 32 - 1 then 1 else next

structure Robust (allowed : Fault → World → Prop) (I : World → Prop) : Prop where
  freed : ∀ w, I w → allowed .useAfterFree w
  diverged : ∀ w, I w → allowed .diverges w
  exhausted : ∀ w, w.mgr.search = none → I w → allowed .idsExhausted w
  number : ∀ w connIdx, w.mgr.search = some connIdx → I w →
    I (w.withMgr { w.mgr with autoConnIdx := nextConnIdx connIdx })
  mark : ∀ w, I w → I { w with seen := w.mgr :: w.seen }
  frame : ∀ w w', w'.mgr.counted = w.mgr.counted → w'.seen = w.seen → I w → I w'
  socket : ∀ w s before after, w.mgr.heap s = some before → after.core = before.core →
    before.SameReading after → I w → I (w.withMgr (w.mgr.setSocket s after))
  status : ∀ w s sock status, w.mgr.heap s = some sock → status ≠ .closing → I w →
    I (w.withMgr (w.mgr.setSocket s { sock with status := status }))
  /-- `HandleClose` is the first to act after a point. -/
  closing : ∀ w point earlier s sock, w.seen = point :: earlier → point.heap = w.mgr.heap →
    w.mgr.heap s = some sock → sock.status = .connected → I w →
    I (w.withMgr (w.mgr.setSocket s { sock with status := .closing }))
  fill : ∀ w s sock, w.mgr.heap s = some sock → I w →
    I (w.withMgr (w.mgr.setSocket s
      { sock with writeBuffer := sock.writeBuffer.fillVector.2 }))
  queue : ∀ w s sock frame after, w.mgr.heap s = some sock →
    Writes sock.writeBuffer frame after → I w →
    I (w.withMgr ((w.mgr.setSocket s { sock with writeBuffer := after }).record
      (.queued s sock.status frame)))
  transmit : ∀ w s sock bytes, w.mgr.heap s = some sock →
    bytes ≤ transferLimit (Socket.sendLen sock.writeBuffer) → I w →
    I (w.withMgr ((w.mgr.record (.sent s (sock.writeBuffer.buffer.take bytes))).setSocket s
      { sock with writeBuffer := sock.writeBuffer.remove bytes }))
  record : ∀ w entry, entry.isPlain = true → entry.isTraffic = false → I w →
    I (w.withMgr (w.mgr.record entry))
  serve : ∀ w socketType fd connIdx config, fd ≠ 0 → I w →
    I (w.withMgr (w.mgr.born (newSocket socketType fd connIdx config)))
  create : ∀ w socketType fd connIdx config entry,
    Origin w.mgr.nextRef (newSocket socketType fd connIdx config) entry → I w →
    I (w.withMgr ((w.mgr.born (newSocket socketType fd connIdx config)).record entry))
  delete : ∀ w s sock, w.mgr.heap s = some sock → I w → I (w.withMgr (w.mgr.destroy s sock))

/-- Whatever is put into the read buffer of `s`. -/
def Stores (I : World → Prop) (s : SockRef) : Prop :=
  ∀ w sock readBuffer, w.mgr.heap s = some sock → I w →
    I (w.withMgr (w.mgr.setSocket s { sock with readBuffer := readBuffer }))

/-- What received bytes lead to keeps the invariant too. -/
structure Reads (allowed : Fault → World → Prop) (I : World → Prop) : Prop
    extends Robust allowed I where
  feed : ∀ w s sock chunk, w.mgr.heap s = some sock →
    chunk.length ≤ sock.readBuffer.getSpace → I w →
    Wp allowed (Socket.feed s chunk) (fun _ => I) w

theorem Always.next {P : Mgr → Prop} {w w' : World} (always : Always P w)
    (seen : w'.seen = w.seen) (now : P w'.mgr) : Always P w' := ⟨now, seen ▸ always.2⟩

theorem Stable.robust {P : Mgr → Prop} (stable : Stable P) :
    Robust (fun _ => Always P) (Always P) where
  freed _ always := always
  diverged _ always := always
  exhausted _ _ always := always
  number w _ _ always := always.next rfl (stable.frame w.mgr _ rfl always.1)
  mark := by
    intro w always
    refine ⟨always.1, ?_⟩
    intro point membership
    rcases List.mem_cons.mp membership with rfl | old
    · exact always.1
    · exact always.2 point old
  frame w w' same seen always := 
    always.next seen (stable.frame w.mgr _ (congrArg Prod.fst same) always.1)
  socket w s before after present same _ always :=
    always.next rfl (stable.socket w.mgr s before _ present (congrArg Prod.fst same) always.1)
  status w s sock _ present _ always :=
    always.next rfl (stable.socket w.mgr s sock _ present rfl always.1)
  closing w _ _ s sock _ _ present _ always :=
    always.next rfl (stable.socket w.mgr s sock _ present rfl always.1)
  fill w s sock present always :=
    always.next rfl (stable.socket w.mgr s sock _ present rfl always.1)
  queue w s sock _ _ present _ always :=
    always.next rfl (stable.record _ _ rfl (stable.socket w.mgr s sock _ present rfl always.1))
  transmit w s sock _ present _ always :=
    always.next rfl (stable.socket _ s sock _ present rfl (stable.record w.mgr _ rfl always.1))
  record w entry plain _ always := always.next rfl (stable.record w.mgr entry plain always.1)
  serve w _ _ _ _ own always :=
    always.next rfl (stable.serve w.mgr _ (decide_eq_false own) always.1)
  create w _ _ _ _ entry origin always :=
    always.next rfl (stable.create w.mgr _ entry origin always.1)
  delete w s sock present always := always.next rfl (stable.delete w.mgr s sock present always.1)

theorem Stable.stores {P : Mgr → Prop} (stable : Stable P) (s : SockRef) : Stores (Always P) s :=
  fun w sock _ present always =>
    always.next rfl (stable.socket w.mgr s sock _ present rfl always.1)

section Keeping

variable {allowed : Fault → World → Prop} {I : World → Prop} {s : SockRef} {First : Type}

variable (robust : Robust allowed I)

include robust

theorem deref_keeps : Keeps allowed I (deref s) := by
  refine Keeps.get ?_
  intro w
  split
  · exact Keeps.pure _
  · exact Keeps.throw robust.freed

theorem deref_absent {w : World} {post : Socket → World → Prop} (kept : I w)
    (absent : w.mgr.heap s = none) : Wp allowed (deref s) post w := by
  rw [deref, wp_bind, wp_get]
  simp only [absent]
  exact robust.freed w kept

theorem mark_keeps : Keeps allowed I mark := fun w kept => robust.mark w kept

/-- A change of the world beside the manager. -/
theorem aside_keeps {f : World → World}
    (same : ∀ w, ((f w).mgr, (f w).seen) = (w.mgr, w.seen)) :
    Keeps allowed I (modify f : M PUnit) := by
  intro w kept
  obtain ⟨mgr, seen⟩ := Prod.mk.inj (same w)
  exact robust.frame w _ (congrArg Mgr.counted mgr) seen kept

/-- A change of the manager that leaves objects, log and counter alone. -/
theorem modifyMgr_keeps {f : Mgr → Mgr}
    (same : ∀ m, (f m).counted = m.counted) :
    Keeps allowed I (modifyMgr f) := by
  intro w kept
  exact robust.frame w _ (same _) rfl kept

theorem record_keeps {entry : LogEntry} (plain : entry.isPlain = true)
    (quiet : entry.isTraffic = false) : Keeps allowed I (record entry) := by
  intro w kept
  exact robust.record w entry plain quiet kept

theorem recordIf_keeps {condition : Prop} [Decidable condition] {entry : LogEntry}
    (plain : entry.isPlain = true) (quiet : entry.isTraffic = false) :
    Keeps allowed I (recordIf condition entry) := by
  unfold recordIf
  split
  · exact record_keeps robust plain quiet
  · exact Keeps.pure _

/-- An update of an object, by what it does to an object that is there. -/
theorem change_keeps {f : Socket → Socket}
    (changed : ∀ w sock, w.mgr.heap s = some sock → I w →
      I (w.withMgr (w.mgr.setSocket s (f sock)))) :
    Keeps allowed I (updateSocket s f) := by
  intro w kept
  unfold updateSocket
  cases present : w.mgr.heap s with
  | none =>
      rw [wp_bind]
      exact deref_absent robust kept present
  | some sock =>
      rw [wp_bind, wp_deref present, wp_modifyMgr]
      exact changed w sock present kept

theorem updateSocket_keeps {f : Socket → Socket}
    (same : ∀ sock, (f sock).core = sock.core ∧ sock.SameReading (f sock)) :
    Keeps allowed I (updateSocket s f) :=
  change_keeps robust fun w sock present kept =>
    robust.socket w s sock _ present (same sock).1 (same sock).2 kept

theorem joins_keeps :
    Keeps allowed I (updateSocket s fun sock => { sock with isUdpConnected := true }) :=
  updateSocket_keeps robust (by intro _; exact ⟨rfl, rfl, fun _ => rfl⟩)

theorem setStatus_keeps {status : SocketStatus} (known : status ≠ .closing) :
    Keeps allowed I (updateSocket s fun sock => { sock with status := status }) :=
  change_keeps robust fun w sock present kept => robust.status w s sock status present known kept

theorem fillVector_keeps :
    Keeps allowed I (updateSocket s fun sock =>
      { sock with writeBuffer := sock.writeBuffer.fillVector.2 }) :=
  change_keeps robust fun w sock present kept => robust.fill w s sock present kept

theorem delete_keeps : Keeps allowed I (delete s) := by
  intro w kept
  unfold delete
  cases present : w.mgr.heap s with
  | none =>
      rw [wp_bind]
      exact deref_absent robust kept present
  | some sock =>
      have gone := robust.delete w s sock present kept
      rw [wp_bind, wp_deref present]
      unfold Mgr.destroy at gone
      split
      · next client =>
          rw [if_pos client] at gone
          exact gone
      · next server =>
          rw [if_neg server] at gone
          exact gone

/-! ## References and events -/

theorem refAdd_keeps : Keeps allowed I (refAdd s) :=
  updateSocket_keeps robust (by intro _; exact ⟨rfl, rfl, id⟩)

theorem refRelease_keeps : Keeps allowed I (refRelease s) := by
  unfold refRelease
  refine (updateSocket_keeps robust (by intro _; exact ⟨rfl, rfl, id⟩)).bind fun _ =>
    (deref_keeps robust).bind fun _ => ?_
  split
  · exact delete_keeps robust
  · exact Keeps.pure _

theorem hold_keeps : Keeps allowed I (hold s) :=
  (refAdd_keeps robust).bind fun _ =>
    modifyMgr_keeps robust (by intro _; rfl)

theorem unhold_keeps : Keeps allowed I (unhold s) :=
  (modifyMgr_keeps robust (by intro _; rfl)).bind fun _ =>
    refRelease_keeps robust

theorem epollCtl_keeps (mustExist : Bool) (interest : Option Interest) :
    Keeps allowed I (epollCtl s mustExist interest) := by
  unfold epollCtl
  refine Keeps.get fun w => ?_
  refine Keeps.bind (aside_keeps robust (by intro _; rfl)) fun _ => ?_
  split
  · exact (modifyMgr_keeps robust (by intro _; rfl)).bind
      fun _ => Keeps.pure _
  · exact Keeps.pure _

theorem closeDescriptor_keeps : Keeps allowed I (closeDescriptor s) :=
  modifyMgr_keeps robust (by intro _; rfl)

theorem postEvent_keeps (events : Interest) : Keeps allowed I (postEvent s events) := by
  unfold postEvent
  refine (deref_keeps robust).bind fun _ => (epollCtl_keeps robust _ _).bind fun accepted => ?_
  split
  · exact Keeps.pure _
  · exact (record_keeps robust rfl rfl).bind fun _ => Keeps.pure _

theorem burstPush_keeps : Keeps allowed I (burstPush s) := by
  unfold burstPush
  refine (deref_keeps robust).bind fun _ => ?_
  split
  · exact (updateSocket_keeps robust (by intro _; exact ⟨rfl, rfl, id⟩)).bind fun _ =>
      postEvent_keeps robust _
  · exact Keeps.pure _

theorem queueFrame_keeps {frame : Bytes} {write : SequenceBuffer → Bool × SequenceBuffer}
    (writes : ∀ writeBuffer, Writes writeBuffer frame (write writeBuffer).2) :
    Keeps allowed I (Socket.queueFrame s frame write) := by
  intro w kept
  unfold Socket.queueFrame
  obtain absent | ⟨sock, present⟩ := Option.eq_none_or_eq_some (w.mgr.heap s)
  · rw [wp_bind]
    exact deref_absent robust kept absent
  · rw [wp_bind, wp_deref present, wp_bind, wp_updateSocket present, wp_bind, wp_record]
    have queued := robust.queue w s sock frame _ present (writes _) kept
    dsimp only
    split
    · exact (modifyMgr_keeps robust (by intro _; rfl)).bind (fun _ => Keeps.pure _) _ queued
    · exact queued

theorem send_keeps (buff : Bytes) : Keeps allowed I (Socket.send s buff) :=
  queueFrame_keeps robust fun _ => Or.inl rfl

theorem socketSendMsg_keeps (buff : Bytes) : Keeps allowed I (Socket.sendMsg s buff) :=
  queueFrame_keeps robust fun _ => Or.inr ⟨_, _, rfl, rfl⟩

theorem sendUdpPackages_keeps (packets : List Bytes) :
    Keeps allowed I (Socket.sendUdpPackages s packets) := by
  induction packets with
  | nil => exact Keeps.pure _
  | cons packet rest inductionHypothesis =>
      exact (refAdd_keeps robust).bind fun _ =>
        (socketSendMsg_keeps robust _).bind fun _ => inductionHypothesis

theorem sendUDP_keeps (buff : Bytes) : Keeps allowed I (Socket.sendUDP s buff) := by
  unfold Socket.sendUDP
  refine (deref_keeps robust).bind fun sock => ?_
  split
  · exact Keeps.throw robust.freed
  · split
    · exact Keeps.pure _
    · exact (updateSocket_keeps robust (by intro _; exact ⟨rfl, rfl, id⟩)).bind fun _ =>
        (recordIf_keeps robust rfl rfl).bind fun _ =>
          (sendUdpPackages_keeps robust _).bind fun _ => Keeps.pure _

/-! ## What a script may call -/

/-- What follows may rely on a number that is free. -/
theorem makeGeneralConnID_keeps {rest : Nat → M First}
    (next : ∀ connIdx w, w.mgr.find connIdx = none → I w →
      Wp allowed (rest connIdx) (fun _ => I) w) :
    Keeps allowed I (makeGeneralConnID >>= rest) := by
  intro w kept
  rw [wp_bind, makeGeneralConnID, wp_bind, wp_get]
  dsimp only
  split
  · next missed => exact robust.exhausted w missed kept
  · next connIdx found =>
      have free : w.mgr.find connIdx = none := makeGeneralConnIDLoop_free found
      rw [wp_bind, wp_modifyMgr, wp_pure]
      exact next connIdx _ free (robust.number w connIdx found kept)

/-- An object under a number that is free. -/
def Pending (s : SockRef) (w : World) : Prop :=
  ∃ sock, w.mgr.heap s = some sock ∧ w.mgr.find sock.connIdx = none

omit robust in
theorem Pending.born {w : World} {socketType : SocketType} {fd connIdx : Nat} {config : Config}
    (free : w.mgr.find connIdx = none) :
    Pending w.mgr.nextRef (w.withMgr (w.mgr.born (newSocket socketType fd connIdx config))) :=
  ⟨_, Function.update_self .., free⟩

/-- A new object and the entry that tells where its handlers come from. -/
theorem create_keeps {socketType : SocketType} {fd connIdx : Nat} {config : Config}
    {entry : SockRef → LogEntry}
    (origin : ∀ s, Origin s (newSocket socketType fd connIdx config) (entry s))
    {rest : SockRef → M First} {w : World} (free : w.mgr.find connIdx = none) (kept : I w)
    (next : ∀ s w', Pending s w' → I w' → Wp allowed (rest s) (fun _ => I) w') :
    Wp allowed (do
      let s ← allocate (newSocket socketType fd connIdx config)
      record (entry s)
      rest s) (fun _ => I) w := by
  rw [allocate, wp_bind, wp_bind, wp_get, wp_bind, wp_modifyMgr, wp_pure, wp_bind, wp_record]
  exact next _ _ (Pending.born free)
    (robust.create w socketType fd connIdx config _ (origin _) kept)

theorem connecting_keeps {w : World} (pending : Pending s w) (kept : I w) {rest : M First}
    (next : ∀ w', Pending s w' → I w' → Wp allowed rest (fun _ => I) w') :
    Wp allowed (do
      updateSocket s fun sock => { sock with status := .connecting }
      rest) (fun _ => I) w := by
  obtain ⟨sock, present, free⟩ := pending
  rw [wp_bind, wp_updateSocket present]
  refine next _ ⟨_, Function.update_self .., free⟩ ?_
  exact robust.status w s sock .connecting present (by decide) kept

theorem addSocket_keeps {w : World} (pending : Pending s w) (kept : I w) :
    Wp allowed (addSocket s) (fun _ => I) w := by
  obtain ⟨sock, present, free⟩ := pending
  rw [wp_addSocket present free]
  have inserted : I (w.withMgr (w.mgr.insert sock.connIdx s)) :=
    robust.frame w _ rfl rfl kept
  exact robust.socket (w.withMgr (w.mgr.insert sock.connIdx s)) s sock _ present rfl
    ⟨rfl, id⟩ inserted

theorem heirOf_keeps : Keeps allowed I (heirOf s) := by
  unfold heirOf
  refine Keeps.get fun w => ?_
  refine Keeps.bind (aside_keeps robust (by intro _; rfl)) fun _ => ?_
  split
  · exact Keeps.pure _
  · split
    · exact (record_keeps robust rfl rfl).bind fun _ => Keeps.pure _
    · exact Keeps.pure _

theorem removeSocket_keeps (connIdx : Nat) (heir : Option SockRef) :
    Keeps allowed I (removeSocket connIdx heir) := by
  have drops : ∀ s, Keeps allowed I (do
      refRelease s
      modifyMgr fun m => m.erase connIdx) := fun s =>
    (refRelease_keeps robust).bind fun _ =>
      modifyMgr_keeps robust (by intro _; rfl)
  unfold removeSocket
  refine Keeps.get fun w => ?_
  split
  · exact Keeps.pure _
  · refine (epollCtl_keeps robust _ _).bind fun accepted => ?_
    dsimp only
    split
    · exact (record_keeps robust rfl rfl).bind fun _ => drops _
    · exact drops _

theorem disconnect_keeps (connIdx : Nat) : Keeps allowed I (disconnect connIdx) := by
  unfold disconnect
  refine Keeps.get fun w => ?_
  split
  · exact Keeps.pure _
  · exact (refAdd_keeps robust).bind fun _ =>
      modifyMgr_keeps robust (by intro _; rfl)

theorem sendThrough_keeps (connIdx : Nat) {sendTo : SockRef → M Bool}
    (sends : ∀ s, Keeps allowed I (sendTo s)) : Keeps allowed I (sendThrough connIdx sendTo) := by
  unfold sendThrough
  refine Keeps.get fun w => ?_
  split
  · exact Keeps.pure _
  · refine (refAdd_keeps robust).bind fun _ => (sends _).bind fun ret => ?_
    dsimp only
    split
    · exact (refRelease_keeps robust).bind fun _ => Keeps.pure _
    · exact Keeps.pure _

theorem sendMsg_keeps (connIdx : Nat) (content : Bytes) :
    Keeps allowed I (sendMsg connIdx content) := by
  refine sendThrough_keeps robust connIdx fun s => (deref_keeps robust).bind fun sock => ?_
  split
  · exact socketSendMsg_keeps robust content
  · split
    · exact sendUDP_keeps robust content
    · exact socketSendMsg_keeps robust content

theorem connectEx_keeps (config : Config) (outcome : ConnectOutcome) :
    Keeps allowed I (connectEx config outcome) := by
  unfold connectEx
  refine makeGeneralConnID_keeps robust fun connIdx w free kept => ?_
  refine create_keeps robust (fun _ => Or.inr rfl) free kept fun s w pending kept => ?_
  refine connecting_keeps robust pending kept fun w pending kept => ?_
  dsimp only
  split
  · refine (addSocket_keeps robust pending kept).seq fun _ => ?_
    refine (epollCtl_keeps robust _ _).bind fun accepted => ?_
    split
    · exact (record_keeps robust rfl rfl).bind fun _ => Keeps.pure _
    · exact Keeps.pure _
  · exact (delete_keeps robust).bind (fun _ => Keeps.pure _) w kept

/-- `onConnect` is whatever reports the outcome. -/
theorem connectUDP_keeps {onConnect : SockRef → Bool → M Unit}
    (reports : ∀ s isSuccess, Keeps allowed I (onConnect s isSuccess)) (config : Config)
    (established isServerBuild : Bool) :
    Keeps allowed I (connectUDP onConnect config established isServerBuild) := by
  unfold connectUDP
  refine makeGeneralConnID_keeps robust fun connIdx w free kept => ?_
  refine create_keeps robust ?_ free kept fun s w pending kept => ?_
  · intro s
    cases isServerBuild with
    | true => exact Or.inl rfl
    | false => exact Or.inr rfl
  · refine connecting_keeps robust pending kept fun w pending kept => ?_
    dsimp only
    split
    · refine (addSocket_keeps robust pending kept).seq fun _ => ?_
      refine (setStatus_keeps robust (by decide)).bind fun _ => ?_
      refine (epollCtl_keeps robust _ _).bind fun accepted => ?_
      split
      · split
        · refine (joins_keeps robust).bind fun _ => ?_
          exact (reports s true).bind fun _ => Keeps.pure _
        · exact Keeps.pure _
      · refine (record_keeps robust rfl rfl).bind fun _ =>
          (closeDescriptor_keeps robust).bind fun _ => ?_
        refine (setStatus_keeps robust (by decide)).bind fun _ => ?_
        exact (reports s false).bind fun _ => (heirOf_keeps robust).bind fun heir =>
          (removeSocket_keeps robust connIdx heir).bind fun _ => Keeps.pure _
    · exact (delete_keeps robust).bind (fun _ => Keeps.pure _) w kept

theorem udpConnect_keeps {onConnect : SockRef → Bool → M Unit}
    (reports : ∀ s isSuccess, Keeps allowed I (onConnect s isSuccess)) (config : Config)
    (established : Bool) : Keeps allowed I (UDPClient.connect onConnect config established) := by
  unfold UDPClient.connect
  refine (connectUDP_keeps robust reports config established false).bind fun connIdx => ?_
  split
  · exact (sendMsg_keeps robust _ _).bind fun _ => Keeps.pure _
  · exact Keeps.pure _

theorem runTask_keeps {script : M Unit} (scripted : Keeps allowed I script) (handle : HandleInfo)
    {task : LogEntry} (plain : task.isPlain = true) (quiet : task.isTraffic = false) :
    Keeps allowed I (runTask script handle task) := by
  unfold runTask
  refine (record_keeps robust plain quiet).bind fun _ => ?_
  split
  · exact scripted
  · exact Keeps.pure _

theorem runConnectTask_keeps {script : M Unit} (scripted : Keeps allowed I script)
    (isSuccess : Bool) : Keeps allowed I (runConnectTask script s isSuccess) :=
  (deref_keeps robust).bind fun _ => runTask_keeps robust scripted _ rfl rfl

end Keeping

mutual

theorem luaCall_keeps {allowed : Fault → World → Prop}
    {I : World → Prop} (robust : Robust allowed I) :
    ∀ call, Keeps allowed I (luaCall call)
  | .sendMsg connIdx message => by
      unfold luaCall
      exact (sendMsg_keeps robust connIdx message.data).bind fun _ => Keeps.pure _
  | .send connIdx message => by
      unfold luaCall
      exact (sendThrough_keeps robust connIdx fun s => send_keeps robust _).bind
        fun _ => Keeps.pure _
  | .disconnect connIdx => by
      unfold luaCall
      exact disconnect_keeps robust connIdx
  | .connectEx config outcome => by
      unfold luaCall
      exact (connectEx_keeps robust config outcome).bind fun _ => Keeps.pure _
  | .connectUDP config established callback => by
      unfold luaCall
      exact udpConnect_keeps robust
        (fun s isSuccess => runConnectTask_keeps robust (runCalls_keeps robust callback) isSuccess)
        config established

theorem runCalls_keeps {allowed : Fault → World → Prop}
    {I : World → Prop} (robust : Robust allowed I) :
    ∀ calls, Keeps allowed I (runCalls calls)
  | [] => by
      unfold runCalls
      exact mark_keeps robust
  | call :: rest => by
      unfold runCalls
      exact (mark_keeps robust).bind fun _ =>
        (luaCall_keeps robust call).bind fun _ => runCalls_keeps robust rest

end

section Keeping

variable {allowed : Fault → World → Prop} {I : World → Prop} {s : SockRef}
  (robust : Robust allowed I)

include robust

theorem runScript_keeps : Keeps allowed I runScript :=
  Keeps.get fun _ => Keeps.bind (aside_keeps robust (by intro _; rfl)) fun _ =>
    runCalls_keeps robust _

/-! ## Reading -/

theorem onConnect_keeps (isSuccess : Bool) : Keeps allowed I (Socket.onConnect s isSuccess) :=
  runConnectTask_keeps robust (runScript_keeps robust) isSuccess

theorem onDisconnect_keeps : Keeps allowed I (Socket.onDisconnect s) :=
  (deref_keeps robust).bind fun _ => runTask_keeps robust (runScript_keeps robust) _ rfl rfl

theorem onData_keeps (data : Bytes) : Keeps allowed I (Socket.onData s data) :=
  (deref_keeps robust).bind fun _ => runTask_keeps robust (runScript_keeps robust) _ rfl rfl

theorem kcpMergeLoop_keeps (segments : List Ikcp.Seg) :
    Keeps allowed I (Socket.kcpMergeLoop s segments) := by
  induction segments with
  | nil => exact Keeps.pure _
  | cons seg rest inductionHypothesis =>
      unfold Socket.kcpMergeLoop
      refine (onData_keeps robust _).bind fun _ => ?_
      refine (updateSocket_keeps robust (by intro _; exact ⟨rfl, rfl, id⟩)).bind fun _ => ?_
      split
      · exact Keeps.pure _
      · exact inductionHypothesis.bind fun _ => Keeps.pure _

theorem kcpRecv_keeps : Keeps allowed I (Socket.kcpRecv s) := by
  unfold Socket.kcpRecv
  refine (deref_keeps robust).bind fun sock => ?_
  split
  · exact Keeps.throw robust.freed
  · split
    · exact Keeps.pure _
    · split
      · exact Keeps.pure _
      · exact (kcpMergeLoop_keeps robust _).bind fun _ =>
          (updateSocket_keeps robust (by intro _; exact ⟨rfl, rfl, id⟩)).bind fun _ => Keeps.pure _

theorem kcpRecvLoop_keeps (turns : Nat) : Keeps allowed I (Socket.kcpRecvLoop s turns) := by
  induction turns with
  | zero => exact Keeps.throw robust.diverged
  | succ turns inductionHypothesis =>
      unfold Socket.kcpRecvLoop
      refine (kcpRecv_keeps robust).bind fun received => ?_
      split
      · exact inductionHypothesis
      · exact Keeps.pure _

theorem addUInt32_keeps (a b : Nat) : Keeps allowed I (Socket.addUInt32 s a b) := by
  unfold Socket.addUInt32
  generalize 2 ^ 32 = range
  split
  · exact (record_keeps robust rfl rfl).bind fun _ => Keeps.pure _
  · exact Keeps.pure _

theorem connectUdpPort_keeps : Keeps allowed I (Socket.connectUdpPort s) := by
  unfold Socket.connectUdpPort
  refine Keeps.get fun w => ?_
  exact Keeps.bind (aside_keeps robust (by intro _; rfl)) fun _ =>
    (deref_keeps robust).bind fun _ => Keeps.pure _

theorem onHandshake_keeps (packetLen cursor : Nat) :
    Keeps allowed I (Socket.onHandshake s packetLen cursor) := by
  unfold Socket.onHandshake
  refine (deref_keeps robust).bind fun sock => ?_
  split
  · split
    · refine (connectUdpPort_keeps robust).bind fun answer => ?_
      split
      · exact (joins_keeps robust).bind fun _ => onConnect_keeps robust true
      · exact (record_keeps robust rfl rfl).bind fun _ =>
          (onConnect_keeps robust false).bind fun _ =>
          disconnect_keeps robust _
    · exact Keeps.pure _
  · exact disconnect_keeps robust _

theorem onFrame_keeps (packetLen cursor len : Nat) :
    Keeps allowed I (Socket.onFrame s packetLen cursor len) := by
  unfold Socket.onFrame
  refine (deref_keeps robust).bind fun sock => ?_
  dsimp only
  split
  · exact onData_keeps robust _
  · split
    · unfold Socket.onKcpFrame
      refine (deref_keeps robust).bind fun sock => ?_
      split
      · exact Keeps.throw robust.freed
      · exact (updateSocket_keeps robust (by intro _; exact ⟨rfl, rfl, id⟩)).bind fun _ =>
          kcpRecvLoop_keeps robust _
    · exact onHandshake_keeps robust _ _

theorem onReadLoop_keeps (packetLen turns : Nat) :
    ∀ cursor, Keeps allowed I (Socket.onReadLoop s packetLen turns cursor) := by
  induction turns with
  | zero => exact fun _ => Keeps.throw robust.diverged
  | succ turns inductionHypothesis =>
      intro cursor
      unfold Socket.onReadLoop
      refine (addUInt32_keeps robust _ _).bind fun bodyStart => ?_
      split
      · refine (deref_keeps robust).bind fun sock => ?_
        dsimp only
        split
        · refine (addUInt32_keeps robust _ _).bind fun bodyEnd => ?_
          split
          · exact (onFrame_keeps robust _ _ _).bind fun _ => inductionHypothesis _
          · exact Keeps.pure _
        · exact (record_keeps robust rfl rfl).bind fun _ =>
            (disconnect_keeps robust _).bind fun _ => Keeps.pure _
      · exact Keeps.pure _

theorem store_keeps (stores : Stores I s) (readBuffer : Socket → SequenceBuffer) :
    Keeps allowed I (updateSocket s fun sock => { sock with readBuffer := readBuffer sock }) :=
  change_keeps robust fun w sock present kept => stores w sock _ present kept

theorem onRead_keeps (stores : Stores I s) : Keeps allowed I (Socket.onRead s) := by
  unfold Socket.onRead
  generalize Socket.cursorCount + 1 = turns
  refine (deref_keeps robust).bind fun sock => ?_
  dsimp only
  split
  · refine (onReadLoop_keeps robust _ _ _).bind fun cursor => ?_
    split
    · exact store_keeps robust stores _
    · exact Keeps.pure _
  · exact (onData_keeps robust _).bind fun _ => store_keeps robust stores _

theorem feed_keeps (stores : Stores I s) (chunk : Bytes) : Keeps allowed I (Socket.feed s chunk) :=
  (store_keeps robust stores _).bind fun _ => onRead_keeps robust stores

/-- An invariant that does not care for read buffers. -/
theorem Robust.reads (stores : ∀ s, Stores I s) : Reads allowed I where
  toRobust := robust
  feed w s _ chunk _ _ kept := feed_keeps robust (stores s) chunk w kept

theorem update_keeps (curTime : UInt32) : Keeps allowed I (Socket.update s curTime) := by
  unfold Socket.update
  refine (deref_keeps robust).bind fun sock => ?_
  split
  · split
    · exact Keeps.pure _
    · exact (updateSocket_keeps robust (by intro _; exact ⟨rfl, rfl, id⟩)).bind fun _ =>
        sendUdpPackages_keeps robust _
  · exact Keeps.pure _

/-! ## Handlers of events -/

theorem writeCallback_keeps (results : List SendResult) :
    Keeps allowed I (Socket.writeCallback s results) := by
  induction results with
  | nil => exact (deref_keeps robust).bind fun _ => Keeps.pure _
  | cons result rest inductionHypothesis =>
      have goesOn : ∀ (stops : Prop) [Decidable stops],
          Keeps allowed I (if stops then pure false else Socket.writeCallback s rest) := by
        intro stops _
        split
        · exact Keeps.pure _
        · exact inductionHypothesis
      intro w kept
      unfold Socket.writeCallback
      obtain absent | ⟨sock, present⟩ := Option.eq_none_or_eq_some (w.mgr.heap s)
      · rw [wp_bind]
        exact deref_absent robust kept absent
      · rw [wp_bind, wp_deref present]
        split
        · exact kept
        · split
          · exact kept
          · next bytes =>
              have few := Nat.min_le_right bytes (transferLimit (Socket.sendLen sock.writeBuffer))
              dsimp only
              generalize min bytes (transferLimit (Socket.sendLen sock.writeBuffer)) = bytesWritten
                at few ⊢
              rw [wp_bind, wp_record, wp_bind, wp_updateSocket (by exact present)]
              have sent := robust.transmit w s sock bytesWritten present few kept
              generalize Socket.sendLen sock.writeBuffer = offered
              exact goesOn _ _ sent

theorem closeSocket_keeps : Keeps allowed I (closeSocket s) := by
  unfold closeSocket
  refine (deref_keeps robust).bind fun sock => ?_
  split
  · refine (recordIf_keeps robust rfl rfl).bind fun _ => ?_
    refine (setStatus_keeps robust (by decide)).bind fun _ => ?_
    refine (onDisconnect_keeps robust).bind fun _ => (deref_keeps robust).bind fun sock => ?_
    exact (removeSocket_keeps robust _ _).bind fun _ => closeDescriptor_keeps robust
  · exact Keeps.pure _

theorem handleConnect_keeps (isSuccess : Bool) : Keeps allowed I (handleConnect s isSuccess) := by
  unfold handleConnect
  split
  · refine (setStatus_keeps robust (by decide)).bind fun _ => ?_
    exact (postEvent_keeps robust _).bind fun _ => onConnect_keeps robust true
  · refine (onConnect_keeps robust false).bind fun _ => ?_
    refine (setStatus_keeps robust (by decide)).bind fun _ => (deref_keeps robust).bind fun _ => ?_
    exact (removeSocket_keeps robust _ _).bind fun _ => closeDescriptor_keeps robust

theorem fillAndPush_keeps : Keeps allowed I (fillAndPush s) := by
  unfold fillAndPush
  refine (fillVector_keeps robust).bind fun _ => (deref_keeps robust).bind fun sock => ?_
  split
  · exact (burstPush_keeps robust).bind fun _ => Keeps.pure _
  · exact Keeps.pure _

theorem handlePeerClosed_keeps : Keeps allowed I (handlePeerClosed s) := by
  unfold handlePeerClosed
  refine (deref_keeps robust).bind fun sock => ?_
  split
  · exact closeSocket_keeps robust
  · split
    · exact closeSocket_keeps robust
    · refine (record_keeps robust rfl rfl).bind fun _ =>
        (closeDescriptor_keeps robust).bind fun _ => ?_
      exact (setStatus_keeps robust (by decide)).bind fun _ => onConnect_keeps robust false

theorem handleCanWrite_keeps (results : List SendResult) :
    Keeps allowed I (handleCanWrite s results) := by
  unfold handleCanWrite
  refine (deref_keeps robust).bind fun sock => ?_
  split
  · split
    · refine (fillVector_keeps robust).bind fun _ => ?_
      refine (writeCallback_keeps robust results).bind fun _ =>
        (deref_keeps robust).bind fun sock => ?_
      split
      · refine (updateSocket_keeps robust (by intro _; exact ⟨rfl, rfl, id⟩)).bind fun _ => ?_
        exact (postEvent_keeps robust _).bind fun _ => Keeps.pure _
      · exact (postEvent_keeps robust _).bind fun _ => Keeps.pure _
    · split
      · exact closeSocket_keeps robust
      · exact Keeps.pure _
  · exact Keeps.pure _

theorem handleDelaySend_keeps : Keeps allowed I (handleDelaySend s) := by
  unfold handleDelaySend
  refine (deref_keeps robust).bind fun sock => ?_
  split
  · exact fillAndPush_keeps robust
  · exact Keeps.pure _

theorem handleClose_keeps {w : World} {point : Mgr} {earlier : List Mgr}
    (seen : w.seen = point :: earlier) (first : point.heap = w.mgr.heap) (kept : I w) :
    Wp allowed (handleClose s) (fun _ => I) w := by
  unfold handleClose
  obtain absent | ⟨sock, present⟩ := Option.eq_none_or_eq_some (w.mgr.heap s)
  · rw [wp_bind]
    exact deref_absent robust kept absent
  · rw [wp_bind, wp_deref present]
    split
    · next connected =>
        rw [wp_bind, wp_updateSocket present]
        exact (burstPush_keeps robust).bind (fun _ => Keeps.pure _) _
          (robust.closing w point earlier s sock seen first present connected kept)
    · exact kept

theorem handleDelayEventLoop_keeps (turns : Nat) :
    Keeps allowed I (handleDelayEventLoop turns) := by
  induction turns with
  | zero => exact Keeps.throw robust.diverged
  | succ turns inductionHypothesis =>
      intro w kept
      have leaves : ∀ s, Keeps allowed I (do
          unhold s
          handleDelayEventLoop turns) := fun s =>
        (unhold_keeps robust).bind fun _ => inductionHypothesis
      have closes : ∀ s (w : World) {point earlier}, w.seen = point :: earlier →
          point.heap = w.mgr.heap → I w →
          Wp allowed (do
            handleClose s
            unhold s
            handleDelayEventLoop turns) (fun _ => I) w := by
        intro s w point earlier seen first kept
        rw [wp_bind]
        refine (handleClose_keeps robust seen first kept).mono ?_
        intro _ w' closed
        exact leaves _ w' closed
      have marked := robust.mark w kept
      unfold handleDelayEventLoop
      rw [wp_bind, wp_mark, wp_bind, wp_get]
      dsimp only
      split
      · exact marked
      · next event rest queue =>
          rw [wp_bind, popEvent, wp_modifyMgr]
          split
          · refine closes _ _ rfl rfl ?_
            exact robust.frame { w with seen := w.mgr :: w.seen } _ rfl rfl marked
          · refine (handleDelaySend_keeps robust).bind (fun _ => leaves _) _ ?_
            exact robust.frame { w with seen := w.mgr :: w.seen } _ rfl rfl marked

/-! ## New sockets -/

/-- A descriptor of its own makes the socket a server's; descriptor 0 does not. -/
theorem accept_keeps (aSocket : Nat) (config : Config) :
    Keeps allowed I (accept aSocket config) := by
  have settles : ∀ s w, Pending s w → I w → Wp allowed (do
      addSocket s
      updateSocket s fun sock => { sock with status := .connected }
      let sock ← deref s
      let toWrite : Bool := sock.writeBuffer.getSize ≠ 0
      if ← epollCtlAdd s { epollIn := !toWrite, epollOut := toWrite } then
        Socket.onConnect s true
      else
        record (.epollError s)
        closeDescriptor s
        removeSocket sock.connIdx) (fun _ => I) w := by
    intro s w pending kept
    refine (addSocket_keeps robust pending kept).seq fun _ => ?_
    refine (setStatus_keeps robust (by decide)).bind fun _ => (deref_keeps robust).bind fun sock =>
      ?_
    dsimp only
    refine (epollCtl_keeps robust _ _).bind fun accepted => ?_
    split
    · exact onConnect_keeps robust true
    · exact (record_keeps robust rfl rfl).bind fun _ => (closeDescriptor_keeps robust).bind fun _ =>
        removeSocket_keeps robust _ _
  unfold accept
  refine makeGeneralConnID_keeps robust fun connIdx w free kept => ?_
  unfold recordIf
  by_cases zero : aSocket = 0
  · simp only [zero, if_true]
    exact create_keeps robust (fun _ => Or.inl rfl) free kept settles
  · simp only [zero, if_false, pure_bind]
    rw [allocate, wp_bind, wp_bind, wp_get, wp_bind, wp_modifyMgr, wp_pure]
    exact settles _ _ (Pending.born free) (robust.serve w _ _ _ _ zero kept)

theorem connect_keeps (config : Config) (outcome : ConnectOutcome) :
    Keeps allowed I (connect config outcome) := by
  unfold connect
  refine makeGeneralConnID_keeps robust fun connIdx w free kept => ?_
  refine create_keeps robust ?_ free kept fun s w pending kept => ?_
  · exact fun _ => Or.inr rfl
  · refine connecting_keeps robust pending kept fun w pending kept => ?_
    split
    · refine (addSocket_keeps robust pending kept).seq fun _ => ?_
      refine (setStatus_keeps robust (by decide)).bind fun _ => ?_
      refine (deref_keeps robust).bind fun sock => ?_
      dsimp only
      refine (epollCtl_keeps robust _ _).bind fun accepted => ?_
      have reports : Keeps allowed I (do
          Socket.onConnect s true
          pure (← deref s).connIdx) :=
        (onConnect_keeps robust true).bind fun _ => (deref_keeps robust).bind fun _ => Keeps.pure _
      split
      · exact (record_keeps robust rfl rfl).bind fun _ => reports
      · exact reports
    · exact (delete_keeps robust).bind (fun _ => Keeps.pure _) w kept

/-! ## Batches and runs -/

theorem updateAll_keeps (curTime : UInt32) (sockets : List (Nat × SockRef)) :
    Keeps allowed I (updateAll curTime sockets) := by
  induction sockets with
  | nil => exact Keeps.pure _
  | cons entry rest inductionHypothesis =>
      exact (hold_keeps robust).bind fun _ => (update_keeps robust curTime).bind fun _ =>
        (unhold_keeps robust).bind fun _ => inductionHypothesis

end Keeping

/-- One call moves no more bytes than there is space for. -/
theorem transferLimit_intOf (space : Nat) : transferLimit (intOf space) ≤ space := by
  unfold transferLimit intOf
  rw [Int.bmod_def]
  split <;> omega

section Receiving

variable {allowed : Fault → World → Prop} {I : World → Prop} {s : SockRef} (reads : Reads allowed I)

include reads

theorem readLoop_keeps (results : List RecvResult) : Keeps allowed I (readLoop s results) := by
  have robust := reads.toRobust
  induction results with
  | nil => exact (deref_keeps robust).bind fun _ => Keeps.pure _
  | cons result rest inductionHypothesis =>
      intro w kept
      unfold readLoop
      obtain absent | ⟨sock, present⟩ := Option.eq_none_or_eq_some (w.mgr.heap s)
      · rw [wp_bind]
        exact deref_absent robust kept absent
      · rw [wp_bind, wp_deref present]
        have room := transferLimit_intOf sock.readBuffer.getSpace
        generalize intOf sock.readBuffer.getSpace = space at room ⊢
        dsimp only
        split
        · exact kept
        · split
          · exact kept
          · exact kept
          · next data =>
              have few := (List.length_take_le _ data).trans room
              generalize data.take (transferLimit space) = received at few ⊢
              split
              · exact (handlePeerClosed_keeps robust).bind (fun _ => Keeps.pure _) w kept
              · refine (reads.feed w s sock _ present few kept).seq fun _ w' fed => ?_
                split
                · exact inductionHypothesis w' fed
                · exact fed

theorem handleReadComplete_keeps (results : List RecvResult) :
    Keeps allowed I (handleReadComplete s results) := by
  unfold handleReadComplete
  refine (deref_keeps reads.toRobust).bind fun sock => ?_
  split
  · refine (readLoop_keeps reads results).bind fun behind => ?_
    split
    · exact fillAndPush_keeps reads.toRobust
    · exact Keeps.pure _
  · exact Keeps.pure _

theorem handleSocketEvent_keeps (events : Flags) (recvs : List RecvResult)
    (sends : List SendResult) : Keeps allowed I (handleSocketEvent s events recvs sends) := by
  have writes : Keeps allowed I (do
      if events.epollOut then
        if (← deref s).status = .connecting then handleConnect s true
        else handleCanWrite s sends) := by
    split
    · refine (deref_keeps reads.toRobust).bind fun sock => ?_
      split
      · exact handleConnect_keeps reads.toRobust true
      · exact handleCanWrite_keeps reads.toRobust sends
    · exact Keeps.pure _
  unfold handleSocketEvent
  split
  · refine (deref_keeps reads.toRobust).bind fun sock => ?_
    split
    · exact handleConnect_keeps reads.toRobust false
    · exact closeSocket_keeps reads.toRobust
  · dsimp only
    split
    · exact (handleReadComplete_keeps reads recvs).bind fun _ => writes
    · exact writes

theorem processEntry_keeps : ∀ entry, Keeps allowed I (processEntry entry)
  | .wakeup epollIn readOk => by
      change Keeps allowed I (if epollIn && readOk then handleDelayEvent else pure ())
      split
      · exact Keeps.get fun _ => handleDelayEventLoop_keeps reads.toRobust _
      · exact Keeps.pure _
  | .listenTcp config none => Keeps.pure _
  | .listenTcp config (some aSocket) => accept_keeps reads.toRobust aSocket config
  | .listenUdp config datagram established => by
      change Keeps allowed I (handleAcceptUDPComplete config datagram established)
      unfold handleAcceptUDPComplete
      split
      · exact (connectUDP_keeps reads.toRobust (fun _ => onConnect_keeps reads.toRobust) _ _ _).bind
          fun _ => Keeps.pure _
      · exact Keeps.pure _
  | .socket s events recvs sends => by
      rw [processEntry]
      refine (modifyMgr_keeps reads.toRobust (by intro _; rfl)).bind fun _ => ?_
      exact (hold_keeps reads.toRobust).bind fun _ =>
        (handleSocketEvent_keeps reads events recvs sends).bind fun _ => unhold_keeps reads.toRobust

theorem processBatch_keeps (entries : List Entry) : Keeps allowed I (processBatch entries) := by
  induction entries with
  | nil => exact Keeps.pure _
  | cons entry rest inductionHypothesis =>
      exact (mark_keeps reads.toRobust).bind fun _ =>
        (processEntry_keeps reads entry).bind fun _ => inductionHypothesis

theorem batchLoop_keeps (batches : List (List Entry)) : Keeps allowed I (batchLoop batches) := by
  induction batches with
  | nil => exact Keeps.pure _
  | cons entries rest inductionHypothesis =>
      unfold batchLoop epollWait
      rw [bind_assoc]
      refine Keeps.get fun w => ?_
      rw [bind_assoc]
      refine (modifyMgr_keeps reads.toRobust (by intro _; rfl)).bind fun _ => ?_
      rw [pure_bind]
      split
      · exact Keeps.pure _
      · exact (processBatch_keeps reads _).bind fun _ => inductionHypothesis

theorem run_keeps : ∀ op : Op, Keeps allowed I op.run
  | .eventLoop startTime batches =>
      Keeps.get fun _ => (updateAll_keeps reads.toRobust startTime _).bind fun _ =>
        batchLoop_keeps reads batches
  | .connect config outcome => (connect_keeps reads.toRobust config outcome).bind fun _ =>
    Keeps.pure _
  | .lua call => luaCall_keeps reads.toRobust call

/-- What holds when a step starts holds when it ends, unless it fails as allowed. -/
theorem exec_ends (step : Step) {m : Mgr} (start : I (step.start m)) :
    ((step.exec m).1 = .ok () → I (step.exec m).2) ∧
      ∀ fault, (step.exec m).1 = .error fault → allowed fault (step.exec m).2 := by
  have kept := run_keeps reads step.op _ start
  unfold Wp at kept
  unfold Step.exec
  rcases ended : step.op.run (step.start m) with ⟨failure | value, w⟩
  · simp only [ended] at kept
    refine ⟨by simp, fun fault failed => ?_⟩
    exact Except.error.inj failed ▸ kept
  · simp only [ended] at kept
    exact ⟨fun _ => kept, by simp⟩

end Receiving

/-- An invariant that failures respect holds when a step ends, however it ends. -/
theorem exec_robust {I : World → Prop} (reads : Reads (fun _ => I) I) (step : Step) {m : Mgr}
    (start : I (step.start m)) : I (step.exec m).2 := by
  obtain ⟨returns, fails⟩ := exec_ends reads step start
  rcases ending : (step.exec m).1 with fault | value
  · exact fails fault ending
  · exact returns ending

section Runs

variable {P : Mgr → Prop} (stable : Stable P)

include stable

/-- A step leads from one manager with the property to another, and passes only such. -/
theorem exec_keeps (step : Step) {m : Mgr} (holds : P m) : Always P (step.exec m).2 :=
  exec_robust (stable.robust.reads stable.stores) step
    ⟨holds, fun _ membership => absurd membership List.not_mem_nil⟩

theorem reachable_keeps (initial : P Mgr.initial) {m : Mgr} (reached : system.Reachable m) :
    P m := by
  refine reached.invariant ?_ ?_
  · rintro m rfl
    exact initial
  · rintro m step m' - holds ⟨-, rfl⟩
    exact (exec_keeps stable step holds).1

end Runs

end CrossOver.Engine.Network
