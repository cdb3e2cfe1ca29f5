import CrossOver.Engine.Network.Handlers

/-!
# Sockets of both kinds in one manager

`Lives` follows a TCP socket through every change.  Next to UDP sockets less can
be said, and less is needed for references and callbacks: the standing of a
socket is the part of its view that these depend on, `Sound` and `Good` are what
every step keeps of it, and `Kept` is the same for the whole manager.

A UDP socket is connected for the manager before it has heard from its peer.
From the moment such a socket is given up nothing is claimed about its callbacks,
and a message taken by `ikcp_send` counts as a reference of its own.
-/

namespace CrossOver.Engine.Network

open CrossOver.Lib

def LogEntry.isTaken : LogEntry → Bool
  | .taken _ => true
  | _ => false

def LogEntry.isHalfOpen : LogEntry → Bool
  | .halfOpen _ => true
  | _ => false

def LogEntry.isEvicted : LogEntry → Bool
  | .evicted _ => true
  | _ => false

theorem LogEntry.isEvicted_of_callback {entry : LogEntry} {callback : Callback}
    (made : entry.callback = some callback) : entry.isEvicted = false := by
  cases entry <;> first | rfl | cases made

structure Face where
  socketType : SocketType
  connIdx : Nat
  status : SocketStatus
  isUdpConnected : Bool
  isParsePackage : Bool
  count : Int

def Socket.face (sock : Socket) : Face where
  socketType := sock.socketType
  connIdx := sock.connIdx
  status := sock.status
  isUdpConnected := sock.isUdpConnected
  isParsePackage := sock.isParsePackage
  count := sock.count

structure Standing where
  face : Option Face
  names : List Nat
  events : Nat
  held : Nat
  trace : List Callback
  taken : Nat
  givenUp : Bool
  /-- the epoll set holds it, or has held it until it was evicted -/
  registered : Bool

def View.standing (v : View) : Standing where
  face := v.sock.map Socket.face
  names := v.names
  events := v.events.length
  held := v.held
  trace := v.trace
  taken := v.log.countP LogEntry.isTaken
  givenUp := v.log.any LogEntry.isHalfOpen
  registered := v.interest.isSome || v.log.any LogEntry.isEvicted

@[simp]
theorem View.standing_setSock (v : View) (sock : Socket) :
    (v.setSock sock).standing = { v.standing with face := some sock.face } := rfl

theorem View.standing_note (v : View) (entry : LogEntry) :
    (v.note entry).standing =
      { v.standing with
        trace := v.standing.trace ++ entry.callback.toList
        taken := v.standing.taken + if entry.isTaken then 1 else 0
        givenUp := v.standing.givenUp || entry.isHalfOpen
        registered := v.standing.registered || entry.isEvicted } := by
  cases callback : entry.callback <;>
    simp [View.standing, View.note, View.trace, traceOf, List.countP_append, List.countP_cons,
      callback, Bool.or_assoc]

/-- An entry that is about neither callbacks nor references. -/
theorem View.standing_remark (v : View) {entry : LogEntry} (silent : entry.callback = none)
    (free : entry.isTaken = false) (harmless : entry.isHalfOpen = false)
    (stays : entry.isEvicted = false) : (v.note entry).standing = v.standing := by
  rw [View.standing_note, silent, free, harmless, stays]
  simp

def Ordered (trace : List Callback) : Prop :=
  trace <+: [.connect false] ∨
    ∃ bodies : List Bytes, trace <+: .connect true :: bodies.map .recv ++ [.close]

/-- Connected for the manager, but without the port of its peer. -/
def Face.halfOpen (face : Face) : Prop := face.socketType = .udp ∧ face.isUdpConnected = false

namespace Standing

def refs (a : Standing) : Nat := a.names.length + a.events + a.held + a.taken

/-- The callbacks that have been made, by status. -/
def Stage (a : Standing) (face : Face) : Prop :=
  match face.status with
  | .connecting => face.socketType = .tcp ∧ (a.trace = [] ∨ a.trace = [.connect false])
  | .connected => face.halfOpen ∧ a.trace = [] ∨ ¬face.halfOpen ∧ Talking a.trace
  | .closing => face.halfOpen ∧ a.trace = [] ∨ ¬face.halfOpen ∧ Talking a.trace
  | .closed => Finished a.trace
  | .listening => False

/-- Everything but the count. -/
structure Sound (a : Standing) : Prop where
  gone : a.face = none → a.names = [] ∧ a.events = 0 ∧ a.held = 0
  named : a.names ≠ [] → ∃ face, a.face = some face ∧ a.names = [face.connIdx]
  opened : ∀ face, a.face = some face → face.status ≠ .closed → a.names ≠ []
  parses : ∀ face, a.face = some face → face.socketType = .udp → face.isParsePackage = true
  stage : ∀ face, a.face = some face → a.givenUp = false → a.Stage face
  ordered : a.givenUp = false → Ordered a.trace
  leaving : ∀ face, a.face = some face → a.givenUp = false → face.status = .closed →
    a.names ≠ [] → a.held ≠ 0 ∨ a.trace = [.connect false]

structure Good (a : Standing) : Prop extends Sound a where
  counted : ∀ face, a.face = some face → face.count = a.refs ∧ 0 < a.refs

/-- No function is in the middle of closing the socket. -/
def Settled (a : Standing) : Prop :=
  ∀ face, a.face = some face → a.givenUp = false →
    (face.status = .connecting → a.trace = []) ∧ (face.status = .closed → a.names = [])

/-- A TCP socket whose connect callback is still to come or has been made. -/
structure Answerable (a : Standing) : Prop where
  tcp : ∀ face, a.face = some face → face.socketType = .tcp
  kept : a.givenUp = false
  awaited : a.trace = [] →
    ∃ face, a.face = some face ∧ face.status = .connecting ∧ a.registered = true

/-- The epoll set has changed. -/
def register (a : Standing) (registered : Bool) : Standing := { a with registered := registered }

end Standing

/-! ## References -/

section References

variable {a : Standing} {face : Face}

theorem Standing.Good.register (good : a.Good) (registered : Bool) :
    (a.register registered).Good :=
  ⟨⟨good.gone, good.named, good.opened, good.parses, good.stage, good.ordered, good.leaving⟩,
    good.counted⟩

theorem Standing.Settled.register (settled : a.Settled) (registered : Bool) :
    (a.register registered).Settled := settled

theorem Standing.Answerable.heard (answerable : a.Answerable) (present : a.face = some face)
    (status : face.status ≠ .connecting) : a.trace ≠ [] := by
  intro silent
  obtain ⟨other, holds, connecting, _⟩ := answerable.awaited silent
  obtain rfl := Option.some.inj (present.symm.trans holds)
  exact status connecting

/-- A callback has been made, so the epoll set does not matter any more. -/
theorem Standing.Answerable.register (answerable : a.Answerable) (heard : a.trace ≠ [])
    (registered : Bool) : (a.register registered).Answerable :=
  ⟨answerable.tcp, answerable.kept, fun silent => absurd silent heard⟩

/-- The count, the queue and what is held have changed. -/
def Standing.recount (a : Standing) (face : Face) (count : Int) (events held taken : Nat) :
    Standing :=
  { a with
    face := some { face with count := count }, events := events, held := held, taken := taken }

theorem Standing.Sound.recount (sound : a.Sound) (present : a.face = some face) {count : Int}
    {events held taken : Nat} (holds : a.held ≠ 0 → held ≠ 0 ∨ a.Settled) :
    (a.recount face count events held taken).Sound where
  gone := by simp [Standing.recount]
  named := by
    intro named
    obtain ⟨holder, holds, names⟩ := sound.named named
    obtain rfl := Option.some.inj (present.symm.trans holds)
    exact ⟨_, rfl, names⟩
  opened := by
    rintro _ ⟨rfl⟩ status
    exact sound.opened face present status
  parses := by
    rintro _ ⟨rfl⟩ udp
    exact sound.parses face present udp
  stage := by
    rintro _ ⟨rfl⟩ kept
    exact sound.stage face present kept
  ordered := sound.ordered
  leaving := by
    rintro _ ⟨rfl⟩ kept closed named
    rcases sound.leaving face present kept closed named with busy | failed
    · rcases holds busy with still | settled
      · exact Or.inl still
      · exact absurd ((settled face present kept).2 closed) named
    · exact Or.inr failed

theorem Standing.Sound.good (sound : a.Sound)
    (counted : ∀ face, a.face = some face → face.count = a.refs ∧ 0 < a.refs) : a.Good :=
  ⟨sound, counted⟩

theorem Standing.Settled.recount (settled : a.Settled) (present : a.face = some face) {count : Int}
    {events held taken : Nat} : (a.recount face count events held taken).Settled := by
  rintro _ ⟨rfl⟩ kept
  exact settled face present kept

theorem Standing.Answerable.recount (answerable : a.Answerable) (present : a.face = some face)
    {count : Int} {events held taken : Nat} :
    (a.recount face count events held taken).Answerable := by
  refine ⟨?_, answerable.kept, ?_⟩
  · rintro _ ⟨rfl⟩
    exact answerable.tcp face present
  · intro silent
    obtain ⟨other, holds, connecting, registered⟩ := answerable.awaited silent
    obtain rfl := Option.some.inj (present.symm.trans holds)
    exact ⟨_, rfl, connecting, registered⟩

/-- `REF_RELEASE`; the destructor leaves nothing behind here. -/
def Standing.release (a : Standing) (face : Face) : Standing :=
  { a with face := if face.count - 1 = 0 then none else some { face with count := face.count - 1 } }

theorem View.release_standing (v : View) (sock : Socket) :
    (v.release sock).standing = v.standing.release sock.face := by
  by_cases last : sock.count - 1 = 0 <;>
    simp [View.release, Standing.release, View.standing, Socket.face, View.trace, last]

theorem Standing.Sound.release (sound : a.Sound) (present : a.face = some face)
    (owed : face.count = a.refs + 1) : (a.release face).Good := by
  by_cases last : a.refs = 0
  · have zero : face.count - 1 = 0 := by omega
    simp only [Standing.refs] at last
    have unnamed : a.names = [] := List.length_eq_zero_iff.mp (by omega)
    refine ⟨⟨?_, ?_, ?_, ?_, ?_, sound.ordered, ?_⟩, ?_⟩
    · intro _
      refine ⟨unnamed, ?_, ?_⟩
      · change a.events = 0
        omega
      · change a.held = 0
        omega
    · exact fun named => absurd unnamed named
    all_goals simp [Standing.release, zero]
  · have more : face.count - 1 ≠ 0 := by omega
    have shape : a.release face = a.recount face (face.count - 1) a.events a.held a.taken := by
      simp [Standing.release, Standing.recount, more]
    rw [shape]
    refine (sound.recount present Or.inl).good ?_
    rintro _ ⟨rfl⟩
    have refs : (a.recount face (face.count - 1) a.events a.held a.taken).refs = a.refs := rfl
    rw [refs]
    refine ⟨?_, by omega⟩
    change face.count - 1 = _
    omega

/-- The map keeps a socket that waits for its connect callback. -/
theorem Standing.Answerable.release (answerable : a.Answerable) (sound : a.Sound)
    (present : a.face = some face) (owed : face.count = a.refs + 1) :
    (a.release face).Answerable := by
  refine ⟨?_, answerable.kept, ?_⟩
  · intro other holds
    simp only [Standing.release] at holds
    split at holds
    · exact absurd holds (by simp)
    · rw [← Option.some.inj holds]
      exact answerable.tcp face present
  · intro silent
    obtain ⟨other, holds, connecting, registered⟩ := answerable.awaited silent
    obtain rfl := Option.some.inj (present.symm.trans holds)
    have named := sound.opened face present (by simp [connecting])
    have some : 0 < a.names.length := List.length_pos_iff.mpr named
    have more : face.count - 1 ≠ 0 := by
      simp only [Standing.refs] at owed
      omega
    exact ⟨{ face with count := face.count - 1 }, if_neg more, connecting, registered⟩

theorem Standing.Settled.release (settled : a.Settled) (present : a.face = some face) :
    (a.release face).Settled := by
  intro other holds kept
  by_cases last : face.count - 1 = 0
  · simp [Standing.release, last] at holds
  · simp only [Standing.release, last, if_false, Option.some.injEq] at holds
    subst holds
    exact settled face present kept

end References

/-! ## Callbacks -/

section Callbacks

variable {a : Standing} {face : Face}

theorem ordered_nil : Ordered [] := Or.inl List.nil_prefix

theorem Talking.close {trace : List Callback} (talking : Talking trace) :
    Finished (trace ++ [.close]) := by
  obtain ⟨bodies, rfl⟩ := talking
  exact Or.inr ⟨bodies, rfl⟩

theorem Talking.recv {trace : List Callback} (talking : Talking trace) (data : Bytes) :
    Talking (trace ++ [.recv data]) := by
  obtain ⟨bodies, rfl⟩ := talking
  exact ⟨bodies ++ [data], by simp⟩

theorem Standing.Stage.inOrder (stage : a.Stage face) : Ordered a.trace := by
  unfold Standing.Stage at stage
  split at stage
  · rcases stage.2 with empty | failed
    · rw [empty]
      exact ordered_nil
    · rw [failed]
      exact Or.inl (List.prefix_refl _)
  · rcases stage with ⟨_, empty⟩ | ⟨_, talking⟩
    · rw [empty]
      exact ordered_nil
    · exact Or.inr talking.ordered
  · rcases stage with ⟨_, empty⟩ | ⟨_, talking⟩
    · rw [empty]
      exact ordered_nil
    · exact Or.inr talking.ordered
  · exact Finished.ordered stage
  · exact absurd stage id

/-- A callback has been made, or the status has changed. -/
def Standing.restage (a : Standing) (face : Face) (trace : List Callback) (givenUp : Bool) :
    Standing := { a with face := some face, trace := trace, givenUp := givenUp }

theorem Standing.Good.restage (good : a.Good) (present : a.face = some face) {after : Face}
    {trace : List Callback} {givenUp : Bool} (key : after.connIdx = face.connIdx)
    (count : after.count = face.count)
    (parses : after.socketType = .udp → after.isParsePackage = true)
    (opened : after.status ≠ .closed → a.names ≠ [])
    (stage : givenUp = false → (a.restage after trace givenUp).Stage after)
    (leaving : givenUp = false → after.status = .closed → a.names ≠ [] →
      a.held ≠ 0 ∨ trace = [.connect false]) :
    (a.restage after trace givenUp).Good where
  gone := by simp [Standing.restage]
  named := by
    intro named
    obtain ⟨holder, holds, names⟩ := good.named named
    obtain rfl := Option.some.inj (present.symm.trans holds)
    exact ⟨after, rfl, by rw [key]; exact names⟩
  opened := by
    rintro _ ⟨rfl⟩ status
    exact opened status
  parses := by
    rintro _ ⟨rfl⟩ udp
    exact parses udp
  stage := by
    rintro _ ⟨rfl⟩ kept
    exact stage kept
  ordered := fun kept => (stage kept).inOrder
  leaving := by
    rintro _ ⟨rfl⟩ kept closed named
    exact leaving kept closed named
  counted := by
    rintro _ ⟨rfl⟩
    rw [count]
    exact good.counted face present

/-- A callback has been made. -/
theorem Standing.Answerable.restage (answerable : a.Answerable) {after : Face}
    {trace : List Callback} (tcp : after.socketType = .tcp) (heard : trace ≠ []) :
    (a.restage after trace a.givenUp).Answerable where
  tcp := by
    rintro _ ⟨rfl⟩
    exact tcp
  kept := answerable.kept
  awaited := fun silent => absurd silent heard

theorem restage_settled {after : Face} {trace : List Callback} {givenUp : Bool}
    (fine : givenUp = false → (after.status = .connecting → trace = []) ∧
      (after.status = .closed → a.names = [])) : (a.restage after trace givenUp).Settled := by
  rintro _ ⟨rfl⟩ kept
  exact fine kept

theorem View.standing_callback (v : View) {entry : LogEntry} {callback : Callback}
    (present : v.standing.face = some face) (made : entry.callback = some callback)
    (free : entry.isTaken = false) (harmless : entry.isHalfOpen = false) :
    (v.note entry).standing =
      v.standing.restage face (v.standing.trace ++ [callback]) v.standing.givenUp := by
  rw [View.standing_note, made, free, harmless, LogEntry.isEvicted_of_callback made]
  simp [Standing.restage, ← present]

/-- The last thing that happens to a socket in the map. -/
theorem Standing.Good.leave (good : a.Good) (present : a.face = some face)
    (closed : face.status = .closed) (named : a.names ≠ []) :
    ({ a with names := [] }.release face).Good ∧
      Standing.Settled ({ a with names := [] }.release face) := by
  obtain ⟨holder, holds, names⟩ := good.named named
  have sound : Standing.Sound { a with names := [] } := by
    refine ⟨?_, ?_, ?_, good.parses, good.stage, good.ordered, ?_⟩
    · intro gone
      exact ⟨rfl, (good.gone gone).2⟩
    · exact fun none => absurd rfl none
    · intro other holds status
      obtain rfl := Option.some.inj (present.symm.trans holds)
      exact absurd closed status
    · exact fun _ _ _ _ none => absurd rfl none
  have settled : Standing.Settled { a with names := [] } := by
    intro other holds _
    obtain rfl := Option.some.inj (present.symm.trans holds)
    exact ⟨fun connecting => absurd (closed.symm.trans connecting) (by simp), fun _ => rfl⟩
  refine ⟨sound.release present ?_, settled.release present⟩
  rw [(good.counted face present).1]
  simp [Standing.refs, names]
  omega

theorem Standing.Answerable.leave (answerable : a.Answerable) (present : a.face = some face)
    (closed : face.status = .closed) : ({ a with names := [] }.release face).Answerable := by
  refine ⟨?_, answerable.kept, fun silent => ?_⟩
  · intro other holds
    simp only [Standing.release] at holds
    split at holds
    · exact absurd holds (by simp)
    · rw [← Option.some.inj holds]
      exact answerable.tcp face present
  · exact absurd silent (answerable.heard present (by simp [closed]))

/-- A socket that has just come into the map. -/
def Standing.newborn (face : Face) (trace : List Callback) : Standing where
  face := some face
  names := [face.connIdx]
  events := 0
  held := 0
  trace := trace
  taken := 0
  givenUp := false
  registered := false

theorem newborn_good {trace : List Callback} (count : face.count = 1)
    (parses : face.socketType = .udp → face.isParsePackage = true)
    (stage : (Standing.newborn face trace).Stage face)
    (leaving : face.status = .closed → trace = [.connect false]) :
    (Standing.newborn face trace).Good where
  gone := by simp [Standing.newborn]
  named := fun _ => ⟨face, rfl, rfl⟩
  opened := by simp [Standing.newborn]
  parses := by
    rintro _ ⟨rfl⟩ udp
    exact parses udp
  stage := by
    rintro _ ⟨rfl⟩ _
    exact stage
  ordered := fun _ => stage.inOrder
  leaving := by
    rintro _ ⟨rfl⟩ _ closed _
    exact Or.inr (leaving closed)
  counted := by
    rintro _ ⟨rfl⟩
    rw [count]
    exact ⟨rfl, Nat.one_pos⟩

theorem newborn_settled {trace : List Callback} (silent : face.status = .connecting → trace = [])
    (opened : face.status ≠ .closed) : (Standing.newborn face trace).Settled := by
  rintro _ ⟨rfl⟩ _
  exact ⟨silent, fun closed => absurd closed opened⟩

end Callbacks

/-! ## The manager -/

/-- Every socket is in good standing; those in `busy` may be about to leave. -/
structure Kept (busy : List SockRef) (m : Mgr) : Prop where
  keys : (m.socketMap.map Prod.fst).Nodup
  fresh : ∀ s, m.nextRef ≤ s → m.view s = .blank
  good : ∀ s, (m.view s).standing.Good
  settled : ∀ s, s ∉ busy → (m.view s).standing.Settled

theorem blank_good : View.blank.standing.Good := by
  refine ⟨⟨?_, ?_, ?_, ?_, ?_, ?_, ?_⟩, ?_⟩ <;>
    simp [View.standing, View.blank, View.trace, traceOf, ordered_nil]

theorem blank_settled : View.blank.standing.Settled := by
  simp [Standing.Settled, View.standing, View.blank]

theorem blank_unanswerable : ¬View.blank.standing.Answerable := by
  intro answerable
  obtain ⟨face, present, _⟩ := answerable.awaited rfl
  exact absurd present (by simp [View.standing, View.blank])

theorem initial_kept : Kept [] Mgr.initial where
  keys := by simp [Mgr.initial]
  fresh := fun _ _ => rfl
  good := fun _ => blank_good
  settled := fun _ _ => blank_settled

section Kept

variable {busy : List SockRef} {m m' : Mgr} {s : SockRef} {v : View} {sock : Socket}

theorem Kept.weaken (kept : Kept busy m) (s : SockRef) : Kept (s :: busy) m :=
  ⟨kept.keys, kept.fresh, kept.good, fun other outside =>
    kept.settled other (fun inside => outside (List.mem_cons_of_mem _ inside))⟩

theorem Kept.allocated (kept : Kept busy m) (present : m.heap s = some sock) : s < m.nextRef := by
  by_contra large
  have blank := congrArg View.sock (kept.fresh s (Nat.le_of_not_lt large))
  simp only [Mgr.view, View.blank, present] at blank
  exact absurd blank (by simp)

theorem Mgr.standing_face (present : m.heap s = some sock) :
    (m.view s).standing.face = some sock.face := by
  simp [View.standing, Mgr.view, present]

/-- Whom the map names is alive and knows its name. -/
theorem Kept.found {connIdx : Nat} (kept : Kept busy m) (inside : (connIdx, s) ∈ m.socketMap) :
    ∃ sock, m.heap s = some sock ∧ sock.connIdx = connIdx ∧ (m.view s).names = [connIdx] := by
  have named := mem_names inside
  obtain ⟨face, present, unique⟩ := (kept.good s).named (List.ne_nil_of_mem named)
  obtain ⟨sock, alive, rfl⟩ := Option.map_eq_some_iff.mp present
  change (m.view s).names = [sock.connIdx] at unique
  have key : connIdx = sock.connIdx := by
    rw [unique] at named
    exact List.mem_singleton.mp named
  exact ⟨sock, alive, key.symm, by rw [key]; exact unique⟩

theorem Kept.find_named (kept : Kept busy m) (present : m.heap s = some sock)
    (named : (m.view s).names ≠ []) : m.find sock.connIdx = some s := by
  obtain ⟨face, holds, unique⟩ := (kept.good s).named named
  obtain rfl := Option.some.inj ((Mgr.standing_face present).symm.trans holds)
  apply Mgr.find_of_mem kept.keys
  apply names_mem
  change (m.view s).names = [sock.connIdx] at unique
  simp [unique]

/-- Only `s` changes, and it stays in good standing. -/
theorem Kept.at {busy' : List SockRef} (kept : Kept busy m)
    (view : m'.view = Function.update m.view s v) (good : v.standing.Good)
    (settled : s ∉ busy' → v.standing.Settled) (others : ∀ t, t ∉ busy' → t = s ∨ t ∉ busy)
    (keys : (m'.socketMap.map Prod.fst).Nodup) (nextRef : m'.nextRef = m.nextRef)
    (old : s < m.nextRef) : Kept busy' m' where
  keys := keys
  fresh := by
    intro other large
    rw [nextRef] at large
    have different : other ≠ s := Nat.ne_of_gt (Nat.lt_of_lt_of_le old large)
    rw [view, Function.update_of_ne different]
    exact kept.fresh other large
  good := by
    intro other
    rw [view]
    by_cases here : other = s
    · subst here
      simpa using good
    · rw [Function.update_of_ne here]
      exact kept.good other
  settled := by
    intro other outside
    rw [view]
    by_cases here : other = s
    · subst here
      simpa using settled outside
    · rw [Function.update_of_ne here]
      exact kept.settled other ((others other outside).resolve_left here)

/-- A number and a reference have been given out. -/
theorem Kept.bump (kept : Kept busy m) (autoConnIdx : Nat) : Kept busy (m.bump autoConnIdx) :=
  ⟨kept.keys, fun s large => kept.fresh s (Nat.le_of_succ_le large), kept.good, kept.settled⟩

/-- The same for a change that moves nothing but the socket itself. -/
theorem Kept.local (kept : Kept busy m) (present : m.heap s = some sock)
    (changed : Local m m' s v) (good : v.standing.Good)
    (settled : s ∉ busy → v.standing.Settled) : Kept busy m' :=
  kept.at changed.view good settled (fun _ outside => Or.inr outside)
    (changed.socketMap ▸ kept.keys) changed.nextRef (kept.allocated present)

/-- A change that the standing does not show. -/
theorem Kept.quiet (kept : Kept busy m) (present : m.heap s = some sock)
    (changed : Local m m' s v) (same : v.standing = (m.view s).standing) : Kept busy m' :=
  kept.local present changed (same ▸ kept.good s) fun outside => same ▸ kept.settled s outside

end Kept

end CrossOver.Engine.Network
