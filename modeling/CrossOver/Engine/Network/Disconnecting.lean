import Mathlib.Data.List.Chain
import CrossOver.Engine.Network.Flow
import CrossOver.Engine.Network.Keeping

/-!
# What a `Disconnect` finds in the write buffer

`HandleClose` only marks a connected socket as closing, and `HandleCanWrite`
closes it at the next `EPOLLOUT` without another look at its write buffer.  So
the bytes that wait in the buffer when the event is handled are never sent; if
there are none, everything sent through the socket before has been passed on.
-/

namespace CrossOver.Engine.Network

open CrossOver.Lib

/-- If `s` is marked as closing between the two points, nothing waits to be sent. -/
def Drained (s : SockRef) (after before : Mgr) : Prop :=
  ∀ sock closing, before.heap s = some sock → sock.status = .connected →
    after.heap s = some closing → closing.status = .closing → sock.writeBuffer.content = []

instance (s : SockRef) (after before : Mgr) : Decidable (Drained s after before) :=
  decidable_of_iff (∀ sock ∈ before.heap s, sock.status = .connected →
      ∀ closing ∈ after.heap s, closing.status = .closing → sock.writeBuffer.content = []) <| by
    constructor
    · intro drained sock closing present connected
      exact drained sock present connected closing
    · intro drained sock present connected closing
      exact drained sock closing present connected

/-- Whenever the step marks `s` as closing, nothing waits to be sent.  Each turn
of `HandleDelayEvent` lies between two points of its own. -/
def ClosesDrained (s : SockRef) (m : Mgr) (step : Step) : Prop :=
  (step.points m).IsChain (Drained s)

instance (s : SockRef) (m : Mgr) (step : Step) : Decidable (ClosesDrained s m step) :=
  inferInstanceAs (Decidable ((step.points m).IsChain (Drained s)))

namespace Mgr

/-- No frame is too long for a `uint32`. -/
def Brief (m : Mgr) (s : SockRef) : Prop :=
  ∀ entry ∈ m.logOf s, entry.queuedBytes.length < 2 ^ 32

/-- Every frame that was sent through the connected socket has been passed to `send()`. -/
def PassedOn (m : Mgr) (s : SockRef) : Prop :=
  ∀ earlier frame later, m.logOf s = earlier ++ .queued s .connected frame :: later →
    earlier.flatMap LogEntry.queuedBytes ++ frame <+: m.sentBytes s

end Mgr

/-- The stream of `s`: what was sent and what still waits is what was queued. -/
structure Piped (s : SockRef) (m : Mgr) : Prop where
  unborn : m.nextRef ≤ s → m.heap s = none ∧ m.sentBytes s = [] ∧ m.queuedBytes s = []
  stream : m.Brief s → ∀ sock, m.heap s = some sock →
    sock.writeBuffer.WellFormed ∧ sock.writeBuffer.totalSize < 2 ^ 32 ∧
      m.sentBytes s ++ sock.writeBuffer.content = m.queuedBytes s

/-- A closing socket has passed everything on. -/
def Parted (s : SockRef) (m : Mgr) : Prop :=
  m.Brief s → ∀ sock, m.heap s = some sock → sock.status = .closing → m.PassedOn s

section Changes

variable {s : SockRef} {m m' : Mgr} {added : List LogEntry}

theorem logOf_append (log : m'.log = m.log ++ added) :
    m'.logOf s = m.logOf s ++ added.filter fun entry => entry.subject = some s := by
  rw [Mgr.logOf, log, List.filter_append]
  rfl

theorem Mgr.Brief.earlier (brief : m'.Brief s) (log : m'.log = m.log ++ added) : m.Brief s := by
  intro entry inside
  refine brief entry ?_
  rw [logOf_append log]
  exact List.mem_append_left _ inside

theorem sentBytes_append (log : m'.log = m.log ++ added) :
    m'.sentBytes s = m.sentBytes s ++
      (added.filter fun entry => entry.subject = some s).flatMap LogEntry.sentBytes := by
  rw [Mgr.sentBytes, logOf_append log, List.flatMap_append]
  rfl

theorem queuedBytes_append (log : m'.log = m.log ++ added) :
    m'.queuedBytes s = m.queuedBytes s ++
      (added.filter fun entry => entry.subject = some s).flatMap LogEntry.queuedBytes := by
  rw [Mgr.queuedBytes, logOf_append log, List.flatMap_append]
  rfl

theorem quiet_bytes {entry : LogEntry} (quiet : entry.isTraffic = false) :
    entry.sentBytes = [] ∧ entry.queuedBytes = [] := by
  cases entry <;> first | exact ⟨rfl, rfl⟩ | cases quiet

theorem traffic_append (log : m'.log = m.log ++ added)
    (quiet : ∀ entry ∈ added, entry.subject = some s → entry.isTraffic = false) :
    m'.sentBytes s = m.sentBytes s ∧ m'.queuedBytes s = m.queuedBytes s := by
  rw [sentBytes_append log, queuedBytes_append log]
  constructor
  · rw [List.flatMap_eq_nil_iff.mpr, List.append_nil]
    intro entry inside
    obtain ⟨new, mine⟩ := List.mem_filter.mp inside
    exact (quiet_bytes (quiet entry new (of_decide_eq_true mine))).1
  · rw [List.flatMap_eq_nil_iff.mpr, List.append_nil]
    intro entry inside
    obtain ⟨new, mine⟩ := List.mem_filter.mp inside
    exact (quiet_bytes (quiet entry new (of_decide_eq_true mine))).2

/-- A change that leaves the stream of `s` as it is. -/
theorem Piped.quietly (piped : Piped s m) (log : m'.log = m.log ++ added)
    (quiet : ∀ entry ∈ added, entry.subject = some s → entry.isTraffic = false)
    (nextRef : m.nextRef ≤ m'.nextRef)
    (heap : ∀ sock, m'.heap s = some sock → ∃ before, m.heap s = some before ∧
      (before.writeBuffer.WellFormed → sock.writeBuffer.WellFormed ∧
        sock.writeBuffer.totalSize = before.writeBuffer.totalSize ∧
        sock.writeBuffer.content = before.writeBuffer.content)) : Piped s m' := by
  obtain ⟨sent, queued⟩ := traffic_append (s := s) log quiet
  constructor
  · intro unborn
    obtain ⟨absent, nothing⟩ := piped.unborn (nextRef.trans unborn)
    rw [sent, queued]
    refine ⟨?_, nothing⟩
    obtain gone | ⟨sock, present⟩ := Option.eq_none_or_eq_some (m'.heap s)
    · exact gone
    · obtain ⟨before, there, _⟩ := heap sock present
      cases absent.symm.trans there
  · intro brief sock present
    obtain ⟨before, there, same⟩ := heap sock present
    obtain ⟨wellFormed, short, stream⟩ := piped.stream (brief.earlier log) before there
    obtain ⟨wellFormed, totalSize, content⟩ := same wellFormed
    rw [sent, queued, totalSize, content]
    exact ⟨wellFormed, short, stream⟩

/-- A closing socket that was closing before, and whose new frames were sent too late. -/
theorem Parted.later (parted : Parted s m) (log : m'.log = m.log ++ added)
    (late : ∀ frame, .queued s .connected frame ∉ added)
    (heap : ∀ sock, m'.heap s = some sock → sock.status = .closing →
      ∃ before, m.heap s = some before ∧ before.status = .closing) : Parted s m' := by
  intro brief sock present closing earlier frame later split
  obtain ⟨before, there, closing⟩ := heap sock present closing
  have passedOn := parted (brief.earlier log) before there closing
  rw [sentBytes_append log]
  rw [logOf_append log] at split
  obtain ⟨rest, _, queued⟩ | ⟨rest, queuedEarlier, queued⟩ := List.append_eq_append_iff.mp split
  · have inside : .queued s .connected frame ∈
        added.filter fun entry => entry.subject = some s := by
      rw [queued]
      simp
    exact absurd (List.mem_filter.mp inside).1 (late frame)
  · cases rest with
    | nil =>
        have inside : .queued s .connected frame ∈
            added.filter fun entry => entry.subject = some s := by
          rw [← List.nil_append (added.filter _), ← queued]
          simp
        exact absurd (List.mem_filter.mp inside).1 (late frame)
    | cons entry rest =>
        obtain ⟨rfl, _⟩ := List.cons.inj queued
        exact (passedOn earlier frame rest queuedEarlier).trans (List.prefix_append _ _)

theorem Piped.passedOn (piped : Piped s m) (brief : m.Brief s) {sock : Socket}
    (present : m.heap s = some sock) (drained : sock.writeBuffer.content = []) :
    m.PassedOn s := by
  intro earlier frame later split
  obtain ⟨_, _, stream⟩ := piped.stream brief sock present
  rw [drained, List.append_nil] at stream
  rw [stream, Mgr.queuedBytes, split, List.flatMap_append, List.flatMap_cons, ← List.append_assoc]
  exact List.prefix_append _ _

end Changes

/-! ## The invariant of a step -/

/-- `s` was connected at the last point, with bytes in its write buffer. -/
def Crowded (s : SockRef) (w : World) : Prop :=
  ∃ point earlier sock, w.seen = point :: earlier ∧ point.heap s = some sock ∧
    sock.status = .connected ∧ sock.writeBuffer.content ≠ []

/-- As long as the points passed keep to the condition, closing sockets have
passed everything on; only the turn that breaks the condition may disagree. -/
structure Tidy (s : SockRef) (w : World) : Prop where
  piped : Piped s w.mgr
  passed : w.seen.IsChain (Drained s) → ∀ point ∈ w.seen, Parted s point
  now : w.seen.IsChain (Drained s) → Parted s w.mgr ∨ Crowded s w

section Tidy

variable {s : SockRef} {w : World} {m' : Mgr}

theorem Tidy.change (tidy : Tidy s w) (piped : Piped s m')
    (parted : Parted s w.mgr → Parted s m') : Tidy s (w.withMgr m') where
  piped := piped
  passed := tidy.passed
  now := by
    intro chain
    rcases tidy.now chain with done | crowded
    · exact Or.inl (parted done)
    · exact Or.inr crowded

/-- A point that keeps to the condition. -/
theorem Tidy.parted (tidy : Tidy s w) (chain : (w.mgr :: w.seen).IsChain (Drained s)) :
    Parted s w.mgr := by
  rcases tidy.now chain.tail with done | ⟨point, earlier, sock, seen, present, connected, some⟩
  · exact done
  · rw [seen, List.isChain_cons_cons] at chain
    intro _ closing there status
    exact absurd (chain.1 sock closing present connected there status) some

/-- A change of an object that leaves its stream and the marks of `Disconnect` alone. -/
theorem Tidy.object (tidy : Tidy s w) {t : SockRef} {before after : Socket}
    (there : w.mgr.heap t = some before)
    (stream : before.writeBuffer.WellFormed → after.writeBuffer.WellFormed ∧
      after.writeBuffer.totalSize = before.writeBuffer.totalSize ∧
      after.writeBuffer.content = before.writeBuffer.content)
    (status : after.status = .closing → before.status = .closing) :
    Tidy s (w.withMgr (w.mgr.setSocket t after)) := by
  have none : (w.mgr.setSocket t after).log = w.mgr.log ++ [] := (List.append_nil _).symm
  refine tidy.change (tidy.piped.quietly none (by simp) le_rfl ?_)
    fun parted => parted.later none (by simp) ?_
  · intro sock present
    by_cases same : s = t
    · subst same
      obtain rfl : after = sock := by simpa [Mgr.setSocket] using present
      exact ⟨before, there, stream⟩
    · have unchanged : w.mgr.heap s = some sock := by simpa [Mgr.setSocket, same] using present
      exact ⟨sock, unchanged, fun wellFormed => ⟨wellFormed, rfl, rfl⟩⟩
  · intro sock present closing
    by_cases same : s = t
    · subst same
      obtain rfl : after = sock := by simpa [Mgr.setSocket] using present
      exact ⟨before, there, status closing⟩
    · exact ⟨sock, by simpa [Mgr.setSocket, same] using present, closing⟩

/-- A change that adds nothing but entries, or takes an object away. -/
theorem Tidy.note (tidy : Tidy s w) (added : List LogEntry) (log : m'.log = w.mgr.log ++ added)
    (quiet : ∀ entry ∈ added, entry.subject = some s → entry.isTraffic = false)
    (nextRef : m'.nextRef = w.mgr.nextRef)
    (heap : ∀ sock, m'.heap s = some sock → w.mgr.heap s = some sock) :
    Tidy s (w.withMgr m') := by
  refine tidy.change (tidy.piped.quietly log quiet nextRef.ge ?_)
    fun parted => parted.later log ?_ ?_
  · intro sock present
    exact ⟨sock, heap sock present, fun wellFormed => ⟨wellFormed, rfl, rfl⟩⟩
  · intro frame queued
    cases quiet _ queued rfl
  · intro sock present closing
    exact ⟨sock, heap sock present, closing⟩

theorem Tidy.born (tidy : Tidy s w) {socketType : SocketType} {fd connIdx : Nat} {config : Config}
    (added : List LogEntry) (log : m'.log = w.mgr.log ++ added)
    (quiet : ∀ entry ∈ added, entry.subject = some s → entry.isTraffic = false)
    (nextRef : m'.nextRef = w.mgr.nextRef + 1)
    (heap : m'.heap = Function.update w.mgr.heap w.mgr.nextRef
      (some (newSocket socketType fd connIdx config))) : Tidy s (w.withMgr m') := by
  by_cases mine : s = w.mgr.nextRef
  · obtain ⟨absent, unsent, unqueued⟩ := tidy.piped.unborn mine.ge
    obtain ⟨sent, queued⟩ := traffic_append (s := s) log quiet
    have created : ∀ sock, m'.heap s = some sock →
        sock = newSocket socketType fd connIdx config := by
      intro sock present
      rw [heap, ← mine, Function.update_self] at present
      exact (Option.some.inj present).symm
    refine tidy.change ⟨?_, ?_⟩ ?_
    · intro unborn
      rw [nextRef, mine] at unborn
      exact absurd unborn (Nat.not_succ_le_self _)
    · intro _ sock present
      rw [created sock present, sent, queued, unsent, unqueued]
      exact ⟨SequenceBuffer.allocate_wellFormed _, config.sendBufferSize.toNat_lt, rfl⟩
    · intro _ _ sock present closing
      rw [created sock present] at closing
      cases closing
  · have same : m'.heap s = w.mgr.heap s := by rw [heap, Function.update_of_ne mine]
    refine tidy.change (tidy.piped.quietly log quiet (nextRef ▸ Nat.le_succ _) ?_)
      fun parted => parted.later log ?_ ?_
    · intro sock present
      exact ⟨sock, same ▸ present, fun wellFormed => ⟨wellFormed, rfl, rfl⟩⟩
    · intro frame queued
      cases quiet _ queued rfl
    · intro sock present closing
      exact ⟨sock, same ▸ present, closing⟩

/-- What happens to another object. -/
theorem Tidy.elsewhere (tidy : Tidy s w) {t : SockRef} {after : Socket} {added : List LogEntry}
    (other : s ≠ t) (log : m'.log = w.mgr.log ++ added)
    (about : ∀ entry ∈ added, entry.subject = some t) (nextRef : m'.nextRef = w.mgr.nextRef)
    (heap : m'.heap = Function.update w.mgr.heap t (some after)) : Tidy s (w.withMgr m') := by
  refine tidy.note added log ?_ nextRef ?_
  · intro entry inside mine
    exact absurd (Option.some.inj (mine.symm.trans (about entry inside))) other
  · intro sock present
    rw [heap, Function.update_of_ne other] at present
    exact present

theorem Tidy.allocated (tidy : Tidy s w) {sock : Socket} (there : w.mgr.heap s = some sock) :
    ¬w.mgr.nextRef ≤ s := by
  intro unborn
  cases (tidy.piped.unborn unborn).1.symm.trans there

theorem Tidy.queue (tidy : Tidy s w) {t : SockRef} {sock : Socket} {frame : Bytes}
    {after : SequenceBuffer} (there : w.mgr.heap t = some sock)
    (writes : Writes sock.writeBuffer frame after) :
    Tidy s (w.withMgr ((w.mgr.setSocket t { sock with writeBuffer := after }).record
      (.queued t sock.status frame))) := by
  by_cases mine : s = t
  · subst mine
    have log : ((w.mgr.setSocket s { sock with writeBuffer := after }).record
        (.queued s sock.status frame)).log = w.mgr.log ++ [.queued s sock.status frame] := rfl
    have changed : ∀ now, ((w.mgr.setSocket s { sock with writeBuffer := after }).record
        (.queued s sock.status frame)).heap s = some now →
        now = { sock with writeBuffer := after } := by
      intro now present
      simpa [Mgr.setSocket, Mgr.record, eq_comm] using present
    refine tidy.change ⟨fun unborn => absurd unborn (tidy.allocated there), ?_⟩ ?_
    · intro brief now present
      rw [changed now present]
      have short : frame.length < 2 ^ 32 := by
        refine brief (.queued s sock.status frame) ?_
        simp [logOf_append log, LogEntry.subject]
      obtain ⟨wellFormed, sized, stream⟩ := tidy.piped.stream (brief.earlier log) sock there
      obtain ⟨written, content⟩ := Channel.writes_content writes wellFormed.toSound short
      rw [Channel.writes_totalSize writes, content, sentBytes_append log, queuedBytes_append log,
        ← stream]
      exact ⟨written, sized, by simp [LogEntry.subject, LogEntry.sentBytes, LogEntry.queuedBytes]⟩
    · intro parted
      by_cases closing : sock.status = .closing
      · refine parted.later log ?_ fun _ _ _ => ⟨sock, there, closing⟩
        simp [closing]
      · intro _ now present still
        rw [changed now present] at still
        exact absurd still closing
  · exact tidy.elsewhere mine rfl (by simp [LogEntry.subject]) rfl rfl

theorem Tidy.transmit (tidy : Tidy s w) {t : SockRef} {sock : Socket} {bytes : Nat}
    (there : w.mgr.heap t = some sock)
    (few : bytes ≤ transferLimit (Socket.sendLen sock.writeBuffer)) :
    Tidy s (w.withMgr ((w.mgr.record (.sent t (sock.writeBuffer.buffer.take bytes))).setSocket t
      { sock with writeBuffer := sock.writeBuffer.remove bytes })) := by
  by_cases mine : s = t
  · subst mine
    have log : ((w.mgr.record (.sent s (sock.writeBuffer.buffer.take bytes))).setSocket s
        { sock with writeBuffer := sock.writeBuffer.remove bytes }).log =
        w.mgr.log ++ [.sent s (sock.writeBuffer.buffer.take bytes)] := rfl
    have changed : ∀ now,
        ((w.mgr.record (.sent s (sock.writeBuffer.buffer.take bytes))).setSocket s
          { sock with writeBuffer := sock.writeBuffer.remove bytes }).heap s = some now →
        now = { sock with writeBuffer := sock.writeBuffer.remove bytes } := by
      intro now present
      simpa [Mgr.setSocket, Mgr.record, eq_comm] using present
    refine tidy.change ⟨fun unborn => absurd unborn (tidy.allocated there), ?_⟩ ?_
    · intro brief now present
      rw [changed now present]
      obtain ⟨wellFormed, sized, stream⟩ := tidy.piped.stream (brief.earlier log) sock there
      have inside := few.trans (Channel.transferLimit_le (wellFormed.fits.trans_lt sized))
      obtain ⟨removed, content, total⟩ := SequenceBuffer.remove_inside wellFormed.toSound inside
      refine ⟨removed, total ▸ sized, ?_⟩
      rw [content, sentBytes_append log, queuedBytes_append log, ← stream,
        SequenceBuffer.take_buffer wellFormed.toSound inside]
      simp [LogEntry.subject, LogEntry.sentBytes, LogEntry.queuedBytes]
    · intro parted
      refine parted.later log (by simp) ?_
      intro now present closing
      rw [changed now present] at closing
      exact ⟨sock, there, closing⟩
  · exact tidy.elsewhere mine rfl (by simp [LogEntry.subject]) rfl rfl

theorem Tidy.close (tidy : Tidy s w) {point : Mgr} {earlier : List Mgr} {t : SockRef}
    {sock : Socket} (seen : w.seen = point :: earlier) (first : point.heap = w.mgr.heap)
    (there : w.mgr.heap t = some sock) (connected : sock.status = .connected) :
    Tidy s (w.withMgr (w.mgr.setSocket t { sock with status := .closing })) := by
  have none : (w.mgr.setSocket t { sock with status := .closing }).log = w.mgr.log ++ [] :=
    (List.append_nil _).symm
  by_cases mine : s = t
  · subst mine
    have piped : Piped s (w.mgr.setSocket s { sock with status := .closing }) := by
      refine tidy.piped.quietly none (by simp) le_rfl ?_
      intro now present
      obtain rfl : { sock with status := .closing } = now := by
        simpa [Mgr.setSocket] using present
      exact ⟨sock, there, fun wellFormed => ⟨wellFormed, rfl, rfl⟩⟩
    by_cases drained : sock.writeBuffer.content = []
    · refine tidy.change piped ?_
      intro _ brief _ _ _
      have present : (w.mgr.setSocket s { sock with status := .closing }).heap s =
          some { sock with status := .closing } := by simp [Mgr.setSocket]
      exact piped.passedOn brief present drained
    · have present : point.heap s = some sock := first ▸ there
      have crowded : Crowded s (w.withMgr (w.mgr.setSocket s { sock with status := .closing })) :=
        ⟨point, earlier, sock, seen, present, connected, drained⟩
      exact ⟨piped, tidy.passed, fun _ => Or.inr crowded⟩
  · exact tidy.elsewhere mine none (by simp) rfl rfl

theorem tidy_robust : Robust (fun _ => Tidy s) (Tidy s) where
  freed _ tidy := tidy
  diverged _ tidy := tidy
  exhausted _ _ tidy := tidy
  number w _ _ tidy := tidy.note [] (List.append_nil _).symm (by simp) rfl fun _ present => present
  mark w tidy :=
    { piped := tidy.piped
      passed := by
        intro chain point membership
        rcases List.mem_cons.mp membership with rfl | old
        · exact tidy.parted chain
        · exact tidy.passed chain.tail point old
      now := fun chain => Or.inl (tidy.parted chain) }
  frame w w' counted seen tidy := by
    have same : w'.mgr.objects = w.mgr.objects := congrArg Prod.fst counted
    have none : w'.mgr.log = w.mgr.log ++ [] := by
      rw [List.append_nil]
      exact congrArg (fun objects => objects.2.1) same
    have kept : Tidy s (w.withMgr w'.mgr) :=
      tidy.note [] none (by simp) (congrArg (fun objects => objects.2.2) same)
        fun sock present => (congrFun (congrArg Prod.fst same) s).symm.trans present
    obtain ⟨piped, passed, now⟩ := kept
    refine ⟨piped, ?_, ?_⟩
    · rw [seen]
      exact passed
    · unfold Crowded
      rw [seen]
      exact now
  socket w t before after there same _ tidy := by
    have status : after.status = before.status := congrArg (fun core => core.2.1) same
    have buffer : after.writeBuffer = before.writeBuffer := congrArg (fun core => core.2.2) same
    refine tidy.object there ?_ ?_
    · intro wellFormed
      rw [buffer]
      exact ⟨wellFormed, rfl, rfl⟩
    · intro closing
      rw [← status]
      exact closing
  status w t sock status there known tidy :=
    tidy.object there (fun wellFormed => ⟨wellFormed, rfl, rfl⟩) fun closing => absurd closing known
  closing w point earlier t sock seen first there connected tidy :=
    tidy.close seen first there connected
  fill w t sock there tidy := by
    refine tidy.object there ?_ fun closing => closing
    intro wellFormed
    exact ⟨SequenceBuffer.fillVector_wellFormed wellFormed.toSound,
      SequenceBuffer.fillVector_totalSize _, SequenceBuffer.fillVector_content wellFormed.toSound⟩
  queue w t sock frame after there writes tidy := tidy.queue there writes
  transmit w t sock bytes there few tidy := tidy.transmit there few
  record w entry plain quiet tidy :=
    tidy.note [entry] rfl (by simp [quiet]) rfl fun _ present => present
  serve w socketType fd connIdx config _ tidy :=
    tidy.born [] (List.append_nil _).symm (by simp) rfl rfl
  create w socketType fd connIdx config entry origin tidy := by
    refine tidy.born [entry] rfl ?_ rfl rfl
    rcases origin with rfl | rfl <;> simp [LogEntry.isTraffic]
  delete w t sock there tidy := by
    unfold Mgr.destroy
    split
    · refine tidy.note [_] rfl (by simp [LogEntry.subject]) rfl ?_
      intro now present
      exact free_heap present
    · refine tidy.note [] (List.append_nil _).symm (by simp) rfl ?_
      intro now present
      exact free_heap present

theorem tidy_stores (t : SockRef) : Stores (Tidy s) t := by
  intro w sock readBuffer there tidy
  exact tidy.object there (fun wellFormed => ⟨wellFormed, rfl, rfl⟩) fun closing => closing

end Tidy

/-! ## Runs -/

section Runs

variable {s : SockRef} {m : Mgr}

theorem exec_tidy (piped : Piped s m) (parted : Parted s m) (step : Step) :
    Tidy s (step.exec m).2 :=
  exec_robust (tidy_robust.reads tidy_stores) step
    ⟨piped, fun _ _ membership => absurd membership List.not_mem_nil, fun _ => Or.inl parted⟩

theorem drained_parted (reached : (system.restrict (ClosesDrained s)).Reachable m) :
    Piped s m ∧ Parted s m := by
  induction reached with
  | start initial =>
      rw [initial]
      exact ⟨⟨fun _ => ⟨rfl, rfl, rfl⟩, fun _ _ present => nomatch present⟩,
        fun _ _ present => nomatch present⟩
  | @next _ _ step _ stepped inductionHypothesis =>
      obtain ⟨piped, parted⟩ := inductionHypothesis
      obtain ⟨drained, _, rfl⟩ := stepped
      have tidy := exec_tidy piped parted step
      exact ⟨tidy.piped, tidy.parted drained⟩

/-- In every run that never marks `s` as closing while bytes wait in its write
buffer, whenever `s` is closing every frame sent through it while it was
connected has been passed to `send()`. -/
theorem disconnect_passesOn (reached : (system.restrict (ClosesDrained s)).Reachable m)
    (step : Step) (drained : ClosesDrained s m step) {point : Mgr} (passed : point ∈ step.points m)
    {sock : Socket} (present : point.heap s = some sock) (closing : sock.status = .closing)
    (brief : point.Brief s) : point.PassedOn s := by
  obtain ⟨piped, parted⟩ := drained_parted reached
  have tidy := exec_tidy piped parted step
  rcases List.mem_cons.mp passed with rfl | seen
  · exact tidy.parted drained brief sock present closing
  · exact tidy.passed drained.tail point seen brief sock present closing

end Runs

/-! A client is greeted and then disconnected, with or without a chance to send
the greeting first.  `send()` accepts whatever it is offered. -/

def clientConfig : Config where
  onconnectedHandler := {}
  oncloseHandler := {}
  onrecvHandler := {}
  sendBufferSize := 16
  recvBufferSize := 16

def arriving : Step where
  op := .eventLoop 0 [[.listenTcp clientConfig (some 5)]]
  scripts := []
  epollResults := []
  udpConnects := []

def greetClient : Step where
  op := .lua (.sendMsg 1 ⟨[104, 105], by decide⟩)
  scripts := []
  epollResults := []
  udpConnects := []

def flushing : Step where
  op := .eventLoop 0
    [[.wakeup true true], [.socket 0 { epollOut := true } [] [.accepted 1000000]]]
  scripts := []
  epollResults := []
  udpConnects := []

def dismissing : Step where
  op := .lua (.disconnect 1)
  scripts := []
  epollResults := []
  udpConnects := []

def greetedClient : Mgr := (greetClient.exec (arriving.exec Mgr.initial).2.mgr).2.mgr

def hastily : Mgr := (dismissing.exec greetedClient).2.mgr

def patiently : Mgr := (dismissing.exec (flushing.exec greetedClient).2.mgr).2.mgr

theorem patiently_reachable : (system.restrict (ClosesDrained 0)).Reachable patiently := by
  have arrived : (system.restrict (ClosesDrained 0)).Reachable (arriving.exec Mgr.initial).2.mgr :=
    .next (.start rfl) ⟨by decide +kernel, rfl, rfl⟩
  have greeted : (system.restrict (ClosesDrained 0)).Reachable greetedClient :=
    .next arrived ⟨by decide +kernel, rfl, rfl⟩
  have flushed : (system.restrict (ClosesDrained 0)).Reachable
      (flushing.exec greetedClient).2.mgr :=
    .next greeted ⟨by decide +kernel, rfl, rfl⟩
  exact .next flushed ⟨by decide +kernel, rfl, rfl⟩

/-- The point before the client is closed. -/
def dismissed : Mgr := (flushing.points patiently).tail.headD Mgr.initial

theorem disconnect_passesOn_patiently : ∃ point ∈ flushing.points patiently, ∃ sock,
    point.heap 0 = some sock ∧ sock.status = .closing ∧
      .queued 0 .connected [2, 0, 0, 0, 104, 105] ∈ point.log ∧
      [2, 0, 0, 0, 104, 105] <+: point.sentBytes 0 := by
  have queued : dismissed.logOf 0 = (dismissed.logOf 0).take 1 ++
      .queued 0 .connected [2, 0, 0, 0, 104, 105] :: (dismissed.logOf 0).drop 2 := rfl
  have passed : dismissed ∈ flushing.points patiently := .tail _ (.head _)
  have brief : dismissed.Brief 0 := by
    unfold Mgr.Brief
    decide +kernel
  have passedOn :=
    disconnect_passesOn patiently_reachable flushing (by decide +kernel) passed rfl rfl brief
  exact ⟨dismissed, passed, _, rfl, rfl, by decide +kernel, passedOn _ _ _ queued⟩

/-- The client is closed, and nothing has been offered to `send()`. -/
theorem hastily_discards : ∃ (m : Mgr) (step : Step), system.Reachable m ∧
    (step.exec m).1 = .ok () ∧ ∃ (after before : Mgr) (sock : Socket),
      [after, before] <:+: step.points m ∧ before.heap 0 = some sock ∧ sock.status = .closing ∧
      .queued 0 .connected [2, 0, 0, 0, 104, 105] ∈ before.log ∧
      after.heap 0 = none ∧ .closeTask 0 1 ∈ after.log ∧ after.sentBytes 0 = [] := by
  have arrived : system.Reachable (arriving.exec Mgr.initial).2.mgr := .next (.start rfl) ⟨rfl, rfl⟩
  have greeted : system.Reachable greetedClient := .next arrived ⟨rfl, rfl⟩
  refine ⟨hastily, flushing, .next greeted ⟨rfl, rfl⟩, rfl, _, _, _,
    ⟨[], (flushing.points hastily).drop 2, rfl⟩, rfl, rfl, by decide +kernel, rfl,
    by decide +kernel, by decide +kernel⟩

end CrossOver.Engine.Network
