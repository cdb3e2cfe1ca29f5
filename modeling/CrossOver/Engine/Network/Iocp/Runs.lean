import CrossOver.Engine.Network.Iocp.Completions

/-!
# Runs of a completion port

Between the steps of a run every account is settled.  What the loop still holds
then are references that no handler will give back; there are none if every
completion is handled.
-/

namespace CrossOver.Engine.Network.Iocp

open CrossOver.Lib

def calmly : SockRef → Mood := fun _ => .settled

/-- The accounts are settled, but for the references in `leaked`. -/
def Settled (leaked : List SockRef) (state : State) : Prop :=
  Steady calmly state.port state.mgr ∧ state.mgr.held = leaked

theorem initial_settled : Settled [] State.initial := by
  refine ⟨⟨by simp [State.initial, Mgr.initial], ?_, ?_⟩, rfl⟩
  · intro s _
    exact ⟨rfl, rfl, rfl⟩
  · intro s
    exact fair_blank

section Steps

variable {held : List SockRef} {w : World}

theorem complete_spec {completion : Completion} (good : Good calmly held w)
    (outstanding : completion.Outstanding w.state) :
    Wp Tolerated (complete completion) (fun _ w' => Good calmly held w' ∨
      ¬completion.Handled ∧ Good calmly (completion.s :: held) w') w := by
  obtain ⟨s, operation, ret⟩ := completion
  cases operation with
  | connect =>
      exact (connect_spec (fun _ => rfl) ret good outstanding).mono fun _ _ kept => Or.inl kept
  | read data => exact read_spec (fun _ => rfl) ret data good outstanding
  | write write bytes =>
      obtain ⟨outstanding, mine, few⟩ := outstanding
      dsimp only at mine
      subst mine
      cases ret with
      | true => exact (write_spec good outstanding few).mono fun _ _ kept => Or.inl kept
      | false =>
          have failed := failed_spec good outstanding
          have unhandled : ¬Completion.Handled
              { s := write.s, operation := .write write bytes, ret := false } := by
            simp [Completion.Handled]
          have begun : complete { s := write.s, operation := .write write bytes, ret := false } w =
              (if bytes = 0 then do
                  hold write.s
                  pure ()
                  unhold write.s
                else pure () : W Unit) (w.unwrite write) := rfl
          rw [Wp, begun]
          change Wp Tolerated (if bytes = 0 then do
              hold write.s
              pure ()
              unhold write.s
            else pure () : W Unit) _ (w.unwrite write)
          split
          · refine (hold_spec failed (failed.active_held List.mem_cons_self)).seq ?_
            intro _ w₁ good₁
            exact (unhold_spec good₁).mono fun _ _ kept => Or.inr ⟨unhandled, kept⟩
          · exact Or.inr ⟨unhandled, failed⟩
  | delaySend =>
      obtain ⟨posted, succeeded⟩ := outstanding
      dsimp only at succeeded
      subst succeeded
      refine (posted_spec good posted ?_).mono fun _ _ kept => Or.inl kept
      intro w' good'
      exact handleDelaySend_spec good'
  | close =>
      obtain ⟨posted, succeeded⟩ := outstanding
      dsimp only at succeeded
      subst succeeded
      refine (posted_spec good posted ?_).mono fun _ _ kept => Or.inl kept
      intro w' good'
      exact handleClose_spec rfl good'

def Op.Handled : Op → Prop
  | .complete completion => completion.Handled
  | _ => True

theorem run_spec {op : Op} (good : Good calmly held w) (possible : op.Possible w.state) :
    Wp Tolerated op.run (fun _ w' => Good calmly held w' ∨
      ¬op.Handled ∧ ∃ s, Good calmly (s :: held) w') w := by
  cases op with
  | update curTime =>
      have updated : Wp Tolerated (liftM (updateAll curTime w.mgr.socketMap) : W Unit)
          (fun _ => Good calmly held) w := by
        rw [wp_lift]
        exact updateAll_calm (w := w.shared) curTime good fun _ inside => inside
      unfold Op.run
      rw [wp_bind, wp_get]
      exact updated.mono fun _ _ kept => Or.inl kept
  | complete completion =>
      refine (complete_spec good possible).mono ?_
      rintro _ w' (kept | ⟨unhandled, leaked⟩)
      · exact Or.inl kept
      · exact Or.inr ⟨unhandled, completion.s, leaked⟩
  | acceptTcp config aSocket =>
      exact (accept_safe aSocket config w good).mono fun _ _ kept => Or.inl kept
  | acceptUdp config datagram established =>
      have reports : ∀ mood held w s sock isSuccess, Good mood held w → w.mgr.heap s = some sock →
          Wp Tolerated (Socket.onConnect s isSuccess) (fun _ => Good mood held) w := by
        intro mood held w s sock isSuccess good present
        exact onConnect_spec isSuccess good present
      unfold Op.run
      dsimp only
      split
      · rw [wp_bind]
        refine (connectUDP_safe reports config established true w good).mono ?_
        intro _ w' kept
        exact Or.inl kept
      · exact Or.inl good
  | connect config connected =>
      unfold Op.run
      rw [wp_bind]
      refine (connect_safe config connected w good).mono ?_
      intro _ w' kept
      exact Or.inl kept
  | lua call => exact (luaCall_safe call calmly held w good).mono fun _ _ kept => Or.inl kept

end Steps

/-! ## Whole runs -/

variable {state state' : State} {step : Step} {leaked : List SockRef}

theorem step_settled (settled : Settled leaked state) (stepped : system.step state step state') :
    Settled leaked state' ∨ ¬step.op.Handled ∧ ∃ s, Settled (s :: leaked) state' := by
  obtain ⟨possible, ends, after⟩ := stepped
  have spec := run_spec (w := step.start state) settled possible
  unfold Step.exec at ends after
  unfold Wp at spec
  rcases run : step.op.run (step.start state) with ⟨value | fault, w'⟩
  · rw [run] at ends
    cases ends
  · rw [run] at spec after
    subst after
    exact spec

/-- No step from a settled state accesses an object that is gone. -/
theorem step_sound (settled : Settled leaked state) (possible : step.op.Possible state) :
    (step.exec state).1 ≠ .error .useAfterFree := by
  have spec := run_spec (w := step.start state) settled possible
  unfold Step.exec
  unfold Wp at spec
  rcases run : step.op.run (step.start state) with ⟨fault | value, w'⟩
  · rw [run] at spec
    intro gone
    exact spec (Except.error.inj gone)
  · exact fun gone => nomatch gone

theorem reachable_settled (reached : system.Reachable state) : ∃ leaked, Settled leaked state := by
  induction reached with
  | start initial =>
      subst initial
      exact ⟨[], initial_settled⟩
  | next _ stepped inductionHypothesis =>
      obtain ⟨leaked, settled⟩ := inductionHypothesis
      rcases step_settled settled stepped with kept | ⟨_, s, more⟩
      · exact ⟨leaked, kept⟩
      · exact ⟨s :: leaked, more⟩

def Handled (_ : State) (step : Step) : Prop := step.op.Handled

theorem handled_settled (reached : (system.restrict Handled).Reachable state) :
    Settled [] state := by
  refine reached.invariant ?_ ?_
  · rintro _ rfl
    exact initial_settled
  · rintro before step after _ settled ⟨handled, stepped⟩
    rcases step_settled settled stepped with kept | ⟨unhandled, _⟩
    · exact kept
    · exact absurd handled unhandled

/-! ## References -/

namespace State

def operations (state : State) (s : SockRef) : Nat :=
  state.port.reads.count s + state.port.writes.countP (fun write => write.s = s) +
    state.mgr.eventQueue.countP fun event => event.s = s

def registered (state : State) (s : SockRef) : Bool := s ∈ state.mgr.socketMap.map Prod.snd

/-- What `count_` should be. -/
def references (state : State) (s : SockRef) : Nat :=
  (if state.registered s then 1 else 0) + state.operations s

end State

theorem registered_iff (s : SockRef) :
    state.registered s = true ↔ (state.mgr.view s).names ≠ [] := by
  simp only [State.registered, decide_eq_true_eq, List.mem_map]
  constructor
  · rintro ⟨⟨connIdx, _⟩, inside, rfl⟩
    exact List.ne_nil_of_mem (mem_names inside)
  · intro named
    obtain ⟨connIdx, inside⟩ := List.exists_mem_of_ne_nil _ named
    exact ⟨_, names_mem inside, rfl⟩

theorem Settled.owed_eq (settled : Settled [] state) (s : SockRef) :
    owed (state.port.lane s) (state.mgr.view s) = state.references s := by
  have unheld : (state.mgr.view s).held = 0 := by simp [Mgr.view, settled.2]
  have names : (state.mgr.view s).names.length = if state.registered s then 1 else 0 := by
    by_cases named : (state.mgr.view s).names = []
    · have absent : state.registered s = false := by
        rw [Bool.eq_false_iff, ne_eq, registered_iff]
        exact fun inside => inside named
      rw [named, absent]
      rfl
    · obtain ⟨sock, _, unique⟩ := (settled.1.fair s).named named
      rw [(registered_iff s).mpr named, unique]
      rfl
  simp only [owed, View.refs, State.references, State.operations, names, unheld]
  simp only [Mgr.view, Port.lane, List.length_map, List.countP_eq_length_filter]
  omega

theorem releases_match_operations (reached : (system.restrict Handled).Reachable state) :
    (∀ s sock, state.mgr.heap s = some sock → sock.socketType = .tcp →
      sock.count = state.references s) ∧
    (∀ s sock, state.mgr.heap s = some sock → sock.socketType = .tcp → sock.status = .closed →
      0 < state.operations s) ∧
    (∀ s, 0 < state.operations s ∨ s ∈ state.port.connects → ∃ sock, state.mgr.heap s = some sock) ∧
    ∀ step : Step, step.op.Possible state → (step.exec state).1 ≠ .error .useAfterFree := by
  have settled := handled_settled reached
  refine ⟨?_, ?_, ?_, ?_⟩
  · intro s sock present tcp
    rw [← settled.owed_eq]
    exact ((settled.1.fair s).account sock present).exact tcp
  · intro s sock present tcp closed
    have fair := settled.1.fair s
    have account := fair.account sock present
    have used : owed (state.port.lane s) (state.mgr.view s) ≠ 0 := by
      intro zero
      rcases account.used tcp zero with connecting | spare
      · have status := ((fair.pending connecting).2.2 sock present).2
        exact absurd (closed.symm.trans status) (by simp)
      · cases spare
    have absent : state.registered s = false := by
      rw [Bool.eq_false_iff, ne_eq, registered_iff]
      exact fun named => Mood.noConfusion (account.left tcp closed named)
    rw [settled.owed_eq, State.references, absent] at used
    simp only [Bool.false_eq_true, if_false, Nat.zero_add] at used
    exact Nat.pos_of_ne_zero used
  · rintro s (pending | connecting)
    · refine settled.1.alive ?_
      rw [settled.owed_eq, State.references]
      omega
    · obtain absent | alive := Option.eq_none_or_eq_some (state.mgr.heap s)
      · have none := ((settled.1.fair s).gone absent).2
        exact absurd none (Nat.ne_of_gt (List.count_pos_iff.mpr connecting))
      · exact alive
  · intro step possible
    exact step_sound settled possible

/-! A server accepts a connection and answers on it.  The answer is submitted, and
then its write fails. -/

def serverConfig : Config where
  onconnectedHandler := { funId := 1 }
  oncloseHandler := { funId := 2 }
  onrecvHandler := { funId := 3 }
  sendBufferSize := 16
  recvBufferSize := 16

/-- A step during which every call succeeds and no callback does anything. -/
def Op.plain (op : Op) : Step where
  op := op
  scripts := []
  recvResults := []
  sendResults := []
  udpConnects := []

def State.after (state : State) (op : Op) : State := (op.plain.exec state).2.state

def greeting : Message := ⟨[104, 105], by decide⟩

def greetingWrite : Write := ⟨0, [2, 0, 0, 0, 104, 105]⟩

def greeted : State :=
  ((State.initial.after (.acceptTcp serverConfig 5)).after (.lua (.sendMsg 1 greeting))).after
    (.complete ⟨0, .delaySend, true⟩)

def aborted : State := greeted.after (.complete ⟨0, .write greetingWrite 0, false⟩)

theorem after_reachable {guard : State → Step → Prop} {op : Op}
    (reached : (system.restrict guard).Reachable state) (allowed : guard state op.plain)
    (possible : op.Possible state) (ends : (op.plain.exec state).1 = .ok ()) :
    (system.restrict guard).Reachable (state.after op) :=
  .next reached (show (system.restrict guard).step state op.plain (state.after op) from
    ⟨allowed, possible, ends, rfl⟩)

theorem greeted_reachable : (system.restrict Handled).Reachable greeted := by
  have accepted : (system.restrict Handled).Reachable
      (State.initial.after (.acceptTcp serverConfig 5)) :=
    after_reachable (.start rfl) trivial trivial rfl
  exact after_reachable (after_reachable accepted trivial trivial rfl) (Or.inl rfl)
    ⟨by decide +kernel, rfl⟩ rfl

theorem releases_match_operations_greeted :
    ∃ sock, greeted.mgr.heap 0 = some sock ∧ sock.count = 3 ∧ greeted.references 0 = 3 := by
  refine ⟨_, rfl, rfl, ?_⟩
  have counted := (releases_match_operations greeted_reachable).1 0 _ rfl rfl
  exact (Int.ofNat.inj counted).symm

theorem aborted_leaks : ∃ state, system.Reachable state ∧ ∃ s sock,
    state.mgr.heap s = some sock ∧ sock.socketType = .tcp ∧ state.registered s = true ∧
      sock.count ≠ state.references s := by
  have reached : system.Reachable aborted :=
    .next greeted_reachable.of_restrict
      (show system.step greeted
          (Op.complete ⟨0, .write greetingWrite 0, false⟩).plain aborted from
        ⟨⟨by decide +kernel, rfl, by decide⟩, rfl, rfl⟩)
  refine ⟨aborted, reached, 0, _, rfl, rfl, by decide +kernel, ?_⟩
  decide +kernel

/-! ## The write path -/

theorem writes_filter (port : Port) (s : SockRef) :
    (port.lane s).writes.length = (port.writes.filter fun write => write.s = s).length := by
  simp [Port.lane]

theorem write_stable (reached : system.Reachable state) {s : SockRef} {sock : Socket}
    (present : state.mgr.heap s = some sock) (tcp : sock.socketType = .tcp)
    (connected : sock.status = .connected) :
    (state.port.writes.filter fun write => write.s = s).length ≤ 1 ∧
    (sock.writeLock = 0 ∨ sock.writeLock = 1) ∧
    (∀ write ∈ state.port.writes, write.s = s → sock.writeLock = 1 ∧
      sock.writeBuffer.buffer.take write.data.length = write.data) ∧
    state.mgr.sentBytes s ++ sock.writeBuffer.content = state.mgr.queuedBytes s := by
  obtain ⟨leaked, settled⟩ := reachable_settled reached
  have conduit := (settled.1.fair s).conduit sock present tcp
  refine ⟨?_, ?_, ?_, conduit.flow (Or.inr connected)⟩
  · rw [← writes_filter]
    rcases conduit.lock with ⟨_, none⟩ | ⟨_, few⟩
    · simp [none]
    · exact few
  · exact conduit.lock.imp And.left And.left
  · intro write outstanding mine
    have inside : write.data ∈ (state.port.lane s).writes := by
      simp only [Port.lane, List.mem_map, List.mem_filter, decide_eq_true_eq]
      exact ⟨write, ⟨outstanding, mine⟩, rfl⟩
    refine ⟨?_, (conduit.handed write.data inside).2⟩
    rcases conduit.lock with ⟨_, none⟩ | ⟨locked, _⟩
    · rw [none] at inside
      cases inside
    · exact locked

/-- A second answer while the first is with the kernel. -/
def crowdedOut : State := greeted.after (.lua (.sendMsg 1 greeting))

theorem write_stable_crowdedOut : ∃ sock, crowdedOut.mgr.heap 0 = some sock ∧
    crowdedOut.port.writes = [greetingWrite] ∧ sock.writeLock = 1 ∧
    sock.writeBuffer.buffer.take 6 = greetingWrite.data ∧
    crowdedOut.mgr.sentBytes 0 ++ sock.writeBuffer.content = crowdedOut.mgr.queuedBytes 0 := by
  have reached : (system.restrict Handled).Reachable crowdedOut :=
    after_reachable greeted_reachable trivial trivial rfl
  obtain ⟨_, _, handed, flow⟩ :=
    write_stable (s := 0) reached.of_restrict rfl (by decide +kernel) (by decide +kernel)
  obtain ⟨locked, same⟩ := handed greetingWrite (by decide +kernel) rfl
  exact ⟨_, rfl, by decide +kernel, locked, same, flow⟩

end CrossOver.Engine.Network.Iocp
