import CrossOver.Engine.Network.Separation

/-!
# Several datagrams behind one event

The kernel keeps the datagrams of a socket in a queue; `recv` takes the first
one.  An event is reported once for all that wait, and again only after another
datagram has arrived.
-/

namespace CrossOver.Engine.Network

open CrossOver.Lib

/-- What the calls of `recv` find: `queue`, and for each call the datagrams that
have arrived since the call before. -/
def offers : List Bytes → List (List Bytes) → List RecvResult
  | queue, [] => queue.map .bytes
  | queue, arrived :: later =>
      match queue ++ arrived with
      | [] => [.again]
      | datagram :: rest => .bytes datagram :: offers rest later

/-- The queue after the last of these calls. -/
def unread : List Bytes → List (List Bytes) → Nat → List Bytes
  | queue, _, 0 => queue
  | queue, arrivals, calls + 1 =>
      unread (queue ++ arrivals.headD []).tail arrivals.tail calls

/-- The queue is empty, or a datagram has arrived since the event. -/
def Emptied (queue : List Bytes) (arrivals : List (List Bytes)) (calls : Nat) : Prop :=
  unread queue arrivals calls = [] ∨ (arrivals.take (calls + 1)).flatten ≠ []

/-- `recv` returns as many bytes as it was asked for. -/
def Fills (space : Nat) (datagram : Bytes) : Prop :=
  ((datagram.take (transferLimit (intOf space))).length : Int) = intOf space

instance (space : Nat) (datagram : Bytes) : Decidable (Fills space datagram) :=
  inferInstanceAs (Decidable (_ = _))

/-- The datagrams that wait are all taken with one event: each but the last fills
the read buffer behind what earlier ones have left there, unless another one
arrives in time or an empty one closes the socket. -/
inductive Drains (size : Nat) : Bytes → List Bytes → List (List Bytes) → Prop where
  | edge {pending : Bytes} {queue : List Bytes} {arrivals : List (List Bytes)} :
      arrivals.headD [] ≠ [] → Drains size pending queue arrivals
  | late {pending : Bytes} {queue : List Bytes} {arrivals : List (List Bytes)} :
      pending.length < size → arrivals.tail.headD [] ≠ [] → Drains size pending queue arrivals
  | empty {pending : Bytes} {arrivals : List (List Bytes)} : Drains size pending [] arrivals
  | last {pending datagram : Bytes} {arrivals : List (List Bytes)} :
      pending.length < size → Drains size pending [datagram] arrivals
  | closing {pending : Bytes} {rest : List Bytes} {arrivals : List (List Bytes)} :
      pending.length < size → Drains size pending ([] :: rest) arrivals
  | fills {pending datagram tail : Bytes} {rest bodies : List Bytes}
      {arrivals : List (List Bytes)} : pending.length < size →
      Fills (size - pending.length) datagram →
      Unwrapped (frameLimit size) 0 (pending ++ datagram.take (size - pending.length)) →
      Parses 4 (frameLimit size) (pending ++ datagram.take (size - pending.length)) bodies tail →
      Drains size tail rest arrivals.tail → Drains size pending (datagram :: rest) arrivals

section Queue

variable {queue rest : List Bytes} {datagram : Bytes} {arrivals : List (List Bytes)} {calls : Nat}

theorem offers_cons (quiet : arrivals.headD [] = []) :
    offers (datagram :: rest) arrivals = .bytes datagram :: offers rest arrivals.tail := by
  cases arrivals with
  | nil =>
      cases rest with
      | nil => rfl
      | cons next more => rfl
  | cons arrived later =>
      rw [show arrived = [] from quiet, offers, List.append_nil]
      rfl

theorem offers_nil (quiet : arrivals.headD [] = []) :
    offers [] arrivals = [] ∨ offers [] arrivals = [.again] := by
  cases arrivals with
  | nil => exact Or.inl rfl
  | cons arrived later =>
      rw [show arrived = [] from quiet]
      exact Or.inr rfl

theorem emptied_edge (some : arrivals.headD [] ≠ []) : Emptied queue arrivals calls := by
  cases arrivals with
  | nil => exact absurd rfl some
  | cons arrived later =>
      refine Or.inr ?_
      rw [List.take_succ_cons, List.flatten_cons]
      exact List.append_ne_nil_of_left_ne_nil some _

theorem emptied_late (some : arrivals.tail.headD [] ≠ []) :
    Emptied queue arrivals (calls + 1) := by
  cases arrivals with
  | nil => exact absurd rfl some
  | cons arrived later =>
      refine Or.inr ?_
      cases later with
      | nil => exact absurd rfl some
      | cons next more =>
          rw [List.take_succ_cons, List.take_succ_cons, List.flatten_cons, List.flatten_cons]
          exact List.append_ne_nil_of_right_ne_nil _ (List.append_ne_nil_of_left_ne_nil some _)

theorem emptied_cons (quiet : arrivals.headD [] = [])
    (emptied : Emptied rest arrivals.tail calls) :
    Emptied (datagram :: rest) arrivals (calls + 1) := by
  refine emptied.imp ?_ ?_
  · intro all
    rw [unread, quiet, List.append_nil]
    exact all
  · intro some
    cases arrivals with
    | nil => exact absurd rfl some
    | cons arrived later =>
        rw [List.take_succ_cons, show arrived = [] from quiet]
        exact some

theorem emptied_nil (quiet : arrivals.headD [] = []) (few : calls ≤ 1) :
    Emptied [] arrivals calls := by
  refine Or.inl ?_
  rcases Nat.le_one_iff_eq_zero_or_eq_one.mp few with rfl | rfl
  · rfl
  · rw [unread, quiet]
    rfl

end Queue

/-! ## The loop -/

/-- The loop is at work on an established socket with `pending` in its read buffer. -/
structure Receives (s : SockRef) (size : Nat) (pending : Bytes) (w₀ w : World) : Prop where
  watched : Watched (Roomy s) s w
  atWork : AtWork s w₀ w
  rests : ∃ sock, w.mgr.heap s = some sock ∧ Rests sock size pending

section Loop

variable {s : SockRef} {size : Nat} {pending datagram : Bytes} {queue : List Bytes}
  {arrivals : List (List Bytes)} {w₀ w w' : World} {sock : Socket}

theorem Receives.small (receives : Receives s size pending w₀ w) : size < 2 ^ 32 := by
  obtain ⟨sock, present, rests⟩ := receives.rests
  rw [← rests.total]
  exact (receives.watched.holds sock present).1

/-- With room in the buffer there is a call of `recv`. -/
theorem readTrace_asks (receives : Receives s size pending w₀ w) (room : pending.length < size)
    (results : List RecvResult) :
    Wp Anyhow (readTrace s results) (fun trace _ => trace.recvs ≠ []) w := by
  have small := receives.small
  obtain ⟨sock, present, rests⟩ := receives.rests
  have some : intOf sock.readBuffer.getSpace ≠ 0 := by
    rw [rests.receiving.getSpace]
    unfold intOf
    rw [Int.bmod_def]
    split <;> omega
  cases results with
  | nil =>
      unfold readTrace
      rw [wp_bind, wp_deref present]
      generalize intOf sock.readBuffer.getSpace = space at some ⊢
      dsimp only
      rw [if_neg some]
      exact List.cons_ne_nil _ _
  | cons result rest =>
      unfold readTrace
      rw [wp_bind, wp_deref present]
      generalize intOf sock.readBuffer.getSpace = space at some ⊢
      dsimp only
      rw [if_neg some]
      cases result with
      | again => exact List.cons_ne_nil _ _
      | error => exact List.cons_ne_nil _ _
      | bytes data =>
          dsimp only
          split
          · exact (anyhow_keeps (handlePeerClosed s) w trivial).seq fun _ _ _ => List.cons_ne_nil _ _
          · rw [wp_bind, wp_get]
            refine (anyhow_keeps (Socket.feedTrace s _) w trivial).seq fun _ w₁ _ => ?_
            rw [wp_bind, wp_get]
            split
            · exact (anyhow_keeps (readTrace s rest) w₁ trivial).seq
                fun _ _ _ => List.cons_ne_nil _ _
            · exact List.cons_ne_nil _ _

theorem readTrace_idle (quiet : arrivals.headD [] = []) :
    Wp Anyhow (readTrace s (offers [] arrivals)) (fun trace _ => trace.recvs.length ≤ 1) w := by
  rcases offers_nil quiet with idle | idle
  · rw [idle]
    unfold readTrace
    refine (anyhow_keeps (deref s) w trivial).seq fun sock w₁ _ => ?_
    generalize intOf sock.readBuffer.getSpace = space
    dsimp only
    split
    · exact Nat.zero_le _
    · exact le_rfl
  · rw [idle]
    unfold readTrace
    refine (anyhow_keeps (deref s) w trivial).seq fun sock w₁ _ => ?_
    generalize intOf sock.readBuffer.getSpace = space
    dsimp only
    split
    · exact Nat.zero_le _
    · exact le_rfl

theorem take_of_fills (small : size < 2 ^ 32) (room : pending.length < size) (datagram : Bytes)
    (fills : Fills (size - pending.length) datagram) :
    datagram.take (transferLimit (intOf (size - pending.length))) =
      datagram.take (size - pending.length) := by
  unfold Fills at fills
  have bound : intOf (size - pending.length) = (size - pending.length : Nat) := by
    have positive : 0 ≤ intOf (size - pending.length) := by omega
    unfold intOf at positive ⊢
    rw [Int.bmod_def] at positive ⊢
    split at positive <;> split <;> omega
  rw [bound] at fills ⊢
  have whole : (datagram.take (transferLimit (size - pending.length : Nat))).length =
      size - pending.length := by exact_mod_cast fills
  have limit : transferLimit (size - pending.length : Nat) ≤ size - pending.length := by
    unfold transferLimit
    omega
  have equal : transferLimit (size - pending.length : Nat) = size - pending.length := by
    have few := List.length_take_le (transferLimit (size - pending.length : Nat)) datagram
    omega
  rw [equal]

theorem feedTrace_atWork (atWork : AtWork s w₀ w) (chunk : Bytes) :
    Wp Anyhow (Socket.feedTrace s chunk) (fun _ w' => AtWork s w₀ w') w := by
  have fed := anyhow_of (feed_any atWork chunk)
  rwa [feed_eq, wp_bind] at fed

/-- How the loop may end: all has been taken, or the socket is closed. -/
def Ends (s : SockRef) (queue : List Bytes) (arrivals : List (List Bytes)) (trace : ReadTrace)
    (w : World) : Prop :=
  Emptied queue arrivals trace.recvs.length ∨ trace.ending = .peerClosed ∧ Shut s w

theorem readTrace_datagram (receives : Receives s size pending w₀ w)
    (room : pending.length < size) (quiet : arrivals.headD [] = [])
    (short : datagram ≠ [] → ¬ Fills (size - pending.length) datagram → queue = [])
    (filled : ∀ w₁, datagram ≠ [] → Fills (size - pending.length) datagram →
      (Unwrapped (frameLimit size) 0 (pending ++ datagram.take (size - pending.length)) →
        ∃ bodies tail, Parses 4 (frameLimit size)
          (pending ++ datagram.take (size - pending.length)) bodies tail ∧
            Receives s size tail w₀ w₁) →
      Wp Anyhow (readTrace s (offers queue arrivals.tail)) (Ends s queue arrivals.tail) w₁) :
    Wp Anyhow (readTrace s (.bytes datagram :: offers queue arrivals.tail))
      (Ends s (datagram :: queue) arrivals) w := by
  have small := receives.small
  obtain ⟨sock, present, rests⟩ := receives.rests
  have space : sock.readBuffer.getSpace = size - pending.length := rests.receiving.getSpace
  have fits := take_of_fills small room datagram
  have limit := transferLimit_intOf (size - pending.length)
  have some : 0 < transferLimit (intOf (size - pending.length)) := by
    unfold transferLimit intOf
    rw [Int.bmod_def]
    split <;> omega
  have free : intOf (size - pending.length) ≠ 0 := by
    unfold intOf
    rw [Int.bmod_def]
    split <;> omega
  unfold Fills at short filled fits
  unfold readTrace
  rw [wp_bind, wp_deref present, space]
  generalize intOf (size - pending.length) = asked at *
  dsimp only
  rw [if_neg free]
  have few := List.length_take_le (transferLimit asked) datagram
  have closing : datagram.take (transferLimit asked) = [] ↔ datagram = [] := by
    rw [List.take_eq_nil_iff]
    exact or_iff_right (Nat.ne_of_gt some)
  generalize datagram.take (transferLimit asked) = received at *
  by_cases closed : received = []
  · rw [if_pos closed]
    refine (anyhow_of (handlePeerClosed_any receives.atWork)).seq fun _ w₁ shut => ?_
    exact Or.inr ⟨rfl, shut.2⟩
  · rw [if_neg closed, wp_bind, wp_get]
    by_cases fills : (received.length : Int) = asked
    · obtain rfl := fits fills
      have nonempty : datagram ≠ [] := fun empty => closed (closing.mpr empty)
      have next : Wp Anyhow (Socket.feedTrace s (datagram.take (size - pending.length)))
          (fun _ w₁ =>
            (Unwrapped (frameLimit size) 0 (pending ++ datagram.take (size - pending.length)) →
              ∃ bodies tail, Parses 4 (frameLimit size)
                (pending ++ datagram.take (size - pending.length)) bodies tail ∧
                  Receives s size tail w₀ w₁)) w := by
        by_cases unwrapped :
          Unwrapped (frameLimit size) 0 (pending ++ datagram.take (size - pending.length))
        · have parsed := feedTrace_parses receives.watched present rests.toEstablished
            (by rw [rests.total]; exact rests.receiving) (few.trans (space ▸ limit))
            (by rw [rests.total]; exact unwrapped)
          rw [rests.total] at parsed
          have roomy := feedTrace_room receives.watched present (few.trans (space ▸ limit))
          refine ((parsed.and roomy).and (feedTrace_atWork receives.atWork _)).mono ?_
          rintro bodies w₁ ⟨⟨⟨tail, parses, left⟩, ⟨_, read⟩⟩, atWork⟩ _
          obtain ⟨now, there, _⟩ := atWork.connected
          exact ⟨bodies, tail, parses, read.roomy, atWork, now, there, left now there⟩
        · exact (anyhow_keeps _ w trivial).mono fun _ _ _ holds => absurd holds unwrapped
      refine next.seq fun bodies w₁ receives₁ => ?_
      rw [wp_bind, wp_get, if_pos fills]
      refine (filled w₁ nonempty fills receives₁).seq fun trace w₂ ends => ?_
      exact ends.imp (emptied_cons quiet) id
    · refine (anyhow_keeps (Socket.feedTrace s received) w trivial).seq fun _ w₁ _ => ?_
      rw [wp_bind, wp_get, if_neg fills]
      refine Or.inl ?_
      rw [short (fun empty => closed (closing.mpr empty)) fills]
      exact emptied_cons quiet (Or.inl rfl)

/-- One event is enough for datagrams like these. -/
theorem readTrace_ends (drains : Drains size pending queue arrivals)
    (receives : Receives s size pending w₀ w) :
    Wp Anyhow (readTrace s (offers queue arrivals)) (Ends s queue arrivals) w := by
  induction drains generalizing w with
  | edge some =>
      exact (anyhow_keeps _ w trivial).mono fun _ _ _ => Or.inl (emptied_edge some)
  | @late pending queue arrivals room some =>
      refine (readTrace_asks receives room _).mono fun trace _ asked => Or.inl ?_
      obtain ⟨before, count⟩ := Nat.exists_eq_succ_of_ne_zero
        (fun none => asked (List.length_eq_zero_iff.mp none))
      rw [count]
      exact emptied_late some
  | @empty pending arrivals =>
      by_cases quiet : arrivals.headD [] = []
      · exact (readTrace_idle quiet).mono fun _ _ few => Or.inl (emptied_nil quiet few)
      · exact (anyhow_keeps _ w trivial).mono fun _ _ _ => Or.inl (emptied_edge quiet)
  | @last pending datagram arrivals room =>
      by_cases quiet : arrivals.headD [] = []
      · rw [offers_cons quiet]
        refine readTrace_datagram receives room quiet (fun _ _ => rfl) fun w₁ _ _ _ => ?_
        by_cases later : arrivals.tail.headD [] = []
        · exact (readTrace_idle later).mono fun _ _ few => Or.inl (emptied_nil later few)
        · exact (anyhow_keeps _ w₁ trivial).mono fun _ _ _ => Or.inl (emptied_edge later)
      · exact (anyhow_keeps _ w trivial).mono fun _ _ _ => Or.inl (emptied_edge quiet)
  | @closing pending rest arrivals room =>
      by_cases quiet : arrivals.headD [] = []
      · rw [offers_cons quiet]
        refine readTrace_datagram receives room quiet (fun some _ => absurd rfl some) ?_
        exact fun _ some _ _ => absurd rfl some
      · exact (anyhow_keeps _ w trivial).mono fun _ _ _ => Or.inl (emptied_edge quiet)
  | @fills pending datagram tail rest bodies arrivals room fills unwrapped parses _
      inductionHypothesis =>
      by_cases quiet : arrivals.headD [] = []
      · rw [offers_cons quiet]
        refine readTrace_datagram receives room quiet (fun _ short => absurd fills short) ?_
        intro w₁ _ _ next
        obtain ⟨_, _, others, receives₁⟩ := next unwrapped
        obtain ⟨rfl, rfl⟩ := others.unique (frameLimit_wide size) parses
        exact inductionHypothesis receives₁
      · exact (anyhow_keeps _ w trivial).mono fun _ _ _ => Or.inl (emptied_edge quiet)

theorem awaitEvent_any [Past] {m : Mgr} (reached : system.Reachable m)
    (answers : Answers Past.mgr m) (step : Step) (startTime : UInt32)
    (batches : List (List Entry)) (entries : List Entry) (handled : Nat) :
    Wp anyFault (awaitEvent startTime batches entries handled s) (fun _ w =>
      Steady [] w ∧ (w.mgr.view s).held ≠ 0) (step.start m) := by
  have steady := (reached_rested reached).start answers step
  unfold awaitEvent
  rw [wp_bind, wp_get]
  refine (updateAll_any startTime _ steady).seq fun _ w₁ through₁ => ?_
  refine (batchLoop_any batches through₁.steady).seq fun _ w₂ through₂ => ?_
  refine (epollWait_any entries through₂.steady).seq fun reported w₃ through₃ => ?_
  refine (processBatch_any _ through₃.steady).seq fun _ w₄ through₄ => ?_
  rw [wp_bind, wp_modifyMgr]
  have taken : Steady [] (w₄.withMgr { w₄.mgr with batch := w₄.mgr.batch.erase s }) := by
    apply through₄.steady.batched
    intro other inside
    by_contra large
    have blank := congrArg View.unprocessed
      (through₄.steady.kept.fresh other (Nat.le_of_not_lt large))
    exact absurd (List.mem_of_mem_erase inside) (List.count_eq_zero.mp blank)
  refine (hold_any taken s).mono ?_
  rintro _ w₅ ⟨steady₅, held⟩
  refine ⟨steady₅, ?_⟩
  change w₅.mgr.held.count s ≠ 0
  rw [held, List.count_cons_self]
  exact Nat.succ_ne_zero _

/-- In every run, for every interleaving of arrivals with the handling of an event
of an established socket: if the datagrams that wait fill its read buffer as the
loop expects, the queue is empty when `HandleReadComplete` returns, or a datagram
has arrived since the event, or the socket is not connected any more. -/
theorem handleReadComplete_empties {m : Mgr} (reached : system.Reachable m) (step : Step)
    {startTime : UInt32} {batches : List (List Entry)} {entries : List Entry} {handled : Nat}
    (awaited : awaitEvent startTime batches entries handled s (step.start m) = (.ok (), w))
    (present : w.mgr.heap s = some sock) (connected : sock.status = .connected)
    (established : Established sock)
    (drains : Drains sock.recvBufferSize sock.readBuffer.content queue arrivals)
    (returned : handleReadComplete s (offers queue arrivals) w = (.ok (), w')) :
    ∃ trace, handleReadTrace s (offers queue arrivals) w = (.ok (some trace), w') ∧
      (HasStatus s .connected w' → Emptied queue arrivals trace.recvs.length) := by
  have kept : Wp Anyhow (awaitEvent startTime batches entries handled s)
      (fun _ w => Watched (Roomy s) s w) (step.start m) :=
    awaitEvent_keeps (roomy_reads s) _ _ _ _ _ (reachable_roomy reached s)
  have watched : Watched (Roomy s) s w := kept.ended awaited
  obtain ⟨steady, mine⟩ := (awaitEvent_any reached (initial_answers m) step _ _ _ _).ended awaited
  obtain ⟨_, pending, receiving, _⟩ := watched.holds sock present
  rw [receiving.content] at drains
  have receives : Receives s sock.recvBufferSize pending w w :=
    ⟨watched, ⟨.refl steady, ⟨sock, present, connected⟩, mine⟩, sock, present, established, rfl,
      receiving⟩
  have traced : Wp Anyhow (handleReadTrace s (offers queue arrivals)) (fun trace w' =>
      ∃ run, trace = some run ∧ Ends s queue arrivals run w') w := by
    unfold handleReadTrace
    rw [wp_bind, wp_deref present, if_pos connected]
    refine (readTrace_ends drains receives).seq fun run w₁ ends => ?_
    dsimp only
    split
    · next left =>
      have emptied := ends.resolve_right fun closed => by simp [left] at closed
      exact (anyhow_keeps (fillAndPush s) w₁ trivial).seq fun _ _ _ => ⟨run, rfl, Or.inl emptied⟩
    · exact ⟨run, rfl, ends⟩
  rw [handleReadComplete_eq] at returned
  obtain ⟨trace, ran⟩ := returned_of_discard returned
  obtain ⟨run, rfl, ends⟩ := traced.ended ran
  refine ⟨run, ran, ?_⟩
  rintro ⟨after, there, still⟩
  refine ends.resolve_right fun closed => ?_
  exact absurd (still.symm.trans (closed.2 after there)) (by simp)

/-- A datagram that fills the read buffer of the admitted peer. -/
def fullDatagram : Bytes := frame 4 (List.replicate 12 41)

/-- Two datagrams wait, the first of which fills the buffer. -/
theorem handleReadComplete_empties_both :
    ∃ trace w', handleReadTrace 0 (offers [fullDatagram, [1, 0, 0, 0, 42]] []) (peerReadable []) =
        (.ok (some trace), w') ∧
      Emptied [fullDatagram, [1, 0, 0, 0, 42]] [] trace.recvs.length := by
  have returned : handleReadComplete 0 (offers [fullDatagram, [1, 0, 0, 0, 42]] [])
      (peerReadable []) = (.ok (), (handleReadComplete 0
        (offers [fullDatagram, [1, 0, 0, 0, 42]] []) (peerReadable [])).2) := rfl
  have awaited : awaitEvent 0 [] [] 0 0 (chat.start admitted) = (.ok (), peerReadable []) := rfl
  have parses : Parses 4 (frameLimit 16) (fullDatagram ++ []) [List.replicate 12 41] [] := by
    refine .next (by decide) (.stop fun body rest _ empty => ?_)
    have sizes := congrArg List.length empty
    rw [List.length_append, frame_length, List.length_nil] at sizes
    omega
  have drains : Drains 16 [] [fullDatagram, [1, 0, 0, 0, 42]] [] :=
    .fills (by decide) (by decide) (unwrapped_of_small (by decide) (by decide)) parses (.last (by decide))
  obtain ⟨trace, ran, emptied⟩ := handleReadComplete_empties admitted_reachable chat awaited rfl rfl
    ⟨rfl, rfl, rfl⟩ drains returned
  exact ⟨trace, _, ran, emptied ⟨_, rfl, rfl⟩⟩

/-- Two short datagrams wait for one event: the second one is not read. -/
theorem peer_unread :
    ∃ (m : Mgr) (step : Step) (w w' : World) (sock : Socket) (trace : ReadTrace),
      system.Reachable m ∧ awaitEvent 0 [] [] 0 0 (step.start m) = (.ok (), w) ∧
      w.mgr.heap 0 = some sock ∧ sock.status = .connected ∧ Established sock ∧
      handleReadTrace 0 (offers [[1, 0, 0, 0, 42], [1, 0, 0, 0, 43]] []) w =
        (.ok (some trace), w') ∧
      HasStatus 0 .connected w' ∧
      ¬ Emptied [[1, 0, 0, 0, 42], [1, 0, 0, 0, 43]] [] trace.recvs.length := by
  have seen : recvsOf (handleReadTrace 0 (offers [[1, 0, 0, 0, 42], [1, 0, 0, 0, 43]] [])
    (peerReadable [])) = some [(16, .bytes 5)] := by decide +kernel
  obtain ⟨trace, ran⟩ : ∃ trace, handleReadTrace 0
      (offers [[1, 0, 0, 0, 42], [1, 0, 0, 0, 43]] []) (peerReadable []) = (.ok (some trace),
        (handleReadTrace 0 (offers [[1, 0, 0, 0, 42], [1, 0, 0, 0, 43]] [])
          (peerReadable [])).2) := ⟨_, rfl⟩
  rw [ran] at seen
  have recvs : trace.recvs = [(16, .bytes 5)] := Option.some.inj seen
  refine ⟨admitted, chat, peerReadable [], _, _, trace, admitted_reachable, rfl, rfl, rfl,
    ⟨rfl, rfl, rfl⟩, ran, ⟨_, rfl, rfl⟩, ?_⟩
  rw [recvs]
  rintro (all | arrived)
  · exact absurd all (by decide)
  · exact arrived rfl

end Loop

end CrossOver.Engine.Network
