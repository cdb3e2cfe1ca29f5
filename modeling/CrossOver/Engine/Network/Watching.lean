import CrossOver.Engine.Network.Keeping

/-!
# Watching the read side of one socket

What is said about the read side of a socket and about the log outlives whatever
the manager does, except for the reading of that socket itself.
-/

namespace CrossOver.Engine.Network

open CrossOver.Lib

/-- Failures are of no interest. -/
def Anyhow (_ : Fault) (_ : World) : Prop := True

section Anyhow

variable {allowed : Fault → World → Prop} {First : Type}

/-- Nothing is said about the program. -/
theorem anyhow_keeps (x : M First) : Keeps Anyhow (fun _ => True) x := by
  intro w _
  unfold Wp
  split <;> trivial

/-- What a specification says, however the program fails. -/
theorem anyhow_of {x : M First} {post : First → World → Prop} {w : World}
    (holds : Wp allowed x post w) : Wp Anyhow x post w := by
  unfold Wp at holds ⊢
  split
  · next run => simpa only [run] using holds
  · trivial

end Anyhow

/-- A statement that rests on the read side and does not mind more entries in the log. -/
structure ReadOnly (P : Socket → List LogEntry → Prop) : Prop where
  same : ∀ before after log, before.SameReading after → P before log → P after log
  grows : ∀ sock log more, P sock log → P sock (log ++ more)

/-- The statement holds of `s` as long as it exists, and of whatever becomes `s`. -/
structure Watched (P : Socket → List LogEntry → Prop) (s : SockRef) (w : World) : Prop where
  unborn : w.mgr.nextRef ≤ s → w.mgr.heap s = none ∧
    ∀ socketType fd connIdx config log, P (newSocket socketType fd connIdx config) log
  holds : ∀ sock, w.mgr.heap s = some sock → P sock w.mgr.log

section Watching

variable {P Q : Socket → List LogEntry → Prop} {s t : SockRef} {w : World} {m : Mgr}
  {before after : Socket}

theorem Watched.allocated (watched : Watched P s w) (present : w.mgr.heap s = some before) :
    s < w.mgr.nextRef := by
  refine Nat.lt_of_not_le fun large => ?_
  rw [(watched.unborn large).1] at present
  exact absurd present (by simp)

theorem Watched.weaken (watched : Watched P s w)
    (implies : ∀ sock log, P sock log → Q sock log) : Watched Q s w where
  unborn large := ⟨(watched.unborn large).1, fun socketType fd connIdx config log =>
    implies _ _ ((watched.unborn large).2 socketType fd connIdx config log)⟩
  holds sock present := implies _ _ (watched.holds sock present)

section Steps

variable (readOnly : ReadOnly P)

include readOnly

/-- A step that makes no object. -/
theorem Watched.next (watched : Watched P s w) (nextRef : m.nextRef = w.mgr.nextRef)
    (log : ∃ more, m.log = w.mgr.log ++ more)
    (old : ∀ after, m.heap s = some after →
      ∃ before, w.mgr.heap s = some before ∧ before.SameReading after) :
    Watched P s (w.withMgr m) where
  unborn large := by
    obtain ⟨gone, newborn⟩ := watched.unborn (nextRef ▸ large)
    refine ⟨Option.eq_none_iff_forall_not_mem.mpr fun after present => ?_, newborn⟩
    obtain ⟨before, there, _⟩ := old after present
    rw [gone] at there
    exact absurd there (by simp)
  holds after present := by
    obtain ⟨before, there, same⟩ := old after present
    obtain ⟨more, grown⟩ := log
    change P after m.log
    rw [grown]
    exact readOnly.grows _ _ more (readOnly.same _ _ _ same (watched.holds before there))

/-- A step on an object that leaves its read side alone. -/
theorem Watched.change (watched : Watched P s w) {more : List LogEntry}
    (there : w.mgr.heap t = some before) (same : before.SameReading after)
    (nextRef : m.nextRef = w.mgr.nextRef) (log : m.log = w.mgr.log ++ more)
    (heap : m.heap = Function.update w.mgr.heap t (some after)) : Watched P s (w.withMgr m) := by
  refine watched.next readOnly nextRef ⟨more, log⟩ fun now present => ?_
  rw [heap] at present
  by_cases mine : s = t
  · subst mine
    rw [Function.update_self] at present
    exact ⟨before, there, Option.some.inj present ▸ same⟩
  · rw [Function.update_of_ne mine] at present
    exact ⟨now, present, rfl, id⟩

/-- A step that makes an object. -/
theorem Watched.born (watched : Watched P s w) {socketType : SocketType} {fd connIdx : Nat}
    {config : Config} (more : List LogEntry) (nextRef : m.nextRef = w.mgr.nextRef + 1)
    (log : m.log = w.mgr.log ++ more)
    (heap : m.heap = Function.update w.mgr.heap w.mgr.nextRef
      (some (newSocket socketType fd connIdx config))) : Watched P s (w.withMgr m) where
  unborn large := by
    change m.nextRef ≤ s at large
    rw [nextRef] at large
    obtain ⟨gone, newborn⟩ := watched.unborn (Nat.le_of_succ_le large)
    refine ⟨?_, newborn⟩
    change m.heap s = none
    rw [heap, Function.update_of_ne (Nat.ne_of_gt large)]
    exact gone
  holds now present := by
    change m.heap s = some now at present
    rw [heap] at present
    change P now m.log
    rw [log]
    by_cases mine : s = w.mgr.nextRef
    · rw [mine, Function.update_self] at present
      rw [← Option.some.inj present]
      exact (watched.unborn (Nat.le_of_eq mine.symm)).2 _ _ _ _ _
    · rw [Function.update_of_ne mine] at present
      exact readOnly.grows _ _ _ (watched.holds now present)

theorem watched_robust : Robust Anyhow (Watched P s) where
  freed _ _ := trivial
  diverged _ _ := trivial
  exhausted _ _ _ := trivial
  number _ _ _ watched :=
    watched.next readOnly rfl ⟨[], (List.append_nil _).symm⟩ fun now present =>
      ⟨now, present, rfl, id⟩
  mark _ watched := ⟨watched.unborn, watched.holds⟩
  frame w w' counted _ watched := by
    have same : w'.mgr.objects = w.mgr.objects := congrArg Prod.fst counted
    have kept : Watched P s (w.withMgr w'.mgr) := by
      refine watched.next readOnly (congrArg (fun objects => objects.2.2) same) ⟨[], ?_⟩ ?_
      · rw [List.append_nil]
        exact congrArg (fun objects => objects.2.1) same
      · intro now present
        refine ⟨now, ?_, rfl, id⟩
        exact (congrFun (congrArg Prod.fst same) s).symm.trans present
    exact ⟨kept.unborn, kept.holds⟩
  socket _ _ _ _ there _ same watched :=
    watched.change readOnly there same rfl (List.append_nil _).symm rfl
  status _ _ _ _ there _ watched :=
    watched.change readOnly there (by exact ⟨rfl, id⟩) rfl (List.append_nil _).symm rfl
  closing _ _ _ _ _ _ _ there _ watched :=
    watched.change readOnly there (by exact ⟨rfl, id⟩) rfl (List.append_nil _).symm rfl
  fill _ _ _ there watched :=
    watched.change readOnly there (by exact ⟨rfl, id⟩) rfl (List.append_nil _).symm rfl
  queue _ _ _ _ _ there _ watched :=
    watched.change readOnly there (by exact ⟨rfl, id⟩) rfl rfl rfl
  transmit _ _ _ _ there _ watched :=
    watched.change readOnly there (by exact ⟨rfl, id⟩) rfl rfl rfl
  record _ entry _ _ watched :=
    watched.next readOnly rfl ⟨[entry], rfl⟩ fun now present => ⟨now, present, rfl, id⟩
  serve _ _ _ _ _ _ watched := watched.born readOnly [] rfl (List.append_nil _).symm rfl
  create _ _ _ _ _ entry _ watched := watched.born readOnly [entry] rfl rfl rfl
  delete w t sock _ watched := by
    unfold Mgr.destroy
    split
    · exact watched.next readOnly rfl ⟨[_], rfl⟩ fun now present =>
        ⟨now, free_heap present, rfl, id⟩
    · exact watched.next readOnly rfl ⟨[], (List.append_nil _).symm⟩ fun now present =>
        ⟨now, free_heap present, rfl, id⟩

/-- Reading from another socket. -/
theorem watched_stores (other : t ≠ s) : Stores (Watched P s) t := by
  intro w sock readBuffer _ watched
  refine watched.next readOnly rfl ⟨[], (List.append_nil _).symm⟩ fun now present => ?_
  have untouched : w.mgr.heap s = some now := by
    simpa [Mgr.setSocket, Function.update_of_ne other.symm] using present
  exact ⟨now, untouched, rfl, id⟩

end Steps

theorem watched_reads (readOnly : ReadOnly P)
    (feed : ∀ w sock chunk, w.mgr.heap s = some sock →
      chunk.length ≤ sock.readBuffer.getSpace → Watched P s w →
      Wp Anyhow (Socket.feed s chunk) (fun _ => Watched P s) w) : Reads Anyhow (Watched P s) where
  toRobust := watched_robust readOnly
  feed w t sock chunk present room watched := by
    by_cases mine : t = s
    · subst mine
      exact feed w sock chunk present room watched
    · exact feed_keeps (watched_robust readOnly) (watched_stores readOnly mine) chunk w watched

end Watching

end CrossOver.Engine.Network
