import CrossOver.Engine.Network.Views

/-!
# What the functions on one socket do

One specification for each function that only touches the socket it is called
on, in terms of the changes of a socket's life.
-/

namespace CrossOver.Engine.Network

open CrossOver.Lib

section Rules

variable {allowed : Fault → World → Prop} {w : World} {s : SockRef} {sock : Socket}

@[simp]
theorem wp_modifyMgr {f : Mgr → Mgr} {post : Unit → World → Prop} :
    Wp allowed (modifyMgr f) post w ↔ post () { w with mgr := f w.mgr } := Iff.rfl

@[simp]
theorem wp_record {entry : LogEntry} {post : Unit → World → Prop} :
    Wp allowed (record entry) post w ↔ post () { w with mgr := w.mgr.record entry } := Iff.rfl

theorem wp_recordIf {condition : Prop} [Decidable condition] {entry : LogEntry}
    {post : Unit → World → Prop} :
    Wp allowed (recordIf condition entry) post w ↔
      post () { w with mgr := if condition then w.mgr.record entry else w.mgr } := by
  unfold recordIf
  split <;> rfl

@[simp]
theorem wp_mark {post : Unit → World → Prop} :
    Wp allowed mark post w ↔ post () { w with seen := w.mgr :: w.seen } := Iff.rfl

theorem wp_deref (present : w.mgr.heap s = some sock) {post : Socket → World → Prop} :
    Wp allowed (deref s) post w ↔ post sock w := by
  simp [deref, present]

theorem wp_updateSocket (present : w.mgr.heap s = some sock) {f : Socket → Socket}
    {post : Unit → World → Prop} :
    Wp allowed (updateSocket s f) post w ↔
      post () { w with mgr := w.mgr.setSocket s (f sock) } := by
  simp [updateSocket, wp_deref present]

theorem makeGeneralConnIDLoop_free {m : Mgr} {turns start connIdx : Nat}
    (found : makeGeneralConnIDLoop m turns start = some connIdx) : m.find connIdx = none := by
  induction turns generalizing start with
  | zero => simp [makeGeneralConnIDLoop] at found
  | succ turns inductionHypothesis =>
      rw [makeGeneralConnIDLoop] at found
      split at found
      · exact inductionHypothesis found
      · next free =>
          obtain rfl := Option.some.inj found
          simpa using free

theorem wp_addSocket (present : w.mgr.heap s = some sock)
    (missing : w.mgr.find sock.connIdx = none) {post : Unit → World → Prop} :
    Wp allowed (addSocket s) post w ↔
      post () { w with
        mgr := (w.mgr.insert sock.connIdx s).setSocket s
          { sock with count := sock.count + 1 } } := by
  unfold addSocket
  rw [wp_bind, wp_deref present, wp_bind, wp_get]
  simp only [missing, Option.isSome_none, Bool.false_eq_true, if_false]
  rw [wp_bind, wp_modifyMgr]
  simp only [refAdd]
  exact wp_updateSocket (w := { w with mgr := w.mgr.insert sock.connIdx s }) present

end Rules

/-- What only callbacks and marks change. -/
def World.course (w : World) : List Mgr × List (List LuaCall) := (w.seen, w.scripts)

/-- The world changes only in what is recorded about `s`, and there by `change`. -/
def Touched (s : SockRef) (change : View → View → Prop) (w w' : World) : Prop :=
  ∃ v', change (w.mgr.view s) v' ∧ Local w.mgr w'.mgr s v' ∧ w'.course = w.course

section Touched

variable {allowed : Fault → World → Prop} {w w₁ w₂ : World} {s : SockRef} {sock : Socket}

theorem epollCtl_spec (s : SockRef) (mustExist : Bool) (interest : Option Interest) :
    Wp allowed (epollCtl s mustExist interest) (fun accepted w' =>
      w'.course = w.course ∧
        (accepted = true ∧ (mustExist = true → w.mgr.interest s ≠ none) ∧
            w'.mgr = w.mgr.setInterest s interest ∨
          accepted = false ∧ w'.mgr = w.mgr)) w := by
  unfold epollCtl
  by_cases accepted :
      (w.epollResults.headD true && (!mustExist || (w.mgr.interest s).isSome)) = true
  · simp only [wp_bind, wp_get, wp_modify, accepted, if_true, wp_modifyMgr, wp_pure, true_and]
    refine ⟨rfl, Or.inl ⟨?_, trivial⟩⟩
    intro needed missing
    simp [needed, missing] at accepted
  · rw [Bool.not_eq_true] at accepted
    simp only [wp_bind, wp_get, wp_modify, accepted, Bool.false_eq_true, if_false, wp_pure, true_and]
    exact ⟨rfl, Or.inr trivial⟩

theorem postEvent_spec (present : w.mgr.heap s = some sock) (events : Interest) :
    Wp allowed (postEvent s events) (fun _ => Touched s (Posts s events) w) w := by
  unfold postEvent
  rw [wp_bind, wp_deref present]
  refine (epollCtl_spec s true (some events)).seq ?_
  rintro accepted w' ⟨seen, ⟨rfl, registered, mgr⟩ | ⟨rfl, mgr⟩⟩
  · refine ⟨_, .accepted (registered rfl), ?_, seen⟩
    rw [mgr]
    exact local_setInterest _ _ _
  · refine ⟨_, .refused, ?_, seen⟩
    change Local w.mgr (w'.mgr.record _) s _
    rw [mgr]
    exact local_record _ rfl

/-- A change to the socket, followed by another. -/
theorem Touched.after {change whole : View → View → Prop} {v₁ : View}
    (second : Touched s change w₁ w₂) (first : Local w.mgr w₁.mgr s v₁) (seen : w₁.course = w.course)
    (compose : ∀ v', change v₁ v' → whole (w.mgr.view s) v') : Touched s whole w w₂ := by
  obtain ⟨v₂, changed, later, seenLater⟩ := second
  rw [first.self] at changed
  exact ⟨v₂, compose v₂ changed, first.trans later, seenLater.trans seen⟩

theorem Touched.mono {change weaker : View → View → Prop} (touched : Touched s change w w₁)
    (implies : ∀ v', change (w.mgr.view s) v' → weaker (w.mgr.view s) v') :
    Touched s weaker w w₁ := by
  obtain ⟨v', changed, rest⟩ := touched
  exact ⟨v', implies v' changed, rest⟩

theorem Local.heap {m m' : Mgr} {v : View} (changed : Local m m' s v) : m'.heap s = v.sock :=
  congrArg View.sock changed.self

theorem burstPush_spec (present : w.mgr.heap s = some sock) :
    Wp allowed (burstPush s) (fun _ => Touched s (Pushes s) w) w := by
  unfold burstPush
  rw [wp_bind, wp_deref present]
  by_cases idle : sock.writeLock = 0
  · simp only [idle, if_true]
    rw [wp_bind, wp_updateSocket present]
    have changed := local_setSocket w.mgr s { sock with writeLock := sock.writeLock + 1 }
    refine (postEvent_spec changed.heap _).mono ?_
    intro _ w' posted
    exact posted.after changed rfl fun v' posts => .idle present idle posts
  · simp only [idle, if_false, wp_pure]
    exact ⟨_, .busy present idle, .refl _ _, rfl⟩

theorem fillAndPush_spec (present : w.mgr.heap s = some sock) :
    Wp allowed (fillAndPush s) (fun _ => Touched s (FillsAndPushes s) w) w := by
  have changed := local_setSocket w.mgr s
    { sock with writeBuffer := sock.writeBuffer.fillVector.2 }
  unfold fillAndPush
  rw [wp_bind, wp_updateSocket present, wp_bind, wp_deref changed.heap]
  by_cases some : sock.writeBuffer.fillVector.2.getSize > 0
  · simp only [some, if_true]
    rw [wp_bind]
    refine (burstPush_spec changed.heap).mono ?_
    intro _ w' pushed
    exact pushed.after changed rfl fun v' pushes => .filled present (Nat.ne_of_gt some) pushes
  · simp only [some, if_false, wp_pure]
    exact ⟨_, .empty present (Nat.eq_zero_of_not_pos some), changed, rfl⟩

theorem handleDelaySend_spec (present : w.mgr.heap s = some sock) :
    Wp allowed (handleDelaySend s) (fun _ => Touched s (DelaySends s) w) w := by
  unfold handleDelaySend
  rw [wp_bind, wp_deref present]
  by_cases connected : sock.status = .connected
  · simp only [connected, if_true]
    refine (fillAndPush_spec present).mono ?_
    intro _ w' pushed
    exact pushed.mono fun v' fills => .done present connected fills
  · simp only [connected, if_false, wp_pure]
    exact ⟨_, .ignored present connected, .refl _ _, rfl⟩

theorem handleClose_spec (present : w.mgr.heap s = some sock) :
    Wp allowed (handleClose s) (fun _ => Touched s (Closes s) w) w := by
  unfold handleClose
  rw [wp_bind, wp_deref present]
  by_cases connected : sock.status = .connected
  · have changed := local_setSocket w.mgr s { sock with status := .closing }
    simp only [connected, if_true]
    rw [wp_bind, wp_updateSocket present, wp_bind]
    refine (burstPush_spec changed.heap).mono ?_
    intro _ w' pushed
    exact pushed.after changed rfl fun v' pushes => .done present connected pushes
  · simp only [connected, if_false, wp_pure]
    exact ⟨_, .ignored present connected, .refl _ _, rfl⟩

end Touched

end CrossOver.Engine.Network
