import Mathlib.Tactic.Common

/-!
# The wakeup descriptor from start to shutdown

The work thread makes `wakeup_s_` in `SocketMgr::Init`; every other thread that
hands something over to it, and the work thread itself, call
`SocketMgr::WakeUp`, which looks at nothing before it dereferences the pointer.
`Scheduler_impl::shutdown` first calls `SocketMgr::Close`, which clears the
pointer, and then `WorkThread::Shutdown`, which wakes the work thread.

The console thread runs as soon as the work thread does, the threads of the
databases and of the HTTP client from when a script has made them.
-/

namespace CrossOver.Engine.Shutdown

/-- `wakeup_s_`, with the counter of its descriptor. -/
inductive Wakeup where
  /-- the constructor of `SocketMgr` leaves it alone -/
  | uninitialised
  | live (counter : Nat)
  | null
  deriving DecidableEq, Repr

/-- How far `SocketMgr::Init` comes; `Run` goes on in any case. -/
inductive Opening where
  | noEpoll
  | noEventfd
  | notAdded
  | added
  deriving DecidableEq, Repr

/-- `wakeup_s_` has been made. -/
def Opening.makes : Opening → Bool
  | .noEpoll => false
  | .noEventfd => false
  | .notAdded => true
  | .added => true

inductive Producer where
  | console
  | database
  | http
  deriving DecidableEq, Repr

/-- Where `main` is. -/
inductive Stage where
  /-- `startup` has returned, `running_` is not set yet -/
  | starting
  | waiting
  /-- between the two halves of `Scheduler_impl::shutdown` -/
  | closing
  | shutDown
  deriving DecidableEq, Repr

structure Process where
  stage : Stage
  /-- `running_` of `main.cpp` -/
  running : Bool
  /-- `Init` has returned, and scripts may run -/
  initialised : Bool
  /-- `is_running_` of the work thread -/
  isRunning : Bool
  wakeup : Wakeup
  /-- a pointer that leads nowhere has been dereferenced -/
  crashed : Bool
  deriving DecidableEq, Repr

def Process.initial : Process where
  stage := .starting
  running := false
  initialised := false
  isRunning := true
  wakeup := .uninitialised
  crashed := false

inductive Act where
  /-- `main` sets `running_` and begins to wait -/
  | await
  | init (opening : Opening)
  | pushTask (producer : Producer)
  | addTimer
  /-- `Socket::Send` or `SendMsg`, and whether the buffer took the bytes -/
  | send (queued : Bool)
  | disconnect
  /-- `lua_exit` -/
  | exit
  /-- `SocketMgr::Close`, the first half of `shutdown` -/
  | close
  /-- `WorkThread::Shutdown`, the second half -/
  | shutdown
  deriving DecidableEq, Repr

namespace Process

/-- `SocketMgr::WakeUp` -/
def wakeUp (p : Process) : Process :=
  match p.wakeup with
  | .live counter => { p with wakeup := .live (counter + 1) }
  | _ => { p with crashed := true }

def init (p : Process) (opening : Opening) : Process :=
  { p with
    initialised := true
    wakeup := if opening.makes then .live 0 else p.wakeup }

/-- `SocketMgr::Close`; what it finds has not been made by anybody else. -/
def close (p : Process) : Process :=
  match p.wakeup with
  | .uninitialised => { p with crashed := true, stage := .closing }
  | _ => { p with wakeup := .null, stage := .closing }

def scripted (p : Process) : Prop := p.initialised = true

instance (p : Process) : Decidable p.scripted := inferInstanceAs (Decidable (p.initialised = true))

end Process

/-- An act in the order of its thread; a process that has crashed does nothing. -/
def Act.exec (act : Act) (p : Process) : Option Process :=
  if p.crashed then none
  else
    match act with
    | .await =>
        if p.stage = .starting then some { p with stage := .waiting, running := true } else none
    | .init opening => if p.initialised then none else some (p.init opening)
    | .pushTask .console => some p.wakeUp
    | .pushTask _ => if p.scripted then some p.wakeUp else none
    | .addTimer => if p.scripted then some p.wakeUp else none
    | .send queued => if p.scripted then some (if queued then p.wakeUp else p) else none
    | .disconnect => if p.scripted then some p.wakeUp else none
    | .exit => if p.scripted then some { p with running := false } else none
    | .close => if p.stage = .waiting ∧ p.running = false then some p.close else none
    | .shutdown =>
        if p.stage = .closing then
          some (Process.wakeUp { p with isRunning := false, stage := .shutDown })
        else none

def play : List Act → Process → Option Process
  | [], p => some p
  | act :: rest, p => do
      let p ← act.exec p
      play rest p

/-- No pointer that leads nowhere has been used, and if `main` is in the middle of
`shutdown` it comes to its end. -/
def Process.Safe (p : Process) : Prop :=
  p.crashed = false ∧ ∀ p', Act.exec .shutdown p = some p' → p'.crashed = false

def Act.wakes : Act → Bool
  | .pushTask _ => true
  | .addTimer => true
  | .send queued => queued
  | .disconnect => true
  | .shutdown => true
  | _ => false

def Act.opens : Act → Bool
  | .init opening => opening.makes
  | _ => false

/-- Nobody wakes the work thread before `Init` has made the descriptor, and nobody
calls `shutdown`. -/
def Careful : Bool → List Act → Prop
  | _, [] => True
  | opened, act :: rest =>
      act ≠ .close ∧ (act.wakes = true → opened = true) ∧ Careful (opened || act.opens) rest

/-! ## What an act can do -/

variable {p p' : Process} {opened : Bool} {act : Act}

inductive Move (p : Process) : Act → Process → Prop where
  | woken {act : Act} : act.wakes = true → act ≠ .shutdown → Move p act p.wakeUp
  | await : p.stage = .starting → Move p .await { p with stage := .waiting, running := true }
  | init {opening : Opening} : p.initialised = false → Move p (.init opening) (p.init opening)
  | unsent : Move p (.send false) p
  | exit : p.initialised = true → Move p .exit { p with running := false }
  | close : p.stage = .waiting → p.running = false → Move p .close p.close
  | shutdown : p.stage = .closing →
      Move p .shutdown (Process.wakeUp { p with isRunning := false, stage := .shutDown })

theorem exec_cases (executed : act.exec p = some p') : p.crashed = false ∧ Move p act p' := by
  unfold Act.exec at executed
  obtain ⟨crashed, executed⟩ := Option.ite_none_left_eq_some.mp executed
  refine ⟨Bool.eq_false_iff.mpr crashed, ?_⟩
  cases act with
  | await =>
      obtain ⟨stage, executed⟩ := Option.ite_none_right_eq_some.mp executed
      exact Option.some.inj executed ▸ .await stage
  | init opening =>
      obtain ⟨fresh, executed⟩ := Option.ite_none_left_eq_some.mp executed
      exact Option.some.inj executed ▸ .init (Bool.eq_false_iff.mpr fresh)
  | pushTask producer =>
      have woken : p.wakeUp = p' := by
        cases producer with
        | console => exact Option.some.inj executed
        | database => exact Option.some.inj (Option.ite_none_right_eq_some.mp executed).2
        | http => exact Option.some.inj (Option.ite_none_right_eq_some.mp executed).2
      exact woken ▸ .woken rfl (by simp)
  | addTimer =>
      obtain ⟨-, executed⟩ := Option.ite_none_right_eq_some.mp executed
      exact Option.some.inj executed ▸ .woken rfl (by simp)
  | disconnect =>
      obtain ⟨-, executed⟩ := Option.ite_none_right_eq_some.mp executed
      exact Option.some.inj executed ▸ .woken rfl (by simp)
  | send queued =>
      obtain ⟨-, executed⟩ := Option.ite_none_right_eq_some.mp executed
      cases queued with
      | true => exact Option.some.inj executed ▸ .woken rfl (by simp)
      | false => exact Option.some.inj executed ▸ .unsent
  | exit =>
      obtain ⟨scripted, executed⟩ := Option.ite_none_right_eq_some.mp executed
      exact Option.some.inj executed ▸ .exit scripted
  | close =>
      obtain ⟨⟨stage, stopped⟩, executed⟩ := Option.ite_none_right_eq_some.mp executed
      exact Option.some.inj executed ▸ .close stage stopped
  | shutdown =>
      obtain ⟨stage, executed⟩ := Option.ite_none_right_eq_some.mp executed
      exact Option.some.inj executed ▸ .shutdown stage

/-! ## Before and after `Close` -/

/-- As long as all goes well. -/
structure Sound (opened : Bool) (p : Process) : Prop where
  crashed : p.crashed = false
  stage : p.stage = .starting ∨ p.stage = .waiting
  wakeup : (opened = true ∧ ∃ counter, p.wakeup = .live counter) ∨
    opened = false ∧ p.wakeup = .uninitialised
  exiting : p.stage = .waiting → p.running = false → p.initialised = true

/-- There is no way back from here. -/
def Lost (p : Process) : Prop :=
  p.crashed = true ∨ p.stage = .closing ∧ p.wakeup = .null ∧ p.initialised = true

theorem initial_sound : Sound false Process.initial where
  crashed := rfl
  stage := Or.inl rfl
  wakeup := Or.inr ⟨rfl, rfl⟩
  exiting := nofun

theorem Sound.safe (sound : Sound opened p) : p.Safe := by
  refine ⟨sound.crashed, fun p' executed => ?_⟩
  cases (exec_cases executed).2 with
  | woken _ other => exact absurd rfl other
  | shutdown stage =>
      rcases sound.stage with other | other
      · cases other.symm.trans stage
      · cases other.symm.trans stage

theorem Lost.not_safe (lost : Lost p) : ¬p.Safe := by
  rintro ⟨crashed, ends⟩
  obtain already | ⟨stage, wakeup, -⟩ := lost
  · exact absurd (already.symm.trans crashed) (by decide)
  · have executed : Act.exec .shutdown p =
        some (Process.wakeUp { p with isRunning := false, stage := .shutDown }) := by
      simp [Act.exec, crashed, stage]
    have broken := ends _ executed
    simp [Process.wakeUp, wakeup] at broken

theorem Sound.wakeUp (sound : Sound opened p) (ready : opened = true) : Sound opened p.wakeUp := by
  obtain ⟨-, counter, live⟩ | ⟨closed, -⟩ := sound.wakeup
  · unfold Process.wakeUp
    rw [live]
    exact ⟨sound.crashed, sound.stage, Or.inl ⟨ready, _, rfl⟩, sound.exiting⟩
  · exact absurd (ready.symm.trans closed) (by decide)

theorem Sound.wakeUp_early (sound : Sound opened p) (early : opened ≠ true) : Lost p.wakeUp := by
  obtain ⟨ready, -⟩ | ⟨-, wakeup⟩ := sound.wakeup
  · exact absurd ready early
  · left
    unfold Process.wakeUp
    rw [wakeup]

theorem Sound.close (sound : Sound opened p) (stage : p.stage = .waiting)
    (stopped : p.running = false) : Lost p.close := by
  have initialised := sound.exiting stage stopped
  unfold Process.close
  obtain ⟨-, counter, live⟩ | ⟨-, wakeup⟩ := sound.wakeup
  · rw [live]
    exact Or.inr ⟨rfl, rfl, initialised⟩
  · rw [wakeup]
    exact Or.inl rfl

theorem Sound.init (sound : Sound opened p) (opening : Opening) :
    Sound (opened || opening.makes) (p.init opening) := by
  refine ⟨sound.crashed, sound.stage, ?_, fun _ _ => rfl⟩
  unfold Process.init
  cases made : opening.makes with
  | true => exact Or.inl ⟨Bool.or_true opened, 0, rfl⟩
  | false =>
      rw [Bool.or_false]
      exact sound.wakeup

theorem Lost.wakeUp (wakeup : p.wakeup = .null) : Lost p.wakeUp := by
  left
  unfold Process.wakeUp
  rw [wakeup]

theorem Lost.exec (lost : Lost p) (executed : act.exec p = some p') : Lost p' := by
  obtain ⟨crashed, move⟩ := exec_cases executed
  obtain already | ⟨stage, wakeup, initialised⟩ := lost
  · cases already.symm.trans crashed
  · cases move with
    | woken => exact .wakeUp wakeup
    | shutdown => exact .wakeUp wakeup
    | unsent => exact Or.inr ⟨stage, wakeup, initialised⟩
    | exit => exact Or.inr ⟨stage, wakeup, initialised⟩
    | await starting => cases stage.symm.trans starting
    | init fresh => cases initialised.symm.trans fresh
    | close waiting => cases stage.symm.trans waiting

/-- An act keeps things well if it is careful, and ends that if it is not. -/
theorem Sound.exec (sound : Sound opened p) (executed : act.exec p = some p') :
    (act ≠ .close ∧ (act.wakes = true → opened = true) → Sound (opened || act.opens) p') ∧
      (¬(act ≠ .close ∧ (act.wakes = true → opened = true)) → Lost p') := by
  obtain ⟨-, move⟩ := exec_cases executed
  cases move with
  | woken wakes _ =>
      have still : act.opens = false := by
        cases act with
        | init opening => cases wakes
        | _ => rfl
      have goesOn : act ≠ .close := by
        rintro rfl
        cases wakes
      rw [still, Bool.or_false]
      refine ⟨fun careful => sound.wakeUp (careful.2 wakes), fun careless => ?_⟩
      exact sound.wakeUp_early fun ready => careless ⟨goesOn, fun _ => ready⟩
  | await =>
      simp only [Act.opens, Bool.or_false]
      refine ⟨fun _ => ?_, fun careless => absurd ⟨nofun, nofun⟩ careless⟩
      exact ⟨sound.crashed, Or.inr rfl, sound.wakeup, nofun⟩
  | @init opening _ =>
      exact ⟨fun _ => sound.init opening, fun careless => absurd ⟨nofun, nofun⟩ careless⟩
  | unsent =>
      simp only [Act.opens, Bool.or_false]
      exact ⟨fun _ => sound, fun careless => absurd ⟨nofun, nofun⟩ careless⟩
  | exit scripted =>
      simp only [Act.opens, Bool.or_false]
      refine ⟨fun _ => ?_, fun careless => absurd ⟨nofun, nofun⟩ careless⟩
      exact ⟨sound.crashed, sound.stage, sound.wakeup, fun _ _ => scripted⟩
  | close stage stopped =>
      exact ⟨fun careful => absurd rfl careful.1, fun _ => sound.close stage stopped⟩
  | shutdown stage =>
      rcases sound.stage with other | other
      · cases other.symm.trans stage
      · cases other.symm.trans stage

/-! ## Runs -/

theorem Lost.play {acts : List Act} (lost : Lost p) (played : play acts p = some p') : Lost p' := by
  induction acts generalizing p with
  | nil =>
      obtain rfl := Option.some.inj played
      exact lost
  | cons act rest inductionHypothesis =>
      obtain ⟨between, executed, played⟩ := Option.bind_eq_some_iff.mp played
      exact inductionHypothesis (lost.exec executed) played

theorem Sound.play {acts : List Act} (sound : Sound opened p) (played : play acts p = some p') :
    p'.Safe ↔ Careful opened acts := by
  induction acts generalizing p opened with
  | nil =>
      obtain rfl := Option.some.inj played
      exact iff_of_true sound.safe trivial
  | cons act rest inductionHypothesis =>
      obtain ⟨between, executed, played⟩ := Option.bind_eq_some_iff.mp played
      obtain ⟨goesOn, breaks⟩ := sound.exec executed
      rw [Careful, ← and_assoc]
      by_cases careful : act ≠ .close ∧ (act.wakes = true → opened = true)
      · rw [inductionHypothesis (goesOn careful) played]
        exact (and_iff_right careful).symm
      · refine iff_of_false ((breaks careful).play played).not_safe ?_
        exact fun whole => careful whole.1

/-- Every use of the wakeup descriptor meets a live one exactly in the runs in which
it is made before it is used and `shutdown` is not called. -/
theorem safe_iff_careful {acts : List Act} (played : play acts Process.initial = some p) :
    p.Safe ↔ Careful false acts := initial_sound.play played

def working : List Act :=
  [.await, .init .added, .pushTask .console, .addTimer, .send true, .pushTask .database]

theorem safe_working : ∃ p, play working Process.initial = some p ∧ p.Safe := by
  obtain ⟨p, played⟩ : ∃ p, play working Process.initial = some p := ⟨_, rfl⟩
  refine ⟨p, played, (safe_iff_careful played).mpr ?_⟩
  simp [working, Careful, Act.wakes, Act.opens, Opening.makes]

/-- A script ends the program. -/
theorem shutdown_crashes : ∃ p, play [.await, .init .added, .exit, .close, .shutdown]
    Process.initial = some p ∧ p.crashed = true := ⟨_, rfl, rfl⟩

end CrossOver.Engine.Shutdown
