import Mathlib.Data.List.Nodup
import CrossOver.Engine.Network.Life

/-!
# The manager as a collection of lives

The manager's lists and tables seen from each socket.  A state is consistent
when every socket in it has lived by `Lives`; an operation keeps this when it
moves each socket by at most one step of its life.
-/

namespace CrossOver.Engine.Network

open CrossOver.Lib

def Mgr.view (m : Mgr) (s : SockRef) : View where
  sock := m.heap s
  names := (m.socketMap.filter fun entry => entry.2 = s).map Prod.fst
  events := (m.eventQueue.filter fun event => event.s = s).map SocketEvent.customizedEvents
  held := m.held.count s
  unprocessed := m.batch.count s
  interest := m.interest s
  log := m.log.filter fun entry => entry.subject = some s

structure Consistent (m : Mgr) : Prop where
  keys : (m.socketMap.map Prod.fst).Nodup
  fresh : ∀ s, m.nextRef ≤ s → m.view s = .blank
  lived : ∀ s, Lived s (m.view s)

theorem Consistent.good {m : Mgr} (consistent : Consistent m) (s : SockRef) : (m.view s).Good :=
  (consistent.lived s).good

theorem initial_consistent : Consistent Mgr.initial where
  keys := by simp [Mgr.initial]
  fresh := by
    intro s _
    rfl
  lived := fun _ => .refl

/-- Each socket moves by at most one step. -/
theorem Consistent.advance {m m' : Mgr} (consistent : Consistent m)
    (moves : ∀ s, m'.view s = m.view s ∨ Lives s (m.view s) (m'.view s))
    (keys : (m'.socketMap.map Prod.fst).Nodup)
    (fresh : ∀ s, m'.nextRef ≤ s → m'.view s = .blank) : Consistent m' where
  keys := keys
  fresh := fresh
  lived := by
    intro s
    rcases moves s with same | step
    · rw [same]
      exact consistent.lived s
    · exact (consistent.lived s).tail step

/-! ## Changes to one socket -/

/-- Only what is recorded about `s` itself changes, and it becomes `v'`. -/
structure Local (m m' : Mgr) (s : SockRef) (v' : View) : Prop where
  view : m'.view = Function.update m.view s v'
  socketMap : m'.socketMap = m.socketMap
  nextRef : m'.nextRef = m.nextRef
  eventQueue : m'.eventQueue = m.eventQueue
  held : m'.held = m.held
  batch : m'.batch = m.batch

section Local

variable {m m₁ m₂ : Mgr} {s : SockRef} {v v₁ v₂ : View} {sock : Socket}

theorem Local.self (changed : Local m m₁ s v) : m₁.view s = v := by
  rw [changed.view, Function.update_self]

theorem Local.refl (m : Mgr) (s : SockRef) : Local m m s (m.view s) :=
  ⟨(Function.update_eq_self s m.view).symm, rfl, rfl, rfl, rfl, rfl⟩

theorem Local.trans (first : Local m m₁ s v₁) (second : Local m₁ m₂ s v₂) : Local m m₂ s v₂ where
  view := by rw [second.view, first.view, Function.update_idem]
  socketMap := second.socketMap.trans first.socketMap
  nextRef := second.nextRef.trans first.nextRef
  eventQueue := second.eventQueue.trans first.eventQueue
  held := second.held.trans first.held
  batch := second.batch.trans first.batch

/-- Two managers that agree but for `s`. -/
theorem view_eq_update (same : ∀ other, other ≠ s → m₁.view other = m.view other) :
    m₁.view = Function.update m.view s (m₁.view s) := by
  funext other
  by_cases here : other = s
  · subst here
    simp
  · rw [Function.update_of_ne here, same other here]

theorem local_setSocket (m : Mgr) (s : SockRef) (sock : Socket) :
    Local m (m.setSocket s sock) s ((m.view s).setSock sock) where
  view := by
    have here : (m.setSocket s sock).view s = (m.view s).setSock sock := by
      simp [Mgr.view, Mgr.setSocket, View.setSock]
    rw [← here]
    apply view_eq_update
    intro other different
    simp [Mgr.view, Mgr.setSocket, different]
  socketMap := rfl
  nextRef := rfl
  eventQueue := rfl
  held := rfl
  batch := rfl

theorem View.setSock_setSock (v : View) (first second : Socket) :
    (v.setSock first).setSock second = v.setSock second := rfl

theorem Local.setSocket (changed : Local m m₁ s v) (sock : Socket) :
    Local m (m₁.setSocket s sock) s (v.setSock sock) := by
  have next := changed.trans (local_setSocket m₁ s sock)
  rwa [changed.self] at next

theorem local_setInterest (m : Mgr) (s : SockRef) (interest : Option Interest) :
    Local m (m.setInterest s interest) s { m.view s with interest := interest } where
  view := by
    have here : (m.setInterest s interest).view s = { m.view s with interest := interest } := by
      simp [Mgr.view, Mgr.setInterest]
    rw [← here]
    apply view_eq_update
    intro other different
    simp [Mgr.view, Mgr.setInterest, different]
  socketMap := rfl
  nextRef := rfl
  eventQueue := rfl
  held := rfl
  batch := rfl

theorem local_record (m : Mgr) {entry : LogEntry} (subject : entry.subject = some s) :
    Local m (m.record entry) s ((m.view s).note entry) where
  view := by
    have here : (m.record entry).view s = (m.view s).note entry := by
      simp [Mgr.view, Mgr.record, View.note, List.filter_append, subject]
    rw [← here]
    apply view_eq_update
    intro other different
    simp [Mgr.view, Mgr.record, List.filter_append, subject, different.symm]
  socketMap := rfl
  nextRef := rfl
  eventQueue := rfl
  held := rfl
  batch := rfl

theorem local_free (m : Mgr) (s : SockRef) :
    Local m (m.free s) s { m.view s with sock := none } where
  view := by
    have here : (m.free s).view s = { m.view s with sock := none } := by
      simp [Mgr.view, Mgr.free]
    rw [← here]
    apply view_eq_update
    intro other different
    simp [Mgr.view, Mgr.free, different]
  socketMap := rfl
  nextRef := rfl
  eventQueue := rfl
  held := rfl
  batch := rfl

/-- An entry about no socket is not part of any view. -/
theorem record_view (m : Mgr) {entry : LogEntry} (subject : entry.subject = none) :
    (m.record entry).view = m.view := by
  funext other
  simp [Mgr.view, Mgr.record, List.filter_append, subject]

theorem local_silent (m : Mgr) (s : SockRef) {entry : LogEntry} (subject : entry.subject = none) :
    Local m (m.record entry) s (m.view s) where
  view := by rw [record_view m subject, Function.update_eq_self]
  socketMap := rfl
  nextRef := rfl
  eventQueue := rfl
  held := rfl
  batch := rfl

theorem Local.silent (changed : Local m m₁ s v) {entry : LogEntry}
    (subject : entry.subject = none) : Local m (m₁.record entry) s v := by
  have next := changed.trans (local_silent m₁ s subject)
  rwa [changed.self] at next

theorem Local.silentIf (changed : Local m m₁ s v) (condition : Prop) [Decidable condition]
    {entry : LogEntry} (subject : entry.subject = none) :
    Local m (if condition then m₁.record entry else m₁) s v := by
  split
  · exact changed.silent subject
  · exact changed

theorem push_view (m : Mgr) (event : SocketEvent) :
    (m.push event).view = Function.update m.view event.s
      { m.view event.s with
        events := (m.view event.s).events ++ [event.customizedEvents] } := by
  have here : (m.push event).view event.s =
      { m.view event.s with
        events := (m.view event.s).events ++ [event.customizedEvents] } := by
    simp [Mgr.view, Mgr.push, List.filter_append]
  rw [← here]
  apply view_eq_update
  intro other different
  simp [Mgr.view, Mgr.push, List.filter_append, different.symm]

/-- One socket moves by a step of its life. -/
theorem Consistent.at {m' : Mgr} {v' : View} (consistent : Consistent m)
    (view : m'.view = Function.update m.view s v') (step : Lives s (m.view s) v')
    (keys : (m'.socketMap.map Prod.fst).Nodup) (nextRef : m'.nextRef = m.nextRef)
    (old : s < m.nextRef) : Consistent m' := by
  refine consistent.advance ?_ keys ?_
  · intro other
    rw [view]
    by_cases here : other = s
    · subst here
      exact Or.inr (by simpa using step)
    · exact Or.inl (Function.update_of_ne here _ _)
  · intro other large
    rw [nextRef] at large
    have different : other ≠ s := Nat.ne_of_gt (Nat.lt_of_lt_of_le old large)
    rw [view, Function.update_of_ne different]
    exact consistent.fresh other large

theorem Consistent.allocated (consistent : Consistent m) (present : m.heap s = some sock) :
    s < m.nextRef := by
  by_contra large
  have blank := congrArg View.sock (consistent.fresh s (Nat.le_of_not_lt large))
  simp only [Mgr.view, View.blank, present] at blank
  exact absurd blank (by simp)

theorem Consistent.local (consistent : Consistent m) (present : m.heap s = some sock)
    (changed : Local m m₁ s v) (step : Lives s (m.view s) v) : Consistent m₁ :=
  consistent.at changed.view step (changed.socketMap ▸ consistent.keys) changed.nextRef
    (consistent.allocated present)

end Local

/-! ## The map -/

section Map

variable {m : Mgr} {s : SockRef} {connIdx : Nat}

theorem Mgr.find_mem (found : m.find connIdx = some s) : (connIdx, s) ∈ m.socketMap := by
  obtain ⟨entry, hit, same⟩ := Option.map_eq_some_iff.mp found
  have key := List.find?_some hit
  have membership := List.mem_of_find?_eq_some hit
  simp only [decide_eq_true_eq] at key
  rw [← key, ← same]
  exact membership

theorem Mgr.find_none (missing : m.find connIdx = none) :
    connIdx ∉ m.socketMap.map Prod.fst := by
  intro membership
  obtain ⟨entry, inside, key⟩ := List.mem_map.mp membership
  have absent := List.find?_eq_none.mp (Option.map_eq_none_iff.mp missing) entry inside
  simp [key] at absent

theorem Mgr.find_of_mem (keys : (m.socketMap.map Prod.fst).Nodup)
    (inside : (connIdx, s) ∈ m.socketMap) : m.find connIdx = some s := by
  cases found : m.find connIdx with
  | none => exact absurd (List.mem_map_of_mem inside) (Mgr.find_none found)
  | some other =>
      have equal := List.inj_on_of_nodup_map keys (Mgr.find_mem found) inside rfl
      exact congrArg some (congrArg Prod.snd equal)

theorem mem_names (inside : (connIdx, s) ∈ m.socketMap) : connIdx ∈ (m.view s).names := by
  simp only [Mgr.view, List.mem_map, List.mem_filter, decide_eq_true_eq]
  exact ⟨_, ⟨inside, rfl⟩, rfl⟩

theorem names_mem (named : connIdx ∈ (m.view s).names) : (connIdx, s) ∈ m.socketMap := by
  simp only [Mgr.view, List.mem_map, List.mem_filter, decide_eq_true_eq] at named
  obtain ⟨entry, ⟨inside, holder⟩, key⟩ := named
  rw [← holder, ← key]
  exact inside

/-- Whom the map names is alive and knows its name. -/
theorem Consistent.found (consistent : Consistent m) (inside : (connIdx, s) ∈ m.socketMap) :
    ∃ sock, m.heap s = some sock ∧ sock.connIdx = connIdx ∧ sock.socketType = .tcp ∧
      (m.view s).names = [connIdx] := by
  have named := mem_names inside
  have good := (consistent.good s).outline
  obtain ⟨identity, present, unique⟩ := good.named (List.ne_nil_of_mem named)
  obtain ⟨sock, alive, rfl⟩ := Option.map_eq_some_iff.mp present
  have key : connIdx = sock.connIdx := by
    change (m.view s).names = [sock.connIdx] at unique
    rw [unique] at named
    exact List.mem_singleton.mp named
  refine ⟨sock, alive, key.symm, (good.phase _ present).1, ?_⟩
  rw [key]
  exact unique

theorem insert_view (m : Mgr) (connIdx : Nat) (s : SockRef) :
    (m.insert connIdx s).view =
      Function.update m.view s { m.view s with names := (m.view s).names ++ [connIdx] } := by
  have here : (m.insert connIdx s).view s =
      { m.view s with names := (m.view s).names ++ [connIdx] } := by
    simp [Mgr.view, Mgr.insert, List.filter_append]
  rw [← here]
  apply view_eq_update
  intro other different
  simp [Mgr.view, Mgr.insert, List.filter_append, different.symm]

/-- The entry of `s` is the only one under its key. -/
theorem erase_view (unique : (m.socketMap.map Prod.fst).Nodup)
    (inside : (connIdx, s) ∈ m.socketMap) (names : (m.view s).names = [connIdx]) :
    (m.erase connIdx).view = Function.update m.view s { m.view s with names := [] } := by
  have here : (m.erase connIdx).view s = { m.view s with names := [] } := by
    have gone : ((m.socketMap.filter fun entry => entry.1 ≠ connIdx).filter
        fun entry => entry.2 = s) = [] := by
      rw [List.filter_eq_nil_iff]
      intro entry membership
      obtain ⟨inMap, key⟩ := List.mem_filter.mp membership
      simp only [ne_eq, decide_not, Bool.not_eq_true', decide_eq_false_iff_not] at key
      simp only [decide_eq_true_eq]
      intro holder
      have named : entry.1 ∈ (m.view s).names := mem_names (by rw [← holder]; exact inMap)
      rw [names] at named
      exact key (List.mem_singleton.mp named)
    simp only [Mgr.view, Mgr.erase, gone, List.map_nil]
  rw [← here]
  apply view_eq_update
  intro other different
  have same : ((m.socketMap.filter fun entry => entry.1 ≠ connIdx).filter
      fun entry => entry.2 = other) = m.socketMap.filter fun entry => entry.2 = other := by
    rw [List.filter_filter]
    apply List.filter_congr
    intro entry membership
    by_cases holder : entry.2 = other
    · have key : entry.1 ≠ connIdx := by
        intro sameKey
        have equal := List.inj_on_of_nodup_map unique membership inside sameKey
        exact different (by rw [← holder, equal])
      simp [holder, key]
    · simp [holder]
  simp only [Mgr.view, Mgr.erase, same]

end Map

end CrossOver.Engine.Network
