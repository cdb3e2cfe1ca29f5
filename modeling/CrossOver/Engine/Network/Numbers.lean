import CrossOver.Engine.Network.Keeping
import CrossOver.Lib.Cycle

/-!
# Connection ids

`auto_conn_idx_` walks on the ring `1, …, 2 ^ 32 - 2`; `INVALID_INDEX` and 0 are
no ids.  Only `MakeGeneralConnID` moves it, so its range survives every
operation, whatever else goes wrong.  A number is taken out of the ring while
no socket has it, and nothing comes between that and `AddSocket`.
-/

namespace CrossOver.Engine.Network

open CrossOver.Lib

def lastConnIdx : Nat := 2 ^ 32 - 2

def IsConnIdx (connIdx : Nat) : Prop := 1 ≤ connIdx ∧ connIdx ≤ lastConnIdx

theorem nextConnIdx_ring {connIdx : Nat} (inside : IsConnIdx connIdx) :
    nextConnIdx connIdx = ring lastConnIdx connIdx := by
  obtain ⟨positive, bounded⟩ := inside
  unfold nextConnIdx ring lastConnIdx at *
  have small : (connIdx + 1) % 2 ^ 32 = connIdx + 1 := Nat.mod_eq_of_lt (by omega)
  dsimp only
  rw [small]
  split
  · next last => rw [if_neg (by omega)]
  · next inner => rw [if_pos (by omega)]

theorem isConnIdx_ring (connIdx : Nat) : IsConnIdx (ring lastConnIdx connIdx) :=
  ring_inside (by decide) connIdx

theorem find_isSome {m : Mgr} {connIdx : Nat} :
    (m.find connIdx).isSome ↔ connIdx ∈ m.socketMap.map Prod.fst := by
  unfold Mgr.find
  rw [Option.isSome_map, List.find?_isSome, List.mem_map]
  simp only [decide_eq_true_eq]

/-- The walk of `MakeGeneralConnID` is a search on the ring. -/
theorem makeGeneralConnIDLoop_ring (m : Mgr) (turns : Nat) {start : Nat}
    (inside : IsConnIdx start) :
    makeGeneralConnIDLoop m turns start =
      firstFree (ring lastConnIdx) (m.socketMap.map Prod.fst) turns start := by
  induction turns generalizing start with
  | zero => rfl
  | succ turns inductionHypothesis =>
      have walked := inductionHypothesis (isConnIdx_ring start)
      rw [← nextConnIdx_ring inside] at walked
      rw [makeGeneralConnIDLoop, firstFree, ← nextConnIdx_ring inside, ← walked]
      by_cases taken : start ∈ m.socketMap.map Prod.fst
      · rw [if_pos (find_isSome.mpr taken), if_pos taken]
        rfl
      · rw [if_neg (mt find_isSome.mp taken), if_neg taken]

section Search

variable {m : Mgr} (ranged : IsConnIdx m.autoConnIdx)

include ranged

theorem search_isSome (few : m.socketMap.length < lastConnIdx) :
    ∃ connIdx, m.search = some connIdx := by
  rw [← List.length_map Prod.fst] at few
  obtain ⟨connIdx, found, -⟩ := firstFree_ring ranged.1 ranged.2 few
  rw [List.length_map, ← makeGeneralConnIDLoop_ring m _ ranged] at found
  exact ⟨connIdx, found⟩

theorem search_inside {connIdx : Nat} (found : m.search = some connIdx) : IsConnIdx connIdx := by
  rw [Mgr.search, makeGeneralConnIDLoop_ring m _ ranged] at found
  obtain ⟨-, k, -, place⟩ := firstFree_spec found
  rw [ring_iterate ranged.1 ranged.2] at place
  have below := Nat.mod_lt (m.autoConnIdx - 1 + k) (by decide : lastConnIdx > 0)
  exact ⟨by omega, by omega⟩

end Search

/-! ## Every step -/

/-- A step may fail for want of ids only, and then they have all been given out. -/
def Exhausting (fault : Fault) (w : World) : Prop :=
  IsConnIdx w.mgr.autoConnIdx ∧ fault ≠ .assertFailed ∧
    (fault = .idsExhausted → lastConnIdx ≤ w.mgr.socketMap.length)

theorem ranged_robust : Robust Exhausting (fun w => IsConnIdx w.mgr.autoConnIdx) where
  freed _ ranged := ⟨ranged, by decide, by simp⟩
  diverged _ ranged := ⟨ranged, by decide, by simp⟩
  exhausted w missed ranged := by
    refine ⟨ranged, by decide, fun _ => Nat.not_lt.mp fun few => ?_⟩
    obtain ⟨connIdx, found⟩ := search_isSome ranged few
    rw [missed] at found
    cases found
  number w connIdx found ranged := by
    have inside := search_inside ranged found
    have moved := isConnIdx_ring connIdx
    rw [← nextConnIdx_ring inside] at moved
    exact moved
  mark _ ranged := ranged
  frame w w' counted _ ranged := by
    have same : w'.mgr.autoConnIdx = w.mgr.autoConnIdx := congrArg Prod.snd counted
    rw [same]
    exact ranged
  socket _ _ _ _ _ _ _ ranged := ranged
  status _ _ _ _ _ _ ranged := ranged
  closing _ _ _ _ _ _ _ _ _ ranged := ranged
  fill _ _ _ _ ranged := ranged
  queue _ _ _ _ _ _ _ ranged := ranged
  transmit _ _ _ _ _ _ ranged := ranged
  record _ _ _ _ ranged := ranged
  serve _ _ _ _ _ _ ranged := ranged
  create _ _ _ _ _ _ _ ranged := ranged
  delete w s sock _ ranged := by
    unfold Mgr.destroy
    split
    · exact ranged
    · exact ranged

theorem ranged_stores (s : SockRef) : Stores (fun w => IsConnIdx w.mgr.autoConnIdx) s :=
  fun _ _ _ _ ranged => ranged

theorem reachable_ranged {m : Mgr} (reached : system.Reachable m) : IsConnIdx m.autoConnIdx := by
  induction reached with
  | start initially =>
      rw [initially]
      exact ⟨by decide, by decide⟩
  | next _ executed ranged =>
      obtain ⟨returned, rfl⟩ := executed
      exact (exec_ends (ranged_robust.reads ranged_stores) _ ranged).1 returned

/-- With fewer than `2 ^ 32 - 2` sockets `MakeGeneralConnID` ends with an id that
no socket has.  No step, whatever it calls and wherever, meets an assertion of
`AddSocket`, or searches in vain while there are ids. -/
theorem connIds_fresh {m : Mgr} (reached : system.Reachable m) :
    IsConnIdx m.autoConnIdx ∧
      (m.socketMap.length < 2 ^ 32 - 2 → ∀ w : World, w.mgr = m → ∃ connIdx w',
        makeGeneralConnID w = (.ok connIdx, w') ∧ 1 ≤ connIdx ∧ connIdx ≤ 2 ^ 32 - 2 ∧
          m.find connIdx = none ∧ IsConnIdx w'.mgr.autoConnIdx) ∧
      ∀ step : Step, IsConnIdx (step.exec m).2.mgr.autoConnIdx ∧
        (step.exec m).1 ≠ .error .assertFailed ∧
        ((step.exec m).1 = .error .idsExhausted →
          2 ^ 32 - 2 ≤ (step.exec m).2.mgr.socketMap.length) := by
  have ranged := reachable_ranged reached
  refine ⟨ranged, ?_, ?_⟩
  · rintro few w rfl
    obtain ⟨connIdx, found⟩ := search_isSome ranged few
    have inside := search_inside ranged found
    have free : w.mgr.find connIdx = none := makeGeneralConnIDLoop_free found
    have moved := ranged_robust.number w connIdx found ranged
    have called : Wp (fun _ _ => False) makeGeneralConnID
        (fun given w' => given = connIdx ∧ IsConnIdx w'.mgr.autoConnIdx) w := by
      unfold Mgr.search at found
      rw [makeGeneralConnID, wp_bind, wp_get]
      simp only [found]
      exact ⟨rfl, moved⟩
    obtain ⟨_, w', returned, rfl, within⟩ := called.returns
    exact ⟨_, w', returned, inside.1, inside.2, free, within⟩
  · intro step
    obtain ⟨returns, fails⟩ := exec_ends (ranged_robust.reads ranged_stores) step ranged
    rcases ending : (step.exec m).1 with fault | value
    · obtain ⟨ranged, known, exhausted⟩ := fails fault ending
      refine ⟨ranged, fun same => known (Except.error.inj same), fun same => ?_⟩
      exact exhausted (Except.error.inj same)
    · exact ⟨returns ending, by simp, by simp⟩

/-- A script connects. -/
def calling : Step where
  op := .lua (.connectEx
    { onconnectedHandler := { funId := 1 }
      oncloseHandler := { funId := 2 }
      onrecvHandler := { funId := 3 }
      sendBufferSize := 16
      recvBufferSize := 16 } .minusOne)
  scripts := []
  epollResults := []
  udpConnects := []

def called : Mgr := (calling.exec Mgr.initial).2.mgr

theorem connIds_fresh_called :
    (called.socketMap.map Prod.fst = [1] ∧ ∃ connIdx w', makeGeneralConnID (calling.start called) =
      (.ok connIdx, w') ∧ called.find connIdx = none) ∧
      (calling.exec called).1 ≠ .error .assertFailed := by
  have stepped : system.step Mgr.initial calling called := ⟨by decide +kernel, rfl⟩
  have reached : system.Reachable called := .next (.start rfl) stepped
  have alone : called.socketMap.map Prod.fst = [1] := by decide +kernel
  obtain ⟨-, ends, steps⟩ := connIds_fresh reached
  have few : called.socketMap.length < 2 ^ 32 - 2 := by
    rw [← List.length_map Prod.fst, alone]
    decide
  obtain ⟨connIdx, w', returned, -, -, free, -⟩ := ends few (calling.start called) rfl
  exact ⟨⟨alone, connIdx, w', returned, free⟩, (steps calling).2.1⟩

end CrossOver.Engine.Network
