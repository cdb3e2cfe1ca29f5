import Mathlib.Tactic.Common

/-!
# Peeling computations in `Except` apart

`StateT` over `Except` goes on from the state that the first part leaves.
-/

namespace CrossOver.Lib

variable {Error First Second : Type}

theorem bind_eq_ok {x : Except Error First} {f : First → Except Error Second} {r : Second} :
    (x >>= f) = .ok r ↔ ∃ a, x = .ok a ∧ f a = .ok r := by
  cases x with
  | error e => simp [bind, Except.bind]
  | ok a => simp [bind, Except.bind]

theorem ok_bind {a : First} {f : First → Except Error Second} :
    (Except.ok a >>= f) = f a := rfl

theorem pure_eq_ok {a b : First} : (pure a : Except Error First) = .ok b ↔ a = b :=
  ⟨Except.ok.inj, congrArg Except.ok⟩

section Stateful

variable {State : Type} {x : StateT State (Except Error) First} {s s' : State} {a : First}
  {e : Error}

theorem bind_of_ran {f : First → StateT State (Except Error) Second}
    (ran : x s = .ok (a, s')) : (x >>= f) s = f a s' := by
  change (x s >>= fun made => f made.1 made.2) = _
  rw [ran]
  rfl

theorem bind_of_failed {f : First → StateT State (Except Error) Second}
    (failed : x s = .error e) : (x >>= f) s = .error e := by
  change (x s >>= fun made => f made.1 made.2) = _
  rw [failed]
  rfl

theorem map_of_ran {f : First → Second} (ran : x s = .ok (a, s')) :
    (f <$> x) s = .ok (f a, s') := by
  change (x s >>= fun made => pure (f made.1, made.2)) = _
  rw [ran]
  rfl

theorem map_of_failed {f : First → Second} (failed : x s = .error e) :
    (f <$> x) s = .error e := by
  change (x s >>= fun made => pure (f made.1, made.2)) = _
  rw [failed]
  rfl

end Stateful

instance Except.decidableEq [DecidableEq Error] [DecidableEq First] :
    DecidableEq (Except Error First)
  | .ok a, .ok b => decidable_of_iff (a = b) (by rw [Except.ok.injEq])
  | .error e, .error f => decidable_of_iff (e = f) (by rw [Except.error.injEq])
  | .ok _, .error _ => .isFalse nofun
  | .error _, .ok _ => .isFalse nofun

end CrossOver.Lib
