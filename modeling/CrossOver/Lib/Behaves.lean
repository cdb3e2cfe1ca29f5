import CrossOver.Lib.Result

/-!
# Postconditions for state that a failure loses

`Behaves fails x post s` says that `x`, started in `s`, either returns a value
and a state that meet `post`, or fails with one of the failures `fails`.  A
failure leaves no state behind.
-/

namespace CrossOver.Lib

variable {State Error First Second : Type}

def Behaves (fails : Error → Prop) (x : StateT State (Except Error) First)
    (post : First → State → Prop) (s : State) : Prop :=
  match x s with
  | .ok (value, t) => post value t
  | .error failure => fails failure

section Rules

variable {fails : Error → Prop} {x : StateT State (Except Error) First}
  {f : First → StateT State (Except Error) Second} {s : State}

@[simp]
theorem behaves_pure {post : First → State → Prop} {value : First} :
    Behaves fails (pure value : StateT State (Except Error) First) post s ↔ post value s := Iff.rfl

@[simp]
theorem behaves_get {post : State → State → Prop} :
    Behaves fails (get : StateT State (Except Error) State) post s ↔ post s s := Iff.rfl

@[simp]
theorem behaves_throw {post : First → State → Prop} {failure : Error} :
    Behaves fails (throw failure : StateT State (Except Error) First) post s ↔ fails failure :=
  Iff.rfl

@[simp]
theorem behaves_bind {post : Second → State → Prop} :
    Behaves fails (x >>= f) post s ↔
      Behaves fails x (fun value t => Behaves fails (f value) post t) s := by
  change (match (x s >>= fun made => f made.1 made.2) with
    | .ok (value, t) => post value t
    | .error failure => fails failure) ↔ _
  unfold Behaves
  cases x s with
  | error failure => rfl
  | ok made => rfl

theorem Behaves.mono {post weaker : First → State → Prop} (holds : Behaves fails x post s)
    (implies : ∀ value t, post value t → weaker value t) : Behaves fails x weaker s := by
  unfold Behaves at holds ⊢
  cases ran : x s with
  | error failure => simpa only [ran] using holds
  | ok made => exact implies _ _ (by simpa only [ran] using holds)

/-- Run the first part by its specification, then go on. -/
theorem Behaves.seq {mid : First → State → Prop} {post : Second → State → Prop}
    (first : Behaves fails x mid s)
    (rest : ∀ value t, mid value t → Behaves fails (f value) post t) :
    Behaves fails (x >>= f) post s := behaves_bind.mpr (first.mono rest)

/-- A postcondition with the run that it is about. -/
theorem Behaves.ran {post : First → State → Prop} (holds : Behaves fails x post s) :
    Behaves fails x (fun value t => post value t ∧ x s = .ok (value, t)) s := by
  unfold Behaves at holds ⊢
  cases ran : x s with
  | error failure => simpa only [ran] using holds
  | ok made => exact ⟨by simpa only [ran] using holds, rfl⟩

theorem Behaves.ite {condition : Prop} [Decidable condition]
    {y : StateT State (Except Error) First} {post : First → State → Prop}
    (positive : condition → Behaves fails x post s)
    (negative : ¬ condition → Behaves fails y post s) :
    Behaves fails (if condition then x else y) post s := by
  split
  · next holds => exact positive holds
  · next holds => exact negative holds

theorem Behaves.returned {post : First → State → Prop} {value : First} {t : State}
    (holds : Behaves fails x post s) (ran : x s = .ok (value, t)) : post value t := by
  unfold Behaves at holds
  rwa [ran] at holds

theorem Behaves.failed {post : First → State → Prop} {failure : Error}
    (holds : Behaves fails x post s) (ran : x s = .error failure) : fails failure := by
  unfold Behaves at holds
  rwa [ran] at holds

end Rules

end CrossOver.Lib
