import Mathlib.Tactic.Common

/-!
# Weakest preconditions for state with failure

`Wp allowed x post s` says that `x`, started in `s`, either returns a value and
a state that meet `post`, or stops with a failure and a state that are
`allowed`.  The rules take a program apart along its binds; the rule for a loop
is induction on its argument.

`Keeps allowed holds x` is the case of an invariant that needs to know nothing
about the values: it is enough that every part keeps it.
-/

namespace CrossOver.Lib

variable {State Error First Second : Type}

abbrev Program (State Error : Type) := ExceptT Error (StateM State)

def Wp (allowed : Error → State → Prop) (x : Program State Error First)
    (post : First → State → Prop) (s : State) : Prop :=
  match x s with
  | (.ok value, t) => post value t
  | (.error failure, t) => allowed failure t

section Rules

variable {allowed : Error → State → Prop} {x : Program State Error First}
  {f : First → Program State Error Second} {s : State}

theorem Wp.mono {post weaker : First → State → Prop} (holds : Wp allowed x post s)
    (implies : ∀ value t, post value t → weaker value t) : Wp allowed x weaker s := by
  unfold Wp at holds ⊢
  rcases run : x s with ⟨value | failure, t⟩
  · simpa only [run] using holds
  · exact implies _ _ (by simpa only [run] using holds)

theorem Wp.and {post other : First → State → Prop} (first : Wp allowed x post s)
    (second : Wp allowed x other s) :
    Wp allowed x (fun value t => post value t ∧ other value t) s := by
  unfold Wp at first second ⊢
  rcases run : x s with ⟨value | failure, t⟩
  · rw [run] at first
    exact first
  · rw [run] at first second
    exact ⟨first, second⟩

@[simp]
theorem wp_pure {post : First → State → Prop} {value : First} :
    Wp allowed (pure value : Program State Error First) post s ↔ post value s := Iff.rfl

theorem bind_apply (x : Program State Error First) (f : First → Program State Error Second)
    (s : State) : (x >>= f) s =
      match x s with
      | (.ok value, t) => f value t
      | (.error failure, t) => (.error failure, t) := by
  change (ExceptT.bind x f) s = _
  simp only [ExceptT.bind, ExceptT.mk, bind, StateT.bind]
  rcases x s with ⟨failure | value, t⟩ <;> rfl

@[simp]
theorem wp_bind {post : Second → State → Prop} :
    Wp allowed (x >>= f) post s ↔ Wp allowed x (fun value => Wp allowed (f value) post) s := by
  unfold Wp
  rw [bind_apply]
  rcases x s with ⟨failure | value, t⟩ <;> rfl

@[simp]
theorem wp_get {post : State → State → Prop} :
    Wp allowed (get : Program State Error State) post s ↔ post s s := Iff.rfl

@[simp]
theorem wp_modify {post : PUnit → State → Prop} {g : State → State} :
    Wp allowed (modify g : Program State Error PUnit) post s ↔ post ⟨⟩ (g s) := Iff.rfl

@[simp]
theorem wp_throw {post : First → State → Prop} {failure : Error} :
    Wp allowed (throw failure : Program State Error First) post s ↔ allowed failure s :=
  Iff.rfl

/-- Run the first part by its specification, then go on. -/
theorem Wp.seq {mid : First → State → Prop} {post : Second → State → Prop}
    (first : Wp allowed x mid s) (rest : ∀ value t, mid value t → Wp allowed (f value) post t) :
    Wp allowed (x >>= f) post s := wp_bind.mpr (first.mono rest)

theorem Wp.ended {post : First → State → Prop} {value : First} {t : State}
    (holds : Wp allowed x post s) (returned : x s = (.ok value, t)) : post value t := by
  unfold Wp at holds
  rwa [returned] at holds

/-- A postcondition with the run that it is about. -/
theorem Wp.ran {post : First → State → Prop} (holds : Wp allowed x post s) :
    Wp allowed x (fun value t => post value t ∧ x s = (.ok value, t)) s := by
  unfold Wp at holds ⊢
  rcases run : x s with ⟨failure | value, t⟩
  · simpa only [run] using holds
  · exact ⟨by simpa only [run] using holds, rfl⟩

/-- A program whose value is dropped. -/
theorem returned_of_discard {value : Second} {t : State}
    (returned : (x >>= fun _ => pure value : Program State Error Second) s = (.ok value, t)) :
    ∃ dropped, x s = (.ok dropped, t) := by
  have anything : Wp (fun _ _ => True) x (fun _ _ => True) s := by
    unfold Wp
    rcases x s with ⟨failure | dropped, t⟩ <;> trivial
  have kept : Wp (fun _ _ => True) (x >>= fun _ => pure value)
      (fun _ t => ∃ dropped, x s = (.ok dropped, t)) s :=
    anything.ran.seq fun dropped _ run => ⟨dropped, run.2⟩
  exact kept.ended returned

theorem Wp.returns {post : First → State → Prop} (holds : Wp (fun _ _ => False) x post s) :
    ∃ value t, x s = (.ok value, t) ∧ post value t := by
  unfold Wp at holds
  rcases run : x s with ⟨failure | value, t⟩
  · simp only [run] at holds
  · exact ⟨value, t, rfl, by simpa only [run] using holds⟩

end Rules

/-- The program finds the invariant and leaves it, unless it fails as allowed. -/
def Keeps (allowed : Error → State → Prop) (holds : State → Prop)
    (x : Program State Error First) : Prop :=
  ∀ s, holds s → Wp allowed x (fun _ => holds) s

section Keeps

variable {allowed : Error → State → Prop} {holds : State → Prop}
  {x : Program State Error First}
  {f : First → Program State Error Second}

theorem Keeps.pure (value : First) :
    Keeps allowed holds (pure value : Program State Error First) := fun _ kept => kept

theorem Keeps.throw {failure : Error} (fails : ∀ s, holds s → allowed failure s) :
    Keeps allowed holds (throw failure : Program State Error First) := fails

theorem Keeps.bind (first : Keeps allowed holds x)
    (rest : ∀ value, Keeps allowed holds (f value)) : Keeps allowed holds (x >>= f) :=
  fun s kept => (first s kept).seq fun value t keptThere => rest value t keptThere

theorem Keeps.get {f : State → Program State Error First}
    (rest : ∀ s, Keeps allowed holds (f s)) : Keeps allowed holds (get >>= f) :=
  fun s kept => rest s s kept

theorem Keeps.modify {g : State → State} (step : ∀ s, holds s → holds (g s)) :
    Keeps allowed holds (modify g : Program State Error PUnit) := fun s kept => step s kept

end Keeps

/-- What `x` returns, `y` returns too. -/
def Extends (y x : Program State Error First) : Prop :=
  ∀ s value t, x s = (.ok value, t) → y s = (.ok value, t)

section Extends

variable {x y z : Program State Error First} {f g : First → Program State Error Second}

theorem Extends.refl (x : Program State Error First) : Extends x x := fun _ _ _ returned => returned

theorem Extends.trans (later : Extends z y) (earlier : Extends y x) : Extends z x :=
  fun s value t returned => later s value t (earlier s value t returned)

theorem extends_throw (y : Program State Error First) (failure : Error) :
    Extends y (throw failure) := by
  intro s value t returned
  cases returned

theorem Extends.bind (first : Extends y x) (rest : ∀ value, Extends (g value) (f value)) :
    Extends (y >>= g) (x >>= f) := by
  intro s value t returned
  rw [bind_apply] at returned ⊢
  rcases run : x s with ⟨failure | made, u⟩
  · rw [run] at returned
    cases returned
  · rw [run] at returned
    rw [first s made u run]
    exact rest made u value t returned

end Extends

end CrossOver.Lib
