import LoopLanguage.Error

/-!
Steps that work on a state and may fail. A step that fails still leaves the state that it reached,
because a reader that went wrong can be read on from, and a run that went wrong has printed what
it has printed.
-/

namespace LoopLanguage

/-- Two results in a row give a value exactly if both do. -/
theorem result_bind_eq_ok {α β : Type} {r : Except Error α} {f : α → Except Error β} {b : β} :
    (r >>= f) = .ok b ↔ ∃ a, r = .ok a ∧ f a = .ok b := by
  cases r <;> simp [bind, Except.bind]

/-- A step on states of type `σ` that gives a value of type `α` or fails. -/
def Action (σ α : Type) : Type := σ → Except Error α × σ

namespace Action

variable {σ τ α β : Type}

@[always_inline, inline]
protected def pure (a : α) : Action σ α := fun s => (.ok a, s)

@[always_inline, inline]
protected def bind (act : Action σ α) (f : α → Action σ β) : Action σ β := fun s =>
  match act s with
  | (.ok a, s) => f a s
  | (.error e, s) => (.error e, s)

instance : Monad (Action σ) where
  pure := Action.pure
  bind := Action.bind

@[always_inline, inline]
def fail (e : Error) : Action σ α := fun s => (.error e, s)

@[always_inline, inline]
def get : Action σ σ := fun s => (.ok s, s)

@[always_inline, inline]
def modify (f : σ → σ) : Action σ Unit := fun s => (.ok (), f s)

/-- A result that does not touch the state. -/
@[always_inline, inline]
def ofExcept : Except Error α → Action σ α
  | .ok a => Action.pure a
  | .error e => fail e

/-- A step on a part of the state. -/
@[always_inline, inline]
def onPart (part : σ → τ) (put : σ → τ → σ) (act : Action τ α) : Action σ α := fun s =>
  match act (part s) with
  | (r, t) => (r, put s t)

@[simp] theorem pure_run (a : α) (s : σ) : (pure a : Action σ α) s = (.ok a, s) := rfl

@[simp] theorem fail_run (e : Error) (s : σ) : (fail e : Action σ α) s = (.error e, s) := rfl

@[simp] theorem get_run (s : σ) : (get : Action σ σ) s = (.ok s, s) := rfl

@[simp] theorem modify_run (f : σ → σ) (s : σ) : modify f s = (.ok (), f s) := rfl

@[simp] theorem ofExcept_ok (a : α) (s : σ) : ofExcept (.ok a) s = (.ok a, s) := rfl

@[simp] theorem ofExcept_error (e : Error) (s : σ) :
    (ofExcept (.error e) : Action σ α) s = (.error e, s) := rfl

theorem ofExcept_eq_ok_iff {r : Except Error α} {s t : σ} {a : α} :
    ofExcept r s = (.ok a, t) ↔ r = .ok a ∧ t = s := by
  cases r <;> simp [eq_comm]

theorem bind_ok {act : Action σ α} {f : α → Action σ β} {s t : σ} {a : α}
    (h : act s = (.ok a, t)) : (act >>= f) s = f a t := by
  show Action.bind act f s = _
  simp [Action.bind, h]

theorem bind_error {act : Action σ α} {f : α → Action σ β} {s t : σ} {e : Error}
    (h : act s = (.error e, t)) : (act >>= f) s = (.error e, t) := by
  show Action.bind act f s = _
  simp [Action.bind, h]

/-- A step and what follows it give a value exactly if both do, one after the other. -/
theorem bind_eq_ok_iff {act : Action σ α} {f : α → Action σ β} {s t : σ} {b : β} :
    (act >>= f) s = (.ok b, t) ↔ ∃ a u, act s = (.ok a, u) ∧ f a u = (.ok b, t) := by
  show Action.bind act f s = _ ↔ _
  cases h : act s with
  | mk r u =>
    cases r with
    | ok a =>
      simp only [Action.bind, h, Prod.mk.injEq, Except.ok.injEq]
      exact ⟨fun hf => ⟨a, u, ⟨rfl, rfl⟩, hf⟩, fun ⟨_, _, ⟨ha, hu⟩, hf⟩ => ha ▸ hu ▸ hf⟩
    | error e => simp [Action.bind, h]

theorem ofExcept_bind_eq_ok_iff {r : Except Error α} {f : α → Action σ β} {s t : σ} {b : β} :
    (ofExcept r >>= f) s = (.ok b, t) ↔ ∃ a, r = .ok a ∧ f a s = (.ok b, t) := by
  rw [bind_eq_ok_iff]
  constructor
  · rintro ⟨a, u, hr, hf⟩
    obtain ⟨ha, rfl⟩ := ofExcept_eq_ok_iff.mp hr
    exact ⟨a, ha, hf⟩
  · rintro ⟨a, ha, hf⟩
    exact ⟨a, s, ofExcept_eq_ok_iff.mpr ⟨ha, rfl⟩, hf⟩

@[simp] theorem get_bind (f : σ → Action σ β) (s : σ) : (get >>= f) s = f s s := rfl

@[simp] theorem modify_bind (g : σ → σ) (f : Unit → Action σ β) (s : σ) :
    (modify g >>= f) s = f () (g s) := rfl

/-- The action gives a value, and `Q` holds of it and of the state afterwards. -/
def Succeeds (act : Action σ α) (s : σ) (Q : α → σ → Prop) : Prop :=
  ∃ a t, act s = (.ok a, t) ∧ Q a t

theorem Succeeds.of_eq {act : Action σ α} {s t : σ} {a : α} {Q : α → σ → Prop}
    (h : act s = (.ok a, t)) (hQ : Q a t) : Succeeds act s Q :=
  ⟨a, t, h, hQ⟩

theorem Succeeds.bind {act : Action σ α} {f : α → Action σ β} {s t : σ} {a : α}
    {Q : β → σ → Prop} (h : act s = (.ok a, t)) (hf : Succeeds (f a) t Q) :
    Succeeds (act >>= f) s Q := by
  obtain ⟨b, u, hrun, hQ⟩ := hf
  exact ⟨b, u, by rw [bind_ok h, hrun], hQ⟩

/-- If the action gives a value, `Q` holds of it and of the state afterwards; if it fails, `E` holds of
the error. -/
def Ensures (act : Action σ α) (s : σ) (Q : α → σ → Prop) (E : Error → Prop) : Prop :=
  match act s with
  | (.ok a, t) => Q a t
  | (.error e, _) => E e

namespace Ensures

variable {act : Action σ α} {s t : σ} {a : α} {e : Error} {Q R : α → σ → Prop}
  {E F : Error → Prop}

theorem of_ok (h : act s = (.ok a, t)) (hQ : Q a t) : Ensures act s Q E := by
  simpa only [Ensures, h] using hQ

theorem of_error (h : act s = (.error e, t)) (hE : E e) : Ensures act s Q E := by
  simpa only [Ensures, h] using hE

theorem congr {other : Action σ α} (h : act s = other s) (hother : Ensures other s Q E) :
    Ensures act s Q E := by
  simpa only [Ensures, h] using hother

theorem imp (h : Ensures act s Q E) (hQ : ∀ a t, Q a t → R a t) (hE : ∀ e, E e → F e) :
    Ensures act s R F := by
  cases hrun : act s with
  | mk r t =>
    cases r with
    | ok a =>
      simp only [Ensures, hrun] at h ⊢
      exact hQ a t h
    | error e =>
      simp only [Ensures, hrun] at h ⊢
      exact hE e h

theorem bind {f : α → Action σ β} {S : β → σ → Prop} (h : Ensures act s Q E)
    (hf : ∀ a t, Q a t → Ensures (f a) t S E) : Ensures (act >>= f) s S E := by
  cases hrun : act s with
  | mk r t =>
    cases r with
    | ok a =>
      simp only [Ensures, hrun] at h
      simpa only [Ensures, bind_ok hrun] using hf a t h
    | error e =>
      simp only [Ensures, hrun] at h
      exact of_error (bind_error hrun) h

/-- A value that the action gives is one that it gave. -/
theorem run (h : Ensures act s Q E) : Ensures act s (fun a t => act s = (.ok a, t) ∧ Q a t) E := by
  cases hrun : act s with
  | mk r t =>
    cases r with
    | ok a =>
      simp only [Ensures, hrun] at h
      exact of_ok hrun ⟨rfl, h⟩
    | error e =>
      simp only [Ensures, hrun] at h
      exact of_error hrun h

theorem bind_of_ok {f : α → Action σ β} {S : β → σ → Prop} (h : act s = (.ok a, t))
    (hf : Ensures (f a) t S E) : Ensures (act >>= f) s S E := by
  simpa only [Ensures, bind_ok h] using hf

end Ensures

theorem bind_pure_self (act : Action σ α) : act.bind (fun a => Action.pure a) = act := by
  funext s
  cases h : act s with
  | mk r t => cases r <;> simp [Action.bind, Action.pure, h]

theorem bind_bind {γ : Type} (act : Action σ α) (f : α → Action σ β) (g : β → Action σ γ) :
    (act.bind f).bind g = act.bind fun a => (f a).bind g := by
  funext s
  cases h : act s with
  | mk r t => cases r <;> simp [Action.bind, h]

instance : LawfulMonad (Action σ) :=
  LawfulMonad.mk' _ bind_pure_self (fun _ _ => rfl) bind_bind

end Action

end LoopLanguage
