import Mathlib.Tactic

/-! # Procedures with state and exceptions

A procedure is an `ExceptT` over a state monad: what it did to the state before an
exception stays done. `Keeps I E m` says that `m` keeps the invariant `I` of the
state and throws nothing outside `E`; its rules follow the constructors procedures
are built from. -/
namespace DrgbServer.Lib.Procedure

variable {σ ε α β : Type} {I : σ → Prop} {E : ε → Prop}

abbrev Proc (σ ε α : Type) := ExceptT ε (StateM σ) α

/-- The outcome and the state it ends in. -/
def exec (m : Proc σ ε α) (s : σ) : Except ε α × σ := m.run.run s

theorem exec_modify (f : σ → σ) (s : σ) :
    exec (modify f : Proc σ ε Unit) s = (.ok (), f s) := rfl

theorem exec_get (s : σ) : exec (get : Proc σ ε σ) s = (.ok s, s) := rfl

theorem exec_bind (m : Proc σ ε α) (f : α → Proc σ ε β) (s : σ) :
    exec (m >>= f) s = match exec m s with
      | (.ok a, t) => exec (f a) t
      | (.error e, t) => (.error e, t) := by
  have h : exec (m >>= f) s =
      StateT.run (ExceptT.bindCont f (exec m s).1) (exec m s).2 := rfl
  rw [h]
  rcases exec m s with ⟨r, t⟩
  cases r <;> rfl

theorem exec_tryCatch (m : Proc σ ε α) (h : ε → Proc σ ε α) (s : σ) :
    exec (tryCatch m h) s = match exec m s with
      | (.ok a, t) => (.ok a, t)
      | (.error e, t) => exec (h e) t := by
  have hc : exec (tryCatch m h) s = StateT.run (match (exec m s).1 with
      | .ok a => pure (.ok a)
      | .error e => h e) (exec m s).2 := rfl
  rw [hc]
  rcases exec m s with ⟨r, t⟩
  cases r <;> rfl

/-- From a state with `I` the procedure ends in one with `I`, and an exception it
ends with satisfies `E`. -/
def Keeps (I : σ → Prop) (E : ε → Prop) (m : Proc σ ε α) : Prop :=
  ∀ s, I s → I (exec m s).2 ∧ ∀ e, (exec m s).1 = .error e → E e

/-- The procedure ends in an exception. -/
def Throws (m : Proc σ ε α) (s : σ) : Prop := ∃ e t, exec m s = (.error e, t)

theorem keeps_pure {a : α} : Keeps I E (pure a) := by
  intro s hs
  exact ⟨hs, fun e he => by cases he⟩

theorem keeps_throw {e : ε} (h : E e) : Keeps (α := α) I E (throw e) := by
  intro s hs
  refine ⟨hs, fun e' he => ?_⟩
  cases he
  exact h

theorem keeps_modify {f : σ → σ} (h : ∀ s, I s → I (f s)) : Keeps I E (modify f) := by
  intro s hs
  exact ⟨h s hs, fun e he => by cases he⟩

theorem keeps_get : Keeps I E (get : Proc σ ε σ) := by
  intro s hs
  exact ⟨hs, fun e he => by cases he⟩

/-- The state read satisfies `I`. -/
theorem keeps_get_bind {f : σ → Proc σ ε β} (hf : ∀ s, I s → Keeps I E (f s)) :
    Keeps I E (get >>= f) := by
  intro s hs
  rw [exec_bind, exec_get]
  exact hf s hs s hs

theorem keeps_bind {m : Proc σ ε α} {f : α → Proc σ ε β} (hm : Keeps I E m)
    (hf : ∀ a, Keeps I E (f a)) : Keeps I E (m >>= f) := by
  intro s hs
  obtain ⟨hi, he⟩ := hm s hs
  rw [exec_bind]
  rcases hr : exec m s with ⟨r, t⟩
  rw [hr] at hi he
  cases r with
  | ok a => exact hf a t hi
  | error e =>
    refine ⟨hi, fun e' h => ?_⟩
    cases h
    exact he e rfl

/-- The handler gets what the block may throw. -/
theorem keeps_tryCatch {F : ε → Prop} {m : Proc σ ε α} {h : ε → Proc σ ε α}
    (hm : Keeps I F m) (hh : ∀ e, F e → Keeps I E (h e)) : Keeps I E (tryCatch m h) := by
  intro s hs
  obtain ⟨hi, he⟩ := hm s hs
  rw [exec_tryCatch]
  rcases hr : exec m s with ⟨r, t⟩
  rw [hr] at hi he
  cases r with
  | ok a => exact ⟨hi, fun e h => by cases h⟩
  | error e => exact hh e (he e rfl) t hi

theorem keeps_mono {F : ε → Prop} {m : Proc σ ε α} (h : Keeps I E m) (he : ∀ e, E e → F e) :
    Keeps I F m := by
  intro s hs
  exact ⟨(h s hs).1, fun e hr => he e ((h s hs).2 e hr)⟩

/-- Where nothing may be thrown the procedure returns. -/
theorem Keeps.returns {m : Proc σ ε α} (h : Keeps I (fun _ => False) m) {s : σ} (hs : I s) :
    ∃ a t, exec m s = (.ok a, t) ∧ I t := by
  obtain ⟨hi, he⟩ := h s hs
  rcases hr : exec m s with ⟨r, t⟩
  rw [hr] at hi he
  cases r with
  | ok a => exact ⟨a, t, rfl, hi⟩
  | error e => exact (he e rfl).elim

theorem Throws.not_returns {m : Proc σ ε α} {s t : σ} {a : α} (h : Throws m s) :
    exec m s ≠ (.ok a, t) := by
  obtain ⟨e, u, he⟩ := h
  rw [he]
  exact fun h => nomatch congrArg Prod.fst h

theorem throws_bind_left {m : Proc σ ε α} {s : σ} (h : Throws m s) (f : α → Proc σ ε β) :
    Throws (m >>= f) s := by
  obtain ⟨e, t, he⟩ := h
  exact ⟨e, t, by rw [exec_bind, he]⟩

theorem throws_bind_right {m : Proc σ ε α} {f : α → Proc σ ε β} {s t : σ} {a : α}
    (hm : exec m s = (.ok a, t)) (h : Throws (f a) t) : Throws (m >>= f) s := by
  obtain ⟨e, u, he⟩ := h
  exact ⟨e, u, by rw [exec_bind, hm]; exact he⟩

end DrgbServer.Lib.Procedure
