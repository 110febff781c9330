import Mathlib.Tactic

/-! # Systems that answer, and simulations between them

A system takes an input to an answer and its next state. Where related states give
equal answers and stay related, two systems cannot be told apart by any inputs. -/
namespace DrgbServer.Lib.Simulation

variable {σ τ ι ω : Type*}

/-- The answers to the inputs in order, and the state after them. -/
def observe (f : σ → ι → ω × σ) : σ → List ι → List ω × σ
  | s, [] => ([], s)
  | s, i :: rest =>
    let (answer, t) := f s i
    let (answers, u) := observe f t rest
    (answer :: answers, u)

/-- Each input meets `ok` in the state it arrives in. -/
def Admits (f : σ → ι → ω × σ) (ok : σ → ι → Prop) : σ → List ι → Prop
  | _, [] => True
  | s, i :: rest => ok s i ∧ Admits f ok (f s i).2 rest

/-- **The simulation rule.** -/
theorem observe_eq {f : σ → ι → ω × σ} {g : τ → ι → ω × τ} {R : σ → τ → Prop} {ok : τ → ι → Prop}
    (hsim : ∀ s t i, R s t → ok t i → (f s i).1 = (g t i).1 ∧ R (f s i).2 (g t i).2) {s : σ}
    {t : τ} {is : List ι} (h : R s t) (hok : Admits g ok t is) :
    (observe f s is).1 = (observe g t is).1 ∧ R (observe f s is).2 (observe g t is).2 := by
  induction is generalizing s t with
  | nil => exact ⟨rfl, h⟩
  | cons i rest ih =>
    obtain ⟨hi, hrest⟩ := hok
    obtain ⟨hanswer, hstate⟩ := hsim s t i h hi
    obtain ⟨hanswers, hend⟩ := ih hstate hrest
    refine ⟨?_, hend⟩
    simp only [observe, hanswer, hanswers]

/-- The rule where every input is admitted. -/
theorem observe_eq_of_forall {f : σ → ι → ω × σ} {g : τ → ι → ω × τ} {R : σ → τ → Prop}
    (hsim : ∀ s t i, R s t → (f s i).1 = (g t i).1 ∧ R (f s i).2 (g t i).2) {s : σ} {t : τ}
    (h : R s t) (is : List ι) :
    (observe f s is).1 = (observe g t is).1 ∧ R (observe f s is).2 (observe g t is).2 := by
  have hok : Admits g (fun _ _ => True) t is := by
    clear h
    induction is generalizing t with
    | nil => trivial
    | cons i rest ih => exact ⟨trivial, ih⟩
  exact observe_eq (fun s t i h _ => hsim s t i h) h hok

end DrgbServer.Lib.Simulation
