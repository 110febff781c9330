import DrgbServer.Lib.Transition
import Mathlib.Data.List.DropRight
import Mathlib.Order.Bounds.Basic

/-! # What a run records

`collect` puts together what each step of a run lets one see. `constantSuffix` counts how
often the last entry of a history has been repeated without a break. -/
namespace DrgbServer.Lib.History
open DrgbServer.Lib.Transition

/-! ## Records -/

section Collect
variable {σ ι α : Type*} {step : σ → ι → Option σ} {out : σ → ι → List α}

/-- What the steps of the run show, in order. -/
def collect (step : σ → ι → Option σ) (out : σ → ι → List α) : σ → List ι → List α
  | _, [] => []
  | s, a :: rest => match step s a with
    | none => []
    | some t => out s a ++ collect step out t rest

theorem collect_cons {s t : σ} {a : ι} {rest : List ι} (h : step s a = some t) :
    collect step out s (a :: rest) = out s a ++ collect step out t rest := by
  rw [collect, h]

end Collect

/-! ## Streaks -/

section Streak
variable {α : Type*} {history : List α}

end Streak
end DrgbServer.Lib.History
