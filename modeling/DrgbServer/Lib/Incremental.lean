import Mathlib.Tactic

/-! # Incremental extraction from a growing buffer

An extractor takes one item off the front of a buffer or reports that the
buffer does not hold one yet. It is *stable*: an item found is found again,
unchanged, when more input stands behind it. Draining a buffer then commutes
with the arrival of input, whatever the boundaries. -/
namespace DrgbServer.Lib.Incremental

structure Extractor (β μ : Type*) where
  next : List β → Option (μ × List β)
  shorter : ∀ {b m r}, next b = some (m, r) → r.length < b.length
  stable : ∀ {b m r} (c : List β), next b = some (m, r) → next (b ++ c) = some (m, r ++ c)

variable {β μ : Type*} (E : Extractor β μ)

/-- All items at the front of the buffer, and what is left. -/
def Extractor.drain (b : List β) : List μ × List β :=
  match _h : E.next b with
  | none => ([], b)
  | some (m, r) => (m :: (Extractor.drain r).1, (Extractor.drain r).2)
termination_by b.length
decreasing_by all_goals exact E.shorter _h

variable {E}

theorem drain_of_none {b : List β} (h : E.next b = none) : E.drain b = ([], b) := by
  rw [Extractor.drain]
  split
  · rfl
  · next heq => rw [h] at heq; cases heq

theorem drain_of_some {b r : List β} {m : μ} (h : E.next b = some (m, r)) :
    E.drain b = (m :: (E.drain r).1, (E.drain r).2) := by
  rw [Extractor.drain]
  split
  · next heq => rw [h] at heq; cases heq
  · next heq => rw [h] at heq; cases heq; rfl

/-- Induction along the items of a buffer. -/
theorem drain_induction {P : List β → Prop} (none : ∀ b, E.next b = none → P b)
    (some : ∀ b m r, E.next b = some (m, r) → P r → P b) (b : List β) : P b := by
  induction hn : b.length using Nat.strongRecOn generalizing b with
  | _ n ih =>
    cases h : E.next b with
    | none => exact none b h
    | some p =>
      obtain ⟨m, r⟩ := p
      exact some b m r h (ih r.length (hn ▸ E.shorter h) r rfl)

theorem length_drain_rest_le (b : List β) : (E.drain b).2.length ≤ b.length := by
  induction b using drain_induction (E := E) with
  | none b h => rw [drain_of_none h]
  | some b m r h ih =>
    rw [drain_of_some h]
    exact Nat.le_of_lt (Nat.lt_of_le_of_lt ih (E.shorter h))

/-- **Input boundaries do not matter.** Draining `b ++ c` is draining `b`, then
draining what `b` left followed by `c`. -/
theorem drain_append (b c : List β) :
    E.drain (b ++ c) =
      ((E.drain b).1 ++ (E.drain ((E.drain b).2 ++ c)).1, (E.drain ((E.drain b).2 ++ c)).2) := by
  induction b using drain_induction (E := E) with
  | none b h => simp [drain_of_none h]
  | some b m r h ih =>
    rw [drain_of_some h, drain_of_some (E.stable c h), ih]
    simp

end DrgbServer.Lib.Incremental
