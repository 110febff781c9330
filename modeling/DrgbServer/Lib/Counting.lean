import Mathlib.Tactic

/-! # Counting loops that may be undefined

`(List.range n).mapM f` is a loop from 0 on that collects what its body gives; it is
undefined where the body is undefined for one of the numbers. -/
namespace DrgbServer.Lib.Counting

variable {α β : Type*} {f : Nat → Option α} {n : Nat}

theorem mapM_range_succ (f : Nat → Option α) (n : Nat) :
    (List.range (n + 1)).mapM f =
      ((List.range n).mapM f).bind fun l => (f n).map fun x => l ++ [x] := by
  rw [List.range_succ, List.mapM_append]
  cases (List.range n).mapM f with
  | none => rfl
  | some l => cases hf : f n <;> simp [hf]

/-- What a loop collects: as many values as it counts, each that of the body. -/
theorem mapM_range_eq_some_iff {l : List α} :
    (List.range n).mapM f = some l ↔ l.length = n ∧ ∀ i < n, f i = l[i]? := by
  induction n generalizing l with
  | zero => simp [eq_comm]
  | succ n ih =>
    rw [mapM_range_succ, Option.bind_eq_some_iff]
    constructor
    · intro h
      obtain ⟨before, hbefore, hlast⟩ := h
      obtain ⟨x, hx, rfl⟩ := Option.map_eq_some_iff.mp hlast
      obtain ⟨hlen, hget⟩ := ih.mp hbefore
      refine ⟨by simp [hlen], fun i hi => ?_⟩
      rcases Nat.lt_succ_iff_lt_or_eq.mp hi with hi | rfl
      · rw [hget i hi, List.getElem?_append_left (by omega)]
      · rw [hx, ← hlen, List.getElem?_concat_length]
    · intro h
      obtain ⟨hlen, hget⟩ := h
      obtain ⟨before, x, rfl⟩ := List.eq_nil_or_concat l |>.resolve_left (by rintro rfl; cases hlen)
      have hbefore : before.length = n := by simpa using hlen
      refine ⟨before, ih.mpr ⟨hbefore, fun i hi => ?_⟩, ?_⟩
      · rw [hget i (by omega), List.concat_eq_append, List.getElem?_append_left (by omega)]
      · rw [hget n (by omega), ← hbefore, List.concat_eq_append, List.getElem?_concat_length]
        rfl

/-- A loop is defined where its body is for each number. -/
theorem exists_mapM_range_iff :
    (∃ l, (List.range n).mapM f = some l) ↔ ∀ i < n, (f i).isSome := by
  constructor
  · intro hgiven i hi
    obtain ⟨l, hl⟩ := hgiven
    obtain ⟨hlen, hget⟩ := mapM_range_eq_some_iff.mp hl
    rw [hget i hi, List.getElem?_eq_getElem (by omega)]
    rfl
  · intro h
    induction n with
    | zero => exact ⟨[], rfl⟩
    | succ n ih =>
      obtain ⟨l, hl⟩ := ih fun i hi => h i (by omega)
      obtain ⟨x, hx⟩ := Option.isSome_iff_exists.mp (h n (by omega))
      exact ⟨l ++ [x], by rw [mapM_range_succ, hl, hx]; rfl⟩

theorem mapM_range_eq_none {i : Nat} (hi : i < n) (h : f i = none) :
    (List.range n).mapM f = none := by
  cases hl : (List.range n).mapM f with
  | none => rfl
  | some l =>
    have hsome := exists_mapM_range_iff.mp ⟨l, hl⟩ i hi
    rw [h] at hsome
    cases hsome

theorem mapM_range_congr {g : Nat → Option α} (h : ∀ i < n, f i = g i) :
    (List.range n).mapM f = (List.range n).mapM g := by
  induction n with
  | zero => rfl
  | succ n ih => rw [mapM_range_succ, mapM_range_succ, ih fun i hi => h i (by omega), h n (by omega)]

theorem mapM_range_some (g : Nat → α) :
    (List.range n).mapM (fun i => some (g i)) = some ((List.range n).map g) := by
  refine mapM_range_eq_some_iff.mpr ⟨by simp, fun i hi => ?_⟩
  rw [List.getElem?_map, List.getElem?_range hi]
  rfl

end DrgbServer.Lib.Counting
