import Mathlib.Data.List.DropRight
import Mathlib.Tactic

/-! # Searching for a pattern

A pattern is a sequence of pieces. A match is the first that backtracking finds, where a
repetition tries more symbols before fewer; a search takes the leftmost place that has one. -/
namespace DrgbServer.Lib.Pattern

inductive Piece (α : Type*)
  | symbol (p : α → Bool)
  /-- one or more symbols, as many as possible first -/
  | many (p : α → Bool)
  /-- the end of the text -/
  | atEnd

variable {α : Type*}

/-- One or more symbols and then what comes behind them. -/
def manyAt (p : α → Bool) (behind : List α → Option (List α)) : List α → Option (List α)
  | [] => none
  | x :: s => if p x then (manyAt p behind s).or (behind s) else none

/-- What a match at the beginning of a text leaves. -/
def matchAt : List (Piece α) → List α → Option (List α)
  | [], s => some s
  | .symbol _ :: _, [] => none
  | .symbol p :: pieces, x :: s => if p x then matchAt pieces s else none
  | .many p :: pieces, s => manyAt p (matchAt pieces) s
  | .atEnd :: pieces, s => if s.isEmpty then matchAt pieces s else none

/-- The text before the leftmost match, and the match. -/
def search (pieces : List (Piece α)) : List α → Option (List α × List α)
  | [] => (matchAt pieces []).map fun _ => ([], [])
  | x :: s =>
    match matchAt pieces (x :: s) with
    | some rest => some ([], (x :: s).take (s.length + 1 - rest.length))
    | none => (search pieces s).map fun found => (x :: found.1, found.2)

/-! ## A repetition up to the end -/

theorem matchAt_many_atEnd (p : α → Bool) (s : List α) :
    matchAt [.many p, .atEnd] s = if s ≠ [] ∧ s.all p = true then some [] else none := by
  rw [matchAt]
  induction s with
  | nil => rfl
  | cons x s ih =>
    rw [manyAt, ih]
    cases hx : p x with
    | false => simp [hx]
    | true =>
      cases s with
      | nil => simp [matchAt, hx]
      | cons y s => simp [matchAt, hx]

theorem rtakeWhile_cons (p : α → Bool) (x : α) (s : List α) :
    (x :: s).rtakeWhile p = if (x :: s).all p = true then x :: s else s.rtakeWhile p := by
  unfold List.rtakeWhile
  rw [List.reverse_cons, List.takeWhile_append]
  by_cases hs : s.all p = true
  · have hfull : s.reverse.takeWhile p = s.reverse := by
      rw [List.takeWhile_eq_self_iff]
      simpa using hs
    rw [hfull, if_pos rfl]
    cases hx : p x <;> simp [hx, hs]
  · have hpart : (s.reverse.takeWhile p).length ≠ s.reverse.length := by
      intro hlen
      refine hs ?_
      have hself := (List.takeWhile_prefix p).eq_of_length hlen
      rw [List.takeWhile_eq_self_iff] at hself
      simpa using hself
    rw [if_neg hpart, if_neg]
    simp only [List.all_cons, Bool.and_eq_true]
    exact fun h => hs h.2

theorem rdropWhile_cons (p : α → Bool) (x : α) (s : List α) :
    (x :: s).rdropWhile p = if (x :: s).all p = true then [] else x :: s.rdropWhile p := by
  have hwhole := List.rdropWhile_append_rtakeWhile (p := p) (l := x :: s)
  have hrest := List.rdropWhile_append_rtakeWhile (p := p) (l := s)
  rw [rtakeWhile_cons] at hwhole
  split_ifs with hall
  · rw [if_pos hall] at hwhole
    exact List.append_left_eq_self.mp hwhole
  · rw [if_neg hall] at hwhole
    have hsame : (x :: s).rdropWhile p ++ s.rtakeWhile p =
        x :: s.rdropWhile p ++ s.rtakeWhile p := by
      rw [hwhole, List.cons_append, hrest]
    exact List.append_cancel_right hsame

/-- The leftmost match is the longest: all the symbols at the end. -/
theorem search_many_atEnd (p : α → Bool) (s : List α) :
    search [.many p, .atEnd] s =
      if s.rtakeWhile p = [] then none else some (s.rdropWhile p, s.rtakeWhile p) := by
  induction s with
  | nil => rfl
  | cons x s ih =>
    rw [search, matchAt_many_atEnd, rtakeWhile_cons, rdropWhile_cons, ih]
    by_cases hall : (x :: s).all p = true
    · rw [if_pos ⟨List.cons_ne_nil x s, hall⟩, if_pos hall, if_pos hall,
        if_neg (List.cons_ne_nil x s)]
      simp
    · rw [if_neg fun h => hall h.2, if_neg hall, if_neg hall]
      dsimp only
      split_ifs
      · rfl
      · rfl

end DrgbServer.Lib.Pattern
