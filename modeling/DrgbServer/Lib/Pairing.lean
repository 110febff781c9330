import Mathlib.Tactic

/-! # Pairing points on a line

The elements of a list have positions and may be paired up if they are not more than a
bound apart. First fit pairs each element, from the left, with the first one that is near
enough. On a list in the order of the positions no other pairing has more pairs: an exchange
argument turns any pairing into one that agrees with the first pair made. -/
namespace DrgbServer.Lib.Pairing

section Pairings
variable {α : Type*} {near : α → α → Prop} {l rest : List α} {M : List (α × α)} {x y a : α}

/-- The elements of the pairs, in order. -/
def members (M : List (α × α)) : List α := M.flatMap fun m => [m.1, m.2]

/-- Disjoint pairs of elements of the list. -/
structure IsPairing (near : α → α → Prop) (l : List α) (M : List (α × α)) : Prop where
  disjoint : (members M).Subperm l
  near : ∀ m ∈ M, near m.1 m.2

theorem IsPairing.mono (h : IsPairing near rest M) (hs : rest.Sublist l) : IsPairing near l M :=
  ⟨h.disjoint.trans hs.subperm, h.near⟩

theorem IsPairing.nil (l : List α) : IsPairing near l [] := ⟨List.nil_subperm, by simp⟩

theorem IsPairing.cons (h : IsPairing near rest M) (hs : (x :: y :: rest).Subperm l)
    (hxy : near x y) : IsPairing near l ((x, y) :: M) where
  disjoint := by
    refine List.Subperm.trans ?_ hs
    exact (List.subperm_cons x).mpr ((List.subperm_cons y).mpr h.disjoint)
  near := by
    intro m hm
    rcases List.mem_cons.mp hm with rfl | hm
    · exact hxy
    · exact h.near m hm

/-- A member taken out with its partner. -/
theorem exists_partner (hsym : ∀ a b, near a b → near b a) (hnear : ∀ m ∈ M, near m.1 m.2)
    (hx : x ∈ members M) : ∃ a M', near x a ∧ M.length = M'.length + 1 ∧
      (members M).Perm (x :: a :: members M') ∧ ∀ m ∈ M', near m.1 m.2 := by
  obtain ⟨m, hm, hxm⟩ := List.mem_flatMap.mp hx
  obtain ⟨s, t, rfl⟩ := List.append_of_mem hm
  have hlen : (s ++ m :: t).length = (s ++ t).length + 1 := by
    simp only [List.length_append, List.length_cons]
    omega
  have hperm : (members (s ++ m :: t)).Perm (m.1 :: m.2 :: members (s ++ t)) := by
    simp only [members, List.flatMap_append, List.flatMap_cons]
    exact List.perm_middle.trans (List.Perm.cons _ List.perm_middle)
  have hrest : ∀ n ∈ s ++ t, near n.1 n.2 := by
    intro n hn
    refine hnear n ?_
    rcases List.mem_append.mp hn with hn | hn
    · exact List.mem_append_left _ hn
    · exact List.mem_append_right _ (List.mem_cons_of_mem _ hn)
  rcases List.mem_pair.mp hxm with rfl | rfl
  · exact ⟨m.2, s ++ t, hnear m hm, hlen, hperm, hrest⟩
  · exact ⟨m.1, s ++ t, hsym _ _ (hnear m hm), hlen, hperm.trans (.swap _ _ _), hrest⟩

theorem subperm_of_not_mem {l₁ l₂ : List α} (h : l₁.Subperm (x :: l₂)) (hx : x ∉ l₁) :
    l₁.Subperm l₂ := by
  classical
  have he := h.erase x
  rwa [List.erase_of_not_mem hx, List.erase_cons_head] at he

/-- An element that is near no other one is in no pair. -/
theorem IsPairing.of_isolated (hsym : ∀ a b, near a b → near b a)
    (h : IsPairing near (x :: rest) M) (hx : ∀ y ∈ rest, ¬ near x y) : IsPairing near rest M := by
  refine ⟨subperm_of_not_mem h.disjoint ?_, h.near⟩
  intro hmem
  obtain ⟨a, M', hxa, -, hperm, -⟩ := exists_partner hsym h.near hmem
  have hsub : (x :: a :: members M').Subperm (x :: rest) := hperm.symm.subperm.trans h.disjoint
  have ha : a ∈ rest := ((List.subperm_cons x).mp hsub).subset List.mem_cons_self
  exact hx a ha hxa

/-- **The exchange.** Any pairing of a list that starts with `x` and `y` loses at most one
pair when both are taken away, provided the partners of the two can be paired. -/
theorem IsPairing.exchange (hsym : ∀ a b, near a b → near b a)
    (hex : ∀ a ∈ rest, ∀ b ∈ rest, near x a → near y b → near a b)
    (h : IsPairing near (x :: y :: rest) M) :
    ∃ M', IsPairing near rest M' ∧ M.length ≤ M'.length + 1 := by
  by_cases hx : x ∈ members M
  · obtain ⟨a, M₁, hxa, hlen, hperm, hnear⟩ := exists_partner hsym h.near hx
    have hsub : (a :: members M₁).Subperm (y :: rest) :=
      (List.subperm_cons x).mp (hperm.symm.subperm.trans h.disjoint)
    by_cases hy : y ∈ members M₁
    · -- the partners `a` of `x` and `b` of `y` take each other
      obtain ⟨b, M₂, hyb, hlen₂, hperm₂, hnear₂⟩ := exists_partner hsym hnear hy
      have hsub₂ : (a :: b :: members M₂).Subperm rest := by
        refine (List.subperm_cons y).mp (List.Subperm.trans ?_ hsub)
        exact ((List.Perm.swap a y _).trans (hperm₂.symm.cons a)).subperm
      have ha : a ∈ rest := hsub₂.subset List.mem_cons_self
      have hb : b ∈ rest := hsub₂.subset (List.mem_cons_of_mem _ List.mem_cons_self)
      refine ⟨(a, b) :: M₂, ⟨hsub₂, ?_⟩, ?_⟩
      · intro m hm
        rcases List.mem_cons.mp hm with rfl | hm
        · exact hex a ha b hb hxa hyb
        · exact hnear₂ m hm
      · simp only [List.length_cons]
        omega
    · refine ⟨M₁, ⟨?_, hnear⟩, by omega⟩
      exact subperm_of_not_mem ((List.sublist_cons_self a _).subperm.trans hsub) hy
  · have hsub : (members M).Subperm (y :: rest) := subperm_of_not_mem h.disjoint hx
    by_cases hy : y ∈ members M
    · obtain ⟨b, M₁, -, hlen, hperm, hnear⟩ := exists_partner hsym h.near hy
      have hb : (b :: members M₁).Subperm rest :=
        (List.subperm_cons y).mp (hperm.symm.subperm.trans hsub)
      exact ⟨M₁, ⟨(List.sublist_cons_self b _).subperm.trans hb, hnear⟩, by omega⟩
    · exact ⟨M, ⟨subperm_of_not_mem hsub hy, h.near⟩, by omega⟩

end Pairings

/-! ## First fit -/

section FirstFit
variable {α : Type*} {near : α → α → Bool}

theorem length_eraseP_lt (p : α → Bool) (x : α) (rest : List α) :
    (rest.eraseP p).length < (x :: rest).length :=
  Nat.lt_succ_of_le List.eraseP_sublist.length_le

/-- Each element, from the left, with the first one that is near. -/
def firstFit (near : α → α → Bool) (l : List α) : List (α × α) :=
  match l with
  | [] => []
  | x :: rest =>
    match _h : rest.find? (near x) with
    | none => firstFit near rest
    | some y => (x, y) :: firstFit near (rest.eraseP (near x))
termination_by l.length
decreasing_by
  · exact Nat.lt_succ_self _
  · exact length_eraseP_lt _ x rest

theorem firstFit_of_none {x : α} {rest : List α} (h : rest.find? (near x) = none) :
    firstFit near (x :: rest) = firstFit near rest := by
  rw [firstFit]
  split <;> rename_i hf
  · rfl
  · rw [h] at hf
    cases hf

theorem firstFit_of_some {x y : α} {rest : List α} (h : rest.find? (near x) = some y) :
    firstFit near (x :: rest) = (x, y) :: firstFit near (rest.eraseP (near x)) := by
  rw [firstFit]
  split <;> rename_i hf <;> rw [h] at hf <;> cases hf
  rfl

theorem perm_of_find?_eq_some {p : α → Bool} {l : List α} {y : α} (h : l.find? p = some y) :
    (y :: l.eraseP p).Perm l := by
  obtain ⟨hy, before, after, rfl, hbefore⟩ := List.find?_eq_some_iff_append.mp h
  have hnot : ∀ a ∈ before, ¬ p a = true := by simpa using hbefore
  rw [List.eraseP_append_right _ hnot, List.eraseP_cons_of_pos hy]
  exact List.perm_middle.symm

theorem firstFit_isPairing (near : α → α → Bool) (l : List α) :
    IsPairing (fun x y => near x y = true) l (firstFit near l) := by
  induction l using firstFit.induct near with
  | case1 =>
    rw [firstFit]
    exact IsPairing.nil _
  | case2 x rest h ih =>
    rw [firstFit_of_none h]
    exact ih.mono (List.sublist_cons_self x rest)
  | case3 x rest y h ih =>
    rw [firstFit_of_some h]
    exact ih.cons ((perm_of_find?_eq_some h).cons x).subperm (List.find?_some h)

end FirstFit

/-! ## Points -/

section Points
variable {α κ : Type*} [AddCommGroup κ] [LinearOrder κ] {pos : α → κ} {bound : κ}

/-- Not more than `bound` apart. -/
def within (pos : α → κ) (bound : κ) (x y : α) : Bool := decide (|pos x - pos y| ≤ bound)

theorem within_iff {x y : α} : within pos bound x y = true ↔ |pos x - pos y| ≤ bound :=
  decide_eq_true_iff

theorem within_symm (x y : α) (h : within pos bound x y = true) : within pos bound y x = true := by
  rw [within_iff, abs_sub_comm] at h
  exact within_iff.mpr h

variable [IsOrderedAddMonoid κ]

/-- What lies between two near points is near to the first one. -/
theorem within_of_le {x b y : α} (hxb : pos x ≤ pos b) (hby : pos b ≤ pos y)
    (h : within pos bound x y = true) : within pos bound x b = true := by
  rw [within_iff, abs_le] at h ⊢
  obtain ⟨hlow, hhigh⟩ := h
  have hle : pos x - pos b ≤ 0 := sub_nonpos.mpr hxb
  have hb0 : 0 ≤ bound := le_trans (abs_nonneg _) (abs_le.mpr ⟨hlow, hhigh⟩)
  exact ⟨hlow.trans (sub_le_sub_left hby _), hle.trans hb0⟩

/-- In order, the first near point is the next one. -/
theorem find?_eq_head {x y : α} {rest : List α} (hs : (x :: rest).Pairwise fun a b => pos a ≤ pos b)
    (h : rest.find? (within pos bound x) = some y) :
    ∃ after, rest = y :: after ∧ rest.eraseP (within pos bound x) = after := by
  obtain ⟨hy, before, after, rfl, hbefore⟩ := List.find?_eq_some_iff_append.mp h
  cases before with
  | nil => exact ⟨after, rfl, List.eraseP_cons_of_pos hy⟩
  | cons b before =>
    obtain ⟨hx, htail⟩ := List.pairwise_cons.mp hs
    have hxb : pos x ≤ pos b := hx b List.mem_cons_self
    have hby : pos b ≤ pos y := (List.pairwise_cons.mp htail).1 y (by simp)
    have hnot := hbefore b List.mem_cons_self
    rw [within_of_le hxb hby hy] at hnot
    cases hnot

/-- **First fit is optimal** on a list in the order of the positions. -/
theorem firstFit_isGreatest (l : List α) (hs : l.Pairwise fun a b => pos a ≤ pos b) :
    IsGreatest {n | ∃ M, IsPairing (fun x y => within pos bound x y = true) l M ∧ M.length = n}
      (firstFit (within pos bound) l).length := by
  refine ⟨⟨_, firstFit_isPairing _ l, rfl⟩, ?_⟩
  rintro n ⟨M, hM, rfl⟩
  induction l using firstFit.induct (within pos bound) generalizing M with
  | case1 =>
    have hnil : members M = [] := List.subperm_nil.mp hM.disjoint
    cases M with
    | nil => exact Nat.zero_le _
    | cons m M => cases hnil
  | case2 x rest h ih =>
    rw [firstFit_of_none h]
    refine ih (List.Pairwise.of_cons hs) M (hM.of_isolated within_symm ?_)
    intro y hy
    exact List.find?_eq_none.mp h y hy
  | case3 x rest y h ih =>
    obtain ⟨after, rfl, herase⟩ := find?_eq_head hs h
    rw [firstFit_of_some h, herase, List.length_cons]
    rw [herase] at ih
    obtain ⟨hx, hs'⟩ := List.pairwise_cons.mp hs
    obtain ⟨hy, hs''⟩ := List.pairwise_cons.mp hs'
    -- both partners lie behind `y` and not more than the bound behind it
    have hex : ∀ a ∈ after, ∀ b ∈ after, within pos bound x a = true →
        within pos bound y b = true → within pos bound a b = true := by
      intro a ha b hb hxa hyb
      rw [within_iff, abs_le] at hxa hyb ⊢
      have hxy := hx y List.mem_cons_self
      have hya := hy a ha
      have hyb' := hy b hb
      constructor
      · have hle : pos y - pos b ≤ pos a - pos b := sub_le_sub_right hya _
        exact hyb.1.trans hle
      · have hle : pos a - pos b ≤ pos a - pos x :=
          sub_le_sub_left (hxy.trans hyb') _
        have hax : pos a - pos x ≤ bound := by
          rw [← neg_sub]
          exact neg_le.mp hxa.1
        exact hle.trans hax
    obtain ⟨M', hM', hlen⟩ := hM.exchange within_symm hex
    exact hlen.trans (Nat.succ_le_succ (ih hs'' M' hM'))

end Points
end DrgbServer.Lib.Pairing
