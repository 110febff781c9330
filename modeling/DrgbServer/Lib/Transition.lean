import Mathlib.Tactic

/-! # Runs of a partial transition function

A label carries every choice the environment makes in a step, so a step is a
partial function of state and label and a run is a list of labels. Enabledness
is `some`. `Meets` says of a run that each of its steps satisfies a condition
in the state it starts from; the invariant rules below take it as their only
assumption about the run, with `fun _ _ => True` for unrestricted runs. -/
namespace DrgbServer.Lib.Transition

variable {σ ι : Type*} {step : σ → ι → Option σ} {ok : σ → ι → Prop} {I : σ → Prop}

/-- The state after the labels in order; `none` once a step is not enabled. -/
def run (step : σ → ι → Option σ) : σ → List ι → Option σ
  | s, [] => some s
  | s, a :: rest => (step s a).bind fun t => run step t rest

/-- Every step the run takes meets `ok` in the state it starts from. -/
def Meets (step : σ → ι → Option σ) (ok : σ → ι → Prop) : σ → List ι → Prop
  | _, [] => True
  | s, a :: rest => match step s a with
    | none => True
    | some t => ok s a ∧ Meets step ok t rest

instance decidableMeets [∀ s a, Decidable (ok s a)] :
    ∀ s as, Decidable (Meets step ok s as)
  | _, [] => isTrue trivial
  | s, a :: rest =>
    match h : step s a with
    | none => isTrue (by simp [Meets, h])
    | some t =>
      have : Decidable (Meets step ok t rest) := decidableMeets t rest
      decidable_of_iff (ok s a ∧ Meets step ok t rest) (by simp [Meets, h])

/-- Every state the run reaches satisfies `P`. -/
def Always (step : σ → ι → Option σ) (P : σ → Prop) : σ → List ι → Prop
  | s, [] => P s
  | s, a :: rest => P s ∧ match step s a with
    | none => True
    | some t => Always step P t rest

@[simp] theorem run_nil (s : σ) : run step s [] = some s := rfl

theorem run_cons (s : σ) (a : ι) (rest : List ι) :
    run step s (a :: rest) = (step s a).bind fun t => run step t rest := rfl

theorem run_cons_of_some {s t : σ} {a : ι} {rest : List ι} (h : step s a = some t) :
    run step s (a :: rest) = run step t rest := by rw [run_cons, h]; rfl

theorem run_append (s : σ) (first second : List ι) :
    run step s (first ++ second) = (run step s first).bind fun t => run step t second := by
  induction first generalizing s with
  | nil => rfl
  | cons a rest ih =>
    simp only [List.cons_append, run_cons]
    cases step s a with
    | none => rfl
    | some t => exact ih t

/-- A concrete run, evaluated. -/
theorem exists_run_of_any {P : σ → Prop} [DecidablePred P] {s : σ} {as : List ι}
    (h : (run step s as).any (fun t => decide (P t)) = true) :
    ∃ t, run step s as = some t ∧ P t := by
  obtain ⟨t, ht, hp⟩ := (Option.any_eq_true _ _).mp h
  exact ⟨t, ht, of_decide_eq_true hp⟩

theorem meets_cons_of_some {s t : σ} {a : ι} {rest : List ι} (h : step s a = some t) :
    Meets step ok s (a :: rest) ↔ ok s a ∧ Meets step ok t rest := by
  rw [Meets, h]

theorem always_cons_of_some {P : σ → Prop} {s t : σ} {a : ι} {rest : List ι}
    (h : step s a = some t) :
    Always step P s (a :: rest) ↔ P s ∧ Always step P t rest := by
  rw [Always, h]

theorem Always.head {P : σ → Prop} {s : σ} {as : List ι} (h : Always step P s as) : P s := by
  cases as with
  | nil => exact h
  | cons a rest => exact h.1

/-- **The invariant rule.** What each step that meets `ok` preserves holds at
the end of every run whose steps all meet `ok`. -/
theorem run_invariant (hstep : ∀ s a t, I s → ok s a → step s a = some t → I t)
    {s u : σ} {as : List ι} (hs : I s) (hok : Meets step ok s as)
    (hr : run step s as = some u) : I u := by
  induction as generalizing s with
  | nil => cases hr; exact hs
  | cons a rest ih =>
    obtain ⟨t, ht, hr⟩ := Option.bind_eq_some_iff.mp hr
    obtain ⟨ha, hok⟩ := (meets_cons_of_some ht).mp hok
    exact ih (hstep s a t hs ha ht) hok hr

/-- The invariant rule for every state on the way. -/
theorem always_of_meets {P : σ → Prop} (hP : ∀ s, I s → P s)
    (hstep : ∀ s a t, I s → ok s a → step s a = some t → I t)
    {s : σ} {as : List ι} (hs : I s) (hok : Meets step ok s as) : Always step P s as := by
  induction as generalizing s with
  | nil => exact hP s hs
  | cons a rest ih =>
    refine ⟨hP s hs, ?_⟩
    rw [Meets] at hok
    cases ht : step s a with
    | none => trivial
    | some t =>
      rw [ht] at hok
      exact ih (hstep s a t hs hok.1 ht) hok.2

theorem meets_true (s : σ) (as : List ι) : Meets step (fun _ _ => True) s as := by
  induction as generalizing s with
  | nil => trivial
  | cons a rest ih =>
    rw [Meets]
    split
    · trivial
    · exact ⟨trivial, ih _⟩

theorem meets_of_forall {q : ι → Prop} {as : List ι} (hq : ∀ a ∈ as, q a) (s : σ) :
    Meets step (fun _ a => q a) s as := by
  induction as generalizing s with
  | nil => trivial
  | cons a rest ih =>
    rw [Meets]
    split
    · trivial
    · exact ⟨hq a List.mem_cons_self, ih (fun b hb => hq b (List.mem_cons_of_mem _ hb)) _⟩

/-- The invariant rule for a condition on the steps themselves. -/
theorem meets_of_meets {good : σ → ι → Prop} (hgood : ∀ s a, I s → ok s a → good s a)
    (hstep : ∀ s a t, I s → ok s a → step s a = some t → I t)
    {s : σ} {as : List ι} (hs : I s) (hok : Meets step ok s as) : Meets step good s as := by
  induction as generalizing s with
  | nil => trivial
  | cons a rest ih =>
    rw [Meets] at hok ⊢
    cases ht : step s a with
    | none => trivial
    | some t =>
      rw [ht] at hok
      exact ⟨hgood s a hs hok.1, ih (hstep s a t hs hok.1 ht) hok.2⟩

/-- What the invariant makes equivalent holds along the same runs. -/
theorem always_congr {P Q : σ → Prop} (hstep : ∀ s a t, I s → step s a = some t → I t)
    (hPQ : ∀ s, I s → (P s ↔ Q s)) {s : σ} (as : List ι) (hs : I s) :
    Always step P s as ↔ Always step Q s as := by
  induction as generalizing s with
  | nil => exact hPQ s hs
  | cons a rest ih =>
    rw [Always, Always, hPQ s hs]
    cases ht : step s a with
    | none => exact Iff.rfl
    | some t => exact and_congr_right fun _ => ih (hstep s a t hs ht)

/-- **The exactness rule.** Where the invariant gives `P`, steps that meet `ok`
keep the invariant and a step that does not meet it breaks `P` at once, the runs
along which `P` always holds are those whose steps all meet `ok`. -/
theorem always_iff_meets {P : σ → Prop} (hP : ∀ s, I s → P s)
    (hstep : ∀ s a t, I s → ok s a → step s a = some t → I t)
    (hbreak : ∀ s a t, I s → ¬ ok s a → step s a = some t → ¬ P t)
    {s : σ} (as : List ι) (hs : I s) : Always step P s as ↔ Meets step ok s as := by
  induction as generalizing s with
  | nil => exact ⟨fun _ => trivial, fun _ => hP s hs⟩
  | cons a rest ih =>
    cases ht : step s a with
    | none => simp [Always, Meets, ht, hP s hs]
    | some t =>
      rw [always_cons_of_some ht, meets_cons_of_some ht]
      constructor
      · rintro ⟨_, hal⟩
        have ha : ok s a := by
          by_contra hna
          exact hbreak s a t hs hna ht hal.head
        exact ⟨ha, (ih (hstep s a t hs ha ht)).mp hal⟩
      · rintro ⟨ha, hm⟩
        exact ⟨hP s hs, (ih (hstep s a t hs ha ht)).mpr hm⟩

/-- The rule for runs whose labels are restricted. -/
theorem run_invariant_labels {q : ι → Prop}
    (hstep : ∀ s a t, I s → q a → step s a = some t → I t)
    {s u : σ} {as : List ι} (hs : I s) (hq : ∀ a ∈ as, q a)
    (hr : run step s as = some u) : I u := by
  induction as generalizing s with
  | nil => cases hr; exact hs
  | cons a rest ih =>
    obtain ⟨t, ht, hr⟩ := Option.bind_eq_some_iff.mp hr
    exact ih (hstep s a t hs (hq a List.mem_cons_self) ht)
      (fun b hb => hq b (List.mem_cons_of_mem _ hb)) hr

/-- The rule for runs without side condition. -/
theorem run_invariant_all (hstep : ∀ s a t, I s → step s a = some t → I t)
    {s u : σ} {as : List ι} (hs : I s) (hr : run step s as = some u) : I u :=
  run_invariant_labels (q := fun _ => True) (fun s a t hi _ => hstep s a t hi) hs
    (fun _ _ => trivial) hr

/-- Where every step is enabled under the invariant, every run is defined. -/
theorem run_total (hstep : ∀ s a, I s → ∃ t, step s a = some t ∧ I t)
    {s : σ} (as : List ι) (hs : I s) : ∃ u, run step s as = some u ∧ I u := by
  induction as generalizing s with
  | nil => exact ⟨s, rfl, hs⟩
  | cons a rest ih =>
    obtain ⟨t, ht, hi⟩ := hstep s a hs
    obtain ⟨u, hu, hi⟩ := ih hi
    exact ⟨u, by rw [run_cons_of_some ht]; exact hu, hi⟩

end DrgbServer.Lib.Transition
