import DrgbServer.Match.MatchServiceServer

/-! # The order in which `TransferMatch` tries the servers

The loop takes the entry with the least usage out of its snapshot until a server accepts or
none is left. `GetAll` lists the snapshot in the order of the machine ids and
`std::min_element` takes the first of several minima, so that ties go to the smaller id. -/
namespace DrgbServer.Match
open DrgbServer.Utils DrgbServer.Lib.Transition

/-- How an attempt ends: `Write` fails, nothing comes within `RESPONSE_TIME`, or the server
answers with a `Usage` message. -/
inductive Outcome where
  | writeFails
  | unanswered
  | answered (usage : Nat)
deriving DecidableEq

/-- `Recent_Success` after the wait. -/
def Outcome.recentSuccess : Outcome → Int
  | .answered usage => toInt usage
  | _ => -1

def Outcome.accepts : Outcome → Bool
  | .writeFails => false
  | outcome => decide (outcome.recentSuccess ≥ 1)

example : (Outcome.answered 1).accepts = true ∧ (Outcome.answered 0).accepts = false := by
  decide +kernel

/-- The loop of `TransferMatch`, with the entries that have been tried. -/
def transferLoop (outcome : Entry → Outcome) : Nat → List Entry → List Entry →
    Option (List Entry × Seed)
  | 0, _, _ => none
  | fuel + 1, tried, vec => match System.minElement vec with
    | none => some (tried, -1)
    | some (entry, rest) =>
      if (outcome entry).accepts then some (tried ++ [entry], entry.1)
      else transferLoop outcome fuel (tried ++ [entry]) rest

/-- The entries tried and the id returned. The condition of the loop is tested at most once
more than there are streams. -/
def transferMatch (outcome : Entry → Outcome) (streams : Table Seed StreamId Nat) :
    Option (List Entry × Seed) :=
  transferLoop outcome (streams.getAll.length + 1) [] streams.getAll

/-- Less usage, or the same and a smaller id. -/
def Before (a b : Entry) : Prop := a.2.2 < b.2.2 ∨ a.2.2 = b.2.2 ∧ a.1 < b.1

theorem not_before_self (a : Entry) : ¬ Before a a := by
  rintro (h | ⟨-, h⟩)
  · exact lt_irrefl _ h
  · exact lt_irrefl _ h

/-- The snapshot, split into the entries that have been tried and those that have not. -/
structure Split (snapshot tried rest : List Entry) : Prop where
  perm : snapshot.Perm (tried ++ rest)
  ids : rest.Pairwise (·.1 < ·.1)
  ordered : tried.Pairwise Before
  ahead : ∀ a ∈ tried, ∀ b ∈ rest, Before a b

theorem split_snapshot (streams : Table Seed StreamId Nat) :
    Split streams.getAll [] streams.getAll where
  perm := .refl _
  ids := Table.getAll_ordered.imp fun h => compare_lt_iff_lt.mp h
  ordered := .nil
  ahead := nofun

theorem minElement_sublist {vec rest : List Entry} {e : Entry}
    (h : System.minElement vec = some (e, rest)) : rest.Sublist vec := by
  induction vec generalizing e rest with
  | nil => cases h
  | cons y ys ih =>
    rw [System.minElement] at h
    split at h
    · cases h
      exact List.nil_sublist _
    · rename_i m others hm
      split at h
      · cases h
        exact (ih hm).cons_cons y
      · cases h
        exact (List.Sublist.refl _).cons y

/-- **The minimum comes before the others.** -/
theorem minElement_before {vec rest : List Entry} {e : Entry}
    (h : System.minElement vec = some (e, rest)) (hids : vec.Pairwise (·.1 < ·.1)) :
    ∀ x ∈ rest, Before e x := by
  induction vec generalizing e rest with
  | nil => cases h
  | cons y ys ih =>
    obtain ⟨hy, hys⟩ := List.pairwise_cons.mp hids
    rw [System.minElement] at h
    split at h
    · cases h
      exact List.forall_mem_nil _
    · rename_i m others hm
      split at h
      · rename_i hlt
        cases h
        exact List.forall_mem_cons.mpr ⟨.inl hlt, ih hm hys⟩
      · rename_i hge
        cases h
        intro x hx
        -- `y` ties with the minimum of the others at most, and has the smaller id
        have hle : m.2.2 ≤ x.2.2 := by
          rcases List.mem_cons.mp ((System.minElement_perm hm).mem_iff.mp hx) with rfl | hx
          · exact le_rfl
          · rcases ih hm hys x hx with hlt | heq
            · exact hlt.le
            · exact heq.1.le
        rcases (not_lt.mp hge).trans hle |>.lt_or_eq with hlt | heq
        · exact .inl hlt
        · exact .inr ⟨heq, hy x hx⟩

/-- The next attempt. -/
theorem Split.next {snapshot tried vec rest : List Entry} {e : Entry}
    (h : Split snapshot tried vec) (hm : System.minElement vec = some (e, rest)) :
    Split snapshot (tried ++ [e]) rest := by
  have hperm := System.minElement_perm hm
  have hbefore := minElement_before hm h.ids
  have hmem : ∀ x ∈ e :: rest, x ∈ vec := fun x hx => hperm.mem_iff.mpr hx
  refine ⟨?_, h.ids.sublist (minElement_sublist hm), ?_, ?_⟩
  · rw [List.append_assoc]
    exact h.perm.trans (hperm.append_left tried)
  · refine List.pairwise_append.mpr ⟨h.ordered, List.pairwise_singleton _ _, ?_⟩
    intro a ha b hb
    obtain rfl := List.mem_singleton.mp hb
    exact h.ahead a ha b (hmem b List.mem_cons_self)
  · intro a ha b hb
    rcases List.mem_append.mp ha with ha | ha
    · exact h.ahead a ha b (hmem b (List.mem_cons_of_mem _ hb))
    · obtain rfl := List.mem_singleton.mp ha
      exact hbefore b hb

theorem Split.subset {snapshot tried rest : List Entry} (h : Split snapshot tried rest) :
    tried ⊆ snapshot :=
  fun _ ha => h.perm.mem_iff.mpr (List.mem_append_left _ ha)

/-- What has not been tried comes later. -/
theorem Split.before {snapshot tried rest : List Entry} (h : Split snapshot tried rest)
    {a e : Entry} (ha : a ∈ tried) (he : e ∈ snapshot) (hnot : e ∉ tried) : Before a e :=
  h.ahead a ha e ((List.mem_append.mp (h.perm.mem_iff.mp he)).resolve_left hnot)

/-! ## The loop -/

/-- The entries tried are the first of the snapshot, in order, up to the first server that
accepts. -/
structure Attempted (outcome : Entry → Outcome) (snapshot tried : List Entry) (result : Seed) :
    Prop where
  ordered : tried.Pairwise Before
  subset : tried ⊆ snapshot
  first : ∀ e ∈ snapshot, e ∉ tried → ∀ a ∈ tried, Before a e
  result : (∃ failed e, tried = failed ++ [e] ∧ (∀ a ∈ failed, (outcome a).accepts = false) ∧
      (outcome e).accepts = true ∧ result = e.1) ∨
    ((∀ e ∈ snapshot, e ∈ tried ∧ (outcome e).accepts = false) ∧ result = -1)

theorem transferLoop_attempted (outcome : Entry → Outcome) {snapshot : List Entry} :
    ∀ (fuel : Nat) (tried vec : List Entry), Split snapshot tried vec →
      (∀ a ∈ tried, (outcome a).accepts = false) → vec.length < fuel →
      ∃ all result, transferLoop outcome fuel tried vec = some (all, result) ∧
        Attempted outcome snapshot all result := by
  intro fuel
  induction fuel with
  | zero => exact fun _ _ _ _ hfuel => absurd hfuel (Nat.not_lt_zero _)
  | succ fuel ih =>
    intro tried vec h hfailed hfuel
    cases hm : System.minElement vec with
    | none =>
      have hall : ∀ e ∈ snapshot, e ∈ tried := by
        intro e he
        have := h.perm.mem_iff.mp he
        rwa [System.minElement_eq_none hm, List.append_nil] at this
      refine ⟨tried, -1, by rw [transferLoop, hm], h.ordered, h.subset, ?_, .inr ⟨?_, rfl⟩⟩
      · exact fun e he hnot => absurd (hall e he) hnot
      · exact fun e he => ⟨hall e he, hfailed e (hall e he)⟩
    | some next =>
      obtain ⟨e, rest⟩ := next
      have hnext := h.next hm
      cases ha : (outcome e).accepts with
      | true =>
        refine ⟨tried ++ [e], e.1, ?_, hnext.ordered, hnext.subset, ?_, .inl ⟨tried, e, rfl,
          hfailed, ha, rfl⟩⟩
        · rw [transferLoop, hm]
          exact if_pos ha
        · exact fun b hb hnot a hmem => hnext.before hmem hb hnot
      | false =>
        have hlen := (System.minElement_perm hm).length_eq
        rw [List.length_cons] at hlen
        have hfailed' : ∀ a ∈ tried ++ [e], (outcome a).accepts = false := by
          intro a hmem
          rcases List.mem_append.mp hmem with hmem | hmem
          · exact hfailed a hmem
          · rwa [List.mem_singleton.mp hmem]
        obtain ⟨all, result, hrun, hattempted⟩ := ih _ _ hnext hfailed' (by omega)
        refine ⟨all, result, ?_, hattempted⟩
        rw [transferLoop, hm]
        dsimp only
        rw [if_neg (by rw [ha]; exact Bool.false_ne_true)]
        exact hrun

theorem Attempted.nodup {outcome : Entry → Outcome} {snapshot tried : List Entry} {result : Seed}
    (h : Attempted outcome snapshot tried result) : tried.Nodup := by
  refine h.ordered.imp fun {a b} hab => ?_
  rintro rfl
  exact not_before_self a hab

/-- No stream is in two entries. -/
theorem streams_nodup {streams : Table Seed StreamId Nat} {tried : List Entry}
    (hsub : tried ⊆ streams.getAll) (hnodup : tried.Nodup) : (tried.map (·.2.1)).Nodup := by
  refine List.Nodup.map_on ?_ hnodup
  rintro ⟨id, k, usage⟩ ha ⟨id', k', usage'⟩ hb hk
  obtain rfl : k = k' := hk
  have h := Table.findRKey_eq_some.mpr (Table.mem_getAll.mp (hsub ha))
  rw [Table.findRKey_eq_some.mpr (Table.mem_getAll.mp (hsub hb))] at h
  cases h
  rfl

/-- **The servers are tried in the order of their usage.** Whatever the snapshot and however
the attempts end, the loop ends after one attempt at most on each stream. The entries tried
are the first of the snapshot by usage and machine id, up to the first server that accepts;
its id is returned, and -1 where none accepts. -/
theorem tries_least_usage_first (outcome : Entry → Outcome) (streams : Table Seed StreamId Nat) :
    ∃ tried result, transferMatch outcome streams = some (tried, result) ∧
      Attempted outcome streams.getAll tried result ∧ (tried.map (·.2.1)).Nodup := by
  obtain ⟨tried, result, hrun, h⟩ := transferLoop_attempted outcome
    (streams.getAll.length + 1) [] streams.getAll (split_snapshot streams)
    (fun _ ha => absurd ha List.not_mem_nil) (Nat.lt_succ_self _)
  exact ⟨tried, result, hrun, h, streams_nodup h.subset h.nodup⟩

/-- A server with the machine id -1 accepts: what is returned does not say so. -/
theorem accepted_and_minus_one : ∃ (outcome : Entry → Outcome) (streams : Table Seed StreamId Nat),
    (∃ e ∈ streams.getAll, outcome e = .answered 1) ∧
      transferMatch outcome streams = some ([(-1, 0, 0)], -1) := by
  refine ⟨fun _ => .answered 1, (Table.empty.insert (-1) 0 0).2, ?_, ?_⟩
  · exact ⟨(-1, 0, 0), by decide +kernel, rfl⟩
  · decide +kernel

/-! ## The thread that calls it -/

namespace System
variable {machineId : BattleId → Nat} {s t : System}

def pcJob : TransferPc → Option Job
  | .idle => none
  | .choosing job | .writing job _ | .waiting job _ | .checking job _ => some job

/-- The entry that a step of the caller takes out of its snapshot. -/
def taken (s : System) : Label → List Entry
  | .choose => match s.pc with
    | .choosing job => ((minElement job.vec).map Prod.fst).toList
    | _ => []
  | _ => []

def takenAlong (machineId : BattleId → Nat) : System → List Label → List Entry
  | _, [] => []
  | s, l :: rest => match step machineId s l with
    | none => []
    | some t => s.taken l ++ takenAlong machineId t rest

/-- The call has tried these entries of its snapshot and holds the others. -/
def Follows (snapshot tried : List Entry) (s : System) : Prop :=
  ∃ rest, Split snapshot tried rest ∧ ∀ job, pcJob s.pc = some job → job.vec = rest

theorem Follows.same_job {snapshot tried : List Entry} (h : Follows snapshot tried s)
    (hj : ∀ job, pcJob t.pc = some job → pcJob s.pc = some job) : Follows snapshot tried t := by
  obtain ⟨rest, hsplit, hvec⟩ := h
  exact ⟨rest, hsplit, fun job hjob => hvec job (hj job hjob)⟩

theorem taken_of_ne {l : Label} (h : l ≠ .choose) : s.taken l = [] := by
  cases l <;> first | rfl | exact absurd rfl h

theorem choose_follows {snapshot tried : List Entry} (h : Follows snapshot tried s)
    (hs : s.choose = some t) : Follows snapshot (tried ++ s.taken .choose) t := by
  obtain ⟨rest, hsplit, hvec⟩ := h
  obtain ⟨job, hpc, ⟨hm, rfl⟩ | ⟨entry, left, hm, rfl⟩⟩ := choose_cases hs
  · have htaken : s.taken .choose = [] := by simp [taken, hpc, hm]
    rw [htaken, List.append_nil]
    exact ⟨rest, hsplit, nofun⟩
  · have htaken : s.taken .choose = [entry] := by simp [taken, hpc, hm]
    obtain rfl : job.vec = rest := hvec job (by rw [hpc]; rfl)
    rw [htaken]
    refine ⟨left, hsplit.next hm, fun job' hjob => ?_⟩
    cases hjob
    rfl

/-- A step of `TransferMatch`. -/
def ofCaller : Label → Prop
  | .call _ _ | .choose | .write _ | .endWait | .check => True
  | _ => False

/-- The handlers and the battle servers leave the caller where it is. -/
theorem step_pc {l : Label} (hs : step machineId s l = some t) (hl : ¬ ofCaller l) :
    t.pc = s.pc := by
  cases l with
  | call _ _ | choose | write _ | endWait | check => exact absurd trivial hl
  | connect battle =>
    cases hs
    rfl
  | readId k =>
    obtain ⟨_, _, _, _, -, rfl⟩ := readId_cases hs
    rfl
  | insert k =>
    obtain ⟨_, _, _, _, -, rfl⟩ := insert_cases hs
    rfl
  | readFlag k =>
    obtain ⟨_, _, _, _, _, -, rfl⟩ := readFlag_cases hs
    rfl
  | storeFlag k =>
    obtain ⟨-, _, _, _, _, _, -, rfl⟩ := storeFlag_cases hs
    rfl
  | readUsage k =>
    obtain ⟨_, _, _, _, _, -, rfl⟩ := readUsage_cases hs
    rfl
  | erase k =>
    obtain ⟨_, _, _, _, -, rfl⟩ := erase_cases hs
    rfl
  | lost k =>
    obtain ⟨_, _, _, -, rfl⟩ | ⟨_, _, _, _, -, rfl⟩ | ⟨_, _, _, _, -, rfl⟩ := lost_cases hs
    all_goals rfl
  | serve k answers =>
    obtain ⟨_, _, _, _, _, -, rfl⟩ := serve_cases hs
    rfl
  | battleRuns battle state =>
    cases hs
    rfl
  | drop k =>
    obtain ⟨_, -, rfl⟩ := drop_cases hs
    rfl

theorem step_follows {snapshot tried : List Entry} {l : Label} (h : Follows snapshot tried s)
    (hl : ∀ lpid rpid, l ≠ .call lpid rpid) (hs : step machineId s l = some t) :
    Follows snapshot (tried ++ s.taken l) t := by
  by_cases hchoose : l = .choose
  · subst hchoose
    exact choose_follows h hs
  rw [taken_of_ne hchoose, List.append_nil]
  refine h.same_job fun job' hjob => ?_
  cases l with
  | call lpid rpid => exact absurd rfl (hl lpid rpid)
  | choose => exact absurd rfl hchoose
  | write ok =>
    obtain ⟨job, entry, hwriting, rfl | ⟨_, -, rfl⟩⟩ := write_cases hs
    all_goals
      rw [hwriting]
      exact hjob
  | endWait =>
    obtain ⟨job, entry, hwaiting, rfl⟩ := endWait_cases hs
    rw [hwaiting]
    exact hjob
  | check =>
    obtain ⟨job, entry, hchecking, ⟨-, rfl⟩ | ⟨-, rfl⟩⟩ := check_cases hs
    · cases hjob
    · rw [hchecking]
      exact hjob
  | _ => rwa [step_pc hs not_false] at hjob

theorem run_follows {snapshot tried : List Entry} {labels : List Label}
    (h : Follows snapshot tried s) (hl : ∀ l ∈ labels, ∀ lpid rpid, l ≠ .call lpid rpid)
    (hr : run (step machineId) s labels = some t) :
    Follows snapshot (tried ++ takenAlong machineId s labels) t := by
  induction labels generalizing s tried with
  | nil =>
    cases hr
    rw [takenAlong, List.append_nil]
    exact h
  | cons l rest ih =>
    obtain ⟨u, hu, hr⟩ := Option.bind_eq_some_iff.mp hr
    rw [takenAlong, hu, ← List.append_assoc]
    exact ih (step_follows h (hl l List.mem_cons_self) hu)
      (fun l' hl' => hl l' (List.mem_cons_of_mem _ hl')) hr

/-- **The same order among all threads**: in any run of the system, what one call of
`TransferMatch` has taken is the beginning of its snapshot by usage and machine id. -/
theorem call_takes_least_first {labels : List Label} {lpid rpid : AccountId} {u : System}
    (hc : s.call lpid rpid = some t) (hl : ∀ l ∈ labels, ∀ lpid rpid, l ≠ .call lpid rpid)
    (hr : run (step machineId) t labels = some u) :
    ∃ rest, Split s.streams.getAll (takenAlong machineId t labels) rest := by
  obtain ⟨-, rfl⟩ := call_cases hc
  have hstart : Follows s.streams.getAll [] { s with
      pc := .choosing ⟨lpid, rpid, s.calls, s.streams.getAll⟩, calls := s.calls + 1 } :=
    ⟨s.streams.getAll, split_snapshot s.streams, fun job hjob => by cases hjob; rfl⟩
  obtain ⟨rest, hsplit, -⟩ := run_follows hstart hl hr
  exact ⟨rest, hsplit⟩

end System
end DrgbServer.Match
