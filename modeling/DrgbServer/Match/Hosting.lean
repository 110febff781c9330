import DrgbServer.Match.MatchServiceServer

/-! # How often a match is hosted

An attempt that `TransferMatch` gives up is not taken back, so its transfer can
still be served after the next server has been asked. A transfer is live while it
is under way, and for good once its server has registered a game for it. If a call
gives up only attempts that are no longer live, one server at most hosts the match,
and none when the call returns -1 (`hosted_once`). -/
namespace DrgbServer.Match
open DrgbServer.Utils DrgbServer.Battle DrgbServer.Lib.Transition

namespace System
variable {machineId : BattleId → Nat} {s t : System}

def InFlight (s : System) (x : Transfer) : Prop := ∃ link ∈ s.links, x ∈ link.toBattle

/-- The transfer has led to a game or still can. -/
def Live (s : System) (x : Transfer) : Prop :=
  s.InFlight x ∨ ∃ e ∈ s.served, e.transfer = x ∧ e.Registers

instance (s : System) (x : Transfer) : Decidable (s.Live x) :=
  inferInstanceAs (Decidable ((∃ link ∈ s.links, x ∈ link.toBattle) ∨
    ∃ e ∈ s.served, e.transfer = x ∧ e.Registers))

/-- For each call at most one battle server registers a game, and none if the call
has returned -1. -/
def HostedOnce (s : System) : Prop :=
  (∀ a ∈ s.served, ∀ b ∈ s.served, a.Registers → b.Registers →
    a.transfer.call = b.transfer.call → a.battle = b.battle) ∧
  ∀ r ∈ s.results, r.value = -1 → ∀ e ∈ s.served, e.transfer.call = r.call → ¬ e.Registers

instance (s : System) : Decidable s.HostedOnce :=
  inferInstanceAs (Decidable ((∀ a ∈ s.served, ∀ b ∈ s.served, a.Registers → b.Registers →
    a.transfer.call = b.transfer.call → a.battle = b.battle) ∧
    ∀ r ∈ s.results, r.value = -1 → ∀ e ∈ s.served, e.transfer.call = r.call → ¬ e.Registers))

/-- The attempt whose result is about to be tested. -/
def tested (s : System) : Option (Job × Entry) :=
  match s.pc with
  | .checking job entry => some (job, entry)
  | _ => none

/-- The test of an attempt either credits a server, whose id is not -1, or gives up
a transfer that is not live. -/
def GivesUpSafely (s : System) : Label → Prop
  | .check => ∀ a ∈ s.tested,
      if s.recentSuccess ≥ 1 then a.2.1 ≠ -1 else ¬ s.Live (a.1.transfer a.2)
  | _ => True

instance (s : System) (l : Label) : Decidable (GivesUpSafely s l) :=
  match l with
  | .check => inferInstanceAs (Decidable (∀ a ∈ s.tested,
      if s.recentSuccess ≥ 1 then a.2.1 ≠ -1 else ¬ s.Live (a.1.transfer a.2)))
  | .connect _ | .readId _ | .insert _ | .readFlag _ | .storeFlag _ | .readUsage _ | .lost _
  | .erase _ | .call _ _ | .choose | .write _ | .endWait | .serve _ _ | .battleRuns _ _
  | .drop _ => isTrue trivial

/-- The running call. -/
def job (s : System) : Option Job :=
  match s.pc with
  | .idle => none
  | .choosing job | .writing job _ | .waiting job _ | .checking job _ => some job

theorem job_of_underWay {x : Transfer} (h : s.underWay = some (some x)) :
    ∃ j, s.job = some j ∧ x.call = j.call := by
  cases hpc : s.pc with
  | idle | choosing _ | writing _ _ =>
    rw [underWay, hpc] at h
    cases h
  | waiting j entry | checking j entry =>
    rw [underWay, hpc] at h
    cases h
    exact ⟨j, by rw [job, hpc], rfl⟩

/-- The run invariant: a live transfer is the one waited for or the one a call has
returned for, and every call returns once. -/
structure HostInv (s : System) : Prop where
  live : ∀ x, s.Live x → s.underWay = some (some x) ∨
    ∃ r ∈ s.results, r.credited = some x ∧ r.value ≠ -1
  credited : ∀ r ∈ s.results, ∀ x, r.credited = some x → x.call = r.call
  once : (s.results.map (·.call)).Nodup
  past : ∀ r ∈ s.results, r.call < s.calls
  current : ∀ job, s.job = some job → job.call < s.calls ∧ ∀ r ∈ s.results, r.call ≠ job.call

theorem start_hostInv (battles : BattleId → MyBattle) : HostInv (start battles) where
  live := by intro x h; simp [start, Live, InFlight] at h
  credited := by intro r h; simp [start] at h
  once := by simp [start]
  past := by intro r h; simp [start] at h
  current := by intro job h; cases h

theorem HostInv.hostedOnce (hp : Placed s) (h : HostInv s) : s.HostedOnce := by
  have hlive : ∀ e ∈ s.served, e.Registers → s.Live e.transfer :=
    fun e he hr => .inr ⟨e, he, rfl, hr⟩
  constructor
  · intro a ha b hb hra hrb hcall
    -- one call has one live transfer, and a transfer has one server
    have hsame : a.transfer = b.transfer := by
      rcases h.live _ (hlive a ha hra) with hua | ⟨r, hr, hca, _⟩
      · rcases h.live _ (hlive b hb hrb) with hub | ⟨r', hr', hcb, _⟩
        · exact Option.some.inj (Option.some.inj (hua.symm.trans hub))
        · obtain ⟨job, hj, hjc⟩ := job_of_underWay hua
          have hne := (h.current job hj).2 r' hr'
          rw [← h.credited r' hr' _ hcb, ← hcall, hjc] at hne
          exact absurd rfl hne
      · rcases h.live _ (hlive b hb hrb) with hub | ⟨r', hr', hcb, _⟩
        · obtain ⟨job, hj, hjc⟩ := job_of_underWay hub
          have hne := (h.current job hj).2 r hr
          rw [← h.credited r hr _ hca, hcall, hjc] at hne
          exact absurd rfl hne
        · have hrr : r = r' := by
            refine List.inj_on_of_nodup_map h.once hr hr' ?_
            rw [← h.credited r hr _ hca, ← h.credited r' hr' _ hcb, hcall]
          rw [hrr, hcb] at hca
          exact (Option.some.inj hca).symm
    obtain ⟨la, hla, hba⟩ := hp.origin a ha
    obtain ⟨lb, hlb, hbb⟩ := hp.origin b hb
    rw [hsame, hlb] at hla
    cases hla
    exact hba.symm.trans hbb
  · intro r hr hv e he hcall hreg
    rcases h.live _ (hlive e he hreg) with hu | ⟨r', hr', hc, hv'⟩
    · obtain ⟨job, hj, hjc⟩ := job_of_underWay hu
      exact (h.current job hj).2 r hr (by rw [← hcall, hjc])
    · have hrr : r' = r := by
        refine List.inj_on_of_nodup_map h.once hr' hr ?_
        rw [← h.credited r' hr' _ hc, hcall]
      rw [hrr] at hv'
      exact hv' hv

/-! ## Which transfers are live after a step -/

theorem Live.of_links (hl : ∀ (k : StreamId) (link : Link), t.links[k]? = some link →
      ∀ x ∈ link.toBattle, ∃ old, s.links[k]? = some old ∧ x ∈ old.toBattle)
    (hs : t.served = s.served) {x : Transfer} (h : t.Live x) : s.Live x := by
  rcases h with ⟨link, hlink, hx⟩ | ⟨e, he, hrest⟩
  · obtain ⟨k, hk⟩ := List.mem_iff_getElem?.mp hlink
    obtain ⟨old, hold, hx⟩ := hl k link hk x hx
    exact .inl ⟨old, List.mem_of_getElem? hold, hx⟩
  · exact .inr ⟨e, hs ▸ he, hrest⟩

theorem Live.of_same (hl : t.links = s.links) (hs : t.served = s.served) {x : Transfer}
    (h : t.Live x) : s.Live x := by
  refine h.of_links ?_ hs
  intro k link hk x hx
  exact ⟨link, hl ▸ hk, hx⟩

/-- A transfer served was under way before. -/
theorem Live.of_serve {k : StreamId} {answers : Answers} (hr : s.serve k answers = some t)
    {x : Transfer} (h : t.Live x) : s.Live x := by
  obtain ⟨battle, pc, transfer, toBattle, toMatch, hk, rfl⟩ := serve_cases hr
  rcases h with ⟨link, hlink, hx⟩ | ⟨e, he, htr, hreg⟩
  · obtain ⟨j, hj⟩ := List.mem_iff_getElem?.mp hlink
    rcases links_setLink hk hj with ⟨rfl, rfl⟩ | ⟨_, hj⟩
    · exact .inl ⟨_, List.mem_of_getElem? hk, List.mem_cons_of_mem _ hx⟩
    · exact .inl ⟨link, List.mem_of_getElem? hj, hx⟩
  · rcases List.mem_cons.mp he with rfl | he
    · exact .inl ⟨_, List.mem_of_getElem? hk, htr ▸ List.mem_cons_self⟩
    · exact .inr ⟨e, he, htr, hreg⟩

/-- A `Write` makes the transfer of its attempt live and no other. -/
theorem Live.of_write {job : Job} {entry : Entry} {link : Link}
    (hk : s.links[entry.2.1]? = some link) {x : Transfer}
    (h : Live { s.setLink entry.2.1
      { link with toBattle := link.toBattle ++ [job.transfer entry] } with
        pc := .waiting job entry } x) :
    s.Live x ∨ x = job.transfer entry := by
  rcases h with ⟨link', hlink, hx⟩ | hserved
  · obtain ⟨j, hj⟩ := List.mem_iff_getElem?.mp hlink
    rcases links_setLink hk hj with ⟨rfl, rfl⟩ | ⟨_, hj⟩
    · rcases List.mem_append.mp hx with hx | hx
      · exact .inl (.inl ⟨link, List.mem_of_getElem? hk, hx⟩)
      · exact .inr (List.mem_singleton.mp hx)
    · exact .inl (.inl ⟨link', List.mem_of_getElem? hj, hx⟩)
  · exact .inl (.inr hserved)

/-! ## The steps keep the invariant -/

/-- A step that leaves the caller alone. -/
theorem HostInv.frame (h : HostInv s) (hlive : ∀ x, t.Live x → s.Live x) (hpc : t.pc = s.pc)
    (hr : t.results = s.results) (hc : t.calls = s.calls) : HostInv t where
  live := by
    intro x hx
    rw [underWay, hpc, hr]
    exact h.live x (hlive x hx)
  credited := by rw [hr]; exact h.credited
  once := by rw [hr]; exact h.once
  past := by rw [hr, hc]; exact h.past
  current := by rw [job, hpc, hr, hc]; exact h.current

/-- A step of the running call in which it does not return. -/
theorem HostInv.advance (h : HostInv s) (pc : TransferPc)
    (hjob : ∀ j, job { s with pc := pc } = some j → ∃ j', s.job = some j' ∧ j'.call = j.call)
    (hlive : ∀ x, s.Live x → s.underWay = some (some x) →
      underWay { s with pc := pc } = some (some x)) :
    HostInv { s with pc := pc } where
  live := by
    intro x hx
    rcases h.live x hx with hu | hc
    · exact .inl (hlive x hx hu)
    · exact .inr hc
  credited := h.credited
  once := h.once
  past := h.past
  current := by
    intro j hj
    obtain ⟨j', hj', hcall⟩ := hjob j hj
    rw [← hcall]
    exact h.current j' hj'

/-- The running call returns. -/
theorem HostInv.finish (h : HostInv s) {j : Job} (hj : s.job = some j) (r : Result)
    (hcall : r.call = j.call) (hcred : ∀ x, r.credited = some x → x.call = j.call)
    (hlive : ∀ x, s.Live x → s.underWay = some (some x) → r.credited = some x ∧ r.value ≠ -1) :
    HostInv { s with pc := .idle, results := r :: s.results } where
  live := by
    intro x hx
    rcases h.live x hx with hu | ⟨r', hr', hc⟩
    · exact .inr ⟨r, List.mem_cons_self, hlive x hx hu⟩
    · exact .inr ⟨r', List.mem_cons_of_mem _ hr', hc⟩
  credited := by
    intro r' hr' x hx
    rcases List.mem_cons.mp hr' with rfl | hr'
    · rw [hcred x hx, hcall]
    · exact h.credited r' hr' x hx
  once := by
    refine List.nodup_cons.mpr ⟨?_, h.once⟩
    intro hmem
    obtain ⟨r', hr', hc⟩ := List.mem_map.mp hmem
    exact (h.current j hj).2 r' hr' (hc.trans hcall)
  past := by
    intro r' hr'
    rcases List.mem_cons.mp hr' with rfl | hr'
    · rw [hcall]
      exact (h.current j hj).1
    · exact h.past r' hr'
  current := by intro j hj; cases hj

theorem call_hostInv (h : HostInv s) {lpid rpid : AccountId} (hr : s.call lpid rpid = some t) :
    HostInv t := by
  obtain ⟨hpc, rfl⟩ := call_cases hr
  refine ⟨?_, h.credited, h.once, ?_, ?_⟩
  · intro x hx
    rcases h.live x hx with hu | hc
    · rw [underWay, hpc] at hu
      cases hu
    · exact .inr hc
  · intro r hr
    exact Nat.lt_succ_of_lt (h.past r hr)
  · intro j hj
    cases hj
    exact ⟨Nat.lt_succ_self _, fun r hr => (h.past r hr).ne⟩

theorem choose_hostInv (h : HostInv s) (hr : s.choose = some t) : HostInv t := by
  obtain ⟨j, hpc, hcase⟩ := choose_cases hr
  have hj : s.job = some j := by rw [job, hpc]
  have hnone : ∀ x, s.underWay ≠ some (some x) := by
    intro x hu
    rw [underWay, hpc] at hu
    cases hu
  rcases hcase with ⟨-, rfl⟩ | ⟨_, _, -, rfl⟩
  · refine h.finish hj _ rfl ?_ ?_
    · intro x hx
      cases hx
    · intro x _ hu
      exact absurd hu (hnone x)
  · have h' : HostInv { s with recentSuccess := -1 } :=
      h.frame (fun x hx => hx.of_same rfl rfl) rfl rfl rfl
    refine h'.advance _ ?_ ?_
    · intro j' hj'
      cases hj'
      exact ⟨j, hj, rfl⟩
    · intro x _ hu
      exact absurd hu (hnone x)

theorem write_hostInv (h : HostInv s) {ok : Bool} (hr : s.write ok = some t) : HostInv t := by
  obtain ⟨j, entry, hpc, hcase⟩ := write_cases hr
  have hj : s.job = some j := by rw [job, hpc]
  have hnone : ∀ x, s.underWay ≠ some (some x) := by
    intro x hu
    rw [underWay, hpc] at hu
    cases hu
  rcases hcase with rfl | ⟨link, hk, rfl⟩
  · refine h.advance _ ?_ ?_
    · intro j' hj'
      cases hj'
      exact ⟨j, hj, rfl⟩
    · intro x _ hu
      exact absurd hu (hnone x)
  · refine ⟨?_, h.credited, h.once, h.past, ?_⟩
    · intro x hx
      rcases Live.of_write hk hx with hx | rfl
      · rcases h.live x hx with hu | hc
        · exact absurd hu (hnone x)
        · exact .inr hc
      · exact .inl rfl
    · intro j' hj'
      cases hj'
      exact h.current j hj

theorem endWait_hostInv (h : HostInv s) (hr : s.endWait = some t) : HostInv t := by
  obtain ⟨j, entry, hpc, rfl⟩ := endWait_cases hr
  refine h.advance _ ?_ ?_
  · intro j' hj'
    cases hj'
    exact ⟨j, by rw [job, hpc], rfl⟩
  · intro x _ hu
    rw [underWay, hpc] at hu
    exact hu

/-- The attempt is credited, or given up when its transfer is not live. -/
theorem check_hostInv (h : HostInv s) (hok : GivesUpSafely s .check) (hr : s.check = some t) :
    HostInv t := by
  obtain ⟨j, entry, hpc, hcase⟩ := check_cases hr
  have hj : s.job = some j := by rw [job, hpc]
  have hu : s.underWay = some (some (j.transfer entry)) := by rw [underWay, hpc]
  have hmine : ∀ x, s.underWay = some (some x) → x = j.transfer entry := by
    intro x hx
    exact Option.some.inj (Option.some.inj (hx.symm.trans hu))
  have hok := hok (j, entry) (by rw [tested, hpc]; rfl)
  rcases hcase with ⟨hpos, rfl⟩ | ⟨hpos, rfl⟩
  · rw [if_pos hpos] at hok
    refine h.finish hj _ rfl ?_ ?_
    · intro x hx
      cases hx
      rfl
    · intro x _ hx
      exact ⟨by rw [hmine x hx], hok⟩
  · rw [if_neg hpos] at hok
    refine h.advance _ ?_ ?_
    · intro j' hj'
      cases hj'
      exact ⟨j, hj, rfl⟩
    · intro x hlive hx
      rw [hmine x hx] at hlive
      exact absurd hlive hok

theorem serve_caller {k : StreamId} {answers : Answers} (hr : s.serve k answers = some t) :
    t.pc = s.pc ∧ t.results = s.results ∧ t.calls = s.calls := by
  obtain ⟨_, _, _, _, _, -, rfl⟩ := serve_cases hr
  exact ⟨rfl, rfl, rfl⟩

theorem step_hostInv (s : System) (l : Label) (t : System) (hi : Placed s ∧ HostInv s)
    (hok : GivesUpSafely s l) (hr : step machineId s l = some t) : Placed t ∧ HostInv t := by
  obtain ⟨hp, h⟩ := hi
  refine ⟨step_placed s l t hp hr, ?_⟩
  rcases step_cases hr with
    hq | ⟨lpid, rpid, hc⟩ | hc | ⟨ok, hc⟩ | hc | ⟨rfl, hc⟩ | ⟨k, answers, hc⟩
  · exact h.frame (fun x hx => hx.of_links hq.links hq.served) hq.pc hq.results hq.calls
  · exact call_hostInv h hc
  · exact choose_hostInv h hc
  · exact write_hostInv h hc
  · exact endWait_hostInv h hc
  · exact check_hostInv h hok hc
  · obtain ⟨hpc, hres, hcalls⟩ := serve_caller hc
    exact h.frame (fun x hx => hx.of_serve hc) hpc hres hcalls

/-- **A match is hosted at most once**, and nowhere when the call returns -1, in every
run in which attempts are given up safely. -/
theorem hosted_once (machineId : BattleId → Nat) (battles : BattleId → MyBattle)
    (labels : List Label) {s : System}
    (hok : Meets (step machineId) GivesUpSafely (start battles) labels)
    (hr : run (step machineId) (start battles) labels = some s) : HostedOnce s := by
  obtain ⟨hp, hi⟩ :=
    run_invariant step_hostInv ⟨start_placed battles, start_hostInv battles⟩ hok hr
  exact hi.hostedOnce hp

/-- The database behind server 1 is out of reach: it answers 0, is given up, and
server 2 hosts the match. -/
theorem hosted_once_refused :
    ∃ s, run (step (· + 1)) (start twoServers)
        (register 0 ++ register 1 ++ [.call 10 20] ++ attempt ++
          report 0 refusing ++ [.endWait, .check] ++ attempt ++
          report 1 answering ++ [.endWait, .check]) = some s ∧
      s.results.map (·.value) = [2] ∧ s.served.length = 2 ∧ HostedOnce s := by
  have hr : ∃ s, run (step (· + 1)) (start twoServers)
        (register 0 ++ register 1 ++ [.call 10 20] ++ attempt ++
          report 0 refusing ++ [.endWait, .check] ++ attempt ++
          report 1 answering ++ [.endWait, .check]) = some s ∧
      s.results.map (·.value) = [2] ∧ s.served.length = 2 := exists_run_of_any (by decide +kernel)
  obtain ⟨s, hs, hv, hn⟩ := hr
  exact ⟨s, hs, hv, hn, hosted_once _ _ _ (by decide +kernel) hs⟩

/-- Server 1 does not read its transfer before the timeout; then both servers read
theirs, and both register a game. -/
theorem hosted_twice :
    ∃ s, run (step (· + 1)) (start twoServers)
        (register 0 ++ register 1 ++ [.call 10 20] ++ attempt ++ [.endWait, .check] ++ attempt ++
          [.serve 0 answering, .serve 1 answering]) = some s ∧
      ¬ HostedOnce s :=
  exists_run_of_any (by decide +kernel)

end System
end DrgbServer.Match
