import DrgbServer.Match.Attribution

/-! # The registered streams

A `SessionStream` handler looks its machine id up, inserts it with its stream and erases it by
the id when it ends; the result of the insertion is not looked at. `exclusive_iff` says in which
runs the registrations are those of the running handlers, each with its own stream.

What is registered always belongs to a running handler, but `TransferMatch` works on a snapshot:
it keeps the pointers while the handlers may end. `run_writes_live` says when it writes to live
streams only. -/
namespace DrgbServer.Match
open DrgbServer.Utils DrgbServer.Battle DrgbServer.Lib.Transition

/-- The id of a handler past its `Insert` and not past its `EraseLKey`. -/
def HandlerPc.registered : HandlerPc → Option Seed
  | .reading id | .locking id _ | .holding id | .leaving id => some id
  | .entered | .named _ | .returned => none

/-- The id of a handler before its `Insert`. -/
def HandlerPc.announced : HandlerPc → Option Seed
  | .named id => some id
  | _ => none

namespace System
variable {machineId : BattleId → Nat} {s t : System}

/-- The id the handler of a stream works under. -/
def idOf (s : System) (k : StreamId) : Option Seed := s.links[k]?.bind fun link => link.pc.registered

/-- The handler has not returned. -/
def live (s : System) (k : StreamId) : Bool := s.links[k]?.any fun link => link.pc ≠ .returned

theorem live_of_idOf {k : StreamId} {id : Seed} (h : s.idOf k = some id) : s.live k = true := by
  obtain ⟨link, hk, hr⟩ := Option.bind_eq_some_iff.mp h
  have hne : link.pc ≠ .returned := by
    intro he
    rw [he] at hr
    cases hr
  simp [live, hk, hne]

/-! ## What a step does to the registrations -/

/-- After an update of one link the handlers work under the ids they had, but for its own. -/
theorem idOf_setLink {k : StreamId} {link link' : Link} (hk : s.links[k]? = some link)
    (hl : t.links = (s.setLink k link').links) :
    t.idOf = Function.update s.idOf k link'.pc.registered := by
  funext j
  unfold idOf
  rw [hl]
  by_cases hj : j = k
  · subst hj
    rw [setLink_self hk, Function.update_self]
    rfl
  · rw [setLink_other hj, Function.update_of_ne hj]

theorem idOf_of_pc {k : StreamId} {link : Link} (hk : s.links[k]? = some link) :
    s.idOf k = link.pc.registered := by
  rw [idOf, hk]
  rfl

/-- An update of one link under which its handler works under the same id. -/
theorem idOf_setLink_same {k : StreamId} {link link' : Link} (hk : s.links[k]? = some link)
    (hl : t.links = (s.setLink k link').links)
    (hr : link'.pc.registered = link.pc.registered) : t.idOf = s.idOf := by
  rw [idOf_setLink hk hl, hr, ← idOf_of_pc hk, Function.update_eq_self]

theorem idOf_connect (battle : BattleId) : (s.connect machineId battle).idOf = s.idOf := by
  funext k
  unfold idOf
  rw [connect, List.getElem?_append]
  split
  · rfl
  · rename_i hk
    have hnone : s.links[k]? = none := List.getElem?_eq_none (by omega)
    rw [hnone]
    rcases k - s.links.length with _ | i
    · simp only [List.getElem?_cons_zero, Option.bind_some, Option.bind_none]
      split <;> rfl
    · rfl

/-- **What a step does** to the registrations and the ids of the handlers: nothing, an `Insert`,
a new usage, or an `EraseLKey`. -/
theorem step_streams {l : Label} (h : step machineId s l = some t) :
    (t.streams = s.streams ∧ t.idOf = s.idOf) ∨
    (∃ k link id, l = .insert k ∧ s.links[k]? = some link ∧ link.pc = .named id ∧
      t.streams = (s.streams.insert id k 0).2 ∧ t.idOf = Function.update s.idOf k (some id)) ∨
    (∃ k id usage, l = .readUsage k ∧ s.idOf k = some id ∧
      t.streams = (s.streams.insertLKeyValue id usage).2 ∧ t.idOf = s.idOf) ∨
    (∃ k id, l = .erase k ∧ s.idOf k = some id ∧
      t.streams = (s.streams.eraseLKey id).2 ∧ t.idOf = Function.update s.idOf k none) := by
  cases l with
  | connect battle =>
    cases h
    exact .inl ⟨rfl, idOf_connect battle⟩
  | readId k =>
    obtain ⟨battle, toBattle, msg, toMatch, hk, rfl⟩ := readId_cases h
    refine .inl ⟨rfl, idOf_setLink_same hk rfl ?_⟩
    dsimp only
    split <;> rfl
  | insert k =>
    obtain ⟨battle, id, toBattle, toMatch, hk, rfl⟩ := insert_cases h
    exact .inr (.inl ⟨k, _, id, rfl, hk, rfl, rfl, idOf_setLink hk rfl⟩)
  | readFlag k =>
    obtain ⟨_, _, _, _, _, hk, rfl⟩ := readFlag_cases h
    exact .inl ⟨rfl, idOf_setLink_same hk rfl rfl⟩
  | storeFlag k =>
    obtain ⟨-, _, _, _, _, _, hk, rfl⟩ := storeFlag_cases h
    exact .inl ⟨rfl, idOf_setLink_same hk rfl rfl⟩
  | readUsage k =>
    obtain ⟨battle, id, toBattle, msg, toMatch, hk, rfl⟩ := readUsage_cases h
    exact .inr (.inr (.inl ⟨k, id, msg.usage, rfl, idOf_of_pc hk, rfl,
      idOf_setLink_same hk rfl rfl⟩))
  | lost k =>
    rcases lost_cases h with ⟨_, _, _, hk, rfl⟩ | ⟨_, _, _, _, hk, rfl⟩ | ⟨_, _, _, _, hk, rfl⟩
    all_goals exact .inl ⟨rfl, idOf_setLink_same hk rfl rfl⟩
  | erase k =>
    obtain ⟨battle, id, toBattle, toMatch, hk, rfl⟩ := erase_cases h
    exact .inr (.inr (.inr ⟨k, id, rfl, idOf_of_pc hk, rfl, idOf_setLink hk rfl⟩))
  | call lpid rpid =>
    obtain ⟨-, rfl⟩ := call_cases h
    exact .inl ⟨rfl, rfl⟩
  | choose =>
    obtain ⟨_, -, ⟨-, rfl⟩ | ⟨_, _, -, rfl⟩⟩ := choose_cases h <;> exact .inl ⟨rfl, rfl⟩
  | write ok =>
    obtain ⟨_, _, -, rfl | ⟨link, hk, rfl⟩⟩ := write_cases h
    · exact .inl ⟨rfl, rfl⟩
    · exact .inl ⟨rfl, idOf_setLink_same hk rfl rfl⟩
  | endWait =>
    obtain ⟨_, _, -, rfl⟩ := endWait_cases h
    exact .inl ⟨rfl, rfl⟩
  | check =>
    obtain ⟨_, _, -, ⟨-, rfl⟩ | ⟨-, rfl⟩⟩ := check_cases h <;> exact .inl ⟨rfl, rfl⟩
  | serve k answers =>
    obtain ⟨_, _, _, _, _, hk, rfl⟩ := serve_cases h
    exact .inl ⟨rfl, idOf_setLink_same hk rfl rfl⟩
  | battleRuns battle state =>
    cases h
    exact .inl ⟨rfl, rfl⟩
  | drop k =>
    obtain ⟨link, hk, rfl⟩ := drop_cases h
    exact .inl ⟨rfl, idOf_setLink_same hk rfl rfl⟩

/-! ## Registration -/

/-- What is registered is the stream of a handler that works under the id. -/
def Owned (s : System) : Prop :=
  ∀ id k usage, s.streams.findLKey id = some (k, usage) → s.idOf k = some id

/-- Every handler past its `Insert` is registered with its own stream. -/
def Registered (s : System) : Prop :=
  ∀ id k, s.idOf k = some id → ∃ usage, s.streams.findLKey id = some (k, usage)

/-- **Exclusive registration**: the ids in `streams` belong to running handlers, every handler
past its `Insert` and not past its `EraseLKey` is registered under its own stream, and the end of
a handler leaves the registrations and usages of the others as they are. -/
structure Exclusive (machineId : BattleId → Nat) (s : System) : Prop where
  running : ∀ id k usage, s.streams.findLKey id = some (k, usage) → s.live k = true
  registered : s.Registered
  undisturbed : ∀ k t, step machineId s (.lost k) = some t ∨ step machineId s (.erase k) = some t →
    ∀ j ≠ k, ∀ id, s.idOf j = some id → t.streams.findLKey id = s.streams.findLKey id

/-- The condition on a step: a handler that inserts its id finds it still absent. -/
def vacant (s : System) : Label → Bool
  | .insert k => (s.links[k]?.bind fun link => link.pc.announced).all fun id =>
    (s.streams.findLKey id).isNone
  | _ => true

theorem start_owned (battles : BattleId → MyBattle) : (start battles).Owned := by
  intro id k usage h
  simp [start] at h

theorem start_registered (battles : BattleId → MyBattle) : (start battles).Registered := by
  intro id k h
  simp [start, idOf] at h

/-- Nobody is registered with the stream of a handler before its `Insert`. -/
theorem Owned.findRKey (h : s.Owned) {k : StreamId} (hk : s.idOf k = none) :
    s.streams.findRKey k = none := by
  rw [Table.findRKey_eq_none_iff]
  intro id usage hid
  rw [h id k usage hid] at hk
  cases hk

theorem step_owned {l : Label} (h : s.Owned) (hs : step machineId s l = some t) : t.Owned := by
  rcases step_streams hs with ⟨ht, hi⟩ | ⟨k, link, id, -, hk, hpc, ht, hi⟩ |
    ⟨k, id, u, -, hk, ht, hi⟩ | ⟨k, id, -, hk, ht, hi⟩
  · rw [Owned, ht, hi]
    exact h
  · have hnone : s.idOf k = none := by rw [idOf_of_pc hk, hpc]; rfl
    intro id' j usage hj
    rw [ht] at hj
    rw [hi]
    rcases Table.findLKey_of_insert hj with ⟨rfl, rfl, -⟩ | hj
    · rw [Function.update_self]
    · have hid := h id' j usage hj
      have hne : j ≠ k := by
        rintro rfl
        rw [hnone] at hid
        cases hid
      rw [Function.update_of_ne hne]
      exact hid
  · intro id' j usage hj
    rw [ht, Table.findLKey_insertLKeyValue] at hj
    rw [hi]
    split at hj
    · rename_i he
      subst he
      obtain ⟨⟨j', u'⟩, hj', hju⟩ := Option.map_eq_some_iff.mp hj
      cases hju
      exact h _ _ _ hj'
    · exact h _ _ _ hj
  · intro id' j usage hj
    rw [ht, Table.findLKey_eraseLKey] at hj
    rw [hi]
    split at hj
    · cases hj
    · rename_i hne
      have hid := h id' j usage hj
      have hjk : j ≠ k := by
        rintro rfl
        rw [hk] at hid
        exact hne (Option.some.inj hid).symm
      rw [Function.update_of_ne hjk]
      exact hid

/-- Two handlers do not work under one id. -/
theorem Registered.injective (h : s.Registered) {j k : StreamId} {id : Seed}
    (hj : s.idOf j = some id) (hk : s.idOf k = some id) : j = k := by
  obtain ⟨u, hu⟩ := h id j hj
  obtain ⟨v, hv⟩ := h id k hk
  rw [hu] at hv
  cases hv
  rfl

theorem exclusive_of_registered (ho : s.Owned) (hr : s.Registered) : Exclusive machineId s where
  running id k usage h := live_of_idOf (ho id k usage h)
  registered := hr
  undisturbed k t hs j hj id hid := by
    have hstep : t.streams = s.streams ∨
        ∃ id', s.idOf k = some id' ∧ t.streams = (s.streams.eraseLKey id').2 := by
      rcases hs with hs | hs
      · rcases step_streams hs with ⟨ht, -⟩ | ⟨_, _, _, he, -⟩ | ⟨_, _, _, he, -⟩ | ⟨_, _, he, -⟩
        · exact .inl ht
        · cases he
        · cases he
        · cases he
      · rcases step_streams hs with ⟨ht, -⟩ | ⟨_, _, _, he, -⟩ | ⟨_, _, _, he, -⟩ |
          ⟨k', id', he, hk, ht, -⟩
        · exact .inl ht
        · cases he
        · cases he
        · cases he
          exact .inr ⟨id', hk, ht⟩
    rcases hstep with ht | ⟨id', hk, ht⟩
    · rw [ht]
    · rw [ht, Table.findLKey_eraseLKey, if_neg]
      rintro rfl
      exact hj (hr.injective hid hk)

theorem step_registered {l : Label} (ho : s.Owned) (hr : s.Registered) (hv : s.vacant l = true)
    (hs : step machineId s l = some t) : t.Registered := by
  rcases step_streams hs with ⟨ht, hi⟩ | ⟨k, link, id, rfl, hk, hpc, ht, hi⟩ |
    ⟨k, id, u, -, hk, ht, hi⟩ | ⟨k, id, -, hk, ht, hi⟩
  · rw [Registered, ht, hi]
    exact hr
  · have hnone : s.idOf k = none := by rw [idOf_of_pc hk, hpc]; rfl
    have habsent : s.streams.findLKey id = none := by
      simpa [vacant, hk, hpc, HandlerPc.announced] using hv
    have hins : (s.streams.insert id k 0).1 = true :=
      Table.insert_fst.mpr ⟨habsent, ho.findRKey hnone⟩
    intro id' j hj
    rw [hi] at hj
    rw [ht, Table.findLKey_insert hins]
    by_cases hjk : j = k
    · subst hjk
      rw [Function.update_self] at hj
      cases hj
      exact ⟨0, if_pos rfl⟩
    · rw [Function.update_of_ne hjk] at hj
      obtain ⟨usage, hu⟩ := hr id' j hj
      have hne : id' ≠ id := by
        rintro rfl
        rw [habsent] at hu
        cases hu
      exact ⟨usage, by rw [if_neg hne]; exact hu⟩
  · intro id' j hj
    rw [hi] at hj
    obtain ⟨usage, hu⟩ := hr id' j hj
    rw [ht, Table.findLKey_insertLKeyValue]
    split
    · rename_i he
      subst he
      rw [hu]
      exact ⟨u, rfl⟩
    · exact ⟨usage, hu⟩
  · intro id' j hj
    rw [hi] at hj
    have hjk : j ≠ k := by
      rintro rfl
      rw [Function.update_self] at hj
      cases hj
    rw [Function.update_of_ne hjk] at hj
    obtain ⟨usage, hu⟩ := hr id' j hj
    rw [ht, Table.findLKey_eraseLKey, if_neg]
    · exact ⟨usage, hu⟩
    · rintro rfl
      exact hjk (hr.injective hj hk)

/-- A handler whose `Insert` is refused goes on without a registration. -/
theorem insert_not_registered {k : StreamId} (ho : s.Owned) (hv : ¬ s.vacant (.insert k) = true)
    (hs : s.insert k = some t) : ¬ t.Registered := by
  obtain ⟨battle, id, toBattle, toMatch, hk, rfl⟩ := insert_cases hs
  have hnone : s.idOf k = none := idOf_of_pc hk
  have hpresent : s.streams.findLKey id ≠ none := by
    simpa [vacant, hk, HandlerPc.announced] using hv
  have hins : (s.streams.insert id k 0).1 = false := by
    rw [← Bool.not_eq_true, Table.insert_fst]
    exact fun h => hpresent h.1
  intro hr
  obtain ⟨usage, hu⟩ :=
    hr id k (Eq.trans (congrFun (idOf_setLink hk rfl) k) (Function.update_self ..))
  have hu : (s.streams.insert id k 0).2.findLKey id = some (k, usage) := hu
  rw [Table.insert_of_refused hins] at hu
  rw [ho id k usage hu] at hnone
  cases hnone

/-- **Stream registration** is exclusive along a run if and only if every handler that reaches its
`Insert` finds its machine id still absent. -/
theorem exclusive_iff (machineId : BattleId → Nat) (battles : BattleId → MyBattle)
    (labels : List Label) :
    Always (step machineId) (Exclusive machineId) (start battles) labels ↔
      Meets (step machineId) (fun s l => s.vacant l = true) (start battles) labels := by
  refine always_iff_meets (I := fun s => s.Owned ∧ s.Registered) ?_ ?_ ?_ labels
    ⟨start_owned battles, start_registered battles⟩
  · intro s h
    exact exclusive_of_registered h.1 h.2
  · intro s l t h hv hs
    exact ⟨step_owned h.1 hs, step_registered h.1 h.2 hv hs⟩
  · intro s l t h hv hs he
    cases l with
    | insert k => exact insert_not_registered h.1 hv hs he.registered
    | connect battle => exact hv rfl
    | readId k => exact hv rfl
    | readFlag k => exact hv rfl
    | storeFlag k => exact hv rfl
    | readUsage k => exact hv rfl
    | lost k => exact hv rfl
    | erase k => exact hv rfl
    | call lpid rpid => exact hv rfl
    | choose => exact hv rfl
    | write ok => exact hv rfl
    | endWait => exact hv rfl
    | check => exact hv rfl
    | serve k answers => exact hv rfl
    | battleRuns battle state => exact hv rfl
    | drop k => exact hv rfl

/-- Two connections of one battle server: both look the id up before either inserts it, and the
end of the second removes the registration of the first, which is still running. -/
theorem reconnect_not_exclusive :
    ∃ s, run (step fun _ => 7) (start twoServers)
        [.connect 0, .connect 0, .readId 0, .readId 1, .insert 0, .insert 1, .lost 1, .erase 1] =
          some s ∧
      s.idOf 0 = some 7 ∧ s.streams.findLKey 7 = none ∧ ¬ Exclusive (fun _ => 7) s := by
  have h : ∃ s, run (step fun _ => 7) (start twoServers)
        [.connect 0, .connect 0, .readId 0, .readId 1, .insert 0, .insert 1, .lost 1, .erase 1] =
          some s ∧
      s.idOf 0 = some 7 ∧ s.streams.findLKey 7 = none := exists_run_of_any (by decide +kernel)
  obtain ⟨s, hr, hid, hnone⟩ := h
  refine ⟨s, hr, hid, hnone, fun he => ?_⟩
  obtain ⟨usage, hu⟩ := he.registered 7 0 hid
  rw [hnone] at hu
  cases hu

/-! ## Writes to live streams -/

/-- The streams a running `TransferMatch` has still to write to. -/
def pending (s : System) : List StreamId :=
  match s.pc with
  | .idle => []
  | .choosing job | .waiting job _ | .checking job _ => job.vec.map fun e => e.2.1
  | .writing job entry => entry.2.1 :: job.vec.map fun e => e.2.1

/-- The stream of the next `Write`. -/
def target (s : System) : Option StreamId :=
  match s.pc with
  | .writing _ entry => some entry.2.1
  | _ => none

/-- A `Write` goes to a stream whose handler has not returned. -/
def writesLive (s : System) : Label → Bool
  | .write _ => s.target.all s.live
  | _ => true

/-- The condition on a step: no handler returns while a running `TransferMatch` has its stream
still to write to. -/
def considerate (s : System) : Label → Bool
  | .erase k => !s.pending.contains k
  | _ => true

/-- The streams to write to are those of handlers past their `Insert`. -/
def PendingLive (s : System) : Prop := ∀ k ∈ s.pending, ∃ id, s.idOf k = some id

/-- A stream still to write to was so before, or comes from the snapshot of a new call. -/
theorem step_pending {l : Label} (h : step machineId s l = some t) {k : StreamId}
    (hk : k ∈ t.pending) :
    k ∈ s.pending ∨ ∃ id usage, t.streams.findLKey id = some (k, usage) := by
  rcases step_cases h with hq | ⟨lpid, rpid, hc⟩ | hc | ⟨ok, hc⟩ | hc | ⟨-, hc⟩ | ⟨j, answers, hc⟩
  · rw [pending, hq.pc] at hk
    exact .inl hk
  · obtain ⟨-, rfl⟩ := call_cases hc
    obtain ⟨⟨id, j, usage⟩, he, rfl⟩ := List.mem_map.mp hk
    exact .inr ⟨id, usage, Table.mem_getAll.mp he⟩
  · obtain ⟨job, hpc, ⟨-, rfl⟩ | ⟨entry, rest, hm, rfl⟩⟩ := choose_cases hc
    · cases hk
    · obtain ⟨e, he, rfl⟩ := List.mem_map.mp (show k ∈ (entry :: rest).map fun e => e.2.1 from hk)
      rw [pending, hpc]
      exact .inl (List.mem_map.mpr ⟨e, mem_of_minElement hm e he, rfl⟩)
  · obtain ⟨job, entry, hpc, hcase⟩ := write_cases hc
    rw [pending, hpc]
    rcases hcase with rfl | ⟨_, -, rfl⟩
    · exact .inl (List.mem_cons_of_mem _ hk)
    · exact .inl (List.mem_cons_of_mem _ hk)
  · obtain ⟨job, entry, hpc, rfl⟩ := endWait_cases hc
    rw [pending, hpc]
    exact .inl hk
  · obtain ⟨job, entry, hpc, ⟨-, rfl⟩ | ⟨-, rfl⟩⟩ := check_cases hc
    · cases hk
    · rw [pending, hpc]
      exact .inl hk
  · obtain ⟨_, _, _, _, _, -, rfl⟩ := serve_cases hc
    exact .inl hk

theorem step_pendingLive {l : Label} (ho : s.Owned) (hp : s.PendingLive)
    (hc : s.considerate l = true) (h : step machineId s l = some t) : t.PendingLive := by
  intro k hk
  rcases step_pending h hk with hk | ⟨id, usage, hu⟩
  · obtain ⟨id, hid⟩ := hp k hk
    rcases step_streams h with ⟨-, hi⟩ | ⟨j, link, id', -, -, -, -, hi⟩ | ⟨_, _, _, -, -, -, hi⟩ |
      ⟨j, id', rfl, -, -, hi⟩
    · exact ⟨id, by rw [hi]; exact hid⟩
    · by_cases hkj : k = j
      · exact ⟨id', by rw [hi, hkj, Function.update_self]⟩
      · exact ⟨id, by rw [hi, Function.update_of_ne hkj]; exact hid⟩
    · exact ⟨id, by rw [hi]; exact hid⟩
    · have hkj : k ≠ j := by
        rintro rfl
        simp [considerate, hk] at hc
      exact ⟨id, by rw [hi, Function.update_of_ne hkj]; exact hid⟩
  · exact ⟨id, step_owned ho h id k usage hu⟩

theorem PendingLive.writesLive (h : s.PendingLive) (l : Label) : s.writesLive l = true := by
  cases l with
  | write ok =>
    rw [System.writesLive, target]
    split
    · rename_i job entry hpc
      obtain ⟨id, hid⟩ := h entry.2.1 (by rw [pending, hpc]; exact List.mem_cons_self)
      exact live_of_idOf hid
    · rfl
  | _ => rfl

/-- **`TransferMatch` writes to live streams only**, in every run in which no handler returns
while a running `TransferMatch` has its stream still to write to. -/
theorem run_writes_live (machineId : BattleId → Nat) (battles : BattleId → MyBattle)
    (labels : List Label)
    (h : Meets (step machineId) (fun s l => s.considerate l = true) (start battles) labels) :
    Meets (step machineId) (fun s l => s.writesLive l = true) (start battles) labels := by
  refine meets_of_meets (I := fun s => s.Owned ∧ s.PendingLive) ?_ ?_
    ⟨start_owned battles, ?_⟩ h
  · intro s l hi _
    exact hi.2.writesLive l
  · intro s l t hi hc hs
    exact ⟨step_owned hi.1 hs, step_pendingLive hi.1 hi.2 hc hs⟩
  · intro k hk
    cases hk

/-- Two servers, two attempts of one call, and a handler that ends after it was tried. -/
def twoAttempts : List Label :=
  register 0 ++ register 1 ++ [.call 10 20] ++ attempt ++ [.lost 0, .erase 0, .endWait, .check] ++
    attempt

theorem run_writes_live_twoAttempts :
    Meets (step Nat.succ) (fun s l => s.considerate l = true) (start twoServers) twoAttempts ∧
      Meets (step Nat.succ) (fun s l => s.writesLive l = true) (start twoServers) twoAttempts := by
  have h : Meets (step Nat.succ) (fun s l => s.considerate l = true) (start twoServers)
      twoAttempts := by
    decide +kernel
  exact ⟨h, run_writes_live Nat.succ twoServers twoAttempts h⟩

/-- A server whose connection ends between the choice and the `Write`: its handler has returned,
and the pointer of the snapshot is used. -/
theorem write_after_return :
    ¬ Meets (step Nat.succ) (fun s l => s.writesLive l = true) (start twoServers)
      (register 0 ++ [.call 10 20, .choose, .lost 0, .erase 0, .write true]) := by
  decide +kernel

end System
end DrgbServer.Match
