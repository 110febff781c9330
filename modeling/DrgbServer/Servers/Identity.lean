import DrgbServer.Lib.Transition
import DrgbServer.Redis.Provenance
import DrgbServer.Servers.Handlers

/-! # A cookie stands for one account

The auth server issues a cookie for an account that has logged in. From there it goes
through Redis, the `sessions` of the match server, those of a battle server and back, in
any order of the handlers' commands. Along all these ways the account with it stays the
account it was issued for, and the server that Redis has for it is the match server or a
battle server that it was transferred to. -/
namespace DrgbServer.Servers
open DrgbServer.Utils DrgbServer.Lib.Redis DrgbServer.Lib.Transition DrgbServer.Redis
open DrgbServer.Redis.MyRedis
open DrgbServer.Network (SocketId)
open DrgbServer.Battle (Sides)

/-- The cookies the auth server makes for an account: a digest of the account and the
clock, or the digest of a cookie that Redis knew already. -/
inductive Made (sha256 : List Byte → Hash) (hashed : List (List Byte)) : AccountId → Hash → Prop
  | first {accountId : AccountId} {now : Nat} (hid : accountId < 2 ^ 64)
      (h : Cluster.message (.check accountId (image 8 now)) ∈ hashed) :
      Made sha256 hashed accountId (sha256 (Cluster.message (.check accountId (image 8 now))))
  | again {accountId : AccountId} {cookie : Hash} (hc : Made sha256 hashed accountId cookie)
      (h : cookie.toList ∈ hashed) : Made sha256 hashed accountId (sha256 cookie.toList)

/-- The links a handler has in its variables. -/
def Stage.carried : Stage → List (AccountId × Hash)
  | .login (.store accountId cookie) => [(accountId, cookie)]
  | .refreshLeft ids cookie => [(ids.left, cookie)]
  | .refreshRight ids left cookie => (ids.right, cookie) :: left.toList.map fun l => (ids.left, l)
  | .relocateLeft ids cookies _ | .relocateRight ids cookies _ =>
    [(ids.left, cookies.left), (ids.right, cookies.right)]
  | .sendBack accountId cookie => [(accountId, cookie)]
  | .transferRight _ ids left => left.toList.map fun l => (ids.left, l)
  | .release _ _ accountId cookie _ | .clear _ _ accountId cookie _ => [(accountId, cookie)]
  | _ => []

/-- The battle servers a handler moves sessions to. -/
def Stage.destined : Stage → List (Hash × Nat)
  | .relocateLeft _ cookies machineId | .relocateRight _ cookies machineId =>
    [(cookies.left, machineId), (cookies.right, machineId)]
  | _ => []

/-- What a login that has not chosen its cookie yet works on. -/
def Stage.Prepared (sha256 : List Byte → Hash) (c : Cluster) : Stage → Prop
  | .login (.check accountId now) =>
    accountId ∈ c.loggedIn ∧ accountId < 2 ^ 64 ∧ ∃ n, now = image 8 n
  | .login (.probe accountId cookie) =>
    accountId ∈ c.loggedIn ∧ Made sha256 c.hashed accountId cookie
  | _ => True

/-- The block a handler's call executes. -/
def Stage.Block (stage : Stage) (block : List Command) : Prop :=
  ∃ call, stage.call = some call ∧ call.Block block

/-- The link and the place a handler's call returns are issued. -/
def Stage.Truth (issued : Issue) (stage : Stage) (answer : Answer) : Prop :=
  ∀ call, stage.call = some call → call.Truth issued answer

/-- Every entry is an issued link. -/
def Held {V : Type} [Inhabited V] (issued : AccountId → Hash → Prop)
    (t : Table AccountId Hash V) : Prop :=
  ∀ id cookie v, t.findLKey id = some (cookie, v) → issued id cookie

namespace Cluster

def links (c : Cluster) (id : AccountId) (cookie : Hash) : Prop := (id, cookie) ∈ c.issued

/-- A cookie leads to the match server, or to a battle server that a transfer has taken it to. -/
def leads (c : Cluster) (cookie : Hash) (serverName : Text) : Prop :=
  serverName = Redis.keywordMatch.text ∨
    ∃ machineId, (cookie, machineId) ∈ c.transfers ∧ serverName = (battleName machineId).text

def issue (c : Cluster) : Issue := ⟨c.links, c.leads⟩

/-- What the servers hold: what was issued only. -/
structure Sound (sha256 : List Byte → Hash) (c : Cluster) : Prop where
  made : ∀ id cookie, c.links id cookie → id ∈ c.loggedIn ∧ Made sha256 c.hashed id cookie
  sessions : Held c.links c.sessions
  battles : ∀ machineId, Held c.links (c.battles machineId)
  replied : ∀ id cookie serverName, (id, cookie, serverName) ∈ c.replied →
    c.links id cookie ∧ c.leads cookie serverName
  admitted : ∀ server id cookie, (server, id, cookie) ∈ c.admitted →
    c.links id cookie ∧ c.leads cookie server.keyword.text

/-- What a handler holds. -/
structure Holds (sha256 : List Byte → Hash) (c : Cluster) (stage : Stage) : Prop where
  carried : ∀ link ∈ stage.carried, c.links link.1 link.2
  destined : ∀ place ∈ stage.destined, place ∈ c.transfers
  prepared : stage.Prepared sha256 c

/-- The invariant: with the store, and the handlers under way in Redis. -/
structure Inv (sha256 : List Byte → Hash) (c : Cluster) : Prop where
  sound : c.Sound sha256
  genuine : Genuine c.issue c.redis.db
  holds : ∀ k ∈ c.redis.clients, c.Holds sha256 k.stage
  guarded : ∀ k ∈ c.redis.clients, k.Guarded Stage.Block
  answers : ∀ k ∈ c.redis.clients, k.Answers Told Stage.Truth c.issue

/-- Some handler's step: what was issued and hashed stays so. -/
structure Grows (c d : Cluster) : Prop where
  redis : d.redis = c.redis
  loggedIn : ∀ id ∈ c.loggedIn, id ∈ d.loggedIn
  hashed : ∀ text ∈ c.hashed, text ∈ d.hashed
  issued : c.links ≤ d.links
  transfers : ∀ place ∈ c.transfers, place ∈ d.transfers

end Cluster

variable {sha256 : List Byte → Hash} {hashed hashed' : List (List Byte)}
  {issued issued' : AccountId → Hash → Prop}
  {c d : Cluster} {stage : Stage} {x : Choice} {answer : Answer}

/-! ## Cookies -/

theorem Made.mono {id : AccountId} {cookie : Hash} (h : Made sha256 hashed id cookie)
    (hsub : ∀ text ∈ hashed, text ∈ hashed') : Made sha256 hashed' id cookie := by
  induction h with
  | first hid h => exact .first hid (hsub _ h)
  | again hc h ih => exact .again ih (hsub _ h)

theorem message_check (accountId now : Nat) :
    Cluster.message (.check accountId (image 8 now)) = image 8 accountId ++ image 8 now := by
  simp [Cluster.message, ByteQueue.create, ByteQueue.push, ByteQueue.empty, ByteQueue.add,
    ByteQueue.oriented]

/-- **Where SHA-256 has no collision among the texts hashed, a cookie is made for one
account only**: the first text of an account has 16 bytes and begins with the account, every
later one is a digest. -/
theorem Made.unique (hinj : Set.InjOn sha256 {text | text ∈ hashed}) {a b : AccountId}
    {cookie : Hash} (ha : Made sha256 hashed a cookie) (hb : Made sha256 hashed b cookie) :
    a = b := by
  have hlengths : ∀ (id now : Nat) (digest : Hash),
      Cluster.message (.check id (image 8 now)) ≠ digest.toList := by
    intro id now digest h
    have hlen := congrArg List.length h
    rw [message_check] at hlen
    simp at hlen
  induction ha generalizing b with
  | @first now hid h =>
    generalize hcookie : sha256 (Cluster.message (.check a (image 8 now))) = cookie at hb
    cases hb with
    | @first now' hid' h' =>
      have heq := hinj h h' hcookie
      rw [message_check, message_check] at heq
      have himage := (List.append_inj heq (by simp)).1
      have hvalue := congrArg ofImage himage
      rwa [ofImage_image (by omega), ofImage_image (by omega)] at hvalue
    | @again digest hb h' => exact absurd (hinj h h' hcookie) (hlengths a now digest)
  | @again digest ha h ih =>
    generalize hcookie : sha256 digest.toList = cookie at hb
    cases hb with
    | @first now hid h' => exact absurd (hinj h' h hcookie.symm) (hlengths b now digest)
    | @again digest' hb h' =>
      have heq := Vector.toList_inj.mp (hinj h h' hcookie)
      subst heq
      exact ih hb

/-! ## Tables -/

section Tables
variable {V : Type} [Inhabited V] {t : Table AccountId Hash V} {id : AccountId} {cookie : Hash}
  {v : V}

theorem Held.mono (h : Held issued t) (hle : issued ≤ issued') : Held issued' t :=
  fun id cookie v hf => hle id cookie (h id cookie v hf)

theorem held_empty : Held issued (Table.empty : Table AccountId Hash V) := by
  intro id cookie v h
  rw [Table.findLKey_empty] at h
  cases h

theorem Held.insert (h : Held issued t) (hi : issued id cookie) :
    Held issued (t.insert id cookie v).2 := by
  intro id' cookie' v' hf
  rcases Table.findLKey_of_insert hf with ⟨rfl, rfl, _⟩ | hf
  · exact hi
  · exact h id' cookie' v' hf

theorem Held.insertLKeyValue (h : Held issued t) : Held issued (t.insertLKeyValue id v).2 := by
  intro id' cookie' v' hf
  rw [Table.findLKey_insertLKeyValue] at hf
  split at hf
  · rename_i heq
    obtain ⟨⟨old, w⟩, hold, hnew⟩ := Option.map_eq_some_iff.mp hf
    cases hnew
    rw [heq]
    exact h id old w hold
  · exact h id' cookie' v' hf

theorem Held.eraseLKey (h : Held issued t) (id : AccountId) : Held issued (t.eraseLKey id).2 := by
  intro id' cookie' v' hf
  rw [Table.findLKey_eraseLKey] at hf
  split at hf
  · cases hf
  · exact h id' cookie' v' hf

/-- The triple that an erasure returns. -/
theorem Held.erased (h : Held issued t) {id' : AccountId}
    (he : (t.eraseLKey id).1 = some (id', cookie, v)) : issued id' cookie := by
  by_cases hm : id ∈ t.maps.lrm
  · obtain ⟨r, w, hhas⟩ := t.consistent.has_of_mem hm
    have hgiven := DeMap.eraseLKey_of_has hhas
    simp only [Table.eraseLKey, hgiven] at he
    cases he
    exact h id cookie v (Table.findLKey_eq_some.mpr hhas)
  · simp [Table.eraseLKey, DeMap.eraseLKey, hm] at he

/-- `AuthenticateProcess` of the match server. -/
theorem Held.entered {t : Table AccountId Hash SocketId} (h : Held issued t)
    (hi : issued id cookie) (client : SocketId) :
    Held issued (Match.MyMatch.entered t id cookie client) := by
  unfold Match.MyMatch.entered
  split
  · exact h.insertLKeyValue
  · exact h.insert hi

end Tables

/-! ## Handlers -/

namespace Cluster

/-- Nothing that a handler may rely on has changed. -/
theorem Grows.same (hredis : d.redis = c.redis) (hloggedIn : d.loggedIn = c.loggedIn)
    (hhashed : d.hashed = c.hashed) (hissued : d.issued = c.issued)
    (htransfers : d.transfers = c.transfers) : c.Grows d := by
  refine ⟨hredis, ?_, ?_, ?_, ?_⟩
  · rw [hloggedIn]
    exact fun _ h => h
  · rw [hhashed]
    exact fun _ h => h
  · intro id cookie h
    rwa [links, hissued]
  · rw [htransfers]
    exact fun _ h => h

theorem Grows.refl (c : Cluster) : c.Grows c := .same rfl rfl rfl rfl rfl

theorem leads_mono (h : ∀ place ∈ c.transfers, place ∈ d.transfers) : c.leads ≤ d.leads := by
  rintro cookie serverName (hmatch | ⟨machineId, hm, hname⟩)
  · exact .inl hmatch
  · exact .inr ⟨machineId, h _ hm, hname⟩

theorem Grows.issue (h : c.Grows d) : c.issue ≤ d.issue := ⟨h.issued, leads_mono h.transfers⟩

/-- A handler has gone on: to its next stage and the state it leaves. -/
def Moves (sha256 : List Byte → Hash) (c : Cluster) (r : Stage × Cluster) : Prop :=
  c.Grows r.2 ∧ r.2.Sound sha256 ∧ r.2.Holds sha256 r.1

theorem Holds.ended : c.Holds sha256 .ended := ⟨nofun, nofun, trivial⟩

theorem Sound.ended (h : c.Sound sha256) : c.Moves sha256 (.ended, c) := ⟨.refl c, h, .ended⟩

theorem Sound.setBattle {machineId : Nat} {t : Table AccountId Hash (Sides AccountId)}
    (h : c.Sound sha256) (ht : Held c.links t) : (c.setBattle machineId t).Sound sha256 := by
  refine ⟨h.made, h.sessions, fun n => ?_, h.replied, h.admitted⟩
  show Held c.links (Function.update c.battles machineId t n)
  rw [Function.update_apply]
  split
  · exact ht
  · exact h.battles n

theorem Sound.letIn {server : Server} {id : AccountId} {cookie : Hash} (h : c.Sound sha256)
    (hi : c.links id cookie) (hp : c.leads cookie server.keyword.text) :
    (c.letIn server id cookie).Sound sha256 := by
  refine ⟨h.made, h.sessions, h.battles, h.replied, fun server' id' cookie' hm => ?_⟩
  rcases List.mem_cons.mp hm with heq | hm
  · cases heq
    exact ⟨hi, hp⟩
  · exact h.admitted server' id' cookie' hm

/-! ### `MyAuth` -/

theorem login_next_cases {stage next : Auth.Stage} (h : stage.next sha256 answer = some next) :
    (∃ id now, stage = .check id now ∧ next = .probe id (sha256 (message stage))) ∨
    (∃ id cookie, stage = .probe id cookie ∧ next = .probe id (sha256 cookie.toList)) ∨
    ∃ id cookie, stage = .probe id cookie ∧ next = .store id cookie := by
  unfold Auth.Stage.next at h
  split at h <;> cases h
  · exact .inl ⟨_, _, rfl, rfl⟩
  · exact .inr (.inl ⟨_, _, rfl, rfl⟩)
  · exact .inr (.inr ⟨_, _, rfl, rfl⟩)

theorem loginReply_issued {stage : Auth.Stage} {id : AccountId} {cookie : Hash}
    {serverName : Text} (hh : c.Holds sha256 (.login stage))
    (ht : stage.call.Truth c.issue answer)
    (h : loginReply stage answer = some (id, cookie, serverName)) :
    c.links id cookie ∧ c.leads cookie serverName := by
  unfold loginReply at h
  split at h
  · split at h <;> cases h
    exact ht
  · cases h
    exact ⟨hh.carried (id, cookie) List.mem_cons_self, .inl rfl⟩
  · cases h

theorem Sound.login {stage : Auth.Stage} (hs : c.Sound sha256)
    (hh : c.Holds sha256 (.login stage)) (ht : stage.call.Truth c.issue answer) :
    c.Moves sha256 (c.login sha256 stage answer) := by
  have hreplied : ∀ id cookie serverName,
      (id, cookie, serverName) ∈ (loginReply stage answer).toList ++ c.replied →
        c.links id cookie ∧ c.leads cookie serverName := by
    intro id cookie serverName hm
    rcases List.mem_append.mp hm with hm | hm
    · exact loginReply_issued hh ht (Option.mem_toList.mp hm)
    · exact hs.replied id cookie serverName hm
  have hsound : ({ c with replied := (loginReply stage answer).toList ++ c.replied } :
      Cluster).Sound sha256 := ⟨hs.made, hs.sessions, hs.battles, hreplied, hs.admitted⟩
  -- a text that is hashed makes a cookie for the account
  have hprobe : ∀ id cookie, id ∈ c.loggedIn →
      Made sha256 (message stage :: c.hashed) id cookie →
      stage.next sha256 answer = some (.probe id cookie) →
      c.Moves sha256 (c.login sha256 stage answer) := by
    intro id cookie hid hmade hn
    have hsub : ∀ text ∈ c.hashed, text ∈ message stage :: c.hashed :=
      fun text h => List.mem_cons_of_mem _ h
    simp only [Cluster.login, hn]
    refine ⟨⟨rfl, fun _ h => h, hsub, le_rfl, fun _ h => h⟩,
      ⟨?_, hs.sessions, hs.battles, hreplied, hs.admitted⟩, nofun, nofun, hid, hmade⟩
    exact fun id' cookie' hl => ⟨(hs.made id' cookie' hl).1, (hs.made id' cookie' hl).2.mono hsub⟩
  cases hn : stage.next sha256 answer with
  | none =>
    simp only [Cluster.login, hn]
    exact ⟨.same rfl rfl rfl rfl rfl, hsound, .ended⟩
  | some next =>
    rcases login_next_cases hn with ⟨id, now, rfl, rfl⟩ | ⟨id, cookie, rfl, rfl⟩ |
        ⟨id, cookie, rfl, rfl⟩
    · obtain ⟨hmem, hid, n, rfl⟩ := hh.prepared
      exact hprobe _ _ hmem (.first hid List.mem_cons_self) hn
    · obtain ⟨hmem, hmade⟩ : id ∈ c.loggedIn ∧ Made sha256 c.hashed id cookie := hh.prepared
      exact hprobe _ _ hmem (.again (hmade.mono fun _ h => List.mem_cons_of_mem _ h)
        List.mem_cons_self) hn
    · have hmade : id ∈ c.loggedIn ∧ Made sha256 c.hashed id cookie := hh.prepared
      have hle : c.links ≤ ({ c with issued := (id, cookie) :: c.issued } : Cluster).links :=
        fun _ _ h => List.mem_cons_of_mem _ h
      simp only [Cluster.login, hn]
      refine ⟨⟨rfl, fun _ h => h, fun _ h => h, hle, fun _ h => h⟩, ⟨?_, hs.sessions.mono hle,
        fun n => (hs.battles n).mono hle, fun id' cookie' serverName h => ?_,
        fun server id' cookie' h => ?_⟩, ?_, nofun, trivial⟩
      · intro id' cookie' hl
        rcases List.mem_cons.mp hl with heq | hl
        · cases heq
          exact hmade
        · exact hs.made id' cookie' hl
      · exact (hreplied id' cookie' serverName h).imp_left (hle id' cookie')
      · exact (hs.admitted server id' cookie' h).imp_left (hle id' cookie')
      · intro link hlink
        rw [List.mem_singleton.mp hlink]
        exact List.mem_cons_self

/-! ### `MyMatch` -/

theorem Sound.withSessions {t : Table AccountId Hash SocketId} (h : c.Sound sha256)
    (ht : Held c.links t) : ({ c with sessions := t } : Cluster).Sound sha256 :=
  ⟨h.made, ht, h.battles, h.replied, h.admitted⟩

theorem Sound.enterMatch {client : SocketId} {cookie : Hash} (hs : c.Sound sha256)
    (ht : (Call.getInfoFromCookie cookie).Truth c.issue answer) :
    c.Moves sha256 (c.enterMatch x client cookie answer) := by
  unfold Cluster.enterMatch
  split
  · rename_i id serverName
    split
    · exact hs.ended
    · have hentered := hs.withSessions (hs.sessions.entered ht.1 client)
      dsimp only
      split
      · exact ⟨.same rfl rfl rfl rfl rfl, hentered.letIn ht.1 (.inl rfl), .ended⟩
      · exact ⟨.same rfl rfl rfl rfl rfl, hentered, .ended⟩
  · exact hs.ended

theorem Sound.giveUp (hs : c.Sound sha256) (ids : Sides AccountId) (left right : Option Hash) :
    (c.giveUp ids left right).Sound sha256 := by
  refine hs.withSessions ?_
  split
  · split
    · exact hs.sessions
    · exact hs.sessions.eraseLKey _
  · split
    · exact hs.sessions.eraseLKey _
    · exact (hs.sessions.eraseLKey _).eraseLKey _

/-- A transfer that a battle server has accepted. -/
theorem Sound.transferred (h : c.Sound sha256) (places : List (Hash × Nat)) :
    ({ c with transfers := places ++ c.transfers } : Cluster).Sound sha256 := by
  have hle : c.leads ≤ ({ c with transfers := places ++ c.transfers } : Cluster).leads :=
    leads_mono fun _ h => List.mem_append_right _ h
  refine ⟨h.made, h.sessions, h.battles, fun id cookie serverName hm => ?_,
    fun server id cookie hm => ?_⟩
  · exact (h.replied id cookie serverName hm).imp_right (hle cookie serverName)
  · exact (h.admitted server id cookie hm).imp_right (hle cookie _)

theorem Sound.transfer {ids : Sides AccountId} {left right : Option Hash} (hs : c.Sound sha256)
    (hl : ∀ l ∈ left, c.links ids.left l) (hr : ∀ r ∈ right, c.links ids.right r) :
    c.Moves sha256 (c.transfer x ids left right) := by
  unfold Cluster.transfer
  split
  · rename_i l r
    split
    · exact hs.ended
    · refine ⟨⟨rfl, fun _ h => h, fun _ h => h, le_rfl, fun place h => ?_⟩,
        hs.transferred [(l, x.transferred), (r, x.transferred)], fun link hm => ?_,
        fun place hm => List.mem_append_left _ hm, trivial⟩
      · exact List.mem_cons_of_mem _ (List.mem_cons_of_mem _ h)
      simp only [Stage.carried, List.mem_cons, List.not_mem_nil, or_false] at hm
      rcases hm with rfl | rfl
      · exact hl l rfl
      · exact hr r rfl
  · exact ⟨.same rfl rfl rfl rfl rfl, hs.giveUp ids _ _, .ended⟩

theorem Sound.lookRight {ids : Sides AccountId} {left : Option Hash} (hs : c.Sound sha256)
    (hl : ∀ l ∈ left, c.links ids.left l) : c.Moves sha256 (c.lookRight x ids left) := by
  unfold Cluster.lookRight
  split
  · rename_i cookie client hf
    refine ⟨.refl c, hs, fun link hm => ?_, nofun, trivial⟩
    simp only [Stage.carried, List.mem_cons, List.mem_map, Option.mem_toList] at hm
    rcases hm with rfl | ⟨l, hleft, rfl⟩
    · exact hs.sessions ids.right cookie client hf
    · exact hl l hleft
  · exact hs.transfer hl (by simp)

theorem Sound.lookLeft (hs : c.Sound sha256) (x : Choice) (ids : Sides AccountId) :
    c.Moves sha256 (c.lookLeft x ids) := by
  unfold Cluster.lookLeft
  split
  · rename_i cookie client hf
    refine ⟨.refl c, hs, fun link hm => ?_, nofun, trivial⟩
    rw [List.mem_singleton.mp hm]
    exact hs.sessions ids.left cookie client hf
  · exact hs.lookRight (by simp)

theorem eq_of_mem_refreshed {cookie l : Hash} (h : l ∈ refreshed x cookie answer) : l = cookie := by
  unfold refreshed at h
  split at h
  · split at h
    · exact (Option.some.inj h).symm
    · cases h
  · cases h

/-! ### `MyBattle` -/

theorem Sound.enterBattle {machineId : Nat} {cookie : Hash} (hs : c.Sound sha256)
    (ht : (Call.getInfoFromCookie cookie).Truth c.issue answer) :
    c.Moves sha256 (c.enterBattle machineId cookie answer) := by
  unfold Cluster.enterBattle
  split
  · rename_i id serverName
    have hback : ∀ link ∈ (Stage.sendBack id cookie).carried, c.links link.1 link.2 := by
      intro link hm
      rw [List.mem_singleton.mp hm]
      exact ht.1
    have hnone : ∀ place ∈ (Stage.sendBack id cookie).destined, place ∈ c.transfers :=
      fun place hm => absurd hm List.not_mem_nil
    split
    · exact hs.ended
    · rename_i hname
      have hplace : c.leads cookie (battleName machineId).text := by
        rw [← not_not.mp hname]
        exact ht.2
      split
      · split
        · exact ⟨.same rfl rfl rfl rfl rfl, hs.letIn ht.1 hplace, .ended⟩
        · exact ⟨.same rfl rfl rfl rfl rfl,
            hs.setBattle ((hs.battles machineId).eraseLKey id), hback, hnone, trivial⟩
      · exact ⟨.refl c, hs, hback, hnone, trivial⟩
  · exact hs.ended

theorem issued_of_mem_cookieOf {id : AccountId} {cookie : Hash}
    {issued : Issue} (ht : (Call.getInfoFromID id).Truth issued answer)
    (h : cookie ∈ cookieOf answer) : issued.link id cookie := by
  unfold cookieOf at h
  split at h
  · cases h
    exact ht.1
  · cases h

theorem Sound.enroll {machineId : Nat} {ids : Sides AccountId} {left right : Option Hash}
    (hs : c.Sound sha256) (hl : ∀ l ∈ left, c.links ids.left l)
    (hr : ∀ r ∈ right, c.links ids.right r) :
    c.Moves sha256 (.ended, c.enroll x machineId ids left right) := by
  unfold Cluster.enroll
  split
  · rename_i l r
    split
    · exact ⟨.same rfl rfl rfl rfl rfl,
        hs.setBattle (((hs.battles machineId).insert (hl l rfl)).insert (hr r rfl)), .ended⟩
    · exact hs.ended
  · exact hs.ended

theorem Sound.settle (hs : c.Sound sha256) (machineId : Nat) (ids : Sides AccountId)
    (players : List (AccountId × Bool)) : c.Moves sha256 (c.settle machineId ids players) := by
  induction players with
  | nil => exact ⟨.same rfl rfl rfl rfl rfl,
      hs.setBattle (((hs.battles machineId).eraseLKey _).eraseLKey _), .ended⟩
  | cons player rest ih =>
    obtain ⟨player, connected⟩ := player
    rcases he : (c.battles machineId).eraseLKey player with ⟨_ | ⟨id, cookie, g⟩, t⟩
    · simp only [Cluster.settle, he]
      exact ih
    · have hi : c.links id cookie := (hs.battles machineId).erased (congrArg Prod.fst he)
      have ht : Held c.links t := by
        have herased := (hs.battles machineId).eraseLKey player
        rwa [he] at herased
      simp only [Cluster.settle, he]
      refine ⟨.same rfl rfl rfl rfl rfl, hs.setBattle ht, fun link hm => ?_, ?_, ?_⟩
      · have hlink : link = (id, cookie) := by
          cases connected <;> exact List.mem_singleton.mp hm
        rw [hlink]
        exact hi
      · cases connected <;> exact nofun
      · cases connected <;> trivial

/-- **Every handler after every call.** -/
theorem Sound.proceed (hs : c.Sound sha256) (hh : c.Holds sha256 stage)
    (ht : stage.Truth c.issue answer) (x : Choice) :
    c.Moves sha256 (c.proceed sha256 x answer stage) := by
  cases stage with
  | login stage => exact hs.login hh (ht _ rfl)
  | authenticate server client cookie =>
    cases server with
    | matching => exact hs.enterMatch (ht _ rfl)
    | battle machineId => exact hs.enterBattle (ht _ rfl)
  | heartbeat server id cookie => exact hs.ended
  | refreshLeft ids cookie =>
    refine hs.lookRight fun l hl => ?_
    rw [eq_of_mem_refreshed hl]
    exact hh.carried (ids.left, cookie) List.mem_cons_self
  | refreshRight ids left cookie =>
    refine hs.transfer (fun l hl => hh.carried (ids.left, l) ?_) fun r hr => ?_
    · simpa [Stage.carried] using Or.inr hl
    · rw [eq_of_mem_refreshed hr]
      exact hh.carried (ids.right, cookie) List.mem_cons_self
  | relocateLeft ids cookies machineId => exact ⟨.refl c, hs, hh.carried, hh.destined, trivial⟩
  | relocateRight ids cookies machineId =>
    exact ⟨.same rfl rfl rfl rfl rfl,
      hs.withSessions ((hs.sessions.eraseLKey _).eraseLKey _), .ended⟩
  | sendBack id cookie => exact hs.ended
  | transferLeft machineId ids =>
    refine ⟨.refl c, hs, fun link hm => ?_, nofun, trivial⟩
    obtain ⟨l, hl, rfl⟩ := List.mem_map.mp hm
    exact issued_of_mem_cookieOf (ht _ rfl) (Option.mem_toList.mp hl)
  | transferRight machineId ids left =>
    refine hs.enroll (fun l hl => hh.carried (ids.left, l) ?_) fun r hr => ?_
    · simpa [Stage.carried] using hl
    · exact issued_of_mem_cookieOf (ht _ rfl) hr
  | release machineId ids id cookie rest => exact hs.settle machineId ids rest
  | clear machineId ids id cookie rest => exact hs.settle machineId ids rest
  | ended => exact hs.ended

/-! ## Steps -/

theorem handlers_guarded (stage : Stage) : (handlers.body stage).Guarded stage.Block := by
  show ((stage.call.map Call.body).getD (.ret (.flag false))).Guarded _
  cases hc : stage.call with
  | none => trivial
  | some call => exact Prog.Guarded.imp call.body_guarded fun block hb => ⟨call, hc, hb⟩

theorem handlers_answers (stage : Stage) (issued : Issue) :
    (handlers.body stage).Answers (Told issued) (stage.Truth issued) := by
  show ((stage.call.map Call.body).getD (.ret (.flag false))).Answers _ _
  cases hc : stage.call with
  | none =>
    intro call hcall
    rw [hc] at hcall
    cases hcall
  | some call =>
    refine Prog.Answers.imp call.body_answers fun answer ha other hcall => ?_
    rw [hc] at hcall
    cases hcall
    exact ha

theorem Holds.grows (h : c.Holds sha256 stage) (hg : c.Grows d) : d.Holds sha256 stage := by
  refine ⟨fun link hm => hg.issued link.1 link.2 (h.carried link hm),
    fun place hm => hg.transfers place (h.destined place hm), ?_⟩
  have hp := h.prepared
  cases stage with
  | login stage =>
    cases stage with
    | check id now => exact ⟨hg.loggedIn id hp.1, hp.2⟩
    | probe id cookie => exact ⟨hg.loggedIn id hp.1, hp.2.mono hg.hashed⟩
    | store id cookie => trivial
  | _ => trivial

theorem Inv.grows (h : c.Inv sha256) (hg : c.Grows d) (hs : d.Sound sha256) : d.Inv sha256 := by
  refine ⟨hs, ?_, ?_, ?_, ?_⟩ <;> rw [hg.redis]
  · exact h.genuine.mono hg.issue
  · exact fun k hk => (h.holds k hk).grows hg
  · exact h.guarded
  · exact fun k hk => (h.answers k hk).later hg.issue

/-- A new handler. -/
theorem Inv.enter {r : Stage × Cluster} (h : c.Inv sha256) (hm : c.Moves sha256 r) :
    (enter r).Inv sha256 := by
  obtain ⟨stage, d⟩ := r
  obtain ⟨hg, hs, hh⟩ := hm
  have hd := h.grows hg hs
  refine ⟨⟨hs.made, hs.sessions, hs.battles, hs.replied, hs.admitted⟩, hd.genuine, ?_, ?_, ?_⟩ <;>
    intro k hk <;> rcases List.mem_append.mp hk with hk | hk
  · exact ⟨(hd.holds k hk).carried, (hd.holds k hk).destined, (hd.holds k hk).prepared⟩
  · rw [List.mem_singleton.mp hk]
    exact ⟨hh.carried, hh.destined, hh.prepared⟩
  · exact hd.guarded k hk
  · rw [List.mem_singleton.mp hk]
    exact .start handlers_guarded stage
  · exact hd.answers k hk
  · rw [List.mem_singleton.mp hk]
    exact .start fun v => handlers_answers stage v

/-- A handler at its next stage. -/
theorem Inv.resume {r : Stage × Cluster} {i : Nat} {k : Client Stage Answer}
    (h : c.Inv sha256) (hk : k ∈ c.redis.clients) (ht : k.task = .done answer)
    (hm : c.Moves sha256 r) : (resume i k r).Inv sha256 := by
  obtain ⟨stage, d⟩ := r
  obtain ⟨hg, hs, hh⟩ := hm
  have hd := h.grows hg hs
  have hqueued : k.conn.queued = none := by
    have hguarded := h.guarded k hk
    rwa [Client.Guarded, ht] at hguarded
  refine ⟨⟨hs.made, hs.sessions, hs.battles, hs.replied, hs.admitted⟩, hd.genuine, ?_, ?_, ?_⟩ <;>
    intro k' hk' <;> rcases List.mem_or_eq_of_mem_set hk' with hk' | rfl
  · exact ⟨(hd.holds k' hk').carried, (hd.holds k' hk').destined, (hd.holds k' hk').prepared⟩
  · exact ⟨hh.carried, hh.destined, hh.prepared⟩
  · exact hd.guarded k' hk'
  · unfold Client.Guarded
    rw [hqueued]
    exact (handlers_guarded stage).resume k.conn.isOpen
  · exact hd.answers k' hk'
  · intro v _
    exact (handlers_answers stage v).resume k.conn.isOpen

/-- What a handler's call writes was issued. -/
theorem Holds.writes {call : Call} (h : c.Holds sha256 stage) (hc : stage.call = some call) :
    call.Writes c.issue := by
  have hmatch : ∀ cookie, c.leads cookie Redis.keywordMatch.text := fun _ => .inl rfl
  cases stage with
  | login stage =>
    cases stage <;> cases hc
    · trivial
    · trivial
    · exact ⟨h.carried _ List.mem_cons_self, hmatch _⟩
  | relocateLeft ids cookies machineId =>
    cases hc
    exact ⟨h.carried _ List.mem_cons_self, .inr ⟨machineId, h.destined _ List.mem_cons_self, rfl⟩⟩
  | relocateRight ids cookies machineId =>
    cases hc
    have hcarried := h.carried (ids.right, cookies.right) (by simp [Stage.carried])
    have hdestined := h.destined (cookies.right, machineId) (by simp [Stage.destined])
    exact ⟨hcarried, .inr ⟨machineId, hdestined, rfl⟩⟩
  | sendBack id cookie =>
    cases hc
    exact ⟨h.carried _ List.mem_cons_self, hmatch _⟩
  | release machineId ids id cookie rest =>
    cases hc
    exact ⟨h.carried _ List.mem_cons_self, hmatch _⟩
  | _ => cases hc <;> trivial

/-- A step inside Redis. -/
theorem Inv.redis {l : Lib.Redis.Label Stage} {redis : System Stage Answer} (h : c.Inv sha256)
    (hl : ∀ stage, l ≠ .start stage) (hr : c.redis.step handlers l = some redis) :
    ({ c with redis } : Cluster).Inv sha256 := by
  have hstage : ∀ k k' db db', Client.step handlers k db = some (k', db') → k'.stage = k.stage := by
    intro k k' db db' hs
    rcases Client.step_cases hs with ⟨a, stage, _, hn, _⟩ | ⟨q, rest, replies, f, _, rfl, _⟩
    · cases hn
    · rfl
  refine ⟨⟨h.sound.made, h.sound.sessions, h.sound.battles, h.sound.replied, h.sound.admitted⟩,
    ?_, ?_, System.step_guarded handlers_guarded hr h.guarded, ?_⟩
  · rcases System.step_effect handlers_guarded hr h.guarded with heff | ⟨keys, _, heff⟩ |
        ⟨i, k, block, _, hk, _, ⟨call, hcall, hblock⟩, heff⟩
    · exact h.genuine.of_value heff
    · show Genuine c.issue redis.db
      rw [heff]
      exact h.genuine.expire keys
    · show Genuine c.issue redis.db
      rw [heff]
      exact h.genuine.block ((h.holds k (List.mem_of_getElem? hk)).writes hcall) hblock
  · rcases System.step_cases hr with ⟨stage, rfl, _⟩ | ⟨i, k, k', db', _, hk, hs, rfl⟩ |
        ⟨i, k, _, hk, rfl⟩ | ⟨keys, _, rfl⟩
    · exact absurd rfl (hl stage)
    · intro j hj
      rcases List.mem_or_eq_of_mem_set hj with hj | rfl
      · exact ⟨(h.holds j hj).carried, (h.holds j hj).destined, (h.holds j hj).prepared⟩
      · rw [hstage _ _ _ _ hs]
        have hold := h.holds k (List.mem_of_getElem? hk)
        exact ⟨hold.carried, hold.destined, hold.prepared⟩
    · intro j hj
      rcases List.mem_or_eq_of_mem_set hj with hj | rfl
      · exact ⟨(h.holds j hj).carried, (h.holds j hj).destined, (h.holds j hj).prepared⟩
      · have hold := h.holds k (List.mem_of_getElem? hk)
        have hlose : k.lose.stage = k.stage := by
          unfold Client.lose
          split <;> rfl
        rw [hlose]
        exact ⟨hold.carried, hold.destined, hold.prepared⟩
    · exact fun j hj => ⟨(h.holds j hj).carried, (h.holds j hj).destined, (h.holds j hj).prepared⟩
  · refine System.step_forall (Φ := fun _ k => k.Answers Told Stage.Truth c.issue)
      (fun stage => .start fun v => handlers_answers stage v) (fun k k' db' hk hs ha => ?_)
      (fun k _ ha => ha.lose) (fun k _ ha => ha) hr h.answers
    exact ha.step (fun stage v => handlers_answers stage v) (fun hle ht => ht.mono hle)
      (fun q => h.genuine.told k.conn q) hs

/-- **One step of the cluster.** -/
theorem step_inv {l : Label} (h : c.Inv sha256) (hr : step sha256 c l = some d) :
    d.Inv sha256 := by
  cases l with
  | login id now =>
    simp only [step] at hr
    split at hr <;> cases hr
    rename_i hid
    have hsub : ∀ other ∈ c.loggedIn, other ∈ id :: c.loggedIn :=
      fun other hm => List.mem_cons_of_mem _ hm
    refine h.enter ⟨⟨rfl, hsub, fun _ h => h, le_rfl, fun _ h => h⟩, ⟨fun other cookie hl => ?_,
      h.sound.sessions, h.sound.battles, h.sound.replied, h.sound.admitted⟩, nofun, nofun,
      List.mem_cons_self, hid, now, rfl⟩
    exact ⟨hsub other (h.sound.made other cookie hl).1, (h.sound.made other cookie hl).2⟩
  | present server client cookie =>
    cases hr
    exact h.enter ⟨.refl c, h.sound, nofun, nofun, trivial⟩
  | heartbeat server id cookie =>
    simp only [step] at hr
    split at hr <;> cases hr
    exact h.enter ⟨.refl c, h.sound, nofun, nofun, trivial⟩
  | matched ids x =>
    cases hr
    exact h.enter (h.sound.lookLeft x ids)
  | transferred machineId ids =>
    cases hr
    exact h.enter ⟨.refl c, h.sound, nofun, nofun, trivial⟩
  | finished machineId ids connected =>
    cases hr
    exact h.enter (h.sound.settle machineId ids _)
  | gone id client =>
    simp only [step] at hr
    split at hr
    · cases hr
      split
      · exact h.grows (.same rfl rfl rfl rfl rfl)
          (h.sound.withSessions (h.sound.sessions.eraseLKey id))
      · exact h
    · cases hr
      exact h
  | command i =>
    simp only [step] at hr
    obtain ⟨redis, hs, rfl⟩ := Option.map_eq_some_iff.mp hr
    exact h.redis (by simp) hs
  | proceed i x =>
    obtain ⟨k, hk, hr⟩ := Option.bind_eq_some_iff.mp hr
    split at hr
    · rename_i answer ht
      cases hr
      have hmem := List.mem_of_getElem? hk
      exact h.resume hmem ht (h.sound.proceed (h.holds k hmem) ((h.answers k hmem).done ht) x)
    · cases hr
  | lose i =>
    simp only [step] at hr
    obtain ⟨redis, hs, rfl⟩ := Option.map_eq_some_iff.mp hr
    exact h.redis (by simp) hs
  | expire keys =>
    simp only [step] at hr
    obtain ⟨redis, hs, rfl⟩ := Option.map_eq_some_iff.mp hr
    exact h.redis (by simp) hs

theorem start_inv (sha256 : List Byte → Hash) : start.Inv sha256 := by
  have hclients : ∀ {P : Client Stage Answer → Prop}, ∀ k ∈ start.redis.clients, P k :=
    fun k hk => absurd hk List.not_mem_nil
  refine ⟨⟨?_, held_empty, fun _ => held_empty, ?_, ?_⟩, ⟨?_, ?_⟩, hclients, hclients, hclients⟩
  · exact fun id cookie h => absurd h List.not_mem_nil
  · exact fun id cookie serverName h => absurd h List.not_mem_nil
  · exact fun server id cookie h => absurd h List.not_mem_nil
  · intro id value h
    cases h
  · intro cookie value h
    cases h

/-! ## Runs -/

/-- Every link there is anywhere was issued, and to an account that logged in. -/
structure Traced (c : Cluster) : Prop where
  loggedIn : ∀ id cookie, (id, cookie) ∈ c.issued → id ∈ c.loggedIn
  stored : Genuine c.issue c.redis.db
  sessions : Held c.links c.sessions
  battles : ∀ machineId, Held c.links (c.battles machineId)
  replied : ∀ id cookie serverName, (id, cookie, serverName) ∈ c.replied →
    (id, cookie) ∈ c.issued
  admitted : ∀ server id cookie, (server, id, cookie) ∈ c.admitted → (id, cookie) ∈ c.issued

theorem Inv.traced (h : c.Inv sha256) : c.Traced :=
  ⟨fun id cookie hl => (h.sound.made id cookie hl).1, h.genuine, h.sound.sessions,
    h.sound.battles, fun id cookie serverName hm => (h.sound.replied id cookie serverName hm).1,
    fun server id cookie hm => (h.sound.admitted server id cookie hm).1⟩

/-- **Every account a client is let in as has logged in and was issued that cookie**, at every
moment of every run, in Redis and in the tables of all servers too. -/
theorem always_traced (sha256 : List Byte → Hash) (ls : List Label) :
    Always (step sha256) Traced start ls :=
  always_of_meets (I := Inv sha256) (fun _ h => h.traced) (fun _ _ _ h _ hr => step_inv h hr)
    (start_inv sha256) (meets_true _ ls)

/-- A client is sent to a battle server, and let in there, under a cookie that a transfer to
that server was made with. -/
structure Directed (c : Cluster) : Prop where
  replied : ∀ id cookie serverName, (id, cookie, serverName) ∈ c.replied →
    serverName ≠ Redis.keywordMatch.text → ∃ machineId, (cookie, machineId) ∈ c.transfers ∧
      serverName = (battleName machineId).text
  admitted : ∀ machineId id cookie, (.battle machineId, id, cookie) ∈ c.admitted →
    (cookie, machineId) ∈ c.transfers

theorem battleName_injective {m n : Nat} (h : (battleName m).text = (battleName n).text) :
    m = n := toStr_injective (List.append_cancel_left h)

theorem battleName_ne_match (n : Nat) : (battleName n).text ≠ Redis.keywordMatch.text := by
  intro h
  have hhead : some 'b' = some 'm' := congrArg List.head? h
  cases hhead

theorem Inv.directed (h : c.Inv sha256) : c.Directed where
  replied id cookie serverName hm hne :=
    (h.sound.replied id cookie serverName hm).2.resolve_left hne
  admitted machineId id cookie hm := by
    rcases (h.sound.admitted _ id cookie hm).2 with hmatch | ⟨n, hn, hname⟩
    · exact absurd hmatch (battleName_ne_match machineId)
    · rwa [battleName_injective hname]

/-- **Every client that is sent to a battle server, or let in there, has been transferred to
it**, in whatever order the handlers and the queries of Redis come. -/
theorem always_directed (sha256 : List Byte → Hash) (ls : List Label) :
    Always (step sha256) Directed start ls :=
  always_of_meets (I := Inv sha256) (fun _ h => h.directed) (fun _ _ _ h _ hr => step_inv h hr)
    (start_inv sha256) (meets_true _ ls)

/-- **A cookie that was sent for one account lets nobody in as another**, on any server, as
long as the texts that were hashed have different digests. -/
theorem admitted_as_replied {ls : List Label} (hr : run (step sha256) start ls = some c)
    (hinj : Set.InjOn sha256 {text | text ∈ c.hashed}) {server : Server} {id : AccountId}
    {cookie : Hash} (ha : (server, id, cookie) ∈ c.admitted) :
    (∀ other serverName, (other, cookie, serverName) ∈ c.replied → other = id) ∧
      ∀ server' other, (server', other, cookie) ∈ c.admitted → other = id := by
  have hinv := run_invariant_all (I := Inv sha256) (fun _ _ _ h hs => step_inv h hs)
    (start_inv sha256) hr
  have hmade := (hinv.sound.made id cookie (hinv.sound.admitted server id cookie ha).1).2
  constructor
  · intro other serverName ho
    have hother := (hinv.sound.made other cookie (hinv.sound.replied other cookie _ ho).1).2
    exact hother.unique hinj hmade
  · intro server' other ho
    have hother := (hinv.sound.made other cookie (hinv.sound.admitted server' other cookie ho).1).2
    exact hother.unique hinj hmade

/-! ## A visit -/

/-- The texts that are hashed for accounts 5 and 9, a quarter of a second apart. -/
def seed : List Byte := message (.check 5 (image 8 1714564800000000000))

def laterSeed : List Byte := message (.check 9 (image 8 1714564800250000000))

/-- What SHA-256 makes of them. -/
def digest : Hash :=
  toHash [
    213, 208, 138, 182, 254, 243, 21, 17, 159, 159, 137, 218, 89, 188, 151, 61, 54, 20, 188, 13,
    255, 86, 90, 2, 193, 93, 109, 1, 239, 42, 42, 254]

def laterDigest : Hash :=
  toHash [
    196, 105, 233, 184, 143, 108, 56, 79, 195, 191, 236, 91, 70, 252, 254, 175, 114, 178, 82, 160,
    154, 245, 164, 84, 68, 117, 172, 112, 239, 63, 139, 17]

/-- The hash function, as far as it is asked. -/
def sampleSha256 (text : List Byte) : Hash :=
  if text = seed then digest else if text = laterSeed then laterDigest else toHash text

/-- Two logins, and the cookie of the first presented to the match server. -/
def firstVisit : List Label :=
  let x : Choice := ⟨true, true, 0⟩
  let commands i := List.replicate 6 (Label.command i)
  let login i := [Label.command i, .proceed i x, .command i, .proceed i x] ++ commands i ++
    [.proceed i x]
  [.login 5 1714564800000000000] ++ login 0 ++ [.login 9 1714564800250000000] ++ login 1 ++
    [.present .matching 1 digest] ++ commands 2 ++ [.proceed 2 x]

theorem admitted_as_replied_firstVisit : ∃ c, run (step sampleSha256) start firstVisit = some c ∧
    c.hashed = [laterSeed, seed] ∧ (5, digest, Redis.keywordMatch.text) ∈ c.replied ∧
    (9, laterDigest, Redis.keywordMatch.text) ∈ c.replied ∧
    (Server.matching, 5, digest) ∈ c.admitted ∧
    (∀ other serverName, (other, digest, serverName) ∈ c.replied → other = 5) ∧
    ∀ server other, (server, other, digest) ∈ c.admitted → other = 5 := by
  obtain ⟨c, hr, hhashed, hfirst, hsecond, hadmitted⟩ :
      ∃ c, run (step sampleSha256) start firstVisit = some c ∧ c.hashed = [laterSeed, seed] ∧
        (5, digest, Redis.keywordMatch.text) ∈ c.replied ∧
        (9, laterDigest, Redis.keywordMatch.text) ∈ c.replied ∧
        (Server.matching, 5, digest) ∈ c.admitted := exists_run_of_any (by decide +kernel)
  refine ⟨c, hr, hhashed, hfirst, hsecond, hadmitted, admitted_as_replied hr ?_ hadmitted⟩
  have hne : sampleSha256 laterSeed ≠ sampleSha256 seed := by decide +kernel
  rw [hhashed]
  intro a ha b hb hab
  rcases List.mem_pair.mp ha with rfl | rfl <;> rcases List.mem_pair.mp hb with rfl | rfl
  · rfl
  · exact absurd hab hne
  · exact absurd hab.symm hne
  · rfl

end Cluster

end DrgbServer.Servers
