import DrgbServer.Lib.RedisReplies
import DrgbServer.Redis.SessionTable
import DrgbServer.Redis.Sharing

/-! # Where the links in Redis come from

A link is an account with a cookie, a place a cookie with a server name. Call some of them
issued. As long as the store holds issued ones only, the lookups of `MyRedis` return issued
ones only, in any company: the reply that carries them is read at one moment, and what was
issued stays issued. -/
namespace DrgbServer.Redis
open DrgbServer.Utils DrgbServer.Lib.Redis MyRedis

structure Issue where
  link : AccountId → Hash → Prop
  place : Hash → Text → Prop

instance : Preorder Issue where
  le issued issued' := issued.link ≤ issued'.link ∧ issued.place ≤ issued'.place
  le_refl _ := ⟨le_rfl, le_rfl⟩
  le_trans _ _ _ h h' := ⟨h.1.trans h'.1, h.2.trans h'.2⟩

/-- The store holds what was issued only. -/
structure Genuine (issued : Issue) (db : Db) : Prop where
  account : ∀ id value, db.value (accountKey id) = some value →
    ∃ cookie, value = .string (cookieStr cookie) ∧ issued.link id cookie
  cookie : ∀ cookie value, db.value (cookieKey cookie) = some value → ∃ id serverName,
    value = entry id serverName ∧ issued.link id cookie ∧ issued.place cookie serverName.text

/-- A reply that names an account, a cookie or a server names what was issued. -/
def Told (issued : Issue) : Command → Reply → Prop
  | .get key, reply => ∀ id, key = accountKey id → reply.isString = true →
      ∃ cookie, reply.str = cookieStr cookie ∧ issued.link id cookie
  | .lrange key _ _, reply => ∀ cookie, key = cookieKey cookie → ∀ first second rest,
      reply.elements = first :: second :: rest →
        (∃ id, first.str = toStr id ∧ issued.link id cookie) ∧ issued.place cookie second.str
  | _, _ => True

/-- The link and the place a call returns are issued. -/
def Call.Truth (issued : Issue) : Call → Answer → Prop
  | .getInfoFromID id, .session (.ok (cookie, serverName)) =>
    issued.link id cookie ∧ issued.place cookie serverName
  | .getInfoFromCookie cookie, .owner (.ok (id, serverName)) =>
    issued.link id cookie ∧ issued.place cookie serverName
  | _, _ => True

/-- What a call writes: the link and the place are issued. -/
def Call.Writes (issued : Issue) : Call → Prop
  | .setInfo id cookie serverName =>
    issued.link id cookie ∧ issued.place cookie serverName.text
  | _ => True

variable {issued issued' : Issue} {db db' : Db}

/-! ## The store -/

theorem Genuine.of_value (h : Genuine issued db) (hv : db'.value = db.value) :
    Genuine issued db' := by
  constructor
  · rw [hv]
    exact h.account
  · rw [hv]
    exact h.cookie

theorem Genuine.mono (h : Genuine issued db) (hle : issued ≤ issued') : Genuine issued' db := by
  constructor
  · intro id value hv
    obtain ⟨cookie, heq, hi⟩ := h.account id value hv
    exact ⟨cookie, heq, hle.1 id cookie hi⟩
  · intro cookie value hv
    obtain ⟨id, serverName, heq, hi, hp⟩ := h.cookie cookie value hv
    exact ⟨id, serverName, heq, hle.1 id cookie hi, hle.2 cookie _ hp⟩

/-- Keys that go take nothing with them. -/
theorem Genuine.of_subset (h : Genuine issued db)
    (hv : ∀ key value, db'.value key = some value → db.value key = some value) :
    Genuine issued db' :=
  ⟨fun id value hi => h.account id value (hv _ _ hi),
    fun cookie value hi => h.cookie cookie value (hv _ _ hi)⟩

theorem Genuine.expire (h : Genuine issued db) (keys : List Word) :
    Genuine issued (db.expire keys) := by
  refine h.of_subset fun key value hv => ?_
  rw [Db.expire_value] at hv
  split at hv
  · cases hv
  · exact hv

theorem Genuine.clear (h : Genuine issued db) (id : AccountId) (cookie : Hash) :
    Genuine issued (db.applyAll (clearBlock id cookie)).2 := by
  refine h.of_subset fun key value hv => ?_
  rw [clearBlock_value] at hv
  split at hv
  · cases hv
  · split at hv
    · cases hv
    · exact hv

/-- `SetInfo` of an issued link and place. -/
theorem Genuine.set {id : AccountId} {cookie : Hash} {serverName : ServerName}
    (h : Genuine issued db) (hi : issued.link id cookie)
    (hp : issued.place cookie serverName.text) :
    Genuine issued (db.applyAll (setBlock id cookie serverName)).2 := by
  constructor
  · intro id' value hv
    rw [setBlock_value, ite_accountKey] at hv
    split at hv
    · rename_i heq
      cases hv
      exact ⟨cookie, rfl, heq ▸ hi⟩
    · exact h.account id' value hv
  · intro cookie' value hv
    rw [setBlock_value, ite_cookieKey] at hv
    split at hv
    · rename_i heq
      cases hv
      exact ⟨id, serverName, rfl, heq ▸ hi, heq ▸ hp⟩
    · exact h.cookie cookie' value hv

/-- What a call executes, where it writes what was issued. -/
theorem Genuine.block {call : Call} {block : List Command} (h : Genuine issued db)
    (hw : call.Writes issued) (hb : call.Block block) :
    Genuine issued (db.applyAll block).2 := by
  cases call with
  | setInfo id cookie serverName =>
    cases hb
    exact h.set hw.1 hw.2
  | refreshInfo id cookie serverName =>
    cases hb
    exact h.of_value (refreshBlock_value db id cookie)
  | getInfoFromID id => exact h.of_value (Db.applyAll_harmless hb db)
  | getInfoFromCookie cookie => exact h.of_value (Db.applyAll_harmless hb db)
  | clearInfo id cookie serverName =>
    cases hb
    exact h.clear id cookie

/-! ## The replies -/

theorem Told.mono {c : Command} {reply : Reply} (hle : issued ≤ issued')
    (h : Told issued c reply) : Told issued' c reply := by
  cases c with
  | get key =>
    intro id hkey hs
    obtain ⟨cookie, heq, hi⟩ := h id hkey hs
    exact ⟨cookie, heq, hle.1 id cookie hi⟩
  | lrange key start stop =>
    intro cookie hkey first second rest hr
    obtain ⟨⟨id, heq, hi⟩, hp⟩ := h cookie hkey first second rest hr
    exact ⟨⟨id, heq, hle.1 id cookie hi⟩, hle.2 cookie _ hp⟩
  | _ => trivial

theorem told_of_empty {c : Command} {reply : Reply} (hs : reply.isString = false)
    (he : reply.elements = []) : Told issued c reply := by
  cases c with
  | get key =>
    intro id _ h
    rw [hs] at h
    cases h
  | lrange key start stop =>
    intro cookie _ first second rest h
    rw [he] at h
    cases h
  | _ => trivial

/-- A command by itself. -/
theorem Genuine.told_apply (h : Genuine issued db) (c : Command) :
    Told issued c (db.apply c).1 := by
  cases c with
  | get key =>
    intro id hkey hs
    subst hkey
    cases hv : db.value (accountKey id) with
    | none => simp [Db.apply, hv, Reply.isString] at hs
    | some value =>
      obtain ⟨cookie, rfl, hi⟩ := h.account id value hv
      exact ⟨cookie, by simp only [Db.apply, hv, Reply.str], hi⟩
  | lrange key start stop =>
    intro cookie hkey first second rest hr
    subst hkey
    cases hv : db.value (cookieKey cookie) with
    | none => simp [Db.apply, hv, Reply.elements] at hr
    | some value =>
      obtain ⟨id, serverName, rfl, hi, hp⟩ := h.cookie cookie value hv
      -- two elements are listed only from the first element on
      have hlist : ([toStr id, serverName.text].take (stop + 1)).drop start =
          [toStr id, serverName.text] := by
        have hlen := congrArg List.length hr
        simp only [Db.apply, hv, entry, Reply.elements, List.length_map, List.length_cons] at hlen
        have hdrop := List.length_drop (i := start)
          (l := [toStr id, serverName.text].take (stop + 1))
        have htake := List.length_take (i := stop + 1) (l := [toStr id, serverName.text])
        simp only [List.length_cons, List.length_nil] at htake
        have hstart : start = 0 := by omega
        have hstop : 1 ≤ stop := by omega
        rw [hstart, List.drop_zero, List.take_of_length_le]
        simp only [List.length_cons, List.length_nil]
        omega
      simp only [Db.apply, hv, entry, Reply.elements, hlist, List.map_cons, List.map_nil,
        List.cons.injEq] at hr
      obtain ⟨rfl, rfl, -⟩ := hr
      exact ⟨⟨id, rfl, hi⟩, hp⟩
  | _ => trivial

/-- **Any reply of a connection.** -/
theorem Genuine.told (h : Genuine issued db) (conn : Conn) (c : Command) :
    Told issued c (conn.dispatch db c).1 := by
  rcases conn.dispatch_reply db c with rfl | hr | hr | hr
  · trivial
  · rw [hr]
    exact told_of_empty rfl rfl
  · rw [hr]
    exact told_of_empty rfl rfl
  · rw [hr]
    exact h.told_apply c

/-! ## The calls -/

theorem eq_of_stoull_toStr {id n : AccountId} (h : stoull (toStr id) = .ok n) : n = id := by
  by_cases hid : id < 2 ^ 64
  · rw [stoull_toStr hid] at h
    cases h
    rfl
  · unfold stoull at h
    rw [signedDigits_of_digits fun c hc => isDigit_of_mem_toStr hc] at h
    have hn : Nat.ofDigitChars 10 (toStr id) 0 = id := Nat.ofDigitChars_ten_toDigits
    simp only [hn, if_neg (toStr_ne_nil id)] at h
    rw [if_pos (Nat.le_of_not_lt hid)] at h
    cases h

/-- The last of five replies. -/
theorem told_last {c₁ c₂ c₃ c₄ c : Command} {replies : List Reply}
    (h : List.Forall₂ (Told issued) [c₁, c₂, c₃, c₄, c] replies) :
    Told issued c (replies.getD 4 .nil) := by
  rcases h with _ | ⟨_, _ | ⟨_, _ | ⟨_, _ | ⟨_, _ | ⟨hr, _⟩⟩⟩⟩⟩
  exact hr

theorem getInfoFromID_answers (id : AccountId) :
    (getInfoFromID id).Answers (Told issued) ((Call.getInfoFromID id).Truth issued) := by
  intro isOpen
  cases isOpen with
  | false => trivial
  | true =>
    refine ⟨trivial, fun replies hget => ?_⟩
    rw [List.map_singleton, command_getAccount] at hget
    rcases hget with _ | ⟨hreply, _⟩
    rename_i reply _
    simp only []
    split
    · trivial
    · rename_i hstring
      obtain ⟨cookie, hword, hissued⟩ := hreply id rfl (by simpa using hstring)
      rw [hword]
      unfold lookupCookie
      rw [cookieStr, Encoder.decodeBase64_encodeBase64, ← cookieStr]
      simp only []
      have hsize : (lookupQuery (toStr id) (cookieStr cookie)).length = 5 := rfl
      rw [MyRedis.toHash_toList, hsize]
      refine ⟨trivial, fun replies hreplies => ?_⟩
      -- the cookie is the one of the first reply, the place is read with it
      have hlast : Told issued (.lrange (cookieKey cookie) 0 1) (replies.getD 4 .nil) := by
        rw [← command_lrangeText]
        exact told_last hreplies
      show Call.Truth issued (.getInfoFromID id) (.session (serverOf cookie 5 replies))
      unfold serverOf
      split
      · trivial
      · split
        · rename_i first second rest helements
          exact ⟨hissued, (hlast cookie rfl first second rest helements).2⟩
        · trivial

theorem getInfoFromCookie_answers (cookie : Hash) :
    (getInfoFromCookie cookie).Answers (Told issued)
      ((Call.getInfoFromCookie cookie).Truth issued) := by
  intro isOpen
  cases isOpen with
  | false => trivial
  | true =>
    refine ⟨trivial, fun replies _ => ?_⟩
    cases replies with
    | nil => trivial
    | cons reply rest =>
      simp only []
      split
      · rename_i first _ _ _
        unfold lookupOwner
        have hsize : (lookupQuery first.str (cookieStr cookie)).length = 5 := rfl
        simp only [hsize]
        refine ⟨trivial, fun replies hreplies => ?_⟩
        -- the account is the one of the last reply
        have hlast : Told issued (.lrange (cookieKey cookie) 0 1) (replies.getD 4 .nil) := by
          rw [← command_lrangeText]
          exact told_last hreplies
        show Call.Truth issued (.getInfoFromCookie cookie) (.owner (ownerOf 5 replies))
        unfold ownerOf
        split
        · trivial
        · split
          · rename_i first second rest helements
            obtain ⟨⟨id, hid, hissued⟩, hplace⟩ := hlast cookie rfl first second rest helements
            rw [hid]
            split
            · trivial
            · rename_i n hn
              rw [eq_of_stoull_toStr hn]
              exact ⟨hissued, hplace⟩
          · trivial
      · trivial

/-- **Every call**, whatever it asks for. -/
theorem Call.body_answers (call : Call) :
    call.body.Answers (Told issued) (call.Truth issued) := by
  have htrivial : ∀ {p : Prog Answer} {call : Call}, (∀ answer, call.Truth issued answer) →
      p.Answers (Told issued) (call.Truth issued) := by
    intro p call h
    induction p with
    | ret a => exact h a
    | isOpen k ih => exact fun isOpen => ih isOpen
    | query queries k ih => exact ⟨ih [], fun replies _ => ih replies⟩
  cases call with
  | getInfoFromID id => exact getInfoFromID_answers id
  | getInfoFromCookie cookie => exact getInfoFromCookie_answers cookie
  | _ => exact htrivial fun _ => trivial

end DrgbServer.Redis
