import DrgbServer.Lib.RedisClients
import DrgbServer.Redis.MyRedis

/-! # `MyRedis` on a server it shares

Any number of calls at once. Calls on one `MyRedis` object take turns at its connection,
so their interleavings are among those of calls with a connection each. Here is what the
calls can do to the store at all: execute the block of their transaction. -/
namespace DrgbServer.Redis
open DrgbServer.Utils DrgbServer.Lib.Redis MyRedis

/-- The block a call executes. -/
def Call.Block : Call → List Command → Prop
  | .setInfo id cookie serverName, block => block = setBlock id cookie serverName
  | .refreshInfo id cookie _, block => block = refreshBlock id cookie
  | .getInfoFromID _, block | .getInfoFromCookie _, block => ∀ c ∈ block, c.harmless = true
  | .clearInfo id cookie _, block => block = clearBlock id cookie

namespace MyRedis

theorem setInfo_guarded (id : AccountId) (cookie : Hash) (serverName : ServerName) :
    (setInfo id cookie serverName).Guarded (· = setBlock id cookie serverName) := by
  intro isOpen
  cases isOpen with
  | false => trivial
  | true =>
    refine ⟨?_, fun _ => trivial⟩
    rw [setInfoQuery_commands]
    exact ⟨rfl, trivial, trivial, trivial, trivial, rfl, rfl⟩

/-- `RefreshInfo` and `ClearInfo`, with the commands between `MULTI` and `EXEC`. -/
theorem conditional_guarded {id : AccountId} {cookie : Hash} {commands : List Text}
    {first second : Command} (hc : commands.map command = [first, second])
    (hf : queueAfter (some []) first = some [first])
    (hs : queueAfter (some [first]) second = some [first, second]) (serverName : ServerName) :
    (conditional id cookie serverName commands).Guarded (· = [first, second]) := by
  intro isOpen
  cases isOpen with
  | false => trivial
  | true =>
    refine ⟨?_, fun replies => ?_⟩
    · rw [List.map_singleton, command_lrangeText]
      exact ⟨rfl, rfl⟩
    · unfold transact
      split
      · trivial
      · refine ⟨?_, fun _ => trivial⟩
        have hallow : ∀ {c : Command} {block block' : List Command},
            queueAfter (some block) c = some block' →
            Allowed (· = [first, second]) (some block) c := by
          intro c block block' hq
          cases c <;> trivial
        rw [watchedQuery_commands, hc]
        refine ⟨rfl, rfl, rfl, hallow hf, ?_⟩
        show Guarded _ (queueAfter (some []) first) _
        rw [hf]
        refine ⟨hallow hs, ?_⟩
        rw [hs]
        exact ⟨rfl, rfl⟩

/-- The second query of a lookup writes nothing, whatever the texts it was given. -/
theorem lookupQuery_guarded (idstr cookieStr : Text) :
    Guarded (fun block => ∀ c ∈ block, c.harmless = true) none
      ((lookupQuery idstr cookieStr).map command) := by
  have haccount := command_pexpire_cases ("account:".toList ++ idstr) isWord_timeoutStr
    number_timeoutStr
  have hcookie := command_pexpire_cases ("cookie:".toList ++ cookieStr) isWord_timeoutStr
    number_timeoutStr
  have hlrange := command_lrange_cases ("cookie:".toList ++ cookieStr ++ " 0 1".toList)
  have hcommands : (lookupQuery idstr cookieStr).map command = [.multi,
      command ("PEXPIRE ".toList ++ ("account:".toList ++ idstr) ++ " ".toList ++ timeoutStr),
      command ("PEXPIRE ".toList ++ ("cookie:".toList ++ cookieStr) ++ " ".toList ++ timeoutStr),
      .exec, command ("LRANGE ".toList ++ ("cookie:".toList ++ cookieStr ++ " 0 1".toList))] := by
    simp only [lookupQuery, List.map_cons, List.map_nil, command_multi, command_exec]
    rfl
  rw [hcommands]
  -- each text is the command it looks like, or none at all
  rcases haccount with ⟨ka, ha⟩ | ha <;> rcases hcookie with ⟨kc, hc⟩ | hc <;>
    rcases hlrange with ⟨kl, i, j, hl⟩ | hl <;> rw [ha, hc, hl] <;>
    simp [Guarded, Allowed, queueAfter, Command.harmless, sessionTimeout]

theorem getInfoFromID_guarded (id : AccountId) :
    (getInfoFromID id).Guarded fun block => ∀ c ∈ block, c.harmless = true := by
  intro isOpen
  cases isOpen with
  | false => trivial
  | true =>
    refine ⟨?_, fun replies => ?_⟩
    · rw [List.map_singleton, command_getAccount]
      exact ⟨rfl, rfl⟩
    · cases replies with
      | nil => trivial
      | cons reply rest =>
        show (if _ then _ else lookupCookie id reply.str : Prog Answer).Guarded _
        split
        · trivial
        · unfold lookupCookie
          split
          · trivial
          · exact ⟨lookupQuery_guarded _ _, fun _ => trivial⟩

theorem getInfoFromCookie_guarded (cookie : Hash) :
    (getInfoFromCookie cookie).Guarded fun block => ∀ c ∈ block, c.harmless = true := by
  intro isOpen
  cases isOpen with
  | false => trivial
  | true =>
    refine ⟨?_, fun replies => ?_⟩
    · rw [List.map_singleton, command_lrangeText]
      exact ⟨rfl, rfl⟩
    · cases replies with
      | nil => trivial
      | cons reply rest =>
        dsimp only
        split
        · exact ⟨lookupQuery_guarded _ _, fun _ => trivial⟩
        · trivial

end MyRedis

theorem Call.body_guarded (call : Call) : call.body.Guarded call.Block := by
  cases call with
  | setInfo id cookie serverName => exact setInfo_guarded id cookie serverName
  | refreshInfo id cookie serverName =>
    exact conditional_guarded (refreshCommands_commands id cookie) rfl rfl serverName
  | getInfoFromID id => exact getInfoFromID_guarded id
  | getInfoFromCookie cookie => exact getInfoFromCookie_guarded cookie
  | clearInfo id cookie serverName =>
    exact conditional_guarded (clearCommands_commands id cookie) rfl rfl serverName

end DrgbServer.Redis
