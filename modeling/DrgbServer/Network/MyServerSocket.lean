import DrgbServer.Auth.MyAuth
import DrgbServer.Battle.ClientProcess
import DrgbServer.Match.MyMatch

/-! # What leaves the receive handlers

`StartThread` runs the handlers and catches nothing, so an exception that leaves one
ends the process. Each handler runs on the packet and then, through the `StartRecv`
at its end, on the messages already buffered. `finishes_iff_survives` says for each
of the five on which packets and buffers it always finishes. -/
namespace DrgbServer.Network
open DrgbServer.Utils DrgbServer.Auth DrgbServer.Battle DrgbServer.Match

/-- The receive handlers of the three servers, with what they are bound to. -/
inductive Receiver where
  /-- `MyAuth::ClientProcess` -/
  | authClient
  /-- `MyMatch::AuthenticateProcess` -/
  | matchAuthenticate (client : SocketId)
  /-- `MyMatch::ClientProcess` -/
  | matchClient (client : SocketId) (accountId : AccountId)
  /-- `MyBattle::AuthenticateProcess` -/
  | battleAuthenticate (selfKeyword : String) (client : SocketId)
  /-- `MyBattle::ClientProcess` -/
  | battleClient (client : SocketId) (side : Int) (g : GameId)

namespace Receiver
variable {κ : Type}

/-- No exception leaves the handler, in any state of its server and with any answers
of a database and a Redis that answer normally. -/
def Finishes (crypt : κ → List Byte → Except Exn (List Byte) × κ) (sha256 : List Byte → Hash)
    (ar : Arith) (inbox : Inbox κ) (packet : List Byte) : Receiver → Prop
  | authClient => MyAuth.Finishes crypt sha256 inbox packet
  | matchAuthenticate client => MyMatch.AuthenticateFinishes crypt ar client inbox packet
  | matchClient client accountId => MyMatch.Finishes crypt ar client accountId inbox packet
  | battleAuthenticate selfKeyword client =>
    BattleServer.AuthenticateFinishes crypt selfKeyword client inbox packet
  | battleClient client side g => BattleServer.Finishes crypt client side g inbox packet

/-- The packet has the field the handler reads outside of a `try` block, and the
buffered messages decrypt, for a battle server to packets with a header. -/
def Survives (crypt : κ → List Byte → Except Exn (List Byte) × κ) (inbox : Inbox κ)
    (packet : List Byte) : Receiver → Prop
  | authClient | matchClient _ _ => inbox.Legible crypt fun _ => True
  | matchAuthenticate _ =>
    32 ≤ (ByteQueue.ofVector packet).size ∧ inbox.Legible crypt fun _ => True
  | battleAuthenticate _ _ =>
    32 ≤ (ByteQueue.ofVector packet).size ∧ inbox.Legible crypt BattleServer.Headed
  | battleClient _ _ _ => BattleServer.Headed packet ∧ inbox.Legible crypt BattleServer.Headed

/-- **When no exception escapes**, for each of the five handlers. -/
theorem finishes_iff_survives (crypt : κ → List Byte → Except Exn (List Byte) × κ)
    (sha256 : List Byte → Hash) (ar : Arith) (inbox : Inbox κ) (packet : List Byte)
    (r : Receiver) : r.Finishes crypt sha256 ar inbox packet ↔ r.Survives crypt inbox packet := by
  cases r with
  | authClient => exact MyAuth.finishes_iff crypt sha256 inbox packet
  | matchAuthenticate client => exact MyMatch.authenticateFinishes_iff client inbox packet
  | matchClient client accountId => exact MyMatch.finishes_iff client accountId inbox packet
  | battleAuthenticate selfKeyword client =>
    exact BattleServer.authenticateFinishes_iff selfKeyword client inbox packet
  | battleClient client side g => exact BattleServer.finishes_iff client side g inbox packet

/-- An empty packet, the decryption of a frame with nothing but padding, ends a battle
server, and a cookie of three bytes a match server. -/
theorem empty_packet_escapes :
    ¬ Finishes (fun (k : Unit) msg => (.ok msg, k)) toHash ⟨id, 0⟩ ⟨[], true, ()⟩ []
        (.battleClient 0 0 0) ∧
      ¬ Finishes (fun (k : Unit) msg => (.ok msg, k)) toHash ⟨id, 0⟩ ⟨[], true, ()⟩ [1, 2, 3]
        (.matchAuthenticate 0) := by
  constructor
  · intro h
    exact absurd (BattleServer.finishes_iff _ _ _ _ _ |>.mp h).1
      (show ¬ 1 ≤ (ByteQueue.ofVector []).size by decide +kernel)
  · intro h
    exact absurd (MyMatch.authenticateFinishes_iff _ _ _ |>.mp h).1 (by decide +kernel)

end Receiver
end DrgbServer.Network
