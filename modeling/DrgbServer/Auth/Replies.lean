import DrgbServer.Auth.MyAuth

/-! # `MyAuth`: the replies to a request

A registration or login is answered from many places of `ClientProcess`. `Replied n` says
that a procedure ends without an exception and has sent `n` packets; one lemma for each part
of the handler adds them up. -/
namespace DrgbServer.Auth
open DrgbServer.Utils DrgbServer.Network DrgbServer.Lib.Procedure

/-- The call of the database. -/
def Answers.call (a : Answers) (header : Byte) (pwdHash : Hash) (email : List Byte) :
    Except Exn AccountId :=
  if header = reqRegister then a.registerAccount email pwdHash else a.findAccount email pwdHash

namespace MyAuth
variable {sha256 : List Byte → Hash} {a : Answers} {c : Socket} {header : Byte} {pwdHash : Hash}
  {email : List Byte} {accountId : AccountId} {packet : ByteQueue}

/-- The procedure returns and has sent `n` packets to the client. -/
def Replied (n : Nat) (m : Proc Socket Stop Unit) (c : Socket) : Prop :=
  ∃ c' replies, exec m c = (.ok (), c') ∧ c'.sent = c.sent ++ replies ∧ replies.length = n

/-! ## The parts of the handler -/

theorem Replied.unique {n k : Nat} {m : Proc Socket Stop Unit} (h : Replied n m c)
    (h' : Replied k m c) : n = k := by
  obtain ⟨_, replies, hexec, hsent, rfl⟩ := h
  obtain ⟨_, replies', hexec', hsent', rfl⟩ := h'
  rw [hexec] at hexec'
  cases hexec'
  rw [hsent] at hsent'
  rw [List.append_cancel_left hsent']

/-- The `try` block of a request, once its fields are read. -/
def serve (sha256 : List Byte → Hash) (a : Answers) (header : Byte) (pwdHash : Hash)
    (email : List Byte) : Proc Socket Stop Unit := do
  let accountId ← login a header pwdHash email
  if accountId > 0 then sessionCheck sha256 a accountId

section Login
variable {id : AccountId} {e : Exn} (hne : email ≠ []) (hconn : a.connection = true)

include hne

include hconn

end Login

/-! ## The handler -/

section Handler
variable {m : Proc Socket Stop Unit} {c' : Socket} {e : Exn} {n : Nat}

end Handler

section Serve
variable {id : AccountId} {e : Exn}

variable (hne : email ≠ [])
include hne

variable (hconn : a.connection = true)
include hconn

end Serve

section Once
variable {id : AccountId} (hne : email ≠ []) (hconn : a.connection = true) (hc : c.accepts = true)
  (hcall : a.call header pwdHash email = .ok id)
include hne hconn hc hcall

end Once

def connected : Socket := ⟨true, false, sessionTTL, []⟩

end MyAuth
end DrgbServer.Auth
