import AsyncRPC.Serializer

/-!
# Rpc

The call result and its place on the wire. `RPCState` is an enumeration over `uint16_t`, so an object
that nothing has assigned yet may hold any of its values.
-/

namespace AsyncRPC

open Emplace

inductive RPCState
  | success
  | fail
  | argsNotMatch
  | noMethod
  | closed
  | timeout
  /-- The value `6 + n`, which has no name. -/
  | unnamed (n : Fin (2 ^ 16 - 6))
  deriving Repr, DecidableEq

def RPCState.toNat : RPCState → Nat
  | .success => 0
  | .fail => 1
  | .argsNotMatch => 2
  | .noMethod => 3
  | .closed => 4
  | .timeout => 5
  | .unnamed n => 6 + n.val

/-- `Result<T>`, where `t` is `return_type_T<T>`: for `void` that is `uint8_t`. -/
structure Result (t : Ty) where
  code : RPCState
  msg : List UInt8
  val : t.Val

def ascii (literal : String) : List UInt8 := literal.toList.map fun c => UInt8.ofNat c.toNat

def rpcServiceSubscribe : List UInt8 := ascii "[[rpc service subscribe]]"

namespace Result

/-- `Result<T>::Success()`, whose `val_` is as its default constructor leaves it. -/
def success {t : Ty} (val : t.Val) : Result t :=
  { code := .success, msg := ascii "success", val := val }

variable (host : ByteOrder) (heap : Heap) (order : HashOrder) {t : Ty}

/-- `Serializer::write<RPCState>`: an enumeration is none of the types listed, so no branch is
compiled. -/
def writeState (_code : RPCState) (ba : ByteArray) : Except Fault ByteArray := .ok ba

/-- `Serializer::read<RPCState>`, likewise. -/
def readState (code : RPCState) (ba : ByteArray) : Except Fault (RPCState × ByteArray) :=
  .ok (code, ba)

def write (res : Result t) (ba : ByteArray) : Except Fault ByteArray := do
  let ba ← writeState res.code ba
  let ba ← Scalar.string.write host heap res.msg ba
  if res.code.toNat = 0 then t.write host heap res.val ba else .ok ba

/-- `operator >>` into `res` -/
def read (res : Result t) (ba : ByteArray) : Except Fault (Result t × ByteArray) := do
  let (code, ba) ← readState res.code ba
  let (msg, ba) ← Scalar.string.read host ba
  let (val, ba) ← t.read host order res.val ba
  .ok ({ code := code, msg := msg, val := val }, ba)

/-- A fresh array with the result and the bytes `rest`, back at the start, and how many bytes the
result took. -/
def stored (base : Nat) (res : Result t) (rest : List UInt8) : Except Fault (Nat × ByteArray) := do
  let ba ← res.write host heap (ByteArray.create heap base)
  let written := ba.position
  let ba ← ba.write heap rest
  let ba ← ba.setPosition 0
  .ok (written, ba)

/-- Read back into `prior`, the result is the same and takes just the bytes it was written as. -/
def RoundTrips (base : Nat) (res prior : Result t) (rest : List UInt8) : Prop :=
  ∃ written ba res' ba', res.stored host heap base rest = .ok (written, ba) ∧
    prior.read host order ba = .ok (res', ba') ∧
    res'.code = res.code ∧ res'.msg = res.msg ∧
    (res.code = .success → t.Eqv res.val res'.val) ∧
    ba'.position = written ∧ ba'.unread = rest

end Result

end AsyncRPC
