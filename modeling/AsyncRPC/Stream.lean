import AsyncRPC.Lib.Word

/-!
# Stream

`Stream::readFixSize` and `Stream::writeFixSize` call the underlying `read` or `write` until `len`
bytes have gone through. The four overloads are one loop; they differ in the call they make and in
what keeps the place in the buffer: a `size_t offset` for the pointer overloads, the cursor of the
`ByteArray` for the others, which `SocketStream::read` and `write` move by a positive result only.

The results of the underlying calls are an input. A run takes a finite list of them, so it either
returns or is left inside its last call.
-/

namespace AsyncRPC.Stream

open Word

/-- One underlying call: where it starts, counted from the start of the buffer, and how many bytes
it asks for. -/
structure Request where
  offset : Nat
  len : Nat
  deriving Repr, DecidableEq

/-- The calls made, oldest first, and the value returned, or `none` while the last call is still
waiting for its result. -/
structure Trace where
  requests : List Request
  ret : Option Int
  deriving Repr, DecidableEq

def Trace.after (q : Request) (trace : Trace) : Trace :=
  { trace with requests := q :: trace.requests }

/-- The loop. `l` is a `size_t`, so `l <= 0` only tests for zero. -/
def fixSizeLoop (advance : Nat → Int → Nat) (len : Nat) (results : List Int) (left offset : Nat) :
    Trace :=
  if left > 0 then
    match results with
    | [] => { requests := [⟨offset, left⟩], ret := none }
    | r :: results =>
        let l := sizeOfInt r
        if l ≤ 0 then
          { requests := [⟨offset, left⟩], ret := some (intOfSize l) }
        else
          (fixSizeLoop advance len results (subSize left l) (advance offset r)).after
            ⟨offset, left⟩
  else
    { requests := [], ret := some (intOfSize len) }

/-- `offset += l` -/
def advanceOffset (offset : Nat) (r : Int) : Nat := addSize offset (sizeOfInt r)

/-- `if (ret > 0) ba->setPosition(ba->getPosition() + ret)` -/
def advanceCursor (offset : Nat) (r : Int) : Nat := if r > 0 then offset + r.toNat else offset

/-- `readFixSize(void *buff, size_t len)` -/
def readFixSize (len : UInt64) (results : List Int) : Trace :=
  fixSizeLoop advanceOffset len.toNat results len.toNat 0

/-- `readFixSize(ByteArray::ptr ba, size_t len)` -/
def readFixSizeByteArray (len : UInt64) (results : List Int) : Trace :=
  fixSizeLoop advanceCursor len.toNat results len.toNat 0

/-- `writeFixSize(const void *buff, size_t len)` -/
def writeFixSize (len : UInt64) (results : List Int) : Trace :=
  fixSizeLoop advanceOffset len.toNat results len.toNat 0

/-- `writeFixSize(ByteArray::ptr ba, size_t len)` -/
def writeFixSizeByteArray (len : UInt64) (results : List Int) : Trace :=
  fixSizeLoop advanceCursor len.toNat results len.toNat 0

inductive Overload
  | readBuff
  | readByteArray
  | writeBuff
  | writeByteArray
  deriving Repr, DecidableEq

def Overload.call : Overload → UInt64 → List Int → Trace
  | .readBuff => readFixSize
  | .readByteArray => readFixSizeByteArray
  | .writeBuff => writeFixSize
  | .writeByteArray => writeFixSizeByteArray

/-- What the underlying call may answer: an `int` that is `-1`, zero, or a count of at most the bytes
asked for. -/
def Answers (q : Request) (r : Int) : Prop :=
  r = -1 ∨ r = 0 ∨ (1 ≤ r ∧ r ≤ q.len ∧ r < 2 ^ 31)

instance (q : Request) (r : Int) : Decidable (Answers q r) := by
  unfold Answers; infer_instance

/-- Every call of the run was answered as an underlying call answers. -/
def Answered (trace : Trace) (results : List Int) : Prop :=
  ∀ p ∈ trace.requests.zip results, Answers p.1 p.2

/-- The loop gets to result number `k`: all before it are positive and do not yet make up `len`. -/
def Reached (len : Nat) (results : List Int) (k : Nat) (r : Int) : Prop :=
  results[k]? = some r ∧ (∀ x ∈ results.take k, 0 < x) ∧ (results.take k).sum < len

/-- The first `k` results are positive and make up `len`. -/
def Completes (len : Nat) (results : List Int) (k : Nat) : Prop :=
  (∀ x ∈ results.take k, 0 < x) ∧ (results.take k).sum = len

/-- What a fixed-size transfer promises. -/
structure Contract (len : Nat) (results : List Int) (trace : Trace) : Prop where
  inBounds : ∀ q ∈ trace.requests, q.offset + q.len ≤ len
  returnsLen : trace.ret = some (len : Int) ↔ ∃ k, Completes len results k
  stops : ∀ k r, Reached len results k r → r ≤ 0 →
    trace.requests.length = k + 1 ∧ ∃ v, trace.ret = some v ∧ v ≤ 0

/-- No call that the loop gets to fails with `-1`, and a length that is made up fits an `int`. The
one failure that is reported is the first call of a transfer of `2 ^ 64 - 1` bytes: there the count
left wraps to zero and the length converts to `-1`. -/
def NoFailure (len : Nat) (results : List Int) : Prop :=
  (∀ k, Reached len results k (-1) → k = 0 ∧ len = 2 ^ 64 - 1) ∧
    ∀ k, Completes len results k → len < 2 ^ 31

end AsyncRPC.Stream
