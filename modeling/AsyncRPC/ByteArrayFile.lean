import AsyncRPC.FlatBuffer

/-!
# A ByteArray in a file

Whether the file opens is an input; once it is open, the stream takes all that is written to it.
-/

namespace AsyncRPC

open Blocks Word

structure Ofstream where
  content : List UInt8
  bad : Bool
  deriving Repr, DecidableEq

/-- `ofs.write(node->ptr + off, n)`. From `2 ^ 63` on, `n` is negative as a `std::streamsize`, and
nothing is written, then or later. -/
def Ofstream.write (node : Node) (off n : Nat) (ofs : Ofstream) : Ofstream :=
  if ofs.bad then ofs
  else if n < 2 ^ 63 then { ofs with content := ofs.content ++ slice off n node.ptr }
  else { ofs with bad := true }

structure Ifstream where
  rest : List UInt8
  eof : Bool
  deriving Repr, DecidableEq

/-- `ifs.read(buff, n)`, with the first `ifs.gcount()` bytes of `buff`. -/
def Ifstream.read (n : Nat) (ifs : Ifstream) : List UInt8 × Ifstream :=
  (ifs.rest.take n, { rest := ifs.rest.drop n, eof := ifs.rest.length < n })

namespace ByteArray

variable (heap : Heap)

def nodesFrom (ba : ByteArray) (p : Option Nat) : List Node :=
  match p with
  | none => []
  | some i => ba.nodes.drop i

/-- The loop of `writeToFile`. Every round goes on to the next node, whether or not it has come to the
end of its own. -/
def writeToFileLoop (baseSize : Nat) : List Node → Ofstream → Nat → Nat → Except Fault Ofstream
  | [], ofs, readSize, _ => if readSize > 0 then .error .nullNode else .ok ofs
  | node :: next, ofs, readSize, pos =>
      if readSize > 0 then
        let diff := pos % baseSize
        let len := subSize (if readSize > baseSize then baseSize else readSize) diff
        writeToFileLoop baseSize next (ofs.write node diff len) (subSize readSize len)
          (addSize pos len)
      else .ok ofs

/-- With what was in the file before, and what is in it afterwards. -/
def writeToFile (opens : Bool) (file : List UInt8) (ba : ByteArray) :
    Except Fault (Bool × List UInt8) :=
  if opens then do
    let ofs ← writeToFileLoop ba.baseSize (ba.nodesFrom ba.curr) { content := [], bad := false }
      ba.getReadableSize ba.position
    .ok (true, ofs.content)
  else .ok (false, file)

/-- The loop of `readFromFile` in so many rounds; `none` if it is still running after them. -/
def readFromFileLoop : Nat → Ifstream → ByteArray → Option (Except Fault ByteArray)
  | 0, _, _ => none
  | rounds + 1, ifs, ba =>
      if ifs.eof then some (.ok ba)
      else
        match ba.write heap (ifs.read ba.baseSize).1 with
        | .error fault => some (.error fault)
        | .ok ba' => readFromFileLoop rounds (ifs.read ba.baseSize).2 ba'

def readFromFile (rounds : Nat) (opens : Bool) (file : List UInt8) (ba : ByteArray) :
    Option (Except Fault (Bool × ByteArray)) :=
  if opens then
    (readFromFileLoop heap rounds { rest := file, eof := false } ba).map fun r => (true, ·) <$> r
  else some (.ok (false, ba))

/-- A new array reads the file to its end, and set back to the start it has the file as its string. -/
def Loads (base : Nat) (file : List UInt8) : Prop :=
  ∃ enough, ∀ rounds ≥ enough, ∃ back reset,
    (create heap base).readFromFile heap rounds true file = some (.ok (true, back)) ∧
    back.setPosition 0 = .ok reset ∧ reset.toString = .ok file

/-- Over whatever was in the file, `writeToFile` puts the data from the cursor on, which a new array
gets back. -/
def PassesThroughFile (base : Nat) (ba : ByteArray) : Prop :=
  ∀ old, ∃ file, ba.writeToFile true old = .ok (true, file) ∧ file = ba.unread ∧
    ba.toString = .ok file ∧ Loads heap base file

/-- There is nothing to write, the cursor is at the start of a node, or a node full of data is left. -/
def StartsWhole (ba : ByteArray) : Prop :=
  ba.position = ba.size ∨ ba.position % ba.baseSize = 0 ∨ ba.baseSize ≤ ba.size - ba.position

end ByteArray

end AsyncRPC
