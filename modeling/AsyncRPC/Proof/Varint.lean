import AsyncRPC.Proof.ByteArrayCodec

/-!
# Varints over arbitrary bytes

What the encoders put into `temp` and what the decoders make of bytes no encoder need have written.
-/

namespace AsyncRPC

namespace ByteArray

open Radix

variable {w : Nat}

/-- The loop fills `temp` without running past its end, with the one shortest encoding. -/
structure FillsTemp (room : Nat) (value : BitVec w) (temp : List UInt8) : Prop where
  loop : varintLoop room value = .ok temp
  pos : 1 ≤ temp.length
  fits : temp.length ≤ room
  encodes : Encodes temp value.toNat
  shortest : ∀ bs, Encodes bs value.toNat → bs ≠ temp → temp.length < bs.length

/-- The bytes some value of either width is written as. -/
def Emitted (temp : List UInt8) : Prop :=
  (∃ value : BitVec 32, varintLoop 5 value = .ok temp) ∨
    ∃ value : BitVec 64, varintLoop 10 value = .ok temp

/-- From any state of the array with as many bytes left as there are rounds, `get` takes at most that
many, up to the first one below `0x80`, and returns their low seven bits, lowest first. -/
def Decodes (rounds : Nat) (get : ByteArray → Except Fault (BitVec w × ByteArray)) : Prop :=
  ∀ ba : ByteArray, Inv ba → rounds ≤ ba.unread.length →
    ∃ value ba' used, get ba = .ok (value, ba') ∧
      ba.unread = used ++ ba'.unread ∧ ba'.position = ba.position + used.length ∧
      Front rounds used ∧ value.toNat = sum128 used % 2 ^ w

theorem fillsTemp (hw : 8 ≤ w) {room : Nat} {value : BitVec w} {temp : List UInt8}
    (h : digits room value.toNat = some temp) : FillsTemp room value temp where
  loop := varintLoop_eq hw h
  pos := by
    have hencodes := digits_encodes h
    apply List.length_pos_of_ne_nil
    rintro rfl
    exact not_terminated_nil hencodes.terminated
  fits := length_digits h
  encodes := digits_encodes h
  shortest := fun _ hbs hne => digits_shortest h hbs hne

theorem Emitted.terminated {temp : List UInt8} (h : Emitted temp) : Terminated temp := by
  rcases h with ⟨value, hloop⟩ | ⟨value, hloop⟩
  · have hfills := fillsTemp (by decide) (digits_varint32 value.isLt)
    rw [hfills.loop] at hloop
    cases hloop
    exact hfills.encodes.terminated
  · have hfills := fillsTemp (by decide) (digits_varint value.isLt)
    rw [hfills.loop] at hloop
    cases hloop
    exact hfills.encodes.terminated

theorem decodes_readVarintLoop (hw : 8 ≤ w) (host : ByteOrder) (rounds : Nat) :
    Decodes rounds (readVarintLoop host rounds 0 0#w) := by
  intro ba hinv henough
  obtain ⟨used, rest, hsplit, hfront⟩ := exists_front henough
  have hholds := hinv.holds
  rw [hsplit] at hholds
  obtain ⟨value, ba', hread, hvalue, h'⟩ := @reads_readVarint host _ hw _ _ hfront _ _ _ hholds
  refine ⟨value, ba', used, hread, ?_, ?_, hfront, hvalue⟩
  · rw [h'.unread, hsplit]
  · rw [h'.position_eq, List.length_append, ← hholds.position_eq]

end ByteArray

end AsyncRPC
