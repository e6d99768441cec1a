import AsyncRPC.Lib.Outcome
import AsyncRPC.Proof.ByteArrayCodec
import AsyncRPC.Reader

/-!
# A ByteArray keeps its counters in order as long as nobody reads too much

Every operation but a read keeps the shape `Inv` whatever its arguments. `read` has no test of its
own: asked for more than is readable it either runs out of nodes or takes the cursor past the data,
and whatever is read after that only takes it further.
-/

namespace AsyncRPC

open AsyncRPC.ByteArray (Inv Ordered)
open Transition

/-! ### The readers are what their calls make of them -/

namespace Reader

variable {α β : Type} {host : ByteOrder}

theorem run_bind (r : Reader α) (f : α → Reader β) (ba : ByteArray) :
    (r.bind f).run ba = r.run ba >>= fun result => (f result.1).run result.2 := by
  induction r generalizing ba with
  | ret value => rfl
  | lengthError => rfl
  | read size next ih =>
      change (ba.read size >>= fun result => ((next result.1).bind f).run result.2) = _
      simp only [ih]
      exact (bind_assoc (ba.read size) _ _).symm

theorem run_byte (ba : ByteArray) : (byte host).run ba = ba.readByte host := rfl

theorem run_fixed (n w : Nat) (ba : ByteArray) : (fixed host n w).run ba = ba.readFixed host n w := by
  unfold fixed ByteArray.readFixed
  change (ba.read n >>= fun result => run _ result.2) = ba.read n >>= _
  congr 1
  funext result
  dsimp only
  split
  · rfl
  · rfl

theorem run_varintLoop {w : Nat} (rounds i : Nat) (value : BitVec w) (ba : ByteArray) :
    (varintLoop host rounds i value).run ba = ba.readVarintLoop host rounds i value := by
  induction rounds generalizing i value ba with
  | zero => rfl
  | succ rounds ih =>
      unfold varintLoop ByteArray.readVarintLoop
      rw [run_bind, run_byte]
      change ba.readByte host >>= _ = ba.readByte host >>= _
      congr 1
      funext result
      dsimp only
      split
      · rfl
      · exact ih _ _ _

theorem run_resize (n : Nat) (ba : ByteArray) :
    (resize n).run ba = ByteArray.resize n >>= fun value => .ok (value, ba) := by
  unfold resize ByteArray.resize
  split
  · rfl
  · rfl

theorem run_string {w : Nat} {length : Reader (BitVec w)}
    {get : ByteArray → Except Fault (BitVec w × ByteArray)} (hlength : ∀ ba, length.run ba = get ba)
    (ba : ByteArray) :
    (string length).run ba = get ba >>= fun result =>
      ByteArray.resize result.1.toNat >>= fun value => result.2.read value.length := by
  unfold string
  rw [run_bind, hlength]
  congr 1
  funext result
  rw [run_bind, run_resize, bind_assoc]
  congr 1
  funext value
  change (result.2.read value.length >>= fun r => Except.ok (r.1, r.2)) = _
  exact bind_pure (result.2.read value.length)

/-- **A reader is the sequence of its calls.** -/
theorem run_reader (op : ReadOp) (ba : ByteArray) :
    (op.reader host).run ba = op.perform host ba := by
  cases op with
  | read size => exact bind_pure (ba.read size)
  | stringF16 => exact run_string (run_fixed 2 16) ba
  | stringF32 => exact run_string (run_fixed 4 32) ba
  | codec c =>
      change (ReadOp.codecReader host c).run ba = c.read host ba
      cases c with
      | fint8 | fuint8 => exact run_byte ba
      | fint16 | fuint16 => exact run_fixed 2 16 ba
      | fint32 | fuint32 | float => exact run_fixed 4 32 ba
      | fint64 | fuint64 | double => exact run_fixed 8 64 ba
      | uint32 => exact run_varintLoop 5 0 0 ba
      | uint64 => exact run_varintLoop 10 0 0 ba
      | int32 =>
          change (bind _ _).run ba = _
          rw [run_bind, run_varintLoop]
          rfl
      | int64 =>
          change (bind _ _).run ba = _
          rw [run_bind, run_varintLoop]
          rfl
      | stringF64 => exact run_string (run_fixed 8 64) ba
      | stringVint => exact run_string (run_varintLoop 10 0 0) ba

/-- What an undisturbed reader leaves is what it returns with its value. -/
theorem left_of_run {r : Reader α} {ba ba' : ByteArray} {value : α} (h : r.run ba = .ok (value, ba')) :
    r.left ba = .ok ba' := by
  induction r generalizing ba with
  | ret x =>
      cases h
      rfl
  | lengthError => cases h
  | read size next ih =>
      obtain ⟨result, hread, hrest⟩ := Outcome.bind_eq_ok.mp h
      exact Outcome.bind_eq_ok.mpr ⟨result, hread, ih result.1 hrest⟩

end Reader

/-! ### Reading too much -/

section Reading

variable {α : Type} {ba ba' : ByteArray} {n : Nat}

theorem ByteArray.size_read {bs : List UInt8} (h : ba.read n = .ok (bs, ba')) : ba'.size = ba.size := by
  rw [ByteArray.read] at h
  split at h
  · cases h
    rfl
  · obtain ⟨result, -, hlast⟩ := Outcome.bind_eq_ok.mp h
    cases hlast
    rfl

theorem ByteArray.Inv.ordered (h : Inv ba) : Ordered ba where
  position_le := h.position_le
  size_le := h.size_le
  readable_eq := h.getReadableSize_eq
  capacity_eq := h.getCapacity_eq

/-- Reads take the cursor forward and never give it more data. -/
theorem Reader.left_forward {r : Reader α} (h : r.left ba = .ok ba') :
    ba.position ≤ ba'.position ∧ ba'.size = ba.size := by
  induction r generalizing ba with
  | ret value =>
      cases h
      exact ⟨Nat.le_refl _, rfl⟩
  | lengthError =>
      cases h
      exact ⟨Nat.le_refl _, rfl⟩
  | read size next ih =>
      obtain ⟨⟨bs, mid⟩, hread, hrest⟩ := Outcome.bind_eq_ok.mp h
      obtain ⟨hforward, hsize⟩ := ih bs hrest
      have hmid := ByteArray.position_read hread
      refine ⟨?_, hsize.trans (ByteArray.size_read hread)⟩
      calc ba.position ≤ mid.position := hmid ▸ Nat.le_add_right _ _
        _ ≤ ba'.position := hforward

theorem Reader.calls_read {next : List UInt8 → Reader α} {bs : List UInt8}
    (h : ba.read n = .ok (bs, ba')) :
    (Reader.read n next).calls ba = (n, ba) :: (next bs).calls ba' := by
  rw [Reader.calls, h]

theorem Reader.left_read {next : List UInt8 → Reader α} {bs : List UInt8}
    (h : ba.read n = .ok (bs, ba')) : (Reader.read n next).left ba = (next bs).left ba' := by
  rw [Reader.left, h]
  rfl

/-- A reader that asks for no more than there is keeps the shape. -/
theorem ByteArray.Inv.left (h : Inv ba) {r : Reader α}
    (hwithin : ∀ call ∈ r.calls ba, call.1 ≤ call.2.getReadableSize) :
    ∃ ba', r.left ba = .ok ba' ∧ Inv ba' := by
  induction r generalizing ba with
  | ret value => exact ⟨ba, rfl, h⟩
  | lengthError => exact ⟨ba, rfl, h⟩
  | read size next ih =>
      have hsize : size ≤ ba.getReadableSize := by
        unfold Reader.calls at hwithin
        exact hwithin (size, ba) List.mem_cons_self
      rw [h.getReadableSize_eq] at hsize
      obtain ⟨mid, hread, hmid, -⟩ := h.read_spec hsize
      rw [Reader.calls_read hread] at hwithin
      rw [Reader.left_read hread]
      exact ih _ hmid fun call hcall => hwithin call (List.mem_cons_of_mem _ hcall)

/-- A reader that asks for more, at any of its calls, does not. -/
theorem ByteArray.Inv.within_of_ordered_left (h : Inv ba) {r : Reader α}
    (hleft : Live Ordered (r.left ba)) : ∀ call ∈ r.calls ba, call.1 ≤ call.2.getReadableSize := by
  induction r generalizing ba with
  | ret value =>
      intro call hcall
      cases hcall
  | lengthError =>
      intro call hcall
      cases hcall
  | read size next ih =>
      obtain ⟨last, hlast, hordered⟩ := live_iff.mp hleft
      obtain ⟨⟨bs, mid⟩, hread, hrest⟩ := Outcome.bind_eq_ok.mp hlast
      obtain ⟨hforward, hsizeEq⟩ := Reader.left_forward hrest
      have hposition : ba.position + size ≤ ba.size := by
        calc ba.position + size = mid.position := (ByteArray.position_read hread).symm
          _ ≤ last.position := hforward
          _ ≤ last.size := hordered.position_le
          _ = ba.size := hsizeEq.trans (ByteArray.size_read hread)
      have hsize : size ≤ ba.flat.readable := Nat.le_sub_of_add_le' hposition
      obtain ⟨mid', hread', hmid, -⟩ := h.read_spec hsize
      rw [Reader.calls_read hread']
      rw [Reader.left_read hread'] at hleft
      intro call hcall
      rcases List.mem_cons.mp hcall with rfl | hlater
      · rw [h.getReadableSize_eq]
        exact hsize
      · exact ih _ hmid hleft call hlater

end Reading

/-! ### Everything else -/

section Writing

variable {host : ByteOrder} {heap : Heap}

/-- Whatever it is called with, `put` succeeds and keeps the shape. -/
def Keeps (put : ByteArray → Except Fault ByteArray) : Prop :=
  ∀ ⦃ba : ByteArray⦄, ba.Inv → ∃ ba' : ByteArray, put ba = .ok ba' ∧ ba'.Inv

theorem keeps_write (buf : List UInt8) : Keeps fun ba => ba.write heap buf := by
  intro ba h
  obtain ⟨ba', hwrite, hinv, -⟩ := h.write_spec heap buf
  exact ⟨ba', hwrite, hinv⟩

theorem Keeps.bind {put next : ByteArray → Except Fault ByteArray} (hput : Keeps put)
    (hnext : Keeps next) : Keeps fun ba => put ba >>= next := by
  intro ba h
  obtain ⟨mid, hmid, hinv⟩ := hput h
  obtain ⟨ba', hlast, hinv'⟩ := hnext hinv
  exact ⟨ba', Outcome.bind_eq_ok.mpr ⟨mid, hmid, hlast⟩, hinv'⟩

theorem keeps_writeFixed {w : Nat} (n : Nat) (value : BitVec w) :
    Keeps (ByteArray.writeFixed host heap n value) :=
  keeps_write _

theorem keeps_writeUint32 (value : BitVec 32) : Keeps (ByteArray.writeUint32 heap value) := by
  unfold ByteArray.writeUint32
  rw [ByteArray.varintLoop_eq (by decide) (ByteArray.digits_varint32 value.isLt)]
  exact keeps_write _

theorem keeps_writeUint64 (value : BitVec 64) : Keeps (ByteArray.writeUint64 heap value) := by
  unfold ByteArray.writeUint64
  rw [ByteArray.varintLoop_eq (by decide) (ByteArray.digits_varint value.isLt)]
  exact keeps_write _

theorem Codec.keeps (c : Codec) (value : c.Val) : Keeps (c.write host heap value) := by
  cases c with
  | fint8 | fuint8 => exact keeps_writeFixed 1 value
  | fint16 | fuint16 => exact keeps_writeFixed 2 value
  | fint32 | fuint32 | float => exact keeps_writeFixed 4 value
  | fint64 | fuint64 | double => exact keeps_writeFixed 8 value
  | int32 => exact keeps_writeUint32 _
  | uint32 => exact keeps_writeUint32 _
  | int64 => exact keeps_writeUint64 _
  | uint64 => exact keeps_writeUint64 _
  | stringF64 => exact (keeps_writeFixed 8 _).bind (keeps_write value)
  | stringVint => exact (keeps_writeUint64 _).bind (keeps_write value)

theorem WriteOp.keeps (op : WriteOp) : Keeps (op.perform host heap) := by
  cases op with
  | write buf => exact keeps_write buf
  | codec c value => exact c.keeps value
  | stringF16 value => exact (keeps_writeFixed 2 _).bind (keeps_write value)
  | stringF32 value => exact (keeps_writeFixed 4 _).bind (keeps_write value)
  | stringWithoutLength value => exact keeps_write value

end Writing

namespace ByteArray

variable {host : ByteOrder} {heap : Heap} {ba : ByteArray}

/-- One operation keeps the shape if its reads ask for no more than there is. -/
theorem Inv.perform (h : Inv ba) {op : ArrayOp} (hwithin : ba.AsksWithin host op) :
    ∃ ba', ba.perform host heap op = .ok ba' ∧ Inv ba' := by
  cases op with
  | write op => exact op.keeps h
  | read op => exact h.left hwithin
  | setPosition v =>
      rw [ByteArray.perform]
      by_cases hv : v ≤ ba.capacity
      · obtain ⟨ba', hmove, hinv, -⟩ := h.setPosition_spec hv
        rw [hmove]
        exact ⟨ba', rfl, hinv⟩
      · have hthrows : ba.setPosition v = .error .outOfRange := by
          rw [ByteArray.setPosition, if_pos (Nat.lt_of_not_le hv)]
        rw [hthrows]
        exact ⟨ba, rfl, h⟩
  | clear => exact ⟨ba.clear, rfl, h.clear_spec.1⟩
  | getWriteBuffers len bytes =>
      obtain ⟨buffers, hrun, -, hfills⟩ := h.getWriteBuffers_tiles heap len rfl
      obtain ⟨nodes, hfill, -, hinv⟩ := hfills (bytes.take len) (List.length_take_le len bytes)
      rw [ByteArray.perform, hrun]
      exact ⟨_, rfl, hfill ▸ hinv⟩

theorem Inv.ordered_perform_iff (h : Inv ba) (op : ArrayOp) :
    Live Ordered (ba.perform host heap op) ↔ ba.AsksWithin host op := by
  constructor
  · intro hordered
    cases op with
    | read op => exact h.within_of_ordered_left hordered
    | write | setPosition | clear | getWriteBuffers => trivial
  · intro hwithin
    obtain ⟨ba', hrun, hinv⟩ := h.perform hwithin
    exact live_iff.mpr ⟨ba', hrun, hinv.ordered⟩

/-- What is not asked need not be refused. -/
theorem refusesExcess_of_asksWithin {op : ArrayOp} (hwithin : ba.AsksWithin host op) :
    ba.RefusesExcess host op := by
  cases op with
  | read op =>
      intro call hcall hexcess
      exact absurd (hwithin call hcall) (Nat.not_le.mpr hexcess)
  | write | setPosition | clear | getWriteBuffers => trivial

/-- **Counters in order.** Through any sequence of operations on a new array the counters stay in
order and reads of too much are refused precisely when nothing asks `read` for more than
`getReadableSize()`. -/
theorem guarded_iff (host : ByteOrder) (heap : Heap) {base : Nat} (hbase : 0 < base)
    (ops : List ArrayOp) :
    Guarded host heap base ops ↔
      AllSteps (attempt (perform host heap)) (WhenLive (AsksWithin host)) (.ok (create heap base)) ops := by
  have hcreate := inv_create heap hbase
  have hexact : AllStates (attempt (perform host heap)) (Live Ordered) (.ok (create heap base)) ops ↔
      AllSteps (attempt (perform host heap)) (WhenLive (AsksWithin host)) (.ok (create heap base)) ops := by
    have hpossible : AllSteps (attempt (perform host heap)) (WhenLive fun _ _ => True)
        (.ok (create heap base)) ops :=
      fun before op _ => whenLive_of_forall (fun _ _ => trivial) _ op
    refine live_allStates_iff_allSteps ?_ ?_ hcreate hcreate.ordered hpossible
    · intro ba op ba' h _ _ hrun hordered
      have hlive : Live Ordered (ba.perform host heap op) := live_iff.mpr ⟨ba', hrun, hordered⟩
      obtain ⟨_, hrun', hinv⟩ := h.perform (h.ordered_perform_iff op |>.mp hlive)
      exact (Except.ok.inj (hrun'.symm.trans hrun)) ▸ hinv
    · intro ba op h _ _
      exact h.ordered_perform_iff op
  constructor
  · intro h
    exact hexact.mp h.ordered
  · intro hwithin
    refine ⟨hexact.mpr hwithin, fun before op hbegins => ?_⟩
    exact (hwithin before op hbegins).imp fun _ _ => refusesExcess_of_asksWithin

/-- A string behind its length, over nodes of three bytes. -/
theorem guarded_iff_straddling :
    Guarded .little (fun _ _ => 0) 3
      [.write (.stringF16 [1, 2, 3, 4]), .setPosition 0, .read .stringF16] := by
  refine (guarded_iff .little (fun _ _ => 0) (by decide) _).mpr ?_
  rw [allSteps_cons, allSteps_cons, allSteps_cons]
  refine ⟨trivial, trivial, ?_, allSteps_nil⟩
  change ∀ call ∈ (ReadOp.stringF16.reader .little).calls _, call.1 ≤ call.2.getReadableSize
  decide

/-- One byte read of a new array takes the cursor past its data, of which there is none. -/
theorem not_guarded_firstRead :
    ¬ Guarded .little (fun _ _ => 0) 4 [.read (.codec .fuint8)] := by
  intro h
  have hlast : Ordered { create (fun _ _ => 0) 4 with position := 1 } :=
    h.ordered [.read (.codec .fuint8)] List.prefix_rfl
  exact absurd hlast.position_le (by decide)

end ByteArray

end AsyncRPC
