import AsyncRPC.FlatBuffer
import AsyncRPC.Lib.Outcome

/-!
# ByteArray refines a flat buffer

All five loops over the nodes are `chunkLoop`, so what they do is said once, as a rule for loop
invariants: if handing over one piece moves an invariant from the bytes done to the bytes done with
the piece, the whole loop does, and it ends with the node pointer seated at the position after the
last byte. Each operation is then one instance, and the refinement follows operation by operation.
-/

namespace AsyncRPC

theorem FlatBuffer.baseSize_step (heap : Heap) (fb : FlatBuffer) (op : BufferOp) :
    (fb.step heap op).1.baseSize = fb.baseSize := by
  cases op with
  | setPosition v =>
      unfold FlatBuffer.step
      simp only
      split <;> rfl
  | _ => rfl

theorem FlatBuffer.baseSize_run (heap : Heap) (ops : List BufferOp) :
    ∀ fb : FlatBuffer, (fb.run heap ops).1.baseSize = fb.baseSize := by
  induction ops with
  | nil => exact fun _ => rfl
  | cons op ops ih => exact fun fb => (ih _).trans (fb.baseSize_step heap op)

namespace ByteArray

open Blocks Word

/-- The node pointer for a position: the node it falls into, null at the end of the capacity. -/
def seat (count base position : Nat) : Option Nat :=
  if position = base * count then none else some (position / base)

/-- **The loop rule.** -/
theorem chunkLoop_spec {σ : Type} {count base : Nat} (hbase : 0 < base)
    {act : σ → Nat → Nat → Nat → Nat → σ} {done : σ → Nat → Prop} {start total : Nat}
    (hact : ∀ s i off bpos n, i < count → off + n ≤ base → i * base + off = start + bpos →
      bpos + n ≤ total → done s bpos → done (act s i off bpos n) (bpos + n)) :
    ∀ (rounds : Nat) (s : σ) (curr npos bpos size : Nat), 0 < size → npos < base → curr < count →
      curr * base + npos = start + bpos → bpos + size = total → start + total ≤ count * base →
      count ≤ curr + rounds → done s bpos →
      ∃ t, chunkLoop (List.replicate count base) act rounds s curr npos (base - npos) bpos size
          = .ok (t, seat count base (start + total)) ∧ done t total := by
  intro rounds
  induction rounds with
  | zero =>
      intro s curr npos bpos size _ _ hcurr _ _ _ hrounds _
      omega
  | succ rounds ih =>
      intro s curr npos bpos size hsize hnpos hcurr hplace htotal hroom hrounds hdone
      rw [chunkLoop]
      by_cases hlast : base - npos ≥ size
      · refine ⟨act s curr npos bpos size, ?_, ?_⟩
        · simp only [hlast, if_true, List.length_replicate, Except.ok.injEq, Prod.mk.injEq,
            true_and, List.getElem?_replicate_of_lt hcurr, Option.some.injEq, seat]
          have hend : start + total = curr * base + (npos + size) := by omega
          by_cases hfull : base = size + npos
          · -- the piece fills its node, so the position is at the start of the next one
            have hend' : start + total = (curr + 1) * base := by
              rw [hend, Nat.add_comm npos, ← hfull]
              ring
            rw [if_pos hfull, hend', Nat.mul_div_cancel _ hbase, Nat.mul_comm base count]
            by_cases hnext : curr + 1 < count
            · have hne : (curr + 1) * base ≠ count * base := fun h =>
                absurd (Nat.eq_of_mul_eq_mul_right hbase h) (by omega)
              rw [if_pos hnext, if_neg hne]
            · rw [if_neg hnext, if_pos (by rw [show curr + 1 = count by omega])]
          · have hdiv : (curr * base + (npos + size)) / base = curr := by
              rw [Nat.mul_comm, Nat.mul_add_div hbase, Nat.div_eq_of_lt (by omega), Nat.add_zero]
            have hne : curr * base + (npos + size) ≠ base * count := by
              have : (curr + 1) * base ≤ count * base := Nat.mul_le_mul_right _ hcurr
              have hexpand : (curr + 1) * base = curr * base + base := by ring
              rw [Nat.mul_comm base count]
              omega
            rw [if_neg hfull, hend, if_neg hne, hdiv]
        · have hstep := hact s curr npos bpos size hcurr (by omega) hplace (by omega) hdone
          rwa [htotal] at hstep
      · have hexpand : (curr + 1) * base = curr * base + base := by ring
        have hnext : curr + 1 < count := by
          by_contra hge
          have : count * base ≤ (curr + 1) * base := Nat.mul_le_mul_right _ (by omega)
          omega
        have hstep := hact s curr npos bpos (base - npos) hcurr (by omega) hplace (by omega) hdone
        obtain ⟨t, hrun, ht⟩ := ih (act s curr npos bpos (base - npos)) (curr + 1) 0
          (bpos + (base - npos)) (size - (base - npos)) (by omega) hbase hnext (by omega) (by omega)
          hroom (by omega) hstep
        refine ⟨t, ?_, ht⟩
        simp only [hlast, if_false, List.getElem?_replicate_of_lt hnext]
        exact hrun

/-- With more bytes to hand out than there are in the chain, the loop runs off its end. -/
theorem chunkLoop_short {σ : Type} {count base : Nat} (act : σ → Nat → Nat → Nat → Nat → σ) :
    ∀ (rounds : Nat) (s : σ) (curr npos bpos size : Nat), npos < base → curr < count →
      count * base < curr * base + npos + size →
      chunkLoop (List.replicate count base) act rounds s curr npos (base - npos) bpos size
        = .error .nullNode := by
  intro rounds
  induction rounds with
  | zero => exact fun _ _ _ _ _ _ _ _ => rfl
  | succ rounds ih =>
      intro s curr npos bpos size hnpos hcurr hshort
      have hnode : (curr + 1) * base ≤ count * base := Nat.mul_le_mul_right base hcurr
      have hexpand : (curr + 1) * base = curr * base + base := by ring
      have hmore : ¬ base - npos ≥ size := by omega
      rw [chunkLoop]
      simp only [if_neg hmore]
      by_cases hnext : curr + 1 < count
      · simp only [List.getElem?_replicate_of_lt hnext]
        exact ih _ (curr + 1) 0 _ _ (by omega) hnext (by omega)
      · have hnone : (List.replicate count base)[curr + 1]? = none := by
          rw [List.getElem?_eq_none_iff, List.length_replicate]
          omega
        simp only [hnone]

section Spec

variable {ba : ByteArray}

theorem Inv.chain_eq (h : Inv ba) : ba.chain = List.replicate ba.nodes.length ba.baseSize := by
  rw [List.eq_replicate_iff]
  refine ⟨by simp [chain], fun n hn => ?_⟩
  obtain ⟨node, hnode, rfl⟩ := List.mem_map.mp hn
  exact h.uniform node hnode

theorem Inv.blocks (h : Inv ba) : ∀ b ∈ ba.nodes.map Node.ptr, b.length = ba.baseSize := by
  intro b hb
  obtain ⟨node, hnode, rfl⟩ := List.mem_map.mp hb
  exact h.uniform node hnode

theorem Inv.length_data (h : Inv ba) : ba.flat.data.length = ba.capacity := by
  rw [flat, length_flatten h.blocks, List.length_map, h.capacity_eq, Nat.mul_comm]

theorem Inv.curr_seat (h : Inv ba) : ba.curr = seat ba.nodes.length ba.baseSize ba.position := by
  rw [h.curr_eq, seat, h.capacity_eq]

theorem Inv.getReadableSize_eq (h : Inv ba) : ba.getReadableSize = ba.flat.readable :=
  subSize_of_le h.position_le

theorem Inv.getCapacity_eq (h : Inv ba) : ba.getCapacity = ba.capacity - ba.position :=
  subSize_of_le (h.position_le.trans h.size_le)

theorem Inv.copyOut_eq (h : Inv ba) {i off n position : Nat} (hi : i < ba.nodes.length)
    (hn : off + n ≤ ba.baseSize) (hplace : i * ba.baseSize + off = position) :
    ba.copyOut i off n = slice position n ba.flat.data := by
  rw [copyOut, ← hplace, flat, slice_flatten h.blocks (by simpa using hi) hn]

/-- Before the end of the capacity the cursor has a node. -/
theorem Inv.deref_curr (h : Inv ba) (hbefore : ba.position < ba.capacity) :
    ba.position / ba.baseSize < ba.nodes.length ∧
      ba.deref ba.curr = .ok (ba.position / ba.baseSize, ba.baseSize) := by
  have hcurr : ba.position / ba.baseSize < ba.nodes.length := by
    rwa [Nat.div_lt_iff_lt_mul h.base_pos, Nat.mul_comm, ← h.capacity_eq]
  refine ⟨hcurr, ?_⟩
  rw [h.curr_eq, if_neg hbefore.ne, deref, h.chain_eq]
  simp only [List.getElem?_replicate_of_lt hcurr]

/-- The loop, entered in the node of the cursor with room for `size` bytes from `start` on. -/
theorem Inv.chunksAt_spec (h : Inv ba) (hbefore : ba.position < ba.capacity) {position start : Nat}
    (hstart : ba.position / ba.baseSize * ba.baseSize + position % ba.baseSize = start)
    {σ : Type} (act : σ → Nat → Nat → Nat → Nat → σ) (done : σ → Nat → Prop) {s : σ}
    (hs : done s 0) {size : Nat} (hsize : 0 < size) (hroom : start + size ≤ ba.capacity)
    (hact : ∀ s i off bpos n, i < ba.nodes.length → off + n ≤ ba.baseSize →
      i * ba.baseSize + off = start + bpos → bpos + n ≤ size →
      done s bpos → done (act s i off bpos n) (bpos + n)) :
    ∃ t, ba.chunks position act s size
        = .ok (t, seat ba.nodes.length ba.baseSize (start + size)) ∧ done t size := by
  obtain ⟨hcurr, hderef⟩ := h.deref_curr hbefore
  have hcapacity := h.capacity_eq
  rw [Nat.mul_comm] at hcapacity
  obtain ⟨t, hrun, ht⟩ := chunkLoop_spec h.base_pos hact ba.nodes.length s _ _ 0 size hsize
    (Nat.mod_lt _ h.base_pos) hcurr hstart (Nat.zero_add size) (by omega) (Nat.le_add_left _ _) hs
  refine ⟨t, ?_, ht⟩
  rw [chunks, hderef, h.chain_eq]
  exact hrun

theorem cursor_place (ba : ByteArray) :
    ba.position / ba.baseSize * ba.baseSize + ba.position % ba.baseSize = ba.position := by
  rw [Nat.mul_comm, Nat.div_add_mod]

/-- The loop, entered at the cursor with room for `size` bytes. -/
theorem Inv.chunks_spec (h : Inv ba) {σ : Type} (act : σ → Nat → Nat → Nat → Nat → σ)
    (done : σ → Nat → Prop) {s : σ} (hs : done s 0) {size : Nat} (hsize : 0 < size)
    (hroom : ba.position + size ≤ ba.capacity)
    (hact : ∀ s i off bpos n, i < ba.nodes.length → off + n ≤ ba.baseSize →
      i * ba.baseSize + off = ba.position + bpos → bpos + n ≤ size →
      done s bpos → done (act s i off bpos n) (bpos + n)) :
    ∃ t, ba.chunks ba.position act s size
        = .ok (t, seat ba.nodes.length ba.baseSize (ba.position + size)) ∧ done t size :=
  h.chunksAt_spec (by omega) (cursor_place ba) act done hs hsize hroom hact

end Spec

/-! ### Room for more bytes -/

section Grow

variable {heap : Heap} {ba : ByteArray}

theorem le_ceil_mul (n : Nat) {base : Nat} (hbase : 0 < base) : n ≤ (n + base - 1) / base * base := by
  have hdiv := Nat.div_add_mod (n + base - 1) base
  have hmod := Nat.mod_lt (n + base - 1) hbase
  rw [Nat.mul_comm] at hdiv
  omega

theorem grow_of_fits {fb : FlatBuffer} {n : Nat} (hbase : 0 < fb.baseSize)
    (hfits : fb.position + n ≤ fb.data.length) : fb.grow heap n = fb := by
  have hcount : (fb.position + n - fb.data.length + fb.baseSize - 1) / fb.baseSize = 0 := by
    rw [Nat.sub_eq_zero_of_le hfits, Nat.zero_add]
    exact Nat.div_eq_of_lt (by omega)
  simp [FlatBuffer.grow, hcount]

theorem addCapacity_of_fits (h : Inv ba) {n : Nat} (hfits : ba.position + n ≤ ba.capacity) :
    ba.addCapacity heap n = ba := by
  unfold addCapacity
  rw [h.getCapacity_eq]
  split
  · rfl
  · rw [if_pos (by omega)]

/-- How many nodes it takes to make room for `n` bytes at the cursor. -/
def missing (ba : ByteArray) (n : Nat) : Nat :=
  (ba.position + n - ba.capacity + ba.baseSize - 1) / ba.baseSize

/-- The next `count` nodes the allocator hands out. -/
def fresh (heap : Heap) (ba : ByteArray) (count : Nat) : List Node :=
  (List.range count).map fun i => Node.alloc heap (ba.allocated + i) ba.baseSize

@[simp]
theorem length_fresh (count : Nat) : (fresh heap ba count).length = count := by
  simp [fresh]

theorem size_of_mem_fresh {count : Nat} {node : Node} (hnode : node ∈ fresh heap ba count) :
    node.size = ba.baseSize := by
  obtain ⟨i, -, rfl⟩ := List.mem_map.mp hnode
  simp [Node.alloc, Node.size]

theorem Inv.missing_enough (h : Inv ba) (n : Nat) :
    ba.position + n - ba.capacity ≤ missing ba n * ba.baseSize :=
  le_ceil_mul _ h.base_pos

theorem addCapacity_of_not_fits (h : Inv ba) {n : Nat} (hmore : ba.capacity < ba.position + n) :
    ba.addCapacity heap n
      = { ba with
          nodes := ba.nodes ++ fresh heap ba (missing ba n)
          capacity := ba.capacity + missing ba n * ba.baseSize
          curr := if ba.position = ba.capacity then some ba.nodes.length else ba.curr
          allocated := ba.allocated + missing ba n } := by
  have hle := h.position_le.trans h.size_le
  have hcount : (n - (ba.capacity - ba.position) + ba.baseSize - 1) / ba.baseSize
      = missing ba n := by
    rw [missing, show n - (ba.capacity - ba.position) = ba.position + n - ba.capacity by omega]
  have hne : missing ba n ≠ 0 := by
    intro hzero
    have := h.missing_enough n
    rw [hzero] at this
    omega
  have hold : (ba.capacity - ba.position = 0) = (ba.position = ba.capacity) := by
    apply propext
    omega
  unfold addCapacity
  rw [h.getCapacity_eq, if_neg (by omega)]
  simp only [hcount]
  rw [if_neg (by omega), if_neg hne]
  simp only [hold, fresh]

/-- Growing keeps the shape, agrees with the flat buffer, and leaves room for the bytes. -/
theorem Inv.addCapacity (h : Inv ba) (heap : Heap) (n : Nat) :
    Inv (ba.addCapacity heap n) ∧ (ba.addCapacity heap n).flat = ba.flat.grow heap n ∧
      ba.position + n ≤ (ba.addCapacity heap n).capacity ∧
      (ba.addCapacity heap n).position = ba.position ∧
      (ba.addCapacity heap n).size = ba.size := by
  by_cases hfits : ba.position + n ≤ ba.capacity
  · rw [addCapacity_of_fits h hfits, grow_of_fits h.base_pos (h.length_data.symm ▸ hfits)]
    exact ⟨h, rfl, hfits, rfl, rfl⟩
  · have hmore : ba.capacity < ba.position + n := by omega
    have henough := h.missing_enough n
    rw [addCapacity_of_not_fits h hmore]
    refine ⟨⟨h.base_pos, by simp [h.head], ?_, ?_, h.position_le, ?_, ?_⟩, ?_, ?_, rfl, rfl⟩
    · intro node hnode
      rcases List.mem_append.mp hnode with hold | hnew
      · exact h.uniform node hold
      · have hsize := size_of_mem_fresh hnew
        exact hsize
    · simp only [List.length_append, h.capacity_eq, length_fresh]
      ring
    · exact h.size_le.trans (Nat.le_add_right _ _)
    · -- the cursor was at the end exactly when it is now at the first new node
      have hne : ba.position ≠ ba.capacity + missing ba n * ba.baseSize := by
        have := h.position_le.trans h.size_le
        omega
      simp only [if_neg hne]
      by_cases hend : ba.position = ba.capacity
      · rw [if_pos hend, hend, h.capacity_eq, Nat.mul_div_cancel_left _ h.base_pos]
      · rw [if_neg hend, h.curr_eq, if_neg hend]
    · have hdata := h.length_data
      simp only [flat] at hdata
      simp only [flat, FlatBuffer.grow, hdata, missing]
      simp [fresh, List.flatMap, Function.comp_def]
    · change ba.position + n ≤ ba.capacity + missing ba n * ba.baseSize
      omega

end Grow

/-! ### Copying in and out -/

section Copy

variable {heap : Heap} {ba : ByteArray}

theorem map_ptr_modify (nodes : List Node) (i off : Nat) (bytes : List UInt8) :
    (nodes.modify i (Node.copyIn off bytes)).map Node.ptr
      = (nodes.map Node.ptr).modify i (overwrite off bytes) := by
  induction nodes generalizing i with
  | nil => simp
  | cons node nodes ih =>
      cases i with
      | zero => rfl
      | succ i =>
          simp only [List.modify_succ_cons, List.map_cons]
          rw [ih]

/-- A chain of `count` nodes of `base` bytes that holds the flat data. -/
structure Lays (count base : Nat) (data : List UInt8) (nodes : List Node) : Prop where
  length : nodes.length = count
  uniform : ∀ b ∈ nodes.map Node.ptr, b.length = base
  flatten : (nodes.map Node.ptr).flatten = data

theorem Inv.lays (h : Inv ba) : Lays ba.nodes.length ba.baseSize ba.flat.data ba.nodes :=
  ⟨rfl, h.blocks, rfl⟩

/-- Copying into one node overwrites the flat data at the node's place. -/
theorem Lays.modify {count base : Nat} {data : List UInt8} {nodes : List Node}
    (h : Lays count base data nodes) {i off place : Nat} {bytes : List UInt8} (hi : i < count)
    (hn : off + bytes.length ≤ base) (hplace : i * base + off = place) :
    Lays count base (overwrite place bytes data) (nodes.modify i (Node.copyIn off bytes)) := by
  have hlength : i < (nodes.map Node.ptr).length := by
    rw [List.length_map, h.length]
    exact hi
  refine ⟨by rw [List.length_modify, h.length], ?_, ?_⟩
  · rw [map_ptr_modify]
    intro b hb
    obtain ⟨j, hj⟩ := List.mem_iff_getElem?.mp hb
    rw [List.getElem?_modify] at hj
    cases hget : (nodes.map Node.ptr)[j]? with
    | none =>
        rw [hget] at hj
        simp at hj
    | some c =>
        have hc := h.uniform c (List.mem_of_getElem? hget)
        rw [hget] at hj
        by_cases hij : i = j
        · simp only [hij, Option.map_eq_map, Option.map_some, if_true, Option.some.injEq] at hj
          rw [← hj, length_overwrite (hc.symm ▸ hn), hc]
        · simp only [hij, Option.map_eq_map, Option.map_some, if_false, Option.some.injEq] at hj
          exact hj ▸ hc
  · rw [map_ptr_modify, flatten_modify h.uniform hlength hn, h.flatten, hplace]

theorem Inv.copy_spec (h : Inv ba) {buf : List UInt8} (hsize : 0 < buf.length)
    (hroom : ba.position + buf.length ≤ ba.capacity) :
    ∃ nodes, ba.chunks ba.position
        (fun nodes i off bpos n => nodes.modify i (Node.copyIn off (slice bpos n buf)))
        ba.nodes buf.length
      = .ok (nodes, seat ba.nodes.length ba.baseSize (ba.position + buf.length)) ∧
      Lays ba.nodes.length ba.baseSize (overwrite ba.position buf ba.flat.data) nodes := by
  have hdata := h.length_data
  -- after `bpos` bytes the chain holds the flat data with that much of `buf` written
  let done := fun (nodes : List Node) bpos => Lays ba.nodes.length ba.baseSize
    (overwrite ba.position (slice 0 bpos buf) ba.flat.data) nodes
  have hstart : done ba.nodes 0 := by simpa [done] using h.lays
  obtain ⟨nodes, hrun, hdone⟩ := h.chunks_spec _ done hstart hsize hroom
    fun nodes i off bpos n hi hn hplace htotal hdone => by
      have hpiece : (slice bpos n buf).length = n := length_slice htotal
      have hbefore : (slice 0 bpos buf).length = bpos := length_slice (by omega)
      have hstep := hdone.modify hi (hpiece.symm ▸ hn) hplace
      have hjoin : overwrite (ba.position + (slice 0 bpos buf).length) (slice bpos n buf)
            (overwrite ba.position (slice 0 bpos buf) ba.flat.data)
          = overwrite ba.position (slice 0 bpos buf ++ slice bpos n buf) ba.flat.data :=
        overwrite_overwrite (by rw [hbefore, hpiece]; omega)
      have happend := slice_append_slice 0 bpos n buf
      rw [Nat.zero_add] at happend
      rw [hbefore, happend] at hjoin
      rwa [hjoin] at hstep
  refine ⟨nodes, hrun, ?_⟩
  have hwhole : slice 0 buf.length buf = buf := by simp [slice]
  change Lays _ _ (overwrite ba.position (slice 0 buf.length buf) ba.flat.data) nodes at hdone
  rwa [hwhole] at hdone

theorem Inv.copyOut_spec (h : Inv ba) {size : Nat} (hsize : 0 < size)
    (hroom : ba.position + size ≤ ba.capacity) :
    ba.chunks ba.position (fun (out : List UInt8) i off _ n => out ++ ba.copyOut i off n) [] size
      = .ok (slice ba.position size ba.flat.data,
          seat ba.nodes.length ba.baseSize (ba.position + size)) := by
  obtain ⟨out, hrun, hdone⟩ := h.chunks_spec
    (fun (out : List UInt8) i off _ n => out ++ ba.copyOut i off n)
    (fun out bpos => out = slice ba.position bpos ba.flat.data) rfl hsize hroom
    fun out i off bpos n hi hn hplace _ hdone => by
      rw [hdone, h.copyOut_eq hi hn hplace, slice_append_slice]
  rw [← hdone]
  exact hrun

/-- Buffers that tile `n` bytes of the flat data from `start` on. -/
def Tiles (count base : Nat) : Nat → List Iovec → Nat → Prop
  | _, [], n => n = 0
  | start, v :: buffers, n =>
      v.node < count ∧ v.off + v.len ≤ base ∧ v.node * base + v.off = start ∧
        ∃ rest, n = v.len + rest ∧ Tiles count base (start + v.len) buffers rest

theorem Tiles.snoc {count base : Nat} {buffers : List Iovec} {v : Iovec} :
    ∀ {start n : Nat}, Tiles count base start buffers n → v.node < count →
      v.off + v.len ≤ base → v.node * base + v.off = start + n →
      Tiles count base start (buffers ++ [v]) (n + v.len) := by
  induction buffers with
  | nil =>
      rintro start n rfl hnode hlen hplace
      exact ⟨hnode, hlen, hplace, 0, by omega, rfl⟩
  | cons w buffers ih =>
      rintro start n ⟨hnode', hlen', hplace', rest, rfl, hrest⟩ hnode hlen hplace
      exact ⟨hnode', hlen', hplace', rest + v.len, by omega, ih hrest hnode hlen (by omega)⟩

theorem Tiles.gather_eq {buffers : List Iovec} :
    ∀ {start n : Nat}, Tiles ba.nodes.length ba.baseSize start buffers n → Inv ba →
      ba.gather buffers = slice start n ba.flat.data := by
  induction buffers with
  | nil =>
      rintro start n rfl _
      rfl
  | cons v buffers ih =>
      rintro start n ⟨hnode, hlen, hplace, rest, rfl, hrest⟩ h
      have htail := ih hrest h
      rw [gather] at htail ⊢
      rw [List.flatMap_cons, htail, h.copyOut_eq hnode hlen hplace, slice_append_slice]

theorem Tiles.sum_len {count base : Nat} {buffers : List Iovec} :
    ∀ {start n : Nat}, Tiles count base start buffers n → (buffers.map Iovec.len).sum = n := by
  induction buffers with
  | nil =>
      rintro start n rfl
      rfl
  | cons v buffers ih =>
      rintro start n ⟨-, -, -, rest, rfl, hrest⟩
      rw [List.map_cons, List.sum_cons, ih hrest]

/-- Bytes that need not fill all of the buffers. -/
theorem Tiles.fill_spec {count base : Nat} {buffers : List Iovec} :
    ∀ {start n : Nat} {ba : ByteArray} {data bytes : List UInt8},
      Tiles count base start buffers n → Lays count base data ba.nodes → bytes.length ≤ n →
      start + n ≤ data.length →
      ∃ nodes, ba.fill buffers bytes = { ba with nodes := nodes } ∧
        Lays count base (overwrite start bytes data) nodes := by
  induction buffers with
  | nil =>
      rintro start n ba data bytes rfl hlays hn _
      have hnil : bytes = [] := List.eq_nil_of_length_eq_zero (Nat.le_zero.mp hn)
      subst hnil
      exact ⟨ba.nodes, rfl, by simpa using hlays⟩
  | cons v buffers ih =>
      rintro start n ba data bytes ⟨hnode, hlen, hplace, rest, rfl, hrest⟩ hlays hn hroom
      have hpiece : (bytes.take v.len).length = min v.len bytes.length := List.length_take
      have hfit : v.off + (bytes.take v.len).length ≤ base := by omega
      have hstep := hlays.modify hnode hfit hplace
      obtain ⟨nodes, hfill, hnodes⟩ := @ih _ _
        { ba with nodes := ba.nodes.modify v.node (Node.copyIn v.off (bytes.take v.len)) } _
        (bytes.drop v.len) hrest hstep (by rw [List.length_drop]; omega)
        (by rw [length_overwrite (by omega)]; omega)
      refine ⟨nodes, hfill, ?_⟩
      rcases Nat.le_total v.len bytes.length with hmore | hlast
      · have hjoin : overwrite (start + (bytes.take v.len).length) (bytes.drop v.len)
              (overwrite start (bytes.take v.len) data)
            = overwrite start (bytes.take v.len ++ bytes.drop v.len) data :=
          overwrite_overwrite (by rw [hpiece, List.length_drop]; omega)
        rw [hpiece, Nat.min_eq_left hmore, List.take_append_drop] at hjoin
        rwa [hjoin] at hnodes
      · rwa [List.drop_eq_nil_of_le hlast, overwrite_nil, List.take_of_length_le hlast] at hnodes

theorem Inv.pushIovecAt_spec (h : Inv ba) (hbefore : ba.position < ba.capacity) {position start : Nat}
    (hstart : ba.position / ba.baseSize * ba.baseSize + position % ba.baseSize = start)
    (buffers : List Iovec) {size : Nat} (hsize : 0 < size) (hroom : start + size ≤ ba.capacity) :
    ∃ added, ba.chunks position pushIovec buffers size
        = .ok (buffers ++ added, seat ba.nodes.length ba.baseSize (start + size)) ∧
      Tiles ba.nodes.length ba.baseSize start added size := by
  have hnil : ∃ added, buffers = buffers ++ added ∧
      Tiles ba.nodes.length ba.baseSize start added 0 := ⟨[], (List.append_nil buffers).symm, rfl⟩
  obtain ⟨_, hrun, added, rfl, htiles⟩ := h.chunksAt_spec hbefore hstart pushIovec
    (fun t n => ∃ added, t = buffers ++ added ∧ Tiles ba.nodes.length ba.baseSize start added n)
    hnil hsize hroom (by
      rintro _ i off bpos n hi hn hplace - ⟨added, rfl, htiles⟩
      exact ⟨added ++ [⟨i, off, n⟩], List.append_assoc _ _ _, htiles.snoc hi hn hplace⟩)
  exact ⟨added, hrun, htiles⟩

theorem Inv.pushIovec_spec (h : Inv ba) {size : Nat} (hsize : 0 < size)
    (hroom : ba.position + size ≤ ba.capacity) :
    ∃ buffers, ba.chunks ba.position pushIovec [] size
        = .ok (buffers, seat ba.nodes.length ba.baseSize (ba.position + size)) ∧
      Tiles ba.nodes.length ba.baseSize ba.position buffers size :=
  h.pushIovecAt_spec (by omega) (cursor_place ba) [] hsize hroom

end Copy

/-! ### The operations -/

section Operations

variable (heap : Heap) {ba : ByteArray}

theorem Inv.update (h : Inv ba) {nodes : List Node} {data : List UInt8}
    (hlays : Lays ba.nodes.length ba.baseSize data nodes) {position size : Nat}
    (hposition : position ≤ size) (hsize : size ≤ ba.capacity) :
    Inv { ba with
      nodes := nodes
      curr := seat ba.nodes.length ba.baseSize position
      position := position
      size := size } := by
  refine ⟨h.base_pos, ?_, ?_, ?_, hposition, hsize, ?_⟩
  · intro hnil
    replace hnil : nodes = [] := hnil
    have hlength := hlays.length
    rw [hnil] at hlength
    exact h.head (List.eq_nil_of_length_eq_zero hlength.symm)
  · intro node hnode
    exact hlays.uniform node.ptr (List.mem_map_of_mem hnode)
  · rw [h.capacity_eq, hlays.length]
  · rw [seat, h.capacity_eq]

theorem Inv.write_spec (h : Inv ba) (buf : List UInt8) :
    ∃ ba', ba.write heap buf = .ok ba' ∧ Inv ba' ∧
      ba'.flat = (ba.flat.put heap buf).moveTo (ba.position + buf.length) := by
  obtain ⟨hgrown, hflat, hroom, hposition, hsizeEq⟩ := h.addCapacity heap buf.length
  rcases Nat.eq_zero_or_pos buf.length with hzero | hsize
  · have hnil : buf = [] := List.eq_nil_of_length_eq_zero hzero
    subst hnil
    have hgrow : ba.flat.grow heap 0 = ba.flat :=
      grow_of_fits h.base_pos (h.length_data.symm ▸ h.position_le.trans h.size_le)
    refine ⟨ba, rfl, h, ?_⟩
    simp only [FlatBuffer.put, FlatBuffer.moveTo, List.length_nil, hgrow, overwrite_nil]
    simp only [flat, Nat.add_zero, Nat.max_eq_left h.position_le]
  · set grown := ba.addCapacity heap buf.length with hgrownDef
    rw [← hposition] at hroom
    obtain ⟨nodes, hrun, hlays⟩ := hgrown.copy_spec hsize hroom
    have hle := hgrown.size_le
    have hmax : (if grown.position + buf.length > grown.size then grown.position + buf.length
        else grown.size) = max grown.size (grown.position + buf.length) := by
      rcases Nat.lt_or_ge grown.size (grown.position + buf.length) with hlt | hge
      · rw [if_pos hlt, Nat.max_eq_right hlt.le]
      · rw [if_neg (by omega), Nat.max_eq_left hge]
    refine ⟨_, ?_, hgrown.update hlays (Nat.le_max_right _ _) (Nat.max_le.mpr ⟨hle, hroom⟩), ?_⟩
    · rw [write, if_neg (by omega), ← hgrownDef]
      simp only [hrun, bind, Except.bind, hmax]
    · simp only [FlatBuffer.put, FlatBuffer.moveTo, ← hflat]
      simp only [flat, hlays.flatten, hposition, hsizeEq]

theorem Inv.read_spec (h : Inv ba) {n : Nat} (hn : n ≤ ba.flat.readable) :
    ∃ ba', ba.read n = .ok (ba.flat.peek n, ba') ∧ Inv ba' ∧
      ba'.flat = { ba.flat with position := ba.position + n } := by
  have hreadable : ba.flat.readable = ba.size - ba.position := rfl
  have hle := h.position_le
  have hsizeLe := h.size_le
  rcases Nat.eq_zero_or_pos n with rfl | hpos
  · exact ⟨ba, rfl, h, rfl⟩
  · have hrun := h.copyOut_spec hpos (show ba.position + n ≤ ba.capacity by omega)
    refine ⟨_, ?_, h.update h.lays (show ba.position + n ≤ ba.size by omega) h.size_le, rfl⟩
    rw [read, if_neg (by omega)]
    simp only [hrun, bind, Except.bind]
    rfl

theorem seek_replicate {base : Nat} (hbase : 0 < base) :
    ∀ (count i v : Nat), 0 < count → v ≤ count * base →
      seek (List.replicate count base) i v
        = .ok (if v = base * count then none else some (i + v / base)) := by
  intro count
  induction count with
  | zero =>
      intro i v hcount
      omega
  | succ count ih =>
      intro i v _ hv
      have hexpand : (count + 1) * base = count * base + base := by ring
      rw [List.replicate_succ, seek]
      by_cases hmore : v > base
      · have hcount : 0 < count := by
          rcases Nat.eq_zero_or_pos count with rfl | hcount
          · omega
          · exact hcount
        have hdiv : v / base = (v - base) / base + 1 := Nat.div_eq_sub_div hbase hmore.le
        have hcond : (v - base = base * count) = (v = base * (count + 1)) := by
          apply propext
          rw [Nat.mul_add]
          omega
        rw [if_pos hmore, ih (i + 1) (v - base) hcount (by omega), hdiv]
        simp only [hcond]
        rw [show i + 1 + (v - base) / base = i + ((v - base) / base + 1) by omega]
      · rw [if_neg hmore]
        by_cases hfull : v = base
        · rw [if_pos hfull, hfull, Nat.div_self hbase]
          rcases Nat.eq_zero_or_pos count with rfl | hcount
          · simp
          · have hne : base ≠ base * (count + 1) := by
              rw [Nat.mul_add]
              have := Nat.mul_pos hbase hcount
              omega
            have hrest : (List.replicate count base).isEmpty = false := by
              simp [List.isEmpty_replicate]
              omega
            rw [if_neg hne, hrest]
            rfl
        · have hne : v ≠ base * (count + 1) := by
            rw [Nat.mul_comm]
            omega
          rw [if_neg hfull, if_neg hne, Nat.div_eq_of_lt (by omega), Nat.add_zero]

theorem Inv.setPosition_spec (h : Inv ba) {v : Nat} (hv : v ≤ ba.capacity) :
    ∃ ba', ba.setPosition v = .ok ba' ∧ Inv ba' ∧ ba'.flat = ba.flat.moveTo v := by
  have hmax : (if v > ba.size then v else ba.size) = max ba.size v := by
    rcases Nat.lt_or_ge ba.size v with hlt | hge
    · rw [if_pos hlt, Nat.max_eq_right hlt.le]
    · rw [if_neg (by omega), Nat.max_eq_left hge]
  have hseek : seek ba.chain 0 v = .ok (seat ba.nodes.length ba.baseSize v) := by
    rw [h.chain_eq, seek_replicate h.base_pos _ _ _ (List.length_pos_iff.mpr h.head), seat,
      Nat.zero_add]
    rw [Nat.mul_comm, ← h.capacity_eq]
    exact hv
  refine ⟨_, ?_, h.update h.lays (Nat.le_max_right _ _) (Nat.max_le.mpr ⟨h.size_le, hv⟩), rfl⟩
  rw [setPosition, if_neg (by omega), hseek]
  simp only [bind, Except.bind, hmax]

theorem Inv.clear_spec (h : Inv ba) :
    Inv ba.clear ∧ ba.clear.flat
      = { ba.flat with data := ba.flat.data.take ba.baseSize, position := 0, size := 0 } := by
  obtain ⟨head, rest, hnodes⟩ := List.exists_cons_of_ne_nil h.head
  have hhead := h.uniform head (by rw [hnodes]; exact List.mem_cons_self)
  have htake : ba.nodes.take 1 = [head] := by
    rw [hnodes]
    rfl
  have hbase := h.base_pos
  refine ⟨⟨h.base_pos, by simp [clear, htake], ?_, by simp [clear, htake], le_rfl, Nat.zero_le _, ?_⟩,
    ?_⟩
  · intro node hnode
    simp only [clear, htake, List.mem_singleton] at hnode
    exact hnode ▸ hhead
  · simp only [clear, Nat.zero_div]
    rw [if_neg (by omega)]
  · have hdata : (ba.nodes.map Node.ptr).flatten.take ba.baseSize = head.ptr := by
      rw [hnodes, List.map_cons, List.flatten_cons, List.take_left' hhead]
    simp only [clear, flat, htake, hdata, List.map_cons, List.map_nil, List.flatten_cons,
      List.flatten_nil, List.append_nil]

theorem Inv.toString_spec (h : Inv ba) (hsmall : ba.flat.readable < 2 ^ 63) :
    ba.toString = .ok (ba.flat.peek ba.flat.readable) := by
  have hle := h.position_le
  have hsizeLe := h.size_le
  have hreadable : ba.flat.readable = ba.size - ba.position := rfl
  rw [toString, h.getReadableSize_eq, resize, if_pos hsmall]
  simp only [bind, Except.bind]
  rcases Nat.eq_zero_or_pos ba.flat.readable with hzero | hpos
  · rw [hzero]
    rfl
  · have hnonempty : (List.replicate ba.flat.readable (0 : UInt8)).isEmpty = false := by
      rw [List.isEmpty_replicate]
      simpa using hpos.ne'
    have hrun := h.copyOut_spec hpos (show ba.position + ba.flat.readable ≤ ba.capacity by omega)
    have hfits : ¬ ba.flat.readable > subSize ba.size ba.position := by
      rw [subSize_of_le hle, hreadable]
      exact lt_irrefl _
    rw [hnonempty, readAt, List.length_replicate, if_neg hfits]
    simp only [hrun, bind, Except.bind]
    rfl

theorem Inv.getReadBuffers_spec (h : Inv ba) (len : Nat) :
    ∃ buffers, ba.getReadBuffers [] len = .ok (min len ba.flat.readable, buffers) ∧
      ba.gather buffers = ba.flat.peek (min len ba.flat.readable) := by
  have hle := h.position_le
  have hsizeLe := h.size_le
  have hreadable : ba.flat.readable = ba.size - ba.position := rfl
  have hmin : (if ba.getReadableSize < len then ba.getReadableSize else len)
      = min len ba.flat.readable := by
    rw [h.getReadableSize_eq]
    rcases Nat.lt_or_ge ba.flat.readable len with hlt | hge
    · rw [if_pos hlt, Nat.min_eq_right hlt.le]
    · rw [if_neg (by omega), Nat.min_eq_left hge]
  rw [getReadBuffers]
  simp only [hmin]
  rcases Nat.eq_zero_or_pos (min len ba.flat.readable) with hzero | hpos
  · rw [hzero]
    exact ⟨[], rfl, rfl⟩
  · have hroom : ba.position + min len ba.flat.readable ≤ ba.capacity := by
      have := Nat.min_le_right len ba.flat.readable
      omega
    obtain ⟨buffers, hrun, htiles⟩ := h.pushIovec_spec hpos hroom
    refine ⟨buffers, ?_, htiles.gather_eq h⟩
    rw [if_neg hpos.ne', hrun]
    rfl

/-- Buffers of `len` bytes from the cursor on, which may be filled with fewer. -/
theorem Inv.getWriteBuffers_tiles (h : Inv ba) (len : Nat) {grown : ByteArray}
    (hgrown : ba.addCapacity heap len = grown) :
    ∃ buffers, ba.getWriteBuffers heap [] len = .ok (len, buffers, grown) ∧
      Tiles grown.nodes.length grown.baseSize grown.position buffers len ∧
      ∀ bytes : List UInt8, bytes.length ≤ len →
        ∃ nodes, grown.fill buffers bytes = { grown with nodes := nodes } ∧
          Lays grown.nodes.length grown.baseSize
            (overwrite grown.position bytes grown.flat.data) nodes ∧
          Inv ({ grown with nodes := nodes } : ByteArray) := by
  subst hgrown
  obtain ⟨hinv, -, hroom, hposition, -⟩ := h.addCapacity heap len
  rw [← hposition] at hroom
  have hpush : ∃ buffers, ba.getWriteBuffers heap [] len
        = .ok (len, buffers, ba.addCapacity heap len) ∧
      Tiles (ba.addCapacity heap len).nodes.length (ba.addCapacity heap len).baseSize
        (ba.addCapacity heap len).position buffers len := by
    rcases Nat.eq_zero_or_pos len with rfl | hlen
    · have hsame : ba.addCapacity heap 0 = ba :=
        addCapacity_of_fits h (h.position_le.trans h.size_le)
      exact ⟨[], by rw [hsame]; rfl, rfl⟩
    · obtain ⟨buffers, hrun, htiles⟩ := hinv.pushIovec_spec hlen hroom
      refine ⟨buffers, ?_, htiles⟩
      rw [getWriteBuffers, if_neg hlen.ne']
      simp only [hrun, bind, Except.bind]
  obtain ⟨buffers, hrun, htiles⟩ := hpush
  refine ⟨buffers, hrun, htiles, ?_⟩
  intro bytes hbytes
  have hwithin := hroom.trans_eq hinv.length_data.symm
  obtain ⟨nodes, hfill, hlays⟩ := htiles.fill_spec hinv.lays hbytes hwithin
  have hupdate := hinv.update hlays hinv.position_le hinv.size_le
  rw [← hinv.curr_seat] at hupdate
  exact ⟨nodes, hfill, hlays, hupdate⟩

/-- Buffers to write into, and what filling them leaves behind. -/
theorem Inv.getWriteBuffers_spec (h : Inv ba) (bytes : List UInt8) :
    ∃ buffers grown, ba.getWriteBuffers heap [] bytes.length = .ok (bytes.length, buffers, grown) ∧
      Inv (grown.fill buffers bytes) ∧
      (grown.fill buffers bytes).flat = ba.flat.put heap bytes ∧
      (grown.fill buffers bytes).gather buffers = bytes := by
  obtain ⟨hgrown, hflat, hroom, hposition, -⟩ := h.addCapacity heap bytes.length
  obtain ⟨buffers, hrun, htiles, hfills⟩ := h.getWriteBuffers_tiles heap bytes.length rfl
  set grown := ba.addCapacity heap bytes.length
  obtain ⟨nodes, hfill, hlays, hinv⟩ := hfills bytes le_rfl
  refine ⟨buffers, grown, hrun, ?_⟩
  rw [hfill]
  refine ⟨hinv, ?_, ?_⟩
  · simp only [FlatBuffer.put, ← hflat]
    simp only [flat, hlays.flatten]
  · have htiles' : Tiles nodes.length grown.baseSize grown.position buffers bytes.length := by
      rwa [hlays.length]
    have hwithin : grown.position ≤ grown.flat.data.length := by
      rw [hgrown.length_data]
      omega
    rw [htiles'.gather_eq hinv]
    simp only [flat, hlays.flatten]
    exact slice_overwrite hwithin

end Operations

/-! ### Refinement -/

section Refinement

variable (heap : Heap) {ba : ByteArray}

/-- One use: no fault, the shape kept, and the flat buffer's result and state. -/
theorem Inv.step_refines (h : Inv ba) {op : BufferOp} (hallowed : ba.flat.Allowed op) :
    ∃ ba', ba.step heap op = .ok (ba', (ba.flat.step heap op).2) ∧ Inv ba' ∧
      ba'.flat = (ba.flat.step heap op).1 := by
  cases op with
  | write buf =>
      obtain ⟨ba', hrun, hinv, hflat⟩ := h.write_spec heap buf
      refine ⟨ba', ?_, hinv, hflat⟩
      rw [step, hrun]
      rfl
  | read n =>
      obtain ⟨ba', hrun, hinv, hflat⟩ := h.read_spec hallowed
      refine ⟨ba', ?_, hinv, hflat⟩
      rw [step, hrun]
      rfl
  | setPosition v =>
      rcases Nat.lt_or_ge ba.capacity v with hout | hin
      · refine ⟨ba, ?_, h, ?_⟩
        · rw [step, setPosition, if_pos hout]
          simp only [FlatBuffer.step, h.length_data, if_pos hout]
        · simp only [FlatBuffer.step, h.length_data, if_pos hout]
      · obtain ⟨ba', hrun, hinv, hflat⟩ := h.setPosition_spec hin
        refine ⟨ba', ?_, hinv, ?_⟩
        · rw [step, hrun]
          simp only [FlatBuffer.step, h.length_data, if_neg (Nat.not_lt.mpr hin)]
        · simp only [FlatBuffer.step, h.length_data, if_neg (Nat.not_lt.mpr hin), hflat]
  | clear =>
      obtain ⟨hinv, hflat⟩ := h.clear_spec
      exact ⟨ba.clear, rfl, hinv, hflat⟩
  | getWriteBuffers bytes =>
      obtain ⟨buffers, grown, hrun, hinv, hflat, hgather⟩ :=
        h.getWriteBuffers_spec heap bytes
      refine ⟨grown.fill buffers bytes, ?_, hinv, hflat⟩
      rw [step, hrun]
      simp only [bind, Except.bind, hgather]
      rfl
  | getReadBuffers len =>
      obtain ⟨buffers, hrun, hgather⟩ := h.getReadBuffers_spec len
      refine ⟨ba, ?_, h, rfl⟩
      rw [step, hrun]
      simp only [bind, Except.bind, hgather]
      rfl
  | toString =>
      have hsmall : ba.flat.readable < 2 ^ 53 := hallowed
      refine ⟨ba, ?_, h, rfl⟩
      rw [step, h.toString_spec (by omega)]
      rfl

theorem Inv.run_refines (heap : Heap) :
    ∀ {ops : List BufferOp} {ba : ByteArray}, Inv ba → ba.flat.AllowedRun heap ops →
      ∃ ba', ba.run heap ops = .ok (ba', (ba.flat.run heap ops).2) ∧ Inv ba' ∧
        ba'.flat = (ba.flat.run heap ops).1 := by
  intro ops
  induction ops with
  | nil => exact fun {ba} h _ => ⟨ba, rfl, h, rfl⟩
  | cons op ops ih =>
      intro ba h hallowed
      obtain ⟨hop, hrest⟩ := Transition.allSteps_cons.mp hallowed
      obtain ⟨mid, hstep, hmid, hmidFlat⟩ := h.step_refines heap hop
      obtain ⟨ba', hrun, hinv, hflat⟩ := ih hmid (by rw [hmidFlat]; exact hrest)
      refine ⟨ba', ?_, hinv, ?_⟩
      · rw [run, hstep]
        simp only [bind, Except.bind, hrun, hmidFlat]
        rfl
      · rw [hflat, hmidFlat]
        rfl

theorem inv_create (heap : Heap) {base : Nat} (hbase : 0 < base) : Inv (create heap base) := by
  refine ⟨hbase, by simp [create], ?_, by simp [create], le_rfl, Nat.zero_le _, ?_⟩
  · intro node hnode
    simp only [create, List.mem_singleton] at hnode
    rw [hnode]
    simp [create, Node.alloc, Node.size]
  · simp only [create, Nat.zero_div]
    rw [if_neg (by omega)]

/-- **A ByteArray is a flat buffer.** From a fresh array, any allowed sequence of uses runs without
following a null node, shows the caller what the flat buffer shows, ends at the flat buffer's cursor
and size, and is in shape after it; the sequence being arbitrary, it is in shape after every use. -/
theorem run_refines_flatBuffer (heap : Heap) (base : Nat) (hbase : 0 < base) (ops : List BufferOp)
    (hallowed : (FlatBuffer.create heap base).AllowedRun heap ops) :
    ∃ ba, (create heap base).run heap ops = .ok (ba, ((FlatBuffer.create heap base).run heap ops).2) ∧
      ba.position = ((FlatBuffer.create heap base).run heap ops).1.position ∧
      ba.size = ((FlatBuffer.create heap base).run heap ops).1.size ∧
      ba.getReadableSize = ((FlatBuffer.create heap base).run heap ops).1.readable ∧
      ba.capacity = ((FlatBuffer.create heap base).run heap ops).1.data.length ∧
      ba.baseSize = base ∧ ba.capacity = base * ba.nodes.length ∧
      ba.position ≤ ba.size ∧ ba.size ≤ ba.capacity ∧
      ba.curr = if ba.position = ba.capacity then none else some (ba.position / base) := by
  have hflat : (create heap base).flat = FlatBuffer.create heap base := by
    simp [flat, create, FlatBuffer.create]
  obtain ⟨ba, hrun, hinv, hend⟩ := (inv_create heap hbase).run_refines heap (hflat ▸ hallowed)
  rw [hflat] at hrun hend
  have hbaseEq : ba.baseSize = base := by
    have hkept := FlatBuffer.baseSize_run heap ops (FlatBuffer.create heap base)
    rw [← hend] at hkept
    exact hkept
  refine ⟨ba, hrun, ?_, ?_, ?_, ?_, hbaseEq, ?_, hinv.position_le, hinv.size_le, ?_⟩
  · rw [← hend]
    rfl
  · rw [← hend]
    rfl
  · rw [← hend]
    exact hinv.getReadableSize_eq
  · rw [← hend]
    exact hinv.length_data.symm
  · rw [hinv.capacity_eq, hbaseEq]
  · rw [hinv.curr_eq, hbaseEq]

/-- Five bytes into nodes of two, moved back over, one position out of range, read again across the
nodes. -/
theorem run_refines_flatBuffer_straddling :
    ∃ ba, (create (fun _ _ => 0) 2).run (fun _ _ => 0)
        [.write [1, 2, 3, 4, 5], .setPosition 1, .setPosition 7, .read 3, .toString]
        = .ok (ba, [.done, .done, .outOfRange, .bytes [2, 3, 4], .bytes [5]]) ∧
      ba.position = 4 ∧ ba.capacity = 6 ∧ ba.curr = some 2 := by
  have hallowed : (FlatBuffer.create (fun _ _ => 0) 2).AllowedRun (fun _ _ => 0)
      [.write [1, 2, 3, 4, 5], .setPosition 1, .setPosition 7, .read 3, .toString] := by
    refine Transition.allSteps_cons.mpr ⟨trivial, ?_⟩
    refine Transition.allSteps_cons.mpr ⟨trivial, ?_⟩
    refine Transition.allSteps_cons.mpr ⟨trivial, ?_⟩
    refine Transition.allSteps_cons.mpr ⟨?_, ?_⟩
    · change 3 ≤ FlatBuffer.readable _
      decide
    · refine Transition.allSteps_cons.mpr ⟨?_, Transition.allSteps_nil⟩
      change FlatBuffer.readable _ < 2 ^ 53
      decide
  have hflatRun : (FlatBuffer.create (fun _ _ => 0) 2).run (fun _ _ => 0)
      [.write [1, 2, 3, 4, 5], .setPosition 1, .setPosition 7, .read 3, .toString]
      = ({ data := [1, 2, 3, 4, 5, 0], position := 4, size := 5, baseSize := 2, allocated := 3 },
        [.done, .done, .outOfRange, .bytes [2, 3, 4], .bytes [5]]) := by
    decide +kernel
  obtain ⟨ba, hrun, hposition, -, -, hcapacity, -, -, -, -, hcurr⟩ :=
    run_refines_flatBuffer (fun _ _ => 0) 2 (by decide)
      [.write [1, 2, 3, 4, 5], .setPosition 1, .setPosition 7, .read 3, .toString] hallowed
  rw [hflatRun] at hrun hposition hcapacity
  refine ⟨ba, hrun, hposition, hcapacity, ?_⟩
  rw [hcurr, hposition, hcapacity]
  rfl

end Refinement

/-! ### Content around the cursor

What the typed readers and writers need of the refinement: the data is `before ++ after` with the
cursor between the two. -/

structure Holds (ba : ByteArray) (before after : List UInt8) : Prop where
  inv : Inv ba
  position_eq : ba.position = before.length
  content : ba.flat.data.take ba.size = before ++ after

section Holds

variable {ba : ByteArray} {before after : List UInt8}

theorem Holds.size_eq (h : Holds ba before after) : ba.size = before.length + after.length := by
  have hlength := congrArg List.length h.content
  rw [List.length_take, h.inv.length_data, Nat.min_eq_left h.inv.size_le,
    List.length_append] at hlength
  exact hlength

theorem Holds.readable_eq (h : Holds ba before after) : ba.flat.readable = after.length := by
  change ba.size - ba.position = after.length
  rw [h.size_eq, h.position_eq, Nat.add_sub_cancel_left]

theorem Holds.data_eq (h : Holds ba before after) :
    ba.flat.data = before ++ (after ++ ba.flat.data.drop ba.size) := by
  rw [← List.append_assoc, ← h.content, List.take_append_drop]

theorem Inv.holds (h : Inv ba) : Holds ba (ba.flat.data.take ba.position) ba.unread := by
  have hposition : ba.position ≤ ba.flat.data.length :=
    h.length_data.symm ▸ h.position_le.trans h.size_le
  refine ⟨h, by rw [List.length_take, Nat.min_eq_left hposition], ?_⟩
  have hsize : ba.size = ba.position + ba.flat.readable :=
    (Nat.add_sub_of_le h.position_le).symm
  rw [hsize, List.take_add]
  rfl

theorem holds_create (heap : Heap) {base : Nat} (hbase : 0 < base) :
    Holds (create heap base) [] [] :=
  ⟨inv_create heap hbase, rfl, rfl⟩

/-- More room leaves the data as it is. -/
theorem Holds.data_grow (h : Holds ba before after) (heap : Heap) (n : Nat) :
    ∃ spare, (ba.flat.grow heap n).data = before ++ (after ++ spare) := by
  have hmore : ∃ more, (ba.flat.grow heap n).data = ba.flat.data ++ more := ⟨_, rfl⟩
  obtain ⟨more, hmore⟩ := hmore
  refine ⟨ba.flat.data.drop ba.size ++ more, ?_⟩
  rw [hmore, ← List.append_assoc after, ← List.append_assoc before, ← h.data_eq]

theorem Holds.take_grow (h : Holds ba before []) (heap : Heap) (n : Nat) :
    (ba.flat.grow heap n).data.take before.length = before := by
  obtain ⟨spare, hspare⟩ := h.data_grow heap n
  rw [hspare, List.take_left]

/-- A write goes over the data that follows the cursor. -/
theorem Holds.writeOver (h : Holds ba before after) (heap : Heap) (buf : List UInt8) :
    ∃ ba', ba.write heap buf = .ok ba' ∧ Holds ba' (before ++ buf) (after.drop buf.length) := by
  obtain ⟨ba', hrun, hinv, hflat⟩ := h.inv.write_spec heap buf
  have hposition : ba'.position = before.length + buf.length := by
    rw [← h.position_eq]
    exact congrArg FlatBuffer.position hflat
  have hsize : ba'.size = max (before.length + after.length) (before.length + buf.length) := by
    rw [← h.size_eq, ← h.position_eq]
    exact congrArg FlatBuffer.size hflat
  obtain ⟨spare, hspare⟩ := h.data_grow heap buf.length
  have hdata : ba'.flat.data = (before ++ buf) ++ (after ++ spare).drop buf.length := by
    have hput : ba'.flat.data = overwrite ba.position buf (ba.flat.grow heap buf.length).data := by
      rw [hflat]
      rfl
    rw [hput, hspare, h.position_eq, ← Nat.add_zero before.length, overwrite_right, overwrite,
      List.take_zero, List.nil_append, Nat.zero_add, List.append_assoc]
  refine ⟨ba', hrun, hinv, by rw [hposition, List.length_append], ?_⟩
  have hend : ba'.size = (before ++ buf).length + (after.length - buf.length) := by
    rw [hsize, List.length_append]
    omega
  rw [hdata, hend, List.take_length_add_append, List.append_cancel_left_eq]
  rcases Nat.le_total buf.length after.length with hle | hge
  · rw [List.drop_append_of_le_length hle, List.take_left' (List.length_drop ..)]
  · rw [Nat.sub_eq_zero_of_le hge, List.take_zero, List.drop_of_length_le hge]

theorem Holds.write (h : Holds ba before []) (heap : Heap) (buf : List UInt8) :
    ∃ ba', ba.write heap buf = .ok ba' ∧ Holds ba' (before ++ buf) [] := by
  obtain ⟨ba', hrun, h'⟩ := h.writeOver heap buf
  rw [List.drop_nil] at h'
  exact ⟨ba', hrun, h'⟩

/-- A read within the data copies out what follows the cursor. -/
theorem Holds.read {bytes : List UInt8} (h : Holds ba before (bytes ++ after)) :
    ∃ ba', ba.read bytes.length = .ok (bytes, ba') ∧ Holds ba' (before ++ bytes) after := by
  have hreadable : bytes.length ≤ ba.flat.readable := by
    rw [h.readable_eq, List.length_append]
    omega
  obtain ⟨ba', hrun, hinv, hflat⟩ := h.inv.read_spec hreadable
  have hpeek : ba.flat.peek bytes.length = bytes := by
    change slice ba.position bytes.length ba.flat.data = bytes
    rw [h.data_eq, h.position_eq, List.append_assoc]
    rw [← Nat.add_zero before.length, slice_right, slice, List.drop_zero, List.take_left]
  rw [hpeek] at hrun
  refine ⟨ba', hrun, hinv, ?_, ?_⟩
  · have hposition : ba'.position = ba.position + bytes.length :=
      congrArg FlatBuffer.position hflat
    rw [hposition, h.position_eq, List.length_append]
  · have hsize : ba'.size = ba.size := congrArg FlatBuffer.size hflat
    rw [hsize, hflat, List.append_assoc]
    exact h.content

/-- The cursor moved to another place in the data. -/
theorem Holds.moveTo {before' after' : List UInt8} (h : Holds ba before after)
    (hsame : before ++ after = before' ++ after') :
    ∃ ba', ba.setPosition before'.length = .ok ba' ∧ Holds ba' before' after' := by
  have hlength := congrArg List.length hsame
  rw [List.length_append, List.length_append, ← h.size_eq] at hlength
  have hwithin : before'.length ≤ ba.size := by omega
  obtain ⟨ba', hrun, hinv, hflat⟩ := h.inv.setPosition_spec (hwithin.trans h.inv.size_le)
  have hsize : ba'.size = ba.size := (congrArg FlatBuffer.size hflat).trans (Nat.max_eq_left hwithin)
  refine ⟨ba', hrun, hinv, congrArg FlatBuffer.position hflat, ?_⟩
  rw [hsize, hflat, ← hsame]
  exact h.content

theorem Holds.setPosition_zero (h : Holds ba before after) :
    ∃ ba', ba.setPosition 0 = .ok ba' ∧ Holds ba' [] (before ++ after) := by
  have hsame : before ++ after = [] ++ (before ++ after) := rfl
  exact h.moveTo hsame

theorem Holds.rewind {bytes : List UInt8} (h : Holds ba (before ++ bytes) after) :
    ∃ ba', ba.setPosition before.length = .ok ba' ∧ Holds ba' before (bytes ++ after) := by
  apply h.moveTo
  exact List.append_assoc before bytes after

theorem Holds.setPosition {bytes : List UInt8} (h : Holds ba before (bytes ++ after)) :
    ∃ ba', ba.setPosition (ba.position + bytes.length) = .ok ba' ∧
      Holds ba' (before ++ bytes) after := by
  rw [h.position_eq, ← List.length_append]
  apply h.moveTo
  exact (List.append_assoc before bytes after).symm

theorem Holds.unread (h : Holds ba before after) : ba.unread = after := by
  rw [ByteArray.unread, h.readable_eq]
  change slice ba.position after.length ba.flat.data = after
  rw [h.data_eq, h.position_eq]
  rw [← Nat.add_zero before.length, slice_right, slice, List.drop_zero, List.take_left]

theorem Holds.toString (h : Holds ba before after) (hlength : after.length < 2 ^ 63) :
    ba.toString = .ok after := by
  have hreadable : ba.flat.readable < 2 ^ 63 := by rwa [h.readable_eq]
  rw [h.inv.toString_spec hreadable]
  exact congrArg Except.ok h.unread

theorem Holds.getReadBuffers (h : Holds ba before after) :
    ∃ buffers, ba.getReadBuffers [] after.length = .ok (after.length, buffers) ∧
      ba.gather buffers = after := by
  obtain ⟨buffers, hrun, hgather⟩ := h.inv.getReadBuffers_spec after.length
  have hmin : min after.length ba.flat.readable = after.length := by
    rw [h.readable_eq, Nat.min_self]
  rw [hmin] at hrun hgather
  refine ⟨buffers, hrun, hgather.trans ?_⟩
  rw [← h.readable_eq]
  exact h.unread

/-- Buffers of `len` bytes behind the data, filled with some bytes or fewer of them, over which the
cursor is moved. -/
theorem Holds.getWriteBuffers (h : Holds ba before []) (heap : Heap) (len : Nat) :
    ∃ buffers grown, ba.getWriteBuffers heap [] len = .ok (len, buffers, grown) ∧
      (buffers.map Iovec.len).sum = len ∧
      ∀ bytes : List UInt8, bytes.length ≤ len →
        ∃ ba', (grown.fill buffers bytes).setPosition
            ((grown.fill buffers bytes).position + bytes.length) = .ok ba' ∧
          Holds ba' (before ++ bytes) [] := by
  obtain ⟨hgrown, hflat, hroom, hposition, hsize⟩ := h.inv.addCapacity heap len
  have htake := h.take_grow heap len
  have hbefore : ba.size = before.length := by simpa using h.size_eq
  obtain ⟨buffers, hrun, htiles, hfills⟩ := h.inv.getWriteBuffers_tiles heap len rfl
  set grown := ba.addCapacity heap len
  have hdata := hgrown.length_data
  rw [← hposition] at hroom
  refine ⟨buffers, grown, hrun, htiles.sum_len, ?_⟩
  intro bytes hbytes
  obtain ⟨nodes, hfill, hlays, hinv⟩ := hfills bytes hbytes
  rw [hfill]
  obtain ⟨ba', hmove, hinv', hflat'⟩ := hinv.setPosition_spec
    (show grown.position + bytes.length ≤ grown.capacity by omega)
  have hposition' : ba'.position = grown.position + bytes.length :=
    congrArg FlatBuffer.position hflat'
  have hsize' : ba'.size = max grown.size (grown.position + bytes.length) :=
    congrArg FlatBuffer.size hflat'
  have hplace : grown.position = before.length := hposition.trans h.position_eq
  have hend : ba'.size = before.length + bytes.length := by
    rw [hsize', hsize, hbefore, hplace]
    omega
  refine ⟨ba', hmove, hinv', ?_, ?_⟩
  · rw [hposition', hplace, List.length_append]
  · have hdata' : ba'.flat.data = overwrite before.length bytes grown.flat.data := by
      rw [hflat', ← hplace]
      exact hlays.flatten
    rw [hdata', hend, take_overwrite (by omega), hflat, htake, List.append_nil]

end Holds

theorem Holds.toString_inv {ba : ByteArray} {before after str : List UInt8} (h : Holds ba before after)
    (hrun : ba.toString = .ok str) : str = after := by
  by_cases hlength : after.length < 2 ^ 63
  · exact (Except.ok.inj ((h.toString hlength).symm.trans hrun)).symm
  · rw [ByteArray.toString, h.inv.getReadableSize_eq, h.readable_eq, resize, if_neg hlength] at hrun
    cases hrun

/-- However far it reads, a read moves the cursor by what it was asked for. -/
theorem position_read {ba ba' : ByteArray} {n : Nat} {bytes : List UInt8}
    (h : ba.read n = .ok (bytes, ba')) : ba'.position = ba.position + n := by
  rw [read] at h
  split at h
  · cases h
    omega
  · simp only [bind, Except.bind] at h
    split at h
    · cases h
    · cases h
      rfl

section Spare

variable {ba : ByteArray} {m n : Nat}

/-- The nodes have room for `n` bytes from the cursor on, data or not. -/
structure Spare (ba : ByteArray) (n : Nat) : Prop where
  inv : Inv { ba with size := ba.capacity }
  room : ba.position + n ≤ ba.capacity

theorem Inv.spare (h : Inv ba) (hroom : ba.position + n ≤ ba.capacity) : Spare ba n where
  inv :=
    { base_pos := h.base_pos
      head := h.head
      uniform := h.uniform
      capacity_eq := h.capacity_eq
      position_le := h.position_le.trans h.size_le
      size_le := Nat.le_refl _
      curr_eq := h.curr_eq }
  room := hroom

/-- A read does not look at `size_`. -/
theorem read_setSize (ba : ByteArray) (size n : Nat) :
    ({ ba with size := size } : ByteArray).read n
      = (fun r => (r.1, { r.2 with size := size })) <$> ba.read n := by
  by_cases hn : n ≤ 0
  · rw [read, read, if_pos hn, if_pos hn]
    rfl
  · rw [read, read, if_neg hn, if_neg hn]
    change (ba.chunks ba.position (fun (out : List UInt8) i off _ n => out ++ ba.copyOut i off n) [] n
      >>= _) = _ <$> (_ >>= _)
    cases ba.chunks ba.position (fun (out : List UInt8) i off _ n => out ++ ba.copyOut i off n) [] n with
    | error fault => rfl
    | ok r => rfl

/-- Past the data a read goes on through the nodes. -/
theorem Spare.read (h : Spare ba (m + n)) :
    ∃ bytes ba', ba.read m = .ok (bytes, ba') ∧ Spare ba' n := by
  have hroom := h.room
  have hreadable : m ≤ ({ ba with size := ba.capacity } : ByteArray).flat.readable := by
    change m ≤ ba.capacity - ba.position
    omega
  obtain ⟨full, hrun, hinv, hflat⟩ := h.inv.read_spec hreadable
  rw [read_setSize] at hrun
  obtain ⟨⟨bytes, ba'⟩, hread, heq⟩ := Outcome.map_eq_ok.mp hrun
  obtain ⟨-, rfl⟩ := Prod.mk.inj heq
  have hposition : ba'.position = ba.position + m := position_read hread
  have hsize : ba.capacity = ba'.capacity := by
    have hdata := congrArg (fun fb : FlatBuffer => fb.data.length) hflat
    have hfull := hinv.length_data
    rw [show (_ : Nat) = _ from hdata] at hfull
    exact h.inv.length_data.symm.trans hfull
  rw [hsize] at hinv
  exact ⟨bytes, ba', hread, hinv, by omega⟩

end Spare

end ByteArray

end AsyncRPC
