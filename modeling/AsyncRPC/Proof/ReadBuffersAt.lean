import AsyncRPC.Proof.ByteArray

/-!
# The buffers for reading from a given position

`getReadBuffers(buffers, len, position)` should hand out the bytes from `position` on and leave the
cursor alone. It reduces `len` to what is left behind the cursor and walks from the node of the
cursor, so the bytes are those of another place unless `position` falls into that node.
-/

namespace AsyncRPC

namespace ByteArray

open Blocks

/-- Where the walk begins: in the node of the cursor, as far into it as `position` is into its own. -/
def walkStart (ba : ByteArray) (position : Nat) : Nat :=
  ba.position / ba.baseSize * ba.baseSize + position % ba.baseSize

/-- The overload returns `min(len, size_ - position)` and appends buffers for the bytes from
`position` on, the ones a copy hands out after `setPosition(position)`. -/
def RightBuffers (ba : ByteArray) (buffers : List Iovec) (len position : Nat) : Prop :=
  let n := min len (ba.size - position)
  ∃ added, ba.getReadBuffersAt buffers len position = .ok (n, buffers ++ added) ∧
    ba.gather added = slice position n ba.flat.data ∧
    ∃ moved reference, ba.setPosition position = .ok moved ∧
      moved.getReadBuffers [] len = .ok (n, reference) ∧ moved.gather reference = ba.gather added

/-- The cursor is far enough from the end not to shorten `len`, and it is in the node `position` falls
into, or else the bytes as far into its own node are the same by chance. -/
def CursorFits (ba : ByteArray) (len position : Nat) : Prop :=
  let n := min len (ba.size - position)
  min len (ba.size - ba.position) = n ∧
    (n = 0 ∨ ba.position / ba.baseSize = position / ba.baseSize ∨
      ba.walkStart position + n ≤ ba.capacity ∧
        slice (ba.walkStart position) n ba.flat.data = slice position n ba.flat.data)

variable {ba : ByteArray}

/-- The node of the cursor and the offset of `position` are those of `position` itself. -/
theorem walkStart_of_same_node {position : Nat}
    (hnode : ba.position / ba.baseSize = position / ba.baseSize) : ba.walkStart position = position := by
  rw [walkStart, hnode, Nat.mul_comm, Nat.div_add_mod]

/-- What a copy hands out. -/
theorem Inv.getReadBuffers_moved (h : Inv ba) {position : Nat} (hposition : position ≤ ba.size)
    (len : Nat) :
    ∃ moved reference, ba.setPosition position = .ok moved ∧
      moved.getReadBuffers [] len = .ok (min len (ba.size - position), reference) ∧
      moved.gather reference = slice position (min len (ba.size - position)) ba.flat.data := by
  obtain ⟨moved, hmove, hinv, hflat⟩ := h.setPosition_spec (hposition.trans h.size_le)
  obtain ⟨reference, hrun, hbytes⟩ := hinv.getReadBuffers_spec len
  have hreadable : moved.flat.readable = ba.size - position := by
    rw [hflat]
    change max ba.size position - position = ba.size - position
    rw [Nat.max_eq_left hposition]
  rw [hreadable] at hrun hbytes
  refine ⟨moved, reference, hmove, hrun, ?_⟩
  rw [hbytes, hflat]
  rfl

/-- The overload, with the bytes it clamps to. -/
theorem Inv.getReadBuffersAt_eq (h : Inv ba) (buffers : List Iovec) (len position : Nat) :
    ba.getReadBuffersAt buffers len position =
      if min len (ba.size - ba.position) = 0 then .ok (0, buffers)
      else (ba.chunks position pushIovec buffers (min len (ba.size - ba.position))).map
        fun walked => (min len (ba.size - ba.position), walked.1) := by
  have hreadable : ba.getReadableSize = ba.size - ba.position := h.getReadableSize_eq
  have hmin : (if len > ba.getReadableSize then ba.getReadableSize else len)
      = min len (ba.size - ba.position) := by
    rw [hreadable]
    split
    · next hgt => exact (Nat.min_eq_right (Nat.le_of_lt hgt)).symm
    · next hle => exact (Nat.min_eq_left (Nat.le_of_not_gt hle)).symm
  rw [getReadBuffersAt]
  simp only [hmin]
  cases ba.chunks position pushIovec buffers (min len (ba.size - ba.position)) <;> rfl

/-- With room behind the start of the walk, its bytes are handed out. -/
theorem Inv.getReadBuffersAt_of_room (h : Inv ba) (buffers : List Iovec) {len position n : Nat}
    (hn : min len (ba.size - ba.position) = n) (hpos : 0 < n)
    (hroom : ba.walkStart position + n ≤ ba.capacity) :
    ∃ added, ba.getReadBuffersAt buffers len position = .ok (n, buffers ++ added) ∧
      ba.gather added = slice (ba.walkStart position) n ba.flat.data := by
  have hbefore : ba.position < ba.capacity := by
    have hsize := h.size_le
    omega
  obtain ⟨added, hrun, htiles⟩ := h.pushIovecAt_spec hbefore rfl buffers hpos hroom
  refine ⟨added, ?_, htiles.gather_eq h⟩
  rw [h.getReadBuffersAt_eq, hn, if_neg hpos.ne', hrun]
  rfl

/-- Without it, the walk follows the null pointer behind the last node. -/
theorem Inv.getReadBuffersAt_of_short (h : Inv ba) (buffers : List Iovec) {len position n : Nat}
    (hn : min len (ba.size - ba.position) = n) (hpos : 0 < n)
    (hshort : ba.capacity < ba.walkStart position + n) :
    ba.getReadBuffersAt buffers len position = .error .nullNode := by
  have hbefore : ba.position < ba.capacity := by
    have hsize := h.size_le
    omega
  obtain ⟨hcurr, hderef⟩ := h.deref_curr hbefore
  rw [h.capacity_eq, Nat.mul_comm] at hshort
  have hrun : ba.chunks position pushIovec buffers n = .error .nullNode := by
    rw [chunks, hderef, h.chain_eq]
    exact chunkLoop_short pushIovec _ _ _ _ 0 n (Nat.mod_lt position h.base_pos) hcurr hshort
  rw [h.getReadBuffersAt_eq, hn, if_neg hpos.ne', hrun]
  rfl

theorem getReadBuffersAt_right_iff (h : Inv ba) (buffers : List Iovec) (len : Nat) {position : Nat}
    (hposition : position ≤ ba.size) :
    RightBuffers ba buffers len position ↔ CursorFits ba len position := by
  obtain ⟨moved, reference, hmove, hreference, hbytes⟩ := h.getReadBuffers_moved hposition len
  have hsize := h.size_le
  unfold RightBuffers CursorFits
  generalize hn : min len (ba.size - position) = n at hreference hbytes ⊢
  generalize hm : min len (ba.size - ba.position) = m
  have hend : n = 0 ∨ position + n ≤ ba.capacity := by omega
  constructor
  · rintro ⟨added, hrun, hadded, -⟩
    rcases Nat.eq_zero_or_pos m with hzero | hpos
    · rw [h.getReadBuffersAt_eq, hm, if_pos hzero] at hrun
      have hnone : 0 = n := congrArg Prod.fst (Except.ok.inj hrun)
      exact ⟨hzero.trans hnone, Or.inl hnone.symm⟩
    · rcases Nat.lt_or_ge ba.capacity (ba.walkStart position + m) with hshort | hroom
      · rw [h.getReadBuffersAt_of_short buffers hm hpos hshort] at hrun
        cases hrun
      · obtain ⟨added', hrun', hadded'⟩ := h.getReadBuffersAt_of_room buffers hm hpos hroom
        rw [hrun'] at hrun
        obtain ⟨hlen, hbuffers⟩ := Prod.mk.inj (Except.ok.inj hrun)
        obtain rfl := List.append_cancel_left hbuffers
        subst hlen
        exact ⟨rfl, Or.inr (Or.inr ⟨hroom, hadded'.symm.trans hadded⟩)⟩
  · rintro ⟨rfl, hcases⟩
    rcases Nat.eq_zero_or_pos m with hzero | hpos
    · subst hzero
      refine ⟨[], ?_, rfl, moved, reference, hmove, hreference, hbytes⟩
      rw [h.getReadBuffersAt_eq, hm, if_pos rfl, List.append_nil]
    · have hplace : ba.walkStart position + m ≤ ba.capacity ∧
          slice (ba.walkStart position) m ba.flat.data = slice position m ba.flat.data := by
        rcases hcases with hzero | hnode | hchance
        · exact absurd hzero hpos.ne'
        · rw [walkStart_of_same_node hnode]
          exact ⟨hend.resolve_left hpos.ne', rfl⟩
        · exact hchance
      obtain ⟨added, hrun, hadded⟩ := h.getReadBuffersAt_of_room buffers hm hpos hplace.1
      refine ⟨added, hrun, hadded.trans hplace.2, moved, reference, hmove, hreference, ?_⟩
      rw [hbytes, hadded, hplace.2]

/-- Four bytes in nodes of two, with the cursor back at the front. -/
def rewound : ByteArray :=
  { nodes := [⟨[1, 2]⟩, ⟨[3, 4]⟩]
    curr := some 0
    baseSize := 2
    position := 0
    capacity := 4
    size := 4
    allocated := 2 }

theorem inv_rewound : Inv rewound where
  base_pos := by decide
  head := by decide
  uniform := by decide
  capacity_eq := by decide
  position_le := by decide
  size_le := by decide
  curr_eq := by decide

theorem getReadBuffersAt_right_iff_rewound : RightBuffers rewound [] 3 1 :=
  (getReadBuffersAt_right_iff inv_rewound [] 3 (by decide)).mpr ⟨by decide, by decide⟩

/-- The last two of four bytes are asked for, and the first two come. -/
theorem getReadBuffersAt_wrong_node :
    (do
      let ba ← (create (fun _ _ => 0) 2).write (fun _ _ => 0) [1, 2, 3, 4]
      ba.setPosition 0) = .ok rewound ∧
    Inv rewound ∧ 2 ≤ rewound.size ∧ ¬ RightBuffers rewound [] 2 2 := by
  have hrun : rewound.getReadBuffersAt [] 2 2 = .ok (2, [⟨0, 0, 2⟩]) := by decide
  refine ⟨by decide, inv_rewound, by decide, ?_⟩
  rintro ⟨added, hadded, hbytes, -⟩
  rw [hrun] at hadded
  obtain rfl : [⟨0, 0, 2⟩] = added := congrArg Prod.snd (Except.ok.inj hadded)
  exact absurd hbytes (by decide)

end ByteArray

end AsyncRPC
