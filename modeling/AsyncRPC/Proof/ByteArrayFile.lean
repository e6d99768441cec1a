import AsyncRPC.ByteArrayFile
import AsyncRPC.Proof.ByteArray

/-!
# What goes through a file

A round of `writeToFile` writes to the end of its node as long as at least a node full of data is left,
and from the start of a node whatever is left. Otherwise it stops short of the end of the data, goes on
to the next node all the same, and from then on two numbers take turns as what is left and as the
offset: neither gets to zero, so the chain ends first.
-/

namespace AsyncRPC

open Blocks Word

namespace ByteArray

variable {heap : Heap} {ba : ByteArray}

section Writing

variable {base : Nat} {nodes : List Node}

theorem writeToFileLoop_zero (base : Nat) (nodes : List Node) (ofs : Ofstream) (pos : Nat) :
    writeToFileLoop base nodes ofs 0 pos = .ok ofs := by
  cases nodes with
  | nil => rfl
  | cons node next => rfl

theorem Ofstream.write_good {node : Node} {off n : Nat} {content : List UInt8} (hn : n < 2 ^ 63) :
    Ofstream.write node off n { content := content, bad := false } =
      { content := content ++ slice off n node.ptr, bad := false } := by
  rw [Ofstream.write, if_neg Bool.false_ne_true, if_pos hn]

theorem writeToFileLoop_cons {node : Node} {next : List Node} {ofs : Ofstream}
    {readSize pos len : Nat} (hmore : 0 < readSize)
    (hlen : subSize (if readSize > base then base else readSize) (pos % base) = len) :
    writeToFileLoop base (node :: next) ofs readSize pos =
      writeToFileLoop base next (ofs.write node (pos % base) len) (subSize readSize len)
        (addSize pos len) := by
  rw [writeToFileLoop, if_pos hmore]
  simp only [hlen]

/-- A loop that starts well writes what there is from its offset in the first node on. -/
theorem writeToFileLoop_spec (hbase : 0 < base) (huniform : ∀ node ∈ nodes, node.size = base)
    {content : List UInt8} {readSize pos : Nat}
    (hstart : pos % base = 0 ∨ base ≤ readSize) (hpos : pos + readSize < 2 ^ 63)
    (hroom : pos % base + readSize ≤ nodes.length * base) :
    writeToFileLoop base nodes { content := content, bad := false } readSize pos =
      .ok { content := content ++ slice (pos % base) readSize (nodes.map Node.ptr).flatten
            bad := false } := by
  induction nodes generalizing content readSize pos with
  | nil =>
      obtain rfl : readSize = 0 := by
        rw [List.length_nil] at hroom
        omega
      rw [writeToFileLoop_zero, slice_zero, List.append_nil]
  | cons node next ih =>
      have hnode : node.ptr.length = base := huniform node List.mem_cons_self
      have hnext : ∀ node ∈ next, node.size = base :=
        fun node hnode => huniform node (List.mem_cons_of_mem _ hnode)
      have hdiff : pos % base < base := Nat.mod_lt _ hbase
      rw [List.map_cons, List.flatten_cons]
      rcases Nat.eq_zero_or_pos readSize with rfl | hmore
      · rw [writeToFileLoop_zero, slice_zero, List.append_nil]
      rcases Nat.lt_or_ge readSize base with hlast | hfull
      · -- the rest is in this node
        have hzero : pos % base = 0 := hstart.resolve_right (Nat.not_le.mpr hlast)
        have hlen : subSize (if readSize > base then base else readSize) (pos % base) = readSize := by
          rw [if_neg hlast.not_gt, hzero, subSize_of_le (Nat.zero_le _), Nat.sub_zero]
        have hleft : subSize readSize readSize = 0 := by
          rw [subSize_of_le (Nat.le_refl _), Nat.sub_self]
        rw [writeToFileLoop_cons hmore hlen, Ofstream.write_good (by omega), hleft,
          writeToFileLoop_zero, slice_left (by omega)]
      · -- this node to its end, and the next one from its start
        have hlen : subSize (if readSize > base then base else readSize) (pos % base) =
            base - pos % base := by
          rw [← subSize_of_le hdiff.le]
          split
          · rfl
          · rw [show readSize = base by omega]
        have hleft : subSize readSize (base - pos % base) = readSize - (base - pos % base) :=
          subSize_of_le (by omega)
        have hmove : addSize pos (base - pos % base) = base * (pos / base + 1) := by
          rw [addSize_of_lt (by omega), Nat.mul_add, Nat.mul_one]
          have hdivMod := Nat.div_add_mod pos base
          omega
        have haligned : base * (pos / base + 1) % base = 0 := Nat.mul_mod_right _ _
        have hplace : base * (pos / base + 1) = pos + (base - pos % base) := by
          rw [← hmove, addSize_of_lt (by omega)]
        have hnextRoom : readSize - (base - pos % base) ≤ next.length * base := by
          rw [List.length_cons, Nat.add_mul, Nat.one_mul] at hroom
          omega
        have hsplit := slice_append (hdiff.le.trans_eq hnode.symm)
          (show node.ptr.length ≤ pos % base + readSize by omega) (next.map Node.ptr).flatten
        rw [hnode] at hsplit
        calc writeToFileLoop base (node :: next) { content := content, bad := false } readSize pos
            = writeToFileLoop base next
                { content := content ++ slice (pos % base) (base - pos % base) node.ptr, bad := false }
                (readSize - (base - pos % base)) (base * (pos / base + 1)) := by
              rw [writeToFileLoop_cons hmore hlen, Ofstream.write_good (by omega), hleft, hmove]
          _ = .ok { content := content ++ slice (pos % base) readSize
                      (node.ptr ++ (next.map Node.ptr).flatten)
                    bad := false } := by
              rw [ih hnext (Or.inl haligned) (by omega) (by omega), haligned, hsplit,
                List.append_assoc]

/-- Off the start of a node with less than a node of data left, what is left and the offset take turns
until the chain ends. -/
theorem writeToFileLoop_astray (ofs : Ofstream) {start readSize diff : Nat}
    (hstart : start % base = 0) (hread : 0 < readSize) (hreadLt : readSize < base)
    (hdiff : 0 < diff) (hdiffLt : diff < base) (hsize : start + base < 2 ^ 64) :
    writeToFileLoop base nodes ofs readSize (start + diff) = .error .nullNode := by
  induction nodes generalizing ofs readSize diff with
  | nil => rw [writeToFileLoop, if_pos hread]
  | cons node next ih =>
      have hoffset : (start + diff) % base = diff := by
        rw [Nat.add_mod, hstart, Nat.zero_add, Nat.mod_mod, Nat.mod_eq_of_lt hdiffLt]
      have hlen : subSize (if readSize > base then base else readSize) ((start + diff) % base) =
          subSize readSize diff := by
        rw [if_neg hreadLt.not_gt, hoffset]
      have hleft : subSize readSize (subSize readSize diff) = diff := by
        simp only [subSize]
        split <;> split <;> omega
      have hmove : addSize (start + diff) (subSize readSize diff) = start + readSize := by
        simp only [addSize, subSize]
        split <;> omega
      rw [writeToFileLoop_cons hread hlen, hleft, hmove]
      exact ih _ hdiff hdiffLt hread hreadLt

end Writing

section WriteToFile

theorem Inv.nodesFrom_curr (h : Inv ba) :
    ba.nodesFrom ba.curr = ba.nodes.drop (ba.position / ba.baseSize) := by
  rw [h.curr_eq]
  split
  · next hend =>
    rw [hend, h.capacity_eq, Nat.mul_div_cancel_left _ h.base_pos, List.drop_length]
    rfl
  · rfl

theorem Inv.unread_eq (h : Inv ba) :
    ba.unread = slice (ba.position % ba.baseSize) (ba.size - ba.position)
      ((ba.nodesFrom ba.curr).map Node.ptr).flatten := by
  have hplace : ba.position / ba.baseSize * ba.baseSize + ba.position % ba.baseSize = ba.position :=
    Nat.div_add_mod' _ _
  calc ba.unread
      = slice ba.position (ba.size - ba.position) (ba.nodes.map Node.ptr).flatten := rfl
    _ = slice (ba.position % ba.baseSize) (ba.size - ba.position)
          ((ba.nodes.map Node.ptr).flatten.drop (ba.position / ba.baseSize * ba.baseSize)) := by
        rw [slice, slice, List.drop_drop, hplace]
    _ = slice (ba.position % ba.baseSize) (ba.size - ba.position)
          ((ba.nodesFrom ba.curr).map Node.ptr).flatten := by
        rw [h.nodesFrom_curr, List.map_drop, drop_flatten h.blocks]

theorem Inv.writeToFile_eq (h : Inv ba) (old : List UInt8) :
    ba.writeToFile true old =
      ((writeToFileLoop ba.baseSize (ba.nodesFrom ba.curr) { content := [], bad := false }
        (ba.size - ba.position) ba.position) >>= fun ofs => .ok (true, ofs.content)) := by
  rw [writeToFile, if_pos rfl, h.getReadableSize_eq]
  rfl

theorem Inv.writeToFile_spec (h : Inv ba) (hsize : ba.capacity < 2 ^ 63) (hwhole : ba.StartsWhole)
    (old : List UInt8) : ba.writeToFile true old = .ok (true, ba.unread) := by
  have hle := h.position_le
  have hsizeLe := h.size_le
  rw [h.writeToFile_eq]
  rcases Nat.eq_or_lt_of_le hle with hnone | hmore
  · have hreadable : ba.size - ba.position = 0 := by omega
    rw [h.unread_eq, hreadable, writeToFileLoop_zero, slice_zero]
    rfl
  · have hstart : ba.position % ba.baseSize = 0 ∨ ba.baseSize ≤ ba.size - ba.position :=
      hwhole.resolve_left hmore.ne
    have huniform : ∀ node ∈ ba.nodesFrom ba.curr, node.size = ba.baseSize := by
      rw [h.nodesFrom_curr]
      exact fun node hnode => h.uniform node (List.mem_of_mem_drop hnode)
    have hroom : ba.position % ba.baseSize + (ba.size - ba.position) ≤
        (ba.nodesFrom ba.curr).length * ba.baseSize := by
      have hdivMod := Nat.div_add_mod' ba.position ba.baseSize
      rw [h.nodesFrom_curr, List.length_drop, Nat.sub_mul, Nat.mul_comm ba.nodes.length,
        ← h.capacity_eq]
      omega
    rw [writeToFileLoop_spec h.base_pos huniform hstart (by omega) hroom, h.unread_eq]
    rfl

theorem Inv.writeToFile_astray (h : Inv ba) (hsize : ba.capacity < 2 ^ 63)
    (hwhole : ¬ ba.StartsWhole) (old : List UInt8) :
    ba.writeToFile true old = .error .nullNode := by
  obtain ⟨hmore, hoffset, hshort⟩ : ba.position ≠ ba.size ∧ ba.position % ba.baseSize ≠ 0 ∧
      ¬ ba.baseSize ≤ ba.size - ba.position := by
    rw [StartsWhole, not_or, not_or] at hwhole
    exact hwhole
  have hle := h.position_le
  have hsizeLe := h.size_le
  have hdiff := Nat.mod_lt ba.position h.base_pos
  have hdivMod := Nat.div_add_mod' ba.position ba.baseSize
  have hstart : ba.position / ba.baseSize * ba.baseSize % ba.baseSize = 0 := Nat.mul_mod_left _ _
  have hnode : ba.baseSize ≤ ba.capacity := by
    rw [h.capacity_eq]
    exact Nat.le_mul_of_pos_right _ (List.length_pos_iff.mpr h.head)
  have hastray : writeToFileLoop ba.baseSize (ba.nodesFrom ba.curr) { content := [], bad := false }
      (ba.size - ba.position)
      (ba.position / ba.baseSize * ba.baseSize + ba.position % ba.baseSize) = .error .nullNode :=
    writeToFileLoop_astray _ hstart (by omega) (Nat.not_le.mp hshort) (Nat.pos_of_ne_zero hoffset)
      hdiff (by omega)
  rw [hdivMod] at hastray
  rw [h.writeToFile_eq, hastray]
  rfl

end WriteToFile

section ReadFromFile

variable {before : List UInt8}

theorem baseSize_addCapacity (heap : Heap) (ba : ByteArray) (n : Nat) :
    (ba.addCapacity heap n).baseSize = ba.baseSize := by
  simp only [addCapacity]
  split
  · rfl
  · split <;> rfl

theorem baseSize_write {ba' : ByteArray} {buf : List UInt8} (h : ba.write heap buf = .ok ba') :
    ba'.baseSize = ba.baseSize := by
  rw [write] at h
  split at h
  · cases h
    rfl
  · obtain ⟨r, -, hr⟩ := Outcome.bind_eq_ok.mp h
    cases hr
    exact baseSize_addCapacity heap ba buf.length

/-- Every round but the last, which finds the stream at its end, takes a node full of bytes. -/
theorem readFromFileLoop_spec {rounds : Nat} {rest : List UInt8}
    (hrounds : rest.length < rounds * ba.baseSize) (h : Holds ba before []) :
    ∃ ba', readFromFileLoop heap (rounds + 1) { rest := rest, eof := false } ba = some (.ok ba') ∧
      Holds ba' (before ++ rest) [] := by
  induction rounds generalizing rest ba before with
  | zero => omega
  | succ rounds ih =>
      obtain ⟨ba₁, hwrite, h₁⟩ := h.write heap (rest.take ba.baseSize)
      have hround : readFromFileLoop heap (rounds + 1 + 1) { rest := rest, eof := false } ba =
          readFromFileLoop heap (rounds + 1)
            { rest := rest.drop ba.baseSize, eof := rest.length < ba.baseSize } ba₁ := by
        rw [readFromFileLoop, if_neg Bool.false_ne_true, Ifstream.read]
        simp only [hwrite]
      rw [hround]
      rcases Nat.lt_or_ge rest.length ba.baseSize with hlast | hfull
      · rw [List.take_of_length_le hlast.le] at h₁
        refine ⟨ba₁, ?_, h₁⟩
        rw [readFromFileLoop, if_pos (decide_eq_true hlast)]
      · have hless : (rest.drop ba.baseSize).length < rounds * ba₁.baseSize := by
          rw [List.length_drop, baseSize_write hwrite]
          rw [Nat.add_mul, Nat.one_mul] at hrounds
          omega
        rw [decide_eq_false hfull.not_gt]
        obtain ⟨ba', hrun, h'⟩ := ih hless h₁
        refine ⟨ba', hrun, ?_⟩
        rwa [List.append_assoc, List.take_append_drop] at h'

/-- Reads of no bytes never come to the end of the file. -/
theorem readFromFileLoop_empty (rounds : Nat) (rest : List UInt8) (hbase : ba.baseSize = 0) :
    readFromFileLoop heap rounds { rest := rest, eof := false } ba = none := by
  induction rounds with
  | zero => rfl
  | succ rounds ih =>
      rw [readFromFileLoop, if_neg Bool.false_ne_true, Ifstream.read, hbase]
      exact ih

theorem loads_of_pos {base : Nat} (hbase : 0 < base) {file : List UInt8}
    (hsize : file.length < 2 ^ 63) : Loads heap base file := by
  refine ⟨file.length + 2, fun rounds hrounds => ?_⟩
  obtain ⟨rounds, rfl⟩ : ∃ k, rounds = k + 1 := ⟨rounds - 1, by omega⟩
  have henough : file.length < rounds * (create heap base).baseSize :=
    (Nat.le_of_succ_le_succ hrounds).trans (Nat.le_mul_of_pos_right rounds hbase)
  obtain ⟨back, hrun, hback⟩ := readFromFileLoop_spec henough (holds_create heap hbase)
  obtain ⟨reset, hreset, hholds⟩ := hback.setPosition_zero
  refine ⟨back, reset, ?_, hreset, ?_⟩
  · rw [readFromFile, if_pos rfl, hrun]
    rfl
  · rw [List.nil_append, List.append_nil] at hholds
    exact hholds.toString hsize

theorem Loads.pos {base : Nat} {file : List UInt8} (h : Loads heap base file) : 0 < base := by
  obtain ⟨enough, hall⟩ := h
  obtain ⟨back, -, hread, -⟩ := hall enough (Nat.le_refl _)
  by_contra hzero
  rw [readFromFile, if_pos rfl, readFromFileLoop_empty enough file (Nat.eq_zero_of_not_pos hzero)]
    at hread
  cases hread

end ReadFromFile

theorem PassesThroughFile.startsWhole {base : Nat} (h : ba.PassesThroughFile heap base) (hinv : Inv ba)
    (hsize : ba.capacity < 2 ^ 63) : ba.StartsWhole := by
  by_contra hwhole
  obtain ⟨file, hwrite, -, -, -⟩ := h []
  rw [hinv.writeToFile_astray hsize hwhole] at hwrite
  cases hwrite

/-- **Data through a file.** What is left of an array goes into a file, and a new array gets it back
out of it, just if the loop that writes it starts well and the new array has nodes of some size. -/
theorem passesThroughFile_iff {base : Nat} (hinv : Inv ba) (hsize : ba.capacity < 2 ^ 63) :
    ba.PassesThroughFile heap base ↔ ba.StartsWhole ∧ 0 < base := by
  constructor
  · intro h
    obtain ⟨file, -, -, -, hloads⟩ := h []
    exact ⟨h.startsWhole hinv hsize, hloads.pos⟩
  · rintro ⟨hwhole, hbase⟩ old
    have hsizeLe := hinv.size_le
    have hlength : ba.unread.length < 2 ^ 63 := by
      have hall := hinv.holds.size_eq
      omega
    exact ⟨ba.unread, hinv.writeToFile_spec hsize hwhole old, rfl, hinv.holds.toString hlength,
      loads_of_pos hbase hlength⟩

/-- Five bytes in nodes of two, written from the second on and read into nodes of three. -/
theorem passesThroughFile_iff_five :
    ∃ ba, ((create (fun _ _ => 0) 2).write (fun _ _ => 0) [1, 2, 3, 4, 5] >>=
        fun ba => ba.setPosition 1) = .ok ba ∧
      ba.PassesThroughFile (fun _ _ => 0) 3 := by
  refine ⟨
    { nodes := [⟨[1, 2]⟩, ⟨[3, 4]⟩, ⟨[5, 0]⟩]
      curr := some 0
      baseSize := 2
      position := 1
      capacity := 6
      size := 5
      allocated := 3 }, by decide, ?_⟩
  have hinv : Inv
      { nodes := [⟨[1, 2]⟩, ⟨[3, 4]⟩, ⟨[5, 0]⟩]
        curr := some 0
        baseSize := 2
        position := 1
        capacity := 6
        size := 5
        allocated := 3 } :=
    ⟨by decide, by decide, by decide, rfl, by decide, by decide, rfl⟩
  exact (passesThroughFile_iff hinv (by decide)).mpr ⟨Or.inr (Or.inr (by decide)), by decide⟩

/-- Two of three bytes in a node of four: one of them is written, and then the null node followed. -/
theorem not_passesThroughFile_offset :
    ∃ ba, ((create (fun _ _ => 0) 4).write (fun _ _ => 0) [97, 98, 99] >>=
        fun ba => ba.setPosition 1) = .ok ba ∧
      ¬ ba.PassesThroughFile (fun _ _ => 0) 4 := by
  refine ⟨
    { nodes := [⟨[97, 98, 99, 0]⟩]
      curr := some 0
      baseSize := 4
      position := 1
      capacity := 4
      size := 3
      allocated := 1 }, by decide, ?_⟩
  intro h
  obtain ⟨file, hwrite, -, -, -⟩ := h []
  have hfault : Except.error Fault.nullNode = Except.ok (true, file) := hwrite
  cases hfault

end ByteArray

end AsyncRPC
