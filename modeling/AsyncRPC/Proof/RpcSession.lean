import AsyncRPC.Proof.Frame
import AsyncRPC.RpcSession
import Mathlib.Algebra.Order.BigOperators.Group.Finset

/-!
# Messages over a session

The lock keeps the bytes of a message together, so the bytes that were sent are those of the messages
in the order in which the lock was taken, up to what the holder of the lock has not sent yet. The peer
has taken whole messages off the front of them and a part of the next one: of its header, or its
header and a part of its content. What it has of a header when that is complete is the header of the
next message, as all headers are of one length.
-/

namespace AsyncRPC.RpcSession

open Blocks Interleaving Word
open AsyncRPC.ByteArray (Holds)

section Transfers

variable {ba : ByteArray} {before after : List UInt8} {k : Nat}

/-- A call of `send` takes some of the bytes that are left. -/
theorem write_spec (h : Holds ba before after) (hk : 1 ≤ k) (hafter : after ≠ []) :
    ∃ ba', write ba after.length k = .ok ((after.take k).length, after.take k, ba') ∧
      0 < (after.take k).length ∧ Holds ba' (before ++ after.take k) (after.drop k) := by
  obtain ⟨buffers, hbuffers, hgather⟩ := h.getReadBuffers
  have hpos : 0 < (after.take k).length := by
    have hlength := List.length_pos_iff.mpr hafter
    rw [List.length_take]
    omega
  have hsplit : Holds ba before (after.take k ++ after.drop k) := by
    rwa [List.take_append_drop]
  obtain ⟨ba', hmove, hba'⟩ := hsplit.setPosition
  refine ⟨ba', ?_, hpos, hba'⟩
  simp only [write, hbuffers, hgather, hmove, bind, Except.bind, gt_iff_lt, hpos, if_true]

/-- A call of `recv` puts some of the bytes that are there behind those it has. -/
theorem read_spec (h : Holds ba before []) (heap : Heap) {len : Nat} (hlen : 0 < len) (hk : 1 ≤ k)
    {wire : List UInt8} (hwire : wire ≠ []) :
    ∃ ba', read heap ba len k wire = .ok ((wire.take (min k len)).length, ba') ∧
      0 < (wire.take (min k len)).length ∧ Holds ba' (before ++ wire.take (min k len)) [] := by
  obtain ⟨buffers, grown, hbuffers, hsum, hfill⟩ := h.getWriteBuffers heap len
  have hpos : 0 < (wire.take (min k len)).length := by
    have hlength := List.length_pos_iff.mpr hwire
    rw [List.length_take]
    omega
  have hfits : (wire.take (min k len)).length ≤ len := by
    rw [List.length_take]
    omega
  obtain ⟨ba', hmove, hba'⟩ := hfill _ hfits
  refine ⟨ba', ?_, hpos, hba'⟩
  simp only [read, hbuffers, hsum, hmove, bind, Except.bind, gt_iff_lt, hpos, if_true]

end Transfers

/-! ### What every step keeps -/

/-- The peer has the header of a message and the first `offset` bytes of its content. -/
structure TookContent (m : Frame) (request : Frame) (buff : List UInt8) (offset left : Nat)
    (part : List UInt8) : Prop where
  request_eq : request = { m with content := [] }
  part_eq : part = m.header ++ buff.take offset
  length_buff : buff.length = m.content.length
  place : offset + left = m.content.length
  nonempty : 0 < m.content.length

/-- Of the messages to come, the peer has `part`. -/
def Receiver.Took (msgs : List Frame) (part : List UInt8) : Receiver → Prop
  | .idle => part = []
  | .readingMeta _ ba left => Holds ba part [] ∧ part.length + left = Frame.baseLength
  | .readingContent request buff offset left =>
      ∃ m rest, msgs = m :: rest ∧ TookContent m request buff offset left part

theorem Receiver.Took.append {msgs : List Frame} {part : List UInt8} {r : Receiver}
    (h : r.Took msgs part) (more : List Frame) : r.Took (msgs ++ more) part := by
  cases r with
  | idle => exact h
  | readingMeta heap ba left => exact h
  | readingContent request buff offset left =>
      obtain ⟨m, rest, rfl, htook⟩ := h
      exact ⟨m, rest ++ more, rfl, htook⟩

variable {F : Type} [DecidableEq F]

/-- What a fiber has not taken the lock for yet. -/
def State.pending (s : State F) (f : F) : List Frame :=
  match s.sender f with
  | .writing _ _ => (s.todo f).tail
  | _ => s.todo f

/-- `got` has arrived and `rest` is on its way; the peer has `part` of it, and `unsent` is still with
the holder of the lock. -/
structure Inv (given : F → List Frame) (s : State F) (got rest : List (F × Frame))
    (part unsent : List UInt8) : Prop where
  results : s.results = got.map fun x => some x.2
  stream : part ++ (s.wire ++ unsent) = rest.flatMap fun x => x.2.bytes
  receiver : s.receiver.Took (rest.map Prod.snd) part
  lanes : ∀ f, lane f (got ++ rest) ++ s.pending f = given f
  encoded : ∀ f ba, s.sender f = .encoded ba → ∃ m tail, s.todo f = m :: tail ∧ Holds ba [] m.bytes
  writing : ∀ f ba left, s.sender f = .writing ba left →
    s.mutex = some f ∧ (∃ before, Holds ba before unsent) ∧ left = unsent.length
  held : ∀ f, s.mutex = some f → ∃ ba left, s.sender f = .writing ba left
  free : s.mutex = none → unsent = []

/-- The invariant, for some course of things. -/
def Good (given : F → List Frame) (s : State F) : Prop :=
  ∃ got rest part unsent, Inv given s got rest part unsent

variable {given : F → List Frame} {s t : State F} {got rest got' rest' : List (F × Frame)}
variable {part part' unsent : List UInt8} {f : F}

section Work

/-- The steps that a message takes its sender, its bytes counted once more for those of the peer. -/
def cost (m : Frame) : Nat := 2 * m.bytes.length + 3

def Sender.work (todo : List Frame) : Sender → Nat
  | .idle => (todo.map cost).sum
  | .encoded _ => (todo.map cost).sum - 1
  | .writing _ left => (todo.tail.map cost).sum + 2 * left + 1

def Receiver.phase : Receiver → Nat
  | .idle => 0
  | .readingMeta _ _ _ => 1
  | .readingContent _ _ _ _ => 2

variable [Fintype F]

/-- The steps of the peer beside the calls of `recv`, when it has `total` messages to receive. -/
def State.peerWork (total : Nat) (s : State F) : Nat :=
  4 * (total - s.results.length) + 2 - s.receiver.phase

/-- No more steps than this are left. -/
def State.work (given : F → List Frame) (s : State F) : Nat :=
  ∑ f, (s.sender f).work (s.todo f) + (s.wire.length + s.peerWork (∑ f, (given f).length))

/-- Only the fiber `f` has moved, and the peer has not. -/
structure State.Only (f : F) (s t : State F) : Prop where
  sender : ∀ g, g ≠ f → t.sender g = s.sender g
  todo : ∀ g, g ≠ f → t.todo g = s.todo g
  results : t.results = s.results
  receiver : t.receiver = s.receiver

theorem State.Only.work_lt (h : s.Only f t)
    (hless : (t.sender f).work (t.todo f) + t.wire.length
      < (s.sender f).work (s.todo f) + s.wire.length) : t.work given < s.work given := by
  have hothers : ∑ g ∈ Finset.univ.erase f, (t.sender g).work (t.todo g)
      = ∑ g ∈ Finset.univ.erase f, (s.sender g).work (s.todo g) := by
    refine Finset.sum_congr rfl fun g hg => ?_
    rw [h.sender g (Finset.ne_of_mem_erase hg), h.todo g (Finset.ne_of_mem_erase hg)]
  rw [State.work, State.work, ← Finset.add_sum_erase _ _ (Finset.mem_univ f), hothers,
    ← Finset.add_sum_erase _ (fun g => (s.sender g).work (s.todo g)) (Finset.mem_univ f),
    State.peerWork, State.peerWork, h.results, h.receiver]
  omega

/-- The invariant after a step, which leaves fewer steps. -/
def Progress (given : F → List Frame) (s t : State F) : Prop :=
  Good given t ∧ t.work given < s.work given

end Work

theorem good_of_start (h : s = start given) : Good given s := by
  subst h
  refine ⟨[], [], [], [], rfl, rfl, rfl, fun f => rfl, ?_, ?_, ?_, fun _ => rfl⟩
  · intro f ba hf
    cases hf
  · intro f ba left hf
    cases hf
  · intro f hf
    cases hf

/-- The message that the peer comes to next. -/
theorem Inv.sendable (hsound : ∀ f, ∀ m ∈ given f, m.Sendable) (h : Inv given s got rest part unsent)
    {m : Frame} {tail : List Frame} (hrest : rest.map Prod.snd = m :: tail) : m.Sendable := by
  have hm : m ∈ rest.map Prod.snd := by
    rw [hrest]
    exact List.mem_cons_self
  obtain ⟨x, hx, rfl⟩ := List.mem_map.mp hm
  have hlane : x.2 ∈ lane x.1 (got ++ rest) := mem_lane (List.mem_append_right got hx)
  refine hsound x.1 x.2 ?_
  rw [← h.lanes x.1]
  exact List.mem_append_left _ hlane

section Facts

theorem Inv.alone (h : Inv given s got rest part unsent) {ba : ByteArray} {left : Nat}
    (hf : s.sender f = .writing ba left) :
    ∀ g ba left, g ≠ f → s.sender g ≠ .writing ba left := by
  intro g ba' left' hgf hg
  exact hgf (Option.some.inj ((h.writing g ba' left' hg).1.symm.trans (h.writing f ba left hf).1))

theorem take_append_drop_length (n : Nat) (wire : List UInt8) :
    wire.take n ++ wire.drop (wire.take n).length = wire :=
  List.prefix_iff_eq_append.mp (List.take_prefix n wire)

theorem Inv.stream_recv (h : Inv given s got rest part unsent) (n : Nat) :
    part ++ s.wire.take n ++ (s.wire.drop (s.wire.take n).length ++ unsent)
      = rest.flatMap fun x => x.2.bytes := by
  rw [← h.stream, List.append_assoc, ← List.append_assoc (s.wire.take n), take_append_drop_length]

/-- As much of the stream as a header takes is the header of the next message. -/
theorem Inv.next (h : Inv given s got rest part unsent) (hlength : part.length = Frame.baseLength) :
    ∃ x tail, rest = x :: tail ∧ part = x.2.header ∧
      s.wire ++ unsent = x.2.content ++ tail.flatMap fun x => x.2.bytes := by
  have hstream := h.stream
  cases rest with
  | nil =>
      have hnil : part = [] := (List.append_eq_nil_iff.mp hstream).1
      rw [hnil] at hlength
      cases hlength
  | cons x tail =>
      rw [List.flatMap_cons, Frame.bytes, List.append_assoc] at hstream
      obtain ⟨hpart, hmore⟩ := List.append_inj hstream (hlength.trans (Frame.length_header x.2).symm)
      exact ⟨x, tail, rfl, hpart, hmore⟩

end Facts

section Senders

variable [Fintype F]

theorem Inv.encode (h : Inv given s got rest part unsent) {ba : ByteArray} {m : Frame}
    {tail : List Frame} (hidle : s.sender f = .idle) (htodo : s.todo f = m :: tail)
    (hba : Holds ba [] m.bytes) :
    Progress given s { s with sender := Function.update s.sender f (.encoded ba) } := by
  have hframe : s.Only f { s with sender := Function.update s.sender f (.encoded ba) } :=
    ⟨fun g hg => Function.update_of_ne hg _ _, fun _ _ => rfl, rfl, rfl⟩
  refine ⟨⟨got, rest, part, unsent, h.results, h.stream, h.receiver, fun g => ?_, fun g ba' hg => ?_,
    fun g ba' left hg => ?_, fun g hg => ?_, h.free⟩, hframe.work_lt ?_⟩
  · by_cases hgf : g = f
    · subst hgf
      simpa [State.pending, hidle] using h.lanes g
    · simpa [State.pending, Function.update_of_ne hgf] using h.lanes g
  · by_cases hgf : g = f
    · subst hgf
      cases (Function.update_self g _ s.sender).symm.trans hg
      exact ⟨m, tail, htodo, hba⟩
    · exact h.encoded g ba' ((hframe.sender g hgf).symm.trans hg)
  · by_cases hgf : g = f
    · subst hgf
      cases (Function.update_self g _ s.sender).symm.trans hg
    · exact h.writing g ba' left ((hframe.sender g hgf).symm.trans hg)
  · obtain ⟨ba', left, hwriting⟩ := h.held g hg
    have hgf : g ≠ f := by
      rintro rfl
      cases hidle.symm.trans hwriting
    exact ⟨ba', left, (hframe.sender g hgf).trans hwriting⟩
  · simp only [Function.update_self, hidle, htodo, Sender.work, List.map_cons, List.sum_cons, cost]
    omega

/-- The fiber writes, and `unsent` is what it still has to write. -/
def State.Writes (s : State F) (f : F) (unsent : List UInt8) : Prop :=
  ∃ ba left, s.sender f = .writing ba left ∧ s.mutex = some f ∧ (∃ before, Holds ba before unsent) ∧
    left = unsent.length

/-- A step of the one fiber that writes, before or after, with the messages it adds to those that are on
their way. -/
theorem Inv.own {unsent' : List UInt8} (h : Inv given s got rest part unsent) (more : List (F × Frame))
    (halone : ∀ g ba left, g ≠ f → s.sender g ≠ .writing ba left) (hframe : s.Only f t)
    (hmore : ∀ g, g ≠ f → lane g more = []) (hlane : lane f more ++ t.pending f = s.pending f)
    (hstream : s.wire ++ unsent ++ (more.flatMap fun x => x.2.bytes) = t.wire ++ unsent')
    (hafter : t.Writes f unsent' ∨ t.sender f = .idle ∧ t.mutex = none ∧ unsent' = [])
    (hless : (t.sender f).work (t.todo f) + t.wire.length
      < (s.sender f).work (s.todo f) + s.wire.length) : Progress given s t := by
  refine ⟨⟨got, rest ++ more, part, unsent', hframe.results.trans h.results, ?_, ?_, fun g => ?_,
    fun g ba hg => ?_, fun g ba left hg => ?_, fun g hg => ?_, fun hnone => ?_⟩, hframe.work_lt hless⟩
  · rw [List.flatMap_append, ← h.stream, ← hstream]
    simp only [List.append_assoc]
  · rw [hframe.receiver, List.map_append]
    exact h.receiver.append _
  · rw [← h.lanes g, ← List.append_assoc, lane_append, List.append_assoc]
    by_cases hgf : g = f
    · subst hgf
      rw [hlane]
    · rw [hmore g hgf, List.nil_append, State.pending, State.pending, hframe.sender g hgf,
        hframe.todo g hgf]
  · by_cases hgf : g = f
    · subst hgf
      rcases hafter with ⟨_, _, hwriting, -⟩ | ⟨hidle, -⟩
      · cases hwriting.symm.trans hg
      · cases hidle.symm.trans hg
    · rw [hframe.todo g hgf]
      exact h.encoded g ba ((hframe.sender g hgf).symm.trans hg)
  · by_cases hgf : g = f
    · subst hgf
      rcases hafter with ⟨_, _, hwriting, hrest⟩ | ⟨hidle, -⟩
      · cases hwriting.symm.trans hg
        exact hrest
      · cases hidle.symm.trans hg
    · exact absurd ((hframe.sender g hgf).symm.trans hg) (halone g ba left hgf)
  · rcases hafter with ⟨ba, left, hwriting, hmutex, -⟩ | ⟨-, hmutex, -⟩
    · cases hmutex.symm.trans hg
      exact ⟨ba, left, hwriting⟩
    · cases hmutex.symm.trans hg
  · rcases hafter with ⟨_, _, -, hmutex, -⟩ | ⟨-, -, hunsent⟩
    · cases hmutex.symm.trans hnone
    · exact hunsent

theorem Inv.lock (h : Inv given s got rest part unsent) {ba : ByteArray}
    (hencoded : s.sender f = .encoded ba) (hnone : s.mutex = none) :
    Progress given s { s with
      mutex := some f
      sender := Function.update s.sender f (.writing ba ba.size) } := by
  obtain ⟨m, tail, htodo, hba⟩ := h.encoded f ba hencoded
  have hunsent := h.free hnone
  have hsize : ba.size = m.bytes.length := by simpa using hba.size_eq
  have hself : Function.update s.sender f (.writing ba ba.size) f = .writing ba ba.size :=
    Function.update_self f _ _
  refine h.own [(f, m)] ?_ ⟨fun g hg => Function.update_of_ne hg _ _, fun _ _ => rfl, rfl, rfl⟩
    (fun g hg => lane_other (Ne.symm hg) m) ?_ ?_ (Or.inl ⟨ba, ba.size, hself, rfl, ⟨[], hba⟩, hsize⟩) ?_
  · intro g ba' left' _ hg
    cases hnone.symm.trans (h.writing g ba' left' hg).1
  · simp [State.pending, hencoded, htodo, lane_self]
  · rw [hunsent, List.append_nil, List.flatMap_singleton]
  · change (Function.update s.sender f (.writing ba ba.size) f).work (s.todo f) + _ < _
    rw [hself, hencoded, htodo, hsize]
    simp only [Sender.work, List.map_cons, List.sum_cons, List.tail_cons, cost]
    omega

theorem Inv.sendRound (h : Inv given s got rest part unsent) {ba : ByteArray} {left k : Nat}
    (hwriting : s.sender f = .writing ba left) (hleft : left > 0) (hk : 1 ≤ k) :
    ∃ t, s.sendRound f ba left k = .ok t ∧ Progress given s t := by
  obtain ⟨hmutex, ⟨before, hba⟩, rfl⟩ := h.writing f ba left hwriting
  obtain ⟨ba', hwrite, hpos, hba'⟩ := write_spec hba hk (List.length_pos_iff.mp hleft)
  have hlength : (unsent.take k).length + (unsent.drop k).length = unsent.length := by
    rw [← List.length_append, List.take_append_drop]
  have hsub : subSize unsent.length (unsent.take k).length = (unsent.drop k).length := by
    rw [subSize_of_le (Nat.le.intro hlength)]
    omega
  have hself : Function.update s.sender f (.writing ba' (unsent.drop k).length) f
      = .writing ba' (unsent.drop k).length := Function.update_self f _ _
  refine ⟨{ s with
    wire := s.wire ++ unsent.take k
    sender := Function.update s.sender f (.writing ba' (unsent.drop k).length) }, ?_, ?_⟩
  · rw [State.sendRound, hwrite]
    simp only [bind, Except.bind, if_neg (Nat.not_le.mpr hpos), hsub]
  · refine h.own (f := f) [] (h.alone hwriting)
      ⟨fun g hg => Function.update_of_ne hg _ _, fun _ _ => rfl, rfl, rfl⟩ (fun g _ => rfl) ?_ ?_
      (Or.inl ⟨ba', _, hself, hmutex, ⟨_, hba'⟩, rfl⟩) ?_
    · simp [State.pending, hwriting, lane]
    · simp
    · simp only [hself, hwriting, Sender.work, List.length_append]
      omega

theorem Inv.unlock (h : Inv given s got rest part unsent) {ba : ByteArray} {left : Nat}
    (hwriting : s.sender f = .writing ba left) (hleft : ¬ left > 0) :
    Progress given s (s.returnSend f) := by
  obtain ⟨-, -, rfl⟩ := h.writing f ba left hwriting
  have hunsent : unsent = [] := List.eq_nil_of_length_eq_zero (by omega)
  refine h.own (f := f) [] (h.alone hwriting) ⟨fun g hg => Function.update_of_ne hg _ _,
    fun g hg => Function.update_of_ne hg _ _, rfl, rfl⟩ (fun g _ => rfl) ?_ ?_
    (Or.inr ⟨Function.update_self f _ _, rfl, rfl⟩) ?_
  · simp [State.pending, State.returnSend, hwriting, lane]
  · simp [hunsent, State.returnSend]
  · simp only [State.returnSend, Function.update_self, hwriting, Sender.work]
    omega

end Senders

section Receiver

variable [Fintype F]

theorem Receiver.phase_le (r : Receiver) : r.phase ≤ 2 := by
  cases r with
  | idle => exact Nat.zero_le 2
  | readingMeta heap ba left => exact Nat.le_succ 1
  | readingContent request buff offset left => exact Nat.le_refl 2

theorem Inv.results_lt {x : F × Frame} {tail : List (F × Frame)}
    (h : Inv given s got (x :: tail) part unsent) : s.results.length < ∑ f, (given f).length := by
  calc s.results.length = got.length := by rw [h.results, List.length_map]
    _ < (got ++ x :: tail).length := by
      rw [List.length_append, List.length_cons]
      omega
    _ = ∑ f, (lane f (got ++ x :: tail)).length := (sum_length_lane _).symm
    _ ≤ ∑ f, (given f).length := by
      refine Finset.sum_le_sum fun f _ => ?_
      rw [← h.lanes f, List.length_append]
      exact Nat.le_add_right _ _

theorem Inv.peer (h : Inv given s got rest part unsent) (htodo : t.todo = s.todo)
    (hsender : t.sender = s.sender) (hmutex : t.mutex = s.mutex)
    (hresults : t.results = got'.map fun x => some x.2) (hlog : got' ++ rest' = got ++ rest)
    (hstream : part' ++ (t.wire ++ unsent) = rest'.flatMap fun x => x.2.bytes)
    (hreceiver : t.receiver.Took (rest'.map Prod.snd) part')
    (hless : t.wire.length + t.peerWork (∑ f, (given f).length)
      < s.wire.length + s.peerWork (∑ f, (given f).length)) : Progress given s t := by
  refine ⟨⟨got', rest', part', unsent, hresults, hstream, hreceiver, fun g => ?_, ?_, ?_, ?_, ?_⟩, ?_⟩
  · rw [hlog, State.pending, hsender, htodo]
    exact h.lanes g
  · rw [hsender, htodo]
    exact h.encoded
  · rw [hsender, hmutex]
    exact h.writing
  · rw [hsender, hmutex]
    exact h.held
  · rw [hmutex]
    exact h.free
  · rw [State.work, State.work, hsender, htodo]
    exact Nat.add_lt_add_left hless _

theorem Inv.recvRequest (h : Inv given s got rest part unsent) (hidle : s.receiver = .idle)
    (heap : Heap) : Progress given s { s with
      receiver := .readingMeta heap (ByteArray.create heap 4096) Frame.baseLength } := by
  have hpart : part = [] := by
    have htook := h.receiver
    rwa [hidle] at htook
  subst hpart
  refine h.peer rfl rfl rfl h.results rfl h.stream ?_ ?_
  · exact ⟨ByteArray.holds_create heap (Nat.succ_pos 4095), Nat.zero_add _⟩
  · simp only [State.peerWork, hidle, Receiver.phase]
    omega

/-- A call of `recv` that takes `n` bytes at most, and leaves the peer in the same loop. -/
theorem Inv.recv (h : Inv given s got rest part unsent) (n : Nat) {receiver : Receiver}
    (hpos : 0 < (s.wire.take n).length) (hphase : receiver.phase = s.receiver.phase)
    (htook : receiver.Took (rest.map Prod.snd) (part ++ s.wire.take n)) :
    Progress given s { s with
      wire := s.wire.drop (s.wire.take n).length
      receiver := receiver } := by
  refine h.peer rfl rfl rfl h.results rfl (h.stream_recv n) htook ?_
  have hlength : (s.wire.take n).length ≤ s.wire.length := by
    rw [List.length_take]
    exact Nat.min_le_right _ _
  simp only [State.peerWork, hphase, List.length_drop]
  omega

theorem Inv.recvRound (hsound : ∀ f, ∀ m ∈ given f, m.Sendable) (h : Inv given s got rest part unsent)
    {k : Nat} (hwire : s.wire ≠ []) (hk : 1 ≤ k) {r : Except Fault (State F)}
    (hrun : s.recvRound k = some r) : ∃ t, r = .ok t ∧ Progress given s t := by
  have htook := h.receiver
  cases hreceiver : s.receiver with
  | idle =>
      rw [State.recvRound, hreceiver] at hrun
      cases hrun
  | readingMeta heap ba left =>
      rw [hreceiver] at htook
      obtain ⟨hba, hplace⟩ := htook
      simp only [State.recvRound, hreceiver] at hrun
      split at hrun
      · next hleft =>
        obtain ⟨ba', hread, hpos, hba'⟩ := read_spec hba heap hleft hk hwire
        simp only [hread, bind, Except.bind, if_neg (Nat.not_le.mpr hpos), Option.some.injEq] at hrun
        refine ⟨_, hrun.symm, h.recv _ hpos (by rw [hreceiver]; rfl) ⟨hba', ?_⟩⟩
        have hle : (s.wire.take (min k left)).length ≤ left := by
          rw [List.length_take]
          omega
        rw [subSize_of_le hle, List.length_append]
        omega
      · cases hrun
  | readingContent request buff offset left =>
      rw [hreceiver] at htook
      obtain ⟨m, tail, hrest, hrequest, hpart, hbuff, hplace, hnonempty⟩ := htook
      have hshort := (h.sendable hsound hrest).content
      simp only [State.recvRound, hreceiver] at hrun
      split at hrun
      · next hleft =>
        have hpos : 0 < (s.wire.take (min k left)).length := by
          have hlength := List.length_pos_iff.mpr hwire
          rw [List.length_take]
          omega
        have hle : (s.wire.take (min k left)).length ≤ left := by
          rw [List.length_take]
          omega
        simp only [if_neg (Nat.not_le.mpr hpos), Option.some.injEq] at hrun
        refine ⟨_, hrun.symm, h.recv _ hpos (by rw [hreceiver]; rfl)
          ⟨m, tail, hrest, hrequest, ?_, ?_, ?_, hnonempty⟩⟩
        · rw [addSize_of_lt (by omega), take_overwrite (by omega), hpart, List.append_assoc]
        · rw [length_overwrite (by omega), hbuff]
        · rw [addSize_of_lt (by omega), subSize_of_le hle]
          omega
      · cases hrun

theorem Inv.arrived {x : F × Frame} {tail : List (F × Frame)} {result : Option Frame}
    (h : Inv given s got (x :: tail) part unsent) (hpart : part = x.2.bytes)
    (hresult : result = some x.2) : Progress given s (s.returnRecv result) := by
  have hstream := h.stream
  rw [List.flatMap_cons, hpart] at hstream
  have hnext : [] ++ ((s.returnRecv result).wire ++ unsent) = tail.flatMap fun x => x.2.bytes :=
    List.append_cancel_left hstream
  have hresults : (s.returnRecv result).results = (got ++ [x]).map fun x => some x.2 := by
    rw [State.returnRecv, h.results, hresult, List.map_append]
    rfl
  have hlog : got ++ [x] ++ tail = got ++ x :: tail := by
    rw [List.append_assoc]
    rfl
  refine h.peer rfl rfl rfl hresults hlog hnext rfl ?_
  have hroom := h.results_lt
  have hphase := s.receiver.phase_le
  have hidle : Receiver.idle.phase = 0 := rfl
  simp only [State.peerWork, State.returnRecv, List.length_append, List.length_singleton, hidle]
  omega

theorem Inv.decode (hsound : ∀ f, ∀ m ∈ given f, m.Sendable) (h : Inv given s got rest part unsent)
    {r : Except Fault (State F)} (hrun : s.decode = some r) : ∃ t, r = .ok t ∧ Progress given s t := by
  have htook := h.receiver
  cases hreceiver : s.receiver with
  | idle =>
      rw [State.decode, hreceiver] at hrun
      cases hrun
  | readingMeta heap ba left =>
      rw [hreceiver] at htook
      obtain ⟨hba, hplace⟩ := htook
      simp only [State.decode, hreceiver] at hrun
      split at hrun
      · cases hrun
      · next hleft =>
        obtain ⟨x, tail, rfl, hpart, hmore⟩ := h.next (by omega)
        have hsendable : x.2.Sendable := h.sendable hsound rfl
        obtain ⟨ba₁, hreset, hba₁⟩ := hba.setPosition_zero
        rw [hpart, List.append_nil] at hba₁
        obtain ⟨ba₂, hmeta⟩ := Frame.decodeMeta_spec Frame.new hba₁
        rw [hsendable.decoded] at hmeta
        have hmagic : ¬ x.2.magic ≠ Frame.protocolMagic := not_not_intro hsendable.magic
        simp only [hreset, hmeta, bind, Except.bind, if_neg hmagic, hsendable.contentLength,
          Option.some.injEq] at hrun
        subst hrun
        by_cases hempty : x.2.content.length = 0
        · have hcontent : x.2.content = [] := List.eq_nil_of_length_eq_zero hempty
          rw [if_pos hempty]
          refine ⟨_, rfl, h.arrived ?_ ?_⟩
          · rw [hpart, Frame.bytes, hcontent, List.append_nil]
          · rw [← hcontent]
        · have hlength : x.2.content.length < 2 ^ 63 := hsendable.content.trans (by decide)
          rw [if_neg hempty, ByteArray.resize, if_pos hlength]
          refine ⟨_, rfl, h.peer rfl rfl rfl h.results rfl h.stream ⟨x.2, _, rfl, rfl, ?_, ?_, ?_, ?_⟩ ?_⟩
          · rw [hpart, List.take_zero, List.append_nil]
          · exact List.length_replicate
          · exact Nat.zero_add _
          · exact Nat.pos_of_ne_zero hempty
          · simp only [State.peerWork, hreceiver, Receiver.phase]
            omega
  | readingContent request buff offset left =>
      rw [hreceiver] at htook
      obtain ⟨m, tail, hrest, rfl, hpart, hbuff, hplace, hnonempty⟩ := htook
      have hsendable := h.sendable hsound hrest
      simp only [State.decode, hreceiver] at hrun
      split at hrun
      · cases hrun
      · next hleft =>
        have hfull : buff.take offset = buff := List.take_of_length_le (by omega)
        obtain ⟨x, tail', rfl, rfl, -⟩ := List.map_eq_cons_iff.mp hrest
        have hint := intOfSize_eq_self_iff.mpr hsendable.content
        have hpositive : ¬ intOfSize x.2.content.length ≤ 0 := by
          rw [hint]
          omega
        rw [hsendable.contentLength, if_neg hpositive, Option.some.injEq] at hrun
        have hstream := h.stream
        rw [hpart, hfull, List.flatMap_cons, Frame.bytes, List.append_assoc, List.append_assoc] at hstream
        have hcontent : buff = x.2.content :=
          (List.append_inj (List.append_cancel_left hstream) hbuff).1
        subst hrun
        refine ⟨_, rfl, h.arrived ?_ ?_⟩
        · rw [hpart, hfull, hcontent, Frame.bytes]
        · rw [hcontent]

end Receiver

section Runs

variable [Fintype F]

/-- Whatever step is taken, it does not fault. -/
theorem Good.exec (hsound : ∀ f, ∀ m ∈ given f, m.Sendable) (h : Good given s) {l : Label F}
    {r : Except Fault (State F)} (hrun : s.exec l = some r) : ∃ t, r = .ok t ∧ Progress given s t := by
  obtain ⟨got, rest, part, unsent, h⟩ := h
  cases l with
  | encode f heap =>
      simp only [State.exec] at hrun
      split at hrun
      · next m tail hidle htodo =>
        obtain ⟨ba, hencode, hba⟩ := Frame.encode_spec heap m
        simp only [hencode, bind, Except.bind, Option.some.injEq] at hrun
        exact ⟨_, hrun.symm, h.encode hidle htodo hba⟩
      · cases hrun
  | lock f =>
      simp only [State.exec] at hrun
      split at hrun
      · next ba hencoded hnone =>
        cases hrun
        exact ⟨_, rfl, h.lock hencoded hnone⟩
      · cases hrun
  | send f k =>
      simp only [State.exec] at hrun
      split at hrun
      · next ba left hwriting =>
        split at hrun
        · next henabled =>
          obtain ⟨t, hround, hgood⟩ := h.sendRound hwriting henabled.1 henabled.2.1
          cases hrun
          exact ⟨t, hround, hgood⟩
        · cases hrun
      · cases hrun
  | unlock f =>
      simp only [State.exec] at hrun
      split at hrun
      · next ba left hwriting =>
        split at hrun
        · cases hrun
        · next hleft =>
          cases hrun
          exact ⟨_, rfl, h.unlock hwriting hleft⟩
      · cases hrun
  | recvRequest heap =>
      simp only [State.exec] at hrun
      split at hrun
      · next hidle =>
        cases hrun
        exact ⟨_, rfl, h.recvRequest hidle heap⟩
      · cases hrun
  | recv k =>
      simp only [State.exec] at hrun
      split at hrun
      · next henabled => exact h.recvRound hsound henabled.1 henabled.2.1 hrun
      · cases hrun
  | decode => exact h.decode hsound hrun

theorem Good.step (hsound : ∀ f, ∀ m ∈ given f, m.Sendable) (h : Good given s) {l : Label F}
    (hstep : s.Step l t) : Progress given s t := by
  obtain ⟨_, ht, hprogress⟩ := h.exec hsound hstep
  cases ht
  exact hprogress

theorem good_of_reachable (hsound : ∀ f, ∀ m ∈ given f, m.Sendable)
    (hs : Transition.Reachable State.Step (· = start given) s) : Good given s := by
  refine hs.invariant (fun _ => good_of_start) ?_
  intro s l t h hstep
  exact (h.step hsound hstep).1

end Runs

section Quiescent

/-- Where no fiber can go on, all of them have sent what they had to send. -/
theorem Inv.all_sent (h : Inv given s got rest part unsent) (hquiet : s.Quiescent) :
    (∀ f, s.pending f = []) ∧ unsent = [] := by
  have hnone : s.mutex = none := by
    cases hmutex : s.mutex with
    | none => rfl
    | some f =>
        obtain ⟨ba, left, hwriting⟩ := h.held f hmutex
        by_cases hleft : left > 0
        · have hsend := hquiet (.send f 1)
          simp only [State.exec, hwriting] at hsend
          rw [if_pos ⟨hleft, le_rfl, by decide⟩] at hsend
          cases hsend
        · have hunlock := hquiet (.unlock f)
          simp only [State.exec, hwriting] at hunlock
          rw [if_neg hleft] at hunlock
          cases hunlock
  refine ⟨fun f => ?_, h.free hnone⟩
  cases hsender : s.sender f with
  | idle =>
      cases htodo : s.todo f with
      | nil => rw [State.pending, hsender, htodo]
      | cons m tail =>
          have hencode := hquiet (.encode f fun _ _ => 0)
          simp only [State.exec, hsender, htodo] at hencode
          cases hencode
  | encoded ba =>
      have hlock := hquiet (.lock f)
      simp only [State.exec, hsender, hnone] at hlock
      cases hlock
  | writing ba left => cases hnone.symm.trans (h.writing f ba left hsender).1

/-- Where the peer cannot go on either, nothing is on its way. -/
theorem Inv.all_received (h : Inv given s got rest part unsent) (hquiet : s.Quiescent)
    (hunsent : unsent = []) : rest = [] := by
  have htook := h.receiver
  have hstream := congrArg List.length h.stream
  have hwaits : ∀ left, (left > 0 → (s.recvRound 1).isSome) → left > 0 → s.wire = [] := by
    intro left hround hleft
    by_contra hwire
    have hrecv := hquiet (.recv 1)
    simp only [State.exec] at hrecv
    rw [if_pos ⟨hwire, le_rfl, by decide⟩] at hrecv
    rw [hrecv] at hround
    cases hround hleft
  cases hreceiver : s.receiver with
  | idle =>
      have hcall := hquiet (.recvRequest fun _ _ => 0)
      simp only [State.exec, hreceiver] at hcall
      cases hcall
  | readingMeta heap ba left =>
      rw [hreceiver] at htook
      obtain ⟨-, hplace⟩ := htook
      have hleft : left > 0 := by
        by_contra hnot
        have hdecode := hquiet .decode
        simp only [State.exec, State.decode, hreceiver] at hdecode
        rw [if_neg hnot] at hdecode
        cases hdecode
      have hwire := hwaits left (fun h => by simp [State.recvRound, hreceiver, h]) hleft
      rw [hwire, hunsent] at hstream
      cases rest with
      | nil => rfl
      | cons x tail =>
          simp only [List.flatMap_cons, List.length_append, List.length_nil, Frame.length_bytes] at hstream
          omega
  | readingContent request buff offset left =>
      rw [hreceiver] at htook
      obtain ⟨m, tail, hrest, -, hpart, hbuff, hplace, hnonempty⟩ := htook
      have hleft : left > 0 := by
        by_contra hnot
        have hdecode := hquiet .decode
        simp only [State.exec, State.decode, hreceiver] at hdecode
        rw [if_neg hnot] at hdecode
        split at hdecode
        · cases hdecode
        · cases hdecode
      have hwire := hwaits left (fun h => by simp [State.recvRound, hreceiver, h]; split <;> rfl) hleft
      obtain ⟨x, tail', rfl, rfl, -⟩ := List.map_eq_cons_iff.mp hrest
      rw [hwire, hunsent, hpart] at hstream
      simp only [List.flatMap_cons, List.length_append, List.length_nil, List.length_take,
        Frame.length_bytes, Frame.length_header] at hstream
      omega

end Quiescent

/-- Whatever the fibers at one end send, and in whatever pieces it goes through, what `recvRequest`
returns at the other end is an interleaving of their messages; and no run goes on for ever. -/
theorem transports [Fintype F] (given : F → List Frame) (hsound : ∀ f, ∀ m ∈ given f, m.Sendable) :
    (∀ s, Transition.Reachable State.Step (· = start given) s → s.Transports given) ∧
      Transition.Ends (State.Step (F := F)) (· = start given) := by
  refine ⟨fun s hs => ?_, ?_⟩
  · have hgood := good_of_reachable hsound hs
    refine ⟨fun l fault hfault => ?_, ?_, fun hquiet => ?_⟩
    · obtain ⟨t, ht, -⟩ := hgood.exec hsound hfault
      cases ht
    · obtain ⟨got, rest, part, unsent, h⟩ := hgood
      refine ⟨got.map Prod.snd, ?_, got, rfl, fun f => ?_⟩
      · rw [h.results, List.map_map]
        rfl
      · rw [← h.lanes f, lane_append, List.append_assoc]
        exact List.prefix_append _ _
    · obtain ⟨got, rest, part, unsent, h⟩ := hgood
      obtain ⟨hpending, hunsent⟩ := h.all_sent hquiet
      have hrest := h.all_received hquiet hunsent
      refine ⟨got.map Prod.snd, ?_, got, rfl, fun f => ?_⟩
      · rw [h.results, List.map_map]
        rfl
      · rw [← h.lanes f, hrest, hpending f, List.append_nil, List.append_nil]
  · exact .of_measure (State.work given) (fun _ => good_of_start) fun _ _ _ h hstep => h.step hsound hstep

section Examples

/-- One fiber sends a heartbeat, another a response of two bytes. -/
def twoSenders : Bool → List Frame
  | false => [Protocol.heartBeat.frame]
  | true => [(Protocol.create .rpcMethodResponse [7, 8]).frame]

/-- The heartbeat gets the lock first. Both go through in pieces, which do not end where a header or a
message does. -/
def twoSendersRun : List (Label Bool) :=
  [.encode true fun _ _ => 1, .encode false fun _ _ => 2, .lock false, .send false 4,
    .recvRequest fun _ _ => 3, .recv 3, .send false 100, .unlock false, .lock true, .send true 5,
    .recv 100, .decode, .recvRequest fun _ _ => 4, .recv 2, .send true 100, .unlock true, .recv 100,
    .decode, .recv 1, .recv 1, .decode]

def State.next (s : State Bool) (l : Label Bool) : Option (State Bool) :=
  match s.exec l with
  | some (.ok t) => some t
  | _ => none

theorem State.step_of_next (s : State Bool) (l : Label Bool) (t : State Bool)
    (h : s.next l = some t) : s.Step l t := by
  rw [State.next] at h
  split at h
  · next _ hexec =>
    cases h
    exact hexec
  · cases h

theorem transports_twoSenders :
    ∃ s, Transition.Reachable State.Step (· = start twoSenders) s ∧
      s.results = [some Protocol.heartBeat.frame,
        some (Protocol.create .rpcMethodResponse [7, 8]).frame] ∧ s.Transports twoSenders := by
  have hsound : ∀ f, ∀ m ∈ twoSenders f, m.Sendable := by
    intro f m hm
    cases f with
    | false =>
        cases List.mem_singleton.mp hm
        exact Frame.sendable_frame (by decide)
    | true =>
        cases List.mem_singleton.mp hm
        exact Frame.sendable_frame (by decide)
  have hrun : (twoSendersRun.foldlM State.next (start twoSenders)).map State.results
      = some [some Protocol.heartBeat.frame,
        some (Protocol.create .rpcMethodResponse [7, 8]).frame] := by
    decide +kernel
  obtain ⟨s, hs, hresults⟩ := Option.map_eq_some_iff.mp hrun
  have hstart : Transition.Reachable State.Step (· = start twoSenders) (start twoSenders) := .start rfl
  have hreach := hstart.of_run State.step_of_next hs
  exact ⟨s, hreach, hresults, (transports twoSenders hsound).1 s hreach⟩

end Examples

end AsyncRPC.RpcSession
