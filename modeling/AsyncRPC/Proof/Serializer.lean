import AsyncRPC.Serializer
import AsyncRPC.Proof.ByteArrayCodec

/-!
# The Serializer reads back what it writes

Writing a value appends its encoding (`writes_write`), and where fixed-width scalars survive the host,
reading an encoding gives an equal value (`reads_read`). Both go by the structure of the type; the
container cases share one lemma about the write loop and one about the read loop.

On a big-endian host a fixed-width scalar comes back with its bytes swapped. A value with one element
in every container (`sample`) shows it for every type such a scalar occurs in.
-/

namespace AsyncRPC

open Emplace Radix
open AsyncRPC.ByteArray (Holds Writes Reads Advances varint stringBytes encodeZigzag32 encodeZigzag64)

namespace Scalar

variable {host : ByteOrder} {heap : Heap}

def encode (host : ByteOrder) : (s : Scalar) → s.Val → List UInt8
  | .bool, x => host.bytes 1 (BitVec.setWidth 8 (BitVec.ofBool x)).toNat
  | .float, x => host.bytes 4 (BitVec.toNat x)
  | .double, x => host.bytes 8 (BitVec.toNat x)
  | .int8, x => host.bytes 1 (BitVec.toNat x)
  | .uint8, x => host.bytes 1 (BitVec.toNat x)
  | .int16, x => host.bytes 2 (BitVec.toNat x)
  | .uint16, x => host.bytes 2 (BitVec.toNat x)
  | .int32, x => varint (encodeZigzag32 x).toNat
  | .uint32, x => varint (BitVec.toNat x)
  | .int64, x => varint (encodeZigzag64 x).toNat
  | .uint64, x => varint (BitVec.toNat x)
  | .string, x => stringBytes x

/-- The value a host reads from its own bytes of an `n`-byte word. -/
def wordReceived (host : ByteOrder) {w : Nat} (n : Nat) (x : BitVec w) : BitVec w :=
  BitVec.ofNat w (ofLE (host.bytes n x.toNat))

def received (host : ByteOrder) : (s : Scalar) → s.Val → s.Val
  | .float, x => wordReceived host 4 (w := 32) x
  | .double, x => wordReceived host 8 (w := 64) x
  | .int16, x => wordReceived host 2 (w := 16) x
  | .uint16, x => wordReceived host 2 (w := 16) x
  | _, x => x

theorem wordReceived_little {w n : Nat} (x : BitVec w) (hw : 2 ^ w = 256 ^ n) :
    wordReceived .little n x = x := by
  rw [wordReceived]
  exact ByteArray.ofNat_ofLE_bytes x hw

theorem received_eq {s : Scalar} (h : host = .little ∨ s.fixed = false) (x : s.Val) :
    s.received host x = x := by
  rcases h with rfl | hfixed
  · cases s with
    | float => exact wordReceived_little _ (by decide)
    | double => exact wordReceived_little _ (by decide)
    | int16 => exact wordReceived_little _ (by decide)
    | uint16 => exact wordReceived_little _ (by decide)
    | _ => rfl
  · cases s with
    | float => cases hfixed
    | double => cases hfixed
    | int16 => cases hfixed
    | uint16 => cases hfixed
    | _ => rfl

theorem writes_write {s : Scalar} {x : s.Val} (hvalid : (Ty.scalar s).Valid x) :
    Writes (s.write host heap x) (s.encode host x) := by
  cases s with
  | int32 => exact ByteArray.writes_writeUint32 _
  | uint32 => exact ByteArray.writes_writeUint32 _
  | int64 => exact ByteArray.writes_writeUint64 _
  | uint64 => exact ByteArray.writes_writeUint64 _
  | string => exact ByteArray.writes_writeStringVint hvalid
  | bool => exact ByteArray.writes_writeFixed 1 _
  | float => exact ByteArray.writes_writeFixed 4 _
  | double => exact ByteArray.writes_writeFixed 8 _
  | int8 => exact ByteArray.writes_writeFixed 1 _
  | uint8 => exact ByteArray.writes_writeFixed 1 _
  | int16 => exact ByteArray.writes_writeFixed 2 _
  | uint16 => exact ByteArray.writes_writeFixed 2 _

theorem reads_readFixed {w : Nat} (n : Nat) (x : BitVec w) :
    Reads (ByteArray.readFixed host n w) (host.bytes n x.toNat) (· = wordReceived host n x) := by
  have hread : Reads (ByteArray.readFixed host _ w) _ _ :=
    ByteArray.reads_readFixed (host.bytes n x.toNat) w
  rwa [ByteOrder.length_bytes] at hread

theorem reads_read {s : Scalar} {x : s.Val} (hvalid : (Ty.scalar s).Valid x) :
    Reads (s.read host) (s.encode host x) (· = s.received host x) := by
  cases s with
  | bool =>
      refine (ByteArray.reads_byte _).map (fun t _ => t != 0#8) ?_
      rintro _ - rfl
      cases x <;> rfl
  | int8 => exact ByteArray.reads_byte _
  | uint8 => exact ByteArray.reads_byte _
  | float => exact reads_readFixed 4 _
  | double => exact reads_readFixed 8 _
  | int16 => exact reads_readFixed 2 _
  | uint16 => exact reads_readFixed 2 _
  | int32 => exact ByteArray.reads_readInt32 _
  | uint32 => exact ByteArray.reads_readUint32 _
  | int64 => exact ByteArray.reads_readInt64 _
  | uint64 => exact ByteArray.reads_readUint64 _
  | string => exact ByteArray.reads_readStringVint hvalid

theorem advances_read (s : Scalar) : Advances 1 (s.read host) := by
  cases s with
  | bool => exact ByteArray.advances_readByte.bind fun t => ByteArray.advances_ok fun _ => t != 0#8
  | int8 => exact ByteArray.advances_readByte
  | uint8 => exact ByteArray.advances_readByte
  | float => exact (ByteArray.advances_readFixed 4 32).mono (by decide)
  | double => exact (ByteArray.advances_readFixed 8 64).mono (by decide)
  | int16 => exact (ByteArray.advances_readFixed 2 16).mono (by decide)
  | uint16 => exact (ByteArray.advances_readFixed 2 16).mono (by decide)
  | int32 =>
      exact ByteArray.advances_readUint32.bind fun v =>
        ByteArray.advances_ok fun _ => ByteArray.decodeZigzag32 v
  | uint32 => exact ByteArray.advances_readUint32
  | int64 =>
      exact ByteArray.advances_readUint64.bind fun v =>
        ByteArray.advances_ok fun _ => ByteArray.decodeZigzag64 v
  | uint64 => exact ByteArray.advances_readUint64
  | string => exact ByteArray.advances_readStringVint

/-- A value that differs from itself with its bytes in the other order. -/
def probe : (s : Scalar) → s.Val
  | .float => 1#32
  | .double => 1#64
  | .int16 => 1#16
  | .uint16 => 1#16
  | s => s.defaultVal

theorem probe_ne_received {s : Scalar} (h : s.fixed = true) : s.probe ≠ s.received .big s.probe := by
  cases s with
  | float => decide
  | double => decide
  | int16 => decide
  | uint16 => decide
  | _ => cases h

theorem valid_defaultVal (s : Scalar) : (Ty.scalar s).Valid s.defaultVal := by
  cases s with
  | string => exact Nat.two_pow_pos 63
  | _ => trivial

theorem valid_probe (s : Scalar) : (Ty.scalar s).Valid s.probe := by
  cases s with
  | string => exact Nat.two_pow_pos 63
  | _ => trivial

end Scalar

namespace Ty

variable {host : ByteOrder} {heap : Heap} {order : HashOrder}

def encode (host : ByteOrder) : (t : Ty) → t.Val → List UInt8
  | .scalar s => s.encode host
  | .pair first second => fun x => first.encode host x.1 ++ second.encode host x.2
  | .tupleOne t => t.encode host
  | .tupleSnoc init last => fun x => init.encode host x.1 ++ last.encode host x.2
  | .coll _ t => fun (v : List t.Val) => varint v.length ++ v.flatMap (t.encode host)
  | .assoc _ key val => fun (v : List (key.Val × val.Val)) =>
      varint v.length ++ v.flatMap fun x => key.encode host x.1 ++ val.encode host x.2

section Loops

variable {α β : Type} {enc : α → List UInt8}

/-- The write loop appends the encodings of the elements in order. -/
theorem writes_foldlM {put : ByteArray → α → Except Fault ByteArray} {v : List α}
    (hput : ∀ x ∈ v, Writes (fun ba => put ba x) (enc x)) :
    Writes (fun ba => v.foldlM put ba) (v.flatMap enc) := by
  induction v with
  | nil =>
      intro ba before h
      exact ⟨ba, rfl, by simpa using h⟩
  | cons x v ih =>
      have hrest := ih fun y hy => hput y (List.mem_cons_of_mem x hy)
      have hall := (hput x List.mem_cons_self).bind hrest
      simpa only [List.foldlM_cons, List.flatMap_cons] using hall

/-- The read loop: `I` relates the elements read so far to the container built. -/
theorem reads_repeatRead {body : β → ByteArray → Except Fault (β × ByteArray)}
    {I : List α → β → Prop} {all : List α}
    (hbody : ∀ {done x rest v}, all = done ++ x :: rest → I done v →
      Reads (body v) (enc x) (I (done ++ [x])))
    {todo done : List α} {v : β} (hall : all = done ++ todo) (hI : I done v) :
    Reads (repeatRead body todo.length v) (todo.flatMap enc) (I all) := by
  induction todo generalizing done v with
  | nil =>
      intro ba before after h
      rw [List.append_nil] at hall
      exact ⟨v, ba, rfl, hall ▸ hI, by simpa using h⟩
  | cons x todo ih =>
      have hrest : ∀ v', I (done ++ [x]) v' →
          Reads (repeatRead body todo.length v') (todo.flatMap enc) (I all) := by
        intro v' hI'
        exact ih (by rw [hall, List.append_cons]) hI'
      exact (hbody hall hI).bind hrest

/-- A container read into an empty one, where each round inserts an element equal up to `R` to the
one written. -/
theorem reads_container {d : Discipline} {lt eq : α → α → Bool} {R : α → α → Prop}
    {body : List α → ByteArray → Except Fault (List α × ByteArray)} {v : List α}
    (hsize : v.length < 2 ^ 64) (hkept : d.Kept lt eq v)
    (hcompat : d ≠ .append → ∀ a a' b b', R a a' → R b b' → lt a b = lt a' b' ∧ eq a b = eq a' b')
    (hbody : ∀ x ∈ v, ∀ w, Reads (body w) (enc x)
      fun w' => ∃ z n, R x z ∧ w' = d.emplace order lt eq n z w) :
    Reads (fun ba => do
      let (size, ba) ← ba.readUint64 host
      repeatRead body size.toNat [] ba) (varint v.length ++ v.flatMap enc)
      (fun w => d.Same R v w) := by
  have hround : ∀ {done x rest w}, v = done ++ x :: rest → d.Same R done w →
      Reads (body w) (enc x) (fun w' => d.Same R (done ++ [x]) w') := by
    intro done x rest w hv hsame ba before after h
    have hmem : x ∈ v := hv ▸ List.mem_append_right done List.mem_cons_self
    have hdone : d.Kept lt eq (done ++ [x]) := by
      rw [hv, List.append_cons] at hkept
      exact hkept.of_append
    obtain ⟨w', ba', hrun, ⟨z, n, hz, rfl⟩, h'⟩ := hbody x hmem w h
    exact ⟨_, ba', hrun, hsame.emplace hdone hcompat hz, h'⟩
  have hloop : ∀ size : BitVec 64, size.toNat = v.length →
      Reads (repeatRead body size.toNat []) (v.flatMap enc) (fun w => d.Same R v w) := by
    intro size hcount
    rw [hcount]
    exact reads_repeatRead (I := fun done w => d.Same R done w) hround (List.nil_append v).symm
      Discipline.same_nil
  exact (ByteArray.reads_size hsize).bind hloop

theorem reads_singleton {body : β → ByteArray → Except Fault (β × ByteArray)} {v : β}
    {bytes : List UInt8} {P : β → Prop} (hbody : Reads (body v) bytes P) :
    Reads (fun ba => do
      let (size, ba) ← ba.readUint64 host
      repeatRead body size.toNat v ba) (varint 1 ++ bytes) P := by
  have hloop : ∀ size : BitVec 64, size.toNat = 1 → Reads (repeatRead body size.toNat v) bytes P := by
    intro size hcount
    rw [hcount]
    exact hbody.map (fun w _ => w) fun _ _ hw => hw
  exact (ByteArray.reads_size (by decide)).bind hloop

end Loops

/-- The body of the loop that reads single elements. -/
def readElem (host : ByteOrder) (order : HashOrder) (kind : CollKind) (t : Ty) (v : List t.Val)
    (ba : ByteArray) : Except Fault (List t.Val × ByteArray) := do
  let (x, ba) ← t.read host order t.defaultVal ba
  .ok (kind.discipline.emplace order t.lt t.keyEq ba.position x v, ba)

/-- The body of the loop that reads keys with values. -/
def readEntry (host : ByteOrder) (order : HashOrder) (kind : AssocKind) (key val : Ty)
    (v : List (key.Val × val.Val)) (ba : ByteArray) :
    Except Fault (List (key.Val × val.Val) × ByteArray) := do
  let (a, ba) ← key.read host order key.defaultVal ba
  let (b, ba) ← val.read host order val.defaultVal ba
  .ok (kind.discipline.emplace order (fun x y => key.lt x.1 y.1) (fun x y => key.keyEq x.1 y.1)
    ba.position (a, b) v, ba)

theorem writes_write {t : Ty} {x : t.Val} (hvalid : t.Valid x) :
    Writes (t.write host heap x) (t.encode host x) := by
  induction t with
  | scalar s => exact Scalar.writes_write hvalid
  | pair first second ihFirst ihSecond => exact (ihFirst hvalid.1).bind (ihSecond hvalid.2)
  | tupleOne t ih => exact ih hvalid
  | tupleSnoc init last ihInit ihLast => exact (ihInit hvalid.1).bind (ihLast hvalid.2)
  | coll kind t ih =>
      obtain ⟨hsize, helems, -⟩ := hvalid
      exact (ByteArray.writes_size hsize).bind (writes_foldlM fun y hy => ih (helems y hy))
  | assoc kind key val ihKey ihVal =>
      obtain ⟨hsize, helems, -⟩ := hvalid
      exact (ByteArray.writes_size hsize).bind
        (writes_foldlM fun y hy => (ihKey (helems y hy).1).bind (ihVal (helems y hy).2))

/-- On the types that have an order, equality is equality. -/
theorem Eqv.eq_of_ordered {t : Ty} (hordered : t.ordered = true) {x y : t.Val} (h : t.Eqv x y) :
    x = y := by
  induction t with
  | scalar s => exact h
  | pair first second ihFirst ihSecond =>
      rw [ordered, Bool.and_eq_true] at hordered
      exact Prod.ext (ihFirst hordered.1 h.1) (ihSecond hordered.2 h.2)
  | tupleOne t ih => exact ih hordered h
  | tupleSnoc init last ihInit ihLast =>
      rw [ordered, Bool.and_eq_true] at hordered
      exact Prod.ext (ihInit hordered.1 h.1) (ihLast hordered.2 h.2)
  | coll kind t ih =>
      rw [ordered, Bool.and_eq_true, Bool.not_eq_true'] at hordered
      have hall := Discipline.Same.forall₂ hordered.1 h
      exact List.forall₂_eq_eq_eq ▸ hall.imp fun a b hab => ih hordered.2 hab
  | assoc kind key val ihKey ihVal =>
      rw [ordered, Bool.and_eq_true, Bool.and_eq_true, Bool.not_eq_true'] at hordered
      have hall := Discipline.Same.forall₂ hordered.1.1 h
      exact List.forall₂_eq_eq_eq ▸ hall.imp fun a b hab =>
        Prod.ext (ihKey hordered.1.2 hab.1) (ihVal hordered.2 hab.2)

theorem Eqv.eq_of_hashable {t : Ty} {x y : t.Val} (h : t.Eqv x y) (hhash : t.hashable = true) :
    x = y := by
  cases t with
  | scalar s => exact h
  | _ => cases hhash

/-- A key is compared by a container that takes keys of its type only if equal keys are the same. -/
theorem Eqv.eq_of_canKey {d : Discipline} {t : Ty} (hkey : canKey d t = true) (hd : d ≠ .append)
    {x y : t.Val} (h : t.Eqv x y) : x = y := by
  rw [canKey, Bool.and_eq_true, Bool.or_eq_true, Bool.or_eq_true] at hkey
  cases d with
  | append => exact absurd rfl hd
  | unique => exact h.eq_of_ordered (hkey.1.resolve_left (by decide))
  | multi => exact h.eq_of_ordered (hkey.1.resolve_left (by decide))
  | hashedUnique => exact h.eq_of_hashable (hkey.2.resolve_left (by decide))
  | hashedMulti => exact h.eq_of_hashable (hkey.2.resolve_left (by decide))

theorem fresh_defaultVal (t : Ty) : t.Fresh t.defaultVal := by
  induction t with
  | scalar s => trivial
  | pair first second ihFirst ihSecond => exact ⟨ihFirst, ihSecond⟩
  | tupleOne t ih => exact ih
  | tupleSnoc init last ihInit ihLast => exact ⟨ihInit, ihLast⟩
  | coll kind t => rfl
  | assoc kind key val => rfl

theorem reads_read {t : Ty} (hsupported : t.supported = true)
    (hhost : host = .little ∨ t.fixed = false) {x prior : t.Val} (hvalid : t.Valid x)
    (hfresh : t.Fresh prior) :
    Reads (t.read host order prior) (t.encode host x) (t.Eqv x) := by
  induction t with
  | scalar s =>
      intro ba before after h
      obtain ⟨_, ba', hrun, rfl, h'⟩ := Scalar.reads_read hvalid h
      exact ⟨_, ba', hrun, (Scalar.received_eq hhost x).symm, h'⟩
  | pair first second ihFirst ihSecond =>
      rw [supported, Bool.and_eq_true] at hsupported
      rw [fixed, Bool.or_eq_false_iff] at hhost
      exact (ihFirst hsupported.1 (hhost.imp_right And.left) hvalid.1 hfresh.1).map₂
        (ihSecond hsupported.2 (hhost.imp_right And.right) hvalid.2 hfresh.2)
        (fun a b _ => (a, b)) fun _ _ _ ha hb => ⟨ha, hb⟩
  | tupleOne t ih => exact ih hsupported hhost hvalid hfresh
  | tupleSnoc init last ihInit ihLast =>
      rw [supported, Bool.and_eq_true, Bool.and_eq_true] at hsupported
      rw [fixed, Bool.or_eq_false_iff] at hhost
      exact (ihInit hsupported.1.2 (hhost.imp_right And.left) hvalid.1 hfresh.1).map₂
        (ihLast hsupported.2 (hhost.imp_right And.right) hvalid.2 hfresh.2)
        (fun a b _ => (a, b)) fun _ _ _ ha hb => ⟨ha, hb⟩
  | coll kind t ih =>
      rw [supported, Bool.and_eq_true, Bool.and_eq_true] at hsupported
      obtain ⟨hsize, helems, hkept⟩ := hvalid
      have hcompat : kind.discipline ≠ .append → ∀ a a' b b', t.Eqv a a' → t.Eqv b b' →
          t.lt a b = t.lt a' b' ∧ t.keyEq a b = t.keyEq a' b' := by
        intro hd a a' b b' ha hb
        rw [ha.eq_of_canKey hsupported.1.2 hd, hb.eq_of_canKey hsupported.1.2 hd]
        exact ⟨rfl, rfl⟩
      have hbody : ∀ y ∈ (id x : List t.Val), ∀ v : List t.Val,
          Reads (readElem host order kind t v) (t.encode host y)
            fun v' => ∃ z n, t.Eqv y z ∧ v' = kind.discipline.emplace order t.lt t.keyEq n z v := by
        intro y hy v
        exact (ih hsupported.1.1 hhost (helems y hy) t.fresh_defaultVal).map
          (fun z ba => kind.discipline.emplace order t.lt t.keyEq ba.position z v)
          fun z ba hz => ⟨z, ba.position, hz, rfl⟩
      have hprior : prior = ([] : List t.Val) := hfresh
      rw [hprior]
      exact reads_container hsize hkept hcompat hbody
  | assoc kind key val ihKey ihVal =>
      rw [supported, Bool.and_eq_true, Bool.and_eq_true] at hsupported
      rw [fixed, Bool.or_eq_false_iff] at hhost
      obtain ⟨hsize, helems, hkept⟩ := hvalid
      have hcompat : kind.discipline ≠ .append → ∀ a a' b b' : key.Val × val.Val,
          key.Eqv a.1 a'.1 ∧ val.Eqv a.2 a'.2 → key.Eqv b.1 b'.1 ∧ val.Eqv b.2 b'.2 →
          key.lt a.1 b.1 = key.lt a'.1 b'.1 ∧ key.keyEq a.1 b.1 = key.keyEq a'.1 b'.1 := by
        intro hd a a' b b' ha hb
        rw [ha.1.eq_of_canKey hsupported.2 hd, hb.1.eq_of_canKey hsupported.2 hd]
        exact ⟨rfl, rfl⟩
      have hbody : ∀ y ∈ (id x : List (key.Val × val.Val)), ∀ v : List (key.Val × val.Val),
          Reads (readEntry host order kind key val v)
            (key.encode host y.1 ++ val.encode host y.2)
            fun v' => ∃ z n, (key.Eqv y.1 z.1 ∧ val.Eqv y.2 z.2) ∧
              v' = kind.discipline.emplace order (fun x y => key.lt x.1 y.1)
                (fun x y => key.keyEq x.1 y.1) n z v := by
        intro y hy v
        have hkeyRead :=
          ihKey hsupported.1.1 (hhost.imp_right And.left) (helems y hy).1 key.fresh_defaultVal
        have hvalRead :=
          ihVal hsupported.1.2 (hhost.imp_right And.right) (helems y hy).2 val.fresh_defaultVal
        refine hkeyRead.map₂ hvalRead
          (fun a b ba => kind.discipline.emplace order (fun x y => key.lt x.1 y.1)
            (fun x y => key.keyEq x.1 y.1) ba.position (a, b) v) ?_
        intro a b ba ha hb
        exact ⟨(a, b), ba.position, ⟨ha, hb⟩, rfl⟩
      have hprior : prior = ([] : List (key.Val × val.Val)) := hfresh
      rw [hprior]
      exact reads_container hsize hkept hcompat hbody

theorem advances_repeatRead {α : Type} {body : α → ByteArray → Except Fault (α × ByteArray)}
    (hbody : ∀ v, Advances 0 (body v)) (size : Nat) (v : α) : Advances 0 (repeatRead body size v) := by
  induction size generalizing v with
  | zero => exact ByteArray.advances_ok fun _ => v
  | succ size ih => exact (hbody v).bind ih

theorem advances_readElem (kind : CollKind) {t : Ty} {n : Nat}
    (ht : Advances n (t.read host order t.defaultVal)) (v : List t.Val) :
    Advances 0 (readElem host order kind t v) :=
  (ht.map fun x ba => kind.discipline.emplace order t.lt t.keyEq ba.position x v).mono (Nat.zero_le n)

theorem advances_readEntry (kind : AssocKind) {key val : Ty} {m n : Nat}
    (hkey : Advances m (key.read host order key.defaultVal))
    (hval : Advances n (val.read host order val.defaultVal)) (v : List (key.Val × val.Val)) :
    Advances 0 (readEntry host order kind key val v) := by
  have hpair := hkey.map₂ hval fun a b ba =>
    kind.discipline.emplace order (fun x y : key.Val × val.Val => key.lt x.1 y.1)
      (fun x y => key.keyEq x.1 y.1) ba.position (a, b) v
  exact hpair.mono (Nat.zero_le _)

/-- Reading moves the cursor, whatever there is to read. -/
theorem advances_read (t : Ty) (prior : t.Val) : Advances 1 (t.read host order prior) := by
  induction t with
  | scalar s => exact s.advances_read
  | pair first second ihFirst ihSecond =>
      exact ((ihFirst prior.1).map₂ (ihSecond prior.2) fun a b _ => (a, b)).mono (by decide)
  | tupleOne t ih => exact ih prior
  | tupleSnoc init last ihInit ihLast =>
      exact ((ihInit prior.1).map₂ (ihLast prior.2) fun a b _ => (a, b)).mono (by decide)
  | coll kind t ih =>
      have hbody := advances_readElem kind (ih t.defaultVal)
      have hloop := fun (size : BitVec 64) => advances_repeatRead hbody size.toNat prior
      exact ByteArray.advances_readUint64.bind hloop
  | assoc kind key val ihKey ihVal =>
      have hbody := advances_readEntry kind (ihKey key.defaultVal) (ihVal val.defaultVal)
      have hloop := fun (size : BitVec 64) => advances_repeatRead hbody size.toNat prior
      exact ByteArray.advances_readUint64.bind hloop

theorem reads_empty {β : Type} (body : β → ByteArray → Except Fault (β × ByteArray)) (v : β) :
    Reads (fun ba => do
      let (size, ba) ← ba.readUint64 host
      repeatRead body size.toNat v ba) (varint 0 ++ []) (· = v) := by
  have hloop : ∀ size : BitVec 64, size.toNat = 0 → Reads (repeatRead body size.toNat v) [] (· = v) := by
    intro size hcount ba before after h
    rw [hcount]
    exact ⟨v, ba, rfl, rfl, by simpa using h⟩
  exact (ByteArray.reads_size (by decide)).bind hloop

/-- Zeros and empty containers can be read into any object; what was in its containers stays. -/
theorem reads_defaultVal (t : Ty) (prior : t.Val) :
    Reads (t.read host order prior) (t.encode host t.defaultVal)
      fun y => t.Eqv t.defaultVal y → t.Fresh prior := by
  induction t with
  | scalar s =>
      intro ba before after h
      obtain ⟨y, ba', hrun, -, h'⟩ := Scalar.reads_read s.valid_defaultVal h
      exact ⟨y, ba', hrun, fun _ => trivial, h'⟩
  | pair first second ihFirst ihSecond =>
      exact (ihFirst prior.1).map₂ (ihSecond prior.2) (fun a b _ => (a, b))
        fun _ _ _ ha hb heqv => ⟨ha heqv.1, hb heqv.2⟩
  | tupleOne t ih => exact ih prior
  | tupleSnoc init last ihInit ihLast =>
      exact (ihInit prior.1).map₂ (ihLast prior.2) (fun a b _ => (a, b))
        fun _ _ _ ha hb heqv => ⟨ha heqv.1, hb heqv.2⟩
  | coll kind t =>
      intro ba before after h
      obtain ⟨_, ba', hrun, rfl, h'⟩ := reads_empty _ _ h
      exact ⟨_, ba', hrun, fun heqv => Discipline.Same.eq_nil heqv, h'⟩
  | assoc kind key val =>
      intro ba before after h
      obtain ⟨_, ba', hrun, rfl, h'⟩ := reads_empty _ _ h
      exact ⟨_, ba', hrun, fun heqv => Discipline.Same.eq_nil heqv, h'⟩

theorem valid_defaultVal (t : Ty) : t.Valid t.defaultVal := by
  induction t with
  | scalar s => exact s.valid_defaultVal
  | pair first second ihFirst ihSecond => exact ⟨ihFirst, ihSecond⟩
  | tupleOne t ih => exact ih
  | tupleSnoc init last ihInit ihLast => exact ⟨ihInit, ihLast⟩
  | coll kind t => exact ⟨Nat.two_pow_pos 64, fun _ hx => absurd hx List.not_mem_nil, Discipline.kept_nil⟩
  | assoc kind key val =>
      exact ⟨Nat.two_pow_pos 64, fun _ hx => absurd hx List.not_mem_nil, Discipline.kept_nil⟩

section BigEndian

/-- The value with the given scalars and one element in every container. -/
def sample (f : (s : Scalar) → s.Val) : (t : Ty) → t.Val
  | .scalar s => f s
  | .pair first second => (first.sample f, second.sample f)
  | .tupleOne t => t.sample f
  | .tupleSnoc init last => (init.sample f, last.sample f)
  | .coll _ t => [t.sample f]
  | .assoc _ key val => [(key.sample f, val.sample f)]

variable {f g : (s : Scalar) → s.Val}

theorem valid_sample (hf : ∀ s, (scalar s).Valid (f s)) (t : Ty) : t.Valid (t.sample f) := by
  induction t with
  | scalar s => exact hf s
  | pair first second ihFirst ihSecond => exact ⟨ihFirst, ihSecond⟩
  | tupleOne t ih => exact ih
  | tupleSnoc init last ihInit ihLast => exact ⟨ihInit, ihLast⟩
  | coll kind t ih =>
      refine ⟨Nat.one_lt_two_pow (by decide), ?_, Discipline.kept_singleton⟩
      exact List.forall_mem_singleton.mpr ih
  | assoc kind key val ihKey ihVal =>
      refine ⟨Nat.one_lt_two_pow (by decide), ?_, Discipline.kept_singleton⟩
      exact List.forall_mem_singleton.mpr ⟨ihKey, ihVal⟩

/-- Such a value comes back with every scalar as the host receives it. -/
theorem reads_sample (host : ByteOrder) (order : HashOrder) (hf : ∀ s, (scalar s).Valid (f s)) {t : Ty}
    {prior : t.Val} (hfresh : t.Fresh prior) :
    Reads (t.read host order prior) (t.encode host (t.sample f))
      (· = t.sample fun s => s.received host (f s)) := by
  induction t with
  | scalar s => exact Scalar.reads_read (hf s)
  | pair first second ihFirst ihSecond =>
      exact (ihFirst hfresh.1).map₂ (ihSecond hfresh.2) (fun a b _ => (a, b))
        fun _ _ _ ha hb => Prod.ext ha hb
  | tupleOne t ih => exact ih hfresh
  | tupleSnoc init last ihInit ihLast =>
      exact (ihInit hfresh.1).map₂ (ihLast hfresh.2) (fun a b _ => (a, b))
        fun _ _ _ ha hb => Prod.ext ha hb
  | coll kind t ih =>
      have hbody : Reads (readElem host order kind t [])
          (t.encode host (t.sample f)) (· = [t.sample fun s => s.received host (f s)]) := by
        refine (ih t.fresh_defaultVal).map
          (fun x ba => kind.discipline.emplace order t.lt t.keyEq ba.position x []) ?_
        rintro x ba rfl
        exact Discipline.emplace_nil
      have hprior : prior = ([] : List t.Val) := hfresh
      rw [← List.append_nil (t.encode host (t.sample f))] at hbody
      rw [hprior]
      exact reads_singleton hbody
  | assoc kind key val ihKey ihVal =>
      have hbody : Reads (readEntry host order kind key val [])
          (key.encode host (key.sample f) ++ val.encode host (val.sample f))
          (· = [(key.sample fun s => s.received host (f s), val.sample fun s => s.received host (f s))])
          := by
        refine (ihKey key.fresh_defaultVal).map₂ (ihVal val.fresh_defaultVal)
          (fun a b ba => kind.discipline.emplace order (fun x y => key.lt x.1 y.1)
            (fun x y => key.keyEq x.1 y.1) ba.position (a, b) []) ?_
        rintro a b ba rfl rfl
        exact Discipline.emplace_nil
      have hprior : prior = ([] : List (key.Val × val.Val)) := hfresh
      rw [← List.append_nil (key.encode host _ ++ _)] at hbody
      rw [hprior]
      exact reads_singleton hbody

theorem Eqv.eq_of_sample {t : Ty} (h : t.Eqv (t.sample f) (t.sample g)) (hfixed : t.fixed = true) :
    ∃ s : Scalar, s.fixed = true ∧ f s = g s := by
  induction t with
  | scalar s => exact ⟨s, hfixed, h⟩
  | pair first second ihFirst ihSecond =>
      rw [fixed, Bool.or_eq_true] at hfixed
      exact hfixed.elim (ihFirst h.1) (ihSecond h.2)
  | tupleOne t ih => exact ih h hfixed
  | tupleSnoc init last ihInit ihLast =>
      rw [fixed, Bool.or_eq_true] at hfixed
      exact hfixed.elim (ihInit h.1) (ihLast h.2)
  | coll kind t ih => exact ih (Discipline.Same.singleton h) hfixed
  | assoc kind key val ihKey ihVal =>
      rw [fixed, Bool.or_eq_true] at hfixed
      have hpair := Discipline.Same.singleton h
      exact hfixed.elim (ihKey hpair.1) (ihVal hpair.2)

end BigEndian

theorem stored_spec (host : ByteOrder) (heap : Heap) {t : Ty} {base : Nat} (hbase : 0 < base)
    {x : t.Val} (hvalid : t.Valid x) (rest : List UInt8) :
    ∃ ba, t.stored host heap base x rest = .ok ba ∧ Holds ba [] (t.encode host x ++ rest) := by
  obtain ⟨ba₁, hvalue, h₁⟩ := writes_write hvalid (ByteArray.holds_create heap hbase)
  obtain ⟨ba₂, hrest, h₂⟩ := h₁.write heap rest
  obtain ⟨ba₃, hreset, h₃⟩ := h₂.setPosition_zero
  refine ⟨ba₃, ?_, by simpa using h₃⟩
  rw [stored, hvalue]
  change (ba₁.write heap rest >>= fun ba => ba.setPosition 0) = _
  rw [hrest]
  exact hreset

/-- On a big-endian host some value of every type with a fixed-width scalar comes back changed. -/
theorem not_roundTrips_sample (heap : Heap) (order : HashOrder) {t : Ty} (hfixed : t.fixed = true)
    {base : Nat} (hbase : 0 < base) (rest : List UInt8) :
    ¬ t.RoundTrips .big heap order base (t.sample Scalar.probe) rest := by
  rintro ⟨ba, y, ba', hstored, hread, heqv, -⟩
  obtain ⟨_, hstored', h⟩ := stored_spec .big heap hbase (valid_sample Scalar.valid_probe t) rest
  obtain rfl := Except.ok.inj (hstored.symm.trans hstored')
  obtain ⟨_, _, hread', rfl, -⟩ := reads_sample .big order Scalar.valid_probe t.fresh_defaultVal h
  obtain rfl := (Prod.mk.inj (Except.ok.inj (hread.symm.trans hread'))).1
  obtain ⟨s, hs, heq⟩ := heqv.eq_of_sample hfixed
  exact Scalar.probe_ne_received hs heq

/-- Every value of a supported type comes back, followed by what was written after it, just where the
host is little-endian or nothing in the type has a fixed width of more than one byte. -/
theorem roundTrips_iff (host : ByteOrder) (heap : Heap) (order : HashOrder) (t : Ty)
    (hsupported : t.supported = true) :
    (∀ base x rest, 0 < base → t.Valid x → t.RoundTrips host heap order base x rest) ↔
      host = .little ∨ t.fixed = false := by
  constructor
  · intro hall
    by_contra hnot
    rw [not_or, Bool.not_eq_false] at hnot
    cases host with
    | little => exact hnot.1 rfl
    | big =>
        exact not_roundTrips_sample heap order hnot.2 Nat.one_pos []
          (hall 1 _ [] Nat.one_pos (valid_sample Scalar.valid_probe t))
  · intro hhost base x rest hbase hvalid
    obtain ⟨ba, hstored, h⟩ := stored_spec host heap hbase hvalid rest
    obtain ⟨y, ba', hread, heqv, h'⟩ := reads_read hsupported hhost hvalid t.fresh_defaultVal h
    exact ⟨ba, y, ba', hstored, hread, heqv, h'.unread⟩

/-- A map from strings to pairs of numbers, with one entry, read back on a little-endian host. -/
theorem roundTrips_iff_map :
    (Ty.assoc .map (.scalar .string) (.pair (.scalar .int16) (.scalar .uint64))).RoundTrips .little
      (fun _ _ => 0) .newestFirst 4096 [([97], (5#16, 300#64))] [7] := by
  refine (roundTrips_iff .little _ _ _ (by decide)).mpr (Or.inl rfl) 4096 _ [7] (by decide) ?_
  refine ⟨by decide, ?_, Discipline.kept_singleton⟩
  refine List.forall_mem_singleton.mpr ⟨?_, trivial, trivial⟩
  change 1 < 2 ^ 63
  decide

/-- The `int16_t` 1 on a big-endian host: stored as 00 01 and read as 256. -/
theorem not_roundTrips_big_endian :
    ¬ (Ty.scalar .int16).RoundTrips .big (fun _ _ => 0) .newestFirst 4096 (1#16) [] :=
  not_roundTrips_sample _ _ rfl (by decide) []

end Ty

namespace Serializer

variable {heap : Heap}

theorem holds_create (heap : Heap) : Holds (create heap) [] [] :=
  ByteArray.holds_create heap (Nat.succ_pos 4095)

theorem ofContent_spec (heap : Heap) (content : List UInt8) :
    ∃ ba, ofContent heap content = .ok ba ∧ Holds ba [] content := by
  obtain ⟨ba₁, hwrite, h₁⟩ := (holds_create heap).write heap content
  obtain ⟨ba₂, hreset, h₂⟩ := h₁.setPosition_zero
  refine ⟨ba₂, ?_, by simpa using h₂⟩
  rw [ofContent, hwrite]
  exact hreset

/-- A content is read out of a node of 4096 bytes at least. -/
theorem ofContent_spare {content : List UInt8} {ba : ByteArray} (hba : ofContent heap content = .ok ba)
    {n : Nat} (hn : n ≤ 4096) : ByteArray.Spare ba n := by
  obtain ⟨ba₁, hwrite, h₁, hflat₁⟩ := (holds_create heap).inv.write_spec heap content
  obtain ⟨ba₂, hreset, h₂, hflat₂⟩ := h₁.setPosition_spec (Nat.zero_le ba₁.capacity)
  have hrun : ofContent heap content = .ok ba₂ := by
    rw [ofContent, hwrite]
    exact hreset
  have heq : ba₂ = ba := Except.ok.inj (hrun.symm.trans hba)
  subst heq
  have hbase : ba₂.baseSize = 4096 := by
    have hbase₁ : ba₁.baseSize = 4096 := congrArg FlatBuffer.baseSize hflat₁
    have hbase₂ : ba₂.baseSize = ba₁.baseSize := congrArg FlatBuffer.baseSize hflat₂
    exact hbase₂.trans hbase₁
  have hposition : ba₂.position = 0 := congrArg FlatBuffer.position hflat₂
  have hnodes : 0 < ba₂.nodes.length := List.length_pos_iff.mpr h₂.head
  apply h₂.spare
  rw [h₂.capacity_eq, hbase, hposition]
  omega

theorem contentOf_spec {put : ByteArray → Except Fault ByteArray} {bytes : List UInt8}
    (hput : Writes put bytes) (hlength : bytes.length < 2 ^ 63) : contentOf heap put = .ok bytes := by
  obtain ⟨ba₁, hwrite, h₁⟩ := hput (holds_create heap)
  obtain ⟨ba₂, hreset, h₂⟩ := h₁.setPosition_zero
  rw [List.nil_append, List.append_nil] at h₂
  rw [contentOf, hwrite]
  change (ba₁.setPosition 0 >>= fun ba => ba.toString) = _
  rw [hreset]
  exact h₂.toString hlength

theorem contentOf_inv {put : ByteArray → Except Fault ByteArray} {bytes content : List UInt8}
    (hput : Writes put bytes) (hrun : contentOf heap put = .ok content) : content = bytes := by
  obtain ⟨ba₁, hwrite, h₁⟩ := hput (holds_create heap)
  obtain ⟨ba₂, hreset, h₂⟩ := h₁.setPosition_zero
  rw [List.nil_append, List.append_nil] at h₂
  rw [contentOf, hwrite] at hrun
  change (ba₁.setPosition 0 >>= fun ba => ba.toString) = _ at hrun
  rw [hreset] at hrun
  exact h₂.toString_inv hrun

end Serializer

end AsyncRPC
