import AsyncRPC.FdManager
import AsyncRPC.Lib.Outcome
import Mathlib.Tactic.Common

/-!
# The descriptor table

A descriptor that is not negative and lies below the table's 64 places is found by its own index; a
negative one is converted to an index far beyond them, and so is one from 64 on taken as it is.
-/

namespace AsyncRPC.FdManager

open Outcome

theorem nonneg_iff (fd : Int32) : 0 ≤ fd ↔ 0 ≤ fd.toInt := Int32.le_iff_toInt_le

theorem neg_iff (fd : Int32) : fd < 0 ↔ fd.toInt < 0 := Int32.lt_iff_toInt_lt

namespace Manager

variable {host : Host}

theorem index_of_nonneg {fd : Int32} (h : 0 ≤ fd) : (index fd : Int) = fd.toInt := by
  have hpos := (nonneg_iff fd).mp h
  have hlt := fd.toInt_lt
  unfold index
  omega

theorem index_of_neg {fd : Int32} (h : fd < 0) : 64 ≤ index fd := by
  have hneg := (neg_iff fd).mp h
  have hle := fd.le_toInt
  unfold index
  omega

theorem index_injective : Function.Injective index := by
  intro fd fd' h
  apply Int32.toInt_inj.mp
  have hlt := fd.toInt_lt
  have hle := fd.le_toInt
  have hlt' := fd'.toInt_lt
  have hle' := fd'.le_toInt
  unfold index at h
  omega

/-- The table has its first size, and refers only to contexts that were made. -/
structure Inv (m : Manager) : Prop where
  length : m.fdContextList.length = 64
  made : ∀ (i : Nat) (ref : Ref), m.fdContextList[i]? = some (some ref) → ref < m.made

theorem inv_init : Inv init := by
  refine ⟨by simp [init], ?_⟩
  intro i ref h
  have hmem : some ref ∈ List.replicate 64 (none : Option Ref) := List.mem_of_getElem? h
  cases List.eq_of_mem_replicate hmem

/-- The entry the table has for a descriptor. -/
def entry (m : Manager) (fd : Int32) : Option Ref := m.fdContextList[index fd]?.join

theorem Inv.beyond_iff {m : Manager} (hm : Inv m) (fd : Int32) : m.beyond fd ↔ 64 ≤ fd := by
  unfold beyond
  rw [hm.length]
  rfl

theorem Inv.index_lt_iff {m : Manager} (hm : Inv m) (fd : Int32) :
    index fd < m.fdContextList.length ↔ 0 ≤ fd ∧ fd < 64 := by
  have hto : (64 : Int32).toInt = 64 := rfl
  rw [hm.length, nonneg_iff, Int32.lt_iff_toInt_lt, hto]
  rcases Int32.lt_or_le fd 0 with hneg | hpos
  · have hfar := index_of_neg hneg
    have hlt := (neg_iff fd).mp hneg
    omega
  · have hindex := index_of_nonneg hpos
    have hge := (nonneg_iff fd).mp hpos
    omega

theorem Inv.entry_of_beyond {m : Manager} (hm : Inv m) {fd : Int32} (h : 64 ≤ fd) :
    m.entry fd = none := by
  have hout : ¬ index fd < m.fdContextList.length := by
    intro hlt
    have hfd := ((hm.index_lt_iff fd).mp hlt).2
    exact absurd h (Int32.not_le.mpr hfd)
  unfold entry
  rw [List.getElem?_eq_none (by omega)]
  rfl

theorem Inv.entry_lt {m : Manager} (hm : Inv m) {fd : Int32} {ref : Ref}
    (h : m.entry fd = some ref) : ref < m.made :=
  hm.made (index fd) ref (Option.join_eq_some_iff.mp h)

theorem Inv.at?_eq {m : Manager} (hm : Inv m) {fd : Int32} (hfd : 0 ≤ fd ∧ fd < 64) :
    m.at? fd = .ok (m.entry fd) := by
  have hlt := (hm.index_lt_iff fd).mpr hfd
  unfold at? entry
  rw [List.getElem?_eq_getElem hlt]
  rfl

theorem Inv.at?_error {m : Manager} (hm : Inv m) {fd : Int32} (hfd : ¬ (0 ≤ fd ∧ fd < 64)) :
    m.at? fd = .error .outOfBounds := by
  have hout := mt (hm.index_lt_iff fd).mp hfd
  unfold at?
  rw [List.getElem?_eq_none (by omega)]

/-- The table with another entry for a descriptor. -/
def put (m : Manager) (fd : Int32) (entry : Option Ref) : Manager :=
  { m with fdContextList := m.fdContextList.set (index fd) entry }

theorem Inv.store_eq {m : Manager} (hm : Inv m) {fd : Int32} (hfd : 0 ≤ fd ∧ fd < 64)
    (entry : Option Ref) : m.store fd entry = .ok (m.put fd entry) :=
  if_pos ((hm.index_lt_iff fd).mpr hfd)

theorem Inv.store_error {m : Manager} (hm : Inv m) {fd : Int32} (hfd : ¬ (0 ≤ fd ∧ fd < 64))
    (entry : Option Ref) : m.store fd entry = .error .outOfBounds :=
  if_neg (mt (hm.index_lt_iff fd).mp hfd)

theorem Inv.entry_put {m : Manager} (hm : Inv m) {fd : Int32} (hfd : 0 ≤ fd ∧ fd < 64)
    (entry : Option Ref) : (m.put fd entry).entry fd = entry := by
  have hlt := (hm.index_lt_iff fd).mpr hfd
  unfold Manager.entry put
  simp [hlt]

theorem entry_put_of_ne {m : Manager} {fd fd' : Int32} (h : fd' ≠ fd) (entry : Option Ref) :
    (m.put fd entry).entry fd' = m.entry fd' := by
  have hindex : index fd ≠ index fd' := fun heq => h (index_injective heq).symm
  unfold Manager.entry put
  rw [List.getElem?_set_ne hindex]

theorem Inv.put {m : Manager} (hm : Inv m) (fd : Int32) {entry : Option Ref}
    (h : ∀ ref ∈ entry, ref < m.made) : Inv (m.put fd entry) := by
  refine ⟨by simp [Manager.put, hm.length], ?_⟩
  intro i ref hi
  unfold Manager.put at hi ⊢
  rw [List.getElem?_set] at hi
  split at hi
  · split at hi
    · exact h ref (Option.some.inj hi)
    · cases hi
  · exact hm.made i ref hi

/-- The table with a context more. -/
def addContext (m : Manager) (context : FdContext) : Manager :=
  { m with contexts := Function.update m.contexts m.made context, made := m.made + 1 }

theorem Inv.addContext {m : Manager} (hm : Inv m) (context : FdContext) :
    Inv (m.addContext context) := by
  refine ⟨hm.length, ?_⟩
  intro i ref hi
  exact Nat.lt_succ_of_lt (hm.made i ref hi)

theorem contextOf_eq (m : Manager) (fd : Int32) :
    m.contextOf fd = if fd < 0 then none else (m.entry fd).map fun ref => (ref, m.contexts ref) :=
  rfl

/-- The table after a new context took the place of a descriptor. -/
def created (m : Manager) (context : FdContext) (fd : Int32) : Manager :=
  (m.addContext context).put fd (some m.made)

theorem Inv.created {m : Manager} (hm : Inv m) (context : FdContext) (fd : Int32) :
    Inv (m.created context fd) := by
  apply (hm.addContext context).put
  intro ref href
  cases href
  exact Nat.lt_succ_self _

theorem Inv.makeContext_eq {m : Manager} (hm : Inv m) (kernel : Kernel) {fd : Int32}
    (hfd : 0 ≤ fd ∧ fd < 64) :
    m.makeContext host kernel fd =
      .ok (some m.made, m.created (FdContext.new host fd kernel).1 fd,
        (FdContext.new host fd kernel).2) := by
  have hstore := (hm.addContext (FdContext.new host fd kernel).1).store_eq hfd (some m.made)
  exact congrArg (· >>= fun m' => .ok (some m.made, m', (FdContext.new host fd kernel).2)) hstore

theorem Inv.makeContext_error {m : Manager} (hm : Inv m) (kernel : Kernel) {fd : Int32}
    (hfd : ¬ (0 ≤ fd ∧ fd < 64)) : m.makeContext host kernel fd = .error .outOfBounds := by
  have hstore := (hm.addContext (FdContext.new host fd kernel).1).store_error hfd (some m.made)
  exact congrArg (· >>= fun m' => .ok (some m.made, m', (FdContext.new host fd kernel).2)) hstore

theorem contextOf_congr {m m' : Manager} {fd : Int32} (hentry : m'.entry fd = m.entry fd)
    (hcontexts : ∀ ref, m.entry fd = some ref → m'.contexts ref = m.contexts ref) :
    m'.contextOf fd = m.contextOf fd := by
  rw [contextOf_eq, contextOf_eq, hentry]
  cases h : m.entry fd with
  | none => rfl
  | some ref => rw [Option.map_some, Option.map_some, hcontexts ref h]

theorem Inv.contextOf_created {m : Manager} (hm : Inv m) (context : FdContext) {fd fd' : Int32}
    (h : fd' ≠ fd) : (m.created context fd).contextOf fd' = m.contextOf fd' := by
  apply contextOf_congr
  · exact entry_put_of_ne h (some m.made)
  · intro ref href
    have hne : ref ≠ m.made := Nat.ne_of_lt (hm.entry_lt href)
    exact Function.update_of_ne hne context m.contexts

theorem Inv.not_beyond {m : Manager} (hm : Inv m) {fd : Int32} (h : fd < 64) : ¬ m.beyond fd := by
  rw [hm.beyond_iff]
  exact Int32.not_le.mpr h

theorem Inv.getFdContext_found {m : Manager} (hm : Inv m) (kernel : Kernel) {fd : Int32}
    (hfd : 0 ≤ fd ∧ fd < 64) {autoCreate : Bool} (h : (m.entry fd).isSome || !autoCreate) :
    m.getFdContext host kernel fd autoCreate = .ok (m.entry fd, m, kernel) := by
  unfold getFdContext
  rw [if_neg (hm.not_beyond hfd.2), hm.at?_eq hfd]
  exact if_pos h

theorem Inv.getFdContext_created {m : Manager} (hm : Inv m) (kernel : Kernel) {fd : Int32}
    (hfd : 0 ≤ fd ∧ fd < 64) (h : m.entry fd = none) :
    m.getFdContext host kernel fd true =
      .ok (some m.made, m.created (FdContext.new host fd kernel).1 fd,
        (FdContext.new host fd kernel).2) := by
  unfold getFdContext
  rw [if_neg (hm.not_beyond hfd.2), hm.at?_eq hfd, h]
  exact hm.makeContext_eq kernel hfd

theorem Inv.getFdContext_beyond {m : Manager} (hm : Inv m) (kernel : Kernel) {fd : Int32}
    (h : 64 ≤ fd) : m.getFdContext host kernel fd false = .ok (none, m, kernel) := by
  unfold getFdContext
  rw [if_pos ((hm.beyond_iff fd).mpr h)]
  rfl

theorem Inv.getFdContext_error {m : Manager} (hm : Inv m) (kernel : Kernel) {fd : Int32}
    {autoCreate : Bool} (h : ¬ (0 ≤ fd ∧ (autoCreate = true → fd < 64))) :
    m.getFdContext host kernel fd autoCreate = .error .outOfBounds := by
  unfold getFdContext
  by_cases hbeyond : m.beyond fd
  · have hle := (hm.beyond_iff fd).mp hbeyond
    have hpos : 0 ≤ fd := Int32.le_trans (by decide) hle
    have hauto : autoCreate = true := by
      by_contra hnot
      exact h ⟨hpos, fun ha => absurd ha hnot⟩
    rw [if_pos hbeyond, if_pos hauto]
    exact hm.makeContext_error kernel fun hin => absurd hle (Int32.not_le.mpr hin.2)
  · have hlt : fd < 64 := Int32.not_le.mp (mt (hm.beyond_iff fd).mpr hbeyond)
    rw [if_neg hbeyond, hm.at?_error fun hin => h ⟨hin.1, fun _ => hlt⟩]
    rfl

theorem Inv.delFdContext_eq {m : Manager} (hm : Inv m) {fd : Int32} (hfd : 0 ≤ fd ∧ fd < 64) :
    m.delFdContext fd = .ok (m.put fd none) := by
  unfold delFdContext
  rw [if_neg (hm.not_beyond hfd.2), hm.store_eq hfd]

theorem Inv.delFdContext_beyond {m : Manager} (hm : Inv m) {fd : Int32} (h : 64 ≤ fd) :
    m.delFdContext fd = .ok m :=
  if_pos ((hm.beyond_iff fd).mpr h)

theorem Inv.delFdContext_error {m : Manager} (hm : Inv m) {fd : Int32} (h : ¬ 0 ≤ fd) :
    m.delFdContext fd = .error .outOfBounds := by
  have hneg : fd < 0 := Int32.not_le.mp h
  have hlt : fd < 64 := Int32.lt_trans hneg (by decide)
  unfold delFdContext
  rw [if_neg (hm.not_beyond hlt), hm.store_error fun hin => h hin.1]

/-- What a call that lies in the table does: a lookup finds what is there or makes the context that
is missing, a removal empties the place if there is one. -/
inductive Does (m : Manager) : Call → Option Ref → Manager → Prop
  | found (kernel : Kernel) (fd : Int32) (autoCreate : Bool)
      (h : autoCreate = true → (m.entry fd).isSome) :
      Does m (.getFdContext kernel fd autoCreate) (m.entry fd) m
  | made (kernel : Kernel) (fd : Int32) (context : FdContext) (hfd : 0 ≤ fd ∧ fd < 64)
      (h : m.entry fd = none) :
      Does m (.getFdContext kernel fd true) (some m.made) (m.created context fd)
  | removed (fd : Int32) (hfd : 0 ≤ fd ∧ fd < 64) : Does m (.delFdContext fd) none (m.put fd none)
  | absent (fd : Int32) (hfd : 64 ≤ fd) : Does m (.delFdContext fd) none m

theorem Does.lookup {m m' : Manager} {kernel : Kernel} {fd : Int32} {autoCreate : Bool}
    {result : Option Ref} (h : Does m (.getFdContext kernel fd autoCreate) result m') {ref : Ref}
    (hentry : m.entry fd = some ref) : result = some ref := by
  cases h with
  | found => exact hentry
  | made _ _ context hfd hnone =>
      rw [hentry] at hnone
      cases hnone

/-- A lookup that may make a context returns one, and that is the one the table then has. -/
theorem Inv.create_does {m m' : Manager} (hm : Inv m) {kernel : Kernel} {fd : Int32}
    {result : Option Ref} (h : Does m (.getFdContext kernel fd true) result m') :
    result.isSome ∧ m'.entry fd = result := by
  cases h with
  | found _ _ _ hsome => exact ⟨hsome rfl, rfl⟩
  | made _ _ context hfd hnone =>
      exact ⟨rfl, (hm.addContext context).entry_put hfd (some m.made)⟩

theorem perform_getFdContext (m : Manager) (kernel : Kernel) (fd : Int32) (autoCreate : Bool) :
    m.perform host (.getFdContext kernel fd autoCreate) =
      m.getFdContext host kernel fd autoCreate >>= fun found => .ok (found.1, found.2.1) := rfl

theorem perform_delFdContext (m : Manager) (fd : Int32) :
    m.perform host (.delFdContext fd) = m.delFdContext fd >>= fun m => .ok (none, m) := rfl

theorem Inv.perform_inTable (host : Host) {m : Manager} (hm : Inv m) {c : Call} (hc : c.InTable) :
    ∃ result m', m.perform host c = .ok (result, m') ∧ Does m c result m' := by
  cases c with
  | getFdContext kernel fd autoCreate =>
      obtain ⟨hpos, hauto⟩ := hc
      rcases Int32.lt_or_le fd 64 with hlt | hle
      · by_cases hfound : (m.entry fd).isSome || !autoCreate
        · refine ⟨m.entry fd, m, ?_, Does.found kernel fd autoCreate ?_⟩
          · rw [perform_getFdContext, hm.getFdContext_found kernel ⟨hpos, hlt⟩ hfound]
            rfl
          · intro ha
            simpa [ha] using hfound
        · obtain ⟨hnone, rfl⟩ : m.entry fd = none ∧ autoCreate = true := by simpa using hfound
          refine ⟨_, _, ?_, Does.made kernel fd (FdContext.new host fd kernel).1 ⟨hpos, hlt⟩ hnone⟩
          rw [perform_getFdContext, hm.getFdContext_created kernel ⟨hpos, hlt⟩ hnone]
          rfl
      · have hfalse : autoCreate = false := by
          by_contra hnot
          exact absurd hle (Int32.not_le.mpr (hauto (by simpa using hnot)))
        subst hfalse
        refine ⟨m.entry fd, m, ?_, Does.found kernel fd false fun h => by cases h⟩
        rw [perform_getFdContext, hm.getFdContext_beyond kernel hle, hm.entry_of_beyond hle]
        rfl
  | delFdContext fd =>
      rcases Int32.lt_or_le fd 64 with hlt | hle
      · refine ⟨none, _, ?_, Does.removed fd ⟨hc, hlt⟩⟩
        rw [perform_delFdContext, hm.delFdContext_eq ⟨hc, hlt⟩]
        rfl
      · refine ⟨none, _, ?_, Does.absent fd hle⟩
        rw [perform_delFdContext, hm.delFdContext_beyond hle]
        rfl

theorem Inv.perform_error {m : Manager} (hm : Inv m) {c : Call} (hc : ¬ c.InTable) :
    m.perform host c = .error .outOfBounds := by
  cases c with
  | getFdContext kernel fd autoCreate =>
      rw [perform_getFdContext, hm.getFdContext_error kernel hc]
      rfl
  | delFdContext fd =>
      rw [perform_delFdContext, hm.delFdContext_error hc]
      rfl

theorem Inv.does_of_perform {m m' : Manager} (hm : Inv m) {c : Call} {result : Option Ref}
    (h : m.perform host c = .ok (result, m')) : Does m c result m' := by
  have hc : c.InTable := by
    by_contra hc
    rw [hm.perform_error hc] at h
    cases h
  obtain ⟨result', m'', hperform, hdoes⟩ := hm.perform_inTable host hc
  obtain ⟨rfl, rfl⟩ : result = result' ∧ m' = m'' := by simpa using h.symm.trans hperform
  exact hdoes

theorem Inv.of_does {m m' : Manager} (hm : Inv m) {c : Call} {result : Option Ref}
    (h : Does m c result m') : Inv m' := by
  cases h with
  | found => exact hm
  | made kernel fd context => exact hm.created context fd
  | removed fd => exact hm.put fd (by simp)
  | absent => exact hm

/-- A call changes the context of its own descriptor at most. -/
theorem Inv.contextOf_does {m m' : Manager} (hm : Inv m) {c : Call} {result : Option Ref}
    (h : Does m c result m') {fd : Int32} (hfd : fd ≠ c.fd) : m'.contextOf fd = m.contextOf fd := by
  cases h with
  | found => rfl
  | made kernel fd' context => exact hm.contextOf_created context hfd
  | removed fd' =>
      apply contextOf_congr
      · exact entry_put_of_ne hfd none
      · intro ref _
        rfl
  | absent => rfl

/-- Until it is removed, a context stays where it is, and every lookup finds it. -/
theorem Does.entry {m m' : Manager} {c : Call} {result : Option Ref}
    (h : Does m c result m') {fd : Int32} {ref : Ref} (hentry : m.entry fd = some ref)
    (hc : c ≠ .delFdContext fd) : m'.entry fd = some ref := by
  cases h with
  | found => exact hentry
  | made kernel fd' context hfd' hnone =>
      have hne : fd ≠ fd' := by
        rintro rfl
        rw [hentry] at hnone
        cases hnone
      rw [← hentry]
      exact entry_put_of_ne hne (some m.made)
  | removed fd' =>
      have hne : fd ≠ fd' := by
        rintro rfl
        exact hc rfl
      rw [← hentry]
      exact entry_put_of_ne hne none
  | absent => exact hentry

/-- What the calls of a trace did, one after the other. -/
inductive Trace : Manager → List Event → Prop
  | nil (m : Manager) : Trace m []
  | cons {m : Manager} {e : Event} {events : List Event} (hbefore : e.before = m)
      (hinv : Inv m) (hdoes : Does m e.call e.result e.after) (hrest : Trace e.after events) :
      Trace m (e :: events)

/-- A sequence of calls comes to its end just if every call lies in the table. -/
theorem Inv.trace_iff (host : Host) {m : Manager} (hm : Inv m) (calls : List Call) :
    (∃ events, m.trace host calls = .ok events) ↔ ∀ c ∈ calls, c.InTable := by
  induction calls generalizing m with
  | nil => exact iff_of_true ⟨[], rfl⟩ (by simp)
  | cons c calls ih =>
      rw [List.forall_mem_cons]
      by_cases hc : c.InTable
      · obtain ⟨result, m', hperform, hdoes⟩ := hm.perform_inTable host hc
        have hstep : m.trace host (c :: calls) =
            m'.trace host calls >>= fun rest => .ok (⟨c, result, m, m'⟩ :: rest) := by
          rw [trace, hperform]
          rfl
        rw [← ih (hm.of_does hdoes), hstep]
        constructor
        · rintro ⟨events, h⟩
          obtain ⟨rest, hrest, -⟩ := bind_eq_ok.mp h
          exact ⟨hc, rest, hrest⟩
        · rintro ⟨-, rest, hrest⟩
          exact ⟨_, bind_eq_ok.mpr ⟨rest, hrest, rfl⟩⟩
      · refine iff_of_false ?_ fun h => hc h.1
        rintro ⟨events, h⟩
        rw [trace, hm.perform_error hc] at h
        cases h

theorem Inv.trace_does {m : Manager} (hm : Inv m) {calls : List Call} {events : List Event}
    (h : m.trace host calls = .ok events) : Trace m events := by
  induction calls generalizing m events with
  | nil =>
      cases h
      exact Trace.nil m
  | cons c calls ih =>
      obtain ⟨⟨result, m'⟩, hperform, hthen⟩ := bind_eq_ok.mp h
      obtain ⟨rest, hrest, hevents⟩ := bind_eq_ok.mp hthen
      have hdoes := hm.does_of_perform hperform
      cases hevents
      exact Trace.cons rfl hm hdoes (ih (hm.of_does hdoes) hrest)

theorem Trace.of_append {m : Manager} {before rest : List Event} (h : Trace m (before ++ rest)) :
    ∃ m', Trace m' rest := by
  induction before generalizing m with
  | nil => exact ⟨m, h⟩
  | cons e before ih =>
      cases h with
      | cons _ _ _ hrest => exact ih hrest

theorem Trace.of_mem {m : Manager} {events : List Event} (h : Trace m events) {e : Event}
    (he : e ∈ events) : Inv e.before ∧ Does e.before e.call e.result e.after := by
  induction h with
  | nil => cases he
  | cons hbefore hinv hdoes _ ih =>
      rcases List.mem_cons.mp he with rfl | he
      · rw [hbefore]
        exact ⟨hinv, hdoes⟩
      · exact ih he

/-- Until its removal, every lookup of a descriptor finds the context it has. -/
theorem Trace.lookup {m : Manager} {mid after : List Event} {later : Event} {kernel : Kernel}
    {fd : Int32} {autoCreate : Bool} {ref : Ref} (h : Trace m (mid ++ later :: after))
    (hentry : m.entry fd = some ref) (hmid : ∀ e ∈ mid, e.call ≠ .delFdContext fd)
    (hlater : later.call = .getFdContext kernel fd autoCreate) : later.result = some ref := by
  induction mid generalizing m with
  | nil =>
      cases h with
      | cons _ _ hdoes _ =>
          rw [hlater] at hdoes
          exact hdoes.lookup hentry
  | cons e mid ih =>
      cases h with
      | cons _ hinv hdoes hrest =>
          obtain ⟨he, hmid⟩ := List.forall_mem_cons.mp hmid
          exact ih hrest (hdoes.entry hentry he) hmid

end Manager

open Manager

theorem nonneg_of_inTable {c : Call} (h : c.InTable) : ¬ c.fd < 0 := by
  cases c with
  | getFdContext => exact Int32.not_lt.mpr h.1
  | delFdContext => exact Int32.not_lt.mpr h

theorem PartialMap.of_trace {m : Manager} {events : List Event} (h : Trace m events)
    (hcalls : ∀ e ∈ events, e.call.InTable) : PartialMap events where
  negative e he hneg := absurd hneg (nonneg_of_inTable (hcalls e he))
  created e he kernel fd hcall _ := by
    obtain ⟨hinv, hdoes⟩ := h.of_mem he
    rw [hcall] at hdoes
    exact (hinv.create_does hdoes).1
  stable before mid after first later kernel kernel' fd autoCreate hevents hfirst _ hmid hlater := by
    rw [hevents, List.append_assoc] at h
    obtain ⟨m', hrest⟩ := h.of_append
    cases hrest with
    | cons _ hinv hdoes hrest =>
        rw [hfirst] at hdoes
        obtain ⟨hsome, hentry⟩ := hinv.create_does hdoes
        obtain ⟨ref, href⟩ := Option.isSome_iff_exists.mp hsome
        rw [href] at hentry ⊢
        exact hrest.lookup hentry hmid hlater
  frame e he fd hfd := by
    obtain ⟨hinv, hdoes⟩ := h.of_mem he
    exact hinv.contextOf_does hdoes hfd

theorem Manager.trace_calls {host : Host} {m : Manager} {calls : List Call} {events : List Event}
    (h : m.trace host calls = .ok events) : events.map Event.call = calls := by
  induction calls generalizing m events with
  | nil =>
      cases h
      rfl
  | cons c calls ih =>
      obtain ⟨done, -, hthen⟩ := bind_eq_ok.mp h
      obtain ⟨rest, hrest, hevents⟩ := bind_eq_ok.mp hthen
      cases hevents
      rw [List.map_cons, ih hrest]

/-- **The descriptor table as it is used.** A sequence of calls leaves no index out of bounds and
takes the table for a partial map just if no call is made with a negative descriptor and no context
has to be made from descriptor 64 on. -/
theorem partialMap_iff (host : Host) (calls : List Call) :
    (∃ events, Manager.init.trace host calls = .ok events ∧ PartialMap events) ↔
      ∀ c ∈ calls, c.InTable := by
  rw [← inv_init.trace_iff host]
  constructor
  · rintro ⟨events, h, -⟩
    exact ⟨events, h⟩
  · rintro ⟨events, h⟩
    refine ⟨events, h, PartialMap.of_trace (inv_init.trace_does h) ?_⟩
    have hcalls := (inv_init.trace_iff host calls).mp ⟨events, h⟩
    rw [← trace_calls h] at hcalls
    intro e he
    exact hcalls e.call (List.mem_map_of_mem he)

/-- The first descriptor past the table, and one that is no descriptor. -/
theorem not_partialMap :
    (¬ ∃ events, Manager.init.trace .linux [.getFdContext (fun _ => none) 64 true] = .ok events ∧
      PartialMap events) ∧
    ¬ ∃ events, Manager.init.trace .linux [.getFdContext (fun _ => none) (-1) false] = .ok events ∧
      PartialMap events := by
  constructor
  · rintro ⟨events, h, -⟩
    cases h
  · rintro ⟨events, h, -⟩
    cases h

end AsyncRPC.FdManager
