import AsyncRPC.Lib.Parties
import AsyncRPC.Lib.Token
import AsyncRPC.RpcClientClose

/-!
# What `RPCClient::close` leaves behind

A client is open, then closing, then closed. While it is open every call that has been registered has
its own node in `response_handle_`; so the loop of `close` comes to each of them, and a call that
awaits a value has one or is still to come. `mutex_` is a token that calls, the receive fiber and
`close` pass among them: it keeps calls from registering while `close` is under way.
-/

namespace AsyncRPC.RpcClientClose

open RpcClient (Response Receiver)
open Transition Token

variable {C : Type} {s t : State C} {c : C}

/-- The node that a call's iterator names. -/
def Pc.node : Pc C → Option (BitVec 32 × C)
  | .taken id it | .sending id it | .waiting id it | .leaving id it _ => some (id, it)
  | .idle | .checked | .returned _ => none

/-- Registered, and still to get a value. -/
def Pc.awaits : Pc C → Bool
  | .sending _ _ | .waiting _ _ => true
  | _ => false

/-- The connection is checked, and `mutex_` not yet left. -/
def Pc.enters : Pc C → Bool
  | .checked | .taken _ _ => true
  | _ => false

def Pc.isTaken : Pc C → Bool
  | .taken _ _ => true
  | _ => false

theorem Pc.waits_iff {pc : Pc C} : pc.waits = true ↔ pc.enters = true ∨ pc.awaits = true := by
  cases pc with
  | idle | checked => simp [Pc.waits, Pc.enters, Pc.awaits]
  | taken id it | sending id it | waiting id it => simp [Pc.waits, Pc.enters, Pc.awaits]
  | leaving id it response => simp [Pc.waits, Pc.enters, Pc.awaits]
  | returned response => simp [Pc.waits, Pc.enters, Pc.awaits]

theorem Pc.node_of_awaits {pc : Pc C} (h : pc.awaits = true) : ∃ id it, pc.node = some (id, it) := by
  cases pc with
  | sending id it => exact ⟨id, it, rfl⟩
  | waiting id it => exact ⟨id, it, rfl⟩
  | idle | checked => cases h
  | taken id it => cases h
  | leaving id it response => cases h
  | returned response => cases h

/-- Who may have `mutex_`. -/
inductive Party (C : Type)
  | call (c : C)
  | receiver
  | closer

def pushes : Receiver C → Bool
  | .pushing _ _ => true
  | .idle | .assigned _ => false

namespace State

def Owns (s : State C) : Party C → Prop
  | .call c => (s.pc c).isTaken = true
  | .receiver => pushes s.receiver = true
  | .closer => s.closer.isSome = true

inductive Phase (s : State C) : Prop
  | isOpen (hclosed : s.isClosed = false) (hconnected : s.connected = true) (hcloser : s.closer = none)
      (hnode : ∀ c id it, (s.pc c).node = some (id, it) → it = c ∧ (id, it) ∈ s.responseHandle)
  | closing (rest : List C) (hclosed : s.isClosed = true) (hconnected : s.connected = true)
      (hcloser : s.closer = some rest)
      (hvalue : ∀ c, (s.pc c).awaits = true → s.recvChannel c ≠ [] ∨ c ∈ rest)
  | closed (hclosed : s.isClosed = true) (hconnected : s.connected = false) (hcloser : s.closer = none)
      (hhandle : s.responseHandle = []) (henters : ∀ c, (s.pc c).enters = false)
      (hvalue : ∀ c, (s.pc c).awaits = true → s.recvChannel c ≠ [])

structure Inv (s : State C) : Prop where
  sole : Sole s.Owns s.mutex
  phase : s.Phase

theorem Inv.released (h : s.Inv) (hconnected : s.connected = false) : s.Released := by
  cases h.phase with
  | isOpen _ hopen => exact absurd (hconnected.symm.trans hopen) Bool.false_ne_true
  | closing _ _ hopen => exact absurd (hconnected.symm.trans hopen) Bool.false_ne_true
  | closed _ _ _ hhandle henters hvalue =>
      refine ⟨hhandle, fun c hwaits => ?_⟩
      rcases Pc.waits_iff.mp hwaits with henter | hawaits
      · rw [henters c] at henter
        cases henter
      · exact hvalue c hawaits

theorem inv_of_connected (h : Connected s) : s.Inv := by
  constructor
  · apply Sole.free
    rintro (c | _ | _) howns
    · rw [Owns, h.pc c] at howns
      cases howns
    · rw [Owns, h.receiver] at howns
      cases howns
    · rw [Owns, h.closer] at howns
      cases howns
  · refine .isOpen h.isClosed h.connected h.closer fun c id it hnode => ?_
    rw [h.pc c] at hnode
    cases hnode

section Phases

/-- What a step leaves alone of the flags. -/
structure SameFlags (s t : State C) : Prop where
  isClosed : t.isClosed = s.isClosed
  connected : t.connected = s.connected
  closer : t.closer = s.closer

/-- No call moves, and channels do not lose values. -/
theorem Phase.mono (h : s.Phase) (hflags : SameFlags s t) (hpc : t.pc = s.pc)
    (hhandle : t.responseHandle = s.responseHandle)
    (hchannel : ∀ c, s.recvChannel c ≠ [] → t.recvChannel c ≠ []) : t.Phase := by
  cases h with
  | isOpen hclosed hconnected hcloser hnode =>
      refine .isOpen (hflags.isClosed.trans hclosed) (hflags.connected.trans hconnected)
        (hflags.closer.trans hcloser) ?_
      rw [hpc, hhandle]
      exact hnode
  | closing rest hclosed hconnected hcloser hvalue =>
      refine .closing rest (hflags.isClosed.trans hclosed) (hflags.connected.trans hconnected)
        (hflags.closer.trans hcloser) fun c hawaits => ?_
      rw [hpc] at hawaits
      exact (hvalue c hawaits).imp_left (hchannel c)
  | closed hclosed hconnected hcloser hempty henters hvalue =>
      refine .closed (hflags.isClosed.trans hclosed) (hflags.connected.trans hconnected)
        (hflags.closer.trans hcloser) (hhandle.trans hempty) (fun c => ?_) fun c hawaits => ?_
      · rw [hpc]
        exact henters c
      · rw [hpc] at hawaits
        exact hchannel c (hvalue c hawaits)

/-- One call moves on, and begins neither to await a value nor, once closed, to enter. -/
theorem Phase.move (h : s.Phase) (hflags : SameFlags s t)
    (hhandle : t.responseHandle = s.responseHandle) (hpc : ∀ g, g ≠ c → t.pc g = s.pc g)
    (hchannel : ∀ g, g ≠ c → t.recvChannel g = s.recvChannel g)
    (hnode : (t.pc c).node = none ∨ (t.pc c).node = (s.pc c).node)
    (hawaits : (t.pc c).awaits = true → (s.pc c).awaits = true ∧ t.recvChannel c = s.recvChannel c)
    (henters : (t.pc c).enters = true → s.connected = true) : t.Phase := by
  have hstill : ∀ g, (t.pc g).awaits = true →
      (s.pc g).awaits = true ∧ t.recvChannel g = s.recvChannel g := by
    intro g hg
    by_cases hgc : g = c
    · subst hgc
      exact hawaits hg
    · rw [hpc g hgc] at hg
      exact ⟨hg, hchannel g hgc⟩
  cases h with
  | isOpen hclosed hconnected hcloser hnodes =>
      refine .isOpen (hflags.isClosed.trans hclosed) (hflags.connected.trans hconnected)
        (hflags.closer.trans hcloser) fun g id it hg => ?_
      rw [hhandle]
      by_cases hgc : g = c
      · subst hgc
        rcases hnode with hnone | hsame
        · cases hnone.symm.trans hg
        · exact hnodes g id it (hsame.symm.trans hg)
      · rw [hpc g hgc] at hg
        exact hnodes g id it hg
  | closing rest hclosed hconnected hcloser hvalue =>
      refine .closing rest (hflags.isClosed.trans hclosed) (hflags.connected.trans hconnected)
        (hflags.closer.trans hcloser) fun g hg => ?_
      obtain ⟨hbefore, hsame⟩ := hstill g hg
      rw [hsame]
      exact hvalue g hbefore
  | closed hclosed hconnected hcloser hempty hnone hvalue =>
      refine .closed (hflags.isClosed.trans hclosed) (hflags.connected.trans hconnected)
        (hflags.closer.trans hcloser) (hhandle.trans hempty) (fun g => ?_) fun g hg => ?_
      · by_cases hgc : g = c
        · subst hgc
          by_contra henter
          have hopen := henters (Bool.eq_true_of_not_eq_false henter)
          exact absurd (hconnected.symm.trans hopen) Bool.false_ne_true
        · rw [hpc g hgc]
          exact hnone g
      · obtain ⟨hbefore, hsame⟩ := hstill g hg
        rw [hsame]
        exact hvalue g hbefore

/-- While a call enters with `mutex_` free or its own, the client is open. -/
theorem Phase.open_of_enters (h : s.Phase) (henters : (s.pc c).enters = true)
    (hcloser : s.closer = none) : s.isClosed = false ∧ s.connected = true ∧
      ∀ g id it, (s.pc g).node = some (id, it) → it = g ∧ (id, it) ∈ s.responseHandle := by
  cases h with
  | isOpen hclosed hconnected _ hnode => exact ⟨hclosed, hconnected, hnode⟩
  | closing rest _ _ hsome _ => cases hcloser.symm.trans hsome
  | closed _ _ _ _ hnone _ =>
      rw [hnone c] at henters
      cases henters

end Phases

section Mutex

theorem Inv.closer_of_free (h : s.Inv) (hfree : s.mutex = false) : s.closer = none := by
  by_contra hsome
  have htaken := h.sole.taken_of_owns .closer (Option.ne_none_iff_isSome.mp hsome)
  exact absurd (hfree.symm.trans htaken) Bool.false_ne_true

theorem Inv.not_taken_of_closer (h : s.Inv) {rest : List C} (hcloser : s.closer = some rest) (c : C) :
    (s.pc c).isTaken = false := by
  by_contra htaken
  have hcloses : s.Owns .closer := by
    rw [Owns, hcloser]
    rfl
  have hsame := h.sole.unique (.call c) .closer (Bool.eq_true_of_not_eq_false htaken) hcloses
  cases hsame

theorem Inv.sole_of_same (h : s.Inv) (hmutex : t.mutex = s.mutex)
    (hpc : ∀ c, (t.pc c).isTaken = true → (s.pc c).isTaken = true)
    (hreceiver : pushes t.receiver = true → pushes s.receiver = true)
    (hcloser : t.closer.isSome = true → s.closer.isSome = true) : Sole t.Owns t.mutex := by
  rw [hmutex]
  refine h.sole.mono ?_
  rintro (c | _ | _) howns
  · exact hpc c howns
  · exact hreceiver howns
  · exact hcloser howns

variable [DecidableEq C]

theorem Inv.sole_of_goto (h : s.Inv) (pc : Pc C) (hpc : t.pc = Function.update s.pc c pc)
    (hnot : pc.isTaken = false) (hmutex : t.mutex = s.mutex) (hreceiver : t.receiver = s.receiver)
    (hcloser : t.closer = s.closer) : Sole t.Owns t.mutex := by
  refine h.sole_of_same hmutex (fun g hg => ?_) (fun hg => hreceiver ▸ hg) fun hg => hcloser ▸ hg
  rw [hpc] at hg
  refine Parties.of_update (fun pc : Pc C => pc.isTaken = true) (fun hself => ?_) hg
  cases hnot.symm.trans hself

end Mutex

section Steps

variable [DecidableEq C]

/-- A call moves on outside of the critical sections, and begins neither to await a value nor, once
closed, to enter. -/
theorem inv_goto (h : s.Inv) {pc : Pc C} (hpc : t.pc = Function.update s.pc c pc)
    (hnot : pc.isTaken = false) (hmutex : t.mutex = s.mutex) (hreceiver : t.receiver = s.receiver)
    (hflags : SameFlags s t) (hhandle : t.responseHandle = s.responseHandle)
    (hchannel : ∀ g, g ≠ c → t.recvChannel g = s.recvChannel g)
    (hnode : pc.node = none ∨ pc.node = (s.pc c).node)
    (hawaits : pc.awaits = true → (s.pc c).awaits = true ∧ t.recvChannel c = s.recvChannel c)
    (henters : pc.enters = true → s.connected = true) : t.Inv := by
  have hself : t.pc c = pc := by
    rw [hpc, Function.update_self]
  refine ⟨h.sole_of_goto _ hpc hnot hmutex hreceiver hflags.closer, ?_⟩
  refine h.phase.move hflags hhandle (fun g hg => ?_) hchannel ?_ ?_ ?_
  · rw [hpc, Function.update_of_ne hg]
  · rw [hself]
    exact hnode
  · rw [hself]
    exact hawaits
  · rw [hself]
    exact henters

theorem inv_emplace (h : s.Inv) (hchecked : s.pc c = .checked) (hfree : s.mutex = false)
    (hnew : s.responseHandle.lookup s.sequenceId = none) : (s.emplace c).Inv := by
  have hcloser := h.closer_of_free hfree
  obtain ⟨hclosed, hconnected, hnode⟩ := h.phase.open_of_enters (by rw [hchecked]; rfl) hcloser
  simp only [emplace, hnew]
  constructor
  · have hsole := h.sole
    rw [hfree] at hsole
    refine hsole.take (p := .call c) ?_
    rintro (g | _ | _) hg howns
    · have hgc : g ≠ c := fun heq => hg (heq ▸ rfl)
      exact (congrArg Pc.isTaken (Function.update_of_ne hgc _ s.pc)).symm.trans howns
    · exact howns
    · exact howns
  · refine .isOpen hclosed hconnected hcloser fun g id it hg => ?_
    rcases Parties.cases_update (fun pc : Pc C => pc.node = some (id, it)) hg with
      ⟨rfl, hself⟩ | ⟨-, hother⟩
    · cases hself
      exact ⟨rfl, (List.mem_orderedInsert _).mpr (Or.inl rfl)⟩
    · obtain ⟨hown, hmem⟩ := hnode g id it hother
      exact ⟨hown, (List.mem_orderedInsert _).mpr (Or.inr hmem)⟩

theorem inv_increment (h : s.Inv) {id : BitVec 32} {it : C} (hpc : s.pc c = .taken id it)
    (next : BitVec 32) :
    ({ s.goto c (.sending id it) with sequenceId := next, mutex := false } : State C).Inv := by
  have howns : s.Owns (.call c) := by
    rw [Owns, hpc]
    rfl
  have hcloser : s.closer = none := by
    cases hrest : s.closer with
    | none => rfl
    | some rest =>
        have hnot := h.not_taken_of_closer hrest c
        rw [hpc] at hnot
        cases hnot
  obtain ⟨hclosed, hconnected, hnode⟩ := h.phase.open_of_enters (by rw [hpc]; rfl) hcloser
  constructor
  · refine h.sole.release howns ?_ ?_
    · intro hagain
      have hself := congrArg Pc.isTaken (Function.update_self c (.sending id it) s.pc)
      cases hself.symm.trans hagain
    · rintro (g | _ | _) hg hagain
      · have hgc : g ≠ c := fun heq => hg (heq ▸ rfl)
        exact (congrArg Pc.isTaken (Function.update_of_ne hgc _ s.pc)).symm.trans hagain
      · exact hagain
      · exact hagain
  · refine .isOpen hclosed hconnected hcloser fun g id' it' hg => ?_
    refine hnode g id' it' (Parties.of_update (fun pc : Pc C => pc.node = some (id', it')) ?_ hg)
    rw [hpc]
    exact fun hself => hself

theorem inv_erase (h : s.Inv) {id : BitVec 32} {it : C} {response : Option (Option (Response C))}
    (hpc : s.pc c = .leaving id it response) (hclosed : s.isClosed = false) :
    ({ s.goto c (.returned response) with responseHandle := s.responseHandle.erase (id, it) } :
      State C).Inv := by
  refine ⟨h.sole_of_goto (.returned response) rfl rfl rfl rfl rfl, ?_⟩
  cases h.phase with
  | closing _ hclosed' => exact absurd (hclosed.symm.trans hclosed') Bool.false_ne_true
  | closed hclosed' => exact absurd (hclosed.symm.trans hclosed') Bool.false_ne_true
  | isOpen _ hconnected hcloser hnode =>
      refine .isOpen hclosed hconnected hcloser fun g id' it' hg => ?_
      rcases Parties.cases_update (fun pc : Pc C => pc.node = some (id', it')) hg with
        ⟨-, hself⟩ | ⟨hgc, hother⟩
      · cases hself
      · obtain ⟨rfl, hmem⟩ := hnode g id' it' hother
        refine ⟨rfl, (List.mem_erase_of_ne ?_).mpr hmem⟩
        -- the node that goes is the call's own
        intro heq
        obtain ⟨hown, -⟩ := hnode c id it (by rw [hpc]; rfl)
        exact hgc ((Prod.mk.inj heq).2.trans hown)

omit [DecidableEq C] in
theorem inv_close (h : s.Inv) (hfree : s.mutex = false) (hclosed : s.isClosed = false) :
    ({ s with mutex := true, isClosed := true, closer := some (s.responseHandle.map Prod.snd) } :
      State C).Inv := by
  constructor
  · have hsole := h.sole
    rw [hfree] at hsole
    refine hsole.take (p := .closer) ?_
    rintro (g | _ | _) hg howns
    · exact howns
    · exact howns
    · exact absurd rfl hg
  · cases h.phase with
    | closing _ hclosed' => exact absurd (hclosed.symm.trans hclosed') Bool.false_ne_true
    | closed hclosed' => exact absurd (hclosed.symm.trans hclosed') Bool.false_ne_true
    | isOpen _ hconnected _ hnode =>
        refine .closing (s.responseHandle.map Prod.snd) rfl hconnected rfl fun c hawaits => Or.inr ?_
        obtain ⟨id, it, hit⟩ := Pc.node_of_awaits hawaits
        obtain ⟨rfl, hmem⟩ := hnode c id it hit
        exact List.mem_map_of_mem hmem

theorem give_eq {value : Option (Response C)} (h : s.give c value = some t) :
    t = { s with recvChannel := Function.update s.recvChannel c (s.recvChannel c ++ [value]) } := by
  rw [give] at h
  split at h
  · exact (Option.some.inj h).symm
  · cases h

theorem update_append_ne_nil (value : Option (Response C)) {g : C}
    (hg : s.recvChannel g ≠ []) :
    Function.update s.recvChannel c (s.recvChannel c ++ [value]) g ≠ [] := by
  by_cases hgc : g = c
  · rw [hgc, Function.update_self]
    simp
  · rw [Function.update_of_ne hgc]
    exact hg

theorem inv_push (h : s.Inv) {response : Response C} (hreceiver : s.receiver = .pushing c response) :
    ({ s with
      recvChannel := Function.update s.recvChannel c (s.recvChannel c ++ [some response])
      receiver := .idle
      mutex := false } : State C).Inv := by
  constructor
  · refine h.sole.release (p := .receiver) ?_ (fun hagain => by cases hagain) ?_
    · rw [Owns, hreceiver]
      rfl
    · rintro (g | _ | _) hg howns
      · exact howns
      · exact absurd rfl hg
      · exact howns
  · exact h.phase.mono ⟨rfl, rfl, rfl⟩ rfl rfl fun g hg => update_append_ne_nil _ hg

theorem inv_notify (h : s.Inv) {rest : List C} (hcloser : s.closer = some (c :: rest)) :
    ({ s with
      recvChannel := Function.update s.recvChannel c (s.recvChannel c ++ [none])
      closer := some rest } : State C).Inv := by
  constructor
  · refine h.sole_of_same rfl (fun _ hg => hg) id fun _ => ?_
    rw [hcloser]
    rfl
  · cases h.phase with
    | isOpen _ _ hnone => cases hcloser.symm.trans hnone
    | closed _ _ hnone => cases hcloser.symm.trans hnone
    | closing rest' hclosed hconnected hcloser' hvalue =>
        cases hcloser.symm.trans hcloser'
        refine .closing rest hclosed hconnected rfl fun g hawaits => ?_
        by_cases hgc : g = c
        · refine Or.inl ?_
          rw [hgc]
          change Function.update s.recvChannel c (s.recvChannel c ++ [none]) c ≠ []
          rw [Function.update_self]
          simp
        · rcases hvalue g hawaits with hsome | hmem
          · exact Or.inl (update_append_ne_nil none hsome)
          · exact Or.inr ((List.mem_cons.mp hmem).resolve_left hgc)

omit [DecidableEq C] in
theorem inv_finish (h : s.Inv) (hcloser : s.closer = some []) (htimely : ∀ c, s.pc c ≠ .checked) :
    ({ s with responseHandle := [], connected := false, mutex := false, closer := none } :
      State C).Inv := by
  constructor
  · refine h.sole.release (p := .closer) ?_ (fun hagain => by cases hagain) ?_
    · rw [Owns, hcloser]
      rfl
    · rintro (g | _ | _) hg howns
      · exact howns
      · exact howns
      · exact absurd rfl hg
  · cases h.phase with
    | isOpen _ _ hnone => cases hcloser.symm.trans hnone
    | closed _ _ hnone => cases hcloser.symm.trans hnone
    | closing rest hclosed _ hcloser' hvalue =>
        cases hcloser.symm.trans hcloser'
        refine .closed hclosed rfl rfl rfl (fun c => ?_) fun c hawaits => ?_
        · have hnot := h.not_taken_of_closer hcloser c
          cases hpc : s.pc c with
          | checked => exact absurd hpc (htimely c)
          | taken id it =>
              rw [hpc] at hnot
              cases hnot
          | idle => rfl
          | sending id it | waiting id it => rfl
          | leaving id it response => rfl
          | returned response => rfl
        · exact (hvalue c hawaits).resolve_right List.not_mem_nil

theorem inv_find (h : s.Inv) {response : Response C} (hfree : s.mutex = false) :
    (s.find response).Inv := by
  rw [find]
  split
  · refine ⟨h.sole_of_same rfl (fun _ hg => hg) (fun hg => by cases hg) id, ?_⟩
    exact h.phase.mono ⟨rfl, rfl, rfl⟩ rfl rfl fun _ hg => hg
  · refine ⟨?_, h.phase.mono ⟨rfl, rfl, rfl⟩ rfl rfl fun _ hg => hg⟩
    have hsole := h.sole
    rw [hfree] at hsole
    refine hsole.take (p := .receiver) ?_
    rintro (g | _ | _) hg howns
    · exact howns
    · exact absurd rfl hg
    · exact howns

theorem inv_step {l : Label C} (h : s.Inv) (htimely : s.Timely l) (hstep : s.Step l t) : t.Inv := by
  rw [Step] at hstep
  cases l with
  | check c =>
      simp only [step] at hstep
      split at hstep
      · next hpc =>
        cases hstep
        split
        · next hconnected =>
          exact inv_goto h rfl rfl rfl rfl ⟨rfl, rfl, rfl⟩ rfl (fun _ _ => rfl) (Or.inl rfl)
            (fun hawaits => by cases hawaits) fun _ => hconnected
        · exact inv_goto h rfl rfl rfl rfl ⟨rfl, rfl, rfl⟩ rfl (fun _ _ => rfl) (Or.inl rfl)
            (fun hawaits => by cases hawaits) fun henters => by cases henters
      · cases hstep
  | emplace c =>
      simp only [step] at hstep
      split at hstep
      · next henabled =>
        cases hstep
        exact inv_emplace h henabled.1 henabled.2 htimely
      · cases hstep
  | increment c =>
      simp only [step] at hstep
      split at hstep
      · next id it hpc =>
        cases hstep
        exact inv_increment h hpc _
      · cases hstep
  | send c =>
      simp only [step] at hstep
      split at hstep
      · next id it hpc =>
        cases hstep
        exact inv_goto h rfl rfl rfl rfl ⟨rfl, rfl, rfl⟩ rfl (fun _ _ => rfl)
          (Or.inr (by rw [hpc]; rfl)) (fun _ => ⟨by rw [hpc]; rfl, rfl⟩) fun henters => by cases henters
      · cases hstep
  | pop c =>
      simp only [step] at hstep
      split at hstep
      · next id it value rest hpc _ =>
        cases hstep
        exact inv_goto h rfl rfl rfl rfl ⟨rfl, rfl, rfl⟩ rfl (fun g hg => Function.update_of_ne hg _ _)
          (Or.inr (by rw [hpc]; rfl)) (fun hawaits => by cases hawaits) fun henters => by cases henters
      · cases hstep
  | timeout c =>
      simp only [step] at hstep
      split at hstep
      · next id it hpc =>
        cases hstep
        exact inv_goto h rfl rfl rfl rfl ⟨rfl, rfl, rfl⟩ rfl (fun _ _ => rfl)
          (Or.inr (by rw [hpc]; rfl)) (fun hawaits => by cases hawaits) fun henters => by cases henters
      · cases hstep
  | erase c =>
      simp only [step] at hstep
      split at hstep
      · next id it response hpc =>
        split at hstep
        · cases hstep
        · split at hstep
          · cases hstep
            exact inv_goto h rfl rfl rfl rfl ⟨rfl, rfl, rfl⟩ rfl (fun _ _ => rfl) (Or.inl rfl)
              (fun hawaits => by cases hawaits) fun henters => by cases henters
          · next hclosed =>
            split at hstep
            · cases hstep
              exact inv_erase h hpc (Bool.eq_false_of_not_eq_true hclosed)
            · cases hstep
      · cases hstep
  | assign c =>
      simp only [step] at hstep
      split at hstep
      · split at hstep
        · cases hstep
          refine ⟨h.sole_of_same rfl (fun _ hg => hg) (fun hg => by cases hg) id, ?_⟩
          exact h.phase.mono ⟨rfl, rfl, rfl⟩ rfl rfl fun _ hg => hg
        · cases hstep
      · cases hstep
  | find =>
      simp only [step] at hstep
      split at hstep
      · split at hstep
        · next hfree =>
          cases hstep
          exact inv_find h hfree
        · cases hstep
      · cases hstep
  | push =>
      simp only [step] at hstep
      split at hstep
      · next c response hreceiver =>
        obtain ⟨u, hu, rfl⟩ := Option.map_eq_some_iff.mp hstep
        rw [give_eq hu]
        exact inv_push h hreceiver
      · cases hstep
  | close =>
      simp only [step] at hstep
      split at hstep
      · next henabled =>
        cases hstep
        exact inv_close h henabled.1 henabled.2
      · cases hstep
  | notify =>
      simp only [step] at hstep
      split at hstep
      · next c rest hcloser =>
        obtain ⟨u, hu, rfl⟩ := Option.map_eq_some_iff.mp hstep
        rw [give_eq hu]
        exact inv_notify h hcloser
      · cases hstep
  | finish =>
      simp only [step] at hstep
      split at hstep
      · next hcloser =>
        cases hstep
        exact inv_finish h hcloser htimely
      · cases hstep

end Steps

/-- In every run of timely steps, once `close` is through, `response_handle_` stays empty and every call
that waits or will wait has a value. -/
theorem released_of_timely {C : Type} [DecidableEq C] (s : State C)
    (hreach : Reachable (Guarded Timely Step) Connected s) (hclosed : s.connected = false) :
    s.Released := by
  have hinv : s.Inv := by
    refine hreach.invariant (fun _ => inv_of_connected) ?_
    rintro s l t h ⟨htimely, hstep⟩
    exact inv_step h htimely hstep
  exact hinv.released hclosed

section Examples

def newClient : State Bool :=
  { sequenceId := 0, responseHandle := [], mutex := false, isClosed := false, connected := true,
    pc := fun _ => .idle, recvChannel := fun _ => [], reply := fun _ => .unsent, receiver := .idle,
    closer := none }

theorem connected_newClient : Connected newClient :=
  ⟨rfl, rfl, rfl, rfl, fun _ => rfl, fun _ => rfl, fun _ => rfl, rfl, rfl⟩

/-- One call waits and another is about to send when `close` comes. -/
def bothReleased : List (Label Bool) :=
  [.check false, .emplace false, .increment false, .send false, .check true, .emplace true,
    .increment true, .close, .notify, .notify, .finish, .send true]

theorem released_of_timely_both :
    ∃ s : State Bool, Reachable (Guarded Timely Step) Connected s ∧ s.connected = false ∧
      (∀ c, (s.pc c).waits = true) ∧ s.Released := by
  obtain ⟨s, hrun, hvalue⟩ : ∃ s,
      bothReleased.foldlM (guarded Timely step) newClient = some s ∧
        (s.connected, (s.pc false).waits, (s.pc true).waits) = (false, true, true) :=
    Option.map_eq_some_iff.mp (by decide)
  have hreach : Reachable (Guarded Timely Step) Connected s :=
    .of_run guarded_step (.start connected_newClient) hrun
  simp only [Prod.mk.injEq] at hvalue
  obtain ⟨hclosed, hfirst, hsecond⟩ := hvalue
  refine ⟨s, hreach, hclosed, ?_, released_of_timely s hreach hclosed⟩
  rintro (_ | _)
  · exact hfirst
  · exact hsecond

/-- `close` takes `mutex_` before a call that has checked the connection. -/
def overtaken : List (Label Bool) :=
  [.check false, .close, .finish, .emplace false, .increment false, .send false]

theorem not_released_overtaken :
    ∃ s : State Bool, Reachable Step Connected s ∧ s.connected = false ∧ ¬ s.Released := by
  obtain ⟨s, hrun, hvalue⟩ : ∃ s, overtaken.foldlM step newClient = some s ∧
      (s.connected, (s.pc false).waits, (s.recvChannel false).isEmpty) = (false, true, true) :=
    Option.map_eq_some_iff.mp (by decide)
  simp only [Prod.mk.injEq] at hvalue
  obtain ⟨hclosed, hwaits, hempty⟩ := hvalue
  refine ⟨s, .of_run (fun _ _ _ hstep => hstep) (.start connected_newClient) hrun, hclosed, ?_⟩
  intro hreleased
  exact hreleased.value false hwaits (List.isEmpty_iff.mp hempty)

end Examples

end State

end AsyncRPC.RpcClientClose
