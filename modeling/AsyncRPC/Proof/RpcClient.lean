import AsyncRPC.RpcClient
import AsyncRPC.Lib.Correlation
import AsyncRPC.Lib.Parties
import AsyncRPC.Lib.Token

/-!
# Responses and their calls

`response_handle_` and the keys of the calls are inverse to each other as long as no call takes a key
that is in use. A late response is looked up under the id its request was sent with, so that id counts
as in use until then.
-/

namespace AsyncRPC.RpcClient

open Transition Token Correlation

variable {C : Type} {s t : State C} {c : C} {new : Pc C}

def Pc.isTaken : Pc C → Bool
  | .taken _ _ => true
  | _ => false

def Pc.isSent : Pc C → Bool
  | .waiting _ _ | .leaving _ _ _ | .returned _ => true
  | .idle | .taken _ _ | .sending _ _ => false

def Pc.response : Pc C → Option (Response C)
  | .leaving _ _ response | .returned response => response
  | _ => none

theorem Pc.key_of_outstanding {pc : Pc C} {id : BitVec 32} (h : pc.outstanding = some id) :
    pc.key = some id := by
  cases pc with
  | waiting _ _ => exact h
  | leaving _ _ _ => exact h
  | idle => cases h
  | taken _ _ => cases h
  | sending _ _ => cases h
  | returned _ => cases h

namespace State

def key (s : State C) (c : C) : Option (BitVec 32) := (s.pc c).key

/-- The parties that lock `mutex_` are the calls and, as `none`, the receive fiber. -/
def Owns (s : State C) : Option C → Prop
  | some c => (s.pc c).isTaken = true
  | none => ∃ c response, s.receiver = .pushing c response

structure Inv (s : State C) : Prop where
  mutex : Sole s.Owns s.mutex
  table : Inverse s.key s.responseHandle
  expected : ∀ c d id, (s.reply c).expected = some id → s.key d = some id → d = c
  unsent : ∀ c, (s.pc c).isSent = false → s.reply c = .unsent
  channel : ∀ c, ∀ response ∈ s.recvChannel c, response.request = c
  got : ∀ c response, (s.pc c).response = some response → response.request = c
  assigned : ∀ response, s.receiver = .assigned response →
    s.sequenceId = response.sequenceId ∧ s.reply response.request = .inHand response.sequenceId
  quiet : ∀ response, s.receiver = .assigned response → ∀ c, (s.pc c).isTaken = false
  pushing : ∀ c response, s.receiver = .pushing c response → response.request = c

theorem inv_of_connected (h : Connected s) : s.Inv where
  mutex := by
    apply Sole.free
    rintro (_ | c) howns
    · obtain ⟨c, response, hpushing⟩ := howns
      rw [h.receiver] at hpushing
      cases hpushing
    · rw [Owns, h.pc c] at howns
      cases howns
  table := by
    intro c id
    rw [key, h.pc c, h.responseHandle id]
    exact iff_of_false (fun heq => by cases heq) (fun heq => by cases heq)
  expected := by
    intro c d id hexpected
    rw [h.reply c] at hexpected
    cases hexpected
  unsent := fun c _ => h.reply c
  channel := by
    intro c response hmem
    rw [h.recvChannel c] at hmem
    cases hmem
  got := by
    intro c response hresponse
    rw [h.pc c] at hresponse
    cases hresponse
  assigned := by
    intro response hassigned
    rw [h.receiver] at hassigned
    cases hassigned
  quiet := fun _ _ c => by rw [h.pc c]; rfl
  pushing := by
    intro c response hpushing
    rw [h.receiver] at hpushing
    cases hpushing

variable [DecidableEq C]

/-! The effects that the steps are made of. -/

section Effects

@[simp]
theorem pc_goto_self : (s.goto c new).pc c = new := by
  simp [State.goto]

theorem pc_goto_of_ne {d : C} (hd : d ≠ c) : (s.goto c new).pc d = s.pc d := by
  simp [State.goto, hd]

theorem key_goto : (s.goto c new).key = Function.update s.key c new.key := by
  funext d
  by_cases hd : d = c
  · subst hd
    rw [key, pc_goto_self, Function.update_self]
  · rw [key, pc_goto_of_ne hd, Function.update_of_ne hd, key]

theorem key_goto_of_eq (hkey : new.key = s.key c) : (s.goto c new).key = s.key := by
  rw [key_goto, hkey, Function.update_eq_self]

theorem owns_goto (htaken : new.isTaken = false) (p : Option C) (h : (s.goto c new).Owns p) :
    p ≠ some c ∧ s.Owns p := by
  cases p with
  | none => exact ⟨Option.some_ne_none c ∘ Eq.symm, h⟩
  | some d =>
      have hnew : ¬ new.isTaken = true := by
        rw [htaken]
        exact Bool.false_ne_true
      obtain ⟨hd, hold⟩ := Parties.of_update_not (fun pc : Pc C => pc.isTaken = true) hnew h
      exact ⟨fun heq => hd (Option.some.inj heq), hold⟩

theorem Inv.unsent_goto (h : s.Inv) (hsent : new.isSent = false → s.reply c = .unsent) :
    ∀ d, ((s.goto c new).pc d).isSent = false → s.reply d = .unsent :=
  (Function.forall_update_iff s.pc fun d pc => pc.isSent = false → s.reply d = .unsent).mpr
    ⟨hsent, fun d _ => h.unsent d⟩

theorem Inv.got_goto (h : s.Inv)
    (hgot : ∀ response, new.response = some response → response.request = c) :
    ∀ d response, ((s.goto c new).pc d).response = some response → response.request = d :=
  (Function.forall_update_iff s.pc fun d pc =>
    ∀ response, pc.response = some response → response.request = d).mpr ⟨hgot, fun d _ => h.got d⟩

theorem Inv.quiet_goto (h : s.Inv) (htaken : new.isTaken = false) (response : Response C)
    (hassigned : s.receiver = .assigned response) : ∀ d, ((s.goto c new).pc d).isTaken = false :=
  (Function.forall_update_iff s.pc fun _ pc => pc.isTaken = false).mpr
    ⟨htaken, fun d _ => h.quiet response hassigned d⟩

/-- A call moves on with its key and without `mutex_`, with a response only if it is its own. -/
theorem Inv.goto (h : s.Inv) (hkey : new.key = s.key c) (htaken : new.isTaken = false)
    (hsent : new.isSent = false → s.reply c = .unsent)
    (hgot : ∀ response, new.response = some response → response.request = c) :
    (s.goto c new).Inv where
  mutex := h.mutex.mono fun p howns => (owns_goto htaken p howns).2
  table := by
    rw [key_goto_of_eq hkey]
    exact h.table
  expected := by
    rw [key_goto_of_eq hkey]
    exact h.expected
  unsent := h.unsent_goto hsent
  channel := h.channel
  got := h.got_goto hgot
  assigned := h.assigned
  quiet := h.quiet_goto htaken
  pushing := h.pushing

omit [DecidableEq C] in
/-- Nobody has `mutex_` and no response is in hand: the flag and the counter are free to change. -/
theorem Inv.unlock (h : s.Inv) (hfree : ∀ p, ¬ s.Owns p)
    (hreceiver : ∀ response, s.receiver ≠ .assigned response) (sequenceId : BitVec 32)
    (mutex : Bool) : ({ s with sequenceId := sequenceId, mutex := mutex } : State C).Inv where
  mutex := Sole.free hfree
  table := h.table
  expected := h.expected
  unsent := h.unsent
  channel := h.channel
  got := h.got
  assigned := fun response hassigned => absurd hassigned (hreceiver response)
  quiet := h.quiet
  pushing := h.pushing

theorem Inv.setReply (h : s.Inv) {reply : Reply} (hsent : (s.pc c).isSent = true)
    (hexpected : ∀ d id, reply.expected = some id → s.key d = some id → d = c)
    (hreceiver : ∀ response, s.receiver = .assigned response → response.request ≠ c) :
    ({ s with reply := Function.update s.reply c reply } : State C).Inv where
  mutex := h.mutex
  table := h.table
  expected := (Function.forall_update_iff s.reply fun b reply =>
    ∀ d id, reply.expected = some id → s.key d = some id → d = b).mpr
      ⟨hexpected, fun b _ => h.expected b⟩
  unsent := by
    refine (Function.forall_update_iff s.reply fun d reply =>
      (s.pc d).isSent = false → reply = .unsent).mpr ⟨?_, fun d _ => h.unsent d⟩
    intro hunsent
    rw [hsent] at hunsent
    cases hunsent
  channel := h.channel
  got := h.got
  assigned := by
    intro response hassigned
    have hne := hreceiver response hassigned
    change _ ∧ Function.update s.reply c reply response.request = _
    rw [Function.update_of_ne hne]
    exact h.assigned response hassigned
  quiet := h.quiet
  pushing := h.pushing

theorem Inv.setChannel (h : s.Inv) {queue : List (Response C)}
    (hqueue : ∀ response ∈ queue, response.request = c) :
    ({ s with recvChannel := Function.update s.recvChannel c queue } : State C).Inv where
  mutex := h.mutex
  table := h.table
  expected := h.expected
  unsent := h.unsent
  channel := (Function.forall_update_iff s.recvChannel fun d queue =>
    ∀ response ∈ queue, response.request = d).mpr ⟨hqueue, fun d _ => h.channel d⟩
  got := h.got
  assigned := h.assigned
  quiet := h.quiet
  pushing := h.pushing

omit [DecidableEq C] in
theorem Inv.rest (h : s.Inv) : ({ s with receiver := .idle } : State C).Inv where
  mutex := by
    refine h.mutex.mono ?_
    rintro (_ | c) howns
    · obtain ⟨c, response, hpushing⟩ := howns
      cases hpushing
    · exact howns
  table := h.table
  expected := h.expected
  unsent := h.unsent
  channel := h.channel
  got := h.got
  assigned := fun _ hassigned => by cases hassigned
  quiet := fun _ hassigned => by cases hassigned
  pushing := fun _ _ hpushing => by cases hpushing

end Effects

section Calls

theorem inv_emplace (h : s.Inv) (hidle : s.pc c = .idle) (hmutex : s.mutex = false)
    (hcareful : s.Careful (.emplace c)) : (s.emplace c).Inv := by
  have hunused : ∀ d, s.key d ≠ some s.sequenceId := fun d => (hcareful d).1
  have hit : (s.responseHandle s.sequenceId).getD c = c := by
    rw [h.table.table_eq_none hunused, Option.getD_none]
  -- a response in hand is expected under `sequence_id_`
  have hreceiver : ∀ response, s.receiver ≠ .assigned response := by
    intro response hassigned
    obtain ⟨hid, hreply⟩ := h.assigned response hassigned
    apply (hcareful response.request).2
    rw [hreply, hid, Reply.expected]
  have hfree := h.mutex
  rw [hmutex] at hfree
  have hkey : (s.emplace c).key = Function.update s.key c (some s.sequenceId) := key_goto
  rw [emplace, hit] at hkey ⊢
  refine
    { mutex := hfree.take (p := some c) ?_
      table := ?_
      expected := ?_
      unsent := h.unsent_goto fun _ => h.unsent c (by rw [hidle]; rfl)
      channel := h.channel
      got := h.got_goto fun _ hresponse => by cases hresponse
      assigned := fun response hassigned => absurd hassigned (hreceiver response)
      quiet := fun response hassigned => absurd hassigned (hreceiver response)
      pushing := h.pushing }
  · rintro (_ | d) hd howns
    · exact howns
    · have hne : d ≠ c := fun heq => hd (congrArg some heq)
      exact (congrArg Pc.isTaken (pc_goto_of_ne hne)).symm.trans howns
  · rw [hkey]
    exact h.table.insert (by rw [key, hidle]; rfl) hunused
  · intro b d id hexpected
    rw [hkey]
    by_cases hd : d = c
    · subst hd
      rw [Function.update_self]
      intro hid
      rw [← hid] at hexpected
      exact absurd hexpected (hcareful b).2
    · rw [Function.update_of_ne hd]
      exact h.expected b d id hexpected

theorem inv_increment (h : s.Inv) {id : BitVec 32} {it : C} (hpc : s.pc c = .taken id it) :
    ({ s.goto c (.sending id it) with sequenceId := s.sequenceId + 1, mutex := false } :
      State C).Inv := by
  have htaken : (s.pc c).isTaken = true := by
    rw [hpc, Pc.isTaken]
  have hnext : (s.goto c (.sending id it)).Inv := by
    refine h.goto ?_ rfl ?_ fun _ hresponse => by cases hresponse
    · rw [key, hpc, Pc.key, Pc.key]
    · intro _
      exact h.unsent c (by rw [hpc]; rfl)
  refine hnext.unlock ?_ ?_ _ _
  · intro p howns
    obtain ⟨hne, howns⟩ := owns_goto rfl p howns
    exact hne (h.mutex.unique p (some c) howns htaken)
  · intro response hassigned
    have hquiet := h.quiet response hassigned c
    rw [htaken] at hquiet
    cases hquiet

theorem inv_send (h : s.Inv) {id : BitVec 32} {it : C} (hpc : s.pc c = .sending id it) :
    ({ s.goto c (.waiting id it) with reply := Function.update s.reply c (.due id) } :
      State C).Inv := by
  have hkey : s.key c = some id := by
    rw [key, hpc, Pc.key]
  have hunsent : s.reply c = .unsent := h.unsent c (by rw [hpc]; rfl)
  have hnext : (s.goto c (.waiting id it)).Inv :=
    h.goto hkey.symm rfl (fun hsent => by cases hsent) fun _ hresponse => by cases hresponse
  refine hnext.setReply ?_ ?_ ?_
  · rw [pc_goto_self, Pc.isSent]
  · intro d id' hid hd
    cases hid
    have hsame : (s.goto c (.waiting id it)).key = s.key := key_goto_of_eq hkey.symm
    rw [hsame] at hd
    exact h.table.unique hd hkey
  · rintro response hassigned rfl
    have hreply := (h.assigned response hassigned).2
    rw [hunsent] at hreply
    cases hreply

theorem inv_pop (h : s.Inv) {id : BitVec 32} {it : C} {response : Response C}
    {rest : List (Response C)} (hpc : s.pc c = .waiting id it)
    (hchannel : s.recvChannel c = response :: rest) :
    ({ s.goto c (.leaving id it (some response)) with
       recvChannel := Function.update s.recvChannel c rest } : State C).Inv := by
  have hqueue := h.channel c
  rw [hchannel, List.forall_mem_cons] at hqueue
  have hnext : (s.goto c (.leaving id it (some response))).Inv := by
    refine h.goto ?_ rfl (fun hsent => by cases hsent) ?_
    · rw [key, hpc, Pc.key, Pc.key]
    · rintro _ ⟨rfl⟩
      exact hqueue.1
  exact hnext.setChannel hqueue.2

theorem inv_timeout (h : s.Inv) {id : BitVec 32} {it : C} (hpc : s.pc c = .waiting id it) :
    (s.goto c (.leaving id it none)).Inv := by
  refine h.goto ?_ rfl (fun hsent => by cases hsent) fun _ hresponse => by cases hresponse
  rw [key, hpc, Pc.key, Pc.key]

theorem inv_erase (h : s.Inv) {id : BitVec 32} {it : C} {response : Option (Response C)}
    (hpc : s.pc c = .leaving id it response) :
    ({ s.goto c (.returned response) with
       responseHandle := Function.update s.responseHandle id none } : State C).Inv := by
  have hold : s.key c = some id := by
    rw [key, hpc, Pc.key]
  have hkey : (s.goto c (.returned response)).key = Function.update s.key c none := key_goto
  refine
    { mutex := h.mutex.mono fun p howns => (owns_goto rfl p howns).2
      table := ?_
      expected := ?_
      unsent := h.unsent_goto fun hsent => by cases hsent
      channel := h.channel
      got := h.got_goto fun r hr => h.got c r (by rw [hpc]; exact hr)
      assigned := h.assigned
      quiet := h.quiet_goto rfl
      pushing := h.pushing }
  · change Inverse (s.goto c (.returned response)).key _
    rw [hkey]
    exact h.table.remove hold
  · change ∀ b d id, _ → (s.goto c (.returned response)).key d = some id → d = b
    intro b d id hexpected hd
    rw [hkey] at hd
    by_cases hne : d = c
    · subst hne
      rw [Function.update_self] at hd
      cases hd
    · rw [Function.update_of_ne hne] at hd
      exact h.expected b d id hexpected hd

end Calls

section Receiver

/-- The response to a request that is out comes in while no call is in its first critical section. -/
theorem inv_assign (h : s.Inv) {id : BitVec 32} (hdue : s.reply c = .due id)
    (hmutex : s.mutex = false) : (s.assign ⟨id, c⟩).Inv := by
  have hsent : (s.pc c).isSent = true := by
    by_contra hunsent
    rw [h.unsent c (Bool.not_eq_true _ ▸ hunsent)] at hdue
    cases hdue
  have hquiet : ∀ d, (s.pc d).isTaken = false := by
    intro d
    cases htaken : (s.pc d).isTaken with
    | false => rfl
    | true =>
        have hlocked := h.mutex.taken_of_owns (some d) htaken
        rw [hmutex] at hlocked
        cases hlocked
  have hnext : ({ s with reply := Function.update s.reply c (.inHand id), receiver := .idle } :
      State C).Inv := by
    refine h.rest.setReply hsent ?_ fun _ hassigned => by cases hassigned
    intro d id' hid
    cases hid
    exact h.expected c d id (by rw [hdue, Reply.expected])
  refine
    { mutex := Sole.free ?_
      table := hnext.table
      expected := hnext.expected
      unsent := hnext.unsent
      channel := hnext.channel
      got := hnext.got
      assigned := ?_
      quiet := fun _ _ => hquiet
      pushing := fun _ _ hpushing => by cases hpushing }
  · rintro (_ | d) howns
    · obtain ⟨d, response, hpushing⟩ := howns
      cases hpushing
    · have htaken : (s.pc d).isTaken = true := howns
      rw [hquiet d] at htaken
      cases htaken
  · rintro _ ⟨rfl⟩
    exact ⟨rfl, Function.update_self c _ s.reply⟩

/-- The lookup is made under the id of the request, so it finds the call of the request or none. -/
theorem inv_find (h : s.Inv) {response : Response C} (hassigned : s.receiver = .assigned response)
    (hmutex : s.mutex = false) : (s.find response).Inv := by
  obtain ⟨hid, hreply⟩ := h.assigned response hassigned
  have hexpected : (s.reply response.request).expected = some s.sequenceId := by
    rw [hreply, hid, Reply.expected]
  have hsent : (s.pc response.request).isSent = true := by
    by_contra hunsent
    rw [h.unsent _ (Bool.not_eq_true _ ▸ hunsent)] at hreply
    cases hreply
  have hnext : ({ s with
      reply := Function.update s.reply response.request .handled, receiver := .idle } :
      State C).Inv :=
    h.rest.setReply hsent (fun _ _ hid => by cases hid) fun _ hassigned => by cases hassigned
  rw [find]
  split
  · exact hnext
  · next d hd =>
    have hown : d = response.request :=
      h.expected _ d _ hexpected ((h.table d s.sequenceId).mp hd)
    have hfree := hnext.mutex
    rw [hmutex] at hfree
    exact
      { mutex := hfree.take (p := none) fun q hq howns => by
          cases q with
          | none => exact absurd rfl hq
          | some q => exact howns
        table := hnext.table
        expected := hnext.expected
        unsent := hnext.unsent
        channel := hnext.channel
        got := hnext.got
        assigned := fun _ hassigned => by cases hassigned
        quiet := fun _ hassigned => by cases hassigned
        pushing := by
          rintro _ _ ⟨rfl⟩
          exact hown.symm }

theorem inv_push (h : s.Inv) {response : Response C} (hpushing : s.receiver = .pushing c response) :
    ({ s with
       recvChannel := Function.update s.recvChannel c (s.recvChannel c ++ [response])
       receiver := .idle
       mutex := false } : State C).Inv := by
  have hqueue : ∀ r ∈ s.recvChannel c ++ [response], r.request = c := by
    intro r hr
    rcases List.mem_append.mp hr with hold | hnew
    · exact h.channel c r hold
    · rw [List.mem_singleton.mp hnew]
      exact h.pushing c response hpushing
  refine (h.setChannel hqueue).rest.unlock ?_ (fun _ hassigned => by cases hassigned) _ _
  rintro (_ | d) howns
  · obtain ⟨d, response, hidle⟩ := howns
    cases hidle
  · have hsame := h.mutex.unique (some d) none howns ⟨c, response, hpushing⟩
    cases hsame

end Receiver

theorem inv_step {l : Label C} (h : s.Inv) (hcareful : s.Careful l) (hstep : s.Step l t) :
    t.Inv := by
  rw [Step] at hstep
  cases l with
  | emplace c =>
      simp only [step] at hstep
      split at hstep
      · next henabled =>
        cases hstep
        exact inv_emplace h henabled.1 henabled.2 hcareful
      · cases hstep
  | increment c =>
      simp only [step] at hstep
      split at hstep
      · next hpc =>
        cases hstep
        exact inv_increment h hpc
      · cases hstep
  | send c =>
      simp only [step] at hstep
      split at hstep
      · next hpc =>
        cases hstep
        exact inv_send h hpc
      · cases hstep
  | pop c =>
      simp only [step] at hstep
      split at hstep
      · next hpc hchannel =>
        cases hstep
        exact inv_pop h hpc hchannel
      · cases hstep
  | timeout c =>
      simp only [step] at hstep
      split at hstep
      · next hpc =>
        cases hstep
        exact inv_timeout h hpc
      · cases hstep
  | erase c =>
      simp only [step] at hstep
      split at hstep
      · next hpc =>
        split at hstep
        · cases hstep
          exact inv_erase h hpc
        · cases hstep
      · cases hstep
  | assign c =>
      simp only [step] at hstep
      split at hstep
      · next hdue =>
        cases hstep
        exact inv_assign h hdue hcareful
      · cases hstep
  | find =>
      simp only [step] at hstep
      split at hstep
      · next hassigned =>
        split at hstep
        · next hmutex =>
          cases hstep
          exact inv_find h hassigned hmutex
        · cases hstep
      · cases hstep
  | push =>
      simp only [step] at hstep
      split at hstep
      · next hpushing =>
        split at hstep
        · cases hstep
          exact inv_push h hpushing
        · cases hstep
      · cases hstep

omit [DecidableEq C] in
theorem Inv.correlated (h : s.Inv) : s.Correlated where
  distinct := fun _ _ _ hc hd => h.table.unique (Pc.key_of_outstanding hc) (Pc.key_of_outstanding hd)
  handle := fun c id hc => (h.table c id).mpr (Pc.key_of_outstanding hc)
  own := by
    intro c response hreturned
    exact h.got c response (by rw [hreturned]; rfl)

/-- In every run of careful steps, in whatever order they come, responses find their way back. -/
theorem correlated_of_careful {C : Type} [DecidableEq C] (s : State C)
    (hreach : Reachable (Guarded Careful Step) Connected s) : s.Correlated := by
  have hinv : s.Inv := by
    refine hreach.invariant (fun _ => inv_of_connected) ?_
    rintro s l t h ⟨hcareful, hstep⟩
    exact inv_step h hcareful hstep
  exact hinv.correlated

section Examples

def newClient : State Bool :=
  { sequenceId := 0, responseHandle := fun _ => none, mutex := false, pc := fun _ => .idle,
    recvChannel := fun _ => [], reply := fun _ => .unsent, receiver := .idle }

theorem connected_newClient : Connected newClient :=
  ⟨fun _ => rfl, rfl, fun _ => rfl, fun _ => rfl, fun _ => rfl, rfl⟩

def request (c : Bool) : List (Label Bool) := [.emplace c, .increment c, .send c]

def respond (c : Bool) : List (Label Bool) := [.assign c, .find, .push]

/-- Two calls at a time, answered in the other order. -/
def overtaken : List (Label Bool) :=
  request false ++ request true ++ respond true ++ [.pop true, .erase true] ++ respond false ++
    [.pop false, .erase false]

theorem correlated_of_careful_overtaken :
    ∃ s : State Bool, Reachable (Guarded Careful Step) Connected s ∧
      s.pc false = .returned (some ⟨0, false⟩) ∧ s.pc true = .returned (some ⟨1, true⟩) ∧
        s.Correlated := by
  obtain ⟨s, hrun, hvalue⟩ : ∃ s, overtaken.foldlM (guarded Careful step) newClient = some s ∧
      (s.pc false, s.pc true) = (.returned (some ⟨0, false⟩), .returned (some ⟨1, true⟩)) :=
    Option.map_eq_some_iff.mp (by decide)
  have hreach : Reachable (Guarded Careful Step) Connected s :=
    .of_run guarded_step (.start connected_newClient) hrun
  obtain ⟨hfirst, hsecond⟩ := Prod.mk.inj hvalue
  exact ⟨s, hreach, hfirst, hsecond, correlated_of_careful s hreach⟩

/-- A response sets the counter back to its id, and a second call takes that id before the first has
returned. -/
theorem not_correlated_second_call :
    ∃ s : State Bool, Reachable Step Connected s ∧ ¬ s.Correlated := by
  obtain ⟨s, hrun, hvalue⟩ : ∃ s,
      (request false ++ respond false ++ request true).foldlM step newClient = some s ∧
        (s.pc false, s.pc true) = (.waiting 0 false, .waiting 0 false) :=
    Option.map_eq_some_iff.mp (by decide)
  obtain ⟨hfirst, hsecond⟩ := Prod.mk.inj hvalue
  refine ⟨s, .of_run (fun _ _ _ hstep => hstep) (.start connected_newClient) hrun, ?_⟩
  intro hcorrelated
  have hsame := hcorrelated.distinct false true 0 (by rw [hfirst]; rfl) (by rw [hsecond]; rfl)
  cases hsame

end Examples

end State

end AsyncRPC.RpcClient
