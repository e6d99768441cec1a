import AsyncRPC.Lib.Bag
import AsyncRPC.Lib.Parties
import AsyncRPC.RegistryIndex

/-!
# The index agrees with the services

An entry is referenced once under its address, or is about to be. A handler that works through an
address has yet to come to all that is referenced there and live; what it has passed is referenced and
gone, until it drops the references as a whole.
-/

namespace AsyncRPC.RegistryIndex

open Emplace ServiceRegistry Transition
open CoMutex (This)

variable {Conn : Type} {s t : State Conn} {c : Conn} {pc : Pc Conn} {address : Bytes} {i : Nat}
  {its : List Nat}

/-- The reference that is about to be made, with its address. -/
def Pc.push : Pc Conn → Option (Bytes × Nat)
  | .pushing _ address i => some (address, i)
  | .lock next | .unlock next | .probing _ next | .ranging _ next | .sending _ next => next.push
  | .idle | .emplacing _ _ | .discovering _ | .subscribing _ | .finding _ | .copying _
  | .erasing _ _ => none

/-- The address whose iterators `handleUnregisterService` works through, from its copy of them to
`iters_.erase`, with those to come. -/
def Pc.loop {Conn : Type} : Pc Conn → Option (Bytes × List Nat)
  | .erasing address its => some (address, its)
  | .lock next | .unlock next | .probing _ next | .ranging _ next | .sending _ next => next.loop
  | .idle | .emplacing _ _ | .pushing _ _ _ | .discovering _ | .subscribing _ | .finding _
  | .copying _ => none

theorem found_of_loop (h : pc.loop = some (address, its)) : pc.found = some address := by
  induction pc with
  | erasing a js =>
      cases h
      rfl
  | lock next ih => exact ih h
  | unlock next ih => exact ih h
  | probing key next ih => exact ih h
  | ranging key next ih => exact ih h
  | sending sessions next ih => exact ih h
  | _ => cases h

namespace State

structure Inv (s : State Conn) : Prop where
  fresh : ∀ e ∈ s.service, e.iter < s.emplaced
  nodup : (s.service.map Entry.iter).Nodup
  listed : ∀ address, ∀ i ∈ s.listed address, i < s.emplaced
  once : ∀ e ∈ s.service, (s.listed e.address).count e.iter = 1 ∨
    ((s.listed e.address).count e.iter = 0 ∧ ∃ c, (s.pc c).push = some (e.address, e.iter))
  live : ∀ address, ∀ i ∈ s.listed address,
    s.Live address i ∨ ∃ c its, (s.pc c).loop = some (address, its) ∧ i ∉ its
  push : ∀ c address i, (s.pc c).push = some (address, i) →
    s.Live address i ∧ ∀ address', i ∉ s.listed address'
  pushOnce : ∀ c c' address address' i, (s.pc c).push = some (address, i) →
    (s.pc c').push = some (address', i) → c = c'
  loop : ∀ c address its, (s.pc c).loop = some (address, its) →
    its.Nodup ∧ ∀ i ∈ its, i ∈ s.listed address ∧ s.Live address i
  rest : ∀ c its e, (s.pc c).loop = some (e.address, its) → e ∈ s.service →
    e.iter ∈ s.listed e.address → e.iter ∈ its
  alone : ∀ c c' address, (s.pc c).found = some address → (s.pc c').found = some address → c = c'

theorem Inv.indexed (h : s.Inv) (hquiet : s.Quiet) : s.Indexed where
  once e he := by
    rcases h.once e he with hone | ⟨-, c, hc⟩
    · exact hone
    · rw [(hquiet c).1] at hc
      cases hc
  live address i hi := by
    rcases h.live address i hi with hlive | ⟨c, its, hc, -⟩
    · exact hlive
    · rw [(hquiet c).1] at hc
      cases hc

theorem inv_of_new (h : New s) : s.Inv := by
  have hservice : ∀ e, e ∉ s.service := by
    rw [h.service]
    exact fun _ => List.not_mem_nil
  have hlisted : ∀ address i, i ∉ s.listed address := by
    intro address
    rw [listed, h.iters address]
    exact fun _ => List.not_mem_nil
  have hidle : ∀ c, (s.pc c).push = none ∧ (s.pc c).loop = none ∧ (s.pc c).found = none := by
    intro c
    rw [h.pc c]
    exact ⟨rfl, rfl, rfl⟩
  refine
    { fresh := fun e he => absurd he (hservice e)
      nodup := by
        rw [h.service]
        exact List.nodup_nil
      listed := fun address i hi => absurd hi (hlisted address i)
      once := fun e he => absurd he (hservice e)
      live := fun address i hi => absurd hi (hlisted address i)
      push := fun c address i hc => ?_
      pushOnce := fun c c' address address' i hc => ?_
      loop := fun c address its hc => ?_
      rest := fun c its e _ he => absurd he (hservice e)
      alone := fun c c' address hc => ?_ }
  · rw [(hidle c).1] at hc
    cases hc
  · rw [(hidle c).1] at hc
    cases hc
  · rw [(hidle c).2.1] at hc
    cases hc
  · rw [(hidle c).2.2] at hc
    cases hc

theorem listed_congr (hiters : t.iters = s.iters) (a : Bytes) : t.listed a = s.listed a := by
  rw [State.listed, State.listed, hiters]

theorem live_congr (hservice : t.service = s.service) (a : Bytes) (j : Nat) :
    t.Live a j ↔ s.Live a j := by
  rw [State.Live, State.Live, hservice]

theorem Inv.keep (h : s.Inv) (hservice : t.service = s.service) (hiters : t.iters = s.iters)
    (hemplaced : t.emplaced = s.emplaced) (hpush : ∀ c, (t.pc c).push = (s.pc c).push)
    (hloop : ∀ c, (t.pc c).loop = (s.pc c).loop) (hfound : ∀ c, (t.pc c).found = (s.pc c).found) :
    t.Inv := by
  have hlisted := listed_congr hiters
  have hlive := live_congr hservice
  constructor <;> simp only [hservice, hemplaced, hlisted, hlive, hpush, hloop, hfound]
  · exact h.fresh
  · exact h.nodup
  · exact h.listed
  · exact h.once
  · exact h.live
  · exact h.push
  · exact h.pushOnce
  · exact h.loop
  · exact h.rest
  · exact h.alone

section Steps

variable [DecidableEq Conn]

theorem pc_goto_self : (s.goto c pc).pc c = pc := Function.update_self _ _ _

theorem pc_goto_of_ne {c' : Conn} (hc : c' ≠ c) : (s.goto c pc).pc c' = s.pc c' :=
  Function.update_of_ne hc _ _

/-- What has to do with the index, of all handlers, when one of them moves on. -/
theorem pc_goto {α : Type} (get : Pc Conn → Option α) (hget : get pc = get (s.pc c)) (c' : Conn) :
    get ((s.goto c pc).pc c') = get (s.pc c') := Parties.get_update get hget c'

theorem Inv.goto (h : s.Inv) {old : Pc Conn} (hpc : s.pc c = old) (hpush : pc.push = old.push)
    (hloop : pc.loop = old.loop) (hfound : pc.found = old.found) : (s.goto c pc).Inv := by
  subst hpc
  exact h.keep rfl rfl rfl (pc_goto Pc.push hpush) (pc_goto Pc.loop hloop)
    (pc_goto Pc.found hfound)

/-- What a handler takes on when it moves on, it or another one has. -/
theorem eq_some_goto {α : Type} {get : Pc Conn → Option α} {x : α} {c' : Conn}
    (h : get ((s.goto c pc).pc c') = some x) :
    (c' = c ∧ get pc = some x) ∨ (c' ≠ c ∧ get (s.pc c') = some x) :=
  Parties.cases_update (fun pc : Pc Conn => get pc = some x) h

/-- `service_.emplace`, wherever the multimap puts the new entry. -/
theorem Inv.emplace (h : s.Inv) {name : Bytes} (hpc : s.pc c = .emplacing name address)
    (hnext : t.pc = (s.goto c (.pushing name address s.emplaced)).pc)
    (hservice : t.service.Perm (⟨s.emplaced, name, address⟩ :: s.service))
    (hiters : t.iters = s.iters) (hemplaced : t.emplaced = s.emplaced + 1) : t.Inv := by
  have hmem : ∀ e, e ∈ t.service ↔ e = ⟨s.emplaced, name, address⟩ ∨ e ∈ s.service :=
    fun e => hservice.mem_iff.trans List.mem_cons
  have hnew : ∀ e ∈ s.service, e.iter ≠ s.emplaced := fun e he => Nat.ne_of_lt (h.fresh e he)
  have hsame := listed_congr hiters
  have hunlisted : ∀ a, s.emplaced ∉ t.listed a := by
    intro a hi
    rw [hsame] at hi
    exact Nat.lt_irrefl _ (h.listed a _ hi)
  have hlive : ∀ {a j}, s.Live a j → t.Live a j := by
    rintro a j ⟨e, he, heq⟩
    exact ⟨e, (hmem e).mpr (Or.inr he), heq⟩
  have hold : (s.pc c).push = none ∧ (s.pc c).loop = none ∧ (s.pc c).found = none := by
    rw [hpc]
    exact ⟨rfl, rfl, rfl⟩
  have hloop : ∀ c', (t.pc c').loop = (s.pc c').loop := hnext ▸ pc_goto Pc.loop hold.2.1.symm
  have hfound : ∀ c', (t.pc c').found = (s.pc c').found := hnext ▸ pc_goto Pc.found hold.2.2.symm
  have hpush : ∀ {c' x}, (t.pc c').push = some x →
      (c' = c ∧ some (address, s.emplaced) = some x) ∨ (c' ≠ c ∧ (s.pc c').push = some x) := by
    intro c' x hc'
    rw [hnext] at hc'
    exact eq_some_goto hc'
  -- nobody else is about to push the new iterator
  have hnobody : ∀ c' address', (s.pc c').push ≠ some (address', s.emplaced) := by
    intro c' address' hc'
    obtain ⟨⟨e, he, heq, -⟩, -⟩ := h.push c' address' s.emplaced hc'
    exact hnew e he heq
  constructor
  · intro e he
    rw [hemplaced]
    rcases (hmem e).mp he with rfl | he
    · exact Nat.lt_succ_self _
    · exact Nat.lt_succ_of_lt (h.fresh e he)
  · refine (hservice.map Entry.iter).nodup_iff.mpr (List.nodup_cons.mpr ⟨fun hin => ?_, h.nodup⟩)
    obtain ⟨e, he, heq⟩ := List.mem_map.mp hin
    exact hnew e he heq
  · intro a i hi
    rw [hsame] at hi
    rw [hemplaced]
    exact Nat.lt_succ_of_lt (h.listed a i hi)
  · intro e he
    rcases (hmem e).mp he with rfl | he
    · refine Or.inr ⟨List.count_eq_zero.mpr (hunlisted address), c, ?_⟩
      rw [hnext, pc_goto_self]
      rfl
    · rw [hsame]
      refine (h.once e he).imp_right fun hpending => ?_
      obtain ⟨hzero, c', hc'⟩ := hpending
      refine ⟨hzero, c', ?_⟩
      have hne : c' ≠ c := by
        rintro rfl
        cases hold.1.symm.trans hc'
      rw [hnext, pc_goto_of_ne hne]
      exact hc'
  · intro a i hi
    rw [hsame] at hi
    rcases h.live a i hi with hl | ⟨c', its, hc', hnot⟩
    · exact Or.inl (hlive hl)
    · exact Or.inr ⟨c', its, (hloop c').trans hc', hnot⟩
  · intro c' a i hc'
    rcases hpush hc' with ⟨rfl, heq⟩ | ⟨-, hc'⟩
    · cases heq
      exact ⟨⟨_, (hmem _).mpr (Or.inl rfl), rfl, rfl⟩, hunlisted⟩
    · obtain ⟨hl, hnot⟩ := h.push c' a i hc'
      exact ⟨hlive hl, fun a' => hsame a' ▸ hnot a'⟩
  · intro c₁ c₂ a₁ a₂ i h₁ h₂
    rcases hpush h₁ with ⟨rfl, heq⟩ | ⟨-, hold₁⟩
    · cases heq
      rcases hpush h₂ with ⟨rfl, -⟩ | ⟨-, hold₂⟩
      · rfl
      · exact absurd hold₂ (hnobody c₂ a₂)
    · rcases hpush h₂ with ⟨rfl, heq⟩ | ⟨-, hold₂⟩
      · cases heq
        exact absurd hold₁ (hnobody c₁ a₁)
      · exact h.pushOnce c₁ c₂ a₁ a₂ i hold₁ hold₂
  · intro c' a its hc'
    obtain ⟨hnodup, hall⟩ := h.loop c' a its ((hloop c').symm.trans hc')
    refine ⟨hnodup, fun i hi => ⟨?_, hlive (hall i hi).2⟩⟩
    rw [hsame]
    exact (hall i hi).1
  · intro c' its e hc' he hi
    rcases (hmem e).mp he with rfl | he
    · exact absurd hi (hunlisted _)
    · rw [hsame] at hi
      exact h.rest c' its e ((hloop c').symm.trans hc') he hi
  · simp only [hfound]
    exact h.alone

/-- `iters_[service_address].push_back(it)`, with nobody at work on the address. -/
theorem Inv.pushBack (h : s.Inv) (hpush : (s.pc c).push = some (address, i))
    (hapart : ∀ c' its, (s.pc c').loop ≠ some (address, its))
    (hpc : t.pc = (s.goto c pc).pc) (hnone : pc.push = none) (hloop : pc.loop = (s.pc c).loop)
    (hfound : pc.found = (s.pc c).found) (hservice : t.service = s.service)
    (hemplaced : t.emplaced = s.emplaced) (hself : t.listed address = s.listed address ++ [i])
    (hother : ∀ a, a ≠ address → t.listed a = s.listed a) : t.Inv := by
  obtain ⟨hlive, hunlisted⟩ := h.push c address i hpush
  have hmem : ∀ a j, j ∈ t.listed a → j ∈ s.listed a ∨ (a = address ∧ j = i) := by
    intro a j hj
    by_cases ha : a = address
    · subst ha
      rw [hself] at hj
      exact (List.mem_append.mp hj).imp_right fun hj => ⟨rfl, List.mem_singleton.mp hj⟩
    · rw [hother a ha] at hj
      exact Or.inl hj
  have hlives := live_congr hservice
  have hloops : ∀ c', (t.pc c').loop = (s.pc c').loop := hpc ▸ pc_goto Pc.loop hloop
  have hfounds : ∀ c', (t.pc c').found = (s.pc c').found := hpc ▸ pc_goto Pc.found hfound
  have hpushes : ∀ c' a j, (t.pc c').push = some (a, j) ↔ c' ≠ c ∧ (s.pc c').push = some (a, j) := by
    intro c' a j
    rw [hpc]
    by_cases hc' : c' = c
    · subst hc'
      rw [pc_goto_self, hnone]
      exact iff_of_false (fun hno => by cases hno) fun hno => hno.1 rfl
    · rw [pc_goto_of_ne hc']
      exact (and_iff_right hc').symm
  have hpending : ∀ e ∈ s.service, (e.address = address → e.iter ≠ i) →
      (∃ c', (s.pc c').push = some (e.address, e.iter)) →
        ∃ c', (t.pc c').push = some (e.address, e.iter) := by
    rintro e he hne ⟨c', hc'⟩
    refine ⟨c', (hpushes c' _ _).mpr ⟨?_, hc'⟩⟩
    rintro rfl
    cases hpush.symm.trans hc'
    exact hne rfl rfl
  constructor
  · rw [hservice, hemplaced]
    exact h.fresh
  · rw [hservice]
    exact h.nodup
  · intro a j hj
    rw [hemplaced]
    rcases hmem a j hj with hj | ⟨-, rfl⟩
    · exact h.listed a j hj
    · obtain ⟨e, he, rfl, -⟩ := hlive
      exact h.fresh e he
  · rw [hservice]
    intro e he
    by_cases ha : e.address = address
    · by_cases hei : e.iter = i
      · left
        rw [ha, hself, hei, List.count_append, List.count_singleton_self,
          List.count_eq_zero.mpr (hunlisted address)]
      · have hcount : (t.listed e.address).count e.iter = (s.listed e.address).count e.iter := by
          rw [ha, hself, List.count_append, List.count_singleton, if_neg (by simpa using Ne.symm hei),
            Nat.add_zero]
        rw [hcount]
        exact (h.once e he).imp_right fun hp => ⟨hp.1, hpending e he (fun _ => hei) hp.2⟩
    · rw [hother _ ha]
      exact (h.once e he).imp_right fun hp =>
        ⟨hp.1, hpending e he (fun heq => absurd heq ha) hp.2⟩
  · intro a j hj
    simp only [hlives, hloops]
    rcases hmem a j hj with hj | ⟨rfl, rfl⟩
    · exact h.live a j hj
    · exact Or.inl hlive
  · intro c' a j hc'
    obtain ⟨hne, hc'⟩ := (hpushes c' a j).mp hc'
    obtain ⟨hl, hnot⟩ := h.push c' a j hc'
    refine ⟨(hlives a j).mpr hl, fun a' hj => ?_⟩
    rcases hmem a' j hj with hj | ⟨-, rfl⟩
    · exact hnot a' hj
    · exact hne (h.pushOnce c' c a address j hc' hpush)
  · intro c₁ c₂ a₁ a₂ j h₁ h₂
    exact h.pushOnce c₁ c₂ a₁ a₂ j ((hpushes c₁ a₁ j).mp h₁).2 ((hpushes c₂ a₂ j).mp h₂).2
  · intro c' a its hc'
    rw [hloops] at hc'
    have ha : a ≠ address := by
      rintro rfl
      exact hapart c' its hc'
    simp only [hother a ha, hlives]
    exact h.loop c' a its hc'
  · intro c' its e hc' he hi
    rw [hloops] at hc'
    rw [hservice] at he
    have ha : e.address ≠ address := fun heq => hapart c' its (heq ▸ hc')
    rw [hother _ ha] at hi
    exact h.rest c' its e hc' he hi
  · simp only [hfounds]
    exact h.alone

/-- `iters_.find`, of an address that nobody else has found. -/
theorem Inv.find (h : s.Inv) (hpc : s.pc c = .finding address)
    (hapart : ∀ c', (s.pc c').found ≠ some address) : (s.goto c (.copying address)).Inv := by
  have hpush : ∀ c', ((s.goto c (.copying address)).pc c').push = (s.pc c').push :=
    pc_goto Pc.push (by rw [hpc]; rfl)
  have hloop : ∀ c', ((s.goto c (.copying address)).pc c').loop = (s.pc c').loop :=
    pc_goto Pc.loop (by rw [hpc]; rfl)
  constructor
  · exact h.fresh
  · exact h.nodup
  · exact h.listed
  · simp only [hpush]
    exact h.once
  · simp only [hloop]
    exact h.live
  · simp only [hpush]
    exact h.push
  · simp only [hpush]
    exact h.pushOnce
  · simp only [hloop]
    exact h.loop
  · simp only [hloop]
    exact h.rest
  · intro c₁ c₂ a h₁ h₂
    rcases eq_some_goto h₁ with ⟨rfl, heq⟩ | ⟨-, hold₁⟩
    · cases heq
      rcases eq_some_goto h₂ with ⟨rfl, -⟩ | ⟨-, hold₂⟩
      · rfl
      · exact absurd hold₂ (hapart c₂)
    · rcases eq_some_goto h₂ with ⟨rfl, heq⟩ | ⟨-, hold₂⟩
      · cases heq
        exact absurd hold₁ (hapart c₁)
      · exact h.alone c₁ c₂ a hold₁ hold₂

/-- `auto its = it->second`: whatever is referenced under the address is live then. -/
theorem Inv.copy (h : s.Inv) (hpc : s.pc c = .copying address) (hits : s.iters address = some its) :
    (s.goto c (.erasing address its)).Inv := by
  have hlisted : s.listed address = its := by
    rw [State.listed, hits]
    rfl
  have hfoundc : (s.pc c).found = some address := by
    rw [hpc]
    rfl
  have hloopc : (s.pc c).loop = none := by
    rw [hpc]
    rfl
  have hlive : ∀ j ∈ its, s.Live address j := by
    intro j hj
    rcases h.live address j (hlisted ▸ hj) with hl | ⟨c', its', hc', -⟩
    · exact hl
    · cases h.alone c' c address (found_of_loop hc') hfoundc
      cases hloopc.symm.trans hc'
  have hnodup : its.Nodup := by
    refine List.nodup_iff_count_le_one.mpr fun j => ?_
    by_cases hj : j ∈ its
    · obtain ⟨e, he, rfl, rfl⟩ := hlive j hj
      have honce := h.once e he
      rw [hlisted] at honce
      rcases honce with hone | ⟨hzero, -⟩
      · exact Nat.le_of_eq hone
      · exact hzero ▸ Nat.zero_le 1
    · rw [List.count_eq_zero.mpr hj]
      exact Nat.zero_le 1
  have hpush : ∀ c', ((s.goto c (.erasing address its)).pc c').push = (s.pc c').push :=
    pc_goto Pc.push (by rw [hpc]; rfl)
  have hfound : ∀ c', ((s.goto c (.erasing address its)).pc c').found = (s.pc c').found :=
    pc_goto Pc.found (by rw [hpc]; rfl)
  constructor
  · exact h.fresh
  · exact h.nodup
  · exact h.listed
  · simp only [hpush]
    exact h.once
  · intro a j hj
    refine (h.live a j hj).imp_right ?_
    rintro ⟨c', its', hc', hnot⟩
    have hne : c' ≠ c := by
      rintro rfl
      cases hloopc.symm.trans hc'
    exact ⟨c', its', (congrArg Pc.loop (pc_goto_of_ne hne)).trans hc', hnot⟩
  · simp only [hpush]
    exact h.push
  · simp only [hpush]
    exact h.pushOnce
  · intro c' a its' hc'
    rcases eq_some_goto hc' with ⟨-, heq⟩ | ⟨-, hc'⟩
    · cases heq
      exact ⟨hnodup, fun j hj => ⟨hlisted.symm ▸ hj, hlive j hj⟩⟩
    · exact h.loop c' a its' hc'
  · intro c' its' e hc' he hi
    rcases eq_some_goto hc' with ⟨-, heq⟩ | ⟨-, hc'⟩
    · cases heq
      exact hlisted ▸ hi
    · exact h.rest c' its' e hc' he hi
  · simp only [hfound]
    exact h.alone

theorem Inv.erase (h : s.Inv) (hits : (s.pc c).loop = some (address, i :: its))
    (hpc : t.pc = (s.goto c pc).pc) (hpush : pc.push = (s.pc c).push)
    (hloop : pc.loop = some (address, its)) (hfound : pc.found = (s.pc c).found)
    (hservice : t.service = s.service.eraseP fun e => e.iter = i) (hiters : t.iters = s.iters)
    (hemplaced : t.emplaced = s.emplaced) : t.Inv := by
  obtain ⟨hnodup, hall⟩ := h.loop c address (i :: its) hits
  obtain ⟨hlisted, e₀, he₀, hiter₀, haddress₀⟩ := hall i List.mem_cons_self
  have hout : i ∉ its := (List.nodup_cons.mp hnodup).1
  have hmem : ∀ e, e ∈ t.service ↔ e ∈ s.service ∧ e.iter ≠ i := by
    intro e
    rw [hservice, Bag.eraseP_eq_filter h.nodup i, List.mem_filter]
    simp
  have hsame := listed_congr hiters
  have hlive : ∀ a j, j ≠ i → s.Live a j → t.Live a j := by
    rintro a j hj ⟨e, he, rfl, ha⟩
    exact ⟨e, (hmem e).mpr ⟨he, hj⟩, rfl, ha⟩
  have haddress : ∀ a, s.Live a i → a = address := by
    rintro a ⟨e, he, hiter, ha⟩
    have heq : e = e₀ := List.inj_on_of_nodup_map h.nodup he he₀ (hiter.trans hiter₀.symm)
    rw [← ha, heq, haddress₀]
  have hpushes : ∀ c', (t.pc c').push = (s.pc c').push := hpc ▸ pc_goto Pc.push hpush
  have hfounds : ∀ c', (t.pc c').found = (s.pc c').found := hpc ▸ pc_goto Pc.found hfound
  have hloopc : (t.pc c).loop = some (address, its) := by
    rw [hpc, pc_goto_self, hloop]
  have hloops : ∀ c', c' ≠ c → (t.pc c').loop = (s.pc c').loop := by
    intro c' hc'
    rw [hpc, pc_goto_of_ne hc']
  constructor
  · intro e he
    rw [hemplaced]
    exact h.fresh e ((hmem e).mp he).1
  · rw [hservice]
    exact h.nodup.sublist (List.eraseP_sublist.map Entry.iter)
  · intro a j hj
    rw [hsame] at hj
    rw [hemplaced]
    exact h.listed a j hj
  · intro e he
    simp only [hsame, hpushes]
    exact h.once e ((hmem e).mp he).1
  · intro a j hj
    rw [hsame] at hj
    rcases h.live a j hj with hl | ⟨c', its', hc', hnot⟩
    · by_cases hji : j = i
      · subst hji
        cases haddress a hl
        exact Or.inr ⟨c, its, hloopc, hout⟩
      · exact Or.inl (hlive a j hji hl)
    · by_cases hcc : c' = c
      · subst hcc
        cases hits.symm.trans hc'
        exact Or.inr ⟨c', its, hloopc, fun hin => hnot (List.mem_cons_of_mem i hin)⟩
      · exact Or.inr ⟨c', its', (hloops c' hcc).trans hc', hnot⟩
  · intro c' a j hc'
    rw [hpushes] at hc'
    obtain ⟨hl, hnot⟩ := h.push c' a j hc'
    refine ⟨hlive a j ?_ hl, fun a' => hsame a' ▸ hnot a'⟩
    rintro rfl
    exact hnot address hlisted
  · simp only [hpushes]
    exact h.pushOnce
  · intro c' a its' hc'
    by_cases hcc : c' = c
    · subst hcc
      cases hloopc.symm.trans hc'
      refine ⟨(List.nodup_cons.mp hnodup).2, fun j hj => ?_⟩
      obtain ⟨hin, hl⟩ := hall j (List.mem_cons_of_mem i hj)
      exact ⟨hsame address ▸ hin, hlive address j (fun heq => hout (heq ▸ hj)) hl⟩
    · rw [hloops c' hcc] at hc'
      obtain ⟨hnodup', hall'⟩ := h.loop c' a its' hc'
      refine ⟨hnodup', fun j hj => ?_⟩
      obtain ⟨hin, hl⟩ := hall' j hj
      refine ⟨hsame a ▸ hin, hlive a j ?_ hl⟩
      rintro rfl
      cases haddress a hl
      exact hcc (h.alone c' c address (found_of_loop hc') (found_of_loop hits))
  · intro c' its' e hc' he hi
    rw [hsame] at hi
    obtain ⟨he, hne⟩ := (hmem e).mp he
    by_cases hcc : c' = c
    · subst hcc
      cases hloopc.symm.trans hc'
      exact (List.mem_cons.mp (h.rest c' (i :: its) e hits he hi)).resolve_left hne
    · rw [hloops c' hcc] at hc'
      exact h.rest c' its' e hc' he hi
  · simp only [hfounds]
    exact h.alone

/-- `iters_.erase`, when the handler has come to the end. -/
theorem Inv.drop (h : s.Inv) (hits : (s.pc c).loop = some (address, []))
    (hpc : t.pc = (s.goto c pc).pc) (hpush : pc.push = (s.pc c).push) (hloop : pc.loop = none)
    (hfound : pc.found = none) (hservice : t.service = s.service)
    (hemplaced : t.emplaced = s.emplaced) (hself : t.listed address = [])
    (hother : ∀ a, a ≠ address → t.listed a = s.listed a) : t.Inv := by
  have hsubset : ∀ a j, j ∈ t.listed a → a ≠ address ∧ j ∈ s.listed a := by
    intro a j hj
    have ha : a ≠ address := by
      rintro rfl
      rw [hself] at hj
      cases hj
    exact ⟨ha, hother a ha ▸ hj⟩
  have hlives := live_congr hservice
  have hpushes : ∀ c', (t.pc c').push = (s.pc c').push := hpc ▸ pc_goto Pc.push hpush
  have hloops : ∀ c' x, (t.pc c').loop = some x → c' ≠ c ∧ (s.pc c').loop = some x := by
    intro c' x hc'
    rw [hpc] at hc'
    rcases eq_some_goto hc' with ⟨-, heq⟩ | hc'
    · rw [hloop] at heq
      cases heq
    · exact hc'
  have hfounds : ∀ c' a, (t.pc c').found = some a → (s.pc c').found = some a := by
    intro c' a hc'
    rw [hpc] at hc'
    rcases eq_some_goto hc' with ⟨-, heq⟩ | hc'
    · rw [hfound] at heq
      cases heq
    · exact hc'.2
  have hapart : ∀ c' a its', (t.pc c').loop = some (a, its') → a ≠ address := by
    intro c' a its' hc' ha
    obtain ⟨hcc, hc'⟩ := hloops c' _ hc'
    exact hcc (h.alone c' c address (ha ▸ found_of_loop hc') (found_of_loop hits))
  constructor
  · rw [hservice, hemplaced]
    exact h.fresh
  · rw [hservice]
    exact h.nodup
  · intro a j hj
    rw [hemplaced]
    exact h.listed a j (hsubset a j hj).2
  · rw [hservice]
    intro e he
    simp only [hpushes]
    by_cases ha : e.address = address
    · -- what was referenced there is gone by now
      rcases h.once e he with hone | ⟨-, hpending⟩
      · have hin : e.iter ∈ s.listed e.address := by
          rw [← List.count_pos_iff, hone]
          exact Nat.one_pos
        cases h.rest c [] e (ha.symm ▸ hits) he hin
      · rw [ha, hself, ← ha]
        exact Or.inr ⟨rfl, hpending⟩
    · rw [hother _ ha]
      exact h.once e he
  · intro a j hj
    obtain ⟨ha, hj⟩ := hsubset a j hj
    rw [hlives]
    refine (h.live a j hj).imp_right ?_
    rintro ⟨c', its', hc', hnot⟩
    have hne : c' ≠ c := by
      rintro rfl
      cases hits.symm.trans hc'
      exact ha rfl
    exact ⟨c', its', by rw [hpc, pc_goto_of_ne hne, hc'], hnot⟩
  · intro c' a j hc'
    rw [hpushes] at hc'
    obtain ⟨hl, hnot⟩ := h.push c' a j hc'
    exact ⟨(hlives a j).mpr hl, fun a' hj => hnot a' (hsubset a' j hj).2⟩
  · simp only [hpushes]
    exact h.pushOnce
  · intro c' a its' hc'
    simp only [hother a (hapart c' a its' hc'), hlives]
    exact h.loop c' a its' (hloops c' _ hc').2
  · intro c' its' e hc' he hi
    rw [hservice] at he
    exact h.rest c' its' e (hloops c' _ hc').2 he (hsubset _ _ hi).2
  · intro c₁ c₂ a h₁ h₂
    exact h.alone c₁ c₂ a (hfounds c₁ a h₁) (hfounds c₂ a h₂)

theorem Inv.stepMutex (h : s.Inv) {this : Conn → This} {l : CoMutex.Label Conn}
    (hstep : s.stepMutex this l = some t) : t.Inv := by
  obtain ⟨mutex, -, rfl⟩ := Option.map_eq_some_iff.mp hstep
  exact h.keep rfl rfl rfl (fun _ => rfl) (fun _ => rfl) fun _ => rfl

/-- Nobody else is in its loop when a handler uses one of the two containers. -/
theorem found_eq_none (hapart : s.Apart (.act c)) (huses : s.uses c = true) {c' : Conn} (hne : c' ≠ c) :
    (s.pc c').found = none := by
  have hcross := hapart c'
  rw [crosses, decide_eq_true hne, huses, Bool.true_and, Bool.true_and, Bool.or_eq_false_iff,
    Option.isSome_eq_false_iff, Option.isNone_iff_eq_none] at hcross
  exact hcross.1

theorem inv_act (h : s.Inv) {this : Conn → This} {freed : Nat → Bytes} (hidle : s.mutex.pc c = .idle)
    (hapart : s.Apart (.act c)) (hstep : s.act this freed c = some t) : t.Inv := by
  unfold act at hstep
  split at hstep
  · cases hstep
  · next after hpc =>
    have hafter : (s.goto c after).Inv := h.goto hpc rfl rfl rfl
    exact hafter.stepMutex hstep
  · next after hpc =>
    have hafter : (s.goto c after).Inv := h.goto hpc rfl rfl rfl
    exact hafter.stepMutex hstep
  · next name address hpc =>
    cases hstep
    exact h.emplace hpc rfl (multi_perm _ _ _) rfl rfl
  · next name address i hpc =>
    cases hstep
    refine h.pushBack (by rw [hpc]; rfl) (fun c' its hc' => ?_) rfl rfl (by rw [hpc]; rfl)
      (by rw [hpc]; rfl) rfl rfl ?_ ?_
    · have huses : s.uses c = true := by rw [uses, hpc, hidle]; rfl
      have hne : c' ≠ c := by
        rintro rfl
        rw [hpc] at hc'
        cases hc'
      cases (found_of_loop hc').symm.trans (found_eq_none hapart huses hne)
    · change (Function.update s.iters address _ address).getD [] = _
      rw [Function.update_self]
      rfl
    · intro a ha
      change (Function.update s.iters address _ a).getD [] = _
      rw [Function.update_of_ne ha]
      rfl
  · next name hpc =>
    cases hstep
    exact h.goto hpc rfl rfl rfl
  · next key hpc =>
    cases hstep
    have hgone : (s.goto c (.unlock .idle)).Inv := h.goto hpc rfl rfl rfl
    exact hgone.keep rfl rfl rfl (fun _ => rfl) (fun _ => rfl) fun _ => rfl
  · next address hpc =>
    split at hstep
    · cases hstep
      exact h.goto hpc rfl rfl rfl
    · cases hstep
      refine h.find hpc fun c' hc' => ?_
      have huses : s.uses c = true := by rw [uses, hpc, hidle]; rfl
      have hne : c' ≠ c := by
        rintro rfl
        rw [hpc] at hc'
        cases hc'
      cases hc'.symm.trans (found_eq_none hapart huses hne)
  · next address hpc =>
    obtain ⟨its, hits, rfl⟩ := Option.map_eq_some_iff.mp hstep
    exact h.copy hpc hits
  · next address hpc =>
    cases hstep
    refine h.drop (by rw [hpc]; rfl) rfl (by rw [hpc]; rfl) rfl rfl rfl rfl ?_ ?_
    · change (Function.update s.iters address _ address).getD [] = _
      rw [Function.update_self]
      rfl
    · intro a ha
      change (Function.update s.iters address _ a).getD [] = _
      rw [Function.update_of_ne ha]
      rfl
  · next address i its hpc =>
    split at hstep
    · cases hstep
      exact h.erase (by rw [hpc]; rfl) rfl (by rw [hpc]; rfl) rfl (by rw [hpc]; rfl) rfl rfl rfl
    · cases hstep
  · next key after hpc =>
    cases hstep
    split
    · exact h.goto hpc rfl rfl rfl
    · exact h.goto hpc rfl rfl rfl
  · next key after hpc =>
    cases hstep
    exact h.goto hpc rfl rfl rfl
  · next after hpc =>
    cases hstep
    exact h.goto hpc rfl rfl rfl
  · next session sessions after hpc =>
    cases hstep
    exact h.goto hpc rfl rfl rfl

theorem inv_step (h : s.Inv) {this : Conn → This} {freed : Nat → Bytes} {l : Label Conn}
    (hapart : s.Apart l) (hstep : s.step this freed l = some t) : t.Inv := by
  cases l with
  | call c handler =>
      simp only [step] at hstep
      split at hstep
      · next hidle =>
        cases hstep
        refine h.goto hidle.1 ?_ ?_ ?_
        · cases handler <;> rfl
        · cases handler <;> rfl
        · cases handler <;> rfl
      · cases hstep
  | act c =>
      simp only [step] at hstep
      split at hstep
      · next hidle => exact inv_act h hidle hapart hstep
      · cases hstep
  | advance c => exact h.stepMutex hstep
  | resume c => exact h.stepMutex hstep

/-- **The index agrees with the services** whenever no handler is running, for any number of
connections and in every order of their handlers' steps, as long as nobody uses `service_` or `iters_`
while another handler works through an address. -/
theorem indexed_of_apart (this : Conn → This) (freed : Nat → Bytes) (s : State Conn)
    (hreach : Reachable (Guarded Apart (Step this freed)) New s) (hquiet : s.Quiet) : s.Indexed := by
  have hinv : s.Inv := by
    refine hreach.invariant (fun _ => inv_of_new) ?_
    rintro s l t h ⟨hapart, hstep⟩
    exact inv_step h hapart hstep
  exact hinv.indexed hquiet

end Steps

section Examples

def newRegistry : State Bool :=
  { service := [], iters := fun _ => none, subscribe := [], emplaced := 0,
    mutex := ⟨false, false, 0, [], [], fun _ => .idle, fun _ => 0⟩, pc := fun _ => .idle }

theorem new_newRegistry : New newRegistry :=
  ⟨rfl, fun _ => rfl, rfl, ⟨rfl, rfl, rfl, rfl, fun _ => rfl, fun _ => rfl⟩, fun _ => rfl⟩

def fiberOf (c : Bool) : This := .fiber (if c then 2 else 1)

/-- What freed memory reads as. -/
def zeroed (_ : Nat) : Bytes := []

/-- A call of `lock` for a free mutex. -/
def locks (c : Bool) : List (Label Bool) := .act c :: List.replicate 2 (.advance c)

def unlocks (c : Bool) : List (Label Bool) := .act c :: List.replicate 6 (.advance c)

/-- A service is registered, and nobody has subscribed. -/
def registers (c : Bool) (name address : Bytes) : List (Label Bool) :=
  [.call c (.register name address)] ++ locks c ++ [.act c, .act c] ++ unlocks c ++ locks c ++
    [.act c] ++ unlocks c

/-- A provider with one service unregisters, up to the end of `publish`: the `lock` there returns at
once, as the fiber has the mutex, and the `unlock` gives it up. -/
def beginsToUnregister (c : Bool) (address : Bytes) : List (Label Bool) :=
  [.call c (.unregister address)] ++ locks c ++ [.act c, .act c, .act c, .act c, .act c] ++ unlocks c

/-- `iters_.erase`, and the end of the handler. -/
def endsToUnregister (c : Bool) : List (Label Bool) := .act c :: unlocks c

/-- A provider goes, and registers another service over a new connection after that. -/
def oneAfterTheOther : List (Label Bool) :=
  registers false [1] [9] ++ beginsToUnregister false [9] ++ endsToUnregister false ++
    registers true [2] [9]

theorem indexed_of_apart_oneAfterTheOther :
    ∃ s : State Bool, Reachable (Guarded Apart (Step fiberOf zeroed)) New s ∧
      s.service = [⟨1, [2], [9]⟩] ∧ s.listed [9] = [1] ∧ s.Indexed := by
  obtain ⟨s, hrun, hvalue⟩ :
      ∃ s, oneAfterTheOther.foldlM (guarded Apart (step fiberOf zeroed)) newRegistry = some s ∧
        ((s.service, s.listed [9]), [s.pc false, s.pc true], [s.mutex.pc false, s.mutex.pc true]) =
          (([⟨1, [2], [9]⟩], [1]), [.idle, .idle], [.idle, .idle]) :=
    Option.map_eq_some_iff.mp (by decide)
  have hreach : Reachable (Guarded Apart (Step fiberOf zeroed)) New s :=
    .of_run guarded_step (.start new_newRegistry) hrun
  simp only [Prod.mk.injEq, List.cons.injEq, and_true] at hvalue
  obtain ⟨⟨hservice, hlisted⟩, ⟨hfirst, hsecond⟩, hmutex⟩ := hvalue
  have hquiet : s.Quiet := Bool.forall_bool.mpr ⟨⟨hfirst, hmutex.1⟩, hsecond, hmutex.2⟩
  exact ⟨s, hreach, hservice, hlisted, indexed_of_apart fiberOf zeroed s hreach hquiet⟩

/-- The provider is back before the handler of its old connection is at its end. -/
def inBetween : List (Label Bool) :=
  registers false [1] [9] ++ beginsToUnregister false [9] ++ registers true [2] [9] ++
    endsToUnregister false

/-- The new service is not referenced, so that no connection's end will remove it. -/
theorem not_indexed_inBetween :
    ∃ s : State Bool, Reachable (Step fiberOf zeroed) New s ∧ s.Quiet ∧
      s.service = [⟨1, [2], [9]⟩] ∧ s.listed [9] = [] ∧ ¬ s.Indexed := by
  obtain ⟨s, hrun, hvalue⟩ :
      ∃ s, inBetween.foldlM (step fiberOf zeroed) newRegistry = some s ∧
        ((s.service, s.listed [9]), [s.pc false, s.pc true], [s.mutex.pc false, s.mutex.pc true]) =
          (([⟨1, [2], [9]⟩], []), [.idle, .idle], [.idle, .idle]) :=
    Option.map_eq_some_iff.mp (by decide)
  have hreach : Reachable (Step fiberOf zeroed) New s :=
    .of_run (fun _ _ _ hstep => hstep) (.start new_newRegistry) hrun
  simp only [Prod.mk.injEq, List.cons.injEq, and_true] at hvalue
  obtain ⟨⟨hservice, hlisted⟩, ⟨hfirst, hsecond⟩, hmutex⟩ := hvalue
  have hquiet : s.Quiet := Bool.forall_bool.mpr ⟨⟨hfirst, hmutex.1⟩, hsecond, hmutex.2⟩
  refine ⟨s, hreach, hquiet, hservice, hlisted, fun hindexed => ?_⟩
  have hone := hindexed.once ⟨1, [2], [9]⟩ (hservice ▸ List.mem_singleton.mpr rfl)
  rw [hlisted] at hone
  cases hone

end Examples

end State

end AsyncRPC.RegistryIndex
