import AsyncRPC.TimerManager
import Mathlib.Data.List.Nodup
import Mathlib.Data.Prod.Lex

/-!
# Timers stay in order

Every change of a deadline takes its timer out of the set first and puts it back after, so in
between some timers are in hand: armed, and in the set no longer. The invariant `Holds` is about the
set and those in hand together. Each small step moves one timer between the two, or writes a field
of one in hand, and every public call is a few small steps that end with empty hands.
-/

namespace AsyncRPC

open OrderedSet Transition Word

namespace TimerManager

variable {m : TimerManager} {hand : List Nat} {id : Nat}

/-! ### The order -/

def key (m : TimerManager) (id : Nat) : ℕ ×ₗ ℕ := toLex ((m.objects id).next, (m.objects id).ptr)

/-- The comparator compares by deadline and then by address. -/
theorem less_iff (lhs rhs : Timer) :
    lhs.less rhs = true ↔ toLex (lhs.next, lhs.ptr) < toLex (rhs.next, rhs.ptr) := by
  unfold Timer.less
  rw [Prod.Lex.toLex_lt_toLex]
  split
  · next hlt => exact iff_of_true rfl (Or.inl hlt)
  · next hge =>
    split
    · next hlt =>
      refine iff_of_false Bool.false_ne_true ?_
      rintro (h | ⟨h, -⟩)
      · exact hge h
      · exact absurd h hlt.ne'
    · next hle =>
      have heq : lhs.next = rhs.next := by omega
      rw [decide_eq_true_iff]
      constructor
      · intro h
        exact Or.inr ⟨heq, h⟩
      · rintro (h | ⟨-, h⟩)
        · exact absurd h hge
        · exact h

theorem orders_less (m : TimerManager) : Orders m.less m.key := fun _ _ => less_iff _ _

/-! ### The small steps -/

/-- The timers in the set and those in hand are the ones that have a callback. -/
structure Holds (m : TimerManager) (hand : List Nat) : Prop where
  sorted : Sorted m.key m.timers
  not_rekeyed : m.rekeyed = []
  nodup : hand.Nodup
  apart : ∀ id ∈ hand, id ∉ m.timers
  armed : ∀ id, (m.objects id).callback.isSome ↔ id ∈ m.timers ∨ id ∈ hand
  ptr_inj : ∀ a b, (m.objects a).callback.isSome → (m.objects b).callback.isSome →
    (m.objects a).ptr = (m.objects b).ptr → a = b
  unmade : ∀ id, m.made ≤ id → (m.objects id).callback = none

@[simp]
theorem setObject_self (timer : Timer) : (m.setObject id timer).objects id = timer := by
  unfold setObject
  exact Function.update_self _ _ _

@[simp]
theorem setObject_of_ne (timer : Timer) {other : Nat} (h : other ≠ id) :
    (m.setObject id timer).objects other = m.objects other := by
  unfold setObject
  exact Function.update_of_ne h _ _

theorem holds_init : Holds init [] where
  sorted := List.Pairwise.nil
  not_rekeyed := rfl
  nodup := List.nodup_nil
  apart := fun _ h => absurd h List.not_mem_nil
  armed := fun id => by simp [init, Timer.ofNext]
  ptr_inj := fun a b h => by simp [init, Timer.ofNext] at h
  unmade := fun _ _ => rfl

theorem Holds.lt_made (h : Holds m hand) (hid : (m.objects id).callback.isSome) : id < m.made := by
  by_contra hge
  rw [h.unmade id (Nat.le_of_not_lt hge)] at hid
  cases hid

/-- What a write leaves of an object as far as the invariant goes. -/
theorem Holds.setObject (h : Holds m hand) (id : Nat) {timer : Timer}
    (hcallback : timer.callback = (m.objects id).callback) (hptr : timer.ptr = (m.objects id).ptr)
    (hnext : id ∈ m.timers → timer.next = (m.objects id).next) :
    Holds (m.setObject id timer) hand := by
  have hcb : ∀ a, ((m.setObject id timer).objects a).callback = (m.objects a).callback := by
    intro a
    by_cases ha : a = id
    · rw [ha, setObject_self, hcallback]
    · rw [setObject_of_ne timer ha]
  have hpt : ∀ a, ((m.setObject id timer).objects a).ptr = (m.objects a).ptr := by
    intro a
    by_cases ha : a = id
    · rw [ha, setObject_self, hptr]
    · rw [setObject_of_ne timer ha]
  refine
    { sorted := h.sorted.congr ?_
      not_rekeyed := h.not_rekeyed
      nodup := h.nodup
      apart := h.apart
      armed := fun a => by rw [hcb]; exact h.armed a
      ptr_inj := fun a b => by rw [hcb, hcb, hpt, hpt]; exact h.ptr_inj a b
      unmade := fun a ha => by rw [hcb]; exact h.unmade a ha }
  intro a ha
  unfold key
  rw [hpt]
  by_cases heq : a = id
  · rw [heq, setObject_self, hnext (heq ▸ ha)]
  · rw [setObject_of_ne timer heq]

theorem Holds.setMs (h : Holds m hand) (id ms : Nat) : Holds (m.setMs id ms) hand :=
  h.setObject id rfl rfl fun _ => rfl

/-- The deadline of a timer in hand may change. -/
theorem Holds.setNext (h : Holds m hand) (hid : id ∈ hand) (next : Nat) :
    Holds (m.setNext id next) hand := by
  have hout := h.apart id hid
  have hset : Holds (m.setObject id { m.objects id with next := next }) hand :=
    h.setObject id rfl rfl fun hin => absurd hin hout
  unfold TimerManager.setNext
  rw [if_neg hout]
  exact hset

/-- Found in the set and taken in hand. -/
theorem Holds.erase (h : Holds m hand) (hid : id ∈ m.timers) :
    ∃ it, m.find id = some it ∧ Holds (m.erase it) (id :: hand) := by
  obtain ⟨it, hfind, hat⟩ := h.sorted.find m.orders_less hid
  have hmem : ∀ a, a ∈ m.timers.eraseIdx it ↔ a ∈ m.timers ∧ a ≠ id :=
    fun _ => mem_eraseIdx h.sorted.nodup hat
  refine ⟨it, hfind,
    { sorted := h.sorted.sublist (List.eraseIdx_sublist _ _)
      not_rekeyed := h.not_rekeyed
      nodup := List.nodup_cons.mpr ⟨fun hin => h.apart id hin hid, h.nodup⟩
      apart := ?_
      armed := ?_
      ptr_inj := h.ptr_inj
      unmade := h.unmade }⟩
  · intro a ha hin
    obtain ⟨hin, hne⟩ := (hmem a).mp hin
    rcases List.mem_cons.mp ha with heq | hhand
    · exact hne heq
    · exact h.apart a hhand hin
  · intro a
    change _ ↔ a ∈ m.timers.eraseIdx it ∨ _
    rw [hmem, List.mem_cons]
    refine (h.armed a).trans ?_
    by_cases heq : a = id
    · simp [heq, hid]
    · simp [heq]

/-- Put back from hand into the set. -/
theorem Holds.insert (h : Holds m (id :: hand)) : Holds (m.insert id) hand := by
  obtain ⟨hnotin, hnodup⟩ := List.nodup_cons.mp h.nodup
  have hidArmed : (m.objects id).callback.isSome := (h.armed id).mpr (Or.inr List.mem_cons_self)
  have hfresh : ∀ a ∈ m.timers, m.key a ≠ m.key id := by
    intro a ha heq
    have hptr : (m.objects a).ptr = (m.objects id).ptr := (Prod.ext_iff.mp (toLex.injective heq)).2
    have haid := h.ptr_inj a id ((h.armed a).mpr (Or.inl ha)) hidArmed hptr
    exact h.apart id List.mem_cons_self (haid ▸ ha)
  have hmem : ∀ a, a ∈ OrderedSet.insert m.less id m.timers ↔ a = id ∨ a ∈ m.timers :=
    fun _ => mem_insert m.orders_less hfresh
  refine
    { sorted := h.sorted.insert m.orders_less id
      not_rekeyed := h.not_rekeyed
      nodup := hnodup
      apart := ?_
      armed := ?_
      ptr_inj := h.ptr_inj
      unmade := h.unmade }
  · intro a ha hin
    rcases (hmem a).mp hin with heq | hin
    · exact hnotin (heq ▸ ha)
    · exact h.apart a (List.mem_cons_of_mem id ha) hin
  · intro a
    change (m.objects a).callback.isSome ↔ a ∈ OrderedSet.insert m.less id m.timers ∨ _
    rw [hmem, h.armed a, List.mem_cons]
    exact or_left_comm.trans or_assoc.symm

/-- Let go of. -/
theorem Holds.dropCallback (h : Holds m (id :: hand)) : Holds (m.dropCallback id) hand := by
  obtain ⟨hnotin, hnodup⟩ := List.nodup_cons.mp h.nodup
  have hout := h.apart id List.mem_cons_self
  have hother : ∀ {a}, ((m.dropCallback id).objects a).callback.isSome → a ≠ id ∧
      (m.dropCallback id).objects a = m.objects a := by
    intro a ha
    have hne : a ≠ id := by
      rintro rfl
      unfold TimerManager.dropCallback at ha
      rw [setObject_self] at ha
      cases ha
    exact ⟨hne, setObject_of_ne _ hne⟩
  refine
    { sorted := h.sorted.congr ?_
      not_rekeyed := h.not_rekeyed
      nodup := hnodup
      apart := fun a ha => h.apart a (List.mem_cons_of_mem id ha)
      armed := ?_
      ptr_inj := ?_
      unmade := ?_ }
  · intro a ha
    have hne : a ≠ id := fun heq => hout (heq ▸ ha)
    unfold key TimerManager.dropCallback
    rw [setObject_of_ne _ hne]
  · intro a
    change _ ↔ a ∈ m.timers ∨ _
    constructor
    · intro ha
      obtain ⟨hne, heq⟩ := hother ha
      rw [heq] at ha
      rcases (h.armed a).mp ha with hin | hhand
      · exact Or.inl hin
      · exact Or.inr ((List.mem_cons.mp hhand).resolve_left hne)
    · intro ha
      have hne : a ≠ id := by
        rintro rfl
        rcases ha with hin | hhand
        · exact hout hin
        · exact hnotin hhand
      unfold TimerManager.dropCallback
      rw [setObject_of_ne _ hne]
      exact (h.armed a).mpr (ha.imp_right (List.mem_cons_of_mem id))
  · intro a b ha hb
    obtain ⟨-, haEq⟩ := hother ha
    obtain ⟨-, hbEq⟩ := hother hb
    rw [haEq] at ha ⊢
    rw [hbEq] at hb ⊢
    exact h.ptr_inj a b ha hb
  · intro a ha
    by_cases hne : a = id
    · rw [hne]
      unfold TimerManager.dropCallback
      rw [setObject_self]
    · unfold TimerManager.dropCallback
      rw [setObject_of_ne _ hne]
      exact h.unmade a ha

/-! ### What stays of a timer -/

/-- Of the timers made before, none changes its kind and none without a callback gets one. -/
structure Follows (m m' : TimerManager) : Prop where
  made_le : m.made ≤ m'.made
  recurring_eq : ∀ id < m.made, (m'.objects id).recurring = (m.objects id).recurring
  callback_none : ∀ id < m.made, (m.objects id).callback = none → (m'.objects id).callback = none

theorem Follows.refl (m : TimerManager) : Follows m m :=
  ⟨Nat.le_refl _, fun _ _ => rfl, fun _ _ h => h⟩

theorem Follows.trans {m₁ m₂ m₃ : TimerManager} (h₁ : Follows m₁ m₂) (h₂ : Follows m₂ m₃) :
    Follows m₁ m₃ where
  made_le := h₁.made_le.trans h₂.made_le
  recurring_eq := fun id hid =>
    (h₂.recurring_eq id (hid.trans_le h₁.made_le)).trans (h₁.recurring_eq id hid)
  callback_none := fun id hid h =>
    h₂.callback_none id (hid.trans_le h₁.made_le) (h₁.callback_none id hid h)

/-- The set and the order of it do not matter. -/
theorem Follows.keep {m₁ m₂ m₃ : TimerManager} (h : Follows m₁ m₂) (hobjects : m₃.objects = m₂.objects)
    (hmade : m₃.made = m₂.made) : Follows m₁ m₃ where
  made_le := hmade ▸ h.made_le
  recurring_eq := hobjects ▸ h.recurring_eq
  callback_none := hobjects ▸ h.callback_none

theorem follows_setObject {timer : Timer} (hrecurring : timer.recurring = (m.objects id).recurring)
    (hcallback : (m.objects id).callback = none → timer.callback = none) :
    Follows m (m.setObject id timer) := by
  refine ⟨Nat.le_refl _, fun a _ => ?_, fun a _ ha => ?_⟩
  · by_cases heq : a = id
    · rw [heq, setObject_self, hrecurring]
    · rw [setObject_of_ne timer heq]
  · by_cases heq : a = id
    · rw [heq, setObject_self]
      exact hcallback (heq ▸ ha)
    · rw [setObject_of_ne timer heq]
      exact ha

theorem follows_setMs (m : TimerManager) (id ms : Nat) : Follows m (m.setMs id ms) :=
  follows_setObject rfl fun h => h

theorem follows_dropCallback (m : TimerManager) (id : Nat) : Follows m (m.dropCallback id) :=
  follows_setObject rfl fun _ => rfl

/-- A new deadline, and the timer back in the set. -/
theorem follows_rearm (m : TimerManager) (id next : Nat) :
    Follows m ((m.setNext id next).insert id) := by
  have hset : Follows m (m.setObject id { m.objects id with next := next }) :=
    follows_setObject rfl fun h => h
  exact hset.keep rfl rfl

theorem follows_erase (m : TimerManager) (it : Nat) : Follows m (m.erase it) :=
  (Follows.refl m).keep rfl rfl

theorem dropCallback_callback : ((m.dropCallback id).objects id).callback = none := by
  unfold dropCallback
  rw [setObject_self]

/-! ### The calls -/

theorem Holds.mem_timers (h : Holds m []) (hid : (m.objects id).callback.isSome) : id ∈ m.timers :=
  ((h.armed id).mp hid).resolve_right List.not_mem_nil

theorem Holds.addTimer (h : Holds m []) {ptr now ms : Nat} {callback : Option Callback}
    {recurring : Bool} (hptr : ∀ id ∈ m.timers, (m.objects id).ptr ≠ ptr)
    (hcallback : callback.isSome) :
    Holds (m.addTimer ptr now ms callback recurring) [] ∧
      Follows m (m.addTimer ptr now ms callback recurring) := by
  unfold TimerManager.addTimer
  set timer : Timer := Timer.mk ms (addSize now ms) callback recurring ptr with htimer
  have hptrEq : timer.ptr = ptr := rfl
  have hcallbackEq : timer.callback = callback := rfl
  set made : TimerManager := { m.setObject m.made timer with made := m.made + 1 } with hmade
  have hself : made.objects m.made = timer := setObject_self timer
  have hother : ∀ {a}, a ≠ m.made → made.objects a = m.objects a := fun ha => setObject_of_ne timer ha
  have hout : m.made ∉ m.timers := by
    intro hin
    exact absurd (h.lt_made ((h.armed _).mpr (Or.inl hin))) (lt_irrefl _)
  have hptrs : ∀ a, (m.objects a).callback.isSome → (m.objects a).ptr ≠ ptr :=
    fun a ha => hptr a (h.mem_timers ha)
  have hinHand : Holds made [m.made] := by
    refine
      { sorted := h.sorted.congr ?_
        not_rekeyed := h.not_rekeyed
        nodup := List.nodup_singleton _
        apart := ?_
        armed := ?_
        ptr_inj := ?_
        unmade := ?_ }
    · intro a ha
      unfold key
      rw [hother fun heq => hout (heq ▸ ha)]
    · intro a ha
      rw [List.mem_singleton.mp ha]
      exact hout
    · intro a
      by_cases ha : a = m.made
      · rw [ha, hself, hcallbackEq]
        exact iff_of_true hcallback (Or.inr (List.mem_singleton.mpr rfl))
      · rw [hother ha, h.armed a]
        simp only [List.not_mem_nil, or_false, List.mem_singleton, ha]
        exact Iff.rfl
    · intro a b
      by_cases ha : a = m.made
      · by_cases hb : b = m.made
        · exact fun _ _ _ => ha.trans hb.symm
        · rw [ha, hself, hother hb, hptrEq]
          exact fun _ hbArmed heq => absurd heq.symm (hptrs b hbArmed)
      · by_cases hb : b = m.made
        · rw [hb, hself, hother ha, hptrEq]
          exact fun haArmed _ heq => absurd heq (hptrs a haArmed)
        · rw [hother ha, hother hb]
          exact h.ptr_inj a b
    · intro a ha
      have hgt : m.made < a := ha
      rw [hother hgt.ne']
      exact h.unmade a hgt.le
  refine ⟨hinHand.insert, Nat.le_succ _, fun a ha => ?_, fun a ha hnone => ?_⟩
  · change (made.objects a).recurring = _
    rw [hother ha.ne]
  · change (made.objects a).callback = none
    rw [hother ha.ne]
    exact hnone

/-- The search does not see the callback, so it finds the timer that has just lost its own. -/
theorem Holds.cancel (h : Holds m []) (id : Nat) :
    ∃ answer m', m.cancel id = .ok (answer, m') ∧ Holds m' [] ∧ Follows m m' ∧
      (answer = true → (m'.objects id).callback = none ∧ (m.objects id).callback.isSome) := by
  unfold TimerManager.cancel
  by_cases hid : (m.objects id).callback.isSome
  · obtain ⟨it, hfind, herase⟩ := h.erase (h.mem_timers hid)
    have hless : (m.dropCallback id).less = m.less := by
      have hobject : ∀ (a : Nat) (timer : Timer),
          ((m.dropCallback id).objects a).less timer = (m.objects a).less timer ∧
          timer.less ((m.dropCallback id).objects a) = timer.less (m.objects a) := by
        intro a timer
        by_cases heq : a = id
        · rw [heq, TimerManager.dropCallback, setObject_self]
          exact ⟨rfl, rfl⟩
        · rw [TimerManager.dropCallback, setObject_of_ne _ heq]
          exact ⟨rfl, rfl⟩
      funext a b
      exact (hobject a _).1.trans (hobject b _).2
    have hfind' : (m.dropCallback id).find id = some it := by
      rw [← hfind, TimerManager.find, TimerManager.find, hless]
      rfl
    refine ⟨true, (m.dropCallback id).erase it, ?_, herase.dropCallback,
      (follows_dropCallback m id).trans (follows_erase _ it), fun _ => ⟨dropCallback_callback, hid⟩⟩
    rw [if_pos hid]
    simp only [hfind']
  · rw [if_neg hid]
    exact ⟨false, m, rfl, h, Follows.refl m, fun hfalse => absurd hfalse Bool.false_ne_true⟩

theorem Holds.refresh (h : Holds m []) (id now : Nat) :
    Holds (m.refresh id now).2 [] ∧ Follows m (m.refresh id now).2 := by
  unfold TimerManager.refresh
  split
  · exact ⟨h, Follows.refl m⟩
  · next hid =>
    have harmed : (m.objects id).callback.isSome := Option.isSome_iff_ne_none.mpr (by simpa using hid)
    obtain ⟨it, hfind, herase⟩ := h.erase (h.mem_timers harmed)
    simp only [hfind]
    exact ⟨(herase.setNext List.mem_cons_self _).insert,
      (follows_erase m it).trans (follows_rearm _ id _)⟩

theorem Holds.reset (h : Holds m []) (id ms : Nat) (fromNow : Bool) (now : Nat) :
    Holds (m.reset id ms fromNow now).2 [] ∧ Follows m (m.reset id ms fromNow now).2 := by
  unfold TimerManager.reset
  split
  · exact ⟨h, Follows.refl m⟩
  · split
    · exact ⟨h, Follows.refl m⟩
    · next hid =>
      have harmed : (m.objects id).callback.isSome :=
        Option.isSome_iff_ne_none.mpr (by simpa using hid)
      obtain ⟨it, hfind, herase⟩ := h.erase (h.mem_timers harmed)
      simp only [hfind]
      refine ⟨((herase.setMs id ms).setNext List.mem_cons_self _).insert, ?_⟩
      exact ((follows_erase m it).trans (follows_setMs _ id ms)).trans (follows_rearm _ id _)

section Others

variable {other : Nat}

theorem addTimer_of_ne (h : other ≠ m.made) (ptr now ms : Nat) (callback : Option Callback)
    (recurring : Bool) :
    (m.addTimer ptr now ms callback recurring).objects other = m.objects other :=
  setObject_of_ne _ h

theorem cancel_of_ne (h : other ≠ id) {answer : Bool} {m' : TimerManager}
    (hcancel : m.cancel id = .ok (answer, m')) : m'.objects other = m.objects other := by
  unfold cancel at hcancel
  split at hcancel
  · dsimp only at hcancel
    split at hcancel
    · cases hcancel
    · cases hcancel
      exact setObject_of_ne _ h
  · cases hcancel
    rfl

theorem refresh_of_ne (h : other ≠ id) (now : Nat) :
    (m.refresh id now).2.objects other = m.objects other := by
  unfold refresh
  split
  · rfl
  · split
    · rfl
    · exact setObject_of_ne _ h

theorem reset_of_ne (h : other ≠ id) (ms : Nat) (fromNow : Bool) (now : Nat) :
    (m.reset id ms fromNow now).2.objects other = m.objects other := by
  unfold reset
  split
  · rfl
  · split
    · rfl
    · refine (setObject_of_ne _ h).trans ((setObject_of_ne _ h).trans ?_)
      split
      · rfl
      · rfl

end Others

section Expiry

variable {expired : List Nat} {cb : List (Option Callback)} {curr : Nat}

theorem Holds.settle (h : Holds m (id :: hand)) (curr : Nat) : Holds (m.settle curr id) hand := by
  unfold TimerManager.settle
  split
  · exact (h.setNext List.mem_cons_self _).insert
  · exact h.dropCallback

theorem follows_settle (m : TimerManager) (curr id : Nat) : Follows m (m.settle curr id) := by
  unfold settle
  split
  · exact follows_rearm m id _
  · exact follows_dropCallback m id

theorem settle_of_ne {other : Nat} (h : other ≠ id) :
    (m.settle curr id).objects other = m.objects other := by
  unfold settle
  split
  · exact setObject_of_ne _ h
  · exact setObject_of_ne _ h

/-- The loop: the expired timers leave the hand one by one, those that do not recur for good. -/
theorem Holds.settleAll (h : Holds m expired) (curr : Nat) (cb : List (Option Callback)) :
    Holds (TimerManager.settleAll curr expired cb m).2 [] ∧
      Follows m (TimerManager.settleAll curr expired cb m).2 ∧
      ∀ id ∈ expired, (m.objects id).recurring = false →
        ((TimerManager.settleAll curr expired cb m).2.objects id).callback = none := by
  induction expired generalizing m cb with
  | nil => exact ⟨h, Follows.refl m, fun id hid => absurd hid List.not_mem_nil⟩
  | cons head rest ih =>
      obtain ⟨hholds, hfollows, hspent⟩ := ih (h.settle curr) (cb ++ [(m.objects head).callback])
      have hfirst := follows_settle m curr head
      refine ⟨hholds, hfirst.trans hfollows, fun id hid honce => ?_⟩
      have hmade : id < m.made := h.lt_made ((h.armed id).mpr (Or.inr hid))
      rcases List.mem_cons.mp hid with rfl | hrest
      · refine hfollows.callback_none id (hmade.trans_le hfirst.made_le) ?_
        unfold TimerManager.settle
        rw [if_neg (by rw [honce]; exact Bool.false_ne_true)]
        exact dropCallback_callback
      · exact hspent id hrest ((hfirst.recurring_eq id hmade).trans honce)

/-- The loop leaves a timer that recurs as it is, but for its deadline. -/
theorem settleAll_recurring (m : TimerManager) (expired : List Nat) (cb : List (Option Callback))
    (hrecurring : (m.objects id).recurring = true) :
    (settleAll curr expired cb m).2.objects id = m.objects id ∨
      (settleAll curr expired cb m).2.objects id
        = { m.objects id with next := addSize curr (m.objects id).ms } := by
  induction expired generalizing m cb with
  | nil => exact Or.inl rfl
  | cons head rest ih =>
      have hrest := ih (m.settle curr head) (cb ++ [(m.objects head).callback])
      by_cases heq : id = head
      · have hsettle : (m.settle curr head).objects id
            = { m.objects id with next := addSize curr (m.objects id).ms } := by
          rw [← heq]
          unfold settle
          rw [if_pos hrecurring]
          exact setObject_self _
        rw [hsettle] at hrest
        exact Or.inr (or_self_iff.mp (hrest hrecurring))
      · rw [settle_of_ne heq] at hrest
        exact hrest hrecurring

/-- The callbacks collected are those of the expired timers. -/
theorem settleAll_fst (hnodup : expired.Nodup) :
    (settleAll curr expired cb m).1 = cb ++ expired.map fun id => (m.objects id).callback := by
  induction expired generalizing m cb with
  | nil => exact (List.append_nil cb).symm
  | cons head rest ih =>
      obtain ⟨hnotin, hrest⟩ := List.nodup_cons.mp hnodup
      have hsame : (rest.map fun id => ((m.settle curr head).objects id).callback)
          = rest.map fun id => (m.objects id).callback := by
        refine List.map_congr_left fun id hid => ?_
        have hne : id ≠ head := fun heq => hnotin (heq ▸ hid)
        rw [settle_of_ne hne]
      rw [settleAll, ih hrest, hsame, List.append_assoc]
      rfl

/-- The expired timers are taken in hand together. -/
theorem Holds.expire (h : Holds m []) (k : Nat) :
    Holds { m with timers := m.timers.drop k } (m.timers.take k) := by
  have hsplit : ∀ id, id ∈ m.timers ↔ id ∈ m.timers.drop k ∨ id ∈ m.timers.take k := by
    intro id
    rw [or_comm, ← List.mem_append, List.take_append_drop]
  have hnodup := h.sorted.nodup
  rw [← List.take_append_drop k m.timers] at hnodup
  exact
    { sorted := h.sorted.sublist (List.drop_sublist k _)
      not_rekeyed := h.not_rekeyed
      nodup := (List.nodup_append.mp hnodup).1
      apart := fun id hid hin => (List.nodup_append.mp hnodup).2.2 id hid id hin rfl
      armed := fun id => by
        rw [← hsplit, h.armed id]
        exact or_iff_left List.not_mem_nil
      ptr_inj := h.ptr_inj
      unmade := h.unmade }

theorem take_length_expired (m : TimerManager) (curr ptr : Nat) :
    m.timers.take (m.expired curr ptr).length = m.expired curr ptr :=
  (List.prefix_iff_eq_take.mp (List.take_prefix _ _)).symm

/-- One pass collects the callbacks of the expired timers, and the one-shot ones among them are spent. -/
theorem Holds.listOverTimeCallback (h : Holds m []) (curr ptr : Nat) (cb : List (Option Callback)) :
    Holds (m.listOverTimeCallback curr ptr cb).2 [] ∧
      Follows m (m.listOverTimeCallback curr ptr cb).2 ∧
      (m.listOverTimeCallback curr ptr cb).1
        = cb ++ (m.expired curr ptr).map (fun id => (m.objects id).callback) ∧
      ∀ id ∈ m.expired curr ptr, (m.objects id).recurring = false →
        ((m.listOverTimeCallback curr ptr cb).2.objects id).callback = none := by
  unfold TimerManager.listOverTimeCallback
  split
  · next hempty =>
    have hexpired : m.expired curr ptr = [] := by
      unfold expired
      rw [List.isEmpty_iff.mp hempty, List.take_nil]
    rw [hexpired]
    exact ⟨h, Follows.refl m, (List.append_nil cb).symm, fun id hid => absurd hid List.not_mem_nil⟩
  · have hhand := h.expire (m.expired curr ptr).length
    rw [take_length_expired] at hhand
    obtain ⟨hholds, hfollows, hspent⟩ := hhand.settleAll curr cb
    have hdrop : Follows m { m with timers := m.timers.drop (m.expired curr ptr).length } :=
      (Follows.refl m).keep rfl rfl
    exact ⟨hholds, hdrop.trans hfollows, settleAll_fst hhand.nodup, hspent⟩

theorem listOverTimeCallback_recurring (m : TimerManager) (curr ptr : Nat)
    (cb : List (Option Callback)) (hrecurring : (m.objects id).recurring = true) :
    (m.listOverTimeCallback curr ptr cb).2.objects id = m.objects id ∨
      (m.listOverTimeCallback curr ptr cb).2.objects id
        = { m.objects id with next := addSize curr (m.objects id).ms } := by
  unfold listOverTimeCallback
  split
  · exact Or.inl rfl
  · exact settleAll_recurring { m with timers := m.timers.drop (m.expired curr ptr).length } _ cb
      hrecurring

/-- What has expired is due. -/
theorem next_le_of_mem_expired {curr ptr : Nat} (h : id ∈ m.expired curr ptr) :
    (m.objects id).next ≤ curr := by
  have hnot := not_above_of_mem_take h
  by_contra hlt
  have habove : (Timer.ofNext curr ptr).less (m.objects id) = true := if_pos (Nat.lt_of_not_le hlt)
  rw [hnot] at habove
  cases habove

end Expiry

end TimerManager

/-! ### What happens to them -/

open TimerManager (Holds)

/-- After it the timer is done with: it was cancelled, or collected and does not recur. -/
def TimerEvent.Spends (m : TimerManager) (id : Nat) (e : TimerEvent) : Prop :=
  e = .cancelled id ∨ e.Collects id ∧ (m.objects id).recurring = false

/-- A log that agrees with the timers: those it has done with have no callback, and it has nothing
on them after that. -/
structure Recorded (m : TimerManager) (log : List TimerEvent) : Prop where
  made : ∀ e ∈ log, ∀ id, e = .cancelled id ∨ e.Collects id → id < m.made
  spent : ∀ e ∈ log, ∀ id, e.Spends m id → (m.objects id).callback = none
  final : log.Pairwise fun e f => ∀ id, e.Spends m id → ¬ f.Collects id
  due : ∀ id curr next, .collected id curr next ∈ log → next ≤ curr

namespace Recorded

variable {m m' : TimerManager} {log new : List TimerEvent}

theorem nil (m : TimerManager) : Recorded m [] where
  made := fun _ h => absurd h List.not_mem_nil
  spent := fun _ h => absurd h List.not_mem_nil
  final := List.Pairwise.nil
  due := fun _ _ _ h => absurd h List.not_mem_nil

theorem spends_iff (h : Recorded m log) (hfollows : m.Follows m') {e : TimerEvent} (he : e ∈ log)
    (id : Nat) : e.Spends m' id ↔ e.Spends m id := by
  refine or_congr_right (and_congr_right fun hcollects => ?_)
  rw [hfollows.recurring_eq id (h.made e he id (Or.inr hcollects))]

theorem follows (h : Recorded m log) (hfollows : m.Follows m') : Recorded m' log where
  made := fun e he id hid => (h.made e he id hid).trans_le hfollows.made_le
  spent := by
    intro e he id hspends
    have hspends := (h.spends_iff hfollows he id).mp hspends
    exact hfollows.callback_none id (h.made e he id (hspends.imp_right And.left))
      (h.spent e he id hspends)
  final := by
    refine h.final.imp_of_mem ?_
    intro e f he _ hfinal id hspends
    exact hfinal id ((h.spends_iff hfollows he id).mp hspends)
  due := h.due

/-- New events are about timers that had their callback until then. -/
theorem append (h : Recorded m log) (hfollows : m.Follows m') (hnew : Recorded m' new)
    (harmed : ∀ f ∈ new, ∀ id, f.Collects id → (m.objects id).callback.isSome) :
    Recorded m' (log ++ new) := by
  have hold := h.follows hfollows
  refine ⟨?_, ?_, List.pairwise_append.mpr ⟨hold.final, hnew.final, ?_⟩, ?_⟩
  · intro e he
    exact (List.mem_append.mp he).elim (hold.made e) (hnew.made e)
  · intro e he
    exact (List.mem_append.mp he).elim (hold.spent e) (hnew.spent e)
  · intro e he f hf id hspends hcollects
    have hnone := h.spent e he id ((h.spends_iff hfollows he id).mp hspends)
    have hsome := harmed f hf id hcollects
    rw [hnone] at hsome
    cases hsome
  · intro id curr next he
    exact (List.mem_append.mp he).elim (hold.due id curr next) (hnew.due id curr next)

theorem cancelled {id : Nat} (hmade : id < m.made) (hnone : (m.objects id).callback = none) :
    Recorded m [.cancelled id] where
  made := by
    intro e he a ha
    rw [List.mem_singleton.mp he] at ha
    rcases ha with heq | hfalse
    · cases heq
      exact hmade
    · exact hfalse.elim
  spent := by
    intro e he a ha
    rw [List.mem_singleton.mp he] at ha
    rcases ha with heq | ⟨hfalse, -⟩
    · cases heq
      exact hnone
    · exact hfalse.elim
  final := List.pairwise_singleton _ _
  due := by
    intro a curr next he
    cases List.mem_singleton.mp he

theorem collected {expired : List Nat} {curr : Nat} {next : Nat → Nat} (hnodup : expired.Nodup)
    (hmade : ∀ id ∈ expired, id < m.made) (hdue : ∀ id ∈ expired, next id ≤ curr)
    (hspent : ∀ id ∈ expired, (m.objects id).recurring = false → (m.objects id).callback = none) :
    Recorded m (expired.map fun id => .collected id curr (next id)) where
  made := by
    intro e he a ha
    obtain ⟨id, hid, rfl⟩ := List.mem_map.mp he
    rcases ha with heq | heq
    · cases heq
    · exact heq ▸ hmade id hid
  spent := by
    intro e he a ha
    obtain ⟨id, hid, rfl⟩ := List.mem_map.mp he
    rcases ha with heq | ⟨heq, honce⟩
    · cases heq
    · have hida : id = a := heq
      subst hida
      exact hspent id hid honce
  final := by
    rw [List.pairwise_map]
    refine List.Pairwise.imp ?_ hnodup
    intro a b hne id ha hb
    rcases ha with heq | ⟨ha, -⟩
    · cases heq
    · have ha : a = id := ha
      have hb : b = id := hb
      exact hne (ha.trans hb.symm)
  due := by
    intro a curr' next' he
    obtain ⟨id, hid, heq⟩ := List.mem_map.mp he
    cases heq
    exact hdue a hid

end Recorded

namespace TimerHistory

structure Inv (h : TimerHistory) : Prop where
  holds : Holds h.manager []
  recorded : Recorded h.manager h.log

theorem inv_init : Inv init := ⟨TimerManager.holds_init, Recorded.nil _⟩

theorem Inv.sound {h : TimerHistory} (hinv : Inv h) : Sound h where
  sorted := hinv.holds.sorted.imp fun hlt => (h.manager.orders_less _ _).mpr hlt
  not_rekeyed := hinv.holds.not_rekeyed
  armed := fun id => (hinv.holds.armed id).trans (or_iff_left List.not_mem_nil)
  once := by
    intro id honce
    refine hinv.recorded.final.imp ?_
    rintro e f hfinal ⟨he, hf⟩
    exact hfinal id (Or.inr ⟨he, honce⟩) hf
  due := hinv.recorded.due
  cancelled := by
    intro id
    refine hinv.recorded.final.imp ?_
    rintro e f hfinal ⟨he, hf⟩
    exact hfinal id (Or.inl he) hf
  handed := fun curr ptr cb => (hinv.holds.listOverTimeCallback curr ptr cb).2.2.1

/-- **Every call succeeds and keeps the invariant.** -/
theorem Inv.perform {h : TimerHistory} (hinv : Inv h) {call : TimerCall} (hpossible : h.Possible call) :
    ∃ h', h.perform call = .ok h' ∧ Inv h' := by
  obtain ⟨hholds, hrecorded⟩ := hinv
  cases call with
  | addTimer ptr now ms callback recurring =>
      obtain ⟨hadded, hfollows⟩ := hholds.addTimer hpossible.1 hpossible.2
      exact ⟨_, rfl, hadded, hrecorded.follows hfollows⟩
  | cancel id =>
      obtain ⟨answer, m', hrun, hholds', hfollows, hanswer⟩ := hholds.cancel id
      have hperform : h.perform (.cancel id) = .ok
          { manager := m', log := if answer then h.log ++ [.cancelled id] else h.log } := by
        rw [TimerHistory.perform, hrun]
        rfl
      refine ⟨_, hperform, hholds', ?_⟩
      cases answer with
      | false => exact hrecorded.follows hfollows
      | true =>
          obtain ⟨hnone, hsome⟩ := hanswer rfl
          have hmade := (hholds.lt_made hsome).trans_le hfollows.made_le
          refine hrecorded.append hfollows (Recorded.cancelled hmade hnone) ?_
          intro f hf a hcollects
          rw [List.mem_singleton.mp hf] at hcollects
          exact hcollects.elim
  | refresh id now =>
      obtain ⟨hholds', hfollows⟩ := hholds.refresh id now
      exact ⟨_, rfl, hholds', hrecorded.follows hfollows⟩
  | reset id ms fromNow now =>
      obtain ⟨hholds', hfollows⟩ := hholds.reset id ms fromNow now
      exact ⟨_, rfl, hholds', hrecorded.follows hfollows⟩
  | listOverTimeCallback curr ptr =>
      obtain ⟨hholds', hfollows, -, hspent⟩ := hholds.listOverTimeCallback curr ptr []
      have hsub : (h.manager.expired curr ptr).Sublist h.manager.timers := List.take_sublist _ _
      have harmed : ∀ id ∈ h.manager.expired curr ptr, (h.manager.objects id).callback.isSome :=
        fun id hid => (hholds.armed id).mpr (Or.inl (hsub.subset hid))
      have hmade : ∀ id ∈ h.manager.expired curr ptr, id < h.manager.made :=
        fun id hid => hholds.lt_made (harmed id hid)
      refine ⟨_, rfl, hholds', hrecorded.append hfollows ?_ ?_⟩
      · refine Recorded.collected (hholds.sorted.nodup.sublist hsub)
          (fun id hid => (hmade id hid).trans_le hfollows.made_le)
          (fun id hid => TimerManager.next_le_of_mem_expired hid) fun id hid honce => ?_
        exact hspent id hid ((hfollows.recurring_eq id (hmade id hid)).symm.trans honce)
      · intro f hf a hcollects
        obtain ⟨id, hid, rfl⟩ := List.mem_map.mp hf
        have hida : id = a := hcollects
        exact hida ▸ harmed id hid

/-- **Timers stay in order.** -/
theorem allStates_sound {calls : List TimerCall}
    (hpossible : AllSteps (attempt perform) (WhenLive Possible) (.ok init) calls) :
    AllStates (attempt perform) (Live Sound) (.ok init) calls := by
  have hexact : AllStates (attempt perform) (Live Sound) (.ok init) calls ↔
      AllSteps (attempt perform) (WhenLive fun _ _ => True) (.ok init) calls := by
    refine live_allStates_iff_allSteps ?_ ?_ inv_init inv_init.sound hpossible
    · intro h call h' hinv _ hpossible hrun _
      obtain ⟨_, hrun', hinv'⟩ := hinv.perform hpossible
      exact Except.ok.inj (hrun'.symm.trans hrun) ▸ hinv'
    · intro h call hinv _ hpossible
      obtain ⟨h', hrun, hinv'⟩ := hinv.perform hpossible
      exact iff_of_true (live_iff.mpr ⟨h', hrun, hinv'.sound⟩) trivial
  exact hexact.mpr fun before call _ => whenLive_of_forall (fun _ _ => trivial) _ call

/-- A one-shot timer and one that recurs run out at the same reading of the clock, and the one that is
left is reset and cancelled. -/
theorem allStates_sound_twoTimers :
    AllStates (attempt perform) (Live Sound) (.ok init)
      [.addTimer 16 0 10 (some 1) false, .addTimer 8 0 10 (some 2) true,
        .listOverTimeCallback 11 24, .reset 1 5 false 12, .cancel 1, .cancel 0] := by
  refine allStates_sound ?_
  rw [allSteps_cons, allSteps_cons, allSteps_cons, allSteps_cons, allSteps_cons, allSteps_cons]
  refine ⟨⟨?_, rfl⟩, ⟨?_, rfl⟩, ?_, ?_, ?_, ?_, allSteps_nil⟩
  · change ∀ id ∈ ([] : List Nat), _
    decide
  · change ∀ id ∈ [0], _
    decide
  · change ∀ id ∈ [1, 0], _
    decide
  · change 1 < 2
    decide
  · change 1 < 2
    decide
  · change 0 < 2
    decide

end TimerHistory

end AsyncRPC
