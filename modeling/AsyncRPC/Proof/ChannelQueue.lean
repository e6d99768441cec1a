import AsyncRPC.ChannelQueue
import AsyncRPC.Lib.Parties

/-!
# What goes through a channel

Only the call that has `mutex_` has its hands on the queue, from its tests to its end. So what came out,
what is in the queue and what that call has just taken or put in add up to what went in.
-/

namespace AsyncRPC.ChannelQueue

open Channel (Op Side)
open Transition

variable {F M : Type}

/-- The value that a call has put into the queue and not reported yet. -/
def Pc.put : Pc F M → List M
  | .notifying (.pushed t) | .submitting (.pushed t) _ | .unlocking (.pushed t) => [t]
  | _ => []

/-- The value that a call has taken from the queue and not reported yet. -/
def Pc.took : Pc F M → List M
  | .notifying (.popped t) | .submitting (.popped t) _ | .unlocking (.popped t) => [t]
  | _ => []

/-- In `close`, with `isClosed_` set. -/
def Pc.closes : Pc F M → Bool
  | .notifyingAll _ | .swapping => true
  | _ => false

theorem Pc.ne_idle_of_holds {pc : Pc F M} (hholds : pc.holds = true) : pc ≠ .idle := by
  rintro rfl
  cases hholds

namespace State

variable {s t : State F M} {f : F} {pc : Pc F M}

/-- What the call with `mutex_` has put in, and what it has taken. -/
def put (s : State F M) : List M := s.mutex.elim [] fun f => (s.pc f).put

def took (s : State F M) : List M := s.mutex.elim [] fun f => (s.pc f).took

structure Inv (s : State F M) : Prop where
  holder : ∀ f, (s.pc f).holds = true → s.mutex = some f
  bounded : s.msgQueue.length ≤ s.capacity
  flow : ∃ dropped, s.popped ++ s.took ++ s.msgQueue ++ dropped = s.pushed ++ s.put ∧
    (s.isClosed = false → dropped = [])
  put : s.put ≠ [] → s.msgQueue ≠ [] ∧ s.took = []
  success : s.put ≠ [] ∨ s.took ≠ [] → s.isClosed = false
  late : ∀ f, (s.pc f).holds = true → s.isClosed = false → s.late f = false
  closing : ∀ f, (s.pc f).closes = true → s.isClosed = true
  running : ∀ f, s.pc f ≠ .idle → s.returned f = none
  closed : ∀ f, s.returned f = some true → s.late f = false

theorem put_of_mutex (h : s.mutex = some f) : s.put = (s.pc f).put := by
  rw [put, h]
  rfl

theorem took_of_mutex (h : s.mutex = some f) : s.took = (s.pc f).took := by
  rw [took, h]
  rfl

theorem exists_put (h : s.put ≠ []) : ∃ t, s.put = [t] := by
  rw [put] at h ⊢
  cases hmutex : s.mutex with
  | none => simp [hmutex] at h
  | some f =>
      simp only [hmutex, Option.elim_some] at h ⊢
      unfold Pc.put at h ⊢
      split
      · exact ⟨_, rfl⟩
      · exact ⟨_, rfl⟩
      · exact ⟨_, rfl⟩
      · simp_all

theorem Inv.safe (h : s.Inv) : s.Safe where
  bounded := h.bounded
  inOrder := by
    obtain ⟨dropped, hflow, hdropped⟩ := h.flow
    by_cases hput : s.put = []
    · rw [hput, List.append_nil, List.append_assoc, List.append_assoc] at hflow
      exact ⟨_, hflow⟩
    · -- the value put in last is still the last one in the queue
      obtain ⟨hqueue, htook⟩ := h.put hput
      obtain ⟨value, hvalue⟩ := exists_put hput
      rw [hdropped (h.success (Or.inl hput)), htook, hvalue, List.append_nil, List.append_nil,
        ← List.dropLast_concat_getLast hqueue, ← List.append_assoc] at hflow
      exact ⟨_, List.append_inj_left' hflow rfl⟩
  closed := h.closed

theorem inv_of_new (h : New s) : s.Inv := by
  have hput : s.put = [] := by simp [put, h.mutex]
  have htook : s.took = [] := by simp [took, h.mutex]
  refine
    { holder := fun f hf => ?_
      bounded := by simp [h.msgQueue]
      flow := ⟨[], by simp [h.popped, h.pushed, h.msgQueue, hput, htook], fun _ => rfl⟩
      put := fun hne => absurd hput hne
      success := ?_
      late := fun f hf => ?_
      closing := fun f hf => ?_
      running := fun f _ => h.returned f
      closed := fun f hf => ?_ }
  · rw [h.pc f] at hf
    cases hf
  · rintro (hne | hne)
    · exact absurd hput hne
    · exact absurd htook hne
  · rw [h.pc f] at hf
    cases hf
  · rw [h.pc f] at hf
    cases hf
  · rw [h.returned f] at hf
    cases hf

section Steps

variable [DecidableEq F]

theorem pc_goto_self : (s.goto f pc).pc f = pc := by
  simp [State.goto]

theorem pc_goto_of_ne {g : F} (hg : g ≠ f) : (s.goto f pc).pc g = s.pc g := by
  simp [State.goto, hg]

theorem Inv.running_goto (h : s.Inv) (hrunning : s.pc f ≠ .idle) {g : F}
    (hg : (s.goto f pc).pc g ≠ .idle) : s.returned g = none :=
  h.running g (Parties.of_update (fun pc : Pc F M => pc ≠ .idle) (fun _ => hrunning) hg)

theorem Inv.closing_goto (h : s.Inv) (hcloses : pc.closes = false) {g : F}
    (hg : ((s.goto f pc).pc g).closes = true) : s.isClosed = true := by
  have hnew : ¬ pc.closes = true := by
    rw [hcloses]
    exact Bool.false_ne_true
  exact h.closing g (Parties.of_update_not (fun pc : Pc F M => pc.closes = true) hnew hg).2

theorem hands_of_goto (hmutex : t.mutex = some f) (ht : t.pc = (s.goto f pc).pc) :
    t.put = pc.put ∧ t.took = pc.took := by
  rw [put_of_mutex hmutex, took_of_mutex hmutex, ht, pc_goto_self]
  exact ⟨rfl, rfl⟩

/-- The state in which `f` has just taken `mutex_`. -/
def taken (s : State F M) (f : F) : State F M :=
  { s with mutex := some f, late := Function.update s.late f s.isClosed }

theorem eq_taken (hstep : s.take f = some t) : s.mutex = none ∧ t = s.taken f := by
  unfold take at hstep
  split at hstep
  · next hmutex =>
    cases hstep
    exact ⟨hmutex, rfl⟩
  · cases hstep

omit [DecidableEq F] in
theorem Inv.setCv (h : s.Inv) (cv : Side → CoCondVar.State F) : ({ s with cv := cv } : State F M).Inv :=
  ⟨h.holder, h.bounded, h.flow, h.put, h.success, h.late, h.closing, h.running, h.closed⟩

theorem Inv.stepCv (h : s.Inv) {side : Side} {l : CoCondVar.Label F}
    (hstep : s.stepCv side l = some t) : t.Inv ∧ t.pc = s.pc ∧ t.mutex = s.mutex := by
  obtain ⟨cv, -, rfl⟩ := Option.map_eq_some_iff.mp hstep
  exact ⟨h.setCv _, rfl, rfl⟩

omit [DecidableEq F] in
theorem Inv.eq_of_holds (h : s.Inv) {g : F} (hf : (s.pc f).holds = true)
    (hg : (s.pc g).holds = true) : g = f :=
  Option.some.inj ((h.holder g hg).symm.trans (h.holder f hf))

theorem Inv.forget (h : s.Inv) (f : F) :
    ({ s with returned := Function.update s.returned f none } : State F M).Inv := by
  refine ⟨h.holder, h.bounded, h.flow, h.put, h.success, h.late, h.closing, fun g hg => ?_,
    fun g hg => ?_⟩
  · by_cases hgf : g = f
    · rw [hgf]
      exact Function.update_self _ _ _
    · exact (Function.update_of_ne hgf _ _).trans (h.running g hg)
  · by_cases hgf : g = f
    · have hself : Function.update s.returned f none f = some true := hgf ▸ hg
      rw [Function.update_self] at hself
      cases hself
    · exact h.closed g ((Function.update_of_ne hgf _ _).symm.trans hg)

/-- A call moves on and keeps what it has in hand. -/
theorem Inv.goto (h : s.Inv) (hrunning : s.returned f = none)
    (hholds : pc.holds = true → (s.pc f).holds = true)
    (hcloses : pc.closes = true → (s.pc f).closes = true) (hput : pc.put = (s.pc f).put)
    (htook : pc.took = (s.pc f).took) : (s.goto f pc).Inv := by
  have hputs : (s.goto f pc).put = s.put := by
    have hsame : ∀ g, ((s.goto f pc).pc g).put = (s.pc g).put := Parties.get_update Pc.put hput
    rw [State.put, State.put, funext hsame]
    rfl
  have htooks : (s.goto f pc).took = s.took := by
    have hsame : ∀ g, ((s.goto f pc).pc g).took = (s.pc g).took := Parties.get_update Pc.took htook
    rw [State.took, State.took, funext hsame]
    rfl
  have hold : ∀ g, ((s.goto f pc).pc g).holds = true → (s.pc g).holds = true := fun g =>
    Parties.of_update (fun pc : Pc F M => pc.holds = true) hholds
  refine
    { holder := fun g hg => h.holder g (hold g hg)
      bounded := h.bounded
      flow := ?_
      put := ?_
      success := ?_
      late := fun g hg => h.late g (hold g hg)
      closing := fun g hg =>
        h.closing g (Parties.of_update (fun pc : Pc F M => pc.closes = true) hcloses hg)
      running := fun g hg => ?_
      closed := h.closed }
  · rw [hputs, htooks]
    exact h.flow
  · rw [hputs, htooks]
    exact h.put
  · rw [hputs, htooks]
    exact h.success
  · rcases Parties.cases_update (fun pc : Pc F M => pc ≠ .idle) hg with ⟨rfl, -⟩ | ⟨-, hg⟩
    · exact hrunning
    · exact h.running g hg

omit [DecidableEq F] in
theorem empty_of_mutex_none (hmutex : s.mutex = none) : s.put = [] ∧ s.took = [] := by
  rw [State.put, State.took, hmutex]
  exact ⟨rfl, rfl⟩

/-- A call takes `mutex_`, with nothing in hand. -/
theorem Inv.taken (h : s.Inv) (hmutex : s.mutex = none) (hrunning : s.pc f ≠ .idle)
    (hput : pc.put = []) (htook : pc.took = []) (hcloses : pc.closes = false) :
    ((s.goto f pc).taken f).Inv := by
  obtain ⟨hputS, htookS⟩ := empty_of_mutex_none hmutex
  have hfree : ∀ g, (s.pc g).holds ≠ true := by
    intro g hg
    have htaken := h.holder g hg
    rw [hmutex] at htaken
    cases htaken
  have hown : ∀ g, ((s.goto f pc).pc g).holds = true → g = f := by
    intro g hg
    by_contra hgf
    rw [pc_goto_of_ne hgf] at hg
    exact hfree g hg
  obtain ⟨hputT, htookT⟩ := hands_of_goto (s := s) (t := (s.goto f pc).taken f) rfl rfl
  rw [hput] at hputT
  rw [htook] at htookT
  have hflow := h.flow
  rw [hputS, htookS] at hflow
  refine
    { holder := fun g hg => congrArg some (hown g hg).symm
      bounded := h.bounded
      flow := ?_
      put := ?_
      success := ?_
      late := fun g hg hopen => ?_
      closing := fun g hg => h.closing_goto hcloses hg
      running := fun g hg => h.running_goto hrunning hg
      closed := fun g hg => ?_ }
  · rw [hputT, htookT]
    exact hflow
  · exact fun hne => absurd hputT hne
  · rintro (hne | hne)
    · exact absurd hputT hne
    · exact absurd htookT hne
  · rw [hown g hg]
    exact (Function.update_self f s.isClosed s.late).trans hopen
  · have hgf : g ≠ f := by
      rintro rfl
      have hnone := h.running g hrunning
      have hsome : s.returned g = some true := hg
      rw [hnone] at hsome
      cases hsome
    exact (Function.update_of_ne hgf s.isClosed s.late).trans (h.closed g hg)

/-- A call gives `mutex_` up; what it has in hand goes to the record. -/
theorem Inv.release (h : s.Inv) (hholds : (s.pc f).holds = true) (hpc : pc.holds = false)
    (hcloses : pc.closes = false) {returned : F → Option Bool}
    (hothers : ∀ g, g ≠ f → returned g = s.returned g) (hrunning : pc ≠ .idle → returned f = none)
    (hlate : returned f = some true → s.late f = false) :
    ({ s.goto f pc with
        mutex := none
        returned := returned
        pushed := s.pushed ++ (s.pc f).put
        popped := s.popped ++ (s.pc f).took } : State F M).Inv := by
  have hmutex := h.holder f hholds
  have hfree : ∀ g, ((s.goto f pc).pc g).holds ≠ true := by
    intro g hg
    rcases Parties.cases_update (fun pc : Pc F M => pc.holds = true) hg with ⟨-, hself⟩ | ⟨hgf, hg⟩
    · rw [hpc] at hself
      cases hself
    · exact hgf (h.eq_of_holds hholds hg)
  obtain ⟨dropped, hflow, hdropped⟩ := h.flow
  rw [put_of_mutex hmutex, took_of_mutex hmutex] at hflow
  refine
    { holder := fun g hg => absurd hg (hfree g)
      bounded := h.bounded
      flow := ⟨dropped, ?_, hdropped⟩
      put := fun hne => absurd rfl hne
      success := ?_
      late := fun g hg => absurd hg (hfree g)
      closing := fun g hg => h.closing_goto hcloses hg
      running := fun g hg => ?_
      closed := fun g hg => ?_ }
  · change s.popped ++ (s.pc f).took ++ [] ++ s.msgQueue ++ dropped = s.pushed ++ (s.pc f).put ++ []
    rw [List.append_nil, List.append_nil]
    exact hflow
  · rintro (hne | hne)
    · exact absurd rfl hne
    · exact absurd rfl hne
  · rcases Parties.cases_update (fun pc : Pc F M => pc ≠ .idle) hg with ⟨rfl, hself⟩ | ⟨hgf, hg⟩
    · exact hrunning hself
    · exact (hothers g hgf).trans (h.running g hg)
  · by_cases hgf : g = f
    · subst hgf
      exact hlate hg
    · exact h.closed g ((hothers g hgf).symm.trans hg)

/-- A call with `mutex_` and nothing in hand uses the open queue. -/
theorem Inv.use (h : s.Inv) (hholds : (s.pc f).holds = true) (hputS : (s.pc f).put = [])
    (htookS : (s.pc f).took = []) (hcloses : pc.closes = false) (hopen : s.isClosed = false)
    {queue : List M} (hqueue : pc.took ++ queue = s.msgQueue ++ pc.put) (hbounded : queue.length ≤ s.capacity)
    (hput : pc.put ≠ [] → pc.took = []) : ({ s.goto f pc with msgQueue := queue } : State F M).Inv := by
  have hmutex := h.holder f hholds
  have hold : ∀ g, ((s.goto f pc).pc g).holds = true → (s.pc g).holds = true := fun g =>
    Parties.of_update (fun pc : Pc F M => pc.holds = true) fun _ => hholds
  have hrunning : s.pc f ≠ .idle := Pc.ne_idle_of_holds hholds
  obtain ⟨dropped, hflow, hdropped⟩ := h.flow
  rw [put_of_mutex hmutex, took_of_mutex hmutex, hputS, htookS, hdropped hopen, List.append_nil,
    List.append_nil, List.append_nil] at hflow
  obtain ⟨hputT, htookT⟩ := hands_of_goto (s := s)
    (t := { s.goto f pc with msgQueue := queue }) hmutex rfl
  refine
    { holder := fun g hg => h.holder g (hold g hg)
      bounded := hbounded
      flow := ⟨[], ?_, fun _ => rfl⟩
      put := ?_
      success := fun _ => hopen
      late := fun g hg => h.late g (hold g hg)
      closing := fun g hg => h.closing_goto hcloses hg
      running := fun g hg => h.running_goto hrunning hg
      closed := h.closed }
  · rw [hputT, htookT]
    change s.popped ++ pc.took ++ queue ++ [] = s.pushed ++ pc.put
    rw [List.append_nil, List.append_assoc, hqueue, ← List.append_assoc, hflow]
  · rw [hputT, htookT]
    change pc.put ≠ [] → queue ≠ [] ∧ pc.took = []
    intro hne
    refine ⟨?_, hput hne⟩
    rintro rfl
    rw [hput hne] at hqueue
    exact hne (List.append_eq_nil_iff.mp hqueue.symm).2

/-- `isClosed_ = true`, or the queue dropped once that is done. -/
theorem Inv.close (h : s.Inv) (hholds : (s.pc f).holds = true) (hputS : (s.pc f).put = [])
    (htookS : (s.pc f).took = []) (hput : pc.put = []) (htook : pc.took = []) {queue : List M}
    (hqueue : queue = s.msgQueue ∨ queue = []) :
    ({ s.goto f pc with isClosed := true, msgQueue := queue } : State F M).Inv := by
  have hmutex := h.holder f hholds
  have hold : ∀ g, ((s.goto f pc).pc g).holds = true → (s.pc g).holds = true := fun g =>
    Parties.of_update (fun pc : Pc F M => pc.holds = true) fun _ => hholds
  have hrunning : s.pc f ≠ .idle := Pc.ne_idle_of_holds hholds
  obtain ⟨dropped, hflow, -⟩ := h.flow
  rw [put_of_mutex hmutex, took_of_mutex hmutex, hputS, htookS, List.append_nil, List.append_nil]
    at hflow
  obtain ⟨hputT, htookT⟩ := hands_of_goto (s := s)
    (t := { s.goto f pc with isClosed := true, msgQueue := queue }) hmutex rfl
  rw [hput] at hputT
  rw [htook] at htookT
  refine
    { holder := fun g hg => h.holder g (hold g hg)
      bounded := ?_
      flow := ?_
      put := ?_
      success := ?_
      late := fun g _ hopen => by cases hopen
      closing := fun g hg => rfl
      running := fun g hg => h.running_goto hrunning hg
      closed := h.closed }
  · rcases hqueue with rfl | rfl
    · exact h.bounded
    · exact Nat.zero_le _
  · rw [hputT, htookT]
    change ∃ dropped, s.popped ++ [] ++ queue ++ dropped = s.pushed ++ [] ∧
      (true = false → dropped = [])
    rw [List.append_nil, List.append_nil]
    rcases hqueue with rfl | rfl
    · exact ⟨dropped, hflow, fun hopen => by cases hopen⟩
    · refine ⟨s.msgQueue ++ dropped, ?_, fun hopen => by cases hopen⟩
      rw [List.append_nil, ← List.append_assoc]
      exact hflow
  · exact fun hne => absurd hputT hne
  · rintro (hne | hne)
    · exact absurd hputT hne
    · exact absurd htookT hne

theorem Inv.beginWait (h : s.Inv) {op : Op M} (hholds : (s.pc f).holds = true)
    (hput : (s.pc f).put = []) (htook : (s.pc f).took = []) (hstep : s.beginWait f op = some t) :
    t.Inv := by
  obtain ⟨s₁, hcv, hstep⟩ := Option.bind_eq_some_iff.mp hstep
  obtain ⟨h₁, hpc, -⟩ := h.stepCv hcv
  cases hstep
  rw [← hpc] at hholds hput htook
  have hrunning : s₁.returned f = none := h₁.running f (Pc.ne_idle_of_holds hholds)
  have hwaiting : (Pc.waiting op (s.cv op.waitsOn).next : Pc F M).holds = false := rfl
  have hothers : ∀ g, g ≠ f → s₁.returned g = s₁.returned g := fun _ _ => rfl
  have hreleased := h₁.release hholds hwaiting rfl hothers (fun _ => hrunning) (h₁.closed f)
  rw [hput, htook, List.append_nil, List.append_nil] at hreleased
  exact hreleased

theorem inv_test (h : s.Inv) {op : Op M} (hholds : (s.pc f).holds = true)
    (hput : (s.pc f).put = []) (htook : (s.pc f).took = []) (hstep : s.test f op = some t) :
    t.Inv := by
  have hrunning : s.pc f ≠ .idle := Pc.ne_idle_of_holds hholds
  unfold test at hstep
  split at hstep
  · cases hstep
    refine h.goto (h.running f hrunning) (fun _ => hholds) (fun hcloses => by cases hcloses) ?_ ?_
    · rw [hput]
      cases op <;> rfl
    · rw [htook]
      cases op <;> rfl
  · next hopen =>
    have hopen : s.isClosed = false := eq_false_of_ne_true hopen
    cases op with
    | push value =>
        dsimp only at hstep
        split at hstep
        · exact h.beginWait hholds hput htook hstep
        · next hroom =>
          cases hstep
          refine h.use hholds hput htook rfl hopen rfl ?_ fun _ => rfl
          rw [List.length_append, List.length_singleton]
          omega
    | close =>
        cases hstep
        exact h.close hholds hput htook rfl rfl (Or.inl rfl)
    | _ =>
        dsimp only at hstep
        split at hstep
        · exact h.beginWait hholds hput htook hstep
        · next value rest hqueue =>
          cases hstep
          refine h.use hholds hput htook rfl hopen ?_ ?_ fun hne => absurd rfl hne
          · rw [hqueue]
            exact (List.append_nil _).symm
          · have hbounded := h.bounded
            rw [hqueue, List.length_cons] at hbounded
            exact Nat.le_of_succ_le hbounded

theorem inv_resume (h : s.Inv) {side : Side} (hstep : s.resume f side = some t) : t.Inv := by
  unfold resume at hstep
  split at hstep
  · split at hstep
    · cases hstep
      exact h.setCv _
    · cases hstep
  · exact (h.stepCv hstep).1

theorem inv_unlock (h : s.Inv) {result : Result M} (hpc : s.pc f = .unlocking result) :
    (s.unlock f result).Inv := by
  have hholds : (s.pc f).holds = true := by
    rw [hpc]
    rfl
  have hothers : ∀ g, g ≠ f →
      Function.update s.returned f result.returned g = s.returned g :=
    fun g hg => Function.update_of_ne hg _ _
  have hlate : Function.update s.returned f result.returned f = some true → s.late f = false := by
    intro hsuccess
    rw [Function.update_self] at hsuccess
    refine h.late f hholds (h.success ?_)
    rw [put_of_mutex (h.holder f hholds), took_of_mutex (h.holder f hholds), hpc]
    cases result with
    | pushed value => exact Or.inl (List.cons_ne_nil _ _)
    | popped value => exact Or.inr (List.cons_ne_nil _ _)
    | failed => cases hsuccess
    | closed => cases hsuccess
  have hidle : (Pc.idle : Pc F M).holds = false := rfl
  have hreleased := h.release hholds hidle rfl hothers (fun hne => absurd rfl hne) hlate
  rw [hpc] at hreleased
  cases result with
  | pushed value =>
      simp only [Pc.put, Pc.took, List.append_nil] at hreleased
      exact hreleased
  | popped value =>
      simp only [Pc.put, Pc.took, List.append_nil] at hreleased
      exact hreleased
  | failed =>
      simp only [Pc.put, Pc.took, List.append_nil] at hreleased
      exact hreleased
  | closed =>
      simp only [Pc.put, Pc.took, List.append_nil] at hreleased
      exact hreleased

/-- What a step asks of the state before it and makes of it. -/
inductive Stepped (s : State F M) : Label F M → State F M → Prop
  | call {f : F} {op : Op M} (hpc : s.pc f = .idle) :
      Stepped s (.call f op)
        { s.goto f (.locking op) with returned := Function.update s.returned f none }
  | lock {f : F} {op : Op M} (hpc : s.pc f = .locking op) (hmutex : s.mutex = none) :
      Stepped s (.lock f) ((s.goto f (.entered op)).taken f)
  | test {f : F} {op : Op M} {t : State F M}
      (hpc : s.pc f = .entered op ∨ ∃ k, s.pc f = .woken op k) (htest : s.test f op = some t) :
      Stepped s (.test f) t
  | cv {side : Side} {l : CoCondVar.Label F} {cv : CoCondVar.State F} (hself : ofItself l = true)
      (hcv : (s.cv side).step l = some cv) : Stepped s (.cv side l) (s.setCv side cv)
  | resume {f : F} {side : Side} {t : State F M} (hresume : s.resume f side = some t) :
      Stepped s (.resume f side) t
  | retake {f : F} {op : Op M} {k : Nat} {cv : CoCondVar.State F} (hpc : s.pc f = .waiting op k)
      (hcv : (s.cv op.waitsOn).step (.leave f) = some cv) (hmutex : s.mutex = none) :
      Stepped s (.retake f) (((s.setCv op.waitsOn cv).goto f (.woken op k)).taken f)
  | finish {f : F} {op : Op M} {k : Nat} {cv : CoCondVar.State F} (hpc : s.pc f = .waiting op k)
      (hcv : (s.cv op.waitsOn).step (.finish f) = some cv) (hmutex : s.mutex = none) :
      Stepped s (.finish f) (((s.setCv op.waitsOn cv).goto f (.returning op k
        !((s.cv op.waitsOn).waits k).any CoCondVar.Wait.timeCondition)).taken f)
  | leave {f : F} {op : Op M} {k : Nat} {result : Bool} {cv : CoCondVar.State F}
      (hpc : s.pc f = .returning op k result)
      (hcv : (s.cv op.waitsOn).step (.leave f) = some cv) :
      Stepped s (.leave f)
        ((s.setCv op.waitsOn cv).goto f (if result then .woken op k else .unlocking .failed))
  | pass {f : F} {result : Result M} (hpc : s.pc f = .notifying result)
      (hempty : (s.cv result.notifies).waitQueue = []) :
      Stepped s (.notify f none) (s.goto f (.unlocking result))
  | notify {f g : F} {result : Result M} {p : F × Option Nat} {cv : CoCondVar.State F}
      (hpc : s.pc f = .notifying result)
      (hcv : (s.cv result.notifies).step (.notify g) = some cv) :
      Stepped s (.notify f (some g)) ((s.setCv result.notifies cv).goto f (.submitting result p))
  | submit {f : F} {result : Result M} {p : F × Option Nat} {cv : CoCondVar.State F}
      (hpc : s.pc f = .submitting result p)
      (hcv : (s.cv result.notifies).step (.submit p) = some cv) :
      Stepped s (.submit f) ((s.setCv result.notifies cv).goto f (.unlocking result))
  | notifyPushers {f : F} {cv : CoCondVar.State F} (hpc : s.pc f = .notifyingAll .pushCv)
      (hcv : (s.cv .pushCv).step .notifyAll = some cv) :
      Stepped s (.notifyAll f) ((s.setCv .pushCv cv).goto f (.notifyingAll .popCv))
  | notifyPoppers {f : F} {cv : CoCondVar.State F} (hpc : s.pc f = .notifyingAll .popCv)
      (hcv : (s.cv .popCv).step .notifyAll = some cv) :
      Stepped s (.notifyAll f) ((s.setCv .popCv cv).goto f .swapping)
  | swap {f : F} (hpc : s.pc f = .swapping) :
      Stepped s (.swap f) { s.goto f (.unlocking .closed) with msgQueue := [] }
  | unlock {f : F} {result : Result M} (hpc : s.pc f = .unlocking result) :
      Stepped s (.unlock f) (s.unlock f result)

theorem stepped_of_step {l : Label F M} (hstep : s.step l = some t) : Stepped s l t := by
  cases l with
  | call f op | swap f | unlock f =>
      simp only [step] at hstep
      split at hstep
      · next hpc =>
        cases hstep
        constructor
        exact hpc
      · cases hstep
  | lock f =>
      simp only [step] at hstep
      split at hstep
      · next hpc =>
        obtain ⟨hmutex, rfl⟩ := eq_taken hstep
        exact .lock hpc hmutex
      · cases hstep
  | test f =>
      simp only [step] at hstep
      split at hstep
      · next hpc => exact .test (Or.inl hpc) hstep
      · next k hpc => exact .test (Or.inr ⟨k, hpc⟩) hstep
      · cases hstep
  | cv side l =>
      simp only [step] at hstep
      split at hstep
      · next hself =>
        obtain ⟨cv, hcv, rfl⟩ := Option.map_eq_some_iff.mp hstep
        exact .cv hself hcv
      · cases hstep
  | resume f side => exact .resume hstep
  | retake f =>
      simp only [step] at hstep
      split at hstep
      · next hpc =>
        obtain ⟨r, hleave, hstep⟩ := Option.bind_eq_some_iff.mp hstep
        obtain ⟨cv, hcv, rfl⟩ := Option.map_eq_some_iff.mp hleave
        obtain ⟨hmutex, rfl⟩ := eq_taken hstep
        exact .retake hpc hcv hmutex
      · cases hstep
  | finish f =>
      simp only [step] at hstep
      split at hstep
      · next hpc =>
        obtain ⟨r, hfinish, hstep⟩ := Option.bind_eq_some_iff.mp hstep
        obtain ⟨cv, hcv, rfl⟩ := Option.map_eq_some_iff.mp hfinish
        obtain ⟨hmutex, rfl⟩ := eq_taken hstep
        exact .finish hpc hcv hmutex
      · cases hstep
  | leave f =>
      simp only [step] at hstep
      split at hstep
      · next hpc =>
        obtain ⟨r, hleave, hstep⟩ := Option.bind_eq_some_iff.mp hstep
        obtain ⟨cv, hcv, rfl⟩ := Option.map_eq_some_iff.mp hleave
        cases hstep
        exact .leave hpc hcv
      · cases hstep
  | notify f first =>
      simp only [step] at hstep
      split at hstep
      · next hpc =>
        cases first with
        | none =>
            dsimp only at hstep
            split at hstep
            · next hempty =>
              cases hstep
              exact .pass hpc hempty.2
            · cases hstep
        | some g =>
            obtain ⟨r, hnotify, hstep⟩ := Option.bind_eq_some_iff.mp hstep
            obtain ⟨cv, hcv, rfl⟩ := Option.map_eq_some_iff.mp hnotify
            cases hstep
            exact .notify hpc hcv
      · cases hstep
  | submit f =>
      simp only [step] at hstep
      split at hstep
      · next hpc =>
        obtain ⟨r, hsubmit, hstep⟩ := Option.bind_eq_some_iff.mp hstep
        obtain ⟨cv, hcv, rfl⟩ := Option.map_eq_some_iff.mp hsubmit
        cases hstep
        exact .submit hpc hcv
      · cases hstep
  | notifyAll f =>
      simp only [step] at hstep
      split at hstep
      · next side hpc =>
        obtain ⟨r, hnotify, hstep⟩ := Option.bind_eq_some_iff.mp hstep
        obtain ⟨cv, hcv, rfl⟩ := Option.map_eq_some_iff.mp hnotify
        cases hstep
        cases side with
        | pushCv => exact .notifyPushers hpc hcv
        | popCv => exact .notifyPoppers hpc hcv
      · cases hstep

/-- A call moves on with a step of a condition variable. -/
theorem Inv.setCv_goto (h : s.Inv) (side : Side) (cv : CoCondVar.State F) (hrunning : s.pc f ≠ .idle)
    (hholds : pc.holds = true → (s.pc f).holds = true)
    (hcloses : pc.closes = true → (s.pc f).closes = true) (hput : pc.put = (s.pc f).put)
    (htook : pc.took = (s.pc f).took) : ((s.setCv side cv).goto f pc).Inv := by
  have hset : (s.setCv side cv).Inv := h.setCv _
  exact hset.goto (h.running f hrunning) hholds hcloses hput htook

theorem inv_step (h : s.Inv) {l : Label F M} (hstep : s.step l = some t) : t.Inv := by
  cases stepped_of_step hstep with
  | @call f op hpc =>
      have hput : (Pc.locking op : Pc F M).put = (s.pc f).put := (congrArg Pc.put hpc).symm
      have hforgot := (h.forget f).goto (Function.update_self _ _ _)
        (fun hholds => by cases hholds) (fun hcloses => by cases hcloses) hput
        (congrArg Pc.took hpc).symm
      exact hforgot
  | lock hpc hmutex => exact h.taken hmutex (by rw [hpc]; simp) rfl rfl rfl
  | test hpc htest =>
      rcases hpc with hpc | ⟨k, hpc⟩
      · exact inv_test h (by rw [hpc]; rfl) (by rw [hpc]; rfl) (by rw [hpc]; rfl) htest
      · exact inv_test h (by rw [hpc]; rfl) (by rw [hpc]; rfl) (by rw [hpc]; rfl) htest
  | cv => exact h.setCv _
  | resume hresume => exact inv_resume h hresume
  | @retake f op k cv hpc hcv hmutex =>
      have hset : (s.setCv op.waitsOn cv).Inv := h.setCv _
      exact hset.taken hmutex (fun hidle => by cases hpc.symm.trans hidle) rfl rfl rfl
  | @finish f op k cv hpc hcv hmutex =>
      have hset : (s.setCv op.waitsOn cv).Inv := h.setCv _
      exact hset.taken hmutex (fun hidle => by cases hpc.symm.trans hidle) rfl rfl rfl
  | @leave f op k result cv hpc =>
      cases result with
      | true =>
          exact h.setCv_goto _ cv (by rw [hpc]; simp) (fun _ => by rw [hpc]; rfl)
            (fun hcloses => by cases hcloses) (by rw [hpc]; rfl) (by rw [hpc]; rfl)
      | false =>
          exact h.setCv_goto _ cv (by rw [hpc]; simp) (fun _ => by rw [hpc]; rfl)
            (fun hcloses => by cases hcloses) (by rw [hpc]; rfl) (by rw [hpc]; rfl)
  | @pass f result hpc =>
      refine h.goto (h.running f (by rw [hpc]; simp)) (fun _ => by rw [hpc]; rfl)
        (fun hcloses => by cases hcloses) ?_ ?_
      · rw [hpc]
        cases result <;> rfl
      · rw [hpc]
        cases result <;> rfl
  | @notify f g result p cv hpc =>
      refine h.setCv_goto _ cv (by rw [hpc]; simp) (fun _ => by rw [hpc]; rfl)
        (fun hcloses => by cases hcloses) ?_ ?_
      · rw [hpc]
        cases result <;> rfl
      · rw [hpc]
        cases result <;> rfl
  | @submit f result p cv hpc =>
      refine h.setCv_goto _ cv (by rw [hpc]; simp) (fun _ => by rw [hpc]; rfl)
        (fun hcloses => by cases hcloses) ?_ ?_
      · rw [hpc]
        cases result <;> rfl
      · rw [hpc]
        cases result <;> rfl
  | notifyPushers hpc =>
      exact h.setCv_goto _ _ (by rw [hpc]; simp) (fun _ => by rw [hpc]; rfl)
        (fun _ => by rw [hpc]; rfl) (by rw [hpc]; rfl) (by rw [hpc]; rfl)
  | notifyPoppers hpc =>
      exact h.setCv_goto _ _ (by rw [hpc]; simp) (fun _ => by rw [hpc]; rfl)
        (fun _ => by rw [hpc]; rfl) (by rw [hpc]; rfl) (by rw [hpc]; rfl)
  | @swap f hpc =>
      have hclosed : s.isClosed = true := h.closing f (by rw [hpc]; rfl)
      have hput : (Pc.unlocking (Result.closed : Result M) : Pc F M).put = [] := rfl
      have hempty : ([] : List M) = s.msgQueue ∨ ([] : List M) = [] := Or.inr rfl
      have hswapped := h.close (by rw [hpc]; rfl) (by rw [hpc]; rfl) (by rw [hpc]; rfl) hput rfl
        hempty
      rw [← hclosed] at hswapped
      exact hswapped
  | unlock hpc => exact inv_unlock h hpc

/-- **What a channel keeps to.** For any capacity and any number of fibers, in every order of their
steps. -/
theorem safe_of_reachable (s : State F M) (hreach : Reachable Step New s) : s.Safe := by
  have hinv : s.Inv := hreach.invariant (fun _ => inv_of_new) fun _ _ _ h hstep => inv_step h hstep
  exact hinv.safe

end Steps

section Examples

def newCv : CoCondVar.State F :=
  { mutex := false, waitQueue := [], ready := [], pending := [], waits := fun _ => none, next := 0,
    pc := fun _ => .idle }

/-- A channel for one message. -/
def newChannel : State F Nat :=
  { mutex := none, cv := fun _ => newCv, isClosed := false, capacity := 1, msgQueue := [],
    pc := fun _ => .idle, returned := fun _ => none, late := fun _ => false, pushed := [], popped := [] }

theorem new_newChannel : New (newChannel : State F Nat) :=
  ⟨rfl, fun _ => ⟨rfl, rfl, rfl, rfl, fun _ => rfl, fun _ => rfl⟩, rfl, rfl, fun _ => rfl,
    fun _ => rfl, rfl, rfl⟩

/-- A fiber waits for a message. -/
def waits (f : F) (op : Op Nat) : List (Label F Nat) :=
  [.call f op, .lock f, .test f, .cv .popCv (.yield f)]

/-- A fiber pushes a message and notifies another. -/
def pushes (f : F) (t : Nat) (g : F) : List (Label F Nat) :=
  [.call f (.push t), .lock f, .test f, .notify f (some g), .submit f, .unlock f]

/-- One fiber waits, another gives it a message, a third closes the channel. -/
def given : List (Label Nat Nat) :=
  waits 0 .pop ++ pushes 1 7 0 ++
    [.resume 0 .popCv, .retake 0, .test 0, .notify 0 none, .unlock 0, .call 2 .close, .lock 2, .test 2,
      .notifyAll 2, .notifyAll 2, .swap 2, .unlock 2, .call 1 (.push 8), .lock 1, .test 1, .unlock 1]

theorem safe_of_reachable_given :
    ∃ s : State Nat Nat, Reachable Step New s ∧ s.pushed = [7] ∧ s.popped = [7] ∧
      s.returned 1 = some false ∧ s.Safe := by
  obtain ⟨s, hrun, hvalue⟩ : ∃ s, given.foldlM step newChannel = some s ∧
      (s.pushed, s.popped, s.returned 1) = ([7], [7], some false) :=
    Option.map_eq_some_iff.mp (by decide)
  simp only [Prod.mk.injEq] at hvalue
  obtain ⟨hpushed, hpopped, hreturned⟩ := hvalue
  have hreach : Reachable Step New s :=
    .of_run (fun _ _ _ hstep => hstep) (.start new_newChannel) hrun
  exact ⟨s, hreach, hpushed, hpopped, hreturned, safe_of_reachable s hreach⟩

end Examples

end State

end AsyncRPC.ChannelQueue
