import AsyncRPC.Proof.Socket
import AsyncRPC.TcpServer
import Mathlib.Data.List.Perm.Basic

/-!
# What becomes of a server's sockets

Every object of a server is a listening socket that `socks_` or a `startAccept` holds, or a client in one
place on its way. What the methods of `Socket` do to the set of objects comes first.
-/

namespace AsyncRPC

open FdManager (File Host)
open Outcome

namespace Socket

variable {host : Host} {enabled : Bool} {n t : State} {i : Nat}

theorem base_of_reached (h : Reached host enabled n) : Base n := by
  apply Transition.Reachable.invariant (fun _ hnew => Base.init hnew) _ h
  rintro n l t hbase ⟨⟨hpossible, -⟩, hstep⟩
  exact hbase.step (does_of_step hbase hpossible hstep)

/-- A method that makes no object, and lets none go. -/
structure Same (n t : State) : Prop where
  made : t.made = n.made
  connecting : t.connecting = n.connecting
  accepting : t.accepting = n.accepting
  alive : ∀ j, (t.sockets j).isSome = (n.sockets j).isSome

/-- An object is ready for the address. -/
def Ready (n : State) (i : Nat) (address : SockAddr) : Prop :=
  ∃ s, n.sockets i = some s ∧ s.family = address.family ∧ s.fd ≠ -1

theorem alive_update {s : Socket} (hi : (n.sockets i).isSome = true) (j : Nat) :
    (Function.update n.sockets i (some s) j).isSome = (n.sockets j).isSome := by
  by_cases hj : j = i
  · rw [hj, Function.update_self, hi]
    rfl
  · rw [Function.update_of_ne hj]

theorem same_bind (h : Base n) {address : SockAddr} {file : Option (Int32 × File)} {bound : Bool}
    {sockname : Option SockAddr} (hfresh : n.Fresh file)
    (hstep : n.step host (.bind i address enabled file bound sockname) = some t) : Same n t := by
  obtain ⟨s, hi, hrun⟩ := on_eq_some hstep
  obtain ⟨⟨valid, s', n'⟩, hprepare, hlast⟩ := bind_eq_ok.mp hrun
  obtain ⟨fd, -, -, hn', -, -⟩ := prepare_turn h hi (prepared h hi hfresh hprepare)
  have hdone : ∃ s'' b, t = (n'.put i s'').answer i b := by
    dsimp only at hlast
    split at hlast
    · exact ⟨s', false, (Except.ok.inj hlast).symm⟩
    · split at hlast
      · exact ⟨s', false, (Except.ok.inj hlast).symm⟩
      · split at hlast
        · exact ⟨s', false, (Except.ok.inj hlast).symm⟩
        · exact ⟨_, true, (Except.ok.inj hlast).symm⟩
  obtain ⟨s'', b, rfl⟩ := hdone
  rw [hn']
  exact ⟨rfl, rfl, rfl, alive_update (by rw [hi]; rfl)⟩

theorem listen_sockets {listens : Bool} (hstep : n.step host (.listen i listens) = some t) :
    t.sockets = n.sockets := by
  obtain ⟨s, hi, hrun⟩ := on_eq_some hstep
  obtain ⟨valid, -, hlast⟩ := bind_eq_ok.mp hrun
  split at hlast
  · cases hlast
    rfl
  · cases hlast
    rfl

theorem same_listen {listens : Bool} (hstep : n.step host (.listen i listens) = some t) : Same n t := by
  obtain ⟨s, hi, hrun⟩ := on_eq_some hstep
  obtain ⟨valid, -, hlast⟩ := bind_eq_ok.mp hrun
  split at hlast
  · cases hlast
    exact ⟨rfl, rfl, rfl, fun _ => rfl⟩
  · cases hlast
    exact ⟨rfl, rfl, rfl, fun _ => rfl⟩

theorem same_close (h : Base n) (hstep : n.step host (.close i enabled) = some t) : Same n t := by
  obtain ⟨s, hi, hrun⟩ := on_eq_some hstep
  obtain ⟨⟨s', n'⟩, hclose, rfl⟩ := map_eq_ok.mp hrun
  obtain ⟨-, -, -, -, hn'⟩ := close_turn h hclose
  dsimp only
  rw [hn']
  exact ⟨rfl, rfl, rfl, alive_update (by rw [hi]; rfl)⟩

theorem openFile_sockets {fd : Int32} {file : File} {isSocket : Bool}
    (hstep : n.step host (.openFile fd file isSocket) = some t) : t.sockets = n.sockets := by
  have hrun := toOption_eq_some.mp hstep
  unfold State.openFile at hrun
  split at hrun
  · obtain ⟨opened, -, hlast⟩ := bind_eq_ok.mp hrun
    cases hlast
    rfl
  · cases hrun
    rfl

theorem closeFile_sockets {fd : Int32} (hstep : n.step host (.closeFile fd enabled) = some t) :
    t.sockets = n.sockets := by
  obtain ⟨w, -, hlast⟩ := bind_eq_ok.mp (toOption_eq_some.mp hstep)
  cases hlast
  rfl

theorem same_openFile {fd : Int32} {file : File} {isSocket : Bool}
    (hstep : n.step host (.openFile fd file isSocket) = some t) : Same n t := by
  have hrun := toOption_eq_some.mp hstep
  unfold State.openFile at hrun
  split at hrun
  · obtain ⟨opened, -, hlast⟩ := bind_eq_ok.mp hrun
    cases hlast
    exact ⟨rfl, rfl, rfl, fun _ => rfl⟩
  · cases hrun
    exact ⟨rfl, rfl, rfl, fun _ => rfl⟩

theorem same_closeFile {fd : Int32} (hstep : n.step host (.closeFile fd enabled) = some t) :
    Same n t := by
  obtain ⟨w, -, hlast⟩ := bind_eq_ok.mp (toOption_eq_some.mp hstep)
  cases hlast
  exact ⟨rfl, rfl, rfl, fun _ => rfl⟩

theorem Prepared.family_eq {file : Option (Int32 × File)} {s s' : Socket} {n' : State} {valid : Bool}
    (hprepared : Prepared enabled file n s valid s' n') : s'.family = s.family := by
  cases hprepared with
  | valid => rfl
  | failed => rfl
  | taken => rfl

/-- A new object is valid just if the hooks are on and the kernel has a descriptor for it. -/
theorem Prepared.valid_eq {file : Option (Int32 × File)} {s s' : Socket} {n' : State} {valid : Bool}
    (h : Reached host enabled n) (hfd : s.fd = -1)
    (hprepared : Prepared enabled file n s valid s' n') : valid = (enabled && file.isSome) := by
  have hbase := base_of_reached h
  cases hprepared with
  | valid husable =>
      rw [hfd, hbase.not_usable] at husable
      cases husable
  | failed hnot hfile =>
      rw [hfile]
      exact (Bool.and_false enabled).symm
  | @taken fd made w hnot hnonneg hclosed hsock htakes hfile =>
      rw [hfile, Option.isSome_some, Bool.and_true]
      cases enabled with
      | true => exact htakes.usable rfl hsock ((tidy_of_reached h).2.closed _ hclosed)
      | false =>
          have hbare := (bare_of_reached h).2.not_usable fd
          rwa [Hook.World.usable, ← htakes.unhooked rfl] at hbare

theorem getLocalAddress_family (s : Socket) (sockname : Option SockAddr) :
    (s.getLocalAddress sockname).family = s.family := by
  unfold getLocalAddress
  split
  · rfl
  · rfl

/-- What `bind` does to the object and says of it. -/
theorem bind_effect (h : Base n) {s : Socket} (hi : n.sockets i = some s) {address : SockAddr}
    {file : Option (Int32 × File)} {bound : Bool} {sockname : Option SockAddr} (hfresh : n.Fresh file)
    (hfamily : s.family = address.family)
    (hstep : n.step host (.bind i address enabled file bound sockname) = some t) :
    ∃ x valid s' n', Prepared enabled file n s valid s' n' ∧
      t.sockets = Function.update n.sockets i (some x) ∧ x.family = address.family ∧
      t.answers = n.answers ++ [(i, valid && bound)] ∧ (valid = true → t.world.usable x.fd = true) := by
  obtain ⟨s₀, hi', hrun⟩ := on_eq_some hstep
  obtain rfl := Option.some.inj (hi.symm.trans hi')
  obtain ⟨⟨valid, s', n'⟩, hprepare, hlast⟩ := bind_eq_ok.mp hrun
  have hprepared := prepared h hi hfresh hprepare
  have hfamily' : s'.family = address.family := hprepared.family_eq.trans hfamily
  obtain ⟨fd, -, rfl, hn', husable, -⟩ := prepare_turn h hi hprepared
  have hsockets : n'.sockets = n.sockets := by
    rw [hn']
  have hanswers : n'.answers = n.answers := by
    rw [hn']
  dsimp only at hlast
  split at hlast
  · next hinvalid =>
    obtain rfl : valid = false := by simpa using hinvalid
    cases hlast
    exact ⟨_, _, _, _, hprepared, by rw [← hsockets]; rfl, hfamily', by rw [← hanswers]; rfl,
      fun hvalid => by cases hvalid⟩
  · next hvalid =>
    obtain rfl : valid = true := by simpa using hvalid
    rw [if_neg (not_not.mpr hfamily'.symm)] at hlast
    split at hlast
    · next hunbound =>
      obtain rfl : bound = false := by simpa using hunbound
      cases hlast
      exact ⟨_, _, _, _, hprepared, by rw [← hsockets]; rfl, hfamily', by rw [← hanswers]; rfl, husable⟩
    · next hbound =>
      obtain rfl : bound = true := by simpa using hbound
      cases hlast
      refine ⟨_, _, _, _, hprepared, by rw [← hsockets]; rfl, ?_, by rw [← hanswers]; rfl, fun hvalid => ?_⟩
      · rw [getLocalAddress_family]
        exact hfamily'
      · rw [(getLocalAddress_fd _ sockname).1]
        exact husable hvalid

theorem listen_effect (h : Base n) {x : Socket} (hi : n.sockets i = some x)
    (husable : n.world.usable x.fd = true) {listens : Bool}
    (hstep : n.step host (.listen i listens) = some t) : t.answers = n.answers ++ [(i, listens)] := by
  obtain ⟨x', hi', hrun⟩ := on_eq_some hstep
  obtain rfl := Option.some.inj (hi.symm.trans hi')
  obtain ⟨valid, hvalid, hlast⟩ := bind_eq_ok.mp hrun
  rw [h.isVaild hi, husable] at hvalid
  cases hvalid
  cases hlast
  rfl

theorem close_answers {s s' : Socket} {n' : State} (hrun : n.close host s enabled = .ok (s', n')) :
    n'.answers = n.answers := by
  unfold State.close at hrun
  split at hrun
  · cases hrun
    rfl
  · dsimp only at hrun
    split at hrun
    · obtain ⟨w, -, hlast⟩ := bind_eq_ok.mp hrun
      cases hlast
      rfl
    · cases hrun
      rfl

theorem destroy_answers (hstep : n.step host (.destroy i enabled) = some t) : t.answers = n.answers := by
  obtain ⟨s, -, hrun⟩ := on_eq_some hstep
  obtain ⟨⟨s', n'⟩, hclose, rfl⟩ := map_eq_ok.mp hrun
  have hanswers : n'.answers = n.answers := close_answers hclose
  exact hanswers

/-- The object goes. -/
structure Goes (i : Nat) (n t : State) : Prop where
  made : t.made = n.made
  connecting : t.connecting = n.connecting
  accepting : t.accepting = n.accepting
  sockets : t.sockets = Function.update n.sockets i none

theorem goes_destroy (h : Base n) (hstep : n.step host (.destroy i enabled) = some t) : Goes i n t := by
  obtain ⟨s, hi, hrun⟩ := on_eq_some hstep
  obtain ⟨⟨s', n'⟩, hclose, rfl⟩ := map_eq_ok.mp hrun
  obtain ⟨-, -, -, -, hn'⟩ := close_turn h hclose
  dsimp only
  rw [hn']
  exact ⟨rfl, rfl, rfl, rfl⟩

/-- An object that has no descriptor, or is gone. -/
def Closed (n : State) (i : Nat) : Prop := ∀ s, n.sockets i = some s → s.fd = -1

/-- No object that there is takes a descriptor. -/
structure Leaves (n t : State) : Prop where
  made : n.made ≤ t.made
  sockets : ∀ j, j < n.made → t.sockets j = n.sockets j ∨ Closed t j

theorem Leaves.of_eq (hmade : n.made ≤ t.made) (h : t.sockets = n.sockets) : Leaves n t :=
  ⟨hmade, fun j _ => Or.inl (congrFun h j)⟩

theorem Leaves.refl (n : State) : Leaves n n := .of_eq le_rfl rfl

theorem Leaves.closed (h : Leaves n t) {j : Nat} (hj : j < n.made) (hclosed : Closed n j) :
    Closed t j := by
  rcases h.sockets j hj with heq | hclosed'
  · intro s hs
    exact hclosed s (heq ▸ hs)
  · exact hclosed'

theorem Leaves.trans {u : State} (h : Leaves n t) (h' : Leaves t u) : Leaves n u := by
  refine ⟨h.made.trans h'.made, fun j hj => ?_⟩
  have hj' : j < t.made := hj.trans_le h.made
  rcases h.sockets j hj with heq | hclosed
  · rcases h'.sockets j hj' with heq' | hclosed'
    · exact Or.inl (heq'.trans heq)
    · exact Or.inr hclosed'
  · exact Or.inr (h'.closed hj' hclosed)

theorem leaves_update {o : Option Socket} (ho : ∀ s, o = some s → s.fd = -1) (hmade : t.made = n.made)
    (h : t.sockets = Function.update n.sockets i o) : Leaves n t ∧ Closed t i := by
  have hclosed : Closed t i := by
    intro s hs
    rw [h, Function.update_self] at hs
    exact ho s hs
  refine ⟨⟨hmade.ge, fun j _ => ?_⟩, hclosed⟩
  by_cases hj : j = i
  · exact Or.inr (hj ▸ hclosed)
  · exact Or.inl (by rw [h, Function.update_of_ne hj])

theorem leaves_close (h : Base n) (hstep : n.step host (.close i enabled) = some t) :
    Leaves n t ∧ Closed t i := by
  obtain ⟨s, hi, hrun⟩ := on_eq_some hstep
  obtain ⟨⟨s', n'⟩, hclose, rfl⟩ := map_eq_ok.mp hrun
  obtain ⟨-, hfd, -, -, hn'⟩ := close_turn h hclose
  refine leaves_update (o := some s') (fun x hx => Option.some.inj hx ▸ hfd) ?_ ?_
  · dsimp only
    rw [hn']
    rfl
  · dsimp only
    rw [hn']
    rfl

theorem leaves_destroy (h : Base n) (hstep : n.step host (.destroy i enabled) = some t) : Leaves n t :=
  (leaves_update (fun s hs => by cases hs) (goes_destroy h hstep).made (goes_destroy h hstep).sockets).1

/-- A new object comes. -/
structure Comes (n t : State) : Prop where
  made : t.made = n.made + 1
  connecting : t.connecting = n.connecting
  sockets : ∃ s, t.sockets = Function.update n.sockets n.made (some s)

theorem accept_effect (hstep : n.step host (.accept i enabled) = some t) : t.made = n.made ∧
    t.connecting = n.connecting ∧ t.sockets = n.sockets ∧ t.accepting = n.accepting ++ [i] := by
  obtain ⟨s, hi, hrun⟩ := on_eq_some hstep
  unfold State.accept at hrun
  dsimp only at hrun
  split at hrun
  · obtain ⟨found, -, hlast⟩ := bind_eq_ok.mp hrun
    cases hlast
    exact ⟨rfl, rfl, rfl, rfl⟩
  · cases hrun
    exact ⟨rfl, rfl, rfl, rfl⟩

/-- `accept` returns with a new object or without one. -/
theorem accepted_effect {file : Option (Int32 × File)} {sockname peername : Option SockAddr}
    (hstep : n.step host (.accepted i enabled file sockname peername) = some t) :
    i ∈ n.accepting ∧ t.accepting = n.accepting.erase i ∧
      ((t.answers.getLast?.any Prod.snd = true ∧ Comes n t ∧ file ≠ none) ∨
        (t.answers.getLast?.any Prod.snd = false ∧ n.made ≤ t.made ∧ t.connecting = n.connecting ∧
          t.sockets = n.sockets)) := by
  rw [State.step] at hstep
  split at hstep
  · next hin =>
    obtain ⟨s, hi, hrun⟩ := on_eq_some hstep
    obtain ⟨⟨r, w⟩, haccept, hlast⟩ := bind_eq_ok.mp hrun
    dsimp only at hlast
    split at hlast
    · cases hlast
      exact ⟨hin, rfl, Or.inr ⟨by simp [State.answer], le_rfl, rfl, rfl⟩⟩
    · next hnonneg =>
      obtain ⟨made, -, hdone⟩ := bind_eq_ok.mp hlast
      split at hdone
      · cases hdone
        exact ⟨hin, rfl, Or.inr ⟨by simp [State.answer], Nat.le_succ _, rfl, rfl⟩⟩
      · next client =>
        cases hdone
        refine ⟨hin, rfl, Or.inl ⟨by simp [State.answer, State.put], ⟨rfl, rfl, client, rfl⟩, ?_⟩⟩
        rintro rfl
        cases haccept
        exact hnonneg (by decide)
  · cases hstep

end Socket

namespace TcpServer

open Socket (Closed Goes Leaves Same)

variable {host : Host} {enabled : Bool}

/-- A `startAccept` holds the socket. -/
def Holds (loops : List Loop) (i : Nat) : Prop := ∃ loop ∈ loops, loop.socket = some i

namespace State

variable {s t : State} {i j k : Nat} {loop new : Loop}

theorem call_eq_some {l : Socket.Label} : s.call host l = some t ↔
    ∃ net, s.net.step host l = some net ∧ { s with net := net } = t :=
  Option.map_eq_some_iff

/-- A loop moves on: what is said of the places without their order. -/
theorem perm_setLoop (h : s.loops[k]? = some loop) (new : Loop) :
    (loop :: (s.setLoop k new).loops).Perm (new :: s.loops) := by
  obtain ⟨hlt, rfl⟩ := List.getElem?_eq_some_iff.mp h
  calc
    (s.loops[k] :: s.loops.set k new).Perm (s.loops[k] :: new :: s.loops.eraseIdx k) :=
      (List.set_perm_cons_eraseIdx hlt new).cons _
    List.Perm _ (new :: s.loops[k] :: s.loops.eraseIdx k) := List.Perm.swap _ _ _
    List.Perm _ (new :: s.loops) := (List.getElem_cons_eraseIdx_perm hlt).cons _

theorem count_setLoop (h : s.loops[k]? = some loop) (new other : Loop) :
    (s.setLoop k new).loops.count other + (if loop = other then 1 else 0)
      = s.loops.count other + if new = other then 1 else 0 := by
  have hcount := (perm_setLoop h new).count_eq other
  simpa [List.count_cons] using hcount

theorem perm_inHand (h : s.loops[k]? = some loop) (new : Loop) :
    (loop.client.toList ++ (s.setLoop k new).inHand).Perm (new.client.toList ++ s.inHand) := by
  have hcons : ∀ (loop : Loop) loops,
      (loop :: loops).filterMap Loop.client = loop.client.toList ++ loops.filterMap Loop.client := by
    intro loop loops
    cases hclient : loop.client with
    | none => rw [List.filterMap_cons_none hclient]; rfl
    | some client => rw [List.filterMap_cons_some hclient]; rfl
  have hperm := (perm_setLoop h new).filterMap Loop.client
  rwa [hcons, hcons] at hperm

theorem holds_of_getElem (h : s.loops[k]? = some loop) (hi : loop.socket = some i) :
    Holds s.loops i :=
  ⟨loop, List.mem_of_getElem? h, hi⟩

theorem holds_setLoop (h : s.loops[k]? = some loop) (new : Loop) :
    loop.socket = some j ∨ Holds (s.setLoop k new).loops j ↔
      new.socket = some j ∨ Holds s.loops j := by
  have hmem : (∃ other ∈ loop :: (s.setLoop k new).loops, other.socket = some j) ↔
      ∃ other ∈ new :: s.loops, other.socket = some j := by
    constructor
    · rintro ⟨other, hin, hj⟩
      exact ⟨other, (perm_setLoop h new).mem_iff.mp hin, hj⟩
    · rintro ⟨other, hin, hj⟩
      exact ⟨other, (perm_setLoop h new).mem_iff.mpr hin, hj⟩
  simpa [Holds] using hmem

/-- The loop goes on with its socket. -/
theorem holds_setLoop_same (h : s.loops[k]? = some loop) (hsame : new.socket = loop.socket) :
    Holds (s.setLoop k new).loops j ↔ Holds s.loops j := by
  have hlt : k < s.loops.length := (List.getElem?_eq_some_iff.mp h).1
  have hnew : (s.setLoop k new).loops[k]? = some new := List.getElem?_set_self hlt
  have hboth := holds_setLoop (j := j) h new
  constructor
  · intro hholds
    rcases hboth.mp (Or.inr hholds) with hj | hj
    · exact holds_of_getElem h (hsame.symm.trans hj)
    · exact hj
  · intro hholds
    rcases hboth.mpr (Or.inr hholds) with hj | hj
    · exact holds_of_getElem hnew (hsame.trans hj)
    · exact hj

end State

/-- The invariant, while `hand` is what the step that is under way holds itself. -/
structure Inv (host : Host) (enabled : Bool) (hand : List Nat) (s : State) : Prop where
  net : Socket.Reached host enabled s.net
  connecting : s.net.connecting = []
  accepting : ∀ i, s.net.accepting.count i = s.loops.count (.accepting i)
  alive : ∀ i, (s.net.sockets i).isSome = true ↔ (i ∈ s.socks ∨ Holds s.loops i) ∨ i ∈ s.stages ∨ i ∈ hand
  apart : ∀ i ∈ s.stages, ¬ (i ∈ s.socks ∨ Holds s.loops i) ∧ i ∉ hand
  hand : hand.Nodup
  socks : s.socks.Nodup
  stages : s.stages.Nodup
  served : s.served.Nodup
  submitted : ∀ i ∈ s.clients ++ s.handling, i ∈ s.served
  waiting : ∀ i ∈ s.inHand, i ∉ s.served
  made : ∀ i ∈ s.served, i < s.net.made

section Invariant

variable {hand : List Nat} {s t : State} {i : Nat} {net : Socket.State}

namespace Inv

theorem base (h : Inv host enabled hand s) : Socket.Base s.net := Socket.base_of_reached h.net

theorem next (h : Inv host enabled hand s) {l : Socket.Label} (hpossible : s.net.Possible l)
    (henabled : l.enabled ≠ some (!enabled)) (hstep : s.net.step host l = some net) :
    Socket.Reached host enabled net :=
  h.net.next ⟨⟨hpossible, henabled⟩, hstep⟩

theorem not_connecting (h : Inv host enabled hand s) (i : Nat) : i ∉ s.net.connecting := by
  rw [h.connecting]
  exact List.not_mem_nil

theorem not_accepting (h : Inv host enabled hand s) (hnot : ¬ Holds s.loops i) : i ∉ s.net.accepting := by
  intro hin
  have hcount := List.count_pos_iff.mpr hin
  rw [h.accepting] at hcount
  exact hnot ⟨_, List.count_pos_iff.mp hcount, rfl⟩

theorem lt_made (h : Inv host enabled hand s) (hi : (s.net.sockets i).isSome = true) :
    i < s.net.made := by
  by_contra hge
  rw [h.base.unmade i (Nat.le_of_not_lt hge)] at hi
  cases hi

/-- The methods that leave the objects. -/
theorem same (h : Inv host enabled hand s) (hnet : Socket.Reached host enabled net)
    (hsame : Same s.net net) : Inv host enabled hand { s with net := net } where
  net := hnet
  connecting := hsame.connecting.trans h.connecting
  accepting := fun i => (congrArg _ hsame.accepting).trans (h.accepting i)
  alive := fun i => (hsame.alive i).symm ▸ h.alive i
  apart := h.apart
  hand := h.hand
  socks := h.socks
  stages := h.stages
  served := h.served
  submitted := h.submitted
  waiting := h.waiting
  made := fun i hi => hsame.made.symm ▸ h.made i hi

theorem create (h : Inv host enabled [] s) {family type protocol : Nat}
    (hstep : s.net.step host (.create family type protocol) = some net) :
    Inv host enabled [s.net.made] { s with net := net } := by
  have hnet : Socket.Reached host enabled net :=
    h.next (l := .create family type protocol) trivial (by simp [Socket.Label.enabled]) hstep
  cases hstep
  have hunmade := h.base.unmade s.net.made le_rfl
  refine
    { h with
      net := hnet
      alive := fun j => ?_
      apart := fun j hj => ⟨(h.apart j hj).1, ?_⟩
      hand := List.nodup_singleton _
      made := fun j hj => (h.made j hj).trans (Nat.lt_succ_self _) }
  · have hold := h.alive j
    change (Function.update s.net.sockets s.net.made _ j).isSome = true ↔
      (j ∈ s.socks ∨ Holds s.loops j) ∨ j ∈ s.stages ∨ j ∈ [s.net.made]
    by_cases hj : j = s.net.made
    · subst hj
      simp
    · simpa [Function.update_of_ne hj, hj] using hold
  · have halive := (h.alive j).mpr (Or.inr (Or.inl hj))
    intro hin
    rw [List.mem_singleton.mp hin, hunmade] at halive
    cases halive

/-- The last pointer to an object is gone. -/
theorem destroy (h : Inv host enabled (i :: hand) s) (hnot : ¬ (i ∈ s.socks ∨ Holds s.loops i))
    (hstep : s.net.step host (.destroy i enabled) = some net) :
    Inv host enabled hand { s with net := net } := by
  have hnet : Socket.Reached host enabled net :=
    h.next (l := .destroy i enabled) ⟨h.not_connecting i, h.not_accepting fun hholds => hnot (Or.inr hholds)⟩
      (by simp [Socket.Label.enabled]) hstep
  have hgoes := Socket.goes_destroy h.base hstep
  obtain ⟨hnew, hnodup⟩ := List.nodup_cons.mp h.hand
  refine
    { h with
      net := hnet
      connecting := hgoes.connecting.trans h.connecting
      accepting := fun j => (congrArg _ hgoes.accepting).trans (h.accepting j)
      alive := fun j => ?_
      apart := fun j hj =>
        ⟨(h.apart j hj).1, fun hin => (h.apart j hj).2 (List.mem_cons_of_mem i hin)⟩
      hand := hnodup
      made := fun j hj => hgoes.made.symm ▸ h.made j hj }
  dsimp only
  rw [hgoes.sockets]
  by_cases hj : j = i
  · subst hj
    have hstage : j ∉ s.stages := fun hin => (h.apart j hin).2 List.mem_cons_self
    have hnone : ¬ ((j ∈ s.socks ∨ Holds s.loops j) ∨ j ∈ s.stages ∨ j ∈ hand) := by
      rintro (hin | hin | hin)
      · exact hnot hin
      · exact hstage hin
      · exact hnew hin
    rw [Function.update_self]
    exact ⟨(fun hsome => by cases hsome), fun hin => absurd hin hnone⟩
  · rw [Function.update_of_ne hj]
    have hold := h.alive j
    rwa [List.mem_cons, or_iff_right hj] at hold

/-- A pointer to a listening socket is gone, and it is not the last one. -/
theorem keep (h : Inv host enabled (i :: hand) s) (hlistens : i ∈ s.socks ∨ Holds s.loops i) :
    Inv host enabled hand s where
  __ := h
  alive := fun j => by
    have hold := h.alive j
    constructor
    · intro hsome
      rcases hold.mp hsome with hin | hin | hin
      · exact Or.inl hin
      · exact Or.inr (Or.inl hin)
      · rcases List.mem_cons.mp hin with rfl | hin
        · exact Or.inl hlistens
        · exact Or.inr (Or.inr hin)
    · rintro (hin | hin | hin)
      · exact hold.mpr (Or.inl hin)
      · exact hold.mpr (Or.inr (Or.inl hin))
      · exact hold.mpr (Or.inr (Or.inr (List.mem_cons_of_mem i hin)))
  apart := fun j hj => ⟨(h.apart j hj).1, fun hin => (h.apart j hj).2 (List.mem_cons_of_mem i hin)⟩
  hand := (List.nodup_cons.mp h.hand).2

theorem release (h : Inv host enabled (i :: hand) s) (hrelease : s.release host i enabled = some t) :
    Inv host enabled hand t ∧ ∃ net, t = { s with net := net } ∧ Leaves s.net net := by
  unfold State.release at hrelease
  split at hrelease
  · next hin =>
    cases hrelease
    refine ⟨h.keep (hin.imp_right fun hany => ?_), _, rfl, Leaves.refl _⟩
    obtain ⟨loop, hloop, hsocket⟩ := List.any_eq_true.mp hany
    exact ⟨loop, hloop, of_decide_eq_true hsocket⟩
  · next hnot =>
    obtain ⟨net, hstep, rfl⟩ := State.call_eq_some.mp hrelease
    refine ⟨h.destroy (fun hin => hnot (hin.imp_right ?_)) hstep, net, rfl,
      Socket.leaves_destroy h.base hstep⟩
    rintro ⟨loop, hloop, hsocket⟩
    exact List.any_eq_true.mpr ⟨loop, hloop, decide_eq_true hsocket⟩

theorem release_all (h : Inv host enabled hand s)
    (hrun : hand.foldlM (fun s i => s.release host i enabled) s = some t) :
    Inv host enabled [] t ∧ ∃ net, t = { s with net := net } ∧ Leaves s.net net := by
  induction hand generalizing s with
  | nil =>
      cases hrun
      exact ⟨h, _, rfl, Leaves.refl _⟩
  | cons i hand ih =>
      rw [List.foldlM_cons] at hrun
      obtain ⟨u, hfirst, hrest⟩ := Option.bind_eq_some_iff.mp hrun
      obtain ⟨hu, net, rfl, hleaves⟩ := h.release hfirst
      obtain ⟨ht, net', rfl, hleaves'⟩ := ih hu hrest
      exact ⟨ht, net', rfl, hleaves.trans hleaves'⟩

theorem release_answers {socks : List Nat}
    (hrun : socks.foldlM (fun s i => s.release host i enabled) s = some t) :
    t.net.answers = s.net.answers := by
  induction socks generalizing s with
  | nil =>
      cases hrun
      rfl
  | cons i socks ih =>
      rw [List.foldlM_cons] at hrun
      obtain ⟨u, hfirst, hrest⟩ := Option.bind_eq_some_iff.mp hrun
      refine (ih hrest).trans ?_
      unfold State.release at hfirst
      split at hfirst
      · cases hfirst
        rfl
      · obtain ⟨net, hstep, rfl⟩ := State.call_eq_some.mp hfirst
        exact Socket.destroy_answers hstep

theorem clear (h : Inv host enabled [] s) (hclear : s.clear host enabled = some t) :
    Inv host enabled [] t ∧ ∃ net, t = { s with net := net, socks := [] } ∧ Leaves s.net net := by
  have hin : Inv host enabled s.socks { s with socks := [] } :=
    { h with
      alive := fun i => by
        have hold := h.alive i
        simp only [List.not_mem_nil, or_false, false_or] at hold ⊢
        rw [hold, or_comm (a := i ∈ s.socks), or_assoc, or_comm (a := i ∈ s.socks)]
        rfl
      apart := fun i hi => by
        obtain ⟨hnot, -⟩ := h.apart i hi
        exact ⟨fun hor => hnot (Or.inr (hor.resolve_left List.not_mem_nil)),
          fun hsock => hnot (Or.inl hsock)⟩
      hand := h.socks
      socks := List.nodup_nil }
  exact hin.release_all hclear

theorem not_listens (h : Inv host enabled hand s) :
    ¬ (s.net.made ∈ s.socks ∨ Holds s.loops s.net.made) := by
  intro hlistens
  have halive := (h.alive s.net.made).mpr (Or.inl hlistens)
  rw [h.base.unmade s.net.made le_rfl] at halive
  cases halive

theorem push (h : Inv host enabled [i] s) (hnot : i ∉ s.socks) :
    Inv host enabled [] { s with socks := s.socks ++ [i] } where
  __ := h
  alive := fun j => by
    have hold := h.alive j
    change _ ↔ (j ∈ s.socks ++ [i] ∨ Holds s.loops j) ∨ j ∈ s.stages ∨ j ∈ []
    rw [hold, List.mem_append]
    simp only [List.not_mem_nil, or_false]
    tauto
  apart := fun j hj => by
    obtain ⟨hlistens, hhand⟩ := h.apart j hj
    refine ⟨?_, List.not_mem_nil⟩
    rintro (hin | hin)
    · rcases List.mem_append.mp hin with hin | hin
      · exact hlistens (Or.inl hin)
      · exact hhand hin
    · exact hlistens (Or.inr hin)
  hand := List.nodup_nil
  socks := by
    refine List.nodup_append.mpr ⟨h.socks, List.nodup_singleton i, fun j hj j' hj' => ?_⟩
    rintro rfl
    exact hnot (List.mem_singleton.mp hj' ▸ hj)

end Inv

/-- A round of `bind`. -/
structure Tries (enabled : Bool) (a : Attempt) (r r' : List SockAddr × State) : Prop where
  frame : ∃ net socks, r'.2 = { r.2 with net := net, socks := socks }
  made : r'.2.net.made = r.2.net.made + 1
  others : ∀ j, j < r.2.net.made → r'.2.net.sockets j = r.2.net.sockets j
  told : ∃ answers, r'.2.net.answers = r.2.net.answers ++ answers ∧
    (∀ p ∈ answers, p.1 = r.2.net.made) ∧
    ((r.2.net.made, false) ∈ answers ↔ a.succeeds enabled = false)
  result : (a.succeeds enabled = false ∧ r'.1 = r.1 ++ [a.address] ∧ r'.2.socks = r.2.socks) ∨
    (a.succeeds enabled = true ∧ r'.1 = r.1 ∧ r'.2.socks = r.2.socks ++ [r.2.net.made] ∧
      Socket.Ready r'.2.net r.2.net.made a.address)

theorem returned_eq {n : Socket.State} {answers : List (Nat × Bool)} {b : Bool}
    (h : n.answers = answers ++ [(i, b)]) (s : State) : ({ s with net := n } : State).returned = b := by
  simp [State.returned, h]

/-- The object that has failed goes. -/
theorem Inv.tries_of_destroy {a : Attempt} {fail : List SockAddr} {s t : State} {n : Socket.State}
    {answers : List Bool} (h : Inv host enabled [s.net.made] { s with net := n })
    (hnot : ¬ (s.net.made ∈ s.socks ∨ Holds s.loops s.net.made)) (hmade : n.made = s.net.made + 1)
    (hothers : ∀ j, j < s.net.made → n.sockets j = s.net.sockets j)
    (hanswers : n.answers = s.net.answers ++ answers.map (s.net.made, ·)) (hfalse : false ∈ answers)
    (hfails : a.succeeds enabled = false)
    (hcall : ({ s with net := n } : State).call host (.destroy s.net.made enabled) = some t) :
    Inv host enabled [] t ∧ Tries enabled a (fail, s) (fail ++ [a.address], t) := by
  obtain ⟨n', hstep, rfl⟩ := State.call_eq_some.mp hcall
  have hgoes := Socket.goes_destroy h.base hstep
  refine ⟨h.destroy hnot hstep, ⟨n', s.socks, rfl⟩, hgoes.made.trans hmade, fun j hj => ?_,
    ⟨_, (Socket.destroy_answers hstep).trans hanswers, fun p hp => ?_, ?_⟩,
    Or.inl ⟨hfails, rfl, rfl⟩⟩
  · change n'.sockets j = s.net.sockets j
    rw [hgoes.sockets, Function.update_of_ne (Nat.ne_of_lt hj)]
    exact hothers j hj
  · obtain ⟨b, -, rfl⟩ := List.mem_map.mp hp
    rfl
  · exact iff_of_true (List.mem_map.mpr ⟨false, hfalse, rfl⟩) hfails

theorem Inv.tryBind {a : Attempt} {r r' : List SockAddr × State} (h : Inv host enabled [] r.2)
    (hfresh : r.2.net.Fresh a.file) (hrun : State.tryBind host enabled r a = some r') :
    Inv host enabled [] r'.2 ∧ Tries enabled a r r' := by
  obtain ⟨fail, s⟩ := r
  unfold State.tryBind at hrun
  obtain ⟨s₁, hcreate, hrun⟩ := Option.bind_eq_some_iff.mp hrun
  obtain ⟨n₁, hstep₁, rfl⟩ := State.call_eq_some.mp hcreate
  obtain ⟨s₂, hbind, hrun⟩ := Option.bind_eq_some_iff.mp hrun
  obtain ⟨n₂, hstep₂, rfl⟩ := State.call_eq_some.mp hbind
  have h₁ := h.create hstep₁
  have hnot : ¬ (s.net.made ∈ s.socks ∨ Holds s.loops s.net.made) := h.not_listens
  have hfresh₁ : n₁.Fresh a.file := by
    cases hstep₁
    exact hfresh
  have hmade₁ : n₁.made = s.net.made + 1 := by
    cases hstep₁
    rfl
  have hanswers₁ : n₁.answers = s.net.answers := by
    cases hstep₁
    rfl
  have hsocket₁ : n₁.sockets
      = Function.update s.net.sockets s.net.made (some (Socket.new a.address.family 1 0)) := by
    cases hstep₁
    rfl
  have hi₁ : n₁.sockets s.net.made = some (Socket.new a.address.family 1 0) := by
    rw [hsocket₁, Function.update_self]
  have hreached₂ : Socket.Reached host enabled n₂ :=
    h₁.next (l := .bind s.net.made a.address enabled a.file a.bound a.sockname)
      ⟨h₁.not_connecting _, hfresh₁⟩ (by simp [Socket.Label.enabled]) hstep₂
  have hsame₂ := Socket.same_bind h₁.base hfresh₁ hstep₂
  have h₂ := h₁.same hreached₂ hsame₂
  obtain ⟨x, valid, s', n', hprepared, hsockets₂, hfamily, hanswers₂, husable⟩ :=
    Socket.bind_effect h₁.base hi₁ hfresh₁ rfl hstep₂
  obtain rfl := hprepared.valid_eq h₁.net rfl
  rw [hanswers₁] at hanswers₂
  have hmade₂ : n₂.made = s.net.made + 1 := hsame₂.made.trans hmade₁
  have hothers₂ : ∀ j, j < s.net.made → n₂.sockets j = s.net.sockets j := by
    intro j hj
    rw [hsockets₂, hsocket₁, Function.update_of_ne (Nat.ne_of_lt hj),
      Function.update_of_ne (Nat.ne_of_lt hj)]
  have hx : n₂.sockets s.net.made = some x := by
    rw [hsockets₂, Function.update_self]
  split at hrun
  · next hreturned =>
    rw [returned_eq hanswers₂] at hreturned
    have hfalse : (enabled && a.file.isSome && a.bound) = false := by
      rwa [Bool.not_eq_true'] at hreturned
    obtain ⟨t, hcall, hlast⟩ := Option.bind_eq_some_iff.mp hrun
    cases hlast
    have htold : n₂.answers = s.net.answers ++ [false].map (s.net.made, ·) := by
      rw [hanswers₂, hfalse]
      rfl
    have hfails : a.succeeds enabled = false := by
      rw [Attempt.succeeds, hfalse, Bool.false_and]
    exact h₂.tries_of_destroy hnot hmade₂ hothers₂ htold (List.mem_singleton_self _) hfails hcall
  · next hreturned =>
    rw [returned_eq hanswers₂] at hreturned
    have htrue : (enabled && a.file.isSome && a.bound) = true := by
      rwa [Bool.not_eq_true', Bool.not_eq_false] at hreturned
    have hsucceeds : a.succeeds enabled = a.listens := by
      rw [Attempt.succeeds, htrue, Bool.true_and]
    have hus : n₂.world.usable x.fd = true := husable (Bool.and_eq_true_iff.mp htrue).1
    obtain ⟨s₃, hlisten, hrun⟩ := Option.bind_eq_some_iff.mp hrun
    obtain ⟨n₃, hstep₃, rfl⟩ := State.call_eq_some.mp hlisten
    have hsame₃ := Socket.same_listen hstep₃
    have hsockets₃ : n₃.sockets = n₂.sockets := Socket.listen_sockets hstep₃
    have hanswers₃ := Socket.listen_effect h₂.base hx hus hstep₃
    have hreached₃ : Socket.Reached host enabled n₃ :=
      h₂.next (l := .listen s.net.made a.listens) (h₂.not_connecting _)
        (by simp [Socket.Label.enabled]) hstep₃
    have h₃ := h₂.same hreached₃ hsame₃
    have hmade₃ : n₃.made = s.net.made + 1 := hsame₃.made.trans hmade₂
    have htold : n₃.answers = s.net.answers ++ [true, a.listens].map (s.net.made, ·) := by
      rw [hanswers₃, hanswers₂, htrue, List.append_assoc]
      rfl
    split at hrun
    · next hreturned' =>
      rw [returned_eq hanswers₃] at hreturned'
      have hlistens : a.listens = false := by simpa using hreturned'
      obtain ⟨t, hcall, hlast⟩ := Option.bind_eq_some_iff.mp hrun
      cases hlast
      exact h₃.tries_of_destroy hnot hmade₃ (hsockets₃ ▸ hothers₂) htold (by simp [hlistens])
        (hsucceeds.trans hlistens) hcall
    · next hreturned' =>
      rw [returned_eq hanswers₃] at hreturned'
      have hlistens : a.listens = true := by simpa using hreturned'
      cases hrun
      refine ⟨h₃.push fun hin => hnot (Or.inl hin), ⟨n₃, _, rfl⟩, hmade₃, hsockets₃ ▸ hothers₂,
        ⟨_, htold, fun p hp => ?_, ?_⟩,
        Or.inr ⟨hsucceeds.trans hlistens, rfl, rfl, x, ?_, hfamily, ?_⟩⟩
      · obtain ⟨b, -, rfl⟩ := List.mem_map.mp hp
        rfl
      · rw [hsucceeds, hlistens]
        simp
      · exact hsockets₃ ▸ hx
      · exact Socket.ne_of_nonneg (Hook.World.nonneg_of_usable h₂.base.inv hus)

/-- The rounds of `bind`. -/
structure Tried (enabled : Bool) (s : State) (fail : List SockAddr) (attempts : List Attempt)
    (r : List SockAddr × State) : Prop where
  frame : ∃ net socks, r.2 = { s with net := net, socks := socks }
  made : s.net.made ≤ r.2.net.made
  others : ∀ j, j < s.net.made → r.2.net.sockets j = s.net.sockets j
  failed : r.1 = fail ++ (attempts.filter fun a => !a.succeeds enabled).map Attempt.address
  told : ∃ answers, r.2.net.answers = s.net.answers ++ answers ∧
    (∀ p ∈ answers, s.net.made ≤ p.1) ∧
    ∀ k a, attempts[k]? = some a → ((s.net.made + k, false) ∈ answers ↔ a.succeeds enabled = false)
  bound : r.1 = [] → ∃ new, r.2.socks = s.socks ++ new ∧
    List.Forall₂ (fun i a => Socket.Ready r.2.net i a.address) new attempts

theorem tryBind_fail (fail : List SockAddr) (s : State) (a : Attempt) :
    State.tryBind host enabled (fail, s) a
      = (State.tryBind host enabled ([], s) a).map fun r => (fail ++ r.1, r.2) := by
  unfold State.tryBind
  cases hcreate : s.call host (.create a.address.family 1 0) with
  | none => rfl
  | some s₁ =>
      cases hbind : s₁.call host
          (.bind s.net.made a.address enabled a.file a.bound a.sockname) with
      | none => simp [hbind]
      | some s₂ =>
          cases hlisten : s₂.call host (.listen s.net.made a.listens) with
          | none =>
              cases hreturned : s₂.returned <;>
                cases hdestroy : s₂.call host (.destroy s.net.made enabled) <;>
                simp [hbind, hlisten, hreturned, hdestroy]
          | some s₃ =>
              cases hreturned : s₂.returned <;> cases hreturned' : s₃.returned <;>
                cases hdestroy : s₂.call host (.destroy s.net.made enabled) <;>
                cases hdestroy' : s₃.call host (.destroy s.net.made enabled) <;>
                simp [hbind, hlisten, hreturned, hreturned', hdestroy, hdestroy']

theorem Inv.tryAll {attempts : List Attempt} {fail : List SockAddr} {s : State}
    {r : List SockAddr × State} (h : Inv host enabled [] s)
    (hattempts : s.Attempts host enabled attempts)
    (hrun : attempts.foldlM (State.tryBind host enabled) (fail, s) = some r) :
    Inv host enabled [] r.2 ∧ Tried enabled s fail attempts r := by
  induction attempts generalizing s fail with
  | nil =>
      cases hrun
      exact ⟨h, ⟨_, _, rfl⟩, le_rfl, fun _ _ => rfl, (List.append_nil _).symm,
        ⟨[], (List.append_nil _).symm, fun _ hp => absurd hp List.not_mem_nil,
          fun k a hk => by cases hk⟩,
        fun _ => ⟨[], (List.append_nil _).symm, .nil⟩⟩
  | cons a attempts ih =>
      rw [List.foldlM_cons] at hrun
      obtain ⟨r', hfirst, hrest⟩ := Option.bind_eq_some_iff.mp hrun
      obtain ⟨hfresh, hlater⟩ := hattempts
      obtain ⟨hr', htries⟩ := h.tryBind hfresh hfirst
      rw [tryBind_fail] at hfirst
      obtain ⟨first, hfirst, hfirst'⟩ := Option.map_eq_some_iff.mp hfirst
      have hnext : r'.2.Attempts host enabled attempts := by
        rw [← hfirst']
        exact hlater first hfirst
      obtain ⟨hr, htried⟩ := ih hr' hnext hrest
      obtain ⟨net, socks, hframe⟩ := htries.frame
      obtain ⟨net', socks', hframe'⟩ := htried.frame
      obtain ⟨told, htold, hown, hfalse⟩ := htries.told
      obtain ⟨told', htold', hown', hfalse'⟩ := htried.told
      have hmade : r'.2.net.made = s.net.made + 1 := htries.made
      have hfailed := htried.failed
      have hearlier : r.1 = [] → r'.1 = [] := by
        intro hnil
        rw [hfailed] at hnil
        exact (List.append_eq_nil_iff.mp hnil).1
      have hlater : s.net.made + 1 ≤ r.2.net.made := hmade ▸ htried.made
      refine ⟨hr, ⟨net', socks', ?_⟩, Nat.le_of_succ_le hlater, fun j hj => ?_, ?_,
        ⟨told ++ told', ?_, fun p hp => ?_, fun k b hk => ?_⟩, fun hnil => ?_⟩
      · rw [hframe', hframe]
      · rw [htried.others j (hmade ▸ Nat.lt_succ_of_lt hj), htries.others j hj]
      · rcases htries.result with ⟨hfails, hmore, -⟩ | ⟨hsucceeds, hsame, -⟩
        · rw [hfailed, hmore, List.filter_cons_of_pos (by simp [hfails]), List.append_assoc]
          rfl
        · rw [hfailed, hsame, List.filter_cons_of_neg (by simp [hsucceeds])]
      · rw [htold', htold, List.append_assoc]
      · rcases List.mem_append.mp hp with hp | hp
        · exact (hown p hp).ge
        · have hlate := hown' p hp
          rw [hmade] at hlate
          exact Nat.le_of_succ_le hlate
      · rw [List.mem_append]
        cases k with
        | zero =>
            cases hk
            rw [or_iff_left fun hin => ?_]
            · exact hfalse
            · have hlate := hown' _ hin
              rw [hmade] at hlate
              exact Nat.not_succ_le_self _ hlate
        | succ k =>
            rw [or_iff_right fun hin => ?_, ← hfalse' k b hk, hmade, Nat.add_right_comm]
            · rfl
            · have hearly := hown _ hin
              change s.net.made + (k + 1) = s.net.made at hearly
              omega
      · obtain ⟨new, hsocks, hready⟩ := htried.bound hnil
        rcases htries.result with ⟨-, hmore, -⟩ | ⟨-, -, hpushed, x, hi, hx⟩
        · rw [hearlier hnil] at hmore
          simp at hmore
        · refine ⟨s.net.made :: new, ?_, .cons ⟨x, ?_, hx⟩ hready⟩
          · rw [hsocks, hpushed, List.append_assoc]
            rfl
          · rw [htried.others s.net.made (hmade ▸ Nat.lt_succ_self _)]
            exact hi

/-- What `bind` does to the server. -/
theorem Inv.bind {attempts : List Attempt} {fail fail' : List SockAddr} {s t : State} {ok : Bool}
    (h : Inv host enabled [] s) (hattempts : s.Attempts host enabled attempts)
    (hbind : s.bind host attempts fail enabled = some (ok, fail', t)) :
    Inv host enabled [] t ∧ ∃ r, Tried enabled s fail attempts r ∧ fail' = r.1 ∧
      ((ok = true ∧ r.1 = [] ∧ t = r.2) ∨
        (ok = false ∧ r.1 ≠ [] ∧
          ∃ net, t = { r.2 with net := net, socks := [] } ∧ net.answers = r.2.net.answers)) := by
  obtain ⟨r, hrun, hlast⟩ := Option.bind_eq_some_iff.mp hbind
  obtain ⟨hr, htried⟩ := h.tryAll hattempts hrun
  split at hlast
  · next hempty =>
    cases hlast
    exact ⟨hr, _, htried, rfl, Or.inl ⟨rfl, List.isEmpty_iff.mp hempty, rfl⟩⟩
  · next hsome =>
    obtain ⟨u, hclear, hdone⟩ := Option.bind_eq_some_iff.mp hlast
    cases hdone
    obtain ⟨hu, net, hframe, -⟩ := hr.clear hclear
    subst hframe
    exact ⟨hu, r, htried, rfl, Or.inr ⟨rfl, fun hnil => hsome (List.isEmpty_iff.mpr hnil), net, rfl,
      Inv.release_answers hclear⟩⟩

namespace Inv

/-- Objects change their places, and new ones come. -/
theorem regroup {n : List Nat} (h : Inv host enabled [] s)
    (hnet : Socket.Reached host enabled t.net) (hconnecting : t.net.connecting = [])
    (haccepting : ∀ i, t.net.accepting.count i = t.loops.count (.accepting i))
    (halive : ∀ i, (t.net.sockets i).isSome = true ↔ (s.net.sockets i).isSome = true ∨ i ∈ n)
    (hnodup : n.Nodup) (hnew : ∀ i ∈ n, s.net.made ≤ i) (hsocks : t.socks.Nodup)
    (hlistens : ∀ i, (i ∈ t.socks ∨ Holds t.loops i) ↔ (i ∈ s.socks ∨ Holds s.loops i))
    (hstages : (t.stages ++ hand).Perm (n ++ s.stages)) (hserved : t.served.Nodup)
    (hsubmitted : ∀ i ∈ t.clients ++ t.handling, i ∈ t.served)
    (hwaiting : ∀ i ∈ t.inHand, i ∉ t.served) (hmade : ∀ i ∈ t.served, i < t.net.made) :
    Inv host enabled hand t := by
  have hold : ∀ i ∈ s.stages, i < s.net.made := fun i hi =>
    h.lt_made ((h.alive i).mpr (Or.inr (Or.inl hi)))
  have hall : (n ++ s.stages).Nodup := by
    refine List.nodup_append.mpr ⟨hnodup, h.stages, fun i hi j hj => ?_⟩
    rintro rfl
    exact absurd (hold i hj) (Nat.not_lt.mpr (hnew i hi))
  obtain ⟨hstages', hhand, hdisjoint⟩ := List.nodup_append.mp (hstages.nodup_iff.mpr hall)
  refine
    { net := hnet
      connecting := hconnecting
      accepting := haccepting
      alive := fun i => ?_
      apart := fun i hi => ⟨?_, fun hin => hdisjoint i hi i hin rfl⟩
      hand := hhand
      socks := hsocks
      stages := hstages'
      served := hserved
      submitted := hsubmitted
      waiting := hwaiting
      made := hmade }
  · have hmem : i ∈ t.stages ∨ i ∈ hand ↔ i ∈ n ∨ i ∈ s.stages := by
      rw [← List.mem_append, ← List.mem_append]
      exact hstages.mem_iff
    rw [halive, h.alive, hlistens, hmem]
    simp only [List.not_mem_nil, or_false]
    tauto
  · rw [hlistens]
    rcases List.mem_append.mp (hstages.mem_iff.mp (List.mem_append_left hand hi)) with hin | hin
    · intro hlistens'
      exact absurd (h.lt_made ((h.alive i).mpr (Or.inl hlistens'))) (Nat.not_lt.mpr (hnew i hin))
    · exact (h.apart i hin).1

/-- The objects are the same. -/
theorem rearrange (h : Inv host enabled [] s) (hnet : t.net = s.net)
    (haccepting : ∀ i, t.loops.count (.accepting i) = s.loops.count (.accepting i))
    (hsocks : t.socks = s.socks)
    (hlistens : ∀ i, (i ∈ t.socks ∨ Holds t.loops i) ↔ (i ∈ s.socks ∨ Holds s.loops i))
    (hstages : (t.stages ++ hand).Perm s.stages) (hserved : t.served.Nodup)
    (hsubmitted : ∀ i ∈ t.clients ++ t.handling, i ∈ t.served)
    (hwaiting : ∀ i ∈ t.inHand, i ∉ t.served) (hmade : ∀ i ∈ t.served, i < t.net.made) :
    Inv host enabled hand t := by
  refine h.regroup (n := []) (hnet ▸ h.net) (hnet ▸ h.connecting) (fun i => ?_) (fun i => ?_)
    List.nodup_nil (fun i hi => absurd hi List.not_mem_nil) (hsocks ▸ h.socks) hlistens hstages hserved
    hsubmitted hwaiting hmade
  · rw [hnet, haccepting]
    exact h.accepting i
  · rw [hnet]
    simp

theorem start (h : Inv host enabled [] s) : Inv host enabled [] s.start := by
  unfold State.start
  split
  · exact h
  · have haccepting : ∀ i, (s.loops ++ s.socks.map Loop.submitted).count (.accepting i)
        = s.loops.count (.accepting i) := by
      intro i
      have hnone : (s.socks.map Loop.submitted).count (.accepting i) = 0 :=
        List.count_eq_zero.mpr (by simp)
      rw [List.count_append, hnone, Nat.add_zero]
    have hinHand : (s.loops ++ s.socks.map Loop.submitted).filterMap Loop.client = s.inHand := by
      rw [List.filterMap_append]
      have hnone : (s.socks.map Loop.submitted).filterMap Loop.client = [] := by
        rw [List.filterMap_eq_nil_iff]
        rintro loop hin
        obtain ⟨i, -, rfl⟩ := List.mem_map.mp hin
        rfl
      rw [hnone, List.append_nil]
      rfl
    refine h.rearrange rfl haccepting rfl (fun i => ?_) ?_ h.served h.submitted ?_ h.made
    · change (i ∈ s.socks ∨ Holds (s.loops ++ s.socks.map Loop.submitted) i) ↔ _
      constructor
      · rintro (hin | ⟨loop, hin, hi⟩)
        · exact Or.inl hin
        · rcases List.mem_append.mp hin with hin | hin
          · exact Or.inr ⟨loop, hin, hi⟩
          · obtain ⟨j, hj, rfl⟩ := List.mem_map.mp hin
            exact Or.inl (Option.some.inj hi ▸ hj)
      · rintro (hin | ⟨loop, hin, hi⟩)
        · exact Or.inl hin
        · exact Or.inr ⟨loop, List.mem_append_left _ hin, hi⟩
    · rw [List.append_nil]
      change ((s.loops ++ s.socks.map Loop.submitted).filterMap Loop.client ++ s.clients ++ s.handling).Perm _
      rw [hinHand]
      rfl
    · change ∀ i ∈ (s.loops ++ s.socks.map Loop.submitted).filterMap Loop.client, i ∉ s.served
      rw [hinHand]
      exact h.waiting

theorem setStop (h : Inv host enabled [] s) : Inv host enabled [] s.setStop := by
  unfold State.setStop
  split
  · exact h
  · exact { h with }

theorem closeAll {socks : List Nat} (h : Inv host enabled [] s)
    (hrun : socks.foldlM (fun s i => s.call host (.close i enabled)) s = some t) :
    Inv host enabled [] t ∧ ∃ net, t = { s with net := net } ∧ Leaves s.net net ∧
      ∀ i ∈ socks, Closed net i := by
  induction socks generalizing s with
  | nil =>
      cases hrun
      exact ⟨h, _, rfl, Leaves.refl _, fun i hi => absurd hi List.not_mem_nil⟩
  | cons i socks ih =>
      rw [List.foldlM_cons] at hrun
      obtain ⟨u, hfirst, hrest⟩ := Option.bind_eq_some_iff.mp hrun
      obtain ⟨n, hstep, rfl⟩ := State.call_eq_some.mp hfirst
      have hsame := Socket.same_close h.base hstep
      obtain ⟨hleaves, hclosed⟩ := Socket.leaves_close h.base hstep
      have hu := h.same (h.next (l := .close i enabled) (h.not_connecting i)
        (by simp [Socket.Label.enabled]) hstep) hsame
      obtain ⟨ht, net, rfl, hleaves', hclosed'⟩ := ih hu hrest
      refine ⟨ht, net, rfl, hleaves.trans hleaves', fun j hj => ?_⟩
      rcases List.mem_cons.mp hj with rfl | hin
      · by_cases hlt : j < s.net.made
        · exact hleaves'.closed (hlt.trans_le hleaves.made) hclosed
        · obtain ⟨x, hx, -⟩ := Socket.on_eq_some hstep
          exact absurd (h.lt_made (by rw [hx]; rfl)) hlt
      · exact hclosed' j hin

theorem cleanup (h : Inv host enabled [] s) (hcleanup : s.cleanup host enabled = some t) :
    Inv host enabled [] t ∧ ∃ net, t = { s with net := net, socks := [], cleanups := s.cleanups - 1 } ∧
      Leaves s.net net ∧ ∀ i ∈ s.socks, Closed net i := by
  obtain ⟨u, hclose, hclear⟩ := Option.bind_eq_some_iff.mp hcleanup
  have hstart : Inv host enabled [] { s with cleanups := s.cleanups - 1 } := { h with }
  obtain ⟨hu, net, rfl, hleaves, hclosed⟩ := hstart.closeAll hclose
  obtain ⟨ht, net', rfl, hleaves'⟩ := hu.clear hclear
  refine ⟨ht, net', rfl, hleaves.trans hleaves', fun i hi => ?_⟩
  have hlt : i < s.net.made := h.lt_made ((h.alive i).mpr (Or.inl (Or.inl hi)))
  exact hleaves'.closed (hlt.trans_le hleaves.made) (hclosed i hi)

/-- A loop that goes on with its socket, without a client. -/
theorem moveOn (h : Inv host enabled [] s) {k : Nat} {loop new : Loop} (hloop : s.loops[k]? = some loop)
    (hsocket : new.socket = loop.socket) (hclient : loop.client = none) (hclient' : new.client = none)
    (hnet : Socket.Reached host enabled net) (hconnecting : net.connecting = [])
    (haccepting : ∀ i, net.accepting.count i = (s.setLoop k new).loops.count (.accepting i))
    (hmade : s.net.made ≤ net.made) (hsockets : net.sockets = s.net.sockets) :
    Inv host enabled [] ({ s with net := net }.setLoop k new) := by
  have hinHand : (s.setLoop k new).inHand.Perm s.inHand := by
    have hperm := State.perm_inHand hloop new
    rwa [hclient, hclient'] at hperm
  refine h.regroup (n := []) hnet hconnecting haccepting (fun i => ?_) List.nodup_nil
    (fun i hi => absurd hi List.not_mem_nil) h.socks
    (fun i => or_congr_right (State.holds_setLoop_same hloop hsocket)) ?_ h.served h.submitted
    (fun i hi => h.waiting i (hinHand.mem_iff.mp hi)) fun i hi => (h.made i hi).trans_le hmade
  · change (net.sockets i).isSome = true ↔ _
    rw [hsockets]
    simp
  · rw [List.append_nil, List.nil_append]
    exact (hinHand.append_right _).append_right _

theorem startAccept (h : Inv host enabled [] s) {k : Nat} (hloop : s.loops[k]? = some (.submitted i)) :
    Inv host enabled [] (s.setLoop k (.top i)) := by
  refine h.moveOn hloop rfl rfl rfl h.net h.connecting (fun j => ?_) le_rfl rfl
  have hcount := State.count_setLoop hloop (.top i) (.accepting j)
  rw [if_neg Loop.noConfusion, if_neg Loop.noConfusion] at hcount
  exact (h.accepting j).trans hcount.symm

/-- The loop has seen `stop_`. -/
theorem returned (h : Inv host enabled [] s) {k : Nat} (hloop : s.loops[k]? = some (.top i)) :
    Inv host enabled [i] (s.setLoop k .returned) := by
  have hinHand : (s.setLoop k .returned).inHand.Perm s.inHand := State.perm_inHand hloop .returned
  have hstages : (s.setLoop k .returned).stages.Perm s.stages :=
    (hinHand.append_right _).append_right _
  have hholds : ∀ j, j = i ∨ Holds (s.setLoop k .returned).loops j ↔ Holds s.loops j := by
    intro j
    have hboth := State.holds_setLoop (j := j) hloop .returned
    simpa [Loop.socket, eq_comm] using hboth
  have hi : Holds s.loops i := State.holds_of_getElem hloop rfl
  refine
    { net := h.net
      connecting := h.connecting
      accepting := fun j => ?_
      alive := fun j => ?_
      apart := fun j hj => ?_
      hand := List.nodup_singleton i
      socks := h.socks
      stages := hstages.nodup_iff.mpr h.stages
      served := h.served
      submitted := h.submitted
      waiting := fun j hj => h.waiting j (hinHand.mem_iff.mp hj)
      made := h.made }
  · have hcount := State.count_setLoop hloop .returned (.accepting j)
    rw [if_neg Loop.noConfusion, if_neg Loop.noConfusion] at hcount
    exact (h.accepting j).trans hcount.symm
  · change (s.net.sockets j).isSome = true ↔ (j ∈ s.socks ∨ _) ∨ _ ∨ j ∈ [i]
    rw [h.alive, hstages.mem_iff, ← hholds, List.mem_singleton]
    simp only [List.not_mem_nil, or_false]
    tauto
  · obtain ⟨hnot, -⟩ := h.apart j (hstages.mem_iff.mp hj)
    refine ⟨fun hlistens => hnot (hlistens.imp_right fun hin => (hholds j).mp (Or.inr hin)), ?_⟩
    intro hin
    exact hnot (Or.inr (List.mem_singleton.mp hin ▸ hi))

theorem accept (h : Inv host enabled [] s) {k : Nat} (hloop : s.loops[k]? = some (.top i))
    (hstep : s.net.step host (.accept i enabled) = some net) :
    Inv host enabled [] ({ s with net := net }.setLoop k (.accepting i)) := by
  obtain ⟨hmade, hconnecting, hsockets, haccepting⟩ := Socket.accept_effect hstep
  have hnet := h.next (l := .accept i enabled) (h.not_connecting i) (by simp [Socket.Label.enabled]) hstep
  refine h.moveOn hloop rfl rfl rfl hnet (hconnecting.trans h.connecting) (fun j => ?_) hmade.ge hsockets
  have hcount := State.count_setLoop hloop (.accepting i) (.accepting j)
  rw [if_neg Loop.noConfusion, Nat.add_zero] at hcount
  rw [haccepting, hcount, List.count_append, h.accepting, List.count_singleton]
  simp

theorem accepted (h : Inv host enabled [] s) {k : Nat} (hloop : s.loops[k]? = some (.accepting i))
    {file : Option (Int32 × File)} {sockname peername : Option SockAddr} (hfresh : s.net.Fresh file)
    (haccepted : s.accepted host k i enabled file sockname peername = some t) :
    Inv host enabled [] t ∧ ∃ net new, t = { s with net := net }.setLoop k new ∧ Leaves s.net net ∧
      (new = .top i ∨ new = .accepted i s.net.made ∧ file ≠ none) := by
  obtain ⟨u, hcall, ht⟩ := Option.map_eq_some_iff.mp haccepted
  obtain ⟨net, hstep, rfl⟩ := State.call_eq_some.mp hcall
  obtain ⟨hin, haccepting, heffect⟩ := Socket.accepted_effect hstep
  have hnet := h.next (l := .accepted i enabled file sockname peername) hfresh
    (by simp [Socket.Label.enabled]) hstep
  have hcounts : ∀ {new : Loop}, (∀ j, new ≠ .accepting j) → ∀ j,
      net.accepting.count j = (s.setLoop k new).loops.count (.accepting j) := by
    intro new hnew j
    have hcount := State.count_setLoop hloop new (.accepting j)
    rw [if_neg (hnew j), Nat.add_zero, ← h.accepting] at hcount
    rw [haccepting, List.count_erase, ← hcount]
    simp
  rcases heffect with ⟨hreturned, hcomes, hfile⟩ | ⟨hreturned, hmade, hconnecting, hsockets⟩
  · have hnew : t = { s with net := net }.setLoop k (.accepted i s.net.made) := by
      rw [← ht, State.returned, if_pos hreturned]
    obtain ⟨x, hsockets⟩ := hcomes.sockets
    have hlt : s.net.made < net.made := hcomes.made ▸ Nat.lt_succ_self _
    have hsome : ∀ j, (net.sockets j).isSome = true ↔
        (s.net.sockets j).isSome = true ∨ j ∈ [s.net.made] := by
      intro j
      rw [hsockets, List.mem_singleton]
      by_cases hj : j = s.net.made
      · simp [hj]
      · simp [hj]
    have hinHand : (s.setLoop k (.accepted i s.net.made)).inHand.Perm ([s.net.made] ++ s.inHand) :=
      State.perm_inHand hloop (.accepted i s.net.made)
    refine ⟨hnew ▸ ?_, net, _, hnew, ⟨hlt.le, fun j hj => Or.inl ?_⟩, Or.inr ⟨rfl, hfile⟩⟩
    · refine h.regroup (n := [s.net.made]) hnet (hcomes.connecting.trans h.connecting)
        (hcounts fun j => Loop.noConfusion) hsome (List.nodup_singleton _)
        (fun j hj => (List.mem_singleton.mp hj).ge) h.socks
        (fun j => or_congr_right (State.holds_setLoop_same hloop rfl)) ?_ h.served h.submitted ?_
        fun j hj => (h.made j hj).trans hlt
      · rw [List.append_nil]
        exact (hinHand.append_right _).append_right _
      · intro j hj
        rcases List.mem_append.mp (hinHand.mem_iff.mp hj) with hin | hin
        · intro hserved
          exact absurd (h.made j hserved) (Nat.not_lt.mpr (List.mem_singleton.mp hin).ge)
        · exact h.waiting j hin
    · rw [hsockets, Function.update_of_ne (Nat.ne_of_lt hj)]
  · have hnew : t = { s with net := net }.setLoop k (.top i) := by
      rw [← ht, State.returned, hreturned]
      rfl
    refine ⟨hnew ▸ ?_, net, _, hnew, Leaves.of_eq hmade hsockets, Or.inl rfl⟩
    exact h.moveOn hloop rfl rfl rfl hnet (hconnecting.trans h.connecting)
      (hcounts fun j => Loop.noConfusion) hmade hsockets

theorem submit (h : Inv host enabled [] s) {k client : Nat}
    (hloop : s.loops[k]? = some (.accepted i client)) :
    Inv host enabled []
      { s.setLoop k (.top i) with
        clients := s.clients ++ [client]
        served := s.served ++ [client] } := by
  have hinHand : (client :: (s.setLoop k (.top i)).inHand).Perm s.inHand :=
    State.perm_inHand hloop (.top i)
  have hclient : client ∈ s.inHand := hinHand.mem_iff.mp List.mem_cons_self
  have halive : client < s.net.made :=
    h.lt_made ((h.alive client).mpr
      (Or.inr (Or.inl (List.mem_append_left _ (List.mem_append_left _ hclient)))))
  have hnodup : (client :: (s.setLoop k (.top i)).inHand).Nodup := by
    rw [hinHand.nodup_iff]
    exact (List.nodup_append.mp (List.nodup_append.mp h.stages).1).1
  refine h.rearrange rfl (fun j => ?_) rfl
    (fun j => or_congr_right (State.holds_setLoop_same hloop rfl)) ?_ ?_ (fun j hj => ?_)
    (fun j hj => ?_) fun j hj => ?_
  · have hcount := State.count_setLoop hloop (.top i) (.accepting j)
    rwa [if_neg Loop.noConfusion, if_neg Loop.noConfusion] at hcount
  · rw [List.append_nil]
    refine List.Perm.append_right _ ?_
    calc
      ((s.setLoop k (.top i)).inHand ++ (s.clients ++ [client])).Perm
          ((s.setLoop k (.top i)).inHand ++ client :: s.clients) :=
        (List.perm_append_singleton client s.clients).append_left _
      List.Perm _ (client :: ((s.setLoop k (.top i)).inHand ++ s.clients)) := List.perm_middle
      List.Perm _ (s.inHand ++ s.clients) := hinHand.append_right _
  · refine List.nodup_append.mpr ⟨h.served, List.nodup_singleton _, fun j hj j' hj' => ?_⟩
    rintro rfl
    exact h.waiting _ hclient (List.mem_singleton.mp hj' ▸ hj)
  · simp only [List.mem_append, List.mem_singleton] at hj ⊢
    rcases hj with (hj | hj) | hj
    · exact Or.inl (h.submitted j (List.mem_append_left _ hj))
    · exact Or.inr hj
    · exact Or.inl (h.submitted j (List.mem_append_right _ hj))
  · obtain ⟨hnot, -⟩ := List.nodup_cons.mp hnodup
    intro hin
    rcases List.mem_append.mp hin with hin | hin
    · exact h.waiting j (hinHand.mem_iff.mp (List.mem_cons_of_mem _ hj)) hin
    · exact hnot (List.mem_singleton.mp hin ▸ hj)
  · rcases List.mem_append.mp hj with hin | hin
    · exact h.made j hin
    · exact List.mem_singleton.mp hin ▸ halive

theorem handleClient (h : Inv host enabled [] s) {client : Nat} (hin : client ∈ s.clients) :
    Inv host enabled []
      { s with
        clients := s.clients.erase client
        handling := s.handling ++ [client] } := by
  refine h.rearrange rfl (fun j => rfl) rfl (fun j => Iff.rfl) ?_ h.served (fun j hj => ?_) h.waiting h.made
  · rw [List.append_nil]
    change (s.inHand ++ s.clients.erase client ++ (s.handling ++ [client])).Perm _
    rw [List.append_assoc]
    refine (List.Perm.append_left s.inHand ?_).trans (List.Perm.of_eq (List.append_assoc _ _ _).symm)
    calc
      (s.clients.erase client ++ (s.handling ++ [client])).Perm
          (s.clients.erase client ++ client :: s.handling) :=
        (List.perm_append_singleton client s.handling).append_left _
      List.Perm _ (client :: (s.clients.erase client ++ s.handling)) := List.perm_middle
      List.Perm _ (s.clients ++ s.handling) := (List.perm_cons_erase hin).symm.append_right _
  · apply h.submitted j
    simp only [List.mem_append, List.mem_singleton] at hj ⊢
    rcases hj with hj | hj | hj
    · exact Or.inl (List.mem_of_mem_erase hj)
    · exact Or.inr hj
    · exact Or.inl (hj ▸ hin)

theorem handled (h : Inv host enabled [] s) {client : Nat} (hin : client ∈ s.handling)
    (hcall : { s with handling := s.handling.erase client }.call host (.destroy client enabled) = some t) :
    Inv host enabled [] t ∧
      ∃ net, t = { s with net := net, handling := s.handling.erase client } ∧ Leaves s.net net := by
  have hstage : client ∈ s.stages := List.mem_append_right _ hin
  have hgone : Inv host enabled [client] { s with handling := s.handling.erase client } := by
    refine h.rearrange rfl (fun j => rfl) rfl (fun j => Iff.rfl) ?_ h.served (fun j hj => ?_) h.waiting
      h.made
    · change (s.inHand ++ s.clients ++ s.handling.erase client ++ [client]).Perm _
      rw [List.append_assoc]
      refine List.Perm.append_left _ ?_
      exact (List.perm_append_singleton _ _).trans (List.perm_cons_erase hin).symm
    · apply h.submitted j
      simp only [List.mem_append] at hj ⊢
      exact hj.imp_right List.mem_of_mem_erase
  obtain ⟨net, hstep, rfl⟩ := State.call_eq_some.mp hcall
  exact ⟨hgone.destroy (h.apart client hstage).1 hstep, net, rfl, Socket.leaves_destroy h.base hstep⟩

end Inv

/-- How a loop moves on: the clients that it submits. -/
inductive Moves (s : State) (l : Label) (k : Nat) : Loop → Loop → List Nat → Prop
  | started (i : Nat) : Moves s l k (.submitted i) (.top i) []
  | returned (i : Nat) (hstop : s.stop = true) : Moves s l k (.top i) .returned []
  | accept (i : Nat) (hstop : s.stop = false) : Moves s l k (.top i) (.accepting i) []
  | failed (i : Nat) : Moves s l k (.accepting i) (.top i) []
  | accepted (i client : Nat) (hl : ∃ enabled file sockname peername, file ≠ none ∧
      l = .accepted k enabled file sockname peername) : Moves s l k (.accepting i) (.accepted i client) []
  | submit (i client : Nat) : Moves s l k (.accepted i client) (.top i) [client]

/-- Everything a step can do to the server. -/
inductive Does (s : State) (l : Label) (t : State) : Prop
  | bind (net : Socket.State) (socks : List Nat)
      (hl : ∃ attempts fail enabled, l = .bind attempts fail enabled)
      (ht : t = { s with net := net, socks := socks })
  | start (hl : l = .start) (ht : t = s.start)
  | stop (hl : l = .stop) (cleanups : Nat) (ht : t = { s with stop := true, cleanups := cleanups })
  | cleanup (hl : ∃ enabled, l = .cleanup enabled) (net : Socket.State) (cleanups : Nat)
      (ht : t = { s with net := net, socks := [], cleanups := cleanups }) (hleaves : Leaves s.net net)
      (hclosed : ∀ i ∈ s.socks, Closed net i)
  | moved (k : Nat) (loop new : Loop) (more : List Nat) (net : Socket.State)
      (hloop : s.loops[k]? = some loop) (hmoves : Moves s l k loop new more)
      (ht : t = { s.setLoop k new with
                  net := net, clients := s.clients ++ more, served := s.served ++ more })
      (hleaves : Leaves s.net net)
  | other (net : Socket.State) (clients handling : List Nat)
      (ht : t = { s with net := net, clients := clients, handling := handling })
      (hleaves : Leaves s.net net)

theorem eq_of_enabled {e enabled : Bool} (h : some e ≠ some (!enabled)) : e = enabled := by
  cases e <;> cases enabled <;> first | rfl | exact absurd rfl h

theorem does_of_step {l : Label} (h : Inv host enabled [] s) (hpossible : s.Possible host l)
    (henabled : l.enabled ≠ some (!enabled)) (hstep : s.step host l = some t) :
    Inv host enabled [] t ∧ Does s l t := by
  cases l with
  | bind attempts fail e =>
      obtain rfl := eq_of_enabled henabled
      obtain ⟨⟨ok, fail', u⟩, hbind, rfl⟩ := Option.map_eq_some_iff.mp hstep
      obtain ⟨ht, r, htried, -, hdone⟩ := h.bind hpossible hbind
      obtain ⟨net, socks, hframe⟩ := htried.frame
      refine ⟨ht, ?_⟩
      rcases hdone with ⟨-, -, hu⟩ | ⟨-, -, net', hu, -⟩
      · exact .bind net socks ⟨attempts, fail, e, rfl⟩ (hu.trans hframe)
      · refine .bind net' [] ⟨attempts, fail, e, rfl⟩ (hu.trans ?_)
        rw [hframe]
  | start =>
      cases hstep
      exact ⟨h.start, .start rfl rfl⟩
  | stop =>
      cases hstep
      refine ⟨h.setStop, ?_⟩
      unfold State.setStop
      split
      · next hstop => exact .stop rfl s.cleanups (by rw [← hstop])
      · exact .stop rfl _ rfl
  | cleanup e =>
      obtain rfl := eq_of_enabled henabled
      rw [State.step] at hstep
      split at hstep
      · obtain ⟨ht, net, rfl, hleaves, hclosed⟩ := h.cleanup hstep
        exact ⟨ht, .cleanup ⟨e, rfl⟩ net _ rfl hleaves hclosed⟩
      · cases hstep
  | startAccept k =>
      rw [State.step] at hstep
      split at hstep
      · next i hloop =>
        cases hstep
        refine ⟨h.startAccept hloop, .moved k _ _ [] s.net hloop (.started i) ?_ (Leaves.refl _)⟩
        simp [State.setLoop]
      · cases hstep
  | check k e =>
      obtain rfl := eq_of_enabled henabled
      rw [State.step] at hstep
      split at hstep
      · next i hloop =>
        unfold State.check at hstep
        split at hstep
        · next hstop =>
          obtain ⟨ht, net, rfl, hleaves⟩ := (h.returned hloop).release hstep
          refine ⟨ht, .moved k _ _ [] net hloop (.returned i hstop) ?_ hleaves⟩
          simp [State.setLoop]
        · next hrunning =>
          obtain ⟨u, hcall, rfl⟩ := Option.map_eq_some_iff.mp hstep
          obtain ⟨net, hcalled, rfl⟩ := State.call_eq_some.mp hcall
          obtain ⟨hmade, -, hsockets, -⟩ := Socket.accept_effect hcalled
          refine ⟨h.accept hloop hcalled,
            .moved k _ _ [] net hloop (.accept i (eq_false_of_ne_true hrunning)) ?_
              (Leaves.of_eq hmade.ge hsockets)⟩
          simp [State.setLoop]
      · cases hstep
  | accepted k e file sockname peername =>
      obtain rfl := eq_of_enabled henabled
      rw [State.step] at hstep
      split at hstep
      · next i hloop =>
        obtain ⟨ht, net, new, rfl, hleaves, hnew⟩ := h.accepted hloop hpossible hstep
        refine ⟨ht, ?_⟩
        rcases hnew with rfl | ⟨rfl, hfile⟩
        · refine .moved k _ _ [] net hloop (.failed i) ?_ hleaves
          simp [State.setLoop]
        · refine .moved k _ (.accepted i s.net.made) [] net hloop
            (.accepted i s.net.made ⟨e, file, sockname, peername, hfile, rfl⟩) ?_ hleaves
          simp [State.setLoop]
      · cases hstep
  | submit k =>
      rw [State.step] at hstep
      split at hstep
      · next i client hloop =>
        cases hstep
        exact ⟨h.submit hloop, .moved k _ _ [client] s.net hloop (.submit i client) rfl (Leaves.refl _)⟩
      · cases hstep
  | handleClient client =>
      rw [State.step] at hstep
      split at hstep
      · next hin =>
        cases hstep
        exact ⟨h.handleClient hin, .other s.net _ _ rfl (Leaves.refl _)⟩
      · cases hstep
  | handled client e =>
      obtain rfl := eq_of_enabled henabled
      rw [State.step] at hstep
      split at hstep
      · next hin =>
        obtain ⟨ht, net, rfl, hleaves⟩ := h.handled hin hstep
        exact ⟨ht, .other net _ _ rfl hleaves⟩
      · cases hstep
  | openFile fd file isSocket =>
      obtain ⟨net, hcalled, rfl⟩ := State.call_eq_some.mp hstep
      have hsame := Socket.same_openFile hcalled
      have hnet := h.next (l := .openFile fd file isSocket) hpossible henabled hcalled
      exact ⟨h.same hnet hsame, .other net _ _ rfl
        (Leaves.of_eq hsame.made.ge (Socket.openFile_sockets hcalled))⟩
  | closeFile fd e =>
      obtain rfl := eq_of_enabled henabled
      obtain ⟨net, hcalled, rfl⟩ := State.call_eq_some.mp hstep
      have hsame := Socket.same_closeFile hcalled
      have hnet := h.next (l := .closeFile fd e) hpossible henabled hcalled
      exact ⟨h.same hnet hsame, .other net _ _ rfl
        (Leaves.of_eq hsame.made.ge (Socket.closeFile_sockets hcalled))⟩

end Invariant

section Results

variable {s t u : State}

theorem Inv.init (h : New s) : Inv host enabled [] s := by
  have hstages : s.stages = [] := by
    simp [State.stages, State.inHand, h.loops, h.clients, h.handling]
  refine
    { net := .start h.net
      connecting := h.net.connecting
      accepting := fun i => by simp [h.net.accepting, h.loops]
      alive := fun i => ?_
      apart := fun i hi => by simp [hstages] at hi
      hand := List.nodup_nil
      socks := by simp [h.socks]
      stages := by simp [hstages]
      served := by simp [h.served]
      submitted := fun i hi => by simp [h.clients, h.handling] at hi
      waiting := fun i hi => by simp [State.inHand, h.loops] at hi
      made := fun i hi => by simp [h.served] at hi }
  simp [h.net.sockets i, h.socks, h.loops, hstages, Holds]

theorem inv_of_reached (h : Reached host enabled s) : Inv host enabled [] s := by
  apply Transition.Reachable.invariant (fun _ hnew => Inv.init hnew) _ h
  rintro s l t hs ⟨⟨hpossible, henabled⟩, hstep⟩
  exact (does_of_step hs hpossible henabled hstep).1

/-- **Nothing is lost and nothing is kept too long.** Every object that lives is a listening socket that
somebody holds or a client in one place, no client is submitted twice, and every descriptor that was
taken is in one of the objects. -/
theorem accounts_of_reached (h : Reached host true s) : s.Accounts := by
  have hinv := inv_of_reached h
  refine
    { alive := fun i => ?_
      apart := fun i hi => (hinv.apart i hi).1
      stages := hinv.stages
      served := hinv.served
      submitted := hinv.submitted
      waiting := hinv.waiting
      owned := (Socket.tidy_of_reached hinv.net).2.holder }
  rw [hinv.alive]
  simp only [List.not_mem_nil, or_false]
  rfl

theorem passed_moved {k : Nat} {loop new : Loop} {more : List Nat} (hloop : s.loops[k]? = some loop)
    (hloops : t.loops = (s.setLoop k new).loops) (hserved : t.served = s.served ++ more) :
    t.passed + loop.client.toList.length = s.passed + more.length + new.client.toList.length := by
  have hlength := (State.perm_inHand hloop new).length_eq
  rw [List.length_append, List.length_append] at hlength
  have hinHand : t.inHand = (s.setLoop k new).inHand := congrArg (List.filterMap Loop.client) hloops
  rw [State.passed, State.passed, hserved, hinHand, List.length_append]
  omega

/-- How many clients were accepted, and may be accepted although `stop_` is set. -/
def bounded (s : State) : Nat := s.passed + s.loops.countP Loop.isAccepting

theorem bounded_moved {l : Label} {k : Nat} {loop new : Loop} {more : List Nat} (hstop : s.stop = true)
    (hloop : s.loops[k]? = some loop) (hmoves : Moves s l k loop new more)
    (hloops : t.loops = (s.setLoop k new).loops) (hserved : t.served = s.served ++ more) :
    bounded t ≤ bounded s := by
  have hpassed := passed_moved hloop hloops hserved
  have hcount := (State.perm_setLoop hloop new).countP_eq Loop.isAccepting
  rw [← hloops, List.countP_cons, List.countP_cons] at hcount
  rw [bounded, bounded]
  cases hmoves with
  | accept i hrunning =>
      rw [hstop] at hrunning
      cases hrunning
  | _ =>
      simp only [Loop.client, Loop.isAccepting, Option.toList_none, Option.toList_some,
        List.length_nil, List.length_cons, Bool.false_eq_true, if_true, if_false] at hpassed hcount
      omega

theorem bounded_step {l : Label} (hstop : s.stop = true) (hl : l ≠ .start) (hdoes : Does s l t) :
    t.stop = true ∧ bounded t ≤ bounded s := by
  cases hdoes with
  | bind net socks _ ht => exact ht ▸ ⟨hstop, le_rfl⟩
  | start heq _ => exact absurd heq hl
  | stop _ cleanups ht => exact ht ▸ ⟨rfl, le_rfl⟩
  | cleanup _ net cleanups ht _ _ => exact ht ▸ ⟨hstop, le_rfl⟩
  | moved k loop new more net hloop hmoves ht _ =>
      refine ⟨ht ▸ hstop, bounded_moved hstop hloop hmoves ?_ ?_⟩
      · rw [ht]
      · rw [ht]
  | other net clients handling ht _ => exact ht ▸ ⟨hstop, le_rfl⟩

/-- Every socket that a `startAccept` holds is one of the server's, or closed. -/
def Tame (s : State) : Prop := ∀ i, Holds s.loops i → i ∈ s.socks ∨ Closed s.net i

theorem Moves.socket {l : Label} {k i : Nat} {loop new : Loop} {more : List Nat}
    (hmoves : Moves s l k loop new more) (hi : new.socket = some i) : loop.socket = some i := by
  cases hmoves with
  | returned i hstop => cases hi
  | _ => exact hi

theorem Moves.holds {l : Label} {k i : Nat} {loop new : Loop} {more : List Nat}
    (hmoves : Moves s l k loop new more) (hloop : s.loops[k]? = some loop)
    (hi : Holds (s.setLoop k new).loops i) : Holds s.loops i := by
  rcases (State.holds_setLoop hloop new).mp (Or.inr hi) with hnew | hold
  · exact State.holds_of_getElem hloop (hmoves.socket hnew)
  · exact hold

theorem Inv.holds_lt (h : Inv host enabled [] s) {i : Nat} (hi : Holds s.loops i) : i < s.net.made :=
  h.lt_made ((h.alive i).mpr (Or.inl (Or.inr hi)))

theorem tame_step {l : Label} (h : Inv host enabled [] s) (horderly : s.Orderly l)
    (hdoes : Does s l t) (htame : Tame s) : Tame t := by
  have hleaves : ∀ {net : Socket.State}, Leaves s.net net → ∀ i, Holds s.loops i →
      i ∈ s.socks ∨ Closed net i := fun hleaves i hi =>
    (htame i hi).imp_right (hleaves.closed (h.holds_lt hi))
  cases hdoes with
  | bind net socks hl ht =>
      subst ht
      obtain ⟨attempts, fail, enabled, rfl⟩ := hl
      rintro i ⟨loop, hin, hi⟩
      rw [horderly loop hin] at hi
      cases hi
  | start hl ht =>
      subst ht
      unfold State.start
      split
      · exact htame
      · rintro i ⟨loop, hin, hi⟩
        rcases List.mem_append.mp hin with hin | hin
        · exact htame i ⟨loop, hin, hi⟩
        · obtain ⟨j, hj, rfl⟩ := List.mem_map.mp hin
          exact Or.inl (Option.some.inj hi ▸ hj)
  | stop hl cleanups ht =>
      subst ht
      exact htame
  | cleanup hl net cleanups ht hnet hclosed =>
      subst ht
      intro i hi
      exact Or.inr ((hleaves hnet i hi).elim (hclosed i) id)
  | moved k loop new more net hloop hmoves ht hnet =>
      subst ht
      intro i hi
      exact hleaves hnet i (hmoves.holds hloop hi)
  | other net clients handling ht hnet =>
      subst ht
      exact hleaves hnet

/-- What holds after the task of `stop`. -/
structure Quiet (s t : State) : Prop where
  socks : t.socks = []
  closed : ∀ i, Holds t.loops i → Closed t.net i
  passed : t.passed = s.passed

theorem quiet_step {l : Label} (h : Inv host enabled [] t) (horderly : t.Orderly l)
    (hl : ∀ attempts fail enabled, l ≠ .bind attempts fail enabled) (hdoes : Does t l u)
    (hquiet : Quiet s t) : Quiet s u := by
  have hleaves : ∀ {net : Socket.State}, Leaves t.net net → ∀ i, Holds t.loops i → Closed net i :=
    fun hleaves i hi => hleaves.closed (h.holds_lt hi) (hquiet.closed i hi)
  cases hdoes with
  | bind net socks hbind ht =>
      obtain ⟨attempts, fail, enabled, rfl⟩ := hbind
      exact absurd rfl (hl attempts fail enabled)
  | start _ ht =>
      subst ht
      unfold State.start
      split
      · exact hquiet
      · have hnone : t.loops ++ t.socks.map Loop.submitted = t.loops := by
          rw [hquiet.socks]
          exact List.append_nil _
        rw [hnone]
        exact ⟨hquiet.socks, hquiet.closed, hquiet.passed⟩
  | stop _ cleanups ht =>
      subst ht
      exact ⟨hquiet.socks, hquiet.closed, hquiet.passed⟩
  | cleanup _ net cleanups ht hnet _ =>
      subst ht
      exact ⟨rfl, hleaves hnet, hquiet.passed⟩
  | moved k loop new more net hloop hmoves ht hnet =>
      have hpassed : u.passed + loop.client.toList.length
          = t.passed + more.length + new.client.toList.length := by
        apply passed_moved hloop
        · rw [ht]
        · rw [ht]
      subst ht
      refine ⟨hquiet.socks, fun i hi => hleaves hnet i (hmoves.holds hloop hi), ?_⟩
      cases hmoves with
      | accepted i client hfile =>
          obtain ⟨e, file, sockname, peername, hsome, rfl⟩ := hfile
          obtain ⟨x, hx, hne⟩ := horderly hsome i hloop
          exact absurd (hquiet.closed i (State.holds_of_getElem hloop rfl) x hx) hne
      | _ =>
          rw [← hquiet.passed]
          simpa [Loop.client] using hpassed
  | other net clients handling ht hnet =>
      subst ht
      exact ⟨hquiet.socks, hleaves hnet, hquiet.passed⟩

/-- **The task of `stop` is final.** No client comes after it, whatever `start` and `stop` are called
later, until `bind` is. -/
theorem silent_of_cleanup
    (h : Transition.Reachable (Transition.Guarded
      (fun s l => s.Possible host l ∧ l.enabled ≠ some (!enabled) ∧ s.Orderly l) (State.Step host)) New s)
    (hstep : State.Step host s (.cleanup enabled) t)
    (hu : Transition.Reachable (Transition.Guarded
      (fun s l => s.Possible host l ∧ l.enabled ≠ some (!enabled) ∧ s.Orderly l ∧
        ∀ attempts fail enabled, l ≠ .bind attempts fail enabled) (State.Step host)) (· = t) u) :
    t.Silent u := by
  have hstart : Inv host enabled [] s ∧ Tame s := by
    apply Transition.Reachable.invariant _ _ h
    · intro s hnew
      refine ⟨Inv.init hnew, fun i hi => ?_⟩
      rw [hnew.loops] at hi
      obtain ⟨loop, hin, -⟩ := hi
      cases hin
    · rintro s l t ⟨hinv, htame⟩ ⟨⟨hpossible, henabled, horderly⟩, hstep⟩
      obtain ⟨hinv', hdoes⟩ := does_of_step hinv hpossible henabled hstep
      exact ⟨hinv', tame_step hinv horderly hdoes htame⟩
  obtain ⟨hinv, htame⟩ := hstart
  have hcleaned : Inv host enabled [] t ∧ Quiet t t := by
    have henabled : (Label.cleanup enabled).enabled ≠ some (!enabled) := by
      simp [Label.enabled]
    obtain ⟨hinv', hdoes⟩ := does_of_step (l := .cleanup enabled) hinv trivial henabled hstep
    refine ⟨hinv', ?_⟩
    have htame' := tame_step hinv (l := .cleanup enabled) trivial hdoes htame
    have hsocks : t.socks = [] := by
      rw [State.Step, State.step] at hstep
      split at hstep
      · obtain ⟨-, net, rfl, -⟩ := hinv.cleanup hstep
        rfl
      · cases hstep
    exact ⟨hsocks, fun i hi => (htame' i hi).resolve_left (by simp [hsocks]), rfl⟩
  have hboth : Inv host enabled [] u ∧ Quiet t u := by
    apply Transition.Reachable.invariant _ _ hu
    · rintro _ rfl
      exact hcleaned
    · rintro u l v ⟨hinv, hquiet⟩ ⟨⟨hpossible, henabled, horderly, hl⟩, hstep⟩
      obtain ⟨hinv', hdoes⟩ := does_of_step hinv hpossible henabled hstep
      exact ⟨hinv', quiet_step hinv horderly hl hdoes hquiet⟩
  obtain ⟨-, hquiet⟩ := hboth
  refine ⟨hquiet.passed, hquiet.socks, fun i hi => ?_⟩
  rcases hi with hin | hin
  · rw [hquiet.socks] at hin
    cases hin
  · exact hquiet.closed i hin

end Results

section Examples

def nobody : State :=
  { net := Socket.nothing
    socks := []
    stop := true
    cleanups := 0
    loops := []
    clients := []
    handling := []
    served := [] }

theorem new_nobody : New nobody :=
  ⟨⟨rfl, fun _ => rfl, rfl, rfl, rfl, rfl, rfl⟩, rfl, rfl, rfl, rfl, rfl, rfl, rfl⟩

def fresh (s : State) (file : Option (Int32 × File)) : Bool :=
  file.all fun p => 0 ≤ p.1 ∧ (s.net.world.kernel p.1).isNone ∧ p.2.sock

theorem fresh_of {s : State} {file : Option (Int32 × File)} (h : fresh s file = true) :
    s.net.Fresh file := by
  rintro fd made rfl
  obtain ⟨hfd, hclosed, hsock⟩ : 0 ≤ fd ∧ (s.net.world.kernel fd).isNone ∧ made.sock := of_decide_eq_true h
  exact ⟨hfd, Option.isNone_iff_eq_none.mp hclosed, hsock⟩

/-- An address that is bound. -/
def bindable (fd : Int32) : Attempt := ⟨⟨2, []⟩, some (fd, ⟨true, 0⟩), true, some ⟨2, []⟩, true⟩

/-- A client comes to the first of the loops. -/
def comes (fd : Int32) : Label := .accepted 0 true (some (fd, ⟨true, 0⟩)) (some ⟨2, []⟩) (some ⟨2, []⟩)

/-- What the examples do. -/
def allowed (s : State) : Label → Bool
  | .bind [a] _ true => s.loops = [] ∧ fresh s a.file
  | .accepted _ true file _ _ =>
      fresh s file ∧ s.loops = [.accepting 0] ∧ (s.net.sockets 0).any fun x => x.fd ≠ -1
  | .start | .stop | .startAccept _ | .submit _ | .check _ true | .cleanup true => true
  | _ => false

/-- The steps that are asked for in `silent_of_cleanup`, but for `bind`. -/
def Asks (s : State) (l : Label) : Prop :=
  s.Possible .linux l ∧ l.enabled ≠ some (!true) ∧ s.Orderly l

theorem asks_of_allowed {s : State} {l : Label} (h : allowed s l = true) : Asks s l := by
  unfold allowed at h
  split at h
  · next a fail =>
    obtain ⟨hloops, hfresh⟩ := of_decide_eq_true h
    refine ⟨⟨fresh_of hfresh, fun _ _ => trivial⟩, (by simp [Label.enabled]), ?_⟩
    intro loop hin
    rw [hloops] at hin
    cases hin
  · next k file sockname peername =>
    obtain ⟨hfresh, hloops, hany⟩ := of_decide_eq_true h
    refine ⟨fresh_of hfresh, (by simp [Label.enabled]), fun _ i hi => ?_⟩
    obtain rfl : i = 0 := by
      have hin := List.mem_of_getElem? hi
      rw [hloops] at hin
      cases List.mem_singleton.mp hin
      rfl
    obtain ⟨x, hx, hne⟩ := (Option.any_eq_true _ _).mp hany
    exact ⟨x, hx, of_decide_eq_true hne⟩
  · exact ⟨trivial, (by simp [Label.enabled]), trivial⟩
  · exact ⟨trivial, (by simp [Label.enabled]), trivial⟩
  · exact ⟨trivial, (by simp [Label.enabled]), trivial⟩
  · exact ⟨trivial, (by simp [Label.enabled]), trivial⟩
  · exact ⟨trivial, (by simp [Label.enabled]), trivial⟩
  · exact ⟨trivial, (by simp [Label.enabled]), trivial⟩
  · cases h

/-- A step that the examples do. -/
def next (s : State) (l : Label) : Option State :=
  Transition.guarded (fun s l => allowed s l = true) (State.step .linux) s l

theorem asks_of_next {s t : State} {l : Label} (h : next s l = some t) :
    Transition.Guarded Asks (State.Step .linux) s l t := by
  obtain ⟨hallowed, hstep⟩ := Transition.guarded_step s l t h
  exact ⟨asks_of_allowed hallowed, hstep⟩

/-- The states that the labels lead to. -/
theorem reached_labels {labels : List Label} {look : State → Bool}
    (h : (labels.foldlM next nobody).map look = some true) :
    ∃ s, Transition.Reachable (Transition.Guarded Asks (State.Step .linux)) New s ∧
      Reached .linux true s ∧ look s = true := by
  obtain ⟨s, hrun, hlook⟩ := Option.map_eq_some_iff.mp h
  have hreach := Transition.Reachable.of_run (fun _ _ _ => asks_of_next) (.start new_nobody) hrun
  refine ⟨s, hreach, ?_, hlook⟩
  apply Transition.Reachable.invariant (fun _ hnew => .start hnew) _ hreach
  exact fun _ _ _ hs hstep => hs.next ⟨⟨hstep.1.1, hstep.1.2.1⟩, hstep.2⟩

/-- The server waits for its first client. -/
def waiting : List Label := [.bind [bindable 5] [] true, .start, .startAccept 0, .check 0 true]

/-- A client has come, and another one is waited for. -/
def served : List Label := waiting ++ [comes 6, .submit 0, .check 0 true]

theorem accounts_of_reached_served : ∃ s : State,
    (s.served = [1] ∧ s.loops = [.accepting 0] ∧ s.net.taken = [5, 6]) ∧ s.Accounts := by
  let look (s : State) : Bool := s.served = [1] ∧ s.loops = [.accepting 0] ∧ s.net.taken = [5, 6]
  obtain ⟨s, -, hs, hlook⟩ := @reached_labels served look (by decide +kernel)
  exact ⟨s, of_decide_eq_true hlook, accounts_of_reached hs⟩

/-- The server is started again after the task of `stop`. -/
theorem silent_of_cleanup_restarted : ∃ t u : State, t.passed = 1 ∧ u.stop = false ∧ t.Silent u := by
  let look (s : State) : Bool :=
    (next s (.cleanup true)).map (fun t => decide (t.passed = 1 ∧ t.stop = true)) = some true
  obtain ⟨s, hs, -, hlook⟩ := @reached_labels (served ++ [.stop]) look (by decide +kernel)
  obtain ⟨t, hnext, hcleaned⟩ := Option.map_eq_some_iff.mp (of_decide_eq_true hlook)
  obtain ⟨hpassed, hstop⟩ := of_decide_eq_true hcleaned
  obtain ⟨hpossible, henabled, horderly⟩ := @asks_of_allowed t .start rfl
  have hrestart : Transition.Reachable (Transition.Guarded
      (fun s l => s.Possible .linux l ∧ l.enabled ≠ some (!true) ∧ s.Orderly l ∧
        ∀ attempts fail enabled, l ≠ .bind attempts fail enabled) (State.Step .linux)) (· = t) t.start :=
    .next (.start rfl) ⟨⟨hpossible, henabled, horderly, fun _ _ _ => Label.noConfusion⟩, rfl⟩
  refine ⟨t, t.start, hpassed, ?_, silent_of_cleanup hs (asks_of_next hnext).2 hrestart⟩
  simp [State.start, hstop]

end Examples

end TcpServer

end AsyncRPC
