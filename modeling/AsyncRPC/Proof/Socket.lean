import AsyncRPC.Proof.Hook
import AsyncRPC.Socket
import Mathlib.Data.List.Nodup

/-!
# Who holds a descriptor

What one method does to the world concerns one descriptor. With the hooks on, the descriptors that the
objects have taken are in one object each, and with the hooks off no object finds its descriptor valid,
and takes another one whenever it is used.
-/

namespace AsyncRPC

open FdManager (FdContext File Host Kernel Manager Ref)
open Hook (World)
open Outcome

namespace Hook.World

variable {host : Host} {w w' : World} {fd fd' : Int32} {enabled : Bool}

/-- A descriptor whose context an `isVaild` is content with. -/
def usable (w : World) (fd : Int32) : Bool :=
  (w.manager.entry fd).any fun ref =>
    !(w.manager.contexts ref).isClose && (w.manager.contexts ref).isSocket

theorem usable_congr (hentry : w'.manager.entry fd = w.manager.entry fd)
    (hcontexts : ∀ ref, w.manager.entry fd = some ref →
      w'.manager.contexts ref = w.manager.contexts ref) : w'.usable fd = w.usable fd := by
  rw [usable, usable, hentry]
  cases h : w.manager.entry fd with
  | none => rfl
  | some ref =>
      rw [Option.any_some, Option.any_some, hcontexts ref h]

theorem entry_of_neg (hw : w.manager.Inv) (hfd : ¬ 0 ≤ fd) : w.manager.entry fd = none := by
  have hneg : fd < 0 := Int32.not_le.mp hfd
  have hfar := Manager.index_of_neg hneg
  unfold Manager.entry
  rw [List.getElem?_eq_none (by rw [hw.length]; exact hfar)]
  rfl

theorem nonneg_of_usable (hw : w.manager.Inv) (h : w.usable fd = true) : 0 ≤ fd := by
  by_contra hneg
  rw [usable, entry_of_neg hw hneg] at h
  cases h

/-- A lookup that makes no context. -/
theorem lookup (hw : w.manager.Inv) (hfd : 0 ≤ fd) :
    w.getFdContext host fd false = .ok (w.manager.entry fd, w) := by
  unfold World.getFdContext
  rcases Int32.lt_or_le fd 64 with hlt | hle
  · rw [hw.getFdContext_found w.kernel ⟨hfd, hlt⟩ (by simp)]
    rfl
  · rw [hw.getFdContext_beyond w.kernel hle, hw.entry_of_beyond hle]
    rfl

theorem lookup_neg (hw : w.manager.Inv) (hfd : ¬ 0 ≤ fd) :
    w.getFdContext host fd false = .error .outOfBounds := by
  unfold World.getFdContext
  rw [hw.getFdContext_error w.kernel fun h => hfd h.1]
  rfl

theorem hooked_entry (w : World) (fd : Int32) :
    (w.hooked (w.manager.entry fd)).isSome = w.usable fd := by
  unfold hooked usable
  cases h : w.manager.entry fd with
  | none => rfl
  | some ref => simp [Option.isSome_filter]

/-- One descriptor is opened or closed, which concerns no other. -/
structure Changes (fd : Int32) (w w' : World) : Prop where
  inv : w'.manager.Inv
  kernel : ∀ fd', fd' ≠ fd → w'.kernel fd' = w.kernel fd'
  entry : ∀ fd', fd' ≠ fd → w'.manager.entry fd' = w.manager.entry fd'
  usable : ∀ fd', fd' ≠ fd → w'.usable fd' = w.usable fd'

theorem Changes.refl (hw : w.manager.Inv) (fd : Int32) : Changes fd w w :=
  ⟨hw, fun _ _ => rfl, fun _ _ => rfl, fun _ _ => rfl⟩

theorem Changes.closed (h : Changes fd w w') : Changes fd w (w'.closed fd) where
  inv := h.inv
  kernel := fun fd' hne => (Function.update_of_ne hne _ _).trans (h.kernel fd' hne)
  entry := h.entry
  usable := h.usable

theorem setfl_kernel (kernel : Kernel) (fd : Int32) (arg : BitVec 32) :
    (∀ fd', fd' ≠ fd → (kernel.setfl host fd arg).2 fd' = kernel fd') ∧
      ((kernel.setfl host fd arg).2 fd).isSome = (kernel fd).isSome := by
  unfold Kernel.setfl
  cases hfile : kernel fd with
  | none => exact ⟨fun _ _ => rfl, congrArg Option.isSome hfile⟩
  | some file =>
      dsimp only
      split
      · exact ⟨fun _ _ => rfl, congrArg Option.isSome hfile⟩
      · exact ⟨fun fd' hne => Function.update_of_ne hne _ _, by simp⟩

/-- A new context for the descriptor may set the kernel's flag of it. -/
theorem new_kernel (kernel : Kernel) (fd : Int32) :
    (∀ fd', fd' ≠ fd → (FdContext.new host fd kernel).2 fd' = kernel fd') ∧
      ((FdContext.new host fd kernel).2 fd).isSome = (kernel fd).isSome := by
  cases hfile : kernel fd with
  | none =>
      have hsame : (FdContext.new host fd kernel).2 = kernel := by
        unfold FdContext.new FdContext.init FdContext.fresh
        simp [hfile]
      rw [hsame]
      exact ⟨fun _ _ => rfl, congrArg Option.isSome hfile⟩
  | some file =>
      rw [← hfile]
      by_cases hsock : file.sock = true
      · rw [Hook.new_socket host hfile hsock]
        dsimp only
        split
        · exact setfl_kernel kernel fd _
        · exact ⟨fun _ _ => rfl, rfl⟩
      · have hsame : (FdContext.new host fd kernel).2 = kernel := by
          unfold FdContext.new FdContext.init FdContext.fresh
          simp [hfile, hsock]
        rw [hsame]
        exact ⟨fun _ _ => rfl, rfl⟩

theorem getFdContext_changes (hw : w.manager.Inv) (hfd : 0 ≤ fd)
    {fdctx : Option Ref} (h : w.getFdContext host fd true = .ok (fdctx, w')) :
    Changes fd w w' ∧ (w'.kernel fd).isSome = (w.kernel fd).isSome := by
  have hlt : fd < 64 := by
    by_contra hge
    rw [World.getFdContext, hw.getFdContext_error w.kernel fun hin => hge (hin.2 rfl)] at h
    cases h
  by_cases hentry : w.manager.entry fd = none
  · rw [World.getFdContext, hw.getFdContext_created w.kernel ⟨hfd, hlt⟩ hentry] at h
    cases h
    obtain ⟨hothers, hsome⟩ := new_kernel w.kernel fd
    refine ⟨⟨hw.created _ fd, hothers, fun fd' hne => Manager.entry_put_of_ne hne _, ?_⟩, hsome⟩
    intro fd' hne
    refine usable_congr (Manager.entry_put_of_ne hne _) fun ref href => ?_
    exact Function.update_of_ne (Nat.ne_of_lt (hw.entry_lt href)) _ _
  · have hfound : (w.manager.entry fd).isSome || !true := by
      simpa [Option.isSome_iff_ne_none] using hentry
    rw [World.getFdContext, hw.getFdContext_found w.kernel ⟨hfd, hlt⟩ hfound] at h
    cases h
    exact ⟨Changes.refl hw fd, rfl⟩

theorem Changes.opened (hw : w.manager.Inv) (fd : Int32) (file : File) : Changes fd w (w.opened fd file) :=
  ⟨hw, fun _ hne => Function.update_of_ne hne _ _, fun _ _ => rfl, fun _ _ => rfl⟩

theorem Changes.trans {w'' : World} (h : Changes fd w w') (h' : Changes fd w' w'') : Changes fd w w'' where
  inv := h'.inv
  kernel := fun fd' hne => (h'.kernel fd' hne).trans (h.kernel fd' hne)
  entry := fun fd' hne => (h'.entry fd' hne).trans (h.entry fd' hne)
  usable := fun fd' hne => (h'.usable fd' hne).trans (h.usable fd' hne)

/-- What `socket` and `accept` do with a descriptor that the kernel gives out. -/
structure Takes (enabled : Bool) (fd : Int32) (file : File) (w w' : World) : Prop where
  changes : Changes fd w w'
  opened : (w'.kernel fd).isSome = true
  unhooked : enabled = false → w'.manager = w.manager
  usable : enabled = true → file.sock = true → w.manager.entry fd = none → w'.usable fd = true

theorem usable_created (hw : w.manager.Inv) (hfd : 0 ≤ fd ∧ fd < 64) {file : File}
    (hfile : w.kernel fd = some file) (hsock : file.sock = true) :
    usable ⟨(FdContext.new host fd w.kernel).2, w.manager.created (FdContext.new host fd w.kernel).1 fd⟩ fd
      = true := by
  have hentry : (w.manager.created (FdContext.new host fd w.kernel).1 fd).entry fd
      = some w.manager.made := (hw.addContext _).entry_put hfd _
  have hcontext : (w.manager.created (FdContext.new host fd w.kernel).1 fd).contexts w.manager.made
      = (FdContext.new host fd w.kernel).1 := Function.update_self _ _ _
  rw [usable]
  dsimp only
  rw [hentry, Option.any_some, hcontext, Hook.new_socket host hfile hsock]
  rfl

theorem socket_takes (hw : w.manager.Inv) (hfd : 0 ≤ fd) {file : File} {r : Int32}
    (h : w.socket host enabled (some (fd, file)) = .ok (r, w')) : r = fd ∧ Takes enabled fd file w w' := by
  have hkernel : (w.opened fd file).kernel fd = some file := Function.update_self _ _ _
  have hopened := Changes.opened hw fd file
  cases enabled with
  | false =>
      cases h
      refine ⟨rfl, hopened, by rw [hkernel]; rfl, fun _ => rfl, fun heq => by cases heq⟩
  | true =>
      have hne : fd ≠ -1 := by
        rintro rfl
        exact absurd hfd (by decide)
      rw [World.socket] at h
      simp only [Bool.not_true, Bool.false_eq_true, if_false, if_neg hne] at h
      obtain ⟨⟨fdctx, w₁⟩, hget, hlast⟩ := bind_eq_ok.mp h
      cases hlast
      obtain ⟨hchanges, hsome⟩ := getFdContext_changes hopened.inv hfd hget
      refine ⟨rfl, hopened.trans hchanges, by rw [hsome, hkernel]; rfl, (fun heq => by cases heq), ?_⟩
      intro _ hsock hnone
      have hnone' : (w.opened fd file).manager.contextOf fd = none := by
        rw [Manager.contextOf_eq, if_neg (Int32.not_lt.mpr hfd)]
        exact Option.map_eq_none_iff.mpr hnone
      obtain ⟨hlt, rfl⟩ := World.getFdContext_created host hopened.inv hfd hnone' hget
      exact usable_created hopened.inv ⟨hfd, hlt⟩ hkernel hsock

theorem accept_eq_socket (hfd : 0 ≤ fd) (file : File) :
    w.accept host enabled (some (fd, file)) = w.socket host enabled (some (fd, file)) := by
  have hne : fd ≠ -1 := by
    rintro rfl
    exact absurd hfd (by decide)
  unfold World.accept World.socket
  cases enabled <;> simp [hfd, hne]

/-- What `close` does. -/
structure Closes (enabled : Bool) (fd : Int32) (w w' : World) : Prop where
  changes : Changes fd w w'
  closed : w'.kernel fd = none
  unhooked : enabled = false → w'.manager = w.manager
  hooked : enabled = true → w'.manager.entry fd = none

theorem close_closes (hw : w.manager.Inv) (h : w.close host enabled fd = .ok w') :
    Closes enabled fd w w' := by
  cases enabled with
  | false =>
      cases h
      exact ⟨(Changes.refl hw fd).closed, Function.update_self _ _ _, fun _ => rfl,
        fun heq => by cases heq⟩
  | true =>
      have hfd : 0 ≤ fd := by
        by_contra hneg
        rw [World.close, if_neg (by decide), lookup_neg hw hneg] at h
        cases h
      rw [World.close, if_neg (by decide), lookup hw hfd] at h
      simp only [bind, Except.bind] at h
      split at h
      · next hnone =>
        cases h
        exact ⟨(Changes.refl hw fd).closed, Function.update_self _ _ _, (fun heq => by cases heq),
          fun _ => hnone⟩
      · next ref hsome =>
        have hlt : fd < 64 := by
          by_contra hge
          cases (hw.entry_of_beyond (Int32.not_lt.mp hge)).symm.trans hsome
        rw [hw.delFdContext_eq ⟨hfd, hlt⟩] at h
        cases h
        refine ⟨Changes.closed ⟨hw.put fd fun _ hnone => (by cases hnone), fun _ _ => rfl,
          fun fd' hne => Manager.entry_put_of_ne hne none, fun fd' hne => ?_⟩, Function.update_self _ _ _,
          (fun heq => by cases heq), fun _ => hw.entry_put ⟨hfd, hlt⟩ none⟩
        exact usable_congr (Manager.entry_put_of_ne hne none) fun _ _ => rfl

end Hook.World

namespace Socket

open Hook.World (Changes Closes Takes)

variable {host : Host} {enabled : Bool} {n t : State} {i : Nat} {s : Socket} {old fd : Int32}

/-- What becomes of the descriptor of one object: it stays, is forgotten, taken from the kernel or
closed. -/
inductive Turn (enabled : Bool) (n : State) (old : Int32) : World → List Int32 → Int32 → Prop
  | keep : Turn enabled n old n.world n.taken old
  | forget (h : n.world.usable old = false) : Turn enabled n old n.world n.taken (-1)
  | take {fd file w} (h : n.world.usable old = false) (hfd : 0 ≤ fd)
      (hclosed : n.world.kernel fd = none) (hsock : file.sock = true)
      (htakes : Takes enabled fd file n.world w) : Turn enabled n old w (n.taken ++ [fd]) fd
  | release {w} (hold : old ≠ -1) (hcloses : Closes enabled old n.world w) :
      Turn enabled n old w (n.taken.erase old) (-1)

theorem Turn.congr {m : State} {w : World} {taken : List Int32} (h : Turn enabled n old w taken fd)
    (hworld : m.world = n.world) (htaken : m.taken = n.taken) : Turn enabled m old w taken fd := by
  cases h with
  | keep => exact hworld ▸ htaken ▸ .keep
  | forget hnot => exact hworld ▸ htaken ▸ .forget (hworld ▸ hnot)
  | take hnot hfd hclosed hsock htakes =>
      exact htaken ▸ .take (hworld ▸ hnot) hfd (hworld ▸ hclosed) hsock (hworld ▸ htakes)
  | release hne hcloses => exact htaken ▸ .release hne (hworld ▸ hcloses)

/-- What holds whether or not the hooks are on. -/
structure Base (n : State) : Prop where
  inv : n.world.manager.Inv
  nodup : n.taken.Nodup
  opened : ∀ fd ∈ n.taken, 0 ≤ fd ∧ (n.world.kernel fd).isSome = true
  held : ∀ i s, n.sockets i = some s → s.fd ≠ -1 → s.fd ∈ n.taken
  single : ∀ i j s t, n.sockets i = some s → n.sockets j = some t → s.fd = t.fd → s.fd ≠ -1 → i = j
  connected : ∀ i s, n.sockets i = some s → s.isConnected = true → n.world.usable s.fd = true
  connecting : n.connecting.Nodup ∧
    ∀ i ∈ n.connecting, ∃ s, n.sockets i = some s ∧ n.world.usable s.fd = true
  unmade : ∀ i, n.made ≤ i → n.sockets i = none

theorem ne_of_nonneg (hfd : 0 ≤ fd) : fd ≠ -1 := by
  rintro rfl
  exact absurd hfd (by decide)

theorem Base.not_usable (h : Base n) : n.world.usable (-1) = false := by
  by_contra hnot
  have hnonneg := Hook.World.nonneg_of_usable h.inv (eq_true_of_ne_false hnot)
  exact ne_of_nonneg hnonneg rfl

theorem Base.isVaild (h : Base n) (hi : n.sockets i = some s) :
    n.isVaild host s = .ok (n.world.usable s.fd) := by
  unfold State.isVaild
  split
  · next hnone => rw [hnone, h.not_usable]
  · next hsome =>
    have hfd := (h.opened _ (h.held i s hi hsome)).1
    rw [Hook.World.lookup h.inv hfd, ← Hook.World.hooked_entry]
    rfl

/-- The descriptor of an object, made or to be made. -/
def Old (n : State) (i : Nat) (old : Int32) : Prop :=
  (∃ s, n.sockets i = some s ∧ s.fd = old) ∨ (i = n.made ∧ old = -1)

theorem Base.old_mem (h : Base n) (hold : Old n i old) (hne : old ≠ -1) : old ∈ n.taken := by
  rcases hold with ⟨s, hi, rfl⟩ | ⟨-, hnone⟩
  · exact h.held i s hi hne
  · exact absurd hnone hne

theorem Base.old_single (h : Base n) (hold : Old n i old) {j : Nat} (hj : n.sockets j = some s)
    (hfd : s.fd = old) (hne : old ≠ -1) : j = i := by
  rcases hold with ⟨s', hi, heq⟩ | ⟨-, hnone⟩
  · exact h.single j i s s' hj hi (hfd.trans heq.symm) (hfd ▸ hne)
  · exact absurd hnone hne

/-- What a turn leaves alone, and where it ends. -/
structure Turns (n : State) (old : Int32) (w : World) (taken : List Int32) (fd : Int32) : Prop where
  inv : w.manager.Inv
  nodup : taken.Nodup
  opened : ∀ fd ∈ taken, 0 ≤ fd ∧ (w.kernel fd).isSome = true
  kept : ∀ fd' ∈ n.taken, fd' ≠ old → fd' ∈ taken ∧ w.usable fd' = n.world.usable fd'
  own : fd ≠ -1 → fd ∈ taken ∧ (fd = old ∨ fd ∉ n.taken)

theorem Turn.turns {w : World} {taken : List Int32} (h : Base n) (hold : old ≠ -1 → old ∈ n.taken)
    (hturn : Turn enabled n old w taken fd) : Turns n old w taken fd := by
  cases hturn with
  | keep => exact ⟨h.inv, h.nodup, h.opened, fun _ hin _ => ⟨hin, rfl⟩, fun hne => ⟨hold hne, Or.inl rfl⟩⟩
  | forget hnot =>
      exact ⟨h.inv, h.nodup, h.opened, fun _ hin _ => ⟨hin, rfl⟩, fun hne => absurd rfl hne⟩
  | take hnot hfd hclosed hsock htakes =>
      have hnew : fd ∉ n.taken := by
        intro hin
        have hsome := (h.opened fd hin).2
        rw [hclosed] at hsome
        cases hsome
      have hne : ∀ fd' ∈ n.taken, fd' ≠ fd := by
        rintro fd' hin rfl
        exact hnew hin
      refine ⟨htakes.changes.inv, ?_, fun fd' hin => ?_, fun fd' hin _ => ?_, fun _ => ?_⟩
      · refine List.nodup_append.mpr ⟨h.nodup, List.nodup_singleton fd, fun fd' hin fd'' hin' => ?_⟩
        obtain rfl := List.mem_singleton.mp hin'
        exact hne fd' hin
      · rcases List.mem_append.mp hin with hin | hin
        · rw [htakes.changes.kernel fd' (hne fd' hin)]
          exact h.opened fd' hin
        · obtain rfl := List.mem_singleton.mp hin
          exact ⟨hfd, htakes.opened⟩
      · exact ⟨List.mem_append_left _ hin, htakes.changes.usable fd' (hne fd' hin)⟩
      · exact ⟨List.mem_append_right _ (List.mem_singleton_self fd), Or.inr hnew⟩
  | release hne hcloses =>
      have hother : ∀ fd' ∈ n.taken.erase old, fd' ≠ old ∧ fd' ∈ n.taken := by
        intro fd' hin
        exact h.nodup.mem_erase_iff.mp hin
      refine ⟨hcloses.changes.inv, h.nodup.erase old, fun fd' hin => ?_, fun fd' hin hne' => ?_,
        fun hne' => absurd rfl hne'⟩
      · rw [hcloses.changes.kernel fd' (hother fd' hin).1]
        exact h.opened fd' (hother fd' hin).2
      · exact ⟨(List.mem_erase_of_ne hne').mpr hin, hcloses.changes.usable fd' hne'⟩

/-- One object takes its turn. -/
theorem Base.turn (h : Base n) {o : Option Socket} (hold : Old n i old)
    (hturn : Turn enabled n old t.world t.taken fd)
    (hsockets : t.sockets = Function.update n.sockets i o)
    (ho : ∀ s, o = some s → s.fd = fd ∧ (s.isConnected = true → t.world.usable fd = true))
    (hmade : n.made ≤ t.made ∧ i < t.made)
    (hconnecting : t.connecting.Nodup ∧ ∀ j ∈ t.connecting, (j ≠ i ∧ j ∈ n.connecting) ∨
      (j = i ∧ ∃ s, o = some s ∧ t.world.usable fd = true)) : Base t := by
  have hturns := hturn.turns h (h.old_mem hold)
  have hothers : ∀ j s, j ≠ i → n.sockets j = some s → s.fd ≠ -1 → s.fd ∈ n.taken ∧ s.fd ≠ old := by
    intro j s hj hs hne
    refine ⟨h.held j s hs hne, fun heq => hj ?_⟩
    exact h.old_single hold hs heq (heq ▸ hne)
  have husable : ∀ j s, j ≠ i → n.sockets j = some s → n.world.usable s.fd = true →
      t.world.usable s.fd = true := by
    intro j s hj hs hus
    have hne : s.fd ≠ -1 := by
      intro heq
      rw [heq, h.not_usable] at hus
      cases hus
    obtain ⟨hin, hne'⟩ := hothers j s hj hs hne
    rw [(hturns.kept s.fd hin hne').2]
    exact hus
  have hsocket : ∀ j s, t.sockets j = some s → (j = i ∧ o = some s) ∨ (j ≠ i ∧ n.sockets j = some s) := by
    intro j s hj
    rw [hsockets] at hj
    by_cases hji : j = i
    · subst hji
      exact Or.inl ⟨rfl, by rwa [Function.update_self] at hj⟩
    · exact Or.inr ⟨hji, by rwa [Function.update_of_ne hji] at hj⟩
  have hunmade : ∀ j, t.made ≤ j → t.sockets j = none := by
    intro j hj
    rw [hsockets, Function.update_of_ne (by omega)]
    exact h.unmade j (by omega)
  refine ⟨hturns.inv, hturns.nodup, hturns.opened, fun j s hj hne => ?_, fun j k s s' hj hk heq hne => ?_,
    fun j s hj hconn => ?_, ⟨hconnecting.1, fun j hj => ?_⟩, hunmade⟩
  · rcases hsocket j s hj with ⟨-, hown⟩ | ⟨hji, hs⟩
    · rw [(ho s hown).1] at hne ⊢
      exact (hturns.own hne).1
    · obtain ⟨hin, hne'⟩ := hothers j s hji hs hne
      exact (hturns.kept s.fd hin hne').1
  · have hclash : ∀ j s s', o = some s → j ≠ i → n.sockets j = some s' → s.fd = s'.fd → s.fd ≠ -1 →
        False := by
      intro j s s' hown hji hs' heq hne
      obtain ⟨hin, hne'⟩ := hothers j s' hji hs' (heq ▸ hne)
      rw [(ho s hown).1] at heq hne
      rcases (hturns.own hne).2 with hsame | hnew
      · exact hne' (heq.symm.trans hsame)
      · exact hnew (heq ▸ hin)
    rcases hsocket j s hj with ⟨rfl, hown⟩ | ⟨hji, hs⟩
    · rcases hsocket k s' hk with ⟨rfl, -⟩ | ⟨hki, hs'⟩
      · rfl
      · exact (hclash k s s' hown hki hs' heq hne).elim
    · rcases hsocket k s' hk with ⟨rfl, hown⟩ | ⟨hki, hs'⟩
      · exact (hclash j s' s hown hji hs heq.symm (heq ▸ hne)).elim
      · exact h.single j k s s' hs hs' heq hne
  · rcases hsocket j s hj with ⟨-, hown⟩ | ⟨hji, hs⟩
    · rw [(ho s hown).1]
      exact (ho s hown).2 hconn
    · exact husable j s hji hs (h.connected j s hs hconn)
  · rcases hconnecting.2 j hj with ⟨hji, hin⟩ | ⟨rfl, s, hown, hus⟩
    · obtain ⟨s, hs, hus⟩ := h.connecting.2 j hin
      refine ⟨s, ?_, husable j s hji hs hus⟩
      rw [hsockets, Function.update_of_ne hji]
      exact hs
    · refine ⟨s, ?_, ?_⟩
      · rw [hsockets, Function.update_self]
        exact hown
      · rw [(ho s hown).1]
        exact hus

/-- The descriptor that a fiber is in `connect` with was valid, and stays so. -/
def Connecting (n t : State) (i : Nat) (o : Option Socket) (fd : Int32) : Prop :=
  (i ∉ n.connecting ∧ t.connecting = n.connecting) ∨ t.connecting = n.connecting.erase i ∨
    (i ∉ n.connecting ∧ t.connecting = n.connecting ++ [i] ∧ o.isSome = true ∧ t.world.usable fd = true)

/-- The methods that have returned, where one that has done what it is for had a valid descriptor. -/
def Answers (n t : State) : Prop :=
  ∃ more, t.answers = n.answers ++ more ∧ ∀ p ∈ more, p.2 = true → ∃ fd, t.world.usable fd = true

/-- Everything a step can do: an object takes its turn, nothing changes that is known of a descriptor,
or somebody else opens or closes one. -/
inductive Does (n : State) (l : Label) (t : State) : Prop
  | turned {i : Nat} {old fd : Int32} {o : Option Socket} (hold : Old n i old)
      (hturn : ∀ enabled, l.enabled ≠ some (!enabled) → Turn enabled n old t.world t.taken fd)
      (hsockets : t.sockets = Function.update n.sockets i o)
      (ho : ∀ s, o = some s → s.fd = fd ∧ (s.isConnected = true → t.world.usable fd = true))
      (hmade : n.made ≤ t.made ∧ i < t.made) (hconnecting : Connecting n t i o fd)
      (hnone : o = none → fd = -1 ∨ t.world.usable fd = false)
      (hkeeps : ∀ s s', n.sockets i = some s → o = some s' → s.Keeps s') (hanswers : Answers n t)
  | same (hworld : t.world = n.world) (htaken : t.taken = n.taken) (hsockets : t.sockets = n.sockets)
      (hmade : t.made = n.made) (hconnecting : t.connecting = n.connecting) (hanswers : Answers n t)
  | other {fd : Int32} (hfd : fd ∉ n.taken) (hchanges : Changes fd n.world t.world)
      (hhooked : l.enabled ≠ some false → t.world.kernel fd = none → t.world.manager.entry fd = none)
      (hunhooked : l.enabled ≠ some true → t.world.manager = n.world.manager)
      (htaken : t.taken = n.taken) (hsockets : t.sockets = n.sockets) (hmade : t.made = n.made)
      (hconnecting : t.connecting = n.connecting) (hanswers : t.answers = n.answers)

theorem getLocalAddress_fd (s : Socket) (sockname : Option SockAddr) :
    (s.getLocalAddress sockname).fd = s.fd ∧
      (s.getLocalAddress sockname).isConnected = s.isConnected := by
  unfold getLocalAddress
  split
  · exact ⟨rfl, rfl⟩
  · exact ⟨rfl, rfl⟩

theorem connected_fd (s : Socket) (sockname peername : Option SockAddr) :
    (s.connected sockname peername).fd = s.fd := by
  unfold connected getRemoteAddress
  split
  · exact (getLocalAddress_fd _ sockname).1
  · exact (getLocalAddress_fd _ sockname).1

theorem Keeps.refl (s : Socket) : s.Keeps s := ⟨fun _ => id, fun _ => id⟩

theorem Keeps.trans {s s' s'' : Socket} (h : s.Keeps s') (h' : s'.Keeps s'') : s.Keeps s'' :=
  ⟨fun address ha => h'.localAddress address (h.localAddress address ha),
    fun address ha => h'.remoteAddress address (h.remoteAddress address ha)⟩

theorem keeps_getLocalAddress (s : Socket) (sockname : Option SockAddr) :
    s.Keeps (s.getLocalAddress sockname) := by
  unfold getLocalAddress
  split
  · exact Keeps.refl s
  · next hnone => exact ⟨(fun address ha => by rw [hnone] at ha; cases ha), fun _ => id⟩

theorem keeps_getRemoteAddress (s : Socket) (peername : Option SockAddr) :
    s.Keeps (s.getRemoteAddress peername) := by
  unfold getRemoteAddress
  split
  · exact Keeps.refl s
  · next hnone => exact ⟨fun _ => id, fun address ha => by rw [hnone] at ha; cases ha⟩

theorem keeps_connected (s : Socket) (sockname peername : Option SockAddr) :
    s.Keeps (s.connected sockname peername) := by
  have hset : s.Keeps { s with isConnected := true } := ⟨fun _ => id, fun _ => id⟩
  exact (hset.trans (keeps_getLocalAddress _ sockname)).trans (keeps_getRemoteAddress _ peername)

/-- The object that takes the turn is the one that has it. -/
theorem keeps_of {o : Option Socket} {s' : Socket} (hi : n.sockets i = some s) (ho : o = some s')
    (h : s.Keeps s') : ∀ x x', n.sockets i = some x → o = some x' → x.Keeps x' := by
  intro x x' hx hx'
  obtain rfl := Option.some.inj (hi.symm.trans hx)
  obtain rfl := Option.some.inj (ho.symm.trans hx')
  exact h

theorem turn_of_label {l : Label} {b : Bool} {w : World} {taken : List Int32} (hl : l.enabled = some b)
    (h : Turn b n old w taken fd) :
    ∀ enabled, l.enabled ≠ some (!enabled) → Turn enabled n old w taken fd := by
  intro enabled hne
  rw [hl] at hne
  cases b <;> cases enabled <;> first | exact h | exact absurd rfl hne

/-- How `bind` and `connect` see to a valid descriptor. -/
inductive Prepared (enabled : Bool) (file : Option (Int32 × File)) (n : State) (s : Socket) :
    Bool → Socket → State → Prop
  | valid (h : n.world.usable s.fd = true) : Prepared enabled file n s true s n
  | failed (h : n.world.usable s.fd = false) (hfile : file = none) :
      Prepared enabled file n s false { s with fd := -1 } n
  | taken {fd : Int32} {made : File} {w : World} (h : n.world.usable s.fd = false) (hfd : 0 ≤ fd)
      (hclosed : n.world.kernel fd = none) (hsock : made.sock = true)
      (htakes : Takes enabled fd made n.world w) (hfile : file = some (fd, made)) :
      Prepared enabled file n s (w.usable fd) { s with fd := fd }
        { n with world := w, taken := n.taken ++ [fd] }

theorem prepared (h : Base n) (hi : n.sockets i = some s) {file : Option (Int32 × File)}
    (hfresh : n.Fresh file) {valid : Bool} {s' : Socket} {n' : State}
    (hrun : n.prepare host s enabled file = .ok (valid, s', n')) :
    Prepared enabled file n s valid s' n' := by
  unfold State.prepare at hrun
  rw [h.isVaild hi] at hrun
  simp only [bind, Except.bind] at hrun
  split at hrun
  · next husable =>
    cases hrun
    exact .valid husable
  · next hnot =>
    have hunusable : n.world.usable s.fd = false := eq_false_of_ne_true hnot
    split at hrun
    · cases hrun
    · next made hmade =>
      obtain ⟨⟨r, w⟩, hsocket, hlast⟩ := bind_eq_ok.mp hmade
      cases hlast
      split at hrun
      · cases hrun
      · next valid' hvalid =>
        cases hrun
        cases hfile : file with
        | none =>
            rw [hfile] at hsocket
            cases hsocket
            rw [State.isVaild, if_pos rfl] at hvalid
            cases hvalid
            have hsame : n.taken ++ (Option.map Prod.fst (none : Option (Int32 × File))).toList
                = n.taken := List.append_nil _
            rw [hsame]
            exact .failed hunusable rfl
        | some p =>
            obtain ⟨fd, made⟩ := p
            rw [hfile] at hsocket
            obtain ⟨hfd, hclosed, hsock⟩ := hfresh fd made hfile
            obtain ⟨rfl, htakes⟩ := Hook.World.socket_takes h.inv hfd hsocket
            rw [State.isVaild, if_neg (ne_of_nonneg hfd)] at hvalid
            dsimp only at hvalid
            rw [Hook.World.lookup htakes.changes.inv hfd] at hvalid
            simp only [bind, Except.bind, Except.ok.injEq, Hook.World.hooked_entry] at hvalid
            rw [← hvalid]
            exact .taken hunusable hfd hclosed hsock htakes rfl

theorem prepare_turn (h : Base n) (hi : n.sockets i = some s) {valid : Bool} {s' : Socket} {n' : State}
    {file : Option (Int32 × File)} (hprepared : Prepared enabled file n s valid s' n') :
    ∃ fd, Turn enabled n s.fd n'.world n'.taken fd ∧ s' = { s with fd := fd } ∧
      n' = { n with world := n'.world, taken := n'.taken } ∧
      (valid = true → n'.world.usable fd = true) ∧ (s.isConnected = true → valid = true) := by
  have hconnected : n.world.usable s.fd = false → s.isConnected = true → valid = true := by
    intro hnot hconn
    rw [h.connected i s hi hconn] at hnot
    cases hnot
  cases hprepared with
  | valid hus => exact ⟨s.fd, .keep, rfl, rfl, fun _ => hus, fun _ => rfl⟩
  | failed hnot hfile => exact ⟨-1, .forget hnot, rfl, rfl, (fun htrue => by cases htrue), hconnected hnot⟩
  | @taken fd made w hnot hfd hclosed hsock htakes hfile =>
      exact ⟨fd, .take hnot hfd hclosed hsock htakes, rfl, rfl, id, hconnected hnot⟩

/-- `close` lets the descriptor go. -/
theorem close_turn (h : Base n) {s' : Socket} {n' : State}
    (hrun : n.close host s enabled = .ok (s', n')) :
    Turn enabled n s.fd n'.world n'.taken (-1) ∧ s'.fd = -1 ∧ s'.isConnected = false ∧ s.Keeps s' ∧
      n' = { n with world := n'.world, taken := n'.taken } := by
  unfold State.close at hrun
  split at hrun
  · next hidle =>
    cases hrun
    obtain ⟨hconn, hfd⟩ : s.isConnected = false ∧ s.fd = -1 := by simpa using hidle
    exact ⟨hfd ▸ .keep, hfd, hconn, Keeps.refl s, rfl⟩
  · dsimp only at hrun
    split at hrun
    · next hfd =>
      obtain ⟨w, hclose, hlast⟩ := bind_eq_ok.mp hrun
      cases hlast
      exact ⟨.release hfd (Hook.World.close_closes h.inv hclose), rfl, rfl, ⟨fun _ => id, fun _ => id⟩, rfl⟩
    · next hfd =>
      cases hrun
      have hnone : s.fd = -1 := not_not.mp hfd
      exact ⟨hnone ▸ .keep, hnone, rfl, ⟨fun _ => id, fun _ => id⟩, rfl⟩

theorem on_eq_some {method : Socket → Except FdManager.Fault State} (h : n.on i method = some t) :
    ∃ s, n.sockets i = some s ∧ method s = .ok t := by
  unfold State.on at h
  split at h
  · cases h
  · next s hi => exact ⟨s, hi, toOption_eq_some.mp h⟩

theorem Base.lt_made (h : Base n) (hi : n.sockets i = some s) : i < n.made := by
  by_contra hge
  rw [h.unmade i (Nat.not_lt.mp hge)] at hi
  cases hi

theorem Base.keeps_unmade (h : Base n) {o : Option Socket} :
    ∀ x x', n.sockets n.made = some x → o = some x' → x.Keeps x' := by
  intro x x' hx
  rw [h.unmade _ le_rfl] at hx
  cases hx

theorem answers_one {p : Nat × Bool} (hanswers : t.answers = n.answers ++ [p])
    (hp : p.2 = true → ∃ fd, t.world.usable fd = true) : Answers n t := by
  refine ⟨[p], hanswers, fun q hq => ?_⟩
  obtain rfl := List.mem_singleton.mp hq
  exact hp

theorem answers_none (hanswers : t.answers = n.answers) : Answers n t := by
  refine ⟨[], by rw [hanswers, List.append_nil], fun q hq => ?_⟩
  cases hq

/-- An object that has seen to its descriptor returns from `bind` or `connect`. -/
theorem does_prepared (h : Base n) {l : Label} (hl : l.enabled = some enabled)
    (hi : n.sockets i = some s) (hout : i ∉ n.connecting) {file : Option (Int32 × File)}
    (hfresh : n.Fresh file) {valid : Bool} {s' s'' : Socket} {n' : State}
    (hrun : n.prepare host s enabled file = .ok (valid, s', n')) (hfd : s''.fd = s'.fd)
    (hconn : s''.isConnected = s'.isConnected) (hkeeps : s'.Keeps s'') {b : Bool}
    (hb : b = true → valid = true) (ht : t = (n'.put i s'').answer i b) : Does n l t := by
  obtain ⟨fd, hturn, rfl, hn', husable, hvalid⟩ := prepare_turn h hi (prepared h hi hfresh hrun)
  subst ht
  rw [hn']
  refine .turned (Or.inl ⟨s, hi, rfl⟩) (turn_of_label hl hturn) rfl (fun x hx => ?_)
    ⟨le_rfl, h.lt_made hi⟩ (Or.inl ⟨hout, rfl⟩) (fun hnone => by cases hnone)
    (keeps_of hi rfl ⟨hkeeps.localAddress, hkeeps.remoteAddress⟩)
    (answers_one rfl fun htrue => ⟨fd, husable (hb htrue)⟩)
  obtain rfl := Option.some.inj hx
  refine ⟨hfd, fun hx => husable (hvalid ?_)⟩
  rw [hconn] at hx
  exact hx

theorem does_bind (h : Base n) {address : SockAddr} {file : Option (Int32 × File)} {bound : Bool}
    {sockname : Option SockAddr} (hi : n.sockets i = some s) (hout : i ∉ n.connecting)
    (hfresh : n.Fresh file) (hrun : n.bind host i s address enabled file bound sockname = .ok t) :
    Does n (.bind i address enabled file bound sockname) t := by
  obtain ⟨⟨valid, s', n'⟩, hprepare, hlast⟩ := bind_eq_ok.mp hrun
  have hdone := @does_prepared host enabled n t i s h
    (.bind i address enabled file bound sockname) rfl hi hout file hfresh valid s'
  dsimp only at hlast
  split at hlast
  · cases hlast
    exact hdone hprepare rfl rfl (Keeps.refl s') (fun hb => by cases hb) rfl
  · next hvalid =>
    split at hlast
    · cases hlast
      exact hdone hprepare rfl rfl (Keeps.refl s') (fun hb => by cases hb) rfl
    · split at hlast
      · cases hlast
        exact hdone hprepare rfl rfl (Keeps.refl s') (fun hb => by cases hb) rfl
      · cases hlast
        obtain ⟨hfd, hconn⟩ := getLocalAddress_fd s' sockname
        exact hdone hprepare hfd hconn (keeps_getLocalAddress s' sockname)
          (fun _ => by simpa using hvalid) rfl

theorem does_connect (h : Base n) {address : SockAddr} {file : Option (Int32 × File)}
    (hi : n.sockets i = some s) (hout : i ∉ n.connecting) (hfresh : n.Fresh file)
    (hrun : n.connect host i s address enabled file = .ok t) :
    Does n (.connect i address enabled file) t := by
  obtain ⟨⟨valid, s', n'⟩, hprepare, hlast⟩ := bind_eq_ok.mp hrun
  have hdone := @does_prepared host enabled n t i s h
    (.connect i address enabled file) rfl hi hout file hfresh valid s'
  dsimp only at hlast
  split at hlast
  · cases hlast
    exact hdone hprepare rfl rfl (Keeps.refl s') (fun hb => by cases hb) rfl
  · next hvalid =>
    split at hlast
    · cases hlast
      exact hdone hprepare rfl rfl (Keeps.refl s') (fun hb => by cases hb) rfl
    · cases hlast
      obtain ⟨fd, hturn, rfl, hn', husable, -⟩ := prepare_turn h hi (prepared h hi hfresh hprepare)
      have hus := husable (by simpa using hvalid)
      rw [hn']
      refine .turned (Or.inl ⟨s, hi, rfl⟩) (turn_of_label rfl hturn) rfl (fun x hx => ?_)
        ⟨le_rfl, h.lt_made hi⟩ (Or.inr (Or.inr ⟨hout, rfl, rfl, hus⟩)) (fun hnone => by cases hnone)
        (keeps_of hi rfl ⟨fun _ => id, fun _ => id⟩) (answers_none rfl)
      obtain rfl := Option.some.inj hx
      exact ⟨rfl, fun _ => hus⟩

theorem does_finishConnect (h : Base n) {done : Bool} {sockname peername : Option SockAddr}
    (hi : n.sockets i = some s) (hin : i ∈ n.connecting)
    (hrun : n.finishConnect host i s enabled done sockname peername = .ok t) :
    Does n (.connected i enabled done sockname peername) t := by
  have hus : n.world.usable s.fd = true := by
    obtain ⟨s', hs', hus⟩ := h.connecting.2 i hin
    obtain rfl := Option.some.inj (hi.symm.trans hs')
    exact hus
  unfold State.finishConnect at hrun
  dsimp only at hrun
  split at hrun
  · obtain ⟨⟨s', n'⟩, hclose, hlast⟩ := bind_eq_ok.mp hrun
    cases hlast
    have hbase : Base { n with connecting := n.connecting.erase i } :=
      ⟨h.inv, h.nodup, h.opened, h.held, h.single, h.connected, ⟨h.connecting.1.erase i,
        fun j hj => h.connecting.2 j (List.mem_of_mem_erase hj)⟩, h.unmade⟩
    obtain ⟨hturn, hfd, hconn, hkeeps, hn'⟩ := close_turn hbase hclose
    have hturn' : Turn enabled n s.fd n'.world n'.taken (-1) := hturn.congr rfl rfl
    rw [hn']
    refine .turned (Or.inl ⟨s, hi, rfl⟩) (turn_of_label rfl hturn') rfl (fun x hx => ?_)
      ⟨le_rfl, h.lt_made hi⟩ (Or.inr (Or.inl rfl)) (fun hnone => by cases hnone)
      (keeps_of hi rfl hkeeps) (answers_one rfl fun hb => by cases hb)
    obtain rfl := Option.some.inj hx
    exact ⟨hfd, fun hx => by rw [hconn] at hx; cases hx⟩
  · cases hrun
    refine .turned (Or.inl ⟨s, hi, rfl⟩) (turn_of_label rfl .keep) rfl (fun x hx => ?_)
      ⟨le_rfl, h.lt_made hi⟩ (Or.inr (Or.inl rfl)) (fun hnone => by cases hnone)
      (keeps_of hi rfl (keeps_connected s sockname peername)) (answers_one rfl fun _ => ⟨s.fd, hus⟩)
    obtain rfl := Option.some.inj hx
    exact ⟨connected_fd s sockname peername, fun _ => hus⟩

theorem does_accept (h : Base n)
    (hrun : n.accept host i s enabled = .ok t) : Does n (.accept i enabled) t := by
  unfold State.accept at hrun
  dsimp only at hrun
  split at hrun
  · obtain ⟨⟨fdctx, w⟩, hget, hlast⟩ := bind_eq_ok.mp hrun
    cases hlast
    have hsame : w = n.world := by
      by_cases hfd : 0 ≤ s.fd
      · rw [Hook.World.lookup h.inv hfd] at hget
        exact congrArg Prod.snd (Except.ok.inj hget).symm
      · rw [Hook.World.lookup_neg h.inv hfd] at hget
        cases hget
    exact .same hsame rfl rfl rfl rfl (answers_none rfl)
  · cases hrun
    exact .same rfl rfl rfl rfl rfl (answers_none rfl)

theorem does_finishAccept (h : Base n) {file : Option (Int32 × File)} {sockname peername : Option SockAddr}
    (hfresh : n.Fresh file)
    (hrun : n.finishAccept host i s enabled file sockname peername = .ok t) :
    Does n (.accepted i enabled file sockname peername) t := by
  obtain ⟨⟨r, w⟩, haccept, hlast⟩ := bind_eq_ok.mp hrun
  dsimp only at hlast
  cases hfile : file with
  | none =>
      rw [hfile] at haccept
      cases haccept
      rw [hfile, if_pos (by decide)] at hlast
      cases hlast
      exact .same rfl (List.append_nil _) rfl rfl rfl (answers_one rfl fun hb => by cases hb)
  | some p =>
      obtain ⟨fd, made⟩ := p
      obtain ⟨hfd, hclosed, hsock⟩ := hfresh fd made hfile
      rw [hfile, Hook.World.accept_eq_socket hfd] at haccept
      obtain ⟨rfl, htakes⟩ := Hook.World.socket_takes h.inv hfd haccept
      rw [hfile, if_neg (Int32.not_lt.mpr hfd)] at hlast
      obtain ⟨client, hinit, hdone⟩ := bind_eq_ok.mp hlast
      unfold State.initSocketByFd at hinit
      dsimp only at hinit
      rw [Hook.World.lookup htakes.changes.inv hfd] at hinit
      simp only [bind, Except.bind, Hook.World.hooked_entry] at hinit
      have hold : Old n n.made (-1) := Or.inr ⟨rfl, rfl⟩
      have hturn : Turn enabled n (-1) w (n.taken ++ [r]) r := .take h.not_usable hfd hclosed hsock htakes
      have hout : n.made ∉ n.connecting := by
        intro hin
        obtain ⟨s', hs', -⟩ := h.connecting.2 _ hin
        rw [h.unmade _ le_rfl] at hs'
        cases hs'
      split at hinit
      · next hus =>
        cases hinit
        cases hdone
        refine .turned hold (turn_of_label rfl hturn) rfl (fun x hx => ?_)
          ⟨Nat.le_succ _, Nat.lt_succ_self _⟩ (Or.inl ⟨hout, rfl⟩) (fun hnone => by cases hnone)
          h.keeps_unmade (answers_one rfl fun _ => ⟨r, hus⟩)
        obtain rfl := Option.some.inj hx
        exact ⟨connected_fd _ sockname peername, fun _ => hus⟩
      · next hus =>
        cases hinit
        cases hdone
        have hsockets : n.sockets = Function.update n.sockets n.made none :=
          (Function.update_eq_self_iff.mpr (h.unmade _ le_rfl).symm).symm
        refine .turned hold (turn_of_label rfl hturn) hsockets (fun x hx => by cases hx)
          ⟨Nat.le_succ _, Nat.lt_succ_self _⟩ (Or.inl ⟨hout, rfl⟩)
          (fun _ => Or.inr (eq_false_of_ne_true hus)) h.keeps_unmade
          (answers_one rfl fun hb => by cases hb)

theorem does_listen (h : Base n) {listens : Bool} (hi : n.sockets i = some s)
    (hrun : n.listen host i s listens = .ok t) : Does n (.listen i listens) t := by
  unfold State.listen at hrun
  rw [h.isVaild hi] at hrun
  simp only [bind, Except.bind] at hrun
  split at hrun
  · cases hrun
    exact .same rfl rfl rfl rfl rfl (answers_one rfl fun hb => by cases hb)
  · next hus =>
    cases hrun
    have husable : n.world.usable s.fd = true := by simpa using hus
    exact .same rfl rfl rfl rfl rfl (answers_one rfl fun _ => ⟨s.fd, husable⟩)

theorem does_of_step (h : Base n) {l : Label} (hpossible : n.Possible l) (hstep : n.step host l = some t) :
    Does n l t := by
  cases l with
  | create family type protocol =>
      cases hstep
      refine .turned (Or.inr ⟨rfl, rfl⟩) (fun _ _ => .keep) rfl (fun x hx => ?_)
        ⟨Nat.le_succ _, Nat.lt_succ_self _⟩ (Or.inl ⟨fun hin => ?_, rfl⟩) (fun hnone => by cases hnone)
        h.keeps_unmade (answers_none rfl)
      · obtain rfl := Option.some.inj hx
        exact ⟨rfl, fun hx => by cases hx⟩
      · obtain ⟨s', hs', -⟩ := h.connecting.2 _ hin
        rw [h.unmade _ le_rfl] at hs'
        cases hs'
  | bind i address enabled file bound sockname =>
      obtain ⟨s, hi, hrun⟩ := on_eq_some hstep
      exact does_bind h hi hpossible.1 hpossible.2 hrun
  | connect i address enabled file =>
      obtain ⟨s, hi, hrun⟩ := on_eq_some hstep
      exact does_connect h hi hpossible.1 hpossible.2 hrun
  | connected i enabled done sockname peername =>
      rw [State.step] at hstep
      split at hstep
      · next hin =>
        obtain ⟨s, hi, hrun⟩ := on_eq_some hstep
        exact does_finishConnect h hi hin hrun
      · cases hstep
  | listen i listens =>
      obtain ⟨s, hi, hrun⟩ := on_eq_some hstep
      exact does_listen h hi hrun
  | accept i enabled =>
      obtain ⟨s, -, hrun⟩ := on_eq_some hstep
      exact does_accept h hrun
  | accepted i enabled file sockname peername =>
      rw [State.step] at hstep
      split at hstep
      · obtain ⟨s, hi, hrun⟩ := on_eq_some hstep
        exact does_finishAccept h hpossible hrun
      · cases hstep
  | close i enabled =>
      obtain ⟨s, hi, hrun⟩ := on_eq_some hstep
      obtain ⟨⟨s', n'⟩, hclose, rfl⟩ := map_eq_ok.mp hrun
      obtain ⟨hturn, hfd, hconn, hkeeps, hn'⟩ := close_turn h hclose
      dsimp only
      rw [hn']
      refine .turned (Or.inl ⟨s, hi, rfl⟩) (turn_of_label rfl hturn) rfl (fun x hx => ?_)
        ⟨le_rfl, h.lt_made hi⟩ (Or.inl ⟨hpossible, rfl⟩) (fun hnone => by cases hnone)
        (keeps_of hi rfl hkeeps) (answers_none rfl)
      obtain rfl := Option.some.inj hx
      exact ⟨hfd, fun hx => by rw [hconn] at hx; cases hx⟩
  | destroy i enabled =>
      obtain ⟨s, hi, hrun⟩ := on_eq_some hstep
      obtain ⟨⟨s', n'⟩, hclose, rfl⟩ := map_eq_ok.mp hrun
      obtain ⟨hturn, -, -, -, hn'⟩ := close_turn h hclose
      dsimp only
      rw [hn']
      exact .turned (Or.inl ⟨s, hi, rfl⟩) (turn_of_label rfl hturn) rfl (fun x hx => by cases hx)
        ⟨le_rfl, h.lt_made hi⟩ (Or.inl ⟨hpossible.1, rfl⟩) (fun _ => Or.inl rfl)
        (fun x x' _ hx' => by cases hx') (answers_none rfl)
  | openFile fd file isSocket =>
      obtain ⟨hfd, hclosed⟩ := hpossible
      have hnew : fd ∉ n.taken := by
        intro hin
        have hsome := (h.opened fd hin).2
        rw [hclosed] at hsome
        cases hsome
      have hrun := toOption_eq_some.mp hstep
      unfold State.openFile at hrun
      split at hrun
      · next hsocket =>
        obtain ⟨⟨r, w⟩, hopen, hlast⟩ := bind_eq_ok.mp hrun
        cases hlast
        obtain ⟨-, htakes⟩ := Hook.World.socket_takes h.inv hfd hopen
        refine .other hnew htakes.changes (fun _ hnone => ?_) (fun hne => ?_) rfl rfl rfl rfl rfl
        · have hsome := htakes.opened
          rw [hnone] at hsome
          cases hsome
        · exact absurd (congrArg (fun b => if b = true then some true else none) hsocket) hne
      · cases hrun
        refine .other hnew (Changes.opened h.inv fd file) (fun _ hnone => ?_) (fun _ => rfl)
          rfl rfl rfl rfl rfl
        cases hnone.symm.trans (Function.update_self _ _ _)
  | closeFile fd enabled =>
      obtain ⟨w, hclose, hlast⟩ := bind_eq_ok.mp (toOption_eq_some.mp hstep)
      cases hlast
      have hcloses := Hook.World.close_closes h.inv hclose
      refine .other hpossible hcloses.changes (fun hne _ => hcloses.hooked ?_)
        (fun hne => hcloses.unhooked ?_) rfl rfl rfl rfl rfl
      · cases enabled with
        | true => rfl
        | false => exact absurd rfl hne
      · cases enabled with
        | true => exact absurd rfl hne
        | false => rfl

section Runs

theorem exists_enabled (l : Label) : ∃ enabled, l.enabled ≠ some (!enabled) := by
  cases h : l.enabled with
  | none => exact ⟨true, fun heq => by cases heq⟩
  | some b =>
      refine ⟨b, fun heq => ?_⟩
      cases b <;> cases heq

theorem Base.init (h : New n) : Base n where
  inv := h.manager ▸ FdManager.Manager.inv_init
  nodup := h.taken ▸ List.nodup_nil
  opened := fun fd hin => by rw [h.taken] at hin; cases hin
  held := fun i s hi => by rw [h.sockets] at hi; cases hi
  single := fun i j s t hi => by rw [h.sockets] at hi; cases hi
  connected := fun i s hi => by rw [h.sockets] at hi; cases hi
  connecting := by
    rw [h.connecting]
    exact ⟨List.nodup_nil, fun i hin => by cases hin⟩
  unmade := fun i _ => h.sockets i

theorem Base.connects (h : Base n) {o : Option Socket}
    (hconnecting : Connecting n t i o fd) : t.connecting.Nodup ∧
      ∀ j ∈ t.connecting, (j ≠ i ∧ j ∈ n.connecting) ∨
        (j = i ∧ ∃ s, o = some s ∧ t.world.usable fd = true) := by
  rcases hconnecting with ⟨hout, heq⟩ | heq | ⟨hout, heq, hsome, hus⟩
  · rw [heq]
    refine ⟨h.connecting.1, fun j hj => Or.inl ⟨?_, hj⟩⟩
    rintro rfl
    exact hout hj
  · rw [heq]
    refine ⟨h.connecting.1.erase i, fun j hj => Or.inl ?_⟩
    exact h.connecting.1.mem_erase_iff.mp hj
  · rw [heq]
    refine ⟨List.nodup_append.mpr ⟨h.connecting.1, List.nodup_singleton i, fun j hj k hk => ?_⟩,
      fun j hj => ?_⟩
    · obtain rfl := List.mem_singleton.mp hk
      rintro rfl
      exact hout hj
    · obtain ⟨s, hs⟩ := Option.isSome_iff_exists.mp hsome
      rcases List.mem_append.mp hj with hin | hin
      · refine Or.inl ⟨?_, hin⟩
        rintro rfl
        exact hout hin
      · exact Or.inr ⟨List.mem_singleton.mp hin, s, hs, hus⟩

theorem Base.other (h : Base n) (hfd : fd ∉ n.taken) (hchanges : Changes fd n.world t.world)
    (htaken : t.taken = n.taken) (hsockets : t.sockets = n.sockets) (hmade : t.made = n.made)
    (hconnecting : t.connecting = n.connecting) : Base t := by
  have hne : ∀ fd' ∈ n.taken, fd' ≠ fd := by
    rintro fd' hin rfl
    exact hfd hin
  have husable : ∀ i s, n.sockets i = some s → n.world.usable s.fd = true →
      t.world.usable s.fd = true := by
    intro i s hi hus
    have hsome : s.fd ≠ -1 := by
      intro heq
      rw [heq, h.not_usable] at hus
      cases hus
    rw [hchanges.usable _ (hne _ (h.held i s hi hsome))]
    exact hus
  constructor
  · exact hchanges.inv
  · rw [htaken]
    exact h.nodup
  · rw [htaken]
    intro fd' hin
    rw [hchanges.kernel fd' (hne fd' hin)]
    exact h.opened fd' hin
  · rw [htaken, hsockets]
    exact h.held
  · rw [hsockets]
    exact h.single
  · rw [hsockets]
    exact fun i s hi hconn => husable i s hi (h.connected i s hi hconn)
  · rw [hconnecting, hsockets]
    refine ⟨h.connecting.1, fun i hin => ?_⟩
    obtain ⟨s, hi, hus⟩ := h.connecting.2 i hin
    exact ⟨s, hi, husable i s hi hus⟩
  · rw [hmade, hsockets]
    exact h.unmade

theorem Base.step (h : Base n) {l : Label} (hdoes : Does n l t) : Base t := by
  cases hdoes with
  | turned hold hturn hsockets ho hmade hconnecting hnone hkeeps hanswers =>
      obtain ⟨enabled, henabled⟩ := exists_enabled l
      exact h.turn hold (hturn enabled henabled) hsockets ho hmade (h.connects hconnecting)
  | same hworld htaken hsockets hmade hconnecting hanswers =>
      obtain ⟨world, sockets, made, connecting, accepting, taken, answers⟩ := t
      obtain rfl : world = n.world := hworld
      obtain rfl : taken = n.taken := htaken
      obtain rfl : sockets = n.sockets := hsockets
      obtain rfl : made = n.made := hmade
      obtain rfl : connecting = n.connecting := hconnecting
      exact ⟨h.inv, h.nodup, h.opened, h.held, h.single, h.connected, h.connecting, h.unmade⟩
  | other hfd hchanges hhooked hunhooked htaken hsockets hmade hconnecting hanswers =>
      exact h.other hfd hchanges htaken hsockets hmade hconnecting

/-- What the hooks add, when they are always on. -/
structure Tidy (n : State) : Prop where
  holder : ∀ fd ∈ n.taken, ∃ i s, n.sockets i = some s ∧ s.fd = fd
  usable : ∀ fd ∈ n.taken, n.world.usable fd = true
  closed : ∀ fd, n.world.kernel fd = none → n.world.manager.entry fd = none

theorem Tidy.init (h : New n) : Tidy n where
  holder := fun fd hin => by rw [h.taken] at hin; cases hin
  usable := fun fd hin => by rw [h.taken] at hin; cases hin
  closed := by
    intro fd _
    rw [h.manager]
    cases hentry : FdManager.Manager.init.entry fd with
    | none => rfl
    | some ref => cases FdManager.Manager.inv_init.entry_lt hentry

theorem Tidy.turn (h : Tidy n) (hbase : Base n) {o : Option Socket} (hold : Old n i old)
    (hturn : Turn true n old t.world t.taken fd) (hsockets : t.sockets = Function.update n.sockets i o)
    (ho : ∀ s, o = some s → s.fd = fd) (hnone : o = none → fd = -1 ∨ t.world.usable fd = false) :
    Tidy t := by
  obtain ⟨world, sockets, made, connecting, accepting, taken, answers⟩ := t
  dsimp only at hturn hsockets hnone
  have hturns := hturn.turns hbase (hbase.old_mem hold)
  have hin : ∀ fd' ∈ n.taken, fd' ≠ old → ∃ j s, sockets j = some s ∧ s.fd = fd' := by
    intro fd' hin hne
    obtain ⟨j, s, hj, hs⟩ := h.holder fd' hin
    refine ⟨j, s, ?_, hs⟩
    rw [hsockets, Function.update_of_ne]
    · exact hj
    · rintro rfl
      rcases hold with ⟨s', hi, heq⟩ | ⟨rfl, -⟩
      · obtain rfl := Option.some.inj (hj.symm.trans hi)
        exact hne (hs.symm.trans heq)
      · rw [hbase.unmade _ le_rfl] at hj
        cases hj
  have hown : fd ≠ -1 → world.usable fd = true → ∃ j s, sockets j = some s ∧ s.fd = fd := by
    intro hne hus
    cases hsome : o with
    | none =>
        rcases hnone hsome with heq | hnot
        · exact absurd heq hne
        · rw [hnot] at hus
          cases hus
    | some s => exact ⟨i, s, by rw [hsockets, Function.update_self, hsome], ho s hsome⟩
  have hkept : ∀ fd', fd' ∈ n.taken → fd' ≠ old → world.usable fd' = true := by
    intro fd' hin hne
    rw [(hturns.kept fd' hin hne).2]
    exact h.usable fd' hin
  cases hturn with
  | keep =>
      refine ⟨fun fd' hin' => ?_, h.usable, h.closed⟩
      by_cases hne : fd' = old
      · rw [hne] at hin' ⊢
        exact hown (ne_of_nonneg (hbase.opened old hin').1) (h.usable old hin')
      · exact hin fd' hin' hne
  | forget hnot =>
      refine ⟨fun fd' hin' => hin fd' hin' ?_, h.usable, h.closed⟩
      rintro rfl
      rw [h.usable fd' hin'] at hnot
      cases hnot
  | take hnot hfd hclosed hsock htakes =>
      have hus := htakes.usable rfl hsock (h.closed fd hclosed)
      have hne : ∀ fd' ∈ n.taken, fd' ≠ old := by
        rintro fd' hin' rfl
        rw [h.usable fd' hin'] at hnot
        cases hnot
      refine ⟨fun fd' hin' => ?_, fun fd' hin' => ?_, fun fd' hnone' => ?_⟩
      · rcases List.mem_append.mp hin' with hold' | hnew
        · exact hin fd' hold' (hne fd' hold')
        · obtain rfl := List.mem_singleton.mp hnew
          exact hown (ne_of_nonneg hfd) hus
      · rcases List.mem_append.mp hin' with hold' | hnew
        · exact hkept fd' hold' (hne fd' hold')
        · obtain rfl := List.mem_singleton.mp hnew
          exact hus
      · have hne' : fd' ≠ fd := by
          rintro rfl
          have hsome := htakes.opened
          rw [hnone'] at hsome
          cases hsome
        rw [htakes.changes.entry fd' hne']
        exact h.closed fd' ((htakes.changes.kernel fd' hne').symm.trans hnone')
  | release hne hcloses =>
      have hother : ∀ fd' ∈ n.taken.erase old, fd' ≠ old ∧ fd' ∈ n.taken := by
        intro fd' hin'
        exact hbase.nodup.mem_erase_iff.mp hin'
      refine ⟨fun fd' hin' => hin fd' (hother fd' hin').2 (hother fd' hin').1,
        fun fd' hin' => hkept fd' (hother fd' hin').2 (hother fd' hin').1, fun fd' hnone' => ?_⟩
      by_cases heq : fd' = old
      · rw [heq]
        exact hcloses.hooked rfl
      · rw [hcloses.changes.entry fd' heq]
        exact h.closed fd' ((hcloses.changes.kernel fd' heq).symm.trans hnone')

theorem Tidy.step (h : Tidy n) (hbase : Base n) {l : Label} (henabled : l.enabled ≠ some false)
    (hdoes : Does n l t) : Tidy t := by
  cases hdoes with
  | turned hold hturn hsockets ho hmade hconnecting hnone hkeeps hanswers =>
      exact h.turn hbase hold (hturn true henabled) hsockets (fun s hs => (ho s hs).1) hnone
  | same hworld htaken hsockets hmade hconnecting hanswers =>
      refine ⟨?_, ?_, ?_⟩
      · rw [htaken, hsockets]
        exact h.holder
      · rw [htaken, hworld]
        exact h.usable
      · rw [hworld]
        exact h.closed
  | @other fd hfd hchanges hhooked hunhooked htaken hsockets hmade hconnecting hanswers =>
      refine ⟨?_, fun fd' hin => ?_, fun fd' hnone => ?_⟩
      · rw [htaken, hsockets]
        exact h.holder
      · rw [htaken] at hin
        rw [hchanges.usable fd' fun heq => hfd (heq ▸ hin)]
        exact h.usable fd' hin
      · by_cases heq : fd' = fd
        · subst heq
          exact hhooked henabled hnone
        · rw [hchanges.entry fd' heq]
          exact h.closed fd' ((hchanges.kernel fd' heq).symm.trans hnone)

theorem tidy_of_reached (h : Reached host true n) : Base n ∧ Tidy n := by
  apply Transition.Reachable.invariant (fun _ hnew => ⟨Base.init hnew, Tidy.init hnew⟩) _ h
  rintro n l t ⟨hbase, htidy⟩ ⟨⟨hpossible, henabled⟩, hstep⟩
  have hdoes := does_of_step hbase hpossible hstep
  exact ⟨hbase.step hdoes, htidy.step hbase henabled hdoes⟩

/-- **With the hooks on, every descriptor has one owner**, and every object that has one is valid. -/
theorem owns_of_reached (h : Reached host true n) : n.Owns host := by
  obtain ⟨hbase, htidy⟩ := tidy_of_reached h
  refine ⟨hbase.nodup, fun fd hin => (hbase.opened fd hin).2, fun fd => ⟨fun hin => ?_, ?_⟩, hbase.single,
    fun i s hi => ?_, fun i s hi hconn => ?_⟩
  · exact ⟨ne_of_nonneg (hbase.opened fd hin).1, htidy.holder fd hin⟩
  · rintro ⟨hne, i, s, hi, rfl⟩
    exact hbase.held i s hi hne
  · rw [hbase.isVaild hi]
    by_cases hfd : s.fd = -1
    · simp [hfd, hbase.not_usable]
    · simp [hfd, htidy.usable s.fd (hbase.held i s hi hfd)]
  · intro heq
    have hus := hbase.connected i s hi hconn
    rw [heq, hbase.not_usable] at hus
    cases hus

/-- Without the hooks the table stays empty, and nothing is ever done. -/
structure Bare (n : State) : Prop where
  manager : n.world.manager = .init
  answers : ∀ p ∈ n.answers, p.2 = false

theorem Bare.not_usable (h : Bare n) (fd : Int32) : n.world.usable fd = false := by
  rw [Hook.World.usable, h.manager]
  cases hentry : FdManager.Manager.init.entry fd with
  | none => rfl
  | some ref => cases FdManager.Manager.inv_init.entry_lt hentry

theorem Bare.step (h : Bare n) {l : Label} (henabled : l.enabled ≠ some true) (hdoes : Does n l t) :
    Bare t := by
  have hanswers : t.world.manager = n.world.manager → Answers n t → Bare t := by
    rintro hsame ⟨more, hmore, htrue⟩
    have hmanager : t.world.manager = .init := hsame.trans h.manager
    refine ⟨hmanager, fun p hp => ?_⟩
    rw [hmore] at hp
    rcases List.mem_append.mp hp with hin | hin
    · exact h.answers p hin
    · by_contra hnot
      obtain ⟨fd, hus⟩ := htrue p hin (eq_true_of_ne_false hnot)
      have hnone : t.world.usable fd = false := by
        rw [Hook.World.usable_congr (congrArg (FdManager.Manager.entry · fd) hsame)
          fun _ _ => by rw [hsame]]
        exact h.not_usable fd
      rw [hnone] at hus
      cases hus
  have hturned : ∀ {w : World} {taken : List Int32} {old fd : Int32}, Turn false n old w taken fd →
      w.manager = n.world.manager := by
    intro w taken old fd hturn
    cases hturn with
    | keep => rfl
    | forget => rfl
    | take hnot hfd hclosed hsock htakes => exact htakes.unhooked rfl
    | release hne hcloses => exact hcloses.unhooked rfl
  cases hdoes with
  | turned hold hturn hsockets ho hmade hconnecting hnone hkeeps hmore =>
      exact hanswers (hturned (hturn false henabled)) hmore
  | same hworld htaken hsockets hmade hconnecting hmore =>
      exact hanswers (congrArg World.manager hworld) hmore
  | other hfd hchanges hhooked hunhooked htaken hsockets hmade hconnecting hmore =>
      exact hanswers (hunhooked henabled) (answers_none hmore)

theorem bare_of_reached (h : Reached host false n) : Base n ∧ Bare n := by
  have hstart : ∀ n, New n → Base n ∧ Bare n := by
    intro n hnew
    refine ⟨Base.init hnew, hnew.manager, fun p hp => ?_⟩
    rw [hnew.answers] at hp
    cases hp
  apply Transition.Reachable.invariant hstart _ h
  rintro n l t ⟨hbase, hbare⟩ ⟨⟨hpossible, henabled⟩, hstep⟩
  have hdoes := does_of_step hbase hpossible hstep
  exact ⟨hbase.step hdoes, hbare.step henabled hdoes⟩

/-- **Without the hooks no method of any object does what it is for.** -/
theorem idle_of_reached (h : Reached host false n) : n.Idle host := by
  obtain ⟨hbase, hbare⟩ := bare_of_reached h
  refine ⟨fun i result hin => hbare.answers _ hin, fun i s hi => ?_, fun i s hi => ?_⟩
  · rw [hbase.isVaild hi, hbare.not_usable]
  · by_contra hconn
    have hus := hbase.connected i s hi (eq_true_of_ne_false hconn)
    rw [hbare.not_usable] at hus
    cases hus

theorem lost_step (hbase : Base n) (h : n.Lost fd) {l : Label} (hdoes : Does n l t) : t.Lost fd := by
  have hnonneg := (hbase.opened fd h.taken).1
  cases hdoes with
  | @turned i old fd' o hold hturn hsockets ho hmade hconnecting hnone hkeeps hanswers =>
      obtain ⟨enabled, henabled⟩ := exists_enabled l
      have hturns := (hturn enabled henabled).turns hbase (hbase.old_mem hold)
      have hne : fd ≠ old := by
        rintro rfl
        rcases hold with ⟨s, hi, heq⟩ | ⟨-, heq⟩
        · exact h.unknown i s hi heq
        · exact ne_of_nonneg hnonneg heq
      have hin := (hturns.kept fd h.taken hne).1
      refine ⟨hin, (hturns.opened fd hin).2, fun j s hj heq => ?_⟩
      rw [hsockets] at hj
      by_cases hji : j = i
      · subst hji
        rw [Function.update_self] at hj
        have hfd' : fd' = fd := (ho s hj).1.symm.trans heq
        rcases (hturns.own (hfd' ▸ ne_of_nonneg hnonneg)).2 with hsame | hnew
        · exact hne (hfd'.symm.trans hsame)
        · exact hnew (hfd' ▸ h.taken)
      · rw [Function.update_of_ne hji] at hj
        exact h.unknown j s hj heq
  | same hworld htaken hsockets hmade hconnecting hanswers =>
      refine ⟨htaken ▸ h.taken, ?_, ?_⟩
      · rw [hworld]
        exact h.opened
      · rw [hsockets]
        exact h.unknown
  | @other fd' hfd hchanges hhooked hunhooked htaken hsockets hmade hconnecting hanswers =>
      refine ⟨htaken ▸ h.taken, ?_, ?_⟩
      · rw [hchanges.kernel fd fun heq => hfd (heq ▸ h.taken)]
        exact h.opened
      · rw [hsockets]
        exact h.unknown

/-- What `bind` and `connect` do after they have seen to a descriptor leaves it alone. -/
theorem prepares_put {l : Label} (hl : l.Prepares i) (hi : n.sockets i = some s)
    (hstep : n.step host l = some t) : ∃ enabled file valid s' n' s'', l.enabled = some enabled ∧
      (n.Possible l → n.Fresh file) ∧ n.prepare host s enabled file = .ok (valid, s', n') ∧
      s''.fd = s'.fd ∧ t.world = n'.world ∧ t.taken = n'.taken ∧
      t.sockets = Function.update n'.sockets i (some s'') := by
  cases l with
  | bind j address enabled file bound sockname =>
      obtain rfl : j = i := hl
      obtain ⟨s₀, hi', hrun⟩ := on_eq_some hstep
      obtain rfl := Option.some.inj (hi.symm.trans hi')
      obtain ⟨⟨valid, s', n'⟩, hprepare, hlast⟩ := bind_eq_ok.mp hrun
      dsimp only at hlast
      have hdone : ∃ s'' b, s''.fd = s'.fd ∧ t = (n'.put j s'').answer j b := by
        split at hlast
        · exact ⟨s', false, rfl, (Except.ok.inj hlast).symm⟩
        · split at hlast
          · exact ⟨s', false, rfl, (Except.ok.inj hlast).symm⟩
          · split at hlast
            · exact ⟨s', false, rfl, (Except.ok.inj hlast).symm⟩
            · exact ⟨_, true, (getLocalAddress_fd s' sockname).1, (Except.ok.inj hlast).symm⟩
      obtain ⟨s'', b, hfd, rfl⟩ := hdone
      exact ⟨enabled, file, valid, s', n', s'', rfl, fun h => h.2, hprepare, hfd, rfl, rfl, rfl⟩
  | connect j address enabled file =>
      obtain rfl : j = i := hl
      obtain ⟨s₀, hi', hrun⟩ := on_eq_some hstep
      obtain rfl := Option.some.inj (hi.symm.trans hi')
      obtain ⟨⟨valid, s', n'⟩, hprepare, hlast⟩ := bind_eq_ok.mp hrun
      dsimp only at hlast
      refine ⟨enabled, file, valid, s', n', s', rfl, fun h => h.2, hprepare, rfl, ?_⟩
      split at hlast
      · cases hlast
        exact ⟨rfl, rfl, rfl⟩
      · split at hlast
        · cases hlast
          exact ⟨rfl, rfl, rfl⟩
        · cases hlast
          exact ⟨rfl, rfl, rfl⟩
  | _ => exact False.elim hl

/-- **Without the hooks an object that is used again loses its descriptor**, which stays open for ever:
nobody closes it, whatever is done afterwards and with the hooks on or off. -/
theorem lost_of_unhooked {u : State} {l : Label} (hn : Reached host false n)
    (hi : n.sockets i = some s) (hfd : s.fd ≠ -1) (hl : l.Prepares i) (hpossible : n.Possible l)
    (hstep : n.step host l = some t)
    (hu : Transition.Reachable (Transition.Guarded State.Possible (State.Step host)) (· = t) u) :
    u.Lost s.fd := by
  obtain ⟨hbase, hbare⟩ := bare_of_reached hn
  have hin := hbase.held i s hi hfd
  have hopened := hbase.opened s.fd hin
  obtain ⟨enabled, file, valid, s', n', s'', -, hfresh, hprepare, hsame, hworld, htaken, hsockets⟩ :=
    prepares_put hl hi hstep
  have hothers : ∀ j x, j ≠ i → n.sockets j = some x → x.fd ≠ s.fd := fun j x hj hx heq =>
    hj (hbase.single j i x s hx hi heq (heq ▸ hfd))
  have hlost : t.Lost s.fd := by
    have hget : ∀ {sockets : Nat → Option Socket}, sockets = n.sockets → s'.fd ≠ s.fd →
        ∀ j x, Function.update sockets i (some s'') j = some x → x.fd ≠ s.fd := by
      rintro _ rfl hnew j x hj
      by_cases hji : j = i
      · subst hji
        rw [Function.update_self] at hj
        obtain rfl := Option.some.inj hj
        exact hsame ▸ hnew
      · rw [Function.update_of_ne hji] at hj
        exact hothers j x hji hj
    cases prepared hbase hi (hfresh hpossible) hprepare with
    | valid hus =>
        rw [hbare.not_usable] at hus
        cases hus
    | failed hnot hfile =>
        refine ⟨htaken ▸ hin, ?_, ?_⟩
        · rw [hworld]
          exact hopened.2
        · rw [hsockets]
          exact hget rfl (Ne.symm hfd)
    | @taken fd made w hnot hnonneg hclosed hsock htakes hfile =>
        have hne : s.fd ≠ fd := by
          intro heq
          have hsome := hopened.2
          rw [heq, hclosed] at hsome
          cases hsome
        refine ⟨?_, ?_, ?_⟩
        · rw [htaken]
          exact List.mem_append_left _ hin
        · rw [hworld]
          dsimp only
          rw [htakes.changes.kernel s.fd hne]
          exact hopened.2
        · rw [hsockets]
          exact hget rfl hne.symm
  have hbase' : Base t := hbase.step (does_of_step hbase hpossible hstep)
  have hboth : Base u ∧ u.Lost s.fd := by
    apply Transition.Reachable.invariant _ _ hu
    · rintro _ rfl
      exact ⟨hbase', hlost⟩
    · rintro n l t ⟨hbase, hlost⟩ ⟨hpossible, hstep⟩
      have hdoes := does_of_step hbase hpossible hstep
      exact ⟨hbase.step hdoes, lost_step hbase hlost hdoes⟩
  exact hboth.2

/-- **An object is told its addresses once.** What it has been told it keeps, through `close` and the
next `connect` to somebody else. -/
theorem addresses_kept {s' : Socket}
    (hn : Transition.Reachable (Transition.Guarded State.Possible (State.Step host)) New n)
    (hi : n.sockets i = some s)
    (ht : Transition.Reachable (Transition.Guarded State.Possible (State.Step host)) (· = n) t)
    (hi' : t.sockets i = some s') : s.Keeps s' := by
  have hbase : Base n := by
    apply Transition.Reachable.invariant (fun _ hnew => Base.init hnew) _ hn
    rintro n l t hbase ⟨hpossible, hstep⟩
    exact hbase.step (does_of_step hbase hpossible hstep)
  have hkept : Base t ∧ i < t.made ∧ ∀ x, t.sockets i = some x → s.Keeps x := by
    apply Transition.Reachable.invariant _ _ ht
    · rintro _ rfl
      refine ⟨hbase, hbase.lt_made hi, fun x hx => ?_⟩
      obtain rfl := Option.some.inj (hi.symm.trans hx)
      exact Keeps.refl s
    · rintro m l u ⟨hbase, hlt, hkeeps⟩ ⟨hpossible, hstep⟩
      have hdoes := does_of_step hbase hpossible hstep
      refine ⟨hbase.step hdoes, ?_⟩
      cases hdoes with
      | @turned j old fd o hold hturn hsockets ho hmade hconnecting hnone hkeeps' hanswers =>
          refine ⟨by omega, fun x hx => ?_⟩
          rw [hsockets] at hx
          by_cases hji : i = j
          · subst hji
            rw [Function.update_self] at hx
            rcases hold with ⟨y, hy, -⟩ | ⟨heq, -⟩
            · exact (hkeeps y hy).trans (hkeeps' y x hy hx)
            · omega
          · rw [Function.update_of_ne hji] at hx
            exact hkeeps x hx
      | same hworld htaken hsockets hmade hconnecting hanswers =>
          rw [hmade, hsockets]
          exact ⟨hlt, hkeeps⟩
      | other hfd hchanges hhooked hunhooked htaken hsockets hmade hconnecting hanswers =>
          rw [hmade, hsockets]
          exact ⟨hlt, hkeeps⟩
  exact hkept.2.2 s' hi'

end Runs

section Examples

def nothing : State :=
  { world := ⟨fun _ => none, .init⟩
    sockets := fun _ => none
    made := 0
    connecting := []
    accepting := []
    taken := []
    answers := [] }

/-- One object. -/
def one : State := { nothing.put 0 (new 2 1 0) with made := 1 }

/-- Its `bind`, for which the kernel gives out a descriptor. -/
def binds (enabled : Bool) (fd : Int32) : Label :=
  .bind 0 ⟨2, []⟩ enabled (some (fd, ⟨true, 0⟩)) true (some ⟨2, []⟩)

theorem reached_one (enabled : Bool) : Reached .linux enabled one := by
  have hpossible : nothing.Possible (.create 2 1 0) := trivial
  have hstep : State.Step .linux nothing (.create 2 1 0) one := rfl
  refine .next (.start ⟨rfl, fun _ => rfl, rfl, rfl, rfl, rfl, rfl⟩) ⟨⟨hpossible, ?_⟩, hstep⟩
  intro heq
  cases heq

theorem possible_binds (hout : n.connecting = []) (hclosed : n.world.kernel fd = none)
    (hfd : 0 ≤ fd) (enabled : Bool) : n.Possible (binds enabled fd) := by
  refine ⟨by simp [hout], fun fd' made heq => ?_⟩
  cases heq
  exact ⟨hfd, hclosed, rfl⟩

/-- The object after its first `bind`. -/
theorem reached_bound (enabled : Bool) {look : State → Bool}
    (h : (one.step .linux (binds enabled 5)).map look = some true) :
    ∃ n, Reached .linux enabled n ∧ look n = true := by
  obtain ⟨n, hstep, hlook⟩ := Option.map_eq_some_iff.mp h
  refine ⟨n, .next (reached_one enabled) ⟨⟨possible_binds rfl rfl (by decide) enabled, ?_⟩, hstep⟩, hlook⟩
  intro heq
  cases enabled <;> cases heq

theorem owns_of_reached_bound : ∃ n : State, (n.taken = [5] ∧ n.answers = [(0, true)]) ∧
    n.Owns .linux := by
  obtain ⟨n, hn, hlook⟩ := @reached_bound true
    (fun n => n.taken = [5] ∧ n.answers = [(0, true)]) (by decide +kernel)
  exact ⟨n, of_decide_eq_true hlook, owns_of_reached hn⟩

theorem idle_of_reached_bound : ∃ n : State, (n.taken = [5] ∧ n.answers = [(0, false)]) ∧
    n.Idle .linux := by
  obtain ⟨n, hn, hlook⟩ := @reached_bound false
    (fun n => n.taken = [5] ∧ n.answers = [(0, false)]) (by decide +kernel)
  exact ⟨n, of_decide_eq_true hlook, idle_of_reached hn⟩

/-- The object is bound twice and closed. -/
theorem lost_of_unhooked_closed : ∃ u : State, (u.sockets 0).map Socket.fd = some (-1) ∧ u.Lost 5 := by
  let again (n : State) : Bool :=
    n.connecting = [] ∧ (n.world.kernel 6).isNone ∧ (n.sockets 0).map Socket.fd = some 5 ∧
      (n.step .linux (binds false 6)).map (fun t => decide (t.connecting = [] ∧
        (t.step .linux (.close 0 true)).map (fun u => (u.sockets 0).map Socket.fd) = some (some (-1))))
      = some true
  obtain ⟨n, hn, hlook⟩ := @reached_bound false again (by decide +kernel)
  obtain ⟨hout, hclosed, hsocket, hsome⟩ := of_decide_eq_true hlook
  obtain ⟨s, hi, hfd⟩ := Option.map_eq_some_iff.mp hsocket
  obtain ⟨t, hstep, hthen⟩ := Option.map_eq_some_iff.mp hsome
  obtain ⟨hout', hcloses⟩ := of_decide_eq_true hthen
  obtain ⟨u, hclose, hgone⟩ := Option.map_eq_some_iff.mp hcloses
  have hprepares : (binds false 6).Prepares 0 := rfl
  have hpossible := possible_binds hout (Option.isNone_iff_eq_none.mp hclosed) (by decide) false
  have hpossible' : t.Possible (.close 0 true) := by
    rw [State.Possible, hout']
    exact List.not_mem_nil
  have hu : Transition.Reachable (Transition.Guarded State.Possible (State.Step .linux)) (· = t) u :=
    .next (.start rfl) ⟨hpossible', hclose⟩
  exact ⟨u, hgone, hfd ▸ lost_of_unhooked hn hi (by rw [hfd]; decide) hprepares hpossible hstep hu⟩

/-- The object is bound, and closed. -/
theorem addresses_kept_bound : ∃ s s' : Socket, (s.localAddress = some ⟨2, []⟩ ∧ s'.fd = -1) ∧
    s.Keeps s' := by
  let closes (n : State) : Bool :=
    n.connecting = [] ∧ (n.sockets 0).map Socket.localAddress = some (some ⟨2, []⟩) ∧
      (n.step .linux (.close 0 true)).map (fun t => (t.sockets 0).map Socket.fd) = some (some (-1))
  obtain ⟨n, hn, hlook⟩ := @reached_bound true closes (by decide +kernel)
  obtain ⟨hout, hsocket, hclose⟩ := of_decide_eq_true hlook
  obtain ⟨s, hi, haddress⟩ := Option.map_eq_some_iff.mp hsocket
  obtain ⟨t, hstep, hclosed⟩ := Option.map_eq_some_iff.mp hclose
  obtain ⟨s', hi', hfd⟩ := Option.map_eq_some_iff.mp hclosed
  have hpossible : n.Possible (.close 0 true) := by
    rw [State.Possible, hout]
    exact List.not_mem_nil
  have hreach : Transition.Reachable (Transition.Guarded State.Possible (State.Step .linux)) New n := by
    apply Transition.Reachable.invariant (fun _ hnew => .start hnew) _ hn
    exact fun _ _ _ h hstep => h.next ⟨hstep.1.1, hstep.2⟩
  have hlater : Transition.Reachable (Transition.Guarded State.Possible (State.Step .linux)) (· = n) t :=
    .next (.start rfl) ⟨hpossible, hstep⟩
  exact ⟨s, s', ⟨haddress, hfd⟩, addresses_kept hreach hi hlater hi'⟩

end Examples

end Socket

end AsyncRPC
