import AsyncRPC.Lib.Word

/-!
# Polling

`PollingRouteStrategyImpl::select` and the calls of one object one after the other, each with the size of
its list. The class has no constructor, so `index_` starts as any `int`.
-/

namespace AsyncRPC.Polling

open Word

/-- `if (index_ >= (int) list.size()) index_ = 0;` -/
def wrap (index : Int) (size : Nat) : Int := if index ≥ intOfSize size then 0 else index

/-- `select`: the element, if there is one at the index used, and `index_` behind it. -/
def select {T : Type} (index : Int) (list : List T) : Option T × Int :=
  let index := wrap index list.length
  (if 0 ≤ index then list[index.toNat]? else none, index + 1)

/-- `index_` after calls on lists of these sizes. -/
def after (index : Int) (sizes : List Nat) : Int :=
  sizes.foldl (fun index size => wrap index size + 1) index

/-- The indices that these calls use. -/
def used (index : Int) : List Nat → List Int
  | [] => []
  | size :: sizes => wrap index size :: used (wrap index size + 1) sizes

/-- One of the calls has set `index_` to 0. -/
def Wrapped (index : Int) (sizes : List Nat) : Prop :=
  ∃ before size rest, sizes = before ++ size :: rest ∧ after index before ≥ intOfSize size

def InRange (index : Int) (sizes : List Nat) : Prop :=
  ∀ before size rest, sizes = before ++ size :: rest →
    0 ≤ wrap (after index before) size ∧ wrap (after index before) size < size

/-- After the first wrap, any `n * k` calls in a row on lists of `n` elements use each position exactly
`k` times. -/
def Even (index : Int) (sizes : List Nat) : Prop :=
  ∀ before n k rest, sizes = before ++ (List.replicate (n * k) n ++ rest) → Wrapped index before →
    ∀ p < n, (used (after index before) (List.replicate (n * k) n)).count (p : Int) = k

/-- `index_` starts at 0 or above, or else the first list is so long that its size is no more as an
`int`. -/
def StartsInRange (index : Int) (sizes : List Nat) : Prop :=
  ∀ size rest, sizes = size :: rest → 0 ≤ index ∨ intOfSize size ≤ index

/-- After the first wrap, calls in a row that go round a list are on lists whose size an `int` can
hold. -/
def FitsInt (index : Int) (sizes : List Nat) : Prop :=
  ∀ before n k rest, sizes = before ++ (List.replicate (n * k) n ++ rest) → Wrapped index before →
    0 < k → n < 2 ^ 31

end AsyncRPC.Polling
