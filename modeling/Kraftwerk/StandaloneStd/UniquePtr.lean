import Kraftwerk.Lib.Holders
import Kraftwerk.Lib.Runs

set_option autoImplicit false

-- standalone_std::unique_ptr: the handles alive, the calls of their deleters, the pointers
-- released and the pointers given to a handle, each with the deleter that went with it.
namespace Kraftwerk.StandaloneStd

open Holders Runs

variable {Object Deleter : Type}

structure UniquePtr (Object Deleter : Type) where
  storedPointer : Option Object
  deleter : Deleter

structure UniquePtrs (Object Deleter : Type) where
  handles : Family Nat (UniquePtr Object Deleter)
  calls : List (Option Object × Deleter)
  released : List (Object × Deleter)
  given : List (Object × Deleter)

def paired (ptr : Option Object) (deleter : Deleter) : List (Object × Deleter) := ptr.toList.map (fun p => (p, deleter))

namespace UniquePtrs

def empty (old : Nat → UniquePtr Object Deleter) : UniquePtrs Object Deleter := ⟨⟨∅, old⟩, [], [], []⟩

variable (state : UniquePtrs Object Deleter) (handle rhs : Nat)

def put (value : UniquePtr Object Deleter) : UniquePtrs Object Deleter := { state with handles := state.handles.set handle value }

def give (ptr : Option Object) (deleter : Deleter) : UniquePtrs Object Deleter :=
  { state with given := paired ptr deleter ++ state.given }

-- this->deleter(this->stored_pointer)
def callDeleter : UniquePtrs Object Deleter :=
  let this := state.handles.value handle
  { state with calls := (this.storedPointer, this.deleter) :: state.calls }

def deleteStored : UniquePtrs Object Deleter :=
  if (state.handles.value handle).storedPointer.isSome then state.callDeleter handle else state

-- blank is deleter_type() of a handle's type, movedFrom what a move leaves of a deleter.
variable (blank : Nat → Deleter) (movedFrom : Deleter → Deleter)

def construct (ptr : Option Object) (del : Option Deleter) : UniquePtrs Object Deleter :=
  let deleter := del.getD (blank handle)
  { state.give ptr deleter with handles := state.handles.add handle ⟨ptr, deleter⟩ }

def moveConstruct : UniquePtrs Object Deleter :=
  let fromRhs := state.handles.value rhs
  ({ state with handles := state.handles.add handle fromRhs }).put rhs ⟨none, movedFrom fromRhs.deleter⟩

def moveAssign : UniquePtrs Object Deleter :=
  let fromRhs := state.handles.value rhs
  ((state.deleteStored handle).put handle fromRhs).put rhs ⟨none, movedFrom fromRhs.deleter⟩

-- The handles have different types here.
def typecastMoveAssign : UniquePtrs Object Deleter :=
  ((state.deleteStored handle).put handle (state.handles.value rhs)).put rhs ⟨none, blank rhs⟩

def nullptrAssign : UniquePtrs Object Deleter := (state.deleteStored handle).put handle ⟨none, blank handle⟩

def release : UniquePtrs Object Deleter :=
  let this := state.handles.value handle
  { state.put handle ⟨none, this.deleter⟩ with released := paired this.storedPointer this.deleter ++ state.released }

def reset (p : Option Object) : UniquePtrs Object Deleter :=
  let this := state.handles.value handle
  let state := if this.storedPointer.isNone then state.callDeleter handle else state
  (state.give p this.deleter).put handle ⟨p, this.deleter⟩

def swap : UniquePtrs Object Deleter := (state.put handle (state.handles.value rhs)).put rhs (state.handles.value handle)

def destroy : UniquePtrs Object Deleter :=
  let state := state.deleteStored handle
  { state with handles := state.handles.drop handle }

end UniquePtrs

inductive UniqueCall (Object Deleter : Type) where
  | construct (handle : Nat) (ptr : Option Object) (del : Option Deleter)
  | moveConstruct (handle rhs : Nat)
  | moveAssign (handle rhs : Nat)
  | typecastMoveAssign (handle rhs : Nat)
  | nullptrAssign (handle : Nat)
  | release (handle : Nat)
  | reset (handle : Nat) (p : Option Object)
  | swap (handle rhs : Nat)
  | destroy (handle : Nat)

section Runs

variable (blank : Nat → Deleter) (movedFrom : Deleter → Deleter)

def UniquePtrs.step (state : UniquePtrs Object Deleter) : UniqueCall Object Deleter → Option (UniquePtrs Object Deleter)
  | .construct handle ptr del => some (state.construct handle blank ptr del)
  | .moveConstruct handle rhs => some (state.moveConstruct handle rhs movedFrom)
  | .moveAssign handle rhs => some (state.moveAssign handle rhs movedFrom)
  | .typecastMoveAssign handle rhs => some (state.typecastMoveAssign handle rhs blank)
  | .nullptrAssign handle => some (state.nullptrAssign handle blank)
  | .release handle => some (state.release handle)
  | .reset handle p => some (state.reset handle p)
  | .swap handle rhs => some (state.swap handle rhs)
  | .destroy handle => some (state.destroy handle)

end Runs

namespace UniquePtrs

variable (state : UniquePtrs Object Deleter)

def Fresh (ptr : Option Object) : Prop := ∀ p ∈ ptr, p ∉ state.given.map Prod.fst

-- What C++ asks of a program: handles are used while they live, and a new pointer is fresh.
def Allowed : UniqueCall Object Deleter → Prop
  | .construct handle ptr _ => handle ∉ state.handles.live ∧ state.Fresh ptr
  | .moveConstruct handle rhs => handle ∉ state.handles.live ∧ rhs ∈ state.handles.live
  | .moveAssign handle rhs => handle ∈ state.handles.live ∧ rhs ∈ state.handles.live
  | .typecastMoveAssign handle rhs => handle ∈ state.handles.live ∧ rhs ∈ state.handles.live ∧ handle ≠ rhs
  | .nullptrAssign handle => handle ∈ state.handles.live
  | .release handle => handle ∈ state.handles.live
  | .reset handle p => handle ∈ state.handles.live ∧ state.Fresh p
  | .swap handle rhs => handle ∈ state.handles.live ∧ rhs ∈ state.handles.live
  | .destroy handle => handle ∈ state.handles.live

instance [DecidableEq Object] (ptr : Option Object) : Decidable (state.Fresh ptr) := inferInstanceAs (Decidable (∀ p ∈ ptr, _))

instance [DecidableEq Object] (call : UniqueCall Object Deleter) : Decidable (state.Allowed call) :=
  match call with
  | .construct _ _ _ | .moveConstruct _ _ | .moveAssign _ _ | .typecastMoveAssign _ _ | .reset _ _ | .swap _ _ =>
      inferInstanceAs (Decidable (_ ∧ _))
  | .nullptrAssign _ | .release _ | .destroy _ => inferInstanceAs (Decidable (_ ∈ _))

-- The pointers that were passed to a deleter, with that deleter.
def disposals : List (Object × Deleter) := state.calls.filterMap (fun call => call.1.map (fun p => (p, call.2)))

def Stores (handle : Nat) (p : Object) : Prop := handle ∈ state.handles.live ∧ (state.handles.value handle).storedPointer = some p

structure DeletesOnce : Prop where
  stored : ∀ p, p ∈ state.given.map Prod.fst → p ∉ state.disposals.map Prod.fst → p ∉ state.released.map Prod.fst →
    ∃! handle, state.Stores handle p
  disposed : state.handles.live = ∅ → ∀ p deleter, (p, deleter) ∈ state.given →
    (p, deleter) ∈ state.disposals ∧ p ∉ state.released.map Prod.fst ∨
      (p, deleter) ∈ state.released ∧ p ∉ state.disposals.map Prod.fst
  deletedOnce : (state.disposals.map Prod.fst).Nodup
  releasedOnce : (state.released.map Prod.fst).Nodup
  nonnull : ∀ deleter, (none, deleter) ∉ state.calls

-- Of the given pointers some are stored, some deleted and some released, whichever of them are counted.
def held (counted : Object × Deleter → Bool) (this : UniquePtr Object Deleter) : Nat :=
  (paired this.storedPointer this.deleter).countP counted

def account (counted : Object × Deleter → Bool) : Nat :=
  state.handles.total (held counted) + state.disposals.countP counted + state.released.countP counted

structure Accounted : Prop where
  conserved : ∀ counted, state.account counted = state.given.countP counted
  once : (state.given.map Prod.fst).Nodup
  nonnull : ∀ deleter, (none, deleter) ∉ state.calls

section Accounts

variable {state} (counted : Object × Deleter → Bool) (handle rhs : Nat)

theorem held_none (deleter : Deleter) : held counted (⟨none, deleter⟩ : UniquePtr Object Deleter) = 0 := rfl

theorem delete_stored_handles (state : UniquePtrs Object Deleter) : (state.deleteStored handle).handles = state.handles := by
  rw [deleteStored]
  split <;> rfl

theorem delete_stored_given (state : UniquePtrs Object Deleter) : (state.deleteStored handle).given = state.given := by
  rw [deleteStored]
  split <;> rfl

-- The handle still holds what it has passed to the deleter.
theorem account_delete_stored (state : UniquePtrs Object Deleter) :
    (state.deleteStored handle).account counted = state.account counted + held counted (state.handles.value handle) := by
  rw [deleteStored, held]
  cases stored : (state.handles.value handle).storedPointer with
  | none => rfl
  | some p =>
      rw [Option.isSome_some, if_pos rfl, account, account, callDeleter, disposals, List.filterMap_cons, stored]
      change _ + (((p, (state.handles.value handle).deleter) :: state.disposals).countP counted) + _ = _ + [_].countP counted
      rw [List.countP_cons, List.countP_singleton]
      dsimp only
      omega

-- Other handles over the same calls and released pointers.
theorem account_handles (state next : UniquePtrs Object Deleter) (family : Family Nat (UniquePtr Object Deleter))
    (handles : next.handles = family) (calls : next.calls = state.calls) (released : next.released = state.released) :
    next.account counted + state.handles.total (held counted) = state.account counted + family.total (held counted) := by
  rw [account, account, disposals, disposals, handles, calls, released]
  omega

theorem account_construct (blank : Nat → Deleter) (ptr : Option Object) (del : Option Deleter) (dead : handle ∉ state.handles.live) :
    (state.construct handle blank ptr del).account counted =
      state.account counted + (paired ptr (del.getD (blank handle))).countP counted := by
  have born := Family.total_add (held counted) state.handles handle ⟨ptr, del.getD (blank handle)⟩ dead
  have same := account_handles counted state (state.construct handle blank ptr del) _ rfl rfl rfl
  have counts : held counted ⟨ptr, del.getD (blank handle)⟩ = (paired ptr (del.getD (blank handle))).countP counted := rfl
  have added := same.trans (congrArg _ born)
  omega

theorem account_move_construct (movedFrom : Deleter → Deleter) (dead : handle ∉ state.handles.live)
    (rhsAlive : rhs ∈ state.handles.live) : (state.moveConstruct handle rhs movedFrom).account counted = state.account counted := by
  have moved := Family.total_move_add (held counted) state.handles handle rhs ⟨none, movedFrom (state.handles.value rhs).deleter⟩
    dead rhsAlive (held_none counted _)
  have same := account_handles counted state (state.moveConstruct handle rhs movedFrom) _ rfl rfl rfl
  exact Nat.add_right_cancel (same.trans (congrArg _ moved))

-- Both move assignments, which leave their own deleter in rhs.
theorem account_take (left : Deleter) (alive : handle ∈ state.handles.live) (rhsAlive : rhs ∈ state.handles.live) :
    (((state.deleteStored handle).put handle (state.handles.value rhs)).put rhs ⟨none, left⟩).account counted =
      state.account counted := by
  have deleted := account_delete_stored counted handle state
  have moved := Family.total_move (held counted) state.handles handle rhs ⟨none, left⟩ alive rhsAlive (held_none counted left)
  have same := account_handles counted (state.deleteStored handle)
    (((state.deleteStored handle).put handle (state.handles.value rhs)).put rhs ⟨none, left⟩)
    ((state.handles.set handle (state.handles.value rhs)).set rhs ⟨none, left⟩) (by rw [put, put, delete_stored_handles]) rfl rfl
  rw [delete_stored_handles] at same
  omega

theorem account_nullptr_assign (blank : Nat → Deleter) (alive : handle ∈ state.handles.live) :
    (state.nullptrAssign handle blank).account counted = state.account counted := by
  have deleted := account_delete_stored counted handle state
  have emptied := Family.total_set (held counted) state.handles handle ⟨none, blank handle⟩ alive
  have same := account_handles counted (state.deleteStored handle) (state.nullptrAssign handle blank)
    (state.handles.set handle ⟨none, blank handle⟩) (by rw [nullptrAssign, put, delete_stored_handles]) rfl rfl
  rw [held_none] at emptied
  rw [delete_stored_handles] at same
  omega

theorem account_release (alive : handle ∈ state.handles.live) : (state.release handle).account counted = state.account counted := by
  obtain ⟨this, thisEq⟩ : ∃ this, this = state.handles.value handle := ⟨_, rfl⟩
  have emptied := state.handles.total_set (held counted) handle ⟨none, this.deleter⟩ alive
  have after : (state.release handle).account counted = (state.handles.set handle ⟨none, this.deleter⟩).total (held counted) +
      state.disposals.countP counted + (paired this.storedPointer this.deleter ++ state.released).countP counted := by
    rw [thisEq]
    rfl
  rw [held_none, ← thisEq, held] at emptied
  rw [after, account, List.countP_append]
  omega

theorem account_swap (alive : handle ∈ state.handles.live) (rhsAlive : rhs ∈ state.handles.live) :
    (state.swap handle rhs).account counted = state.account counted := by
  have exchanged := Family.total_exchange (held counted) state.handles handle rhs alive rhsAlive
  have same := account_handles counted state (state.swap handle rhs) _ rfl rfl rfl
  exact Nat.add_right_cancel (same.trans (congrArg _ exchanged))

theorem account_destroy (alive : handle ∈ state.handles.live) : (state.destroy handle).account counted = state.account counted := by
  have deleted := account_delete_stored counted handle state
  have gone := state.handles.total_drop (held counted) handle alive
  have same := account_handles counted (state.deleteStored handle) (state.destroy handle) (state.handles.drop handle)
    (by rw [destroy, delete_stored_handles]) rfl rfl
  rw [delete_stored_handles] at same
  omega

end Accounts

section Step

variable {state} (blank : Nat → Deleter) (movedFrom : Deleter → Deleter)

theorem accounted_keep (next : UniquePtrs Object Deleter) (accounted : state.Accounted) (given : next.given = state.given)
    (same : ∀ counted, next.account counted = state.account counted) (nonnull : ∀ deleter, (none, deleter) ∉ next.calls) :
    next.Accounted :=
  ⟨fun counted => by rw [same, given]; exact accounted.conserved counted, by rw [given]; exact accounted.once, nonnull⟩

theorem delete_stored_nonnull (state : UniquePtrs Object Deleter) (handle : Nat) (nonnull : ∀ deleter, (none, deleter) ∉ state.calls)
    (deleter : Deleter) : (none, deleter) ∉ (state.deleteStored handle).calls := by
  rw [deleteStored]
  split
  · rename_i stored
    rw [callDeleter, List.mem_cons]
    rintro (called | before)
    · rw [← (Prod.mk.inj called).1] at stored
      cases stored
    · exact nonnull deleter before
  · exact nonnull deleter

theorem paired_fresh (ptr : Option Object) (deleter : Deleter) (fresh : state.Fresh ptr) (once : (state.given.map Prod.fst).Nodup) :
    ((paired ptr deleter ++ state.given).map Prod.fst).Nodup := by
  cases ptr with
  | none => exact once
  | some p => exact List.nodup_cons.mpr ⟨fresh p rfl, once⟩

def IsReset : UniqueCall Object Deleter → Prop
  | .reset _ _ => True
  | _ => False

theorem accounted_step (call : UniqueCall Object Deleter) (accounted : state.Accounted) (allowed : state.Allowed call)
    (other : ¬ IsReset call) : ∃ next, state.step blank movedFrom call = some next ∧ next.Accounted := by
  have deleted := fun handle => delete_stored_nonnull state handle accounted.nonnull
  have given := fun handle => delete_stored_given handle state
  cases call with
  | construct handle ptr del =>
      obtain ⟨dead, fresh⟩ := allowed
      refine ⟨_, rfl, fun counted => ?_, paired_fresh ptr _ fresh accounted.once, accounted.nonnull⟩
      have born := account_construct counted handle blank ptr del dead
      rw [accounted.conserved counted] at born
      exact born.trans (by rw [Nat.add_comm, ← List.countP_append]; rfl)
  | moveConstruct handle rhs =>
      refine ⟨_, rfl, ?_⟩
      exact accounted_keep _ accounted rfl (fun counted => account_move_construct counted handle rhs movedFrom allowed.1 allowed.2)
        accounted.nonnull
  | moveAssign handle rhs =>
      refine ⟨_, rfl, ?_⟩
      exact accounted_keep _ accounted (given handle) (fun counted => account_take counted handle rhs _ allowed.1 allowed.2)
        (deleted handle)
  | typecastMoveAssign handle rhs =>
      refine ⟨_, rfl, ?_⟩
      exact accounted_keep _ accounted (given handle)
        (fun counted => account_take counted handle rhs _ allowed.1 allowed.2.1) (deleted handle)
  | nullptrAssign handle =>
      refine ⟨_, rfl, ?_⟩
      exact accounted_keep _ accounted (given handle) (fun counted => account_nullptr_assign counted handle blank allowed)
        (deleted handle)
  | release handle =>
      refine ⟨_, rfl, ?_⟩
      exact accounted_keep _ accounted rfl (fun counted => account_release counted handle allowed) accounted.nonnull
  | reset handle p => exact absurd trivial other
  | swap handle rhs =>
      refine ⟨_, rfl, ?_⟩
      exact accounted_keep _ accounted rfl (fun counted => account_swap counted handle rhs allowed.1 allowed.2) accounted.nonnull
  | destroy handle =>
      refine ⟨_, rfl, ?_⟩
      exact accounted_keep _ accounted (given handle) (fun counted => account_destroy counted handle allowed) (deleted handle)

end Step

section Pointers

variable {state} [DecidableEq Object]

def isPointer (p : Object) (pair : Object × Deleter) : Bool := pair.1 == p

theorem count_pointer (pairs : List (Object × Deleter)) (p : Object) : pairs.countP (isPointer p) = (pairs.map Prod.fst).count p := by
  rw [List.count, List.countP_map]
  rfl

theorem held_pointer (this : UniquePtr Object Deleter) (p : Object) : 0 < held (isPointer p) this ↔ this.storedPointer = some p := by
  rw [held, paired]
  cases this.storedPointer with
  | none => simp
  | some q =>
      rw [Option.toList_some, List.map_singleton, List.countP_singleton, isPointer, Option.some.injEq]
      by_cases same : q = p
      · simp [same]
      · simp [same]

theorem account_le_one (accounted : state.Accounted) (p : Object) : state.account (isPointer p) ≤ 1 := by
  rw [accounted.conserved, count_pointer]
  exact List.nodup_iff_count_le_one.mp accounted.once p

-- A pointer is stored in at most one handle, and then it is neither deleted nor released.
theorem stores_unique (accounted : state.Accounted) (p : Object) (first second : Nat) (firstStores : state.Stores first p)
    (secondStores : state.Stores second p) : first = second := by
  have once := account_le_one accounted p
  rw [account] at once
  exact Family.holder_unique (held (isPointer p)) state.handles first second (by omega) firstStores.1 secondStores.1
    ((held_pointer _ p).mpr firstStores.2) ((held_pointer _ p).mpr secondStores.2)

theorem stored_given (accounted : state.Accounted) (p : Object) (handle : Nat) (stores : state.Stores handle p) :
    p ∈ state.given.map Prod.fst ∧ p ∉ state.disposals.map Prod.fst ∧ p ∉ state.released.map Prod.fst := by
  have once := account_le_one accounted p
  have here := Family.le_total (held (isPointer p)) state.handles handle stores.1
  have positive := (held_pointer _ p).mpr stores.2
  have conserved := accounted.conserved (isPointer p)
  rw [account] at once conserved
  rw [count_pointer, count_pointer] at once conserved
  rw [count_pointer] at conserved
  refine ⟨List.count_pos_iff.mp (by omega), List.count_eq_zero.mp (by omega), List.count_eq_zero.mp (by omega)⟩

end Pointers

theorem deletes_once (state : UniquePtrs Object Deleter) (accounted : state.Accounted) : state.DeletesOnce := by
  classical
  have once := account_le_one accounted
  refine ⟨fun p given undeleted unreleased => ?_, fun none p deleter given => ?_, ?_, ?_, accounted.nonnull⟩
  · have conserved := accounted.conserved (isPointer p)
    rw [account, count_pointer, count_pointer, count_pointer, List.count_eq_zero.mpr undeleted,
      List.count_eq_zero.mpr unreleased] at conserved
    have positive := List.count_pos_iff.mpr given
    obtain ⟨handle, alive, holds⟩ := Family.total_pos (held (isPointer p)) state.handles (by omega)
    have stores : state.Stores handle p := ⟨alive, (held_pointer _ p).mp holds⟩
    exact ⟨handle, stores, fun other otherStores => stores_unique accounted p other handle otherStores stores⟩
  · have conserved : state.account (· == (p, deleter)) = state.given.count (p, deleter) := accounted.conserved (· == (p, deleter))
    have positive := List.count_pos_iff.mpr given
    have empty : state.handles.total (held (· == (p, deleter))) = 0 := by rw [Family.total, none, Finset.sum_empty]
    have single := once p
    rw [account, empty, Nat.zero_add] at conserved
    rw [account, count_pointer, count_pointer] at single
    change state.disposals.count (p, deleter) + state.released.count (p, deleter) = _ at conserved
    by_cases deleted : (p, deleter) ∈ state.disposals
    · have member : p ∈ state.disposals.map Prod.fst := List.mem_map.mpr ⟨(p, deleter), deleted, rfl⟩
      have here := List.count_pos_iff.mpr member
      exact .inl ⟨deleted, List.count_eq_zero.mp (by omega)⟩
    · rw [List.count_eq_zero.mpr deleted] at conserved
      have released : (p, deleter) ∈ state.released := List.count_pos_iff.mp (by omega)
      have member : p ∈ state.released.map Prod.fst := List.mem_map.mpr ⟨(p, deleter), released, rfl⟩
      have here := List.count_pos_iff.mpr member
      exact .inr ⟨released, List.count_eq_zero.mp (by omega)⟩
  · refine List.nodup_iff_count_le_one.mpr (fun p => ?_)
    have single := once p
    rw [account, count_pointer, count_pointer] at single
    omega
  · refine List.nodup_iff_count_le_one.mpr (fun p => ?_)
    have single := once p
    rw [account, count_pointer, count_pointer] at single
    omega

-- reset calls the deleter where there is nothing to delete, and nowhere else.
theorem reset_deletes_wrong (state : UniquePtrs Object Deleter) (handle : Nat) (p : Option Object) (accounted : state.Accounted)
    (alive : handle ∈ state.handles.live) (fresh : state.Fresh p) : ¬ (state.reset handle p).DeletesOnce := by
  classical
  intro deletes
  cases stored : (state.handles.value handle).storedPointer with
  | none =>
      refine deletes.nonnull (state.handles.value handle).deleter ?_
      rw [reset, stored]
      change _ ∈ (state.callDeleter handle).calls
      rw [callDeleter, stored]
      exact List.mem_cons_self
  | some q =>
      have stores : state.Stores handle q := ⟨alive, stored⟩
      obtain ⟨given, undeleted, unreleased⟩ := stored_given accounted q handle stores
      have after : state.reset handle p = (state.give p (state.handles.value handle).deleter).put handle
          ⟨p, (state.handles.value handle).deleter⟩ := by
        rw [reset, stored]
        rfl
      rw [after] at deletes
      have stillGiven : q ∈ (paired p (state.handles.value handle).deleter ++ state.given).map Prod.fst := by
        rw [List.map_append]
        exact List.mem_append_right _ given
      obtain ⟨other, ⟨otherAlive, otherStores⟩, _⟩ := deletes.stored q stillGiven undeleted unreleased
      rcases eq_or_ne other handle with rfl | apart
      · rw [put, Family.set_value] at otherStores
        exact fresh q otherStores given
      · have before : (state.handles.value other).storedPointer = some q := by
          rw [← otherStores]
          exact congrArg UniquePtr.storedPointer (Family.set_value_other state.handles handle other _ apart).symm
        exact apart (stores_unique accounted q other handle ⟨otherAlive, before⟩ stores)

end UniquePtrs

section

variable (blank : Nat → Deleter) (movedFrom : Deleter → Deleter)

theorem empty_accounted (old : Nat → UniquePtr Object Deleter) : (UniquePtrs.empty old).Accounted :=
  ⟨fun _ => rfl, List.nodup_nil, fun _ => List.not_mem_nil⟩

theorem deletes_once_from_iff (state : UniquePtrs Object Deleter) (calls : List (UniqueCall Object Deleter)) (accounted : state.Accounted)
    (allowed : Along (UniquePtrs.step blank movedFrom) UniquePtrs.Allowed state calls) :
    Visits (UniquePtrs.step blank movedFrom) UniquePtrs.DeletesOnce state calls ↔ ∀ call ∈ calls, ¬ UniquePtrs.IsReset call := by
  induction calls generalizing state with
  | nil => exact iff_of_true (UniquePtrs.deletes_once state accounted) (fun call member => absurd member List.not_mem_nil)
  | cons call rest ih =>
      rw [List.forall_mem_cons]
      constructor
      · rintro ⟨_, next, stepped, later⟩
        have other : ¬ UniquePtrs.IsReset call := by
          intro reset
          cases call with
          | reset handle p =>
              obtain rfl := Option.some.inj stepped
              refine UniquePtrs.reset_deletes_wrong state handle p accounted allowed.1.1 allowed.1.2 ?_
              cases rest with
              | nil => exact later
              | cons _ _ => exact later.1
          | _ => exact reset
        obtain ⟨known, same, kept⟩ := UniquePtrs.accounted_step blank movedFrom call accounted allowed.1 other
        obtain rfl := Option.some.inj (stepped.symm.trans same)
        exact ⟨other, (ih next kept (allowed.2 next stepped)).mp later⟩
      · rintro ⟨other, others⟩
        obtain ⟨next, stepped, kept⟩ := UniquePtrs.accounted_step blank movedFrom call accounted allowed.1 other
        exact ⟨UniquePtrs.deletes_once state accounted, next, stepped, (ih next kept (allowed.2 next stepped)).mpr others⟩

theorem deletes_once_iff (old : Nat → UniquePtr Object Deleter) (calls : List (UniqueCall Object Deleter))
    (allowed : Along (UniquePtrs.step blank movedFrom) UniquePtrs.Allowed (UniquePtrs.empty old) calls) :
    Visits (UniquePtrs.step blank movedFrom) UniquePtrs.DeletesOnce (UniquePtrs.empty old) calls ↔
      ∀ call ∈ calls, ¬ UniquePtrs.IsReset call :=
  deletes_once_from_iff blank movedFrom (UniquePtrs.empty old) calls (empty_accounted old) allowed

end

def noHandles : UniquePtrs Nat Unit := UniquePtrs.empty (fun _ => ⟨none, ()⟩)

theorem moved_pointer_deleted_once : Visits (UniquePtrs.step (fun _ => ()) id) UniquePtrs.DeletesOnce noHandles
    [.construct 0 (some 7) none, .moveConstruct 1 0, .nullptrAssign 0, .destroy 0, .destroy 1] := by
  refine (deletes_once_iff (fun _ => ()) id (fun _ => ⟨none, ()⟩) _ ?_).mpr (by simp [UniquePtrs.IsReset])
  decide

theorem null_deleted :
    Along (UniquePtrs.step (fun _ => ()) id) UniquePtrs.Allowed noHandles [.construct 0 none none, .reset 0 (some 7)] ∧
      ¬ Visits (UniquePtrs.step (fun _ => ()) id) UniquePtrs.DeletesOnce noHandles [.construct 0 none none, .reset 0 (some 7)] := by
  refine ⟨by decide, ?_⟩
  rintro ⟨_, _, first, _, _, second, deletes⟩
  cases first
  cases second
  exact deletes.nonnull () List.mem_cons_self

end Kraftwerk.StandaloneStd
