import Kraftwerk.Lib.Holders
import Kraftwerk.Lib.Runs

set_option autoImplicit false

-- standalone_std::shared_ptr and weak_ptr over the counters of ptr_refcounter.h.
namespace Kraftwerk.StandaloneStd

open Holders Runs

variable {Ptr : Type}

-- How often the counter's destroy was called, how often it was deleted, and how often it was
-- used after that.
structure Counter where
  strongCount : BitVec 32
  weakCount : BitVec 32
  destroyed : Nat
  deleted : Nat
  late : Nat
deriving DecidableEq

namespace Counter

def unmade : Counter := ⟨0, 0, 0, 0, 0⟩

def made : Counter := ⟨1, 0, 0, 0, 0⟩

def touch (counter : Counter) : Counter := if counter.deleted = 0 then counter else { counter with late := counter.late + 1 }

def incrementStrong (counter : Counter) : Counter :=
  let counter := counter.touch
  { counter with strongCount := counter.strongCount + 1 }

def decrementStrong (counter : Counter) : Counter :=
  let counter := counter.touch
  let counter := { counter with strongCount := counter.strongCount - 1 }
  if counter.strongCount = 0 then
    let counter := { counter with destroyed := counter.destroyed + 1 }
    if counter.weakCount = 0 then { counter with deleted := counter.deleted + 1 } else counter
  else counter

def incrementWeak (counter : Counter) : Counter :=
  let counter := counter.touch
  { counter with weakCount := counter.weakCount + 1 }

-- A counter is never deleted from here.
def decrementWeak (counter : Counter) : Counter :=
  let counter := counter.touch
  { counter with weakCount := counter.weakCount - 1 }

end Counter

structure Handle (Ptr : Type) where
  ctrObject : Option Nat
  ptr : Option Ptr

def Handle.null : Handle Ptr := ⟨none, none⟩

structure SharedPtrs (Ptr : Type) where
  counters : Nat → Counter
  created : Nat
  shared : Family Nat (Handle Ptr)
  weak : Family Nat (Handle Ptr)

namespace SharedPtrs

def empty (old : Nat → Handle Ptr) : SharedPtrs Ptr := ⟨fun _ => .unmade, 0, ⟨∅, old⟩, ⟨∅, old⟩⟩

variable (state : SharedPtrs Ptr) (handle rhs : Nat)

def onCounter (ctrObject : Option Nat) (change : Counter → Counter) : SharedPtrs Ptr :=
  match ctrObject with
  | none => state
  | some c => { state with counters := Function.update state.counters c (change (state.counters c)) }

def addShared (value : Handle Ptr) : SharedPtrs Ptr := { state with shared := state.shared.add handle value }
def setShared (value : Handle Ptr) : SharedPtrs Ptr := { state with shared := state.shared.set handle value }
def addWeak (value : Handle Ptr) : SharedPtrs Ptr := { state with weak := state.weak.add handle value }
def setWeak (value : Handle Ptr) : SharedPtrs Ptr := { state with weak := state.weak.set handle value }

-- increment and decrement of shared_ptr and of weak_ptr.
def incrementShared : SharedPtrs Ptr := state.onCounter (state.shared.value handle).ctrObject .incrementStrong
def decrementShared : SharedPtrs Ptr := state.onCounter (state.shared.value handle).ctrObject .decrementStrong
def incrementWeak : SharedPtrs Ptr := state.onCounter (state.weak.value handle).ctrObject .incrementWeak
def decrementWeak : SharedPtrs Ptr := state.onCounter (state.weak.value handle).ctrObject .decrementWeak

section Shared

def construct (ptr : Option Ptr) : SharedPtrs Ptr :=
  { state.addShared handle ⟨some state.created, ptr⟩ with
    counters := Function.update state.counters state.created .made, created := state.created + 1 }

def constructNull : SharedPtrs Ptr := state.addShared handle .null

def copyConstruct : SharedPtrs Ptr := (state.addShared handle (state.shared.value rhs)).incrementShared handle

def aliasConstruct (ptr : Option Ptr) : SharedPtrs Ptr :=
  (state.addShared handle ⟨(state.shared.value rhs).ctrObject, ptr⟩).incrementShared handle

-- strong_count is read without a test for nullptr.
def constructFromWeak : Option (SharedPtrs Ptr) :=
  (state.weak.value rhs).ctrObject.map (fun c =>
    let next := (state.addShared handle (state.weak.value rhs)).onCounter (some c) .touch
    if 0 < (next.counters c).strongCount then next.incrementShared handle else next.setShared handle .null)

def moveConstruct : SharedPtrs Ptr := (state.addShared handle (state.shared.value rhs)).setShared rhs .null

def copyAssign : SharedPtrs Ptr :=
  if handle = rhs then state
  else ((state.decrementShared handle).setShared handle (state.shared.value rhs)).incrementShared handle

def moveAssign : SharedPtrs Ptr :=
  if handle = rhs then state
  else ((state.decrementShared handle).setShared handle (state.shared.value rhs)).setShared rhs .null

def destroy : SharedPtrs Ptr :=
  let next := state.decrementShared handle
  { next with shared := next.shared.drop handle }

-- tmp takes what the handle has, the handle what rhs has, and rhs is assigned from tmp.
def swap : SharedPtrs Ptr :=
  let tmp := state.shared.value handle
  let next := state.setShared handle .null
  let next := next.setShared handle (next.shared.value rhs)
  (next.decrementShared rhs).setShared rhs tmp

def reset : SharedPtrs Ptr := (state.decrementShared handle).setShared handle .null

end Shared

section Weak

def constructWeak : SharedPtrs Ptr := state.addWeak handle .null

def copyConstructWeak (rhs : Handle Ptr) : SharedPtrs Ptr := (state.addWeak handle rhs).incrementWeak handle

def moveConstructWeak : SharedPtrs Ptr := (state.addWeak handle (state.weak.value rhs)).setWeak rhs .null

def destroyWeak : SharedPtrs Ptr :=
  let next := state.decrementWeak handle
  { next with weak := next.weak.drop handle }

def copyAssignWeak (rhs : Handle Ptr) : SharedPtrs Ptr := (state.setWeak handle rhs).incrementWeak handle

def moveAssignWeak : SharedPtrs Ptr := (state.setWeak handle (state.weak.value rhs)).setWeak rhs .null

def moveAssignWeakFromShared : SharedPtrs Ptr := (state.setWeak handle (state.shared.value rhs)).setShared rhs .null

def swapWeak : SharedPtrs Ptr := (state.setWeak handle (state.weak.value rhs)).setWeak rhs (state.weak.value handle)

def lock : Option (SharedPtrs Ptr) :=
  if (state.weak.value rhs).ctrObject.isSome then state.constructFromWeak handle rhs else some (state.constructNull handle)

end Weak

end SharedPtrs

-- handle is the handle called on or constructed, rhs the other one.
inductive SharedCall (Ptr : Type) where
  | construct (handle : Nat) (ptr : Option Ptr)
  | constructNull (handle : Nat)
  | copyConstruct (handle rhs : Nat)
  | aliasConstruct (handle rhs : Nat) (ptr : Option Ptr)
  | constructFromWeak (handle rhs : Nat)
  | moveConstruct (handle rhs : Nat)
  | copyAssign (handle rhs : Nat)
  | moveAssign (handle rhs : Nat)
  | destroy (handle : Nat)
  | swap (handle rhs : Nat)
  | reset (handle : Nat)
  | constructWeak (handle : Nat)
  | copyConstructWeak (handle rhs : Nat)
  | constructWeakFromShared (handle rhs : Nat)
  | moveConstructWeak (handle rhs : Nat)
  | destroyWeak (handle : Nat)
  | copyAssignWeak (handle rhs : Nat)
  | assignWeakFromShared (handle rhs : Nat)
  | moveAssignWeak (handle rhs : Nat)
  | moveAssignWeakFromShared (handle rhs : Nat)
  | resetWeak (handle : Nat)
  | swapWeak (handle rhs : Nat)
  | lock (handle rhs : Nat)

namespace SharedPtrs

-- weak_ptr::reset assigns to an rhs that it does not have, so there is no code to run for it.
def step (state : SharedPtrs Ptr) : SharedCall Ptr → Option (SharedPtrs Ptr)
  | .construct handle ptr => some (state.construct handle ptr)
  | .constructNull handle => some (state.constructNull handle)
  | .copyConstruct handle rhs => some (state.copyConstruct handle rhs)
  | .aliasConstruct handle rhs ptr => some (state.aliasConstruct handle rhs ptr)
  | .constructFromWeak handle rhs => state.constructFromWeak handle rhs
  | .moveConstruct handle rhs => some (state.moveConstruct handle rhs)
  | .copyAssign handle rhs => some (state.copyAssign handle rhs)
  | .moveAssign handle rhs => some (state.moveAssign handle rhs)
  | .destroy handle => some (state.destroy handle)
  | .swap handle rhs => some (state.swap handle rhs)
  | .reset handle => some (state.reset handle)
  | .constructWeak handle => some (state.constructWeak handle)
  | .copyConstructWeak handle rhs => some (state.copyConstructWeak handle (state.weak.value rhs))
  | .constructWeakFromShared handle rhs => some (state.copyConstructWeak handle (state.shared.value rhs))
  | .moveConstructWeak handle rhs => some (state.moveConstructWeak handle rhs)
  | .destroyWeak handle => some (state.destroyWeak handle)
  | .copyAssignWeak handle rhs => some (state.copyAssignWeak handle (state.weak.value rhs))
  | .assignWeakFromShared handle rhs => some (state.copyAssignWeak handle (state.shared.value rhs))
  | .moveAssignWeak handle rhs => some (state.moveAssignWeak handle rhs)
  | .moveAssignWeakFromShared handle rhs => some (state.moveAssignWeakFromShared handle rhs)
  | .resetWeak _ => none
  | .swapWeak handle rhs => some (state.swapWeak handle rhs)
  | .lock handle rhs => state.lock handle rhs

-- What C++ asks of a program: a handle is used while it lives.
def Allowed (state : SharedPtrs Ptr) : SharedCall Ptr → Prop
  | .construct handle _ => handle ∉ state.shared.live
  | .constructNull handle => handle ∉ state.shared.live
  | .copyConstruct handle rhs => handle ∉ state.shared.live ∧ rhs ∈ state.shared.live
  | .aliasConstruct handle rhs _ => handle ∉ state.shared.live ∧ rhs ∈ state.shared.live
  | .constructFromWeak handle rhs => handle ∉ state.shared.live ∧ rhs ∈ state.weak.live
  | .moveConstruct handle rhs => handle ∉ state.shared.live ∧ rhs ∈ state.shared.live
  | .copyAssign handle rhs => handle ∈ state.shared.live ∧ rhs ∈ state.shared.live
  | .moveAssign handle rhs => handle ∈ state.shared.live ∧ rhs ∈ state.shared.live
  | .destroy handle => handle ∈ state.shared.live
  | .swap handle rhs => handle ∈ state.shared.live ∧ rhs ∈ state.shared.live
  | .reset handle => handle ∈ state.shared.live
  | .constructWeak handle => handle ∉ state.weak.live
  | .copyConstructWeak handle rhs => handle ∉ state.weak.live ∧ rhs ∈ state.weak.live
  | .constructWeakFromShared handle rhs => handle ∉ state.weak.live ∧ rhs ∈ state.shared.live
  | .moveConstructWeak handle rhs => handle ∉ state.weak.live ∧ rhs ∈ state.weak.live
  | .destroyWeak handle => handle ∈ state.weak.live
  | .copyAssignWeak handle rhs => handle ∈ state.weak.live ∧ rhs ∈ state.weak.live
  | .assignWeakFromShared handle rhs => handle ∈ state.weak.live ∧ rhs ∈ state.shared.live
  | .moveAssignWeak handle rhs => handle ∈ state.weak.live ∧ rhs ∈ state.weak.live
  | .moveAssignWeakFromShared handle rhs => handle ∈ state.weak.live ∧ rhs ∈ state.shared.live
  | .resetWeak handle => handle ∈ state.weak.live
  | .swapWeak handle rhs => handle ∈ state.weak.live ∧ rhs ∈ state.weak.live
  | .lock handle rhs => handle ∉ state.shared.live ∧ rhs ∈ state.weak.live

instance (state : SharedPtrs Ptr) (call : SharedCall Ptr) : Decidable (state.Allowed call) :=
  match call with
  | .construct _ _ | .constructNull _ | .constructWeak _ => inferInstanceAs (Decidable (¬ _))
  | .copyConstruct _ _ | .aliasConstruct _ _ _ | .constructFromWeak _ _ | .moveConstruct _ _ | .copyAssign _ _ | .moveAssign _ _
  | .swap _ _ | .copyConstructWeak _ _ | .constructWeakFromShared _ _ | .moveConstructWeak _ _ | .copyAssignWeak _ _
  | .assignWeakFromShared _ _ | .moveAssignWeak _ _ | .moveAssignWeakFromShared _ _
  | .swapWeak _ _ | .lock _ _ => inferInstanceAs (Decidable (_ ∧ _))
  | .destroy _ | .reset _ | .destroyWeak _ | .resetWeak _ => inferInstanceAs (Decidable (_ ∈ _))

end SharedPtrs

-- Whether a handle is to a counter, and how many of the live ones are.
def Handle.to (c : Nat) (handle : Handle Ptr) : Nat := if handle.ctrObject = some c then 1 else 0

def holders (family : Family Nat (Handle Ptr)) (c : Nat) : Nat := family.total (Handle.to c)

-- What a counter says where so many shared and weak handles are to it. One that is not made yet
-- says that there are none.
structure Counter.Tells (counter : Counter) (isMade : Bool) (strong weak : Nat) : Prop where
  strongCount : counter.strongCount.toNat = strong
  weakCount : counter.weakCount.toNat = weak
  destroyed : counter.destroyed = if isMade ∧ strong = 0 then 1 else 0
  deleted : counter.deleted = if isMade ∧ strong = 0 ∧ weak = 0 then 1 else 0
  neverLate : counter.late = 0
  handled : 0 < strong + weak → isMade

def SharedPtrs.Counted (state : SharedPtrs Ptr) : Prop :=
  ∀ c, (state.counters c).Tells (c < state.created) (holders state.shared c) (holders state.weak c)

end Kraftwerk.StandaloneStd
