import Mathlib.Algebra.Group.Nat.Defs
import Mathlib.Data.Set.Basic

set_option autoImplicit false

-- os/core/virtual_mem.cpp, with a region's chain of vmem_ll_node nodes as a list. A result of none is a call that never
-- returns: the walks continue at a node that is not free without moving past it.
namespace Kraftwerk.Vmem

abbrev Addr := BitVec 64

structure Node where
  allocSt : Addr
  size : BitVec 64
  free : Bool
deriving DecidableEq, Repr

structure Region where
  regStart : Addr
  regSize : BitVec 64
  list : List Node
deriving DecidableEq, Repr

def bisectNode (prevNode : Node) (newSize : BitVec 64) : Node × Node :=
  ({ prevNode with size := newSize },
    { allocSt := prevNode.allocSt + newSize <<< 12, size := prevNode.size - newSize, free := true })

def allocateList (nPages : BitVec 32) : List Node → Option (Option Addr × List Node)
  | [] => some (none, [])
  | cur :: rest =>
      if !cur.free then none
      else if cur.size = nPages.setWidth 64 then some (some cur.allocSt, { cur with free := false } :: rest)
      else if nPages.setWidth 64 < cur.size then
        let (shrunk, nnode) := bisectNode cur (nPages.setWidth 64)
        some (some shrunk.allocSt, { shrunk with free := false } :: nnode :: rest)
      else (allocateList nPages rest).map fun (result, after) => (result, cur :: after)

def allocateRegion (reg : Region) (nPages : BitVec 32) : Option (Option Addr × Region) :=
  (allocateList nPages reg.list).map fun (result, after) => (result, { reg with list := after })

-- n_pages << 12 is computed in 32 bits.
def fitsReserve (cur : Node) (whereAddr : Addr) (nPages : BitVec 32) : Bool :=
  decide (cur.allocSt ≤ whereAddr) && decide (whereAddr + (nPages <<< 12).setWidth 64 ≤ cur.allocSt + cur.size <<< 12)

-- The second cut keeps the front part free and takes the rest.
def reserveNode (cur : Node) (nPages : BitVec 32) : List Node :=
  if nPages.setWidth 64 < cur.size then
    let (shrunk, nn) := bisectNode cur (nPages.setWidth 64)
    [shrunk, { nn with free := false }]
  else [{ cur with free := false }]

def reserveCut (cur : Node) (whereAddr : Addr) (nPages : BitVec 32) : List Node :=
  if whereAddr < cur.allocSt then
    let (front, found) := bisectNode cur ((cur.allocSt - whereAddr) >>> 12)
    front :: reserveNode found nPages
  else reserveNode cur nPages

-- The front cut asks for a node that starts behind the address it was chosen to hold.
theorem fits_starts (cur : Node) (whereAddr : Addr) (nPages : BitVec 32) (fits : fitsReserve cur whereAddr nPages = true) :
    ¬ whereAddr < cur.allocSt :=
  BitVec.not_lt.mpr (of_decide_eq_true (Bool.and_eq_true_iff.mp fits).1)

def reserveList (whereAddr : Addr) (nPages : BitVec 32) : List Node → Option (Bool × List Node)
  | [] => some (false, [])
  | cur :: rest =>
      if !cur.free then none
      else if fitsReserve cur whereAddr nPages then some (true, reserveCut cur whereAddr nPages ++ rest)
      else (reserveList whereAddr nPages rest).map fun (reserved, after) => (reserved, cur :: after)

def reserveRegion (reg : Region) (whereAddr : Addr) (nPages : BitVec 32) : Option (Bool × Region) :=
  (reserveList whereAddr nPages reg.list).map fun (reserved, after) => (reserved, { reg with list := after })

end Kraftwerk.Vmem
