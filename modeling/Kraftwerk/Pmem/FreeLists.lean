import Mathlib.Algebra.Group.Nat.Defs
import Mathlib.Data.Nat.Log
import Mathlib.Logic.Function.Basic

set_option autoImplicit false

-- os/core/physical_mem.cpp, with each chain of pmem_block nodes as the list of its block_start values. A result of none is
-- a fault: get_block_from_stack at a NULL head, or an access outside free_lists.
namespace Kraftwerk.Pmem

abbrev Addr := BitVec 64

def allocMaxOrder : Nat := 18

abbrev FreeLists := Nat → List Addr

def setList (lists : FreeLists) (order : Nat) (blocks : List Addr) : FreeLists := Function.update lists order blocks

@[simp] theorem set_list_same (lists : FreeLists) (order : Nat) (blocks : List Addr) :
    setList lists order blocks order = blocks := by
  simp [setList]

@[simp] theorem set_list_other (lists : FreeLists) (order other : Nat) (blocks : List Addr) (different : other ≠ order) :
    setList lists order blocks other = lists other := by
  simp [setList, different]

def getAllocOrderFrom (nFrames : Nat) : Nat → Nat → Nat
  | 0, _ => 0
  | left + 1, i =>
      if 2 ^ i = nFrames then i
      else if 2 ^ i < nFrames ∧ nFrames < 2 ^ (i + 1) then i + 1
      else getAllocOrderFrom nFrames left (i + 1)

def getAllocOrder (nFrames : Nat) : Nat := getAllocOrderFrom nFrames (allocMaxOrder + 1) 0

-- 1 << amount is a 32-bit int, sign-extended where it meets a pmem_t.
def intBit (amount : Nat) : Addr := ((1#32) <<< amount).signExtend 64

def alignBlock (inAddr : Addr) (order : Nat) : Addr :=
  inAddr &&& (~~~(((1#32) <<< (order + 12)) - 1#32)).signExtend 64

def getBlockFromStack (lists : FreeLists) (order : Nat) : Option (Addr × FreeLists) :=
  match lists order with
  | [] => none
  | blk :: rest => some (blk, setList lists order rest)

def fillFreeListAt : Nat → Nat → FreeLists → Option FreeLists
  | 0, _, lists => some lists
  | climb + 1, order, lists =>
      if lists order ≠ [] then some lists
      else
        (fillFreeListAt climb (order + 1) lists).bind fun filled =>
          (getBlockFromStack filled (order + 1)).map fun (oldBlock, popped) =>
            setList popped order [oldBlock ^^^ intBit (order + 12), oldBlock]

def fillFreeList (order : Nat) (lists : FreeLists) : Option FreeLists :=
  fillFreeListAt (allocMaxOrder - order) order lists

-- The top order links the node as it is, without align_block.
def addFreeListAt : Nat → Nat → Addr → FreeLists → FreeLists
  | 0, order, blk, lists => setList lists order (blk :: lists order)
  | climb + 1, order, blk, lists =>
      let start := alignBlock blk order
      let buddy := start ^^^ intBit (order + 12)
      if lists order = [] then setList lists order [start]
      else if buddy ∈ lists order then
        addFreeListAt climb (order + 1) start (setList lists order ((lists order).erase buddy))
      else setList lists order (start :: lists order)

def addFreeList (blk : Addr) (order : Nat) (lists : FreeLists) : Option FreeLists :=
  if allocMaxOrder < order then none
  else some (addFreeListAt (allocMaxOrder - order) order blk lists)

def allocate (nPages : Nat) (lists : FreeLists) : Option (Addr × FreeLists) :=
  if 2 ^ allocMaxOrder < nPages then some (0, lists)
  else
    (fillFreeList (getAllocOrder nPages) lists).bind fun filled =>
      getBlockFromStack filled (getAllocOrder nPages)

def free (start : Addr) (nPages : Nat) (lists : FreeLists) : Option FreeLists :=
  addFreeList start (getAllocOrder nPages) lists

scoped instance addrLawful : LawfulBEq Addr := inferInstance

-- From 2^19 page frames on no test succeeds.
theorem get_alloc_order_from_clog (nFrames left i : Nat) (low : 2 ^ i ≤ nFrames) :
    getAllocOrderFrom nFrames left i = if nFrames < 2 ^ (i + left) then Nat.clog 2 nFrames else 0 := by
  induction left generalizing i with
  | zero => rw [getAllocOrderFrom, Nat.add_zero, if_neg (Nat.not_lt.mpr low)]
  | succ left ih =>
      have next : i + 1 + left = i + (left + 1) := by omega
      have above : 2 ^ (i + 1) ≤ 2 ^ (i + (left + 1)) := Nat.pow_le_pow_right (by decide) (by omega)
      have lower : 2 ^ i < 2 ^ (i + 1) := Nat.pow_lt_pow_right (by decide) (Nat.lt_succ_self i)
      rw [getAllocOrderFrom]
      by_cases exactly : 2 ^ i = nFrames
      · rw [if_pos exactly, if_pos (by omega), ← exactly, Nat.clog_pow 2 i (by decide)]
      · rw [if_neg exactly]
        by_cases between : 2 ^ i < nFrames ∧ nFrames < 2 ^ (i + 1)
        · rw [if_pos between, if_pos (by omega)]
          refine Nat.le_antisymm ?_ (Nat.clog_le_of_le_pow (Nat.le_of_lt between.2))
          exact (Nat.lt_clog_iff_pow_lt (by decide)).mpr between.1
        · rw [if_neg between, ih (i + 1) (by omega), next]

theorem get_alloc_order_clog (nFrames : Nat) (some : 1 ≤ nFrames) :
    getAllocOrder nFrames = if nFrames < 2 ^ (allocMaxOrder + 1) then Nat.clog 2 nFrames else 0 := by
  rw [getAllocOrder, get_alloc_order_from_clog nFrames (allocMaxOrder + 1) 0 some, Nat.zero_add]

theorem get_alloc_order_inside_iff (nFrames : Nat) :
    getAllocOrder nFrames ≤ allocMaxOrder ↔ ¬ (2 ^ allocMaxOrder < nFrames ∧ nFrames < 2 ^ (allocMaxOrder + 1)) := by
  cases Nat.eq_zero_or_pos nFrames with
  | inl none =>
      subst none
      decide
  | inr some =>
      rw [get_alloc_order_clog nFrames some]
      split
      · rename_i few
        rw [Nat.clog_le_iff_le_pow (by decide), and_iff_left few, Nat.not_lt]
      · rename_i many
        exact iff_of_true (Nat.zero_le _) (fun both => many both.2)

theorem get_alloc_order_le (nFrames : Nat) (fits : nFrames ≤ 2 ^ allocMaxOrder) : getAllocOrder nFrames ≤ allocMaxOrder :=
  (get_alloc_order_inside_iff nFrames).mpr (fun large => absurd fits (Nat.not_le.mpr large.1))

theorem get_alloc_order_least (nFrames : Nat) (some : 1 ≤ nFrames) (few : nFrames < 2 ^ 19) :
    nFrames ≤ 2 ^ getAllocOrder nFrames ∧ ∀ smaller < getAllocOrder nFrames, 2 ^ smaller < nFrames := by
  have inside : nFrames < 2 ^ (allocMaxOrder + 1) := few
  rw [get_alloc_order_clog nFrames some, if_pos inside]
  exact ⟨Nat.le_pow_clog (by decide) nFrames, fun smaller below => Nat.pow_lt_of_lt_clog below⟩

end Kraftwerk.Pmem
