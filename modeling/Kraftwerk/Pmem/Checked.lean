import Kraftwerk.Pmem.Blocks

set_option autoImplicit false

-- allocate and free of os/core/physical_mem.cpp once more, with what goes wrong told apart:
-- a NULL node that is read, an index of free_lists past ALLOC_MAX_ORDER, and a shift
-- that overflows an int.
namespace Kraftwerk.Pmem

inductive Fault where
  | null
  | outside (index : Nat)
  | overflow (amount : Nat)
deriving DecidableEq, Repr

abbrev Checked (α : Type) : Type := Except Fault α

def listAt (lists : FreeLists) (order : Nat) : Checked (List Addr) :=
  if order ≤ allocMaxOrder then .ok (lists order) else .error (.outside order)

def bitChecked (amount : Nat) : Checked Addr := if amount < 31 then .ok (intBit amount) else .error (.overflow amount)

def alignBlockChecked (inAddr : Addr) (order : Nat) : Checked Addr :=
  if order + 12 < 31 then .ok (alignBlock inAddr order) else .error (.overflow (order + 12))

def getBlockFromStackChecked (lists : FreeLists) (order : Nat) : Checked (Addr × FreeLists) :=
  (listAt lists order).bind fun blocks =>
    match blocks with
    | [] => .error .null
    | blk :: rest => .ok (blk, setList lists order rest)

def fillFreeListCheckedAt : Nat → Nat → FreeLists → Checked FreeLists
  | 0, order, lists => (listAt lists order).map fun _ => lists
  | climb + 1, order, lists =>
      (listAt lists order).bind fun blocks =>
        if blocks ≠ [] then .ok lists
        else
          (fillFreeListCheckedAt climb (order + 1) lists).bind fun filled =>
            (getBlockFromStackChecked filled (order + 1)).bind fun (oldBlock, popped) =>
              (bitChecked (order + 12)).map fun bit => setList popped order [oldBlock ^^^ bit, oldBlock]

def fillFreeListChecked (order : Nat) (lists : FreeLists) : Checked FreeLists :=
  fillFreeListCheckedAt (allocMaxOrder - order) order lists

def allocateChecked (nPages : Nat) (lists : FreeLists) : Checked (Addr × FreeLists) :=
  if 2 ^ allocMaxOrder < nPages then .ok (0, lists)
  else
    (fillFreeListChecked (getAllocOrder nPages) lists).bind fun filled =>
      getBlockFromStackChecked filled (getAllocOrder nPages)

def addFreeListCheckedAt : Nat → Nat → Addr → FreeLists → Checked FreeLists
  | 0, order, blk, lists => (listAt lists order).map fun blocks => setList lists order (blk :: blocks)
  | climb + 1, order, blk, lists =>
      (alignBlockChecked blk order).bind fun start =>
        (listAt lists order).bind fun blocks =>
          if blocks = [] then .ok (setList lists order [start])
          else
            (bitChecked (order + 12)).bind fun bit =>
              if start ^^^ bit ∈ blocks then
                addFreeListCheckedAt climb (order + 1) start (setList lists order (blocks.erase (start ^^^ bit)))
              else .ok (setList lists order (start :: blocks))

-- The recursion ends where order == ALLOC_MAX_ORDER, so past the top order its body is entered.
def addFreeListChecked (blk : Addr) (order : Nat) (lists : FreeLists) : Checked FreeLists :=
  addFreeListCheckedAt (if order ≤ allocMaxOrder then allocMaxOrder - order else 1) order blk lists

def freeChecked (start : Addr) (nPages : Nat) (lists : FreeLists) : Checked FreeLists :=
  addFreeListChecked start (getAllocOrder nPages) lists

def orNull {α : Type} : Option α → Checked α
  | some value => .ok value
  | none => .error .null

theorem list_at_inside (lists : FreeLists) (order : Nat) (small : order ≤ allocMaxOrder) :
    listAt lists order = .ok (lists order) :=
  if_pos small

theorem bit_inside (order : Nat) (small : order ≤ allocMaxOrder) : bitChecked (order + 12) = .ok (intBit (order + 12)) := by
  unfold allocMaxOrder at small
  exact if_pos (by omega)

theorem align_block_inside (start : Addr) (order : Nat) (small : order ≤ allocMaxOrder) :
    alignBlockChecked start order = .ok (alignBlock start order) := by
  unfold allocMaxOrder at small
  exact if_pos (by omega)

theorem get_block_checked (lists : FreeLists) (order : Nat) (small : order ≤ allocMaxOrder) :
    getBlockFromStackChecked lists order = orNull (getBlockFromStack lists order) := by
  rw [getBlockFromStackChecked, list_at_inside lists order small, Except.bind, getBlockFromStack]
  cases lists order with
  | nil => rfl
  | cons blk rest => rfl

theorem fill_free_list_checked (climb order : Nat) (lists : FreeLists) (range : climb + order = allocMaxOrder) :
    fillFreeListCheckedAt climb order lists = orNull (fillFreeListAt climb order lists) := by
  induction climb generalizing order with
  | zero =>
      rw [fillFreeListCheckedAt, list_at_inside lists order (by omega)]
      rfl
  | succ climb ih =>
      rw [fillFreeListCheckedAt, list_at_inside lists order (by omega), Except.bind, fillFreeListAt]
      dsimp only
      by_cases present : lists order ≠ []
      · rw [if_pos present, if_pos present]
        rfl
      · rw [if_neg present, if_neg present, ih (order + 1) (by omega)]
        cases fillFreeListAt climb (order + 1) lists with
        | none => rfl
        | some filled =>
            simp only [orNull, Except.bind, Option.bind_some]
            rw [get_block_checked filled (order + 1) (by omega), bit_inside order (by omega)]
            cases getBlockFromStack filled (order + 1) with
            | none => rfl
            | some popped => rfl

-- Requests for too many pages are turned away, so no index and no shift of allocate is too large.
theorem allocate_checked (nPages : Nat) (lists : FreeLists) : allocateChecked nPages lists = orNull (allocate nPages lists) := by
  rw [allocateChecked, allocate]
  by_cases many : 2 ^ allocMaxOrder < nPages
  · rw [if_pos many, if_pos many]
    rfl
  · have small := get_alloc_order_le nPages (Nat.le_of_not_lt many)
    rw [if_neg many, if_neg many, fillFreeListChecked, fill_free_list_checked _ _ lists (by omega), fillFreeList]
    cases fillFreeListAt (allocMaxOrder - getAllocOrder nPages) (getAllocOrder nPages) lists with
    | none => rfl
    | some filled => exact get_block_checked filled _ small

theorem add_free_list_checked (climb order : Nat) (blk : Addr) (lists : FreeLists) (range : climb + order = allocMaxOrder) :
    addFreeListCheckedAt climb order blk lists = .ok (addFreeListAt climb order blk lists) := by
  induction climb generalizing order blk lists with
  | zero =>
      rw [addFreeListCheckedAt, list_at_inside lists order (by omega)]
      rfl
  | succ climb ih =>
      rw [addFreeListCheckedAt, align_block_inside blk order (by omega), list_at_inside lists order (by omega),
        bit_inside order (by omega), addFreeListAt]
      simp only [Except.bind]
      by_cases empty : lists order = []
      · rw [if_pos empty, if_pos empty]
      · rw [if_neg empty, if_neg empty]
        split
        · exact ih (order + 1) _ _ (by omega)
        · rfl

theorem free_checked (start : Addr) (nPages : Nat) (lists : FreeLists) (small : getAllocOrder nPages ≤ allocMaxOrder) :
    freeChecked start nPages lists = orNull (free start nPages lists) := by
  rw [freeChecked, addFreeListChecked, if_pos small, add_free_list_checked _ _ start lists (by omega), free, addFreeList,
    if_neg (by omega)]
  rfl

theorem free_checked_past (start : Addr) (nPages : Nat) (lists : FreeLists) (large : allocMaxOrder < getAllocOrder nPages) :
    freeChecked start nPages lists = .error (.overflow (getAllocOrder nPages + 12)) := by
  unfold allocMaxOrder at large
  rw [freeChecked, addFreeListChecked, if_neg (by unfold allocMaxOrder; omega), addFreeListCheckedAt, alignBlockChecked,
    if_neg (by omega)]
  rfl

-- What the two models agree on: a fault of any kind is a fault of the first one.
theorem free_refines (start : Addr) (nPages : Nat) (lists : FreeLists) :
    (freeChecked start nPages lists).toOption = free start nPages lists := by
  by_cases small : getAllocOrder nPages ≤ allocMaxOrder
  · rw [free_checked start nPages lists small]
    cases free start nPages lists <;> rfl
  · rw [free_checked_past start nPages lists (by omega), free, addFreeList, if_pos (by omega)]
    rfl

end Kraftwerk.Pmem
