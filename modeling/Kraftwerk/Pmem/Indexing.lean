import Kraftwerk.Pmem.Reserve

set_option autoImplicit false

-- Which calls of physical_memory stay inside free_lists and shift within an int.
namespace Kraftwerk.Pmem

inductive Request where
  | allocate (nPages : Nat)
  | free (start : Addr) (nPages : Nat)
  | reserve (whereAddr : Addr) (nPages : Nat)
  | isAllocated (whereAddr : Addr) (nPages : Nat)
deriving DecidableEq, Repr

-- The only thing that may go wrong is that a NULL node is read.
def StaysInside {α : Type} (result : Checked α) : Prop := ∀ fault, result = .error fault → fault = .null

def Request.InBounds (lists : FreeLists) : Request → Prop
  | .allocate nPages => StaysInside (allocateChecked nPages lists)
  | .free start nPages => StaysInside (freeChecked start nPages lists)
  | .reserve whereAddr nPages => StaysInside (Pmem.reserve whereAddr nPages lists)
  | .isAllocated whereAddr nPages => StaysInside (Pmem.isAllocated whereAddr nPages lists)

-- get_alloc_order gives 19 to these page counts, and only allocate turns them away.
def OrderTooLarge (nPages : Nat) : Prop := 2 ^ allocMaxOrder < nPages ∧ nPages < 2 ^ (allocMaxOrder + 1)

-- reserve also runs past the lists when it starts to split a larger block.
def Request.Indexable (lists : FreeLists) : Request → Prop
  | .allocate _ => True
  | .free _ nPages => ¬ OrderTooLarge nPages
  | .reserve whereAddr nPages => ¬ OrderTooLarge nPages ∧
      (BlockListed whereAddr lists (getAllocOrder nPages) ∨ ¬ ParentLast whereAddr lists (getAllocOrder nPages))
  | .isAllocated _ nPages => ¬ OrderTooLarge nPages

theorem stays_inside_ok {α : Type} (value : α) : StaysInside (.ok value) := fun _ same => by cases same

theorem stays_inside_null (α : Type) : StaysInside (.error .null : Checked α) := fun _ same => (Except.error.inj same).symm

theorem stays_inside_or_null {α : Type} (value : Option α) : StaysInside (orNull value) := by
  cases value with
  | none => exact stays_inside_null α
  | some value => exact stays_inside_ok value

theorem not_inside_overflow {α : Type} (amount : Nat) : ¬ StaysInside (.error (.overflow amount) : Checked α) :=
  fun inside => by cases inside _ rfl

theorem align_block_past (start : Addr) (order : Nat) (large : allocMaxOrder < order) :
    alignBlockChecked start order = .error (.overflow (order + 12)) := by
  unfold allocMaxOrder at large
  exact if_neg (by omega)

theorem free_in_bounds_iff (lists : FreeLists) (start : Addr) (nPages : Nat) :
    (Request.free start nPages).InBounds lists ↔ ¬ OrderTooLarge nPages := by
  rw [OrderTooLarge, ← get_alloc_order_inside_iff, Request.InBounds]
  by_cases small : getAllocOrder nPages ≤ allocMaxOrder
  · rw [free_checked start nPages lists small]
    exact iff_of_true (stays_inside_or_null _) small
  · rw [free_checked_past start nPages lists (Nat.lt_of_not_le small)]
    exact iff_of_false (not_inside_overflow _) small

section
variable (lists : FreeLists) (whereAddr : Addr) (nPages : Nat)

theorem is_allocated_in_bounds_iff : (Request.isAllocated whereAddr nPages).InBounds lists ↔ ¬ OrderTooLarge nPages := by
  rw [OrderTooLarge, ← get_alloc_order_inside_iff, Request.InBounds]
  by_cases small : getAllocOrder nPages ≤ allocMaxOrder
  · obtain ⟨_, freeEq⟩ | ⟨_, _, takenEq⟩ := is_allocated_cases whereAddr lists nPages small
    · rw [freeEq]
      exact iff_of_true (stays_inside_ok _) small
    · rw [takenEq]
      exact iff_of_true (stays_inside_ok _) small
  · rw [isAllocated, align_block_past whereAddr _ (Nat.lt_of_not_le small)]
    exact iff_of_false (not_inside_overflow _) small

theorem reserve_in_bounds_iff : (Request.reserve whereAddr nPages).InBounds lists ↔
    ¬ OrderTooLarge nPages ∧
      (BlockListed whereAddr lists (getAllocOrder nPages) ∨ ¬ ParentLast whereAddr lists (getAllocOrder nPages)) := by
  rw [OrderTooLarge, ← get_alloc_order_inside_iff, Request.InBounds]
  by_cases small : getAllocOrder nPages ≤ allocMaxOrder
  · rw [and_iff_right small]
    obtain ⟨listed, done⟩ | ⟨unlisted, ⟨none, refused⟩ | ⟨last, fault⟩ | ⟨_, notLast, fault⟩⟩ :=
      reserve_cases whereAddr lists nPages small
    · rw [done]
      exact iff_of_true (stays_inside_ok _) (.inl listed)
    · rw [refused]
      exact iff_of_true (stays_inside_ok _) (.inr (fun ⟨i, member, parent, _⟩ => none ⟨i, member, parent⟩))
    · rw [fault]
      exact iff_of_false (not_inside_overflow _) (not_or.mpr ⟨unlisted, not_not.mpr last⟩)
    · rw [fault]
      exact iff_of_true (stays_inside_null _) (.inr notLast)
  · rw [reserve, align_block_past whereAddr _ (Nat.lt_of_not_le small)]
    exact iff_of_false (not_inside_overflow _) (fun both => small both.1)

end

theorem in_bounds_iff (lists : FreeLists) (request : Request) : request.InBounds lists ↔ request.Indexable lists := by
  cases request with
  | allocate nPages =>
      refine iff_of_true ?_ trivial
      rw [Request.InBounds, allocate_checked]
      exact stays_inside_or_null _
  | free start nPages => exact free_in_bounds_iff lists start nPages
  | reserve whereAddr nPages => exact reserve_in_bounds_iff lists whereAddr nPages
  | isAllocated whereAddr nPages => exact is_allocated_in_bounds_iff lists whereAddr nPages

-- free of 2^18 + 1 pages starts with the order 19.
theorem free_past_the_lists : ¬ (Request.free 0x1000 262145).InBounds (fun _ => []) := by
  have fault : freeChecked 0x1000 262145 (fun _ => []) = .error (.overflow 31) := rfl
  rw [Request.InBounds, fault]
  exact not_inside_overflow 31

end Kraftwerk.Pmem
