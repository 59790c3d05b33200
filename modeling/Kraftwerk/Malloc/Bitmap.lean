import Kraftwerk.Malloc.Heap
import Mathlib.Data.List.Find

set_option autoImplicit false

-- The slot bitmap of a page header. Two slots of a page share a bit when they are in one
-- word and 32 slots apart, so only the slots whose number is below 32 modulo 64 are found.
namespace Kraftwerk.Malloc

theorem bitmap_word_first (page slot : Nat) (first : slot < 64) : bitmapWord page slot = page := by
  rw [bitmapWord]
  omega

theorem slot_count_few (order : Nat) : slotCount order ≤ 256 := by
  rw [slotCount, Nat.shiftRight_eq_div_pow]
  have power : 2 ^ 4 ≤ 2 ^ (order + 4) := Nat.pow_le_pow_right (by decide) (Nat.le_add_left 4 order)
  exact Nat.le_trans (Nat.div_le_div_left power (by decide)) (by decide)

theorem slot_mask_ne_zero (slot : Nat) : slotMask slot ≠ 0 := by
  have nonzero : ∀ low < 32, slotMask low ≠ 0 := by decide
  have below : slot % 32 < 32 := Nat.mod_lt _ (by decide)
  have same : slotMask slot = slotMask (slot % 32) := by rw [slotMask, slotMask, Nat.mod_mod]
  exact same ▸ nonzero (slot % 32) below

-- Clearing a slot keeps the bits of a slot with another number modulo 32.
theorem slot_mask_disjoint (slot other : Nat) (different : slot % 32 ≠ other % 32) :
    (2 ^ 64 - 1 - slotMask slot) &&& slotMask other = slotMask other := by
  have apart : ∀ low < 32, ∀ high < 32, low ≠ high → (2 ^ 64 - 1 - slotMask low) &&& slotMask high = slotMask high := by
    decide
  have lower : ∀ slot, slotMask slot = slotMask (slot % 32) := fun slot => by rw [slotMask, slotMask, Nat.mod_mod]
  rw [lower slot, lower other]
  exact apart (slot % 32) (Nat.mod_lt _ (by decide)) (other % 32) (Nat.mod_lt _ (by decide)) different

theorem is_open_congr (heap other : Heap) (page slot : Nat)
    (same : heap.word (bitmapWord page slot) = other.word (bitmapWord page slot)) :
    isOpen heap page slot = isOpen other page slot := by
  rw [isOpen, isOpen, same]

theorem is_open_set_word (heap : Heap) (page slot address value : Nat) (apart : bitmapWord page slot ≠ address) :
    isOpen (heap.setWord address value) page slot = isOpen heap page slot :=
  is_open_congr _ _ page slot (Function.update_of_ne apart _ _)

theorem set_slot_closes (heap : Heap) (page slot : Nat) : isOpen (setSlot heap page slot) page slot = false := by
  have nonzero := slot_mask_ne_zero slot
  have word : (setSlot heap page slot).word (bitmapWord page slot) =
      heap.word (bitmapWord page slot) ||| slotMask slot := Function.update_self _ _ _
  rw [isOpen, word, beq_eq_false_iff_ne, Nat.and_comm, Nat.and_or_distrib_left, Nat.and_self]
  exact fun zero => nonzero (Nat.or_eq_zero_iff.mp zero).2

theorem set_slot_keeps (heap : Heap) (page slot other : Nat) (closed : isOpen heap page other = false) :
    isOpen (setSlot heap page slot) page other = false := by
  by_cases same : bitmapWord page other = bitmapWord page slot
  · have word : (setSlot heap page slot).word (bitmapWord page other) =
        heap.word (bitmapWord page other) ||| slotMask slot := by
      rw [same]
      exact Function.update_self _ _ _
    rw [isOpen, beq_eq_false_iff_ne] at closed ⊢
    rw [word, Nat.and_comm, Nat.and_or_distrib_left, Nat.and_comm]
    exact fun zero => closed (Nat.or_eq_zero_iff.mp zero).1
  · rw [setSlot, is_open_set_word heap page other _ _ same]
    exact closed

theorem clear_slot_keeps (heap : Heap) (page slot other : Nat) (closed : isOpen heap page other = false)
    (different : slot / 64 ≠ other / 64 ∨ slot % 32 ≠ other % 32) :
    isOpen (clearSlot heap page slot) page other = false := by
  by_cases same : bitmapWord page other = bitmapWord page slot
  · have word : (clearSlot heap page slot).word (bitmapWord page other) =
        heap.word (bitmapWord page other) &&& (2 ^ 64 - 1 - slotMask slot) := by
      rw [same]
      exact Function.update_self _ _ _
    have apart : slot % 32 ≠ other % 32 := by
      rw [bitmapWord, bitmapWord] at same
      omega
    rw [isOpen, word, Nat.and_assoc, slot_mask_disjoint slot other apart]
    exact closed
  · rw [clearSlot, is_open_set_word heap page other _ _ same]
    exact closed

theorem open_slot_eq_some_iff (heap : Heap) (page slot : Nat) :
    openSlot heap page = some slot ↔
      slot < slotCount (heap.chunkSize page) ∧ isOpen heap page slot = true ∧ ∀ other < slot, isOpen heap page other = false := by
  rw [openSlot, List.find?_range_eq_some]
  simp only [List.mem_range, Bool.not_eq_true']
  exact and_left_comm

theorem open_slot_congr (heap later : Heap) (page : Nat) (sizes : later.chunkSize page = heap.chunkSize page)
    (few : slotCount (heap.chunkSize page) ≤ 256)
    (words : ∀ word < 4, later.word (page + 8 * word) = heap.word (page + 8 * word)) :
    openSlot later page = openSlot heap page := by
  rw [openSlot, openSlot, sizes]
  refine List.find?_congr (fun slot member => is_open_congr later heap page slot (words (slot / 64) ?_))
  have below := List.mem_range.mp member
  omega

theorem mark_open_slot (heap : Heap) (page slot : Nat) (found : openSlot heap page = some slot) :
    mallocMarkOpenSlot heap page = (setSlot heap page slot, slot) := by
  rw [mallocMarkOpenSlot, found]

-- The scan never stops at a slot in the upper half of a word: the slot 32 before it has the same bit.
theorem open_slot_low (heap : Heap) (page slot : Nat) (found : openSlot heap page = some slot) : slot % 64 < 32 := by
  obtain ⟨_, isOpenSlot, first⟩ := (open_slot_eq_some_iff heap page slot).mp found
  by_contra high
  have before := first (slot - 32) (by omega)
  have word : bitmapWord page (slot - 32) = bitmapWord page slot := by
    rw [bitmapWord, bitmapWord]
    omega
  have mask : slotMask (slot - 32) = slotMask slot := by
    rw [slotMask, slotMask, show (slot - 32) % 32 = slot % 32 by omega]
  rw [isOpen, word, mask, ← isOpen, isOpenSlot] at before
  cases before

end Kraftwerk.Malloc
