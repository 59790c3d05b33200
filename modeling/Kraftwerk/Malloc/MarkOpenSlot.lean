import Kraftwerk.Malloc.KfreeExact
import Mathlib.Data.Nat.Find

set_option autoImplicit false

-- The slot that malloc_mark_open_slot finds, and the bits that it sets.
namespace Kraftwerk.Malloc

structure FirstClear (heap : Heap) (page slot : Nat) : Prop where
  positive : 1 ≤ slot
  inside : slot < slotCount (heap.chunkSize page)
  clear : slotTaken heap page slot = false
  before : ∀ earlier, 1 ≤ earlier → earlier < slot → slotTaken heap page earlier = true

structure MarksFirstClear (heap : Heap) (page : Nat) : Prop where
  found : ∀ slot, FirstClear heap page slot → (mallocMarkOpenSlot heap page).2 = slot ∧
    ∀ other < 256, slotTaken (mallocMarkOpenSlot heap page).1 page other = (slotTaken heap page other || other == slot)
  full : (∀ slot, ¬ FirstClear heap page slot) → (mallocMarkOpenSlot heap page).2 = 0 ∧
    ∀ other < 256, slotTaken (mallocMarkOpenSlot heap page).1 page other = slotTaken heap page other

section
variable (heap : Heap) (page slot : Nat)

theorem first_clear_exists (clear : slotTaken heap page slot = false) (positive : 1 ≤ slot)
    (inside : slot < slotCount (heap.chunkSize page)) : ∃ first, FirstClear heap page first := by
  have some : ∃ first, 1 ≤ first ∧ slotTaken heap page first = false := ⟨slot, positive, clear⟩
  refine ⟨Nat.find some, (Nat.find_spec some).1, ?_, (Nat.find_spec some).2, fun earlier past below => ?_⟩
  · exact Nat.lt_of_le_of_lt (Nat.find_min' some ⟨positive, clear⟩) inside
  · exact Bool.of_not_eq_false (fun other => Nat.find_min some below ⟨past, other⟩)

-- A slot is not found while the slots up to it are taken: the first slot of its word with its mask is one of them.
theorem taken_not_open (taken : ∀ earlier ≤ slot, slotTaken heap page earlier = true) : isOpen heap page slot = false := by
  rw [Bool.eq_false_iff, ne_eq, is_open_iff]
  intro clear
  have same : (slot / 64 * 64 + slot % 32) % 64 = slot % 32 := by omega
  have word : bitmapWord page (slot / 64 * 64 + slot % 32) = bitmapWord page slot := by
    rw [bitmapWord, bitmapWord]
    omega
  have bit := taken (slot / 64 * 64 + slot % 32) (by omega)
  rw [slotTaken, word, same, clear (slot % 32)] at bit
  · cases bit
  · rw [slot_mask_bit slot _ (by omega)]
    split
    · omega
    · rfl

theorem low_slot_open (low : slot % 64 < 31) (clear : slotTaken heap page slot = false) : isOpen heap page slot = true := by
  refine (is_open_iff heap page slot).mpr (fun index masked => ?_)
  by_cases inside : index < 64
  · rw [slot_mask_bit slot index inside, if_neg (by omega)] at masked
    rw [slotTaken] at clear
    rwa [masked, show slot % 32 = slot % 64 by omega]
  · have above : (slotMask slot).testBit index = false :=
      Nat.testBit_lt_two_pow (Nat.lt_of_lt_of_le (slot_mask_fits slot) (Nat.pow_le_pow_right (by decide) (Nat.le_of_not_lt inside)))
    rw [above] at masked
    cases masked

theorem set_low_slot (other : Nat) (low : slot % 64 < 31) :
    slotTaken (setSlot heap page slot) page other = (slotTaken heap page other || other == slot) := by
  rw [slotTaken, slotTaken, setSlot, set_word_word]
  by_cases word : bitmapWord page other = bitmapWord page slot
  · have inWord : other % 64 < 64 := Nat.mod_lt _ (by decide)
    have bit : (slotMask slot).testBit (other % 64) = (other == slot) := by
      rw [Bool.eq_iff_iff, slot_mask_bit slot _ inWord, if_neg (by omega), beq_iff_eq]
      rw [bitmapWord, bitmapWord] at word
      omega
    rw [if_pos word, Nat.testBit_or, bit, word]
  · have different : (other == slot) = false := beq_eq_false_iff_ne.mpr (fun same => word (same ▸ rfl))
    rw [if_neg word, different, Bool.or_false]

theorem first_clear_found (zero : slotTaken heap page 0 = true) (first : FirstClear heap page slot) (low : slot % 64 < 31) :
    openSlot heap page = some slot := by
  have taken : ∀ earlier < slot, slotTaken heap page earlier = true := by
    intro earlier below
    rcases Nat.eq_zero_or_pos earlier with rfl | past
    · exact zero
    · exact first.before earlier past below
  exact (open_slot_eq_some_iff heap page slot).mpr ⟨first.inside, low_slot_open heap page slot low first.clear,
    fun earlier below => taken_not_open heap page earlier (fun other upTo => taken other (Nat.lt_of_le_of_lt upTo below))⟩

theorem full_not_found (zero : slotTaken heap page 0 = true) (none : ∀ slot, ¬ FirstClear heap page slot) :
    mallocMarkOpenSlot heap page = (heap, 0) := by
  have taken : ∀ slot < slotCount (heap.chunkSize page), slotTaken heap page slot = true := by
    intro slot inside
    rcases Nat.eq_zero_or_pos slot with rfl | past
    · exact zero
    · by_contra clear
      obtain ⟨first, isFirst⟩ := first_clear_exists heap page slot (Bool.not_eq_true _ ▸ clear) past inside
      exact none first isFirst
  have closed : openSlot heap page = .none := by
    refine List.find?_eq_none.mpr (fun slot member => ?_)
    have inside := List.mem_range.mp member
    rw [taken_not_open heap page slot (fun earlier upTo => taken earlier (Nat.lt_of_le_of_lt upTo inside))]
    exact Bool.false_ne_true
  rw [mallocMarkOpenSlot, closed]

-- The mask of slot 31 or 63 sets the bit of the next slot as well.
theorem high_slot_not_marked (marks : MarksFirstClear heap page) (first : FirstClear heap page slot) : slot % 64 < 31 := by
  obtain ⟨result, bits⟩ := marks.found slot first
  cases found : openSlot heap page with
  | none =>
      have marked : mallocMarkOpenSlot heap page = (heap, 0) := by rw [mallocMarkOpenSlot, found]
      have positive := first.positive
      rw [marked] at result
      dsimp only at result
      omega
  | some other =>
      rw [mark_open_slot heap page other found] at result bits
      obtain rfl : other = slot := result
      obtain ⟨inside, wasOpen, _⟩ := (open_slot_eq_some_iff heap page other).mp found
      have half := open_slot_low heap page other found
      by_contra high
      have few := slot_count_few (heap.chunkSize page)
      have word : bitmapWord page (other + 1) = bitmapWord page other := by
        rw [bitmapWord, bitmapWord]
        omega
      have masked : (slotMask other).testBit ((other + 1) % 64) = true := by
        rw [slot_mask_bit other _ (by omega), if_pos (by omega)]
        omega
      have was : slotTaken heap page (other + 1) = false := by
        rw [slotTaken, word]
        exact (is_open_iff heap page other).mp wasOpen _ masked
      have now := bits (other + 1) (by omega)
      rw [was, slotTaken, setSlot, set_word_word, if_pos word, Nat.testBit_or, masked, Bool.or_true] at now
      simp at now

end

theorem marks_first_clear_iff (heap : Heap) (page : Nat) (zero : slotTaken heap page 0 = true) :
    MarksFirstClear heap page ↔ ∀ slot, FirstClear heap page slot → slot % 64 < 31 := by
  constructor
  · exact fun marks slot first => high_slot_not_marked heap page slot marks first
  · intro low
    refine ⟨fun slot first => ?_, fun none => ?_⟩
    · rw [mark_open_slot heap page slot (first_clear_found heap page slot zero first (low slot first))]
      exact ⟨rfl, fun other _ => set_low_slot heap page slot other (low slot first)⟩
    · rw [full_not_found heap page zero none]
      exact ⟨rfl, fun _ _ => rfl⟩

theorem third_slot_marked : MarksFirstClear (chunkPageHeap 7 0 0) 4096 := by
  refine (marks_first_clear_iff (chunkPageHeap 7 0 0) 4096 (by decide)).mpr (fun slot first => ?_)
  by_contra high
  have third := first.before 3 (by decide) (by omega)
  exact absurd third (by decide)

-- With the slots 0 to 30 taken, slot 31 is found and the 33 bits from there on are set.
theorem slot_31_marks_word :
    ¬ MarksFirstClear (chunkPageHeap (2 ^ 31 - 1) 0 0) 4096 ∧
      (mallocMarkOpenSlot (chunkPageHeap (2 ^ 31 - 1) 0 0) 4096).1.word 4096 = 2 ^ 64 - 1 := by
  have marked : mallocMarkOpenSlot (chunkPageHeap (2 ^ 31 - 1) 0 0) 4096 = (setSlot (chunkPageHeap (2 ^ 31 - 1) 0 0) 4096 31, 31) :=
    mark_open_slot _ 4096 31 (by decide)
  refine ⟨fun marks => ?_, by rw [marked]; decide⟩
  have first : FirstClear (chunkPageHeap (2 ^ 31 - 1) 0 0) 4096 31 := ⟨by decide, by decide, by decide, by decide⟩
  exact absurd (high_slot_not_marked _ 4096 31 marks first) (by decide)

end Kraftwerk.Malloc
