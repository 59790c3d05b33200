import Kraftwerk.Malloc.Accounting
import Kraftwerk.Lib.WordBits

set_option autoImplicit false

-- Which chunks kfree gives back to the bitmap they were taken from.
namespace Kraftwerk.Malloc

theorem slot_mask_fits (slot : Nat) : slotMask slot < 2 ^ 64 := by
  rw [slotMask]
  split
  · decide
  · have power : 2 ^ (slot % 32) ≤ 2 ^ 31 := Nat.pow_le_pow_right (by decide) (by omega)
    exact Nat.lt_of_le_of_lt power (by decide)

theorem slot_mask_bit (slot index : Nat) (inside : index < 64) :
    (slotMask slot).testBit index = true ↔ if slot % 32 = 31 then 31 ≤ index else index = slot % 32 := by
  rw [slotMask]
  split
  · rw [WordBits.test_bit_upper 64 31 index (by decide)]
    simp [inside]
  · rw [Nat.testBit_two_pow, decide_eq_true_eq]
    exact eq_comm

theorem is_open_iff (heap : Heap) (page slot : Nat) :
    isOpen heap page slot = true ↔
      ∀ index, (slotMask slot).testBit index = true → (heap.word (bitmapWord page slot)).testBit index = false := by
  rw [isOpen, beq_iff_eq, WordBits.and_eq_zero_iff]

section
variable (heap : Heap) (page slot order : Nat)

-- The page and the slot that kfree finds for an allocated chunk.
theorem freed_page_chunk (aligned : page % pageSize = 0) (small : order ≤ 6) (inside : slot < slotCount order) :
    getChunkAddress page slot order / pageSize * pageSize = page := by
  obtain ⟨_, whole⟩ := large_order order (Nat.lt_succ_of_le small)
  have place : slot * chunkBytes order < 4096 := by
    rw [← whole]
    refine Nat.mul_lt_mul_of_pos_right inside ?_
    rw [chunkBytes, Nat.shiftLeft_eq]
    exact Nat.mul_pos (by decide) (Nat.two_pow_pos order)
  rw [chunk_address_eq]
  rw [pageSize] at aligned ⊢
  omega

theorem freed_slot_chunk (aligned : page % pageSize = 0) (size : heap.chunkSize page = order) (small : order ≤ 6) :
    freedSlot heap page (getChunkAddress page slot order) = slot % 2 ^ (6 - order) := by
  rw [freedSlot, size, getChunkAddress, Nat.shiftLeft_eq, Nat.shiftRight_eq_div_pow]
  rw [pageSize] at aligned
  interval_cases order <;> omega

-- For every order the bit is one of the first word of the bitmap.
theorem kfree_first_word (allocation : Nat) (found : allocation / pageSize * pageSize = page) :
    kfree heap allocation =
      (heap.setWord page (heap.word page &&& (2 ^ 64 - 1 - slotMask (freedSlot heap page allocation)))).decrement page := by
  have first := bitmap_word_first page (freedSlot heap page allocation) (freed_slot_small heap allocation page)
  rw [kfree, found, clearSlot, first]
  split
  · rfl
  · rfl

theorem kfree_chunk (aligned : page % pageSize = 0) (size : heap.chunkSize page = order) (small : order ≤ 6)
    (inside : slot < slotCount order) :
    kfree heap (getChunkAddress page slot order) =
      (heap.setWord page (heap.word page &&& (2 ^ 64 - 1 - slotMask (slot % 2 ^ (6 - order))))).decrement page := by
  rw [kfree_first_word heap page _ (freed_page_chunk page slot order aligned small inside),
    freed_slot_chunk heap page slot order aligned size small]

end

-- What kfree is to do: clear the one bit of the slot and count one allocation less.
def giveBack (heap : Heap) (page slot : Nat) : Heap :=
  (heap.setWord (bitmapWord page slot) (heap.word (bitmapWord page slot) &&& (2 ^ 64 - 1 - 2 ^ (slot % 64)))).decrement page

theorem clear_eq_iff (heap : Heap) (page slot freed : Nat) (taken : slotTaken heap page slot = true) :
    (heap.setWord page (heap.word page &&& (2 ^ 64 - 1 - slotMask freed))).decrement page = giveBack heap page slot ↔
      slot < 64 ∧ ∀ index < 64, (heap.word page).testBit index = true → ((slotMask freed).testBit index = true ↔ index = slot) := by
  have fits := slot_mask_fits freed
  have bit : 2 ^ (slot % 64) < 2 ^ 64 := Nat.pow_lt_pow_right (by decide) (Nat.mod_lt _ (by decide))
  rw [slotTaken] at taken
  by_cases first : slot < 64
  · have low : slot % 64 = slot := Nat.mod_eq_of_lt first
    have word := bitmap_word_first page slot first
    rw [word, low] at taken
    rw [giveBack, word, low]
    rw [low] at bit
    constructor
    · intro same
      refine ⟨first, fun index inside set => ?_⟩
      have bits := congrArg (fun later => (later.word page).testBit index) same
      have left := WordBits.test_bit_clear 64 (heap.word page) _ index fits
      have right := WordBits.test_bit_clear 64 (heap.word page) _ index bit
      simp only [Heap.decrement, set_count_word, set_word_word, if_true, left, right, set, inside, decide_true, Bool.true_and,
        Nat.testBit_two_pow] at bits
      rw [Bool.not_inj bits, decide_eq_true_iff]
      exact eq_comm
    · rintro ⟨_, only⟩
      have words : heap.word page &&& (2 ^ 64 - 1 - slotMask freed) = heap.word page &&& (2 ^ 64 - 1 - 2 ^ slot) := by
        apply Nat.eq_of_testBit_eq
        intro index
        rw [WordBits.test_bit_clear 64 _ _ index fits, WordBits.test_bit_clear 64 _ _ index bit, Nat.testBit_two_pow]
        by_cases inside : index < 64
        · cases set : (heap.word page).testBit index with
          | false => rfl
          | true =>
              rw [Bool.eq_iff_iff.mpr ((only index inside set).trans (eq_comm.trans decide_eq_true_iff.symm))]
        · simp [inside]
      rw [words]
  · have other : bitmapWord page slot ≠ page := by
      rw [bitmapWord]
      omega
    refine iff_of_false (fun same => ?_) (fun held => first held.1)
    have bits := congrArg (fun later => (later.word (bitmapWord page slot)).testBit (slot % 64)) same
    have cleared := WordBits.test_bit_clear 64 (heap.word (bitmapWord page slot)) _ (slot % 64) bit
    simp only [giveBack, Heap.decrement, set_count_word, set_word_word, if_neg other, if_true, cleared, taken,
      Nat.testBit_two_pow_self] at bits
    simp at bits

-- The chunk is in the first 1024 bytes of its page, and slot 31 or 63, whose mask is the
-- upper half of the word, is the only one taken there.
def FreesAlone (heap : Heap) (page slot order : Nat) : Prop :=
  (slot < 31 ∧ slot < 2 ^ (6 - order)) ∨
    (order ≤ 1 ∧ (slot = 31 ∨ slot = 63) ∧ ∀ other < 64, 31 ≤ other → slotTaken heap page other = true → other = slot)

theorem first_word_taken (heap : Heap) (page slot : Nat) (first : slot < 64) :
    slotTaken heap page slot = (heap.word page).testBit slot := by
  rw [slotTaken, bitmap_word_first page slot first, Nat.mod_eq_of_lt first]

theorem clears_alone_iff (heap : Heap) (page slot order : Nat) (small : order ≤ 6) (taken : slotTaken heap page slot = true) :
    (slot < 64 ∧ ∀ index < 64, (heap.word page).testBit index = true →
      ((slotMask (slot % 2 ^ (6 - order))).testBit index = true ↔ index = slot)) ↔ FreesAlone heap page slot order := by
  have low : slot % 2 ^ (6 - order) % 32 = 31 → order ≤ 1 := by
    intro top
    by_contra high
    have power : 2 ^ (6 - order) ≤ 2 ^ 4 := Nat.pow_le_pow_right (by decide) (by omega)
    have below := Nat.mod_lt slot (Nat.two_pow_pos (6 - order))
    omega
  have tops : order ≤ 1 → slot < 64 → (slot % 2 ^ (6 - order) % 32 = 31 ↔ slot = 31 ∨ slot = 63) := by
    intro first inside
    interval_cases order
    · omega
    · omega
  constructor
  · rintro ⟨inside, only⟩
    rw [first_word_taken heap page slot inside] at taken
    have hit := (only slot inside taken).mpr rfl
    rw [slot_mask_bit _ slot inside] at hit
    by_cases top : slot % 2 ^ (6 - order) % 32 = 31
    · refine Or.inr ⟨low top, (tops (low top) inside).mp top, fun other below above set => ?_⟩
      rw [first_word_taken heap page other below] at set
      refine (only other below set).mp ?_
      rw [slot_mask_bit _ other below, if_pos top]
      exact above
    · rw [if_neg top] at hit
      have below := Nat.mod_lt slot (Nat.two_pow_pos (6 - order))
      have less := Nat.mod_le slot (2 ^ (6 - order))
      exact Or.inl (by omega)
  · rintro (⟨below, inside⟩ | ⟨first, high, only⟩)
    · rw [Nat.mod_eq_of_lt inside]
      refine ⟨by omega, fun index indexInside _ => ?_⟩
      rw [slot_mask_bit _ index indexInside, Nat.mod_eq_of_lt (Nat.lt_of_lt_of_le below (by decide)), if_neg (by omega)]
    · have inside : slot < 64 := by omega
      refine ⟨inside, fun index indexInside set => ?_⟩
      rw [slot_mask_bit _ index indexInside, if_pos ((tops first inside).mpr high)]
      constructor
      · intro above
        exact only index indexInside above ((first_word_taken heap page index indexInside).trans set)
      · rintro rfl
        omega

theorem kfree_gives_back_iff (heap : Heap) (page slot order : Nat) (aligned : page % pageSize = 0)
    (size : heap.chunkSize page = order) (small : order ≤ 6) (inside : slot < slotCount order)
    (taken : slotTaken heap page slot = true) :
    kfree heap (getChunkAddress page slot order) = giveBack heap page slot ↔ FreesAlone heap page slot order := by
  rw [kfree_chunk heap page slot order aligned size small inside, clear_eq_iff heap page slot _ taken]
  exact clears_alone_iff heap page slot order small taken

theorem slot_mask_own_bit (slot : Nat) (low : slot % 64 < 32) : (slotMask slot).testBit (slot % 64) = true := by
  rw [slot_mask_bit slot _ (by omega)]
  split
  · omega
  · omega

theorem open_slot_clear (heap : Heap) (page slot : Nat) (wasOpen : isOpen heap page slot = true) (low : slot % 64 < 32) :
    slotTaken heap page slot = false :=
  (is_open_iff heap page slot).mp wasOpen (slot % 64) (slot_mask_own_bit slot low)

-- A slot that was open is taken, and kfree does not clear its bit again.
theorem kept_slot (heap later : Heap) (page slot : Nat) (wasOpen : isOpen heap page slot = true) (low : slot % 64 < 32)
    (taken : slotTaken later page slot = true) : later.word ≠ heap.word := by
  intro same
  have clear := open_slot_clear heap page slot wasOpen low
  rw [slotTaken, ← same, ← slotTaken, taken] at clear
  cases clear

theorem set_slot_taken (heap : Heap) (page slot : Nat) (low : slot % 64 < 32) : slotTaken (setSlot heap page slot) page slot = true := by
  rw [slotTaken, setSlot, set_word_word, if_pos rfl, Nat.testBit_or, slot_mask_own_bit slot low, Bool.or_true]

section
variable (heap : Heap) (page order : Nat)

theorem low_slots (small : order ≤ 6) : 2 ^ (6 - order) ≤ slotCount order ∧ 2 ^ (6 - order) ≤ 64 := by
  have all : ∀ order < 7, 2 ^ (6 - order) ≤ slotCount order ∧ 2 ^ (6 - order) ≤ 64 := by decide
  exact all order (Nat.lt_succ_of_le small)

-- The slot that kfree clears is one of the first 2 ^ (6 - order), so the slot taken is among them.
theorem kfree_keeps_slot (slot freed : Nat) (low : slot % 64 < 32) (below : freed < 2 ^ (6 - order)) (small : order ≤ 6)
    (past : 2 ^ (6 - order) ≤ slot) (taken : slotTaken heap page slot = true) :
    slotTaken ((heap.setWord page (heap.word page &&& (2 ^ 64 - 1 - slotMask freed))).decrement page) page slot = true := by
  rw [slotTaken, Heap.decrement, set_count_word, set_word_word]
  by_cases first : slot < 64
  · have word := bitmap_word_first page slot first
    have high : 2 ≤ order := by
      by_contra few
      interval_cases order <;> omega
    have power : 2 ^ (6 - order) ≤ 2 ^ 4 := Nat.pow_le_pow_right (by decide) (by omega)
    have unmasked : (slotMask freed).testBit (slot % 64) = false := by
      rw [Bool.eq_false_iff, ne_eq, slot_mask_bit freed _ (by omega), if_neg (by omega)]
      omega
    rw [slotTaken, word] at taken
    rw [if_pos word, WordBits.test_bit_clear 64 _ _ _ (slot_mask_fits freed), taken, unmasked]
    simp [Nat.mod_lt slot (show 64 > 0 by decide)]
  · rw [if_neg (by rw [bitmapWord]; omega)]
    exact taken

theorem increment_decrement (count : heap.nAllocations page < 2 ^ 16) : (heap.increment page).decrement page = heap := by
  have back : ((heap.nAllocations page + 1) % 2 ^ 16 + (2 ^ 16 - 1)) % 2 ^ 16 = heap.nAllocations page := by omega
  simp only [Heap.decrement, Heap.setCount, Heap.increment, Function.update_self, Function.update_idem, back,
    Function.update_eq_self]

theorem set_word_back (address value : Nat) : (heap.setWord address value).setWord address (heap.word address) = heap := by
  simp only [Heap.setWord, Function.update_idem, Function.update_eq_self]

theorem take_slot_freed_iff (chosenPage : Nat) (aligned : page % pageSize = 0) (size : heap.chunkSize page = order)
    (small : order ≤ 6) (words : heap.word page < 2 ^ 64) (count : heap.nAllocations page < 2 ^ 16)
    (data : heap.pageData chosenPage = page) :
    kfree (takeSlot heap chosenPage order).1 (takeSlot heap chosenPage order).2 = heap ↔
      ∃ slot < 2 ^ (6 - order), isOpen heap page slot = true := by
  obtain ⟨inPage, inWord⟩ := low_slots order small
  have scan : openSlot (heap.increment page) page = openSlot heap page := rfl
  rw [takeSlot, data]
  cases found : openSlot heap page with
  | none =>
      -- No slot is marked, and kfree clears the first of the header's own.
      have closed : ∀ slot < slotCount order, isOpen heap page slot = false := fun slot inside =>
        Bool.eq_false_iff.mpr (List.find?_eq_none.mp found slot (List.mem_range.mpr (size ▸ inside)))
      have positive := Nat.two_pow_pos (6 - order)
      refine iff_of_false (fun same => ?_) ?_
      · have marked : mallocMarkOpenSlot (heap.increment page) page = (heap.increment page, 0) := by
          rw [mallocMarkOpenSlot, scan, found]
        rw [marked, kfree_chunk (heap.increment page) page 0 order aligned size small (by omega)] at same
        have cleared := congrArg (fun later => isOpen later page 0) same
        have first := closed 0 (by omega)
        have mask : slotMask (0 % 2 ^ (6 - order)) = slotMask 0 := by rw [Nat.zero_mod]
        simp only [mask, isOpen, bitmapWord, Heap.decrement, set_count_word, set_word_word, Nat.zero_div, Nat.mul_zero,
          Nat.add_zero, if_true, Nat.and_assoc, show (2 ^ 64 - 1 - slotMask 0) &&& slotMask 0 = 0 from rfl, Nat.and_zero] at cleared
        rw [isOpen, bitmapWord, Nat.zero_div, Nat.mul_zero, Nat.add_zero, ← cleared] at first
        cases first
      · rintro ⟨slot, below, isOpenSlot⟩
        rw [closed slot (by omega)] at isOpenSlot
        cases isOpenSlot
  | some slot =>
      obtain ⟨inside, wasOpen, first⟩ := (open_slot_eq_some_iff heap page slot).mp found
      have low := open_slot_low heap page slot found
      rw [size] at inside
      rw [mark_open_slot (heap.increment page) page slot (scan.trans found)]
      dsimp only
      rw [kfree_chunk (setSlot (heap.increment page) page slot) page slot order aligned size small inside]
      by_cases near : slot < 2 ^ (6 - order)
      · refine iff_of_true ?_ ⟨slot, near, wasOpen⟩
        have word := bitmap_word_first page slot (Nat.lt_of_lt_of_le near inWord)
        have apart : heap.word page &&& slotMask slot = 0 := by
          rw [isOpen, word, beq_iff_eq] at wasOpen
          exact wasOpen
        have restored : ((heap.increment page).word page ||| slotMask slot) &&& (2 ^ 64 - 1 - slotMask slot) =
            (heap.increment page).word page := WordBits.or_clear 64 _ _ apart words (slot_mask_fits slot)
        rw [Nat.mod_eq_of_lt near, setSlot, word, set_word_word, if_pos rfl, restored, set_word_back]
        exact increment_decrement heap page count
      · refine iff_of_false (fun same => ?_) ?_
        · have taken := kfree_keeps_slot (setSlot (heap.increment page) page slot) page order slot (slot % 2 ^ (6 - order)) low
            (Nat.mod_lt _ (Nat.two_pow_pos _)) small (Nat.le_of_not_lt near) (set_slot_taken _ page slot low)
          exact kept_slot heap _ page slot wasOpen low taken (congrArg Heap.word same)
        · rintro ⟨other, below, isOpenOther⟩
          rw [first other (by omega)] at isOpenOther
          cases isOpenOther

theorem direct_slot_differs (slot : Nat) (aligned : page % pageSize = 0) (size : heap.chunkSize page = order)
    (small : order ≤ 6) (positive : slot ≠ 0)
    (here : (page + 48 * slot <<< (order + 4)) / pageSize * pageSize = page) :
    slot < 31 ∧ freedSlot heap page (page + 48 * slot <<< (order + 4)) % 32 < 31 ∧
      freedSlot heap page (page + 48 * slot <<< (order + 4)) % 32 ≠ slot := by
  rw [freedSlot, size, Nat.shiftRight_eq_div_pow]
  rw [Nat.shiftLeft_eq] at here ⊢
  rw [pageSize] at aligned here
  interval_cases order
  all_goals
    have near : slot ≤ 5 := by omega
    interval_cases slot <;> omega

-- A chunk of malloc_direct_alloc is 48 times as far into the page as its slot, and kfree
-- never comes back to that slot.
theorem direct_alloc_not_freed (aligned : page % pageSize = 0) (size : heap.chunkSize page = order) (small : order ≤ 6)
    (served : (mallocDirectAlloc heap page).2 ≠ 0) :
    kfree (mallocDirectAlloc heap page).1 (mallocDirectAlloc heap page).2 ≠ heap := by
  rw [mallocDirectAlloc] at served ⊢
  cases found : openSlot heap page with
  | none =>
      have marked : mallocMarkOpenSlot heap page = (heap, 0) := by rw [mallocMarkOpenSlot, found]
      rw [marked] at served
      exact absurd rfl served
  | some slot =>
      obtain ⟨inside, wasOpen, _⟩ := (open_slot_eq_some_iff heap page slot).mp found
      have low := open_slot_low heap page slot found
      rw [mark_open_slot heap page slot found] at served ⊢
      dsimp only at served ⊢
      by_cases first : slot = 0
      · rw [if_pos first] at served
        exact absurd rfl served
      have few := large_order order (Nat.lt_succ_of_le small)
      have taken := set_slot_taken heap page slot low
      rw [if_neg first, size]
      intro same
      refine kept_slot heap _ page slot wasOpen low ?_ (congrArg Heap.word same)
      rw [kfree_first_word _ _ _ rfl, Heap.decrement, slotTaken, set_count_word, set_word_word]
      by_cases here : bitmapWord page slot = (page + 48 * slot <<< (order + 4)) / pageSize * pageSize
      · have word : bitmapWord page slot = page := by
          rw [size] at inside
          rw [pageSize] at aligned here
          rw [bitmapWord] at here ⊢
          omega
        rw [word] at here
        obtain ⟨slotLow, freedLow, differs⟩ := direct_slot_differs ((setSlot heap page slot).increment page) page order slot
          aligned size small first here.symm
        have slotIs : slot % 64 = slot := Nat.mod_eq_of_lt (by omega)
        have unmasked : (slotMask (freedSlot ((setSlot heap page slot).increment page) page
            (page + 48 * slot <<< (order + 4)))).testBit slot = false := by
          rw [Bool.eq_false_iff, ne_eq, slot_mask_bit _ _ (by omega), if_neg (by omega)]
          exact fun same => differs same.symm
        rw [slotTaken, word, slotIs] at taken
        rw [if_pos (word.trans here), ← here, slotIs, WordBits.test_bit_clear 64 _ _ _ (slot_mask_fits _), unmasked,
          Bool.not_false, Bool.and_true, decide_eq_true (by omega), Bool.and_true]
        exact taken
      · rw [if_neg here]
        exact taken

-- kfree alone, after a kmalloc from the lists, and after one from the emergency store.
theorem kfree_undoes_kmalloc_iff (aligned : page % pageSize = 0) (size : heap.chunkSize page = order) (small : order ≤ 6)
    (words : heap.word page < 2 ^ 64) (count : heap.nAllocations page < 2 ^ 16) :
    (∀ slot, reservedSlots order ≤ slot → slot < slotCount order → slotTaken heap page slot = true →
      (kfree heap (getChunkAddress page slot order) = giveBack heap page slot ↔ FreesAlone heap page slot order)) ∧
    (∀ kern bytes flags chosenPage, bytes ≤ 1024 → orderOf bytes = order → chosenPage ≠ 0 → heap.pageData chosenPage = page →
      firstPage heap (hasRoom order) addressCount (heap.mallocPages order) = some chosenPage →
      ((kmalloc kern heap bytes flags).map (fun served => kfree served.1 served.2) = some heap ↔
        ∃ slot < 2 ^ (6 - order), isOpen heap page slot = true)) ∧
    ((mallocDirectAlloc heap page).2 ≠ 0 → kfree (mallocDirectAlloc heap page).1 (mallocDirectAlloc heap page).2 ≠ heap) := by
  refine ⟨fun slot _ inside taken => ?_, fun kern bytes flags chosenPage few sameOrder linked data walk => ?_, fun served => ?_⟩
  · exact kfree_gives_back_iff heap page slot order aligned size small inside taken
  · subst sameOrder
    rw [kmalloc_takes kern heap bytes flags chosenPage few linked walk, Option.map_some, Option.some.injEq]
    exact take_slot_freed_iff heap page _ chosenPage aligned size small words count data
  · exact direct_alloc_not_freed heap page order aligned size small served

end

-- A page of 16-byte chunks at 4096 with some of its slots taken, and its descriptor at 8192.
def chunkPageHeap (first second count : Nat) : Heap :=
  ⟨fun address => if address = 4096 then first else if address = 4104 then second else if address = 8192 then 4096 else 0,
    fun _ => 0, fun _ => count, fun _ => 8192, 0, [], [4096], [], [8192], []⟩

theorem kfree_undoes_slot_five :
    kfree (chunkPageHeap 39 0 1) (getChunkAddress 4096 5 0) = giveBack (chunkPageHeap 39 0 1) 4096 5 ∧
      (kmalloc (fun _ _ => 0) (chunkPageHeap 39 0 1) 16 0).map (fun served => kfree served.1 served.2) =
        some (chunkPageHeap 39 0 1) := by
  obtain ⟨freed, served, _⟩ := kfree_undoes_kmalloc_iff (chunkPageHeap 39 0 1) 4096 0 (by decide) rfl (by decide) (by decide)
    (by decide)
  have walk : firstPage (chunkPageHeap 39 0 1) (hasRoom 0) addressCount 8192 = some 8192 :=
    first_page_head _ _ _ (by decide) (by decide)
  exact ⟨(freed 5 (by decide) (by decide) (by decide)).mpr (Or.inl (by decide)),
    (served (fun _ _ => 0) 16 0 8192 (by decide) (by decide) (by decide) (by decide) walk).mpr ⟨3, by decide, by decide⟩⟩

-- With the first 64 slots and slot 64 taken, kfree of the last one clears the first header bit.
theorem kfree_clears_header :
    slotTaken (chunkPageHeap (2 ^ 64 - 1) 1 30) 4096 64 = true ∧
      kfree (chunkPageHeap (2 ^ 64 - 1) 1 30) (getChunkAddress 4096 64 0) ≠ giveBack (chunkPageHeap (2 ^ 64 - 1) 1 30) 4096 64 ∧
      slotTaken (kfree (chunkPageHeap (2 ^ 64 - 1) 1 30) (getChunkAddress 4096 64 0)) 4096 0 = false := by
  refine ⟨by decide, fun same => ?_, by decide⟩
  exact absurd (congrArg (fun heap => heap.word 4104) same) (by decide)

end Kraftwerk.Malloc
