import Kraftwerk.Malloc.Bitmap
import Mathlib.Tactic.IntervalCases

set_option autoImplicit false

-- The state that malloc_init builds.
namespace Kraftwerk.Malloc

-- The slot of an order-0 page that is taken after so many others.
def initSlot (taken : Nat) : Nat := if taken < 29 then taken + 3 else taken + 35

def initDescriptor (base index : Nat) : Nat := base + 768 * initSlot index

def emergDescriptor (base index : Nat) : Nat := initPage base 30 + 768 * initSlot index

def bitmapAfter (taken word : Nat) : Nat :=
  if word = 0 then (if taken < 29 then 2 ^ (taken + 3) - 1 else 2 ^ 64 - 1)
  else if word = 1 then 2 ^ (taken - 29) - 1
  else 0

structure Taken (heap : Heap) (page taken : Nat) : Prop where
  order : heap.chunkSize page = 0
  words : ∀ word < 4, heap.word (page + 8 * word) = bitmapAfter taken word

theorem bitmap_scan (taken : Nat) (few : taken < 34) :
    (List.range 256).find? (fun slot => bitmapAfter taken (slot / 64) &&& slotMask slot == 0) = some (initSlot taken) ∧
      ∀ word < 4, bitmapAfter (taken + 1) word =
        if word = initSlot taken / 64 then bitmapAfter taken word ||| slotMask (initSlot taken) else bitmapAfter taken word := by
  have all : ∀ taken < 34,
      (List.range 256).find? (fun slot => bitmapAfter taken (slot / 64) &&& slotMask slot == 0) = some (initSlot taken) ∧
      ∀ word < 4, bitmapAfter (taken + 1) word =
        if word = initSlot taken / 64 then bitmapAfter taken word ||| slotMask (initSlot taken) else bitmapAfter taken word := by
    decide +kernel
  exact all taken few

theorem init_slot_positive (taken : Nat) : 0 < initSlot taken := by
  rw [initSlot]
  split <;> omega

theorem open_slot_taken (heap : Heap) (page taken : Nat) (few : taken < 34) (bitmap : Taken heap page taken) :
    openSlot heap page = some (initSlot taken) := by
  rw [openSlot, bitmap.order, ← (bitmap_scan taken few).1]
  refine List.find?_congr (fun slot member => ?_)
  have small : slot < 256 := List.mem_range.mp member
  rw [isOpen, bitmapWord, bitmap.words (slot / 64) (by omega)]

theorem taken_set_slot (heap : Heap) (page taken : Nat) (few : taken < 34) (bitmap : Taken heap page taken) :
    Taken (setSlot heap page (initSlot taken)) page (taken + 1) := by
  refine ⟨bitmap.order, fun word small => ?_⟩
  have position : initSlot taken / 64 < 4 := by
    rw [initSlot]
    split <;> omega
  rw [(bitmap_scan taken few).2 word small]
  by_cases same : word = initSlot taken / 64
  · rw [if_pos same, ← bitmap.words word small, same]
    exact Function.update_self _ _ _
  · rw [if_neg same, ← bitmap.words word small]
    refine Function.update_of_ne ?_ _ _
    rw [bitmapWord]
    omega

structure Drawn (heap : Heap) (page taken : Nat) (later : Heap) : Prop where
  bitmap : Taken later page (taken + 1)
  word : ∀ address, address < page ∨ page + 32 ≤ address → later.word address = heap.word address
  chunkSize : later.chunkSize = heap.chunkSize
  nAllocations : later.nAllocations = Function.update heap.nAllocations page ((heap.nAllocations page + 1) % 2 ^ 16)
  mallocPages : later.mallocPages = heap.mallocPages
  emergPages : later.emergPages = heap.emergPages
  mapped : later.mapped = heap.mapped
  pages : later.pages = heap.pages
  direct : later.direct = (page + 768 * initSlot taken) :: heap.direct
  descriptors : later.descriptors = heap.descriptors
  nodes : later.nodes = heap.nodes

theorem direct_descriptor_drawn (heap : Heap) (page taken : Nat) (few : taken < 34) (bitmap : Taken heap page taken) :
    ∃ later, directDescriptor heap page = (later, page + 768 * initSlot taken) ∧ Drawn heap page taken later := by
  have address : page + 48 * (initSlot taken <<< (heap.chunkSize page + 4)) = page + 768 * initSlot taken := by
    rw [bitmap.order, Nat.shiftLeft_eq]
    omega
  rw [directDescriptor, mallocDirectAlloc, mark_open_slot heap page _ (open_slot_taken heap page taken few bitmap)]
  dsimp only
  rw [if_neg (init_slot_positive taken).ne', address]
  have marked := taken_set_slot heap page taken few bitmap
  refine ⟨_, rfl, ⟨marked.order, marked.words⟩, fun other outside => ?_, rfl, rfl, rfl, rfl, rfl, rfl, rfl, rfl, rfl⟩
  refine Function.update_of_ne ?_ _ _
  have position : initSlot taken / 64 < 4 := by
    rw [initSlot]
    split <;> omega
  rw [bitmapWord]
  omega

theorem init_descriptor_cases (base index : Nat) :
    (index < 29 ∧ initDescriptor base index = base + 768 * (index + 3)) ∨
      (29 ≤ index ∧ initDescriptor base index = base + 768 * (index + 35)) := by
  by_cases low : index < 29
  · exact Or.inl ⟨low, by rw [initDescriptor, initSlot, if_pos low]⟩
  · exact Or.inr ⟨Nat.le_of_not_lt low, by rw [initDescriptor, initSlot, if_neg low]⟩

-- The first loop of malloc_init, with so many descriptors taken, headers prepared and
-- descriptors linked. The descriptors lie all over the first 13 pages, headers included.
structure Linked (base taken prepared linked : Nat) (heap : Heap) : Prop where
  bitmap : Taken heap base taken
  zeroCount : heap.nAllocations base = taken
  data : ∀ j < prepared, heap.pageData (initDescriptor base j) = initPage base j
  next : ∀ j < linked, heap.next (initDescriptor base j) = if j < 2 then 0 else initDescriptor base (j - 2)
  orders : ∀ j < prepared, j ≠ 0 → heap.chunkSize (initPage base j) = if j % 2 = 1 ∧ j ≠ 1 then 1 else 0
  counts : ∀ j < prepared, j ≠ 0 → heap.nAllocations (initPage base j) = 0
  headers : ∀ j < prepared, 13 ≤ j → ∀ word < 4,
    heap.word (initPage base j + 8 * word) = if word = 0 then reservedBits (j % 2) else 0
  blank : ∀ address, base + 53248 ≤ address → initPage base prepared ≤ address → address < base + 262144 →
    heap.word address = 0
  direct : ∀ descriptor ∈ heap.direct, ∃ j < taken, descriptor = initDescriptor base j
  pages : ∀ page ∈ heap.pages, page = base ∨ ∃ j < prepared, page = initPage base j
  idle : heap.mallocPages = (fun _ => 0) ∧ heap.mapped = [] ∧ heap.descriptors = [] ∧ heap.nodes = []

section
variable (base taken prepared linked : Nat) (heap : Heap)

theorem linked_take (few : taken < 32) (before : Linked base taken prepared linked heap) :
    ∃ later, directDescriptor heap base = (later, initDescriptor base taken) ∧
      Linked base (taken + 1) prepared linked later := by
  obtain ⟨later, alloc, drawn⟩ := direct_descriptor_drawn heap base taken (by omega) before.bitmap
  have frame : ∀ address, base + 32 ≤ address → later.word address = heap.word address := fun address above =>
    drawn.word address (Or.inr above)
  have other : ∀ j, j ≠ 0 → base < initPage base j := fun j positive => by
    rw [initPage, pageSize]
    omega
  refine ⟨later, alloc, drawn.bitmap, ?_, fun j small => ?_, fun j small => ?_, fun j small positive => ?_,
    fun j small positive => ?_, fun j small late word inside => ?_, fun address above beyond below => ?_,
    fun descriptor member => ?_, fun page member => ?_, ?_⟩
  · rw [drawn.nAllocations, Function.update_self, before.zeroCount]
    omega
  · have place := init_descriptor_cases base j
    exact (frame _ (by omega)).trans (before.data j small)
  · have place := init_descriptor_cases base j
    exact (frame _ (by omega)).trans (before.next j small)
  · rw [drawn.chunkSize]
    exact before.orders j small positive
  · rw [drawn.nAllocations, Function.update_of_ne (other j positive).ne']
    exact before.counts j small positive
  · have page := before.headers j small late word inside
    rw [initPage, pageSize] at page ⊢
    exact (frame _ (by omega)).trans page
  · exact (frame _ (by omega)).trans (before.blank address above beyond below)
  · rw [drawn.direct] at member
    rcases List.mem_cons.mp member with rfl | member
    · exact ⟨taken, Nat.lt_succ_self taken, rfl⟩
    · obtain ⟨j, small, same⟩ := before.direct descriptor member
      exact ⟨j, Nat.lt_succ_of_lt small, same⟩
  · exact before.pages page (drawn.pages ▸ member)
  · obtain ⟨lists, mapped, descriptors, nodes⟩ := before.idle
    exact ⟨drawn.mallocPages.trans lists, drawn.mapped.trans mapped, drawn.descriptors.trans descriptors,
      drawn.nodes.trans nodes⟩

theorem linked_prepare (order : Nat) (few : prepared < 32) (some : 1 ≤ prepared)
    (orderIs : order = if prepared % 2 = 1 ∧ prepared ≠ 1 then 1 else 0) (before : Linked base taken prepared linked heap) :
    Linked base taken (prepared + 1) linked
      (initHeader heap (initDescriptor base prepared) (initPage base prepared) order) := by
  have place := init_descriptor_cases base prepared
  have page : initPage base prepared = base + 4096 * prepared := rfl
  have frame : ∀ address, address ≠ initDescriptor base prepared → address ≠ initPage base prepared →
      (initHeader heap (initDescriptor base prepared) (initPage base prepared) order).word address = heap.word address := by
    intro address notDescriptor notPage
    rw [initHeader, prepare_pghdr_word, if_neg notPage, Heap.setPageData, set_word_word, if_neg notDescriptor]
  have other : ∀ j < prepared, initPage base j ≠ initPage base prepared := fun j small => by
    rw [initPage, page, pageSize]
    omega
  have sizes : ∀ j < prepared + 1, j = prepared ∨ j < prepared := fun j small => by omega
  refine ⟨⟨?_, fun word small => ?_⟩, ?_, fun j small => ?_, fun j small => ?_, fun j small positive => ?_,
    fun j small positive => ?_, fun j small late word inside => ?_, fun address above beyond below => ?_, before.direct,
    fun header member => ?_, before.idle⟩
  · refine (Function.update_of_ne (by omega) _ _).trans before.bitmap.order
  · exact (frame _ (by omega) (by omega)).trans (before.bitmap.words word small)
  · exact (Function.update_of_ne (by omega) _ _).trans before.zeroCount
  · rcases sizes j small with rfl | earlier
    · rw [Heap.pageData, initHeader, prepare_pghdr_word, if_neg (by omega), Heap.setPageData, set_word_word, if_pos rfl]
    · have atJ := init_descriptor_cases base j
      exact (frame _ (by omega) (by omega)).trans (before.data j earlier)
  · have atJ := init_descriptor_cases base j
    exact (frame _ (by omega) (by omega)).trans (before.next j small)
  · rcases sizes j small with rfl | earlier
    · exact (Function.update_self _ _ _).trans orderIs
    · exact (Function.update_of_ne (other j earlier) _ _).trans (before.orders j earlier positive)
  · rcases sizes j small with rfl | earlier
    · exact Function.update_self _ _ _
    · exact (Function.update_of_ne (other j earlier) _ _).trans (before.counts j earlier positive)
  · rcases sizes j small with rfl | earlier
    · have blank := before.blank (initPage base j + 8 * word) (by omega) (by omega) (by omega)
      by_cases first : word = 0
      · subst first
        rw [Nat.mul_zero, Nat.add_zero] at blank ⊢
        rw [initHeader, prepare_pghdr_word, if_pos rfl, Heap.setPageData, set_word_word, if_neg (by omega), blank, Nat.zero_or,
          if_pos rfl, orderIs]
        split <;> congr 1 <;> omega
      · rw [frame _ (by omega) (by omega), blank, if_neg first]
    · have atJ : initPage base j = base + 4096 * j := rfl
      exact (frame _ (by omega) (by omega)).trans (before.headers j earlier late word inside)
  · have next : initPage base (prepared + 1) = base + 4096 * (prepared + 1) := rfl
    exact (frame _ (by omega) (by omega)).trans (before.blank address above (by omega) below)
  · rcases List.mem_cons.mp member with rfl | member
    · exact Or.inr ⟨prepared, Nat.lt_succ_self prepared, rfl⟩
    · rcases before.pages header member with first | ⟨j, small, same⟩
      · exact Or.inl first
      · exact Or.inr ⟨j, Nat.lt_succ_of_lt small, same⟩

theorem linked_link (few : linked < 32) (some : 2 ≤ linked) (before : Linked base taken prepared linked heap) :
    Linked base taken prepared (linked + 1)
      (heap.setNext (initDescriptor base linked) (initDescriptor base (linked - 2))) := by
  have place := init_descriptor_cases base linked
  have frame : ∀ address, address ≠ initDescriptor base linked + 8 →
      (heap.setNext (initDescriptor base linked) (initDescriptor base (linked - 2))).word address = heap.word address :=
    fun address different => Function.update_of_ne different _ _
  refine ⟨⟨before.bitmap.order, fun word small => ?_⟩, before.zeroCount, fun j small => ?_, fun j small => ?_, before.orders,
    before.counts, fun j small late word inside => ?_, fun address above beyond below => ?_, before.direct, before.pages, before.idle⟩
  · exact (frame _ (by omega)).trans (before.bitmap.words word small)
  · have atJ := init_descriptor_cases base j
    exact (frame _ (by omega)).trans (before.data j small)
  · by_cases last : j = linked
    · rw [last, if_neg (by omega)]
      exact Function.update_self _ _ _
    · have atJ := init_descriptor_cases base j
      exact (frame _ (by omega)).trans (before.next j (by omega))
  · have atJ : initPage base j = base + 4096 * j := rfl
    exact (frame _ (by omega)).trans (before.headers j small late word inside)
  · exact (frame _ (by omega)).trans (before.blank address above beyond below)

end

theorem init_pair_linked (base : Nat) (heap : Heap) (count : Nat) (few : count < 31) (even : count % 2 = 0)
    (atLeast : 2 ≤ count) (before : Linked base count count count heap) :
    ∃ later, Linked base (count + 2) (count + 2) (count + 2) later ∧
      initPair base (initDescriptor base 0) (heap, initDescriptor base (count - 2), initDescriptor base (count - 1)) count =
        (later, initDescriptor base count, initDescriptor base (count + 1)) := by
  obtain ⟨one, allocOne, first⟩ := linked_take base count count count heap (by omega) before
  obtain ⟨two, allocTwo, second⟩ := linked_take base (count + 1) count count one (by omega) first
  have zero := linked_prepare base (count + 2) count count two 0 (by omega) (by omega) (by rw [if_neg (by omega)]) second
  have both := linked_prepare base (count + 2) (count + 1) count _ 1 (by omega) (by omega) (by rw [if_pos (by omega)]) zero
  have third := linked_link base (count + 2) (count + 2) count _ (by omega) atLeast both
  have fourth := linked_link base (count + 2) (count + 2) (count + 1) _ (by omega) (by omega) third
  refine ⟨_, fourth, ?_⟩
  have dataBefore := before.data 0 (by omega)
  have dataOne := first.data 0 (by omega)
  rw [initPage, Nat.mul_zero, Nat.add_zero] at dataBefore dataOne
  rw [initPair]
  dsimp only
  rw [dataBefore, allocOne]
  dsimp only
  rw [dataOne, allocTwo]
  rfl

-- The header of the first page, before any descriptor is taken from it.
theorem first_header_linked (base : Nat) (word chunkSize nAllocations : Nat → Nat) :
    Linked base 0 0 2 (mallocPreparePghdr (boot base word chunkSize nAllocations) base 0) := by
  have blank : ∀ address, base ≤ address → address < base + 262144 →
      (boot base word chunkSize nAllocations).word address = 0 := fun address above below => if_pos ⟨above, below⟩
  refine ⟨⟨Function.update_self _ _ _, fun index small => ?_⟩, Function.update_self _ _ _, fun j small => absurd small j.not_lt_zero,
    fun j small => ?_, fun j small => absurd small j.not_lt_zero, fun j small => absurd small j.not_lt_zero,
    fun j small => absurd small j.not_lt_zero, fun address above _ below => ?_, List.forall_mem_nil _,
    fun page member => Or.inl (List.mem_singleton.mp member), ⟨rfl, rfl, rfl, rfl⟩⟩
  · rw [prepare_pghdr_word]
    by_cases first : index = 0
    · subst first
      rw [Nat.mul_zero, Nat.add_zero, if_pos rfl, blank base (by omega) (by omega)]
      rfl
    · rw [if_neg (by omega), blank _ (by omega) (by omega), bitmapAfter, if_neg first]
      split <;> rfl
  · have atJ := init_descriptor_cases base j
    rw [if_pos small, Heap.next, prepare_pghdr_word, if_neg (by omega)]
    exact blank _ (by omega) (by omega)
  · rw [prepare_pghdr_word, if_neg (by omega)]
    exact blank address (by omega) below

-- The first descriptor is that of the page it lies on.
theorem first_descriptor_linked (base : Nat) (heap : Heap) (before : Linked base 2 0 2 heap) :
    Linked base 2 1 2 ((heap.setPageData (initDescriptor base 0) base).setCount base 2) := by
  have place : initDescriptor base 0 = base + 2304 := rfl
  have frame : ∀ address, address ≠ initDescriptor base 0 →
      ((heap.setPageData (initDescriptor base 0) base).setCount base 2).word address = heap.word address :=
    fun address different => Function.update_of_ne different _ _
  refine ⟨⟨before.bitmap.order, fun word small => ?_⟩, Function.update_self _ _ _, fun j small => ?_, fun j small => ?_,
    fun j small positive => ?_, fun j small positive => ?_, fun j small late => ?_, fun address above beyond below => ?_,
    before.direct, fun page member => ?_, before.idle⟩
  · exact (frame _ (by omega)).trans (before.bitmap.words word small)
  · obtain rfl : j = 0 := by omega
    rw [initPage, Nat.mul_zero, Nat.add_zero, Heap.pageData, set_count_word, Heap.setPageData, set_word_word, if_pos rfl]
  · have atJ := init_descriptor_cases base j
    exact (frame _ (by omega)).trans (before.next j small)
  · omega
  · omega
  · omega
  · exact (frame _ (by omega)).trans (before.blank address above (by rw [initPage]; omega) below)
  · rcases before.pages page member with first | ⟨j, small, _⟩
    · exact Or.inl first
    · cases small

theorem init_start_linked (base : Nat) (word chunkSize nAllocations : Nat → Nat) :
    ∃ later, Linked base 2 2 2 later ∧
      initStart base (boot base word chunkSize nAllocations) = (later, initDescriptor base 0, initDescriptor base 1) := by
  have header := first_header_linked base word chunkSize nAllocations
  obtain ⟨one, allocOne, first⟩ := linked_take base 0 0 2 _ (by decide) header
  obtain ⟨two, allocTwo, second⟩ := linked_take base 1 0 2 one (by decide) first
  have descriptor := first_descriptor_linked base two second
  refine ⟨_, linked_prepare base 2 1 2 _ 0 (by decide) (Nat.le_refl 1) rfl descriptor, ?_⟩
  rw [initStart, allocOne]
  dsimp only
  rw [allocTwo]

theorem init_lists_linked (base : Nat) (heap : Heap) (turns : Nat) (few : turns ≤ 15) (linked : Linked base 2 2 2 heap) :
    ∃ later, ((List.range' 1 turns).map (2 * ·)).foldl (initPair base (initDescriptor base 0))
        (heap, initDescriptor base 0, initDescriptor base 1) =
      (later, initDescriptor base (2 * turns), initDescriptor base (2 * turns + 1)) ∧
        Linked base (2 * turns + 2) (2 * turns + 2) (2 * turns + 2) later := by
  induction turns with
  | zero => exact ⟨heap, rfl, linked⟩
  | succ turns ih =>
      obtain ⟨before, fold, linkedBefore⟩ := ih (by omega)
      obtain ⟨later, linkedLater, pair⟩ :=
        init_pair_linked base before (2 * turns + 2) (by omega) (by omega) (by omega) linkedBefore
      rw [show 2 * turns + 2 - 2 = 2 * turns by omega, show 2 * turns + 2 - 1 = 2 * turns + 1 by omega] at pair
      refine ⟨later, ?_, linkedLater⟩
      rw [List.range'_1_concat, List.map_append, List.foldl_append, fold, List.map_singleton, List.foldl_cons, List.foldl_nil,
        show 2 * (1 + turns) = 2 * turns + 2 by omega, pair]
      rfl

-- The lists that malloc_init leaves, which no later call changes.
structure Core (base : Nat) (heap : Heap) : Prop where
  lists : ∀ order, heap.mallocPages order = if order = 0 then initDescriptor base 30 else if order = 1 then
    initDescriptor base 31 else 0
  emerg : heap.emergPages = 0
  data : ∀ j < 32, heap.pageData (initDescriptor base j) = initPage base j
  next : ∀ j < 32, heap.next (initDescriptor base j) = if j < 2 then 0 else initDescriptor base (j - 2)
  counts : ∀ j < 30, heap.nAllocations (initPage base j) ≤ 32

theorem core_frame (base : Nat) (heap later : Heap) (core : Core base heap) (lists : later.mallocPages = heap.mallocPages)
    (emerg : later.emergPages = heap.emergPages)
    (words : ∀ address, base ≤ address → address < base + 53248 → later.word address = heap.word address)
    (counts : ∀ j < 30, later.nAllocations (initPage base j) = heap.nAllocations (initPage base j)) : Core base later := by
  refine ⟨fun order => (congrFun lists order).trans (core.lists order), emerg.trans core.emerg, fun j small => ?_,
    fun j small => ?_, fun j small => counts j small ▸ core.counts j small⟩
  · have place := init_descriptor_cases base j
    rw [Heap.pageData, words _ (by omega) (by omega)]
    exact core.data j small
  · have place := init_descriptor_cases base j
    rw [Heap.next, words _ (by omega) (by omega)]
    exact core.next j small

-- The second loop of malloc_init after so many pages of the emergency store.
structure Stocked (base taken : Nat) (heap : Heap) : Prop where
  core : Core base heap
  bitmap : Taken heap (initPage base 30) taken
  count : heap.nAllocations (initPage base 30) = taken
  order : heap.chunkSize (initPage base 31) = 1
  empty : heap.nAllocations (initPage base 31) = 0
  header : ∀ word < 4, heap.word (initPage base 31 + 8 * word) = if word = 0 then 3 else 0
  mapped : heap.mapped = []
  descriptors : heap.descriptors = []
  nodes : heap.nodes = []
  direct : ∀ descriptor ∈ heap.direct,
    (∃ j < 32, descriptor = initDescriptor base j) ∨ ∃ j < taken, descriptor = emergDescriptor base j
  pages : ∀ page ∈ heap.pages, ∃ j < 32 + taken, page = initPage base j

theorem first_page_head (heap : Heap) (good : Nat → Bool) (cur : Nat) (some : cur ≠ 0)
    (isGood : good (heap.nAllocations (heap.pageData cur)) = true) :
    firstPage heap good addressCount cur = Option.some cur := by
  obtain ⟨fuel, enough⟩ : ∃ fuel, addressCount = fuel + 1 := ⟨2 ^ 64 - 1, rfl⟩
  rw [enough, firstPage, if_neg some, if_pos isGood]

theorem first_page_null (heap : Heap) (good : Nat → Bool) : firstPage heap good addressCount 0 = some 0 := by
  obtain ⟨fuel, enough⟩ : ∃ fuel, addressCount = fuel + 1 := ⟨2 ^ 64 - 1, rfl⟩
  rw [enough, firstPage, if_pos rfl]

section
variable (base taken : Nat) (heap : Heap)

theorem stocked_take (few : taken < 32) (before : Stocked base taken heap) :
    ∃ later, directDescriptor heap (initPage base 30) = (later, emergDescriptor base taken) ∧ Stocked base (taken + 1) later := by
  obtain ⟨later, alloc, drawn⟩ := direct_descriptor_drawn heap (initPage base 30) taken (by omega) before.bitmap
  have page : initPage base 30 = base + 122880 := rfl
  have last : initPage base 31 = base + 126976 := rfl
  refine ⟨later, alloc, ?_, drawn.bitmap, ?_, ?_, ?_, fun word small => ?_, drawn.mapped.trans before.mapped,
    drawn.descriptors.trans before.descriptors, drawn.nodes.trans before.nodes, fun descriptor member => ?_, fun header member => ?_⟩
  · refine core_frame base heap later before.core drawn.mallocPages drawn.emergPages (fun address above below => ?_)
      (fun j small => ?_)
    · exact drawn.word address (by omega)
    · rw [drawn.nAllocations, Function.update_of_ne (by rw [page, initPage, pageSize]; omega)]
  · rw [drawn.nAllocations, Function.update_self, before.count]
    omega
  · rw [drawn.chunkSize]
    exact before.order
  · rw [drawn.nAllocations, Function.update_of_ne (by omega)]
    exact before.empty
  · exact (drawn.word _ (by omega)).trans (before.header word small)
  · rw [drawn.direct] at member
    rcases List.mem_cons.mp member with rfl | member
    · exact Or.inr ⟨taken, Nat.lt_succ_self taken, rfl⟩
    · rcases before.direct descriptor member with first | ⟨j, small, same⟩
      · exact Or.inl first
      · exact Or.inr ⟨j, Nat.lt_succ_of_lt small, same⟩
  · obtain ⟨j, small, same⟩ := before.pages header (drawn.pages ▸ member)
    exact ⟨j, by omega, same⟩

theorem stocked_prepare (next : Nat) (before : Stocked base (taken + 1) heap) :
    Stocked base (taken + 1)
      ((initHeader heap (emergDescriptor base taken) (initPage base (32 + taken)) 0).setNext (emergDescriptor base taken) next) := by
  have cases := init_descriptor_cases (base + 122880) taken
  have place : emergDescriptor base taken = initDescriptor (base + 122880) taken := rfl
  have page : initPage base 30 = base + 122880 := rfl
  have last : initPage base 31 = base + 126976 := rfl
  have header : initPage base (32 + taken) = base + 4096 * (32 + taken) := rfl
  have frame : ∀ address, address ≠ emergDescriptor base taken + 8 → address ≠ initPage base (32 + taken) →
      address ≠ emergDescriptor base taken →
      ((initHeader heap (emergDescriptor base taken) (initPage base (32 + taken)) 0).setNext (emergDescriptor base taken)
        next).word address = heap.word address := by
    intro address notNext notHeader notDescriptor
    rw [Heap.setNext, set_word_word, if_neg notNext, initHeader, prepare_pghdr_word, if_neg notHeader, Heap.setPageData,
      set_word_word, if_neg notDescriptor]
  refine ⟨?_, ⟨?_, fun word small => ?_⟩, ?_, ?_, ?_, fun word small => ?_, before.mapped, before.descriptors, before.nodes,
    before.direct, fun other member => ?_⟩
  · refine core_frame base heap _ before.core rfl rfl (fun address above below => ?_) (fun j small => ?_)
    · exact frame _ (by omega) (by omega) (by omega)
    · exact Function.update_of_ne (by rw [header, initPage, pageSize]; omega) _ _
  · exact (Function.update_of_ne (by omega) _ _).trans before.bitmap.order
  · exact (frame _ (by omega) (by omega) (by omega)).trans (before.bitmap.words word small)
  · exact (Function.update_of_ne (by omega) _ _).trans before.count
  · exact (Function.update_of_ne (by omega) _ _).trans before.order
  · exact (Function.update_of_ne (by omega) _ _).trans before.empty
  · exact (frame _ (by omega) (by omega) (by omega)).trans (before.header word small)
  · rcases List.mem_cons.mp member with rfl | member
    · exact ⟨32 + taken, by omega, rfl⟩
    · exact before.pages other member

theorem init_emerg_stocked (emergHead : Nat) (rest : List Nat) (few : taken < 32) (before : Stocked base taken heap) :
    ∃ later, Stocked base (taken + 1) later ∧
      initEmerg base (taken :: rest) heap emergHead = initEmerg base rest later (emergDescriptor base taken) := by
  obtain ⟨one, alloc, stocked⟩ := stocked_take base taken heap few before
  have head : heap.mallocPages 0 = initDescriptor base 30 := before.core.lists 0
  have data : heap.pageData (initDescriptor base 30) = initPage base 30 := before.core.data 30 (by decide)
  have place : initDescriptor base 30 = base + 49920 := rfl
  have walk : firstPage heap (· < 254) addressCount (heap.mallocPages 0) = some (initDescriptor base 30) := by
    rw [head]
    refine first_page_head heap _ _ (by omega) ?_
    rw [data, before.count]
    exact decide_eq_true (by omega)
  refine ⟨_, stocked_prepare base taken one emergHead stocked, ?_⟩
  rw [initEmerg, walk, Option.bind_some, if_neg (by omega), data, alloc]
  rfl

end

theorem init_emerg_all (base taken : Nat) (heap : Heap) (emergHead : Nat) (few : taken ≤ 32) (stocked : Stocked base taken heap) :
    ∃ later, initEmerg base (List.range' taken (32 - taken)) heap emergHead = some later ∧ Stocked base 32 later := by
  obtain ⟨left, amount⟩ : ∃ left, 32 - taken = left := ⟨_, rfl⟩
  rw [amount]
  induction left generalizing taken heap emergHead with
  | zero =>
      obtain rfl : taken = 32 := by omega
      exact ⟨heap, rfl, stocked⟩
  | succ left ih =>
      obtain ⟨next, stockedNext, turn⟩ :=
        init_emerg_stocked base taken heap emergHead (List.range' (taken + 1) left) (by omega) stocked
      rw [List.range'_succ, turn]
      exact ih (taken + 1) next _ (by omega) stockedNext (by omega)

-- What lies between the two loops.
theorem linked_stocked (base : Nat) (heap : Heap) (linked : Linked base 32 32 32 heap) :
    Stocked base 0 { heap with
      mallocPages := Function.update (Function.update heap.mallocPages 0 (initDescriptor base 30)) 1 (initDescriptor base 31),
      emergPages := 0 } := by
  obtain ⟨noPages, noRuns, noDescriptors, noNodes⟩ := linked.idle
  refine ⟨⟨fun order => ?_, rfl, linked.data, linked.next, fun j small => ?_⟩,
    ⟨linked.orders 30 (by decide) (by decide), fun word small => ?_⟩, linked.counts 30 (by decide) (by decide),
    linked.orders 31 (by decide) (by decide), linked.counts 31 (by decide) (by decide), linked.headers 31 (by decide) (by decide),
    noRuns, noDescriptors, noNodes, fun descriptor member => Or.inl (linked.direct descriptor member), fun page member => ?_⟩
  · dsimp only
    rw [noPages, Function.update_apply, Function.update_apply]
    by_cases zero : order = 0
    · rw [if_neg (by omega), if_pos zero, if_pos zero]
    · rw [if_neg zero, if_neg zero]
  · by_cases first : j = 0
    · rw [first, initPage, Nat.mul_zero, Nat.add_zero]
      exact Nat.le_of_eq linked.zeroCount
    · exact Nat.le_trans (Nat.le_of_eq (linked.counts j (by omega) first)) (Nat.zero_le 32)
  · refine (linked.headers 30 (by decide) (by decide) word small).trans ?_
    rw [bitmapAfter]
    split
    · rfl
    · split <;> rfl
  · rcases linked.pages page member with rfl | known
    · exact ⟨0, by decide, (Nat.add_zero _).symm⟩
    · exact known

theorem malloc_init_stocked (base : Nat) (word chunkSize nAllocations : Nat → Nat) :
    ∃ later, mallocInit base (boot base word chunkSize nAllocations) = some later ∧ Stocked base 32 later := by
  obtain ⟨begun, linkedBegun, start⟩ := init_start_linked base word chunkSize nAllocations
  obtain ⟨lists, fold, linked⟩ := init_lists_linked base begun 15 (Nat.le_refl 15) linkedBegun
  rw [mallocInit, start, show mallocInitPages / 2 - 1 = 15 from rfl, fold]
  exact init_emerg_all base 0 _ 0 (by decide) (linked_stocked base lists linked)

end Kraftwerk.Malloc
