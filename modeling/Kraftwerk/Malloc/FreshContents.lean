import Kraftwerk.Malloc.EmergencyStore

set_option autoImplicit false

-- What a page held before it was made a heap page, and how much of it later calls can tell.
namespace Kraftwerk.Malloc

-- The 8-byte words of a page by their offset, and the bytes that become two header fields.
structure Contents where
  words : Nat → BitVec 64
  chunkSize : Nat
  nAllocations : Nat

def Heap.fill (heap : Heap) (page : Nat) (contents : Contents) : Heap :=
  { (heap.setChunkSize page contents.chunkSize).setCount page contents.nAllocations with
    word := fun address => if page ≤ address ∧ address < page + pageSize then (contents.words (address - page)).toNat
      else heap.word address }

inductive Preparation where
  | newPage (order : Nat)
  | descriptorPage
  | emergency

def Preparation.order : Preparation → Nat
  | .newPage order => order
  | .descriptorPage => 0
  | .emergency => 0

-- The bits that a path sets, which are those of the header's slots except on a descriptor page:
-- slot 3 is marked and never used there, and slot 5 is handed out without its bit.
def Preparation.marks : Preparation → Nat
  | .newPage order => reservedBits order
  | .descriptorPage => 0x1F
  | .emergency => reservedBits 0

-- What malloc_prepare_new_page, malloc_allocate_descriptor_page and malloc_emerg_alloc write to it.
def preparePage (heap : Heap) (page : Nat) : Preparation → Heap
  | .newPage order => ((heap.setWord page (heap.word page ||| reservedBits order)).setChunkSize page order).setCount page 0
  | .descriptorPage =>
      let heap := mallocPreparePghdr (heap.setPageData (getChunkAddress page 4 0) page) page 0
      ((heap.setWord page (heap.word page ||| 0x1F)).setChunkSize page 0).setCount page 2
  | .emergency => mallocPreparePghdr heap page 0

-- The calls that take a chunk of the page or give one back.
inductive PageCall where
  | kmalloc (order : Nat)
  | emergency (order : Nat)
  | descriptor
  | kfree (allocation : Nat)

def pageCall (heap : Heap) (page : Nat) : PageCall → Heap × Nat
  | .kmalloc order =>
      if hasRoom order (heap.nAllocations page) then
        let marked := mallocMarkOpenSlot (heap.increment page) page
        (marked.1, getChunkAddress page marked.2 order)
      else (heap, 0)
  | .emergency order =>
      let heap := repurposed heap page order
      if heap.chunkSize page = order ∧ heap.nAllocations page < slotCount order then mallocDirectAlloc heap page else (heap, 0)
  | .descriptor =>
      if heap.nAllocations page < 252 then
        let marked := mallocMarkOpenSlot heap page
        (marked.1.increment page, getChunkAddress page marked.2 0)
      else (heap, 0)
  | .kfree allocation => if allocation / pageSize * pageSize = page then (kfree heap allocation, 0) else (heap, 0)

def pageAddresses (page : Nat) : Heap → List PageCall → List Nat
  | _, [] => []
  | heap, call :: rest => (pageCall heap page call).2 :: pageAddresses page (pageCall heap page call).1 rest

structure SameHeader (page : Nat) (first second : Heap) : Prop where
  size : second.chunkSize page = first.chunkSize page
  count : second.nAllocations page = first.nAllocations page
  words : ∀ word < 4, second.word (page + 8 * word) = first.word (page + 8 * word)

theorem set_count_here (heap : Heap) (page count : Nat) : (heap.setCount page count).nAllocations page = count :=
  Function.update_self _ _ _

theorem mark_open_slot_inside (heap : Heap) (page : Nat) : (mallocMarkOpenSlot heap page).2 < 256 ∧
    (mallocMarkOpenSlot heap page).1.chunkSize = heap.chunkSize ∧
    ∀ address, address < page ∨ page + 32 ≤ address → (mallocMarkOpenSlot heap page).1.word address = heap.word address := by
  cases found : openSlot heap page with
  | none =>
      rw [mallocMarkOpenSlot, found]
      exact ⟨show 0 < 256 by decide, rfl, fun _ _ => rfl⟩
  | some slot =>
      have inside := ((open_slot_eq_some_iff heap page slot).mp found).1
      have few := Nat.lt_of_lt_of_le inside (slot_count_few _)
      rw [mark_open_slot heap page slot found]
      refine ⟨few, rfl, fun address outside => Function.update_of_ne ?_ _ _⟩
      rw [bitmapWord]
      omega

section
variable (page : Nat) (first second : Heap)

theorem same_header_scan (same : SameHeader page first second) : openSlot second page = openSlot first page :=
  open_slot_congr first second page same.size (slot_count_few _) same.words

theorem same_header_word (same : SameHeader page first second) (slot : Nat) (inside : slot < 256) :
    second.word (bitmapWord page slot) = first.word (bitmapWord page slot) :=
  same.words (slot / 64) (by omega)

theorem same_header_set_word (same : SameHeader page first second) (address value : Nat) :
    SameHeader page (first.setWord address value) (second.setWord address value) := by
  refine ⟨same.size, same.count, fun word small => ?_⟩
  rw [set_word_word, set_word_word, same.words word small]

theorem same_header_set_count (same : SameHeader page first second) (count : Nat) :
    SameHeader page (first.setCount page count) (second.setCount page count) := by
  exact ⟨same.size, (set_count_here second page count).trans (set_count_here first page count).symm, same.words⟩

theorem same_header_increment (same : SameHeader page first second) :
    SameHeader page (first.increment page) (second.increment page) := by
  rw [Heap.increment, Heap.increment, same.count]
  exact same_header_set_count page first second same _

theorem same_header_mark (same : SameHeader page first second) :
    SameHeader page (mallocMarkOpenSlot first page).1 (mallocMarkOpenSlot second page).1 ∧
      (mallocMarkOpenSlot second page).2 = (mallocMarkOpenSlot first page).2 := by
  rw [mallocMarkOpenSlot, mallocMarkOpenSlot, same_header_scan page first second same]
  cases found : openSlot first page with
  | none => exact ⟨same, rfl⟩
  | some slot =>
      have inside := ((open_slot_eq_some_iff first page slot).mp found).1
      have word := same_header_word page first second same slot (Nat.lt_of_lt_of_le inside (slot_count_few _))
      refine ⟨?_, rfl⟩
      dsimp only
      rw [setSlot, setSlot, word]
      exact same_header_set_word page first second same _ _

theorem same_header_decrement (same : SameHeader page first second) :
    SameHeader page (first.decrement page) (second.decrement page) := by
  rw [Heap.decrement, Heap.decrement, same.count]
  exact same_header_set_count page first second same _

theorem same_header_direct (same : SameHeader page first second) :
    SameHeader page (mallocDirectAlloc first page).1 (mallocDirectAlloc second page).1 ∧
      (mallocDirectAlloc second page).2 = (mallocDirectAlloc first page).2 := by
  obtain ⟨marked, slot⟩ := same_header_mark page first second same
  rw [mallocDirectAlloc, mallocDirectAlloc, slot, same.size]
  by_cases none : (mallocMarkOpenSlot first page).2 = 0
  · rw [if_pos none, if_pos none]
    exact ⟨marked, rfl⟩
  · rw [if_neg none, if_neg none]
    exact ⟨same_header_increment page _ _ marked, rfl⟩

theorem same_header_repurposed (same : SameHeader page first second) (order : Nat) :
    SameHeader page (repurposed first page order) (repurposed second page order) := by
  rw [repurposed, repurposed, same.count]
  by_cases unused : first.nAllocations page = 0
  · rw [if_pos unused, if_pos unused]
    have here : ∀ heap : Heap, (heap.setChunkSize page order).chunkSize page = order := fun heap => Function.update_self _ _ _
    exact ⟨(here second).trans (here first).symm, same.count, same.words⟩
  · rw [if_neg unused, if_neg unused]
    exact same

theorem same_header_kfree (same : SameHeader page first second) (allocation : Nat)
    (onPage : allocation / pageSize * pageSize = page) : SameHeader page (kfree first allocation) (kfree second allocation) := by
  have slot : freedSlot second page allocation = freedSlot first page allocation := by
    rw [freedSlot, freedSlot, same.size]
  have word : second.word page = first.word page := same.words 0 (by decide)
  rw [kfree_first_word first page allocation onPage, kfree_first_word second page allocation onPage, slot, word]
  exact same_header_decrement page _ _ (same_header_set_word page first second same _ _)

-- Where both or neither of two calls are served, and those that are agree.
theorem same_header_guard (serves : Prop) [Decidable serves] (same : SameHeader page first second) (one other : Heap × Nat)
    (served : SameHeader page one.1 other.1 ∧ other.2 = one.2) :
    SameHeader page (if serves then one else (first, 0)).1 (if serves then other else (second, 0)).1 ∧
      (if serves then other else (second, 0)).2 = (if serves then one else (first, 0)).2 := by
  by_cases taken : serves
  · rw [if_pos taken, if_pos taken]
    exact served
  · rw [if_neg taken, if_neg taken]
    exact ⟨same, rfl⟩

theorem same_header_call (same : SameHeader page first second) (call : PageCall) :
    SameHeader page (pageCall first page call).1 (pageCall second page call).1 ∧
      (pageCall second page call).2 = (pageCall first page call).2 := by
  cases call with
  | kmalloc order =>
      obtain ⟨marked, slot⟩ := same_header_mark page _ _ (same_header_increment page first second same)
      rw [pageCall, pageCall, same.count]
      refine same_header_guard page first second _ same _ _ ⟨marked, ?_⟩
      exact congrArg (fun slot => getChunkAddress page slot order) slot
  | emergency order =>
      have again := same_header_repurposed page first second same order
      rw [pageCall, pageCall, again.size, again.count]
      exact same_header_guard page _ _ _ again _ _ (same_header_direct page _ _ again)
  | descriptor =>
      obtain ⟨marked, slot⟩ := same_header_mark page first second same
      rw [pageCall, pageCall, same.count]
      refine same_header_guard page first second _ same _ _ ⟨same_header_increment page _ _ marked, ?_⟩
      exact congrArg (fun slot => getChunkAddress page slot 0) slot
  | kfree allocation =>
      rw [pageCall, pageCall]
      by_cases onPage : allocation / pageSize * pageSize = page
      · rw [if_pos onPage, if_pos onPage]
        exact ⟨same_header_kfree page first second same allocation onPage, rfl⟩
      · rw [if_neg onPage, if_neg onPage]
        exact ⟨same, rfl⟩

theorem same_header_addresses (same : SameHeader page first second) (calls : List PageCall) :
    pageAddresses page second calls = pageAddresses page first calls := by
  induction calls generalizing first second with
  | nil => rfl
  | cons call rest ih =>
      obtain ⟨later, address⟩ := same_header_call page first second same call
      rw [pageAddresses, pageAddresses, address, ih _ _ later]

end

section
variable (heap : Heap) (page : Nat) (path : Preparation)

theorem marks_small : path.marks < 2 ^ 5 := by
  cases path with
  | newPage order =>
      rw [Preparation.marks, reservedBits]
      split
      · decide
      · split <;> decide
  | descriptorPage => decide
  | emergency => decide

-- The first word of the bitmap is merged with what the page held, and the others are kept.
theorem prepared_word (word : Nat) (small : word < 4) :
    (preparePage heap page path).word (page + 8 * word) =
      if word = 0 then heap.word page ||| path.marks else heap.word (page + 8 * word) := by
  have place : page + 8 * word = page ↔ word = 0 := by omega
  cases path with
  | newPage order => simp only [preparePage, Preparation.marks, set_count_word, Heap.setChunkSize, set_word_word, place]
  | emergency => simp only [preparePage, Preparation.marks, prepare_pghdr_word, place, reservedBits, if_true]
  | descriptorPage =>
      have apart : page + 8 * word ≠ getChunkAddress page 4 0 := by
        rw [chunk_address_eq, chunk_bytes_zero]
        omega
      have first : page ≠ getChunkAddress page 4 0 := by
        rw [chunk_address_eq, chunk_bytes_zero]
        omega
      have merged : heap.word page ||| 7 ||| 0x1F = heap.word page ||| 0x1F := by
        rw [Nat.or_assoc, show 7 ||| 0x1F = 0x1F from rfl]
      simp only [preparePage, Preparation.marks, set_count_word, Heap.setChunkSize, set_word_word, prepare_pghdr_word, place,
        Heap.setPageData, if_neg apart, if_neg first, reservedBits, if_true, merged]
      split
      · rfl
      · rfl

theorem prepared_header (other : Heap)
    (words : ∀ word < 4, (preparePage other page path).word (page + 8 * word) = (preparePage heap page path).word (page + 8 * word)) :
    SameHeader page (preparePage heap page path) (preparePage other page path) := by
  have here : ∀ (fields : Nat → Nat) (value : Nat), Function.update fields page value page = value :=
    fun fields value => Function.update_self _ _ _
  refine ⟨?_, ?_, words⟩
  · cases path with
    | newPage order => exact (here _ order).trans (here _ order).symm
    | descriptorPage => exact (here _ 0).trans (here _ 0).symm
    | emergency => exact (here _ 0).trans (here _ 0).symm
  · cases path with
    | newPage order => exact (here _ 0).trans (here _ 0).symm
    | descriptorPage => exact (here _ 2).trans (here _ 2).symm
    | emergency => exact (here _ 0).trans (here _ 0).symm

theorem fill_word (contents : Contents) (word : Nat) (small : word < 4) :
    (heap.fill page contents).word (page + 8 * word) = (contents.words (8 * word)).toNat := by
  have inside : page ≤ page + 8 * word ∧ page + 8 * word < page + pageSize := by
    rw [pageSize]
    omega
  have offset : page + 8 * word - page = 8 * word := by omega
  exact (if_pos inside).trans (by rw [offset])

def ExactlyMarked (heap : Heap) (page marks : Nat) : Prop := ∀ slot < 256, slotTaken heap page slot = marks.testBit slot

-- Two contents make no difference to the addresses.
def SameAddresses (first second : Contents) : Prop :=
  ∀ calls, pageAddresses page (preparePage (heap.fill page second) page path) calls =
    pageAddresses page (preparePage (heap.fill page first) page path) calls

-- Neither does one of them show in the bitmap, which begins with the header's slots.
def Independent (first second : Contents) : Prop :=
  SameAddresses heap page path first second ∧
  ExactlyMarked (preparePage (heap.fill page first) page path) page (reservedBits path.order) ∧
  ExactlyMarked (preparePage (heap.fill page second) page path) page (reservedBits path.order)

-- Of the 32 bytes that become the bitmap no bit is set but these.
def Clean (marks : Nat) (contents : Contents) : Prop :=
  ∀ slot < 256, (contents.words (8 * (slot / 64))).getLsbD (slot % 64) = true → marks.testBit slot = true

theorem prepared_slot (contents : Contents) (slot : Nat) (inside : slot < 256) :
    slotTaken (preparePage (heap.fill page contents) page path) page slot =
      ((contents.words (8 * (slot / 64))).getLsbD (slot % 64) || path.marks.testBit slot) := by
  have small := marks_small path
  have word : slot / 64 < 4 := by omega
  rw [slotTaken, bitmapWord, prepared_word _ page path _ word, fill_word heap page contents _ word, BitVec.getLsbD]
  by_cases first : slot / 64 = 0
  · have low : slot % 64 = slot := by omega
    have begins := fill_word heap page contents 0 (by decide)
    rw [Nat.mul_zero, Nat.add_zero] at begins
    rw [if_pos first, begins, Nat.testBit_or, low, first]
  · have none : path.marks.testBit slot = false :=
      Nat.testBit_lt_two_pow (Nat.lt_of_lt_of_le small (Nat.pow_le_pow_right (by decide) (by omega)))
    rw [if_neg first, none, Bool.or_false]

theorem exactly_marked_iff (contents : Contents) :
    ExactlyMarked (preparePage (heap.fill page contents) page path) page path.marks ↔ Clean path.marks contents := by
  constructor
  · intro exactly slot inside set
    rw [← exactly slot inside, prepared_slot heap page path contents slot inside, set, Bool.true_or]
  · intro clean slot inside
    rw [prepared_slot heap page path contents slot inside]
    cases set : (contents.words (8 * (slot / 64))).getLsbD (slot % 64) with
    | false => exact Bool.false_or _
    | true => rw [clean slot inside set, Bool.true_or]

theorem prepared_word_fits (contents : Contents) (word : Nat) (small : word < 4) :
    (preparePage (heap.fill page contents) page path).word (page + 8 * word) < 2 ^ 64 := by
  have marks : path.marks < 2 ^ 64 := Nat.lt_trans (marks_small path) (by decide)
  have begins := fill_word heap page contents 0 (by decide)
  rw [Nat.mul_zero, Nat.add_zero] at begins
  rw [prepared_word _ page path word small]
  split
  · rw [begins]
    exact Nat.or_lt_two_pow (contents.words 0).isLt marks
  · rw [fill_word heap page contents word small]
    exact (contents.words (8 * word)).isLt

theorem clean_same_addresses (first second : Contents) (firstClean : Clean path.marks first) (secondClean : Clean path.marks second) :
    SameAddresses heap page path first second := by
  intro calls
  have firstMarked := (exactly_marked_iff heap page path first).mpr firstClean
  have secondMarked := (exactly_marked_iff heap page path second).mpr secondClean
  refine same_header_addresses page _ _ (prepared_header (heap.fill page first) page path _ (fun word small => ?_)) calls
  apply Nat.eq_of_testBit_eq
  intro index
  by_cases inside : index < 64
  · have slot : (64 * word + index) / 64 = word ∧ (64 * word + index) % 64 = index := by omega
    have same := (secondMarked (64 * word + index) (by omega)).trans (firstMarked (64 * word + index) (by omega)).symm
    rw [slotTaken, slotTaken, bitmapWord, slot.1, slot.2] at same
    exact same
  · have width : 2 ^ 64 ≤ 2 ^ index := Nat.pow_le_pow_right (by decide) (Nat.le_of_not_lt inside)
    rw [Nat.testBit_lt_two_pow (Nat.lt_of_lt_of_le (prepared_word_fits heap page path second word small) width),
      Nat.testBit_lt_two_pow (Nat.lt_of_lt_of_le (prepared_word_fits heap page path first word small) width)]

theorem descriptor_page_marks (contents : Contents) :
    ¬ ExactlyMarked (preparePage (heap.fill page contents) page .descriptorPage) page (reservedBits 0) := by
  intro exactly
  have third := exactly 3 (by decide)
  rw [prepared_slot heap page .descriptorPage contents 3 (by decide)] at third
  exact absurd ((Bool.or_eq_false_iff.mp third).2) (by decide)

theorem marks_reserved (other : path ≠ .descriptorPage) : path.marks = reservedBits path.order := by
  cases path with
  | newPage order => rfl
  | descriptorPage => exact absurd rfl other
  | emergency => rfl

theorem contents_independent_iff (first second : Contents) :
    Independent heap page path first second ↔
      path ≠ .descriptorPage ∧ Clean (reservedBits path.order) first ∧ Clean (reservedBits path.order) second := by
  constructor
  · rintro ⟨_, firstMarked, secondMarked⟩
    have other : path ≠ .descriptorPage := by
      rintro rfl
      exact descriptor_page_marks heap page first firstMarked
    rw [← marks_reserved path other] at firstMarked secondMarked ⊢
    exact ⟨other, (exactly_marked_iff heap page path first).mp firstMarked, (exactly_marked_iff heap page path second).mp secondMarked⟩
  · rintro ⟨other, firstClean, secondClean⟩
    rw [← marks_reserved path other] at firstClean secondClean
    rw [Independent, ← marks_reserved path other]
    exact ⟨clean_same_addresses heap page path first second firstClean secondClean,
      (exactly_marked_iff heap page path first).mpr firstClean, (exactly_marked_iff heap page path second).mpr secondClean⟩

end

-- A page that held a word 8 seems to have slot 3 taken, so the first chunk of 16 bytes is that of slot 4.
theorem stale_word_moves_chunk :
    ¬ Independent (chunkPageHeap 7 0 0) 65536 (.newPage 0) ⟨fun _ => 0, 0, 0⟩ ⟨fun offset => if offset = 0 then 8 else 0, 0, 0⟩ ∧
      pageAddresses 65536 (preparePage ((chunkPageHeap 7 0 0).fill 65536 ⟨fun _ => 0, 0, 0⟩) 65536 (.newPage 0)) [.kmalloc 0] =
        [65584] ∧
      pageAddresses 65536 (preparePage ((chunkPageHeap 7 0 0).fill 65536 ⟨fun offset => if offset = 0 then 8 else 0, 0, 0⟩)
        65536 (.newPage 0)) [.kmalloc 0] = [65600] := by
  have third : pageAddresses 65536 (preparePage ((chunkPageHeap 7 0 0).fill 65536 ⟨fun _ => 0, 0, 0⟩) 65536 (.newPage 0))
      [.kmalloc 0] = [65584] := by decide +kernel
  have fourth : pageAddresses 65536 (preparePage ((chunkPageHeap 7 0 0).fill 65536
      ⟨fun offset => if offset = 0 then 8 else 0, 0, 0⟩) 65536 (.newPage 0)) [.kmalloc 0] = [65600] := by decide +kernel
  refine ⟨fun independent => ?_, third, fourth⟩
  have same := (fourth.symm.trans (independent.1 [.kmalloc 0])).trans third
  cases same

section
variable (kern : List (Nat × Nat) → Nat → Nat) (heap : Heap)

theorem take_slot_page_call (chosenPage order : Nat) (room : hasRoom order (countOf heap chosenPage) = true) :
    takeSlot heap chosenPage order = pageCall heap (heap.pageData chosenPage) (.kmalloc order) := by
  rw [countOf] at room
  rw [pageCall, if_pos room]
  rfl

-- Away from the middle of the page the emergency store is not grown.
theorem serve_emerg_page_call (kmalloc : Heap → Nat → Nat → Option (Heap × Nat)) (node order : Nat) (some : 0 < slotCount order)
    (found : usable heap order node = true) (elsewhere : countOf heap node + 1 ≠ slotCount (order + 1)) :
    serveEmerg kern kmalloc (repurposed heap (heap.pageData node) order) (heap.pageData node) order =
      Option.some (pageCall heap (heap.pageData node) (.emergency order)) := by
  have here : ¬ heap.nAllocations (heap.pageData node) + 1 = slotCount (order + 1) := elsewhere
  have room : heap.nAllocations (heap.pageData node) < slotCount order := by
    rcases (usable_iff heap order node).mp found with unused | ⟨_, room⟩
    · rw [countOf] at unused
      omega
    · exact room
  rw [serveEmerg, pageCall, repurposed_count, if_neg here, Option.map_some, if_pos ⟨repurposed_size heap order node found, room⟩]

theorem descriptor_page_prepares (later : Heap) (desc : Nat) (done : mallocAllocateDescriptorPage kern heap = some (later, desc)) :
    SameHeader (kern heap.mapped 1) (preparePage heap (kern heap.mapped 1) .descriptorPage) later := by
  rw [mallocAllocateDescriptorPage, mallocAllocateDescriptorPageWith, takesNoNode, Option.bind_some] at done
  split at done
  · cases done
  · obtain ⟨rfl, _⟩ := Prod.mk.inj (Option.some.inj done)
    exact ⟨rfl, rfl, fun _ _ => rfl⟩

-- The node of the list entry for a page of the emergency store is on another page.
theorem grow_emerg_prepares (kmalloc : Heap → Nat → Nat → Option (Heap × Nat)) (later : Heap)
    (done : growEmerg kern kmalloc heap = some later) :
    ∃ between, kmalloc (allocateKern kern heap 1).1 16 1 = some (between, later.emergPages) ∧
      (Apart (kern heap.mapped 1) pageSize later.emergPages 16 → SameHeader (kern heap.mapped 1)
        (preparePage (between.setPageData later.emergPages (kern heap.mapped 1)) (kern heap.mapped 1) .emergency) later) := by
  obtain ⟨⟨between, desc⟩, served, rest⟩ := Option.bind_eq_some_iff.mp done
  split at rest
  · cases rest
  · obtain rfl := Option.some.inj rest
    refine ⟨between, served, fun apart => ⟨rfl, rfl, fun word small => ?_⟩⟩
    rw [Apart, pageSize] at apart
    refine Function.update_of_ne ?_ _ _
    dsimp only at apart ⊢
    omega

-- What finding a descriptor leaves alone: a page that is apart from where it looks.
structure Untouched (page : Nat) (heap later : Heap) (desc : Nat) : Prop where
  words : ∀ address, page ≤ address → address < page + pageSize → later.word address = heap.word address
  size : later.chunkSize page = heap.chunkSize page
  desc : Apart page pageSize desc 16

theorem descriptor_page_untouched (page desc : Nat) (later : Heap) (apart : Apart page pageSize (kern heap.mapped 1) pageSize)
    (done : mallocAllocateDescriptorPage kern heap = some (later, desc)) : Untouched page heap later desc := by
  rw [mallocAllocateDescriptorPage, mallocAllocateDescriptorPageWith, takesNoNode, Option.bind_some] at done
  split at done
  · cases done
  · obtain ⟨rfl, rfl⟩ := Prod.mk.inj (Option.some.inj done)
    have fourth := chunk_address_eq (kern heap.mapped 1) 4 0
    have fifth := chunk_address_eq (kern heap.mapped 1) 5 0
    rw [chunk_bytes_zero] at fourth fifth
    rw [Apart, pageSize] at apart
    refine ⟨fun address above below => ?_, ?_, ?_⟩
    · have header : address ≠ kern heap.mapped 1 := by
        rw [pageSize] at below
        omega
      have chunk : address ≠ getChunkAddress (kern heap.mapped 1) 4 0 := by
        rw [pageSize] at below
        omega
      exact (Function.update_of_ne header _ _).trans ((Function.update_of_ne header _ _).trans (Function.update_of_ne chunk _ _))
    · have header : page ≠ kern heap.mapped 1 := by omega
      exact (Function.update_of_ne header _ _).trans (Function.update_of_ne header _ _)
    · rw [Apart, pageSize, allocateKern, fifth]
      omega

theorem descriptor_untouched (page desc : Nat) (nodes : List Nat) (later : Heap)
    (chain : Walk.Chain 0 heap.next (heap.mallocPages 0) nodes) (apart : Apart page pageSize (kern heap.mapped 1) pageSize)
    (others : ∀ node ∈ nodes, Apart page pageSize (heap.pageData node) pageSize)
    (done : mallocAllocateDescriptor kern heap = some (later, desc)) : Untouched page heap later desc := by
  obtain ⟨maxPage, walk, rest⟩ := Option.bind_eq_some_iff.mp done
  split at rest
  · exact descriptor_page_untouched kern heap page desc later apart rest
  · rename_i linked
    obtain ⟨rfl, rfl⟩ := Prod.mk.inj (Option.some.inj rest)
    have listed := (fullest_page_listed heap _ _ 0 0 maxPage nodes chain walk).resolve_left linked
    have elsewhere := others maxPage listed
    obtain ⟨few, sizes, words⟩ := mark_open_slot_inside heap (heap.pageData maxPage)
    rw [Apart, pageSize] at elsewhere
    refine ⟨fun address above below => words address ?_, congrFun sizes page, ?_⟩
    · rw [pageSize] at below
      omega
    · rw [Apart, chunk_address_eq, chunk_bytes_zero, pageSize]
      omega

-- The header of the new page is prepared before its descriptor is looked for, and stays so.
theorem new_page_prepares (lists : Lists heap) (order desc : Nat) (later : Heap)
    (nodes : ∀ node ∈ lists.pages 0, Apart (kern heap.mapped 1) pageSize node 16)
    (others : ∀ node ∈ lists.pages 0, Apart (kern heap.mapped 1) pageSize (heap.pageData node) pageSize)
    (second : Apart (kern heap.mapped 1) pageSize (kern ((kern heap.mapped 1, 1 * pageSize) :: heap.mapped) 1) pageSize)
    (done : mallocPrepareNewPage kern heap order = some (later, desc)) :
    SameHeader (kern heap.mapped 1) (preparePage heap (kern heap.mapped 1) (.newPage order)) later := by
  have descriptors := prepared_page_descriptors kern heap order (lists.pages 0) nodes
  have chain := Walk.chain_congr 0 heap.next (preparedPage kern heap order).next _ _ (lists.listed 0 (by decide))
    (fun node member => (descriptors node member).1)
  have data : ∀ node ∈ lists.pages 0, (preparedPage kern heap order).pageData node = heap.pageData node := fun node member => by
    have outside := nodes node member
    rw [Apart, pageSize] at outside
    exact Function.update_of_ne (by omega) _ _
  rw [prepare_new_page_eq] at done
  split at done
  · cases done
  obtain ⟨⟨described, address⟩, drawn, same⟩ := Option.map_eq_some_iff.mp done
  obtain ⟨rfl, rfl⟩ := Prod.mk.inj same
  have untouched : Untouched (kern heap.mapped 1) (preparedPage kern heap order) described address := by
    split at drawn
    · exact descriptor_page_untouched kern _ _ _ described second drawn
    · exact descriptor_untouched kern _ _ _ (lists.pages 0) described chain second
        (fun node member => data node member ▸ others node member) drawn
  have outside := untouched.desc
  rw [Apart, pageSize] at outside
  refine ⟨untouched.size, ?_, fun word small => ?_⟩
  · have prepared : (preparePage heap (kern heap.mapped 1) (.newPage order)).nAllocations (kern heap.mapped 1) = 0 :=
      set_count_here _ _ 0
    exact (set_count_here _ _ 0).trans prepared.symm
  · refine (Function.update_of_ne ?_ _ _).trans (untouched.words _ (Nat.le_add_right _ _) ?_)
    · dsimp only
      omega
    · rw [pageSize]
      omega

end

end Kraftwerk.Malloc
