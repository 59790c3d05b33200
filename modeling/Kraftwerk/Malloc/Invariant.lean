import Kraftwerk.Malloc.System
import Mathlib.Data.Finset.Card

set_option autoImplicit false

-- In every state of a guarded run the chunks of the orders 0 and 1 come from the last two
-- pages of malloc_init_space, and all others from allocate_kern.
namespace Kraftwerk.Malloc

-- The addresses in use on a page of chunks: each one has its slot closed.
structure Chunks (heap : Heap) (page order extra : Nat) (used : List Nat) : Prop where
  size : heap.chunkSize page = order
  count : heap.nAllocations page = extra + used.length
  reserved : ∀ slot, slot * chunkBytes order < 48 → isOpen heap page slot = false
  nodup : used.Nodup
  slots : ∀ address ∈ used, ∃ slot, slot < slotCount order ∧ slot % 64 < 32 ∧ 48 ≤ slot * chunkBytes order ∧
    address = page + slot * chunkBytes order ∧ isOpen heap page slot = false

theorem chunk_address_eq (page slot order : Nat) : getChunkAddress page slot order = page + slot * chunkBytes order := by
  rw [getChunkAddress, chunkBytes, Nat.shiftLeft_eq, Nat.shiftLeft_eq, Nat.pow_add, Nat.mul_comm 16]

def lowSlots (count : Nat) : Finset Nat := (Finset.range count).filter (fun slot => slot % 64 < 32)

theorem chunks_length (heap : Heap) (page order extra : Nat) (used : List Nat) (chunks : Chunks heap page order extra used) :
    used.length ≤ (lowSlots (slotCount order)).card := by
  have positive : 0 < chunkBytes order := by
    rw [chunkBytes, Nat.shiftLeft_eq]
    exact Nat.mul_pos (by decide) (Nat.two_pow_pos order)
  rw [← List.toFinset_card_of_nodup chunks.nodup]
  refine Finset.card_le_card_of_injOn (fun address => (address - page) / chunkBytes order) ?_ ?_
  · intro address member
    obtain ⟨slot, small, low, _, rfl, _⟩ := chunks.slots address (List.mem_toFinset.mp member)
    simp only [Nat.add_sub_cancel_left, Nat.mul_div_cancel _ positive]
    exact Finset.mem_coe.mpr (Finset.mem_filter.mpr ⟨Finset.mem_range.mpr small, low⟩)
  · intro one oneMember other otherMember same
    obtain ⟨slot, _, _, _, rfl, _⟩ := chunks.slots one (List.mem_toFinset.mp oneMember)
    obtain ⟨second, _, _, _, rfl, _⟩ := chunks.slots other (List.mem_toFinset.mp otherMember)
    simp only [Nat.add_sub_cancel_left, Nat.mul_div_cancel _ positive] at same
    rw [same]

theorem chunks_frame (heap later : Heap) (page order extra : Nat) (used : List Nat)
    (words : ∀ word < 4, later.word (page + 8 * word) = heap.word (page + 8 * word))
    (sizes : later.chunkSize page = heap.chunkSize page) (counts : later.nAllocations page = heap.nAllocations page)
    (small : slotCount order ≤ 256) (large : 16 ≤ chunkBytes order)
    (chunks : Chunks heap page order extra used) : Chunks later page order extra used := by
  have same : ∀ slot < 256, isOpen later page slot = isOpen heap page slot := fun slot below =>
    is_open_congr later heap page slot (words (slot / 64) (by omega))
  refine ⟨sizes.trans chunks.size, counts.trans chunks.count, fun slot reserved => ?_, chunks.nodup, ?_⟩
  · have few : slot < 3 := by
      by_contra many
      have product := Nat.mul_le_mul (Nat.le_of_not_lt many) large
      omega
    rw [same slot (by omega)]
    exact chunks.reserved slot reserved
  · intro address member
    obtain ⟨slot, below, low, past, place, closed⟩ := chunks.slots address member
    exact ⟨slot, below, low, past, place, (same slot (by omega)).trans closed⟩

theorem chunks_perm (heap : Heap) (page order extra : Nat) (used other : List Nat) (perm : used.Perm other)
    (chunks : Chunks heap page order extra used) : Chunks heap page order extra other :=
  ⟨chunks.size, perm.length_eq ▸ chunks.count, chunks.reserved, perm.nodup_iff.mp chunks.nodup,
    fun address member => chunks.slots address (perm.mem_iff.mpr member)⟩

theorem open_slot_past (heap : Heap) (page order extra slot : Nat) (used : List Nat)
    (chunks : Chunks heap page order extra used) (found : openSlot heap page = some slot) : 48 ≤ slot * chunkBytes order := by
  by_contra below
  have closed := chunks.reserved slot (Nat.lt_of_not_le below)
  rw [((open_slot_eq_some_iff heap page slot).mp found).2.1] at closed
  cases closed

theorem open_slot_unused (heap : Heap) (page order extra slot : Nat) (used : List Nat)
    (chunks : Chunks heap page order extra used) (found : openSlot heap page = some slot) :
    page + slot * chunkBytes order ∉ used := by
  intro member
  obtain ⟨other, _, _, past, same, closed⟩ := chunks.slots _ member
  have positive : 0 < chunkBytes order := Nat.pos_of_mul_pos_left (Nat.lt_of_lt_of_le (by decide) past)
  obtain rfl : slot = other := Nat.eq_of_mul_eq_mul_right positive (Nat.add_left_cancel same)
  rw [((open_slot_eq_some_iff heap page slot).mp found).2.1] at closed
  cases closed

theorem chunks_take (heap : Heap) (page order extra slot : Nat) (used : List Nat) (room : extra + used.length + 1 < 2 ^ 16)
    (chunks : Chunks heap page order extra used) (found : openSlot heap page = some slot) :
    Chunks (setSlot (heap.increment page) page slot) page order extra ((page + slot * chunkBytes order) :: used) := by
  have spec := (open_slot_eq_some_iff heap page slot).mp found
  refine ⟨chunks.size, ?_, ?_, ?_, ?_⟩
  · have count : (setSlot (heap.increment page) page slot).nAllocations page = (heap.nAllocations page + 1) % 2 ^ 16 :=
      Function.update_self _ _ _
    rw [count, chunks.count, List.length_cons]
    omega
  · exact fun other reserved => set_slot_keeps (heap.increment page) page slot other (chunks.reserved other reserved)
  · exact List.nodup_cons.mpr ⟨open_slot_unused heap page order extra slot used chunks found, chunks.nodup⟩
  · intro address member
    rcases List.mem_cons.mp member with rfl | member
    · refine ⟨slot, chunks.size ▸ spec.1, open_slot_low heap page slot found,
        open_slot_past heap page order extra slot used chunks found, rfl, set_slot_closes _ page slot⟩
    · obtain ⟨other, below, low, past, place, closed⟩ := chunks.slots address member
      exact ⟨other, below, low, past, place, set_slot_keeps (heap.increment page) page slot other closed⟩

-- Freeing one address, where the slot that is cleared may be another one that is not in use.
theorem chunks_clear (heap : Heap) (page order extra cleared address : Nat) (used : List Nat) (low : cleared < 32)
    (past : 48 ≤ cleared * chunkBytes order) (unused : page + cleared * chunkBytes order ∉ used)
    (room : extra + used.length + 1 < 2 ^ 16) (chunks : Chunks heap page order extra (address :: used)) :
    Chunks ((clearSlot heap page cleared).decrement page) page order extra used := by
  have apart : ∀ slot, slot % 64 < 32 → slot ≠ cleared → cleared / 64 ≠ slot / 64 ∨ cleared % 32 ≠ slot % 32 := by
    intro slot slotLow different
    omega
  refine ⟨chunks.size, ?_, ?_, (List.nodup_cons.mp chunks.nodup).2, ?_⟩
  · have count : ((clearSlot heap page cleared).decrement page).nAllocations page =
        (heap.nAllocations page + (2 ^ 16 - 1)) % 2 ^ 16 := Function.update_self _ _ _
    rw [count, chunks.count, List.length_cons]
    omega
  · intro slot reserved
    have positive : 0 < chunkBytes order := Nat.pos_of_mul_pos_left (Nat.lt_of_lt_of_le (by decide) past)
    have before : slot < cleared := Nat.lt_of_mul_lt_mul_right (Nat.lt_of_lt_of_le reserved past)
    exact clear_slot_keeps heap page cleared slot (chunks.reserved slot reserved) (apart slot (by omega) before.ne)
  · intro other member
    obtain ⟨slot, below, slotLow, slotPast, place, closed⟩ := chunks.slots other (List.mem_cons_of_mem address member)
    refine ⟨slot, below, slotLow, slotPast, place, clear_slot_keeps heap page cleared slot closed (apart slot slotLow ?_)⟩
    rintro rfl
    exact unused (place ▸ member)

-- The walk for a descriptor stays with the page it has once its count is at least 32.
theorem fullest_page_rest (base : Nat) (heap : Heap) (core : Core base heap) (pair fuel maxAlloc maxPage : Nat) (low : pair < 15)
    (enough : pair + 1 < fuel) (large : 32 ≤ maxAlloc) :
    fullestPage heap fuel (initDescriptor base (2 * pair)) maxAlloc maxPage = some maxPage := by
  induction pair generalizing fuel with
  | zero =>
      obtain ⟨fuel, rfl⟩ : ∃ less, fuel = less + 2 := ⟨fuel - 2, by omega⟩
      have few := core.counts (2 * 0) (by decide)
      have place := init_descriptor_cases base (2 * 0)
      have last : heap.next (initDescriptor base (2 * 0)) = 0 := core.next 0 (by decide)
      rw [fullestPage, if_neg (by omega), core.data (2 * 0) (by omega), if_neg (by omega), if_neg (by omega), last, fullestPage,
        if_pos rfl]
  | succ pair ih =>
      obtain ⟨fuel, rfl⟩ : ∃ less, fuel = less + 1 := ⟨fuel - 1, by omega⟩
      have few := core.counts (2 * (pair + 1)) (by omega)
      have place := init_descriptor_cases base (2 * (pair + 1))
      have next := core.next (2 * (pair + 1)) (by omega)
      rw [if_neg (by omega), show 2 * (pair + 1) - 2 = 2 * pair by omega] at next
      rw [fullestPage, if_neg (by omega), core.data (2 * (pair + 1)) (by omega), if_neg (by omega), if_neg (by omega), next]
      exact ih fuel (by omega) (by omega)

theorem fullest_page_core (base : Nat) (heap : Heap) (core : Core base heap)
    (atLeast : 32 ≤ heap.nAllocations (initPage base 30)) (below : heap.nAllocations (initPage base 30) < 252) :
    fullestPage heap addressCount (heap.mallocPages 0) 0 0 = some (initDescriptor base 30) := by
  obtain ⟨fuel, enough, many⟩ : ∃ fuel, addressCount = fuel + 1 ∧ 16 < fuel := ⟨2 ^ 64 - 1, rfl, by decide⟩
  have place := init_descriptor_cases base 30
  have next : heap.next (initDescriptor base 30) = initDescriptor base 28 := core.next 30 (by decide)
  rw [enough, core.lists 0, if_pos rfl, fullestPage, if_neg (by omega), core.data 30 (by decide), if_neg (by omega),
    if_pos (by omega), next]
  exact fullest_page_rest base heap core 14 fuel _ _ (by decide) (by omega) atLeast

def onPage (page : Nat) (allocation : Nat × Nat) : Bool := page ≤ allocation.1 && allocation.1 < page + pageSize

def System.usedOn (sys : System) (page : Nat) : List Nat := (sys.live.filter (onPage page)).map Prod.fst

-- The page that serves an order, which is the head of its list.
def chunkPage (base order : Nat) : Nat := initPage base (30 + order)

-- Descriptors are chunks of order 0; malloc_init has counted 32 more of them on that page.
def System.users (sys : System) (base order : Nat) : List Nat :=
  sys.usedOn (chunkPage base order) ++ if order = 0 then sys.heap.descriptors else []

def Placed (base : Nat) (mapped : List (Nat × Nat)) (allocation : Nat × Nat) : Prop :=
  (∃ order < 2, onPage (chunkPage base order) allocation = true ∧ allocation.2 ≤ chunkBytes order) ∨
  ∃ run ∈ mapped, run.1 ≤ allocation.1 ∧ allocation.1 < run.1 + run.2 ∧ allocation.1 + allocation.2 ≤ run.1 + run.2

structure Inv (base : Nat) (sys : System) : Prop where
  core : Core base sys.heap
  chunks : ∀ order < 2,
    Chunks sys.heap (chunkPage base order) order (if order = 0 then 32 else 0) (sys.users base order)
  placed : ∀ allocation ∈ sys.live, Placed base sys.heap.mapped allocation
  runs : ∀ run ∈ sys.heap.mapped, run.1 % pageSize = 0 ∧ run.2 % pageSize = 0 ∧
    (run.1 + run.2 ≤ base ∨ base + 262144 ≤ run.1) ∧ 0 < run.2
  direct : ∀ descriptor ∈ sys.heap.direct,
    (∃ j < 32, descriptor = initDescriptor base j) ∨ ∃ j < 32, descriptor = emergDescriptor base j
  pages : ∀ page ∈ sys.heap.pages, page % pageSize = 0 ∧
    ((base ≤ page ∧ page < base + 262144) ∨ ∃ run ∈ sys.heap.mapped, run.1 = page)
  safe : Separate sys.heap sys.live

theorem safe_cons (heap later : Heap) (live : List (Nat × Nat)) (fresh : Nat × Nat) (safe : Separate heap live)
    (pages : later.pages = heap.pages) (direct : later.direct = heap.direct) (descriptors : later.descriptors = heap.descriptors)
    (apartLive : ∀ other ∈ live, Apart fresh.1 fresh.2 other.1 other.2)
    (apartPages : ∀ page ∈ heap.pages, Apart fresh.1 fresh.2 page 48)
    (apartDescriptors : ∀ descriptor ∈ heap.direct ++ heap.descriptors, Apart fresh.1 fresh.2 descriptor 16) :
    Separate later (fresh :: live) := by
  refine ⟨List.pairwise_cons.mpr ⟨apartLive, safe.ranges⟩, ?_, ?_⟩
  · intro allocation member page pageMember
    have old : page ∈ heap.pages := pages ▸ pageMember
    rcases List.mem_cons.mp member with rfl | member
    · exact apartPages page old
    · exact safe.headers allocation member page old
  · intro allocation member descriptor descriptorMember
    have old : descriptor ∈ heap.direct ++ heap.descriptors := by
      have list : descriptor ∈ later.direct ++ later.descriptors := descriptorMember
      rwa [direct, descriptors] at list
    rcases List.mem_cons.mp member with rfl | member
    · exact apartDescriptors descriptor old
    · exact safe.descriptors allocation member descriptor old

section
variable (heap : Heap) (page slot : Nat)

theorem take_word (address : Nat) (small : slot < 256) (outside : address < page ∨ page + 32 ≤ address) :
    (setSlot (heap.increment page) page slot).word address = heap.word address := by
  refine Function.update_of_ne ?_ _ _
  rw [bitmapWord]
  omega

theorem take_count (other : Nat) (different : other ≠ page) :
    (setSlot (heap.increment page) page slot).nAllocations other = heap.nAllocations other :=
  Function.update_of_ne different _ _

end

theorem on_page_iff (page : Nat) (allocation : Nat × Nat) :
    onPage page allocation = true ↔ page ≤ allocation.1 ∧ allocation.1 < page + pageSize := by
  rw [onPage, Bool.and_eq_true, decide_eq_true_eq, decide_eq_true_eq]

theorem users_cons (base order : Nat) (heap later : Heap) (live : List (Nat × Nat)) (fresh : Nat × Nat)
    (descriptors : later.descriptors = heap.descriptors) :
    (System.mk later (fresh :: live)).users base order =
      if onPage (chunkPage base order) fresh = true then fresh.1 :: (System.mk heap live).users base order
      else (System.mk heap live).users base order := by
  rw [System.users, System.usedOn, List.filter_cons, System.users, System.usedOn, descriptors]
  split <;> rfl

theorem mem_users (sys : System) (base order : Nat) (allocation : Nat × Nat) (member : allocation ∈ sys.live)
    (on : onPage (chunkPage base order) allocation = true) : allocation.1 ∈ sys.users base order :=
  List.mem_append_left _ (List.mem_map_of_mem (List.mem_filter.mpr ⟨member, on⟩))

theorem chunk_page_eq (base order : Nat) : chunkPage base order = base + 122880 + 4096 * order := by
  rw [chunkPage, initPage, pageSize]
  omega

theorem slots_apart (unit one other : Nat) (different : one ≠ other) :
    one * unit + unit ≤ other * unit ∨ other * unit + unit ≤ one * unit := by
  rcases Nat.lt_or_gt_of_ne different with less | more
  · exact Or.inl (by rw [← Nat.succ_mul]; exact Nat.mul_le_mul_right unit less)
  · exact Or.inr (by rw [← Nat.succ_mul]; exact Nat.mul_le_mul_right unit more)

theorem chunk_sizes (order : Nat) (low : order < 2) :
    16 ≤ chunkBytes order ∧ chunkBytes order ≤ 32 ∧ slotCount order ≤ 256 ∧
      (if order = 0 then 32 else 0) + (lowSlots (slotCount order)).card + 1 < slotCount order ∧
      ∀ slot < slotCount order, slot * chunkBytes order + chunkBytes order ≤ 4096 := by
  have sizes : ∀ order < 2, 16 ≤ chunkBytes order ∧ chunkBytes order ≤ 32 ∧ slotCount order ≤ 256 ∧
      (if order = 0 then 32 else 0) + (lowSlots (slotCount order)).card + 1 < slotCount order ∧
      slotCount order * chunkBytes order = 4096 := by decide +kernel
  obtain ⟨atLeast, atMost, few, card, whole⟩ := sizes order low
  refine ⟨atLeast, atMost, few, card, fun slot below => ?_⟩
  rw [← Nat.succ_mul, ← whole]
  exact Nat.mul_le_mul_right _ below

theorem user_inside (base order address : Nat) (sys : System) (inv : Inv base sys) (low : order < 2)
    (member : address ∈ sys.users base order) :
    chunkPage base order + 48 ≤ address ∧ address + chunkBytes order ≤ chunkPage base order + 4096 := by
  obtain ⟨slot, below, _, past, place, _⟩ := (inv.chunks order low).slots address member
  have inside := (chunk_sizes order low).2.2.2.2 slot below
  omega

theorem live_place (base : Nat) (sys : System) (inv : Inv base sys) (allocation : Nat × Nat) (member : allocation ∈ sys.live) :
    (∃ order < 2, allocation.1 ∈ sys.users base order ∧ allocation.2 ≤ chunkBytes order) ∨
      allocation.1 + allocation.2 ≤ base ∨ base + 262144 ≤ allocation.1 := by
  rcases inv.placed allocation member with ⟨order, low, on, short⟩ | ⟨run, runMember, start, inside, stop⟩
  · exact Or.inl ⟨order, low, mem_users sys base order allocation member on, short⟩
  · have outside := (inv.runs run runMember).2.2.1
    exact Or.inr (by omega)

theorem open_slot_apart (base order slot : Nat) (sys : System) (inv : Inv base sys) (low : order < 2)
    (found : openSlot sys.heap (chunkPage base order) = some slot) :
    slot < slotCount order ∧ 48 ≤ slot * chunkBytes order ∧
      ∀ other < 2, ∀ used ∈ sys.users base other,
        chunkPage base order + slot * chunkBytes order + chunkBytes order ≤ used ∨
          used + chunkBytes other ≤ chunkPage base order + slot * chunkBytes order := by
  have chunks := inv.chunks order low
  have below : slot < slotCount order := by
    have spec := ((open_slot_eq_some_iff sys.heap (chunkPage base order) slot).mp found).1
    rwa [chunks.size] at spec
  have past := open_slot_past sys.heap _ order _ slot _ chunks found
  refine ⟨below, past, fun other otherLow used member => ?_⟩
  by_cases same : other = order
  · subst same
    obtain ⟨second, _, _, _, place, _⟩ := chunks.slots used member
    have different : slot ≠ second := by
      rintro rfl
      exact open_slot_unused sys.heap _ other _ slot _ chunks found (place ▸ member)
    have apart := slots_apart (chunkBytes other) slot second different
    omega
  · have page := chunk_page_eq base order
    have otherPage := chunk_page_eq base other
    have inside := (chunk_sizes order low).2.2.2.2 slot below
    have within := user_inside base other used sys inv otherLow member
    omega

theorem take_core (base order slot : Nat) (heap : Heap) (small : slot < 256) (core : Core base heap) :
    Core base (setSlot (heap.increment (chunkPage base order)) (chunkPage base order) slot) := by
  have page := chunk_page_eq base order
  refine core_frame base heap _ core rfl rfl (fun address above below => ?_) (fun j low => ?_)
  · exact take_word heap _ slot address small (by omega)
  · exact take_count heap _ slot _ (by rw [initPage, pageSize]; omega)

theorem take_chunks (base order other slot extra : Nat) (heap : Heap) (used : List Nat) (small : slot < 256) (low : other < 2)
    (different : other ≠ order) (chunks : Chunks heap (chunkPage base other) other extra used) :
    Chunks (setSlot (heap.increment (chunkPage base order)) (chunkPage base order) slot) (chunkPage base other) other
      extra used := by
  have page := chunk_page_eq base order
  have otherPage := chunk_page_eq base other
  obtain ⟨atLeast, _, few, _⟩ := chunk_sizes other low
  refine chunks_frame heap _ _ other _ _ (fun word below => ?_) rfl ?_ few atLeast chunks
  · exact take_word heap _ slot _ small (by omega)
  · exact take_count heap _ slot _ (by omega)

-- The descriptors that malloc_init draws lie in the first pages and behind the header of page 30.
theorem direct_place (base : Nat) (sys : System) (inv : Inv base sys) (descriptor : Nat) (member : descriptor ∈ sys.heap.direct) :
    base ≤ descriptor ∧ descriptor + 16 ≤ base + 262144 := by
  rcases inv.direct descriptor member with ⟨j, small, rfl⟩ | ⟨j, small, rfl⟩
  · have place := init_descriptor_cases base j
    omega
  · have place := init_descriptor_cases (initPage base 30) j
    rw [initDescriptor, ← emergDescriptor, initPage, pageSize] at place
    omega

theorem described_apart (base order slot : Nat) (sys : System) (inv : Inv base sys) (low : order < 2)
    (below : slot < slotCount order) (clear : slot ∉ describedSlots order) (descriptor : Nat)
    (member : descriptor ∈ sys.heap.direct) :
    Apart (chunkPage base order + slot * chunkBytes order) (chunkBytes order) descriptor 16 := by
  have counts : slotCount 0 = 256 ∧ slotCount 1 = 128 := ⟨rfl, rfl⟩
  have page := chunk_page_eq base order
  rw [Apart, page]
  rcases inv.direct descriptor member with ⟨j, small, rfl⟩ | ⟨j, small, rfl⟩
  · have place := init_descriptor_cases base j
    omega
  · have place := init_descriptor_cases (initPage base 30) j
    rw [initDescriptor, ← emergDescriptor, initPage, pageSize] at place
    interval_cases order
    · have free : slot ∉ [144, 192, 240] := clear
      simp only [List.mem_cons, List.not_mem_nil, or_false] at free
      rw [chunk_bytes_zero]
      omega
    · have free : slot ∉ [16, 40, 64, 88, 112] := clear
      simp only [List.mem_cons, List.not_mem_nil, or_false] at free
      rw [chunk_bytes_one]
      omega

theorem inv_take (base order slot bytes : Nat) (heap : Heap) (live : List (Nat × Nat)) (aligned : base % pageSize = 0)
    (inv : Inv base ⟨heap, live⟩) (low : order < 2) (fits : bytes ≤ chunkBytes order)
    (found : openSlot heap (chunkPage base order) = some slot) (clear : slot ∉ describedSlots order) :
    Inv base ⟨setSlot (heap.increment (chunkPage base order)) (chunkPage base order) slot,
      (chunkPage base order + slot * chunkBytes order, bytes) :: live⟩ := by
  have size : pageSize = 4096 := rfl
  have chunks := inv.chunks order low
  obtain ⟨atLeast, _, few, card, inPage⟩ := chunk_sizes order low
  have length := chunks_length heap _ order _ _ chunks
  obtain ⟨below, past, apartUsed⟩ := open_slot_apart base order slot ⟨heap, live⟩ inv low found
  have taken := chunks_take heap _ order _ slot _ (by omega) chunks found
  have apartDirect := described_apart base order slot ⟨heap, live⟩ inv low below clear
  have inside := inPage slot below
  have page := chunk_page_eq base order
  generalize slot * chunkBytes order = start at *
  have on : onPage (chunkPage base order) (chunkPage base order + start, bytes) = true := by
    rw [on_page_iff]
    dsimp only
    omega
  refine ⟨take_core base order slot heap (by omega) inv.core, fun other otherLow => ?_, fun allocation member => ?_, inv.runs,
    inv.direct, inv.pages, safe_cons heap _ live _ inv.safe rfl rfl rfl (fun other member => ?_) (fun header member => ?_)
    (fun descriptor member => ?_)⟩
  · have otherPage := chunk_page_eq base other
    rw [users_cons base other heap (setSlot (heap.increment (chunkPage base order)) (chunkPage base order) slot) live _ rfl]
    by_cases same : other = order
    · subst same
      rw [if_pos on]
      exact taken
    · have off : ¬ onPage (chunkPage base other) (chunkPage base order + start, bytes) = true := by
        rw [on_page_iff]
        dsimp only
        omega
      rw [if_neg off]
      exact take_chunks base order other slot _ heap _ (by omega) otherLow same (inv.chunks other otherLow)
  · rcases List.mem_cons.mp member with rfl | member
    · exact Or.inl ⟨order, low, on, fits⟩
    · exact inv.placed allocation member
  · rw [Apart]
    dsimp only
    rcases live_place base _ inv other member with ⟨second, secondLow, used, short⟩ | outside
    · have apart := apartUsed second secondLow other.1 used
      omega
    · omega
  · have headerAligned := (inv.pages header member).1
    rw [size] at headerAligned aligned
    rw [Apart]
    dsimp only
    omega
  · rw [Apart]
    dsimp only
    rcases List.mem_append.mp member with member | member
    · have apart := apartDirect descriptor member
      rw [Apart] at apart
      omega
    · have apart := apartUsed 0 (by decide) descriptor (List.mem_append_right _ member)
      have chunk : chunkBytes 0 = 16 := rfl
      omega

end Kraftwerk.Malloc
