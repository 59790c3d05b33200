import Mathlib.Algebra.Group.Nat.Defs
import Mathlib.Logic.Function.Basic
import Mathlib.Data.Nat.Bits

set_option autoImplicit false

-- os/core/malloc.cpp. word holds the bitmap words of the page headers and the pointers of the
-- descriptors at their addresses. malloc_emerg_space follows malloc_init_space, which is at base.
namespace Kraftwerk.Malloc

structure Heap where
  word : Nat → Nat
  chunkSize : Nat → Nat
  nAllocations : Nat → Nat
  mallocPages : Nat → Nat
  emergPages : Nat
  -- Of what is handed out: the pages, their headers, malloc_init's descriptors, all others, nodes.
  mapped : List (Nat × Nat)
  pages : List Nat
  direct : List Nat
  descriptors : List Nat
  nodes : List Nat

def pageSize : Nat := 4096

def mallocInitPages : Nat := 32

def mallocEmergPages : Nat := 32

def addressCount : Nat := 2 ^ 64

def Heap.setWord (heap : Heap) (address value : Nat) : Heap := { heap with word := Function.update heap.word address value }

def Heap.setChunkSize (heap : Heap) (page order : Nat) : Heap :=
  { heap with chunkSize := Function.update heap.chunkSize page order }

def Heap.setCount (heap : Heap) (page count : Nat) : Heap :=
  { heap with nAllocations := Function.update heap.nAllocations page count }

def Heap.increment (heap : Heap) (page : Nat) : Heap := heap.setCount page ((heap.nAllocations page + 1) % 2 ^ 16)

def Heap.decrement (heap : Heap) (page : Nat) : Heap :=
  heap.setCount page ((heap.nAllocations page + (2 ^ 16 - 1)) % 2 ^ 16)

@[simp] theorem set_word_word (heap : Heap) (address value other : Nat) :
    (heap.setWord address value).word other = if other = address then value else heap.word other :=
  Function.update_apply _ _ _ _

@[simp] theorem set_count_word (heap : Heap) (page count : Nat) : (heap.setCount page count).word = heap.word := rfl

def Heap.pageData (heap : Heap) (descriptor : Nat) : Nat := heap.word descriptor

def Heap.next (heap : Heap) (descriptor : Nat) : Nat := heap.word (descriptor + 8)

def Heap.setPageData (heap : Heap) (descriptor page : Nat) : Heap := heap.setWord descriptor page

def Heap.setNext (heap : Heap) (descriptor next : Nat) : Heap := heap.setWord (descriptor + 8) next

def getChunkAddress (pageStart chunkN order : Nat) : Nat := pageStart + chunkN <<< (order + 4)

-- 1 << (i & 63) shifts an int: the count is taken modulo 32, and bit 31 is the sign.
def slotMask (slot : Nat) : Nat := if slot % 32 = 31 then 2 ^ 64 - 2 ^ 31 else 2 ^ (slot % 32)

def bitmapWord (page slot : Nat) : Nat := page + 8 * (slot / 64)

def isOpen (heap : Heap) (page slot : Nat) : Bool := heap.word (bitmapWord page slot) &&& slotMask slot == 0

def setSlot (heap : Heap) (page slot : Nat) : Heap :=
  heap.setWord (bitmapWord page slot) (heap.word (bitmapWord page slot) ||| slotMask slot)

def clearSlot (heap : Heap) (page slot : Nat) : Heap :=
  heap.setWord (bitmapWord page slot) (heap.word (bitmapWord page slot) &&& (2 ^ 64 - 1 - slotMask slot))

def slotCount (order : Nat) : Nat := 4096 >>> (order + 4)

def openSlot (heap : Heap) (page : Nat) : Option Nat :=
  (List.range (slotCount (heap.chunkSize page))).find? (isOpen heap page)

def mallocMarkOpenSlot (heap : Heap) (page : Nat) : Heap × Nat :=
  match openSlot heap page with
  | some slot => (setSlot heap page slot, slot)
  | none => (heap, 0)

def reservedBits (order : Nat) : Nat := if order = 0 then 7 else if order = 1 then 3 else 1

def mallocPreparePghdr (heap : Heap) (page order : Nat) : Heap :=
  { ((heap.setWord page (heap.word page ||| reservedBits order)).setChunkSize page order).setCount page 0 with
    pages := page :: heap.pages }

@[simp] theorem prepare_pghdr_word (heap : Heap) (page order other : Nat) :
    (mallocPreparePghdr heap page order).word other =
      if other = page then heap.word page ||| reservedBits order else heap.word other :=
  Function.update_apply _ _ _ _

-- page is a pointer to a header of 48 bytes, so the sum counts in headers.
def mallocDirectAlloc (heap : Heap) (page : Nat) : Heap × Nat :=
  let marked := mallocMarkOpenSlot heap page
  if marked.2 = 0 then (marked.1, 0)
  else (marked.1.increment page, page + 48 * (marked.2 <<< (heap.chunkSize page + 4)))

def directDescriptor (heap : Heap) (page : Nat) : Heap × Nat :=
  let new := mallocDirectAlloc heap page
  ({ new.1 with direct := new.2 :: new.1.direct }, new.2)

def firstPage (heap : Heap) (good : Nat → Bool) : Nat → Nat → Option Nat
  | 0, _ => none
  | fuel + 1, cur =>
      if cur = 0 then some 0
      else if good (heap.nAllocations (heap.pageData cur)) then some cur
      else firstPage heap good fuel (heap.next cur)

def initPage (base index : Nat) : Nat := base + pageSize * index

def initHeader (heap : Heap) (descriptor page order : Nat) : Heap :=
  mallocPreparePghdr (heap.setPageData descriptor page) page order

def initPair (base p0Descriptor : Nat) (state : Heap × Nat × Nat) (i : Nat) : Heap × Nat × Nat :=
  let nd1 := directDescriptor state.1 (state.1.pageData p0Descriptor)
  let nd2 := directDescriptor nd1.1 (nd1.1.pageData p0Descriptor)
  let heap := initHeader (initHeader nd2.1 nd1.2 (initPage base i) 0) nd2.2 (initPage base (i + 1)) 1
  ((heap.setNext nd1.2 state.2.1).setNext nd2.2 state.2.2, nd1.2, nd2.2)

def initEmerg (base : Nat) : List Nat → Heap → Nat → Option Heap
  | [], heap, _ => some heap
  | i :: rest, heap, emergHead =>
      (firstPage heap (· < 254) addressCount (heap.mallocPages 0)).bind (fun cur =>
        if cur = 0 then none
        else
          let nd1 := directDescriptor heap (heap.pageData cur)
          let heap := initHeader nd1.1 nd1.2 (initPage base (mallocInitPages + i)) 0
          initEmerg base rest (heap.setNext nd1.2 emergHead) nd1.2)

def initStart (base : Nat) (heap : Heap) : Heap × Nat × Nat :=
  let d0 := directDescriptor (mallocPreparePghdr heap base 0) base
  let d1 := directDescriptor d0.1 base
  (initHeader ((d1.1.setPageData d0.2 base).setCount base 2) d1.2 (initPage base 1) 0, d0.2, d1.2)

-- The last line of the source stores emerg_pages, which is NULL, to emerg_head.
def mallocInit (base : Nat) (heap : Heap) : Option Heap :=
  let start := initStart base heap
  let lists := ((List.range' 1 (mallocInitPages / 2 - 1)).map (2 * ·)).foldl (initPair base start.2.1) start
  let heap := { lists.1 with
    mallocPages := Function.update (Function.update lists.1.mallocPages 0 lists.2.1) 1 lists.2.2, emergPages := 0 }
  initEmerg base (List.range mallocEmergPages) heap 0

def zeroed (base : Nat) (memory : Nat → Nat) (address : Nat) : Nat :=
  if base ≤ address ∧ address < base + 262144 then 0 else memory address

def boot (base : Nat) (word chunkSize nAllocations : Nat → Nat) : Heap :=
  ⟨zeroed base word, zeroed base chunkSize, zeroed base nAllocations, fun _ => 0, 0, [], [], [], [], []⟩

def orderOf (bytes : Nat) : Nat := max (Nat.log2 bytes) 4 - 4

def kernPages (bytes : Nat) : Nat := (if 0 < bytes >>> 12 then bytes >>> 12 else 1) % 2 ^ 32

def hasRoom (order count : Nat) : Bool := count < slotCount order - 1

def takeSlot (heap : Heap) (chosenPage order : Nat) : Heap × Nat :=
  let page := heap.pageData chosenPage
  let marked := mallocMarkOpenSlot (heap.increment page) page
  (marked.1, getChunkAddress page marked.2 order)

-- A full page is skipped by continue, with cur as it is.
def fullestPage (heap : Heap) : Nat → Nat → Nat → Nat → Option Nat
  | 0, _, _, _ => none
  | fuel + 1, cur, maxAlloc, maxPage =>
      if cur = 0 then some maxPage
      else if 252 ≤ heap.nAllocations (heap.pageData cur) then fullestPage heap fuel cur maxAlloc maxPage
      else if maxAlloc < heap.nAllocations (heap.pageData cur) then
        fullestPage heap fuel (heap.next cur) (heap.nAllocations (heap.pageData cur)) cur
      else fullestPage heap fuel (heap.next cur) maxAlloc maxPage

section
variable (allocateKern : Heap → Nat → Option (Heap × Nat))

-- The fault handler halts on a write through NULL.
def mallocAllocateDescriptorPageWith (heap : Heap) : Option (Heap × Nat) :=
  (allocateKern heap 1).bind (fun new =>
    if new.2 = 0 then none
    else
      let desc := getChunkAddress new.2 4 0
      let heap := mallocPreparePghdr (new.1.setPageData desc new.2) new.2 0
      let heap := ((heap.setWord new.2 (heap.word new.2 ||| 0x1F)).setChunkSize new.2 0).setCount new.2 2
      some ({ heap with descriptors := getChunkAddress new.2 5 0 :: desc :: heap.descriptors }, getChunkAddress new.2 5 0))

def mallocAllocateDescriptorWith (heap : Heap) : Option (Heap × Nat) :=
  (fullestPage heap addressCount (heap.mallocPages 0) 0 0).bind (fun maxPage =>
    if maxPage = 0 then mallocAllocateDescriptorPageWith allocateKern heap
    else
      let page := heap.pageData maxPage
      let marked := mallocMarkOpenSlot heap page
      let address := getChunkAddress page marked.2 0
      some ({ marked.1.increment page with descriptors := address :: heap.descriptors }, address))

def mallocPrepareNewPageWith (heap : Heap) (order : Nat) : Option (Heap × Nat) :=
  (allocateKern heap 1).bind (fun new =>
    if new.2 = 0 then none
    else
      let heap := (new.1.setWord new.2 (new.1.word new.2 ||| reservedBits order)).setChunkSize new.2 order
      let heap := { heap with pages := new.2 :: heap.pages }
      (if heap.mallocPages 0 = 0 then mallocAllocateDescriptorPageWith allocateKern heap
        else mallocAllocateDescriptorWith allocateKern heap).map (fun desc =>
          ((desc.1.setPageData desc.2 new.2).setCount new.2 0, desc.2)))

-- The middle of the emergency store brings another page into it.
def growEmergWith (kmalloc : Heap → Nat → Nat → Option (Heap × Nat)) (heap : Heap) : Option Heap :=
  (allocateKern heap 1).bind (fun new =>
    (kmalloc new.1 16 1).bind (fun desc =>
      if desc.2 = 0 ∨ new.2 = 0 then none
      else
        let heap := mallocPreparePghdr (desc.1.setPageData desc.2 new.2) new.2 0
        some { heap.setNext desc.2 heap.emergPages with emergPages := desc.2, descriptors := desc.2 :: heap.descriptors }))

def mallocEmergAllocWith (kmalloc : Heap → Nat → Nat → Option (Heap × Nat)) : Nat → Heap → Nat → Nat → Option (Heap × Nat)
  | 0, _, _, _ => none
  | fuel + 1, heap, cur, order =>
      if cur = 0 then some (heap, 0)
      else
        let hdr := heap.pageData cur
        let heap := if heap.nAllocations hdr = 0 then heap.setChunkSize hdr order else heap
        if heap.chunkSize hdr = order ∧ heap.nAllocations hdr < slotCount order then
          (if heap.nAllocations hdr + 1 = slotCount (order + 1) then growEmergWith allocateKern kmalloc heap else some heap).map
            (fun heap => mallocDirectAlloc heap hdr)
        else mallocEmergAllocWith kmalloc fuel heap (heap.next cur) order

end

-- kmalloc, malloc_emerg_alloc and allocate_kern call each other.
def kmallocFromWith (allocateKern : (Heap → Nat → Nat → Option (Heap × Nat)) → Heap → Nat → Option (Heap × Nat)) :
    Nat → Heap → Nat → Nat → Option (Heap × Nat)
  | 0, _, _, _ => none
  | fuel + 1, heap, bytes, flags =>
      let inner := kmallocFromWith allocateKern fuel
      if 1024 < bytes then allocateKern inner heap (kernPages bytes)
      else
        (firstPage heap (hasRoom (orderOf bytes)) addressCount (heap.mallocPages (orderOf bytes))).bind (fun chosenPage =>
          if chosenPage = 0 then
            if flags % 2 = 1 then
              mallocEmergAllocWith (allocateKern inner) inner addressCount heap heap.emergPages (orderOf bytes)
            else (mallocPrepareNewPageWith (allocateKern inner) heap (orderOf bytes)).map (fun new =>
              takeSlot new.1 new.2 (orderOf bytes))
          else some (takeSlot heap chosenPage (orderOf bytes)))

def Heap.handOut (heap : Heap) (pages address : Nat) : Heap :=
  { heap with mapped := (address, pages * pageSize) :: heap.mapped }

section
-- The functions over an allocate_kern that answers by what it has handed out and takes nothing
-- from the heap for its list.
variable (kern : List (Nat × Nat) → Nat → Nat)

def allocateKern (heap : Heap) (pages : Nat) : Heap × Nat :=
  (heap.handOut pages (kern heap.mapped pages), kern heap.mapped pages)

def takesNoNode (heap : Heap) (pages : Nat) : Option (Heap × Nat) := some (allocateKern kern heap pages)

def mallocAllocateDescriptorPage : Heap → Option (Heap × Nat) := mallocAllocateDescriptorPageWith (takesNoNode kern)

def mallocAllocateDescriptor : Heap → Option (Heap × Nat) := mallocAllocateDescriptorWith (takesNoNode kern)

def mallocPrepareNewPage : Heap → Nat → Option (Heap × Nat) := mallocPrepareNewPageWith (takesNoNode kern)

def growEmerg (kmalloc : Heap → Nat → Nat → Option (Heap × Nat)) : Heap → Option Heap := growEmergWith (takesNoNode kern) kmalloc

def mallocEmergAlloc (kmalloc : Heap → Nat → Nat → Option (Heap × Nat)) : Nat → Heap → Nat → Nat → Option (Heap × Nat) :=
  mallocEmergAllocWith (takesNoNode kern) kmalloc

def kmallocFrom : Nat → Heap → Nat → Nat → Option (Heap × Nat) := kmallocFromWith (fun _ => takesNoNode kern)

def kmalloc (heap : Heap) (bytes flags : Nat) : Option (Heap × Nat) := kmallocFrom kern addressCount heap bytes flags

theorem descriptor_eq (heap : Heap) :
    mallocAllocateDescriptor kern heap =
      (fullestPage heap addressCount (heap.mallocPages 0) 0 0).bind (fun maxPage =>
        if maxPage = 0 then mallocAllocateDescriptorPage kern heap
        else
          let page := heap.pageData maxPage
          let marked := mallocMarkOpenSlot heap page
          let address := getChunkAddress page marked.2 0
          some ({ marked.1.increment page with descriptors := address :: heap.descriptors }, address)) := rfl

theorem emerg_alloc_succ (kmalloc : Heap → Nat → Nat → Option (Heap × Nat)) (fuel cur order : Nat) (heap : Heap) :
    mallocEmergAlloc kern kmalloc (fuel + 1) heap cur order =
      if cur = 0 then some (heap, 0)
      else
        let hdr := heap.pageData cur
        let heap := if heap.nAllocations hdr = 0 then heap.setChunkSize hdr order else heap
        if heap.chunkSize hdr = order ∧ heap.nAllocations hdr < slotCount order then
          (if heap.nAllocations hdr + 1 = slotCount (order + 1) then growEmerg kern kmalloc heap else some heap).map
            (fun heap => mallocDirectAlloc heap hdr)
        else mallocEmergAlloc kern kmalloc fuel heap (heap.next cur) order := rfl

theorem kmalloc_from_succ (fuel bytes flags : Nat) (heap : Heap) :
    kmallocFrom kern (fuel + 1) heap bytes flags =
      if 1024 < bytes then some (allocateKern kern heap (kernPages bytes))
      else
        (firstPage heap (hasRoom (orderOf bytes)) addressCount (heap.mallocPages (orderOf bytes))).bind (fun chosenPage =>
          if chosenPage = 0 then
            if flags % 2 = 1 then
              mallocEmergAlloc kern (kmallocFrom kern fuel) addressCount heap heap.emergPages (orderOf bytes)
            else (mallocPrepareNewPage kern heap (orderOf bytes)).map (fun new => takeSlot new.1 new.2 (orderOf bytes))
          else some (takeSlot heap chosenPage (orderOf bytes))) := rfl

end

def freedSlot (heap : Heap) (page allocation : Nat) : Nat := (allocation % 1024) >>> (heap.chunkSize page + 4)

-- The bitmap word is chosen by slot / 64 for the orders 0 and 1 only; slot is below 64.
def kfree (heap : Heap) (allocation : Nat) : Heap :=
  let page := allocation / pageSize * pageSize
  let slot := freedSlot heap page allocation
  (if heap.chunkSize page = 0 ∨ heap.chunkSize page = 1 then clearSlot heap page slot
    else heap.setWord page (heap.word page &&& (2 ^ 64 - 1 - slotMask slot))).decrement page

end Kraftwerk.Malloc
