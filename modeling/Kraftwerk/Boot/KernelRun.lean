import Kraftwerk.Boot.InitTables
import Kraftwerk.Boot.KernelInit
import Kraftwerk.Isr.FaultedProgram
import Kraftwerk.Vmem.BootReservation

set_option autoImplicit false

-- kernel_init up to the kprintf at its end: the memory managers are set up over the boot tables, and a page is faulted in.
namespace Kraftwerk.Boot

open CString FlatMemory Paging Vga

def testAddress : Addr := 0xFFFFFF83FFFF0000

def testValue : BitVec 64 := 0x007E5700

structure Kernel where
  terminal : Terminal
  idt : Isr.Idt
  pager : FramedPager
  hhReg : Vmem.Linked.RegDesc
  nodes : Vmem.Linked.Memory

-- The addresses of the stubs and of malloc_init_space, and the blocks that kmalloc answers for mmap and for the nodes of hh_reg.
structure Callees where
  address : Isr.Stub → Isr.Word
  mallocInitSpace : Addr
  mmap : Nat → List Pmem.BootMmap
  node : Vmem.Linked.Kmalloc

def writeLine (fuel : Nat) (data : Str) (kernel : Kernel) : Option Kernel :=
  (terminalWritestring fuel data kernel.terminal).map fun terminal => { kernel with terminal := terminal }

def pmemInit (fuel : Nat) (memMap : List Pmem.BootMmap) (kernel : Kernel) : Option Kernel :=
  (writeLine fuel (.literal "\npmem: Initializng kernel pmem allocation.") kernel).bind fun kernel =>
    writeLine fuel (.literal "\npmem: Finished initializng kernel pmem allocation.")
      { kernel with pager := { kernel.pager with lists := Pmem.pmemInitialize memMap } }

def vmemInit (kmalloc : Vmem.Linked.Kmalloc) (fuel : Nat) (kernel : Kernel) : Option Kernel :=
  (writeLine fuel (.literal "\nvmem: Initializng kernel vmem allocation.") kernel).bind fun kernel =>
    (Vmem.Linked.vmemInitialize kmalloc fuel kernel.nodes).bind fun (hhReg, nodes) =>
      writeLine fuel (.literal "\nvmem: Finished initializng kernel vmem allocation.") { kernel with hhReg := hhReg, nodes := nodes }

-- A fault comes to handle_pagefault through the gate of vector 14.
def accessMemory (address : Isr.Stub → Isr.Word) (root : Addr) (fuel : Nat) (access : Access Addr (BitVec 64)) (kernel : Kernel) :
    Option (List (BitVec 64) × Kernel) :=
  (if Isr.gateOffset (kernel.idt 14) = address .pagefault then execute root fuel kernel.pager access
    else attempt root kernel.pager access).map fun (loaded, pager) => (loaded, { kernel with pager := pager })

def pageFaultTest (address : Isr.Stub → Isr.Word) (root : Addr) (fuel : Nat) (kernel : Kernel) : Option Kernel :=
  (accessMemory address root fuel (.store testAddress testValue) kernel).bind fun (_, kernel) =>
    (writeLine fuel (.literal "\ninit: write complete.") kernel).bind fun kernel =>
      (accessMemory address root fuel (.load testAddress) kernel).bind fun (loaded, kernel) =>
        writeLine fuel (if loaded ≠ [testValue] then .literal "\ninit: PF test failed." else .literal "\ninit: PF test passed.") kernel

-- Up to the kprintf at its end.
def kernelInit (callees : Callees) (root : Addr) (fuel : Nat) (memory : Memory) (info : MultibootInfo) (magic : BitVec 32)
    (kernel : Kernel) : Option Kernel :=
  (kernelInitMap memory info magic callees.mallocInitSpace callees.mmap fuel kernel.terminal).bind fun (nMemRanges, mmap, terminal) =>
    (pmemInit fuel (mmap.take nMemRanges)
      { kernel with terminal := terminal, idt := Isr.initializeIdt callees.address kernel.idt }).bind fun kernel =>
      (vmemInit callees.node fuel kernel).bind fun kernel => pageFaultTest callees.address root fuel kernel

-- The first frames that physical_memory::allocate answers: none of them is a boot table, and each one reads as clear.
structure FirstFrames (base : Addr) (rest : Paging.Memory) (lists : Pmem.FreeLists) (frames : List Addr) : Prop where
  draws : Pmem.Draws lists frames
  four : 4 ≤ frames.length
  whole : ∀ page ∈ frames, frame page = page
  distinct : frames.Nodup
  apart : ∀ page ∈ frames, ∀ table, page ≠ tableAddr base table
  clear : ∀ page ∈ frames, Paging.Clear rest page

theorem first_frames_pageable (base : Addr) (rest : Paging.Memory) (lists : Pmem.FreeLists) (frames : List Addr) (loaded : Loaded base)
    (first : FirstFrames base rest lists frames) : Pageable (tableAddr base .bootPML4T) ⟨bootMemory base rest, frames⟩ where
  tree := boot_tables_tree base rest loaded
  plain := boot_tables_plain base rest loaded
  fresh := by
    refine ⟨fun page member => ⟨first.whole page member, fun vaddr level outside low on => ?_⟩, first.distinct⟩
    obtain ⟨table, same, _⟩ := boot_tables_on base rest loaded _ page (path_to_own vaddr level outside low) on
    exact first.apart page member table same
  clear := by
    intro page member index
    dsimp only at member ⊢
    rw [boot_memory_behind base rest loaded page index (first.whole page member ▸ frame_aligned page) (first.apart page member)]
    exact first.clear page member index

def testPlace : Place [testAddress] :=
  ⟨testAddress, ⟨testAddress, List.mem_cons_self, rfl⟩, by decide, by decide, .inr (by decide)⟩

-- The one node that it makes ends at the end of the address space, where no reservation fits.
theorem vmem_initialize_returns (kmalloc : Vmem.Linked.Kmalloc) (fuel : Nat) (nodes : Vmem.Linked.Memory)
    (given : kmalloc.answer nodes ≠ 0) : ∃ made, Vmem.Linked.vmemInitialize kmalloc (fuel + 2) nodes = some made := by
  refine Option.isSome_iff_exists.mp ?_
  rw [Vmem.Linked.vmemInitialize]
  dsimp only
  rw [if_neg given, Vmem.Linked.reserveRegion, Vmem.Linked.reserveFrom]
  dsimp only
  rw [if_neg given]
  simp only [Vmem.Linked.set_nodes, if_true]
  rw [if_neg (by decide), if_neg (by decide), Vmem.Linked.reserveFrom, if_pos rfl, Option.map_some, Option.isSome_some]

-- What the pager has come to: the test page holds its value, and everything else is where it was.
structure Tested (base : Addr) (rest : Paging.Memory) (frames : List Addr) (pager : FramedPager) : Prop where
  value : load (tableAddr base .bootPML4T) pager.mem testAddress = some testValue
  idle : pager.pfaulting = false
  map : ∀ vaddr, OutsideSlot vaddr → bootMap vaddr ≠ none → walk pager.mem (tableAddr base .bootPML4T) vaddr = bootMap vaddr
  words : FramesKept (bootMemory base rest) pager.mem (tableAddr base .bootPML4T) frames

theorem test_accesses (base : Addr) (rest : Paging.Memory) (frames : List Addr) (pager : FramedPager) (fuel : Nat) (loaded : Loaded base)
    (booted : pager.mem = bootMemory base rest) (idle : pager.pfaulting = false) (first : FirstFrames base rest pager.lists frames) :
    ∃ stored last, execute (tableAddr base .bootPML4T) (fuel + 2) pager (.store testAddress testValue) = some ([], stored) ∧
      execute (tableAddr base .bootPML4T) (fuel + 2) stored (.load testAddress) = some ([testValue], last) ∧
      Tested base rest frames last := by
  have testOutside : OutsideSlot testAddress := by decide
  have unmapped : bootMap testAddress = none := by decide
  have outside : ∀ page ∈ [testAddress], OutsideSlot page := List.forall_mem_singleton.mpr testOutside
  have pageable := first_frames_pageable base rest pager.lists frames loaded first
  have absent : mapping (bootMemory base rest) (tableAddr base .bootPML4T) testAddress = none := by
    have walked := boot_walk_exact base rest loaded testAddress testOutside
    rw [unmapped, walk_mapping _ _ testAddress pageable.plain testOutside] at walked
    exact Option.map_eq_none_iff.mp walked
  rw [← booted] at pageable absent
  have untouched := untouched_backed _ [testAddress] frames pager idle first.draws pageable first.four
    (List.forall_mem_singleton.mpr absent)
  obtain ⟨_, stored, more, wrote, storedBacked, rfl, there, _⟩ :=
    access_served _ [testAddress] frames pager.mem pager frames outside untouched fuel (.store testPlace testValue)
  obtain ⟨_, last, few, read, lastBacked, ⟨word, rfl, here⟩, kept⟩ :=
    access_served _ [testAddress] frames pager.mem stored more outside storedBacked fuel (.load testPlace)
  obtain rfl : testValue = word := Option.some.inj ((kept testPlace testValue there).symm.trans here)
  refine ⟨stored, last, wrote, read, here, lastBacked.idle, fun vaddr vaddrOutside mapped => ?_, booted ▸ lastBacked.words⟩
  have elsewhere : ¬ InPages [testAddress] vaddr := by
    rintro ⟨page, member, same⟩
    obtain rfl := List.mem_singleton.mp member
    have none : walk pager.mem (tableAddr base .bootPML4T) vaddr = none := by
      rw [walk_mapping _ _ vaddr pageable.plain vaddrOutside, same_page_mapping _ _ testAddress vaddr same, absent, Option.map_none]
    rw [booted, boot_walk_exact base rest loaded vaddr vaddrOutside] at none
    exact mapped none
  rw [walk_mapping _ _ vaddr lastBacked.pageable.plain vaddrOutside, lastBacked.others vaddr vaddrOutside elsewhere,
    ← walk_mapping _ _ vaddr pageable.plain vaddrOutside, booted, boot_walk_exact base rest loaded vaddr vaddrOutside]

section
variable (fuel : Nat) (enough : 2 ^ 32 ≤ fuel) (kernel : Kernel) (page : Page) (shows : Shows kernel.terminal page)

include enough shows

theorem write_line_shown (data : Str) (short : data.chars.length < 2 ^ 32) :
    ∃ terminal, writeLine fuel data kernel = some { kernel with terminal := terminal } ∧ Shows terminal (page.putAll data.chars) := by
  obtain ⟨terminal, written, shown⟩ := string_shown fuel kernel.terminal page data shows short enough
  exact ⟨terminal, by rw [writeLine, written, Option.map_some], shown⟩

theorem pmem_init_shown (memMap : List Pmem.BootMmap) :
    ∃ terminal, pmemInit fuel memMap kernel =
        some { kernel with terminal := terminal, pager := { kernel.pager with lists := Pmem.pmemInitialize memMap } } ∧
      Shows terminal (page.putAll ((Str.literal "\npmem: Initializng kernel pmem allocation.").chars ++
        (Str.literal "\npmem: Finished initializng kernel pmem allocation.").chars)) := by
  obtain ⟨first, one, page1⟩ := write_line_shown fuel enough kernel page shows
    (.literal "\npmem: Initializng kernel pmem allocation.") (by decide)
  obtain ⟨second, two, page2⟩ := write_line_shown fuel enough
    { kernel with terminal := first, pager := { kernel.pager with lists := Pmem.pmemInitialize memMap } } _ page1
    (.literal "\npmem: Finished initializng kernel pmem allocation.") (by decide)
  exact ⟨second, by rw [pmemInit, one, Option.bind_some, two], by rw [page_put_all_append]; exact page2⟩

theorem vmem_init_shown (kmalloc : Vmem.Linked.Kmalloc) (given : kmalloc.answer kernel.nodes ≠ 0) :
    ∃ terminal, ∃ made : Vmem.Linked.RegDesc × Vmem.Linked.Memory,
      vmemInit kmalloc fuel kernel = some { kernel with terminal := terminal, hhReg := made.1, nodes := made.2 } ∧
      Shows terminal (page.putAll ((Str.literal "\nvmem: Initializng kernel vmem allocation.").chars ++
        (Str.literal "\nvmem: Finished initializng kernel vmem allocation.").chars)) := by
  obtain ⟨first, one, page1⟩ := write_line_shown fuel enough kernel page shows
    (.literal "\nvmem: Initializng kernel vmem allocation.") (by decide)
  obtain ⟨made, done⟩ := vmem_initialize_returns kmalloc (fuel - 2) kernel.nodes given
  rw [Nat.sub_add_cancel (by omega)] at done
  obtain ⟨second, two, page2⟩ := write_line_shown fuel enough { kernel with terminal := first, hhReg := made.1, nodes := made.2 } _ page1
    (.literal "\nvmem: Finished initializng kernel vmem allocation.") (by decide)
  refine ⟨second, made, ?_, by rw [page_put_all_append]; exact page2⟩
  rw [vmemInit, one, Option.bind_some]
  dsimp only
  rw [done, Option.bind_some]
  exact two

theorem page_fault_test_passes (address : Isr.Stub → Isr.Word) (base : Addr) (rest : Paging.Memory) (frames : List Addr)
    (loaded : Loaded base) (booted : kernel.pager.mem = bootMemory base rest) (idle : kernel.pager.pfaulting = false)
    (first : FirstFrames base rest kernel.pager.lists frames) (gate : Isr.gateOffset (kernel.idt 14) = address .pagefault) :
    ∃ terminal pager, pageFaultTest address (tableAddr base .bootPML4T) fuel kernel =
        some { kernel with terminal := terminal, pager := pager } ∧ Tested base rest frames pager ∧
      Shows terminal (page.putAll ((Str.literal "\ninit: write complete.").chars ++ (Str.literal "\ninit: PF test passed.").chars)) := by
  obtain ⟨stored, last, wrote, read, tested⟩ := test_accesses base rest frames kernel.pager (fuel - 2) loaded booted idle first
  rw [Nat.sub_add_cancel (by omega)] at wrote read
  obtain ⟨one, first, page1⟩ := write_line_shown fuel enough { kernel with pager := stored } page shows
    (.literal "\ninit: write complete.") (by decide)
  obtain ⟨two, second, page2⟩ := write_line_shown fuel enough { kernel with terminal := one, pager := last } _ page1
    (.literal "\ninit: PF test passed.") (by decide)
  refine ⟨two, last, ?_, tested, by rw [page_put_all_append]; exact page2⟩
  rw [pageFaultTest, accessMemory, if_pos gate, wrote, Option.map_some, Option.bind_some]
  dsimp only
  rw [first, Option.bind_some, accessMemory, if_pos gate]
  dsimp only
  rw [read, Option.map_some, Option.bind_some]
  dsimp only
  rw [if_neg (fun different => different rfl)]
  exact second

end

def initText : List Byte :=
  (Str.literal "\npmem: Initializng kernel pmem allocation.").chars ++
    (Str.literal "\npmem: Finished initializng kernel pmem allocation.").chars ++
    ((Str.literal "\nvmem: Initializng kernel vmem allocation.").chars ++
      (Str.literal "\nvmem: Finished initializng kernel vmem allocation.").chars) ++
    ((Str.literal "\ninit: write complete.").chars ++ (Str.literal "\ninit: PF test passed.").chars)

-- On the boot tables, with a memory map whose first four frames are no part of them, the page-fault test passes: the test page is
-- faulted in and read back, and the screen is the window of the page with all of the texts up to then.
theorem kernel_init_tested (callees : Callees) (base : Addr) (rest : Paging.Memory) (frames : List Addr) (memory : Memory)
    (info : MultibootInfo) (magic : BitVec 32) (entries : List (BitVec 32)) (kernel : Kernel) (loaded : Loaded base)
    (booted : kernel.pager.mem = bootMemory base rest) (idle : kernel.pager.pfaulting = false)
    (walked : MapWalk memory (mmapStop info) info.mmapAddr.toNat entries)
    (room : ((entries.map memory).filter usable).length ≤ (callees.mmap ((entries.map memory).filter usable).length).length)
    (first : FirstFrames base rest (Pmem.pmemInitialize (((entries.map memory).filter usable).map toRange)) frames)
    (given : callees.node.answer kernel.nodes ≠ 0) :
    ∃ fuel last, kernelInit callees (tableAddr base .bootPML4T) fuel memory info magic kernel = some last ∧
      Tested base rest frames last.pager ∧
      Shows last.terminal (emptyPage.putAll
        (mapText magic callees.mallocInitSpace ((entries.map memory).filter usable) ++ initText)) := by
  let fuel := 2 ^ 32 + entries.length
  obtain ⟨idt, idtEq⟩ : ∃ idt, Isr.initializeIdt callees.address kernel.idt = idt := ⟨_, rfl⟩
  have gate : Isr.gateOffset (idt 14) = callees.address .pagefault := idtEq ▸ Isr.page_fault_installed callees.address kernel.idt
  have enough : 2 ^ 32 ≤ fuel := Nat.le_add_right _ _
  obtain ⟨mmap, terminal, mapped, filled, page1⟩ :=
    kernel_init_map_returns memory info magic callees.mallocInitSpace callees.mmap entries fuel kernel.terminal walked (Nat.le_refl _) room
  obtain ⟨second, pmemDone, page2⟩ := pmem_init_shown fuel enough
    { kernel with terminal := terminal, idt := idt } _ page1
    (((entries.map memory).filter usable).map toRange)
  obtain ⟨third, made, vmemDone, page3⟩ := vmem_init_shown fuel enough
    { kernel with
      terminal := second, idt := idt,
      pager := { kernel.pager with lists := Pmem.pmemInitialize (((entries.map memory).filter usable).map toRange) } }
    _ page2 callees.node given
  obtain ⟨fourth, pager, tested, passed, page4⟩ := page_fault_test_passes fuel enough
    { kernel with
      terminal := third, idt := idt, hhReg := made.1, nodes := made.2,
      pager := { kernel.pager with lists := Pmem.pmemInitialize (((entries.map memory).filter usable).map toRange) } }
    _ page3 callees.address base rest frames loaded booted idle first gate
  refine ⟨fuel, { kernel with terminal := fourth, idt := idt, hhReg := made.1, nodes := made.2, pager := pager }, ?_, passed, ?_⟩
  · rw [kernelInit, mapped, Option.bind_some]
    dsimp only
    rw [idtEq, filled, pmemDone, Option.bind_some, vmemDone, Option.bind_some, tested]
  · simp only [page_put_all_append, initText] at page4 ⊢
    exact page4

-- 128 MiB of memory: the largest block is the kernel's own, but its frames are handed out from the far end.
def threeEntriesFrames : List Addr := [0x3EFF000, 0x3EFE000, 0x3EFD000, 0x3EFC000]

theorem three_entries_ranges : (([0x9000, 0x9018, 0x9033].map threeEntries).filter usable).map toRange = [⟨0x100000, 0x7EE0000⟩] := by decide

theorem three_entries_drawn : Pmem.Draws (Pmem.pmemInitialize [⟨0x100000, 0x7EE0000⟩]) threeEntriesFrames :=
  ⟨_, rfl, _, rfl, _, rfl, _, rfl, trivial⟩

theorem three_entries_above : ∀ page ∈ threeEntriesFrames, frame page = page ∧ 0x10F000 ≤ page.toNat := by
  simp only [threeEntriesFrames, List.forall_mem_cons]
  exact ⟨by decide, by decide, by decide, by decide, fun _ none => absurd none List.not_mem_nil⟩

theorem three_entries_first : FirstFrames 0x101000 (fun _ => 0) (Pmem.pmemInitialize [⟨0x100000, 0x7EE0000⟩]) threeEntriesFrames where
  draws := three_entries_drawn
  four := by decide
  whole := fun page member => (three_entries_above page member).1
  distinct := by decide
  apart := by
    intro page member table same
    have number := number_bound table
    have behind := (three_entries_above page member).2
    rw [same, table_addr_to_nat 0x101000 image_behind_loaded, show (0x101000 : Addr).toNat = 0x101000 by rfl] at behind
    omega
  clear := fun _ _ _ => (by decide : present 0 = false)

def bootCallees : Callees where
  address := fun _ => 0x200000
  mallocInitSpace := 0xFFFFFF8000113000
  mmap := fun n => List.replicate n ⟨0, 0⟩
  node := Vmem.Linked.rowKmalloc

def bootKernel : Kernel where
  terminal := ⟨5, 7, 0, fun _ => 0⟩
  idt := fun _ => ⟨0, 0, 0, 0, 0, 0, 0⟩
  pager := ⟨⟨bootMemory 0x101000 fun _ => 0, fun _ => []⟩, false⟩
  hhReg := ⟨0, 0, 0⟩
  nodes := ⟨fun _ => ⟨⟨0, 0, false⟩, 0⟩, 0, []⟩

theorem small_machine_boots :
    ∃ fuel last, kernelInit bootCallees (tableAddr 0x101000 .bootPML4T) fuel threeEntries threeEntriesInfo 0x2BADB002 bootKernel =
        some last ∧
      Tested 0x101000 (fun _ => 0) threeEntriesFrames last.pager ∧
      Shows last.terminal (emptyPage.putAll (mapText 0x2BADB002 bootCallees.mallocInitSpace
        (([0x9000, 0x9018, 0x9033].map threeEntries).filter usable) ++ initText)) :=
  kernel_init_tested bootCallees 0x101000 (fun _ => 0) threeEntriesFrames threeEntries threeEntriesInfo 0x2BADB002
    [0x9000, 0x9018, 0x9033] bootKernel image_behind_loaded rfl rfl three_entries_walked (by decide)
    (three_entries_ranges ▸ three_entries_first) (by decide)

end Kraftwerk.Boot
