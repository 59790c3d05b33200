import Kraftwerk.Boot.KernelRun
import Kraftwerk.Boot.StartRun

set_option autoImplicit false

-- The boot from the state that a boot loader leaves to behind the page-fault test of kernel_init.
namespace Kraftwerk.Boot

open LittleEndian Paging Vga

def longAt (mem : Bytes) (address : Nat) : BitVec 32 := BitVec.ofNat 32 (loadNumber mem address 4)

def quadAt (mem : Bytes) (address : Nat) : BitVec 64 := BitVec.ofNat 64 (loadNumber mem address 8)

-- Both structures are packed, and of multiboot_info the fields of the map are behind 44 bytes.
def infoAt (mem : Bytes) (mbInfo : Nat) : MultibootInfo := ⟨longAt mem (mbInfo + 44), longAt mem (mbInfo + 48)⟩

def mmapAt (mem : Bytes) (cur : BitVec 32) : MultibootMmap :=
  ⟨longAt mem cur.toNat, quadAt mem (cur.toNat + 4), quadAt mem (cur.toNat + 12), longAt mem (cur.toNat + 20)⟩

section
variable (cpu : Cpu)

def Cpu.readLong (address : Nat) : Option (BitVec 32) := (loadVia cpu.translate cpu.mem address 4).map (BitVec.ofNat 32)

def Cpu.readQuad (address : Nat) : Option (BitVec 64) := (loadVia cpu.translate cpu.mem address 8).map (BitVec.ofNat 64)

def Cpu.readInfo (mbInfo : Nat) : Option MultibootInfo :=
  (cpu.readLong (mbInfo + 44)).bind fun mmapLength => (cpu.readLong (mbInfo + 48)).map fun mmapAddr => ⟨mmapLength, mmapAddr⟩

def Cpu.readMmap (cur : BitVec 32) : Option MultibootMmap :=
  (cpu.readLong cur.toNat).bind fun size =>
    (cpu.readQuad (cur.toNat + 4)).bind fun baseAddr =>
      (cpu.readQuad (cur.toNat + 12)).bind fun length =>
        (cpu.readLong (cur.toNat + 20)).map fun type => ⟨size, baseAddr, length, type⟩

variable (low : Low cpu)

include low

theorem low_read_long (address : Nat) (above : 0x1000 ≤ address) (below : address + 4 ≤ 0x400000) :
    cpu.readLong address = some (longAt cpu.mem address) := by
  rw [Cpu.readLong, low_load cpu low address 4 above below, Option.map_some, longAt]

theorem low_read_quad (address : Nat) (above : 0x1000 ≤ address) (below : address + 8 ≤ 0x400000) :
    cpu.readQuad address = some (quadAt cpu.mem address) := by
  rw [Cpu.readQuad, low_load cpu low address 8 above below, Option.map_some, quadAt]

theorem low_read_info (mbInfo : Nat) (above : 0x1000 ≤ mbInfo) (below : mbInfo + 52 ≤ 0x400000) :
    cpu.readInfo mbInfo = some (infoAt cpu.mem mbInfo) := by
  rw [Cpu.readInfo, low_read_long cpu low _ (by omega) (by omega), Option.bind_some, low_read_long cpu low _ (by omega) (by omega),
    Option.map_some, infoAt]

theorem low_read_mmap (cur : BitVec 32) (above : 0x1000 ≤ cur.toNat) (below : cur.toNat + 24 ≤ 0x400000) :
    cpu.readMmap cur = some (mmapAt cpu.mem cur) := by
  rw [Cpu.readMmap, low_read_long cpu low _ above (by omega), Option.bind_some, low_read_quad cpu low _ (by omega) (by omega),
    Option.bind_some, low_read_quad cpu low _ (by omega) (by omega), Option.bind_some, low_read_long cpu low _ (by omega) (by omega),
    Option.map_some, mmapAt]

end

section
variable (mem after : Bytes)

theorem long_at_congr (address : Nat) (same : ∀ byte, address ≤ byte → byte < address + 4 → after byte = mem byte) :
    longAt after address = longAt mem address :=
  congrArg (BitVec.ofNat 32) (load_congr after mem address 4 same)

theorem quad_at_congr (address : Nat) (same : ∀ byte, address ≤ byte → byte < address + 8 → after byte = mem byte) :
    quadAt after address = quadAt mem address :=
  congrArg (BitVec.ofNat 64) (load_congr after mem address 8 same)

theorem info_at_congr (mbInfo : Nat) (same : ∀ byte, mbInfo ≤ byte → byte < mbInfo + 52 → after byte = mem byte) :
    infoAt after mbInfo = infoAt mem mbInfo := by
  rw [infoAt, infoAt, long_at_congr mem after _ fun byte start stop => same byte (by omega) (by omega),
    long_at_congr mem after _ fun byte start stop => same byte (by omega) (by omega)]

theorem mmap_at_congr (cur : BitVec 32) (same : ∀ byte, cur.toNat ≤ byte → byte < cur.toNat + 24 → after byte = mem byte) :
    mmapAt after cur = mmapAt mem cur := by
  rw [mmapAt, mmapAt, long_at_congr mem after _ fun byte start stop => same byte (by omega) (by omega),
    quad_at_congr mem after _ fun byte start stop => same byte (by omega) (by omega),
    quad_at_congr mem after _ fun byte start stop => same byte (by omega) (by omega),
    long_at_congr mem after _ fun byte start stop => same byte (by omega) (by omega)]

end

theorem map_walk_congr (memory other : Memory) (stop position : Nat) (entries : List (BitVec 32))
    (same : ∀ cur ∈ entries, other cur = memory cur) (walked : MapWalk memory stop position entries) :
    MapWalk other stop position entries := by
  induction walked with
  | done position ended fits => exact .done position ended fits
  | entry cur rest inside later ih =>
      obtain ⟨here, behind⟩ := List.forall_mem_cons.mp same
      refine .entry cur rest inside ?_
      rw [here]
      exact ih behind

-- Bytes where the boot tables map them to themselves, and which start leaves alone.
def Beyond (layout : Layout) (address count : Nat) : Prop :=
  0x1000 ≤ address ∧ address + count ≤ 0x400000 ∧ (address + count ≤ layout.base.toNat ∨ layout.stackTop ≤ address)

-- The memory map that the boot loader passes, with its entries in the order of the buffer.
structure MapIn (layout : Layout) (mem : Bytes) (mbInfo : Nat) (entries : List (BitVec 32)) : Prop where
  info : Beyond layout mbInfo 52
  ranges : ∀ cur ∈ entries, Beyond layout cur.toNat 24
  walked : MapWalk (mmapAt mem) (mmapStop (infoAt mem mbInfo)) (infoAt mem mbInfo).mmapAddr.toNat entries

section
variable (layout : Layout) (linked : Linked layout) (entry final : Cpu) (enters : EntersKernel layout entry final)

include linked enters

theorem beyond_kept (address count : Nat) (beyond : Beyond layout address count) (byte : Nat) (start : address ≤ byte)
    (stop : byte < address + count) : final.mem byte = entry.mem byte := by
  obtain ⟨_, _, apart⟩ := beyond
  have stack := linked.stack
  have lim : layout.bootGDTLim = layout.base.toNat + 0x9042 := Nat.add_assoc _ _ _
  exact enters.kept byte (by omega) (by omega)

theorem frame_kept (page : Addr) (whole : frame page = page) (behind : layout.stackTop ≤ page.toNat)
    (clear : Paging.Clear (words entry.mem) page) : Paging.Clear (words final.mem) page := by
  intro index
  have aligned : Aligned page := whole ▸ frame_aligned page
  have number := entry_addr_to_nat page index aligned
  rw [Aligned] at aligned
  have stack := linked.stack
  have lim : layout.bootGDTLim = layout.base.toNat + 0x9042 := Nat.add_assoc _ _ _
  rw [words_congr entry.mem final.mem _ fun byte start stop => enters.kept byte (by omega) (by omega)]
  exact clear index

end

-- kernel_init on the processor that start leaves. It reads the entries of the map where they are, as the tables map them.
def boot (callees : Callees) (layout : Layout) (fuel : Nat) (entry : Cpu) (kernel : Kernel) : Option (Cpu × Kernel) :=
  (runCode (startCode layout) (BitVec.ofNat 64 (layout.place 0)) entry).bind fun (rip, cpu) =>
    if rip = kernelAddr layout.kernelInit ∧ cpu.translate rip.toNat = some layout.kernelInit then
      (cpu.readInfo (cpu.reg .di).toNat).bind fun info =>
        (kernelInit callees cpu.root fuel (mmapAt cpu.mem) info (cpu.long .si)
          { kernel with pager := { kernel.pager with mem := words cpu.mem } }).map fun last => (cpu, last)
    else none

def loaderRanges (mem : Bytes) (entries : List (BitVec 32)) : List MultibootMmap := (entries.map (mmapAt mem)).filter usable

-- The frames that the page fault needs are behind the image.
structure FramesBehind (layout : Layout) (mem : Bytes) (entries : List (BitVec 32)) (frames : List Addr) : Prop where
  first : FirstFrames layout.base (words mem) (Pmem.pmemInitialize ((loaderRanges mem entries).map toRange)) frames
  behind : ∀ page ∈ frames, layout.stackTop ≤ page.toNat

section
variable (callees : Callees) (layout : Layout) (entry : Cpu) (kernel : Kernel) (entries : List (BitVec 32)) (frames : List Addr)

-- From what the boot loader has put into memory and registers alone, the machine gets behind the page-fault test: its magic value and
-- its memory map are what kernel_init shows, the entries are read through the tables that start has turned on, and the test page is
-- faulted in.
theorem start_to_test (linked : Linked layout) (entered : Entered layout entry) (free : entry.writeProtect = false)
    (below : layout.startKernel2 < 0x200000 ∧ layout.kernelInit < 0x200000)
    (map : MapIn layout entry.mem (entry.long .bx).toNat entries) (supply : FramesBehind layout entry.mem entries frames)
    (idle : kernel.pager.pfaulting = false)
    (room : (loaderRanges entry.mem entries).length ≤ (callees.mmap (loaderRanges entry.mem entries).length).length)
    (given : callees.node.answer kernel.nodes ≠ 0) :
    ∃ fuel cpu last, boot callees layout fuel entry kernel = some (cpu, last) ∧
      (∀ cur ∈ entries, cpu.readMmap cur = some (mmapAt entry.mem cur)) ∧ Tested layout.base (words cpu.mem) frames last.pager ∧
      Shows last.terminal (emptyPage.putAll
        (mapText (entry.long .ax) callees.mallocInitSpace (loaderRanges entry.mem entries) ++ initText)) := by
  obtain ⟨cpu, run, enters, there⟩ := (start_enters_kernel_iff layout linked entry entered).mpr ⟨free, below⟩
  have low := mapped_low layout linked cpu enters.mapped
  have sameInfo : infoAt cpu.mem (entry.long .bx).toNat = infoAt entry.mem (entry.long .bx).toNat :=
    info_at_congr entry.mem cpu.mem _ (beyond_kept layout linked entry cpu enters _ 52 map.info)
  have sameEntries : ∀ cur ∈ entries, mmapAt cpu.mem cur = mmapAt entry.mem cur := fun cur member =>
    mmap_at_congr entry.mem cpu.mem cur (beyond_kept layout linked entry cpu enters _ 24 (map.ranges cur member))
  have ranges : (entries.map (mmapAt cpu.mem)).filter usable = loaderRanges entry.mem entries :=
    congrArg (List.filter usable) (List.map_congr_left sameEntries)
  have mbInfo : (cpu.reg .di).toNat = (entry.long .bx).toNat := by
    rw [enters.info, BitVec.toNat_setWidth]
    have bound := (entry.long .bx).isLt
    omega
  have magic : cpu.long .si = entry.long .ax := by
    rw [Cpu.long, enters.magic, BitVec.setWidth_setWidth_of_le _ (by decide), BitVec.setWidth_eq]
  have read : cpu.readInfo (cpu.reg .di).toNat = some (infoAt entry.mem (entry.long .bx).toNat) := by
    rw [mbInfo, low_read_info cpu low _ map.info.1 map.info.2.1, sameInfo]
  have walked := map_walk_congr _ (mmapAt cpu.mem) _ _ entries sameEntries map.walked
  have first : FirstFrames layout.base (words cpu.mem)
      (Pmem.pmemInitialize (((entries.map (mmapAt cpu.mem)).filter usable).map toRange)) frames := by
    rw [ranges]
    have first := supply.first
    exact ⟨first.draws, first.four, first.whole, first.distinct, first.apart, fun page member =>
      frame_kept layout linked entry cpu enters page (first.whole page member) (supply.behind page member) (first.clear page member)⟩
  obtain ⟨fuel, last, returned, tested, shown⟩ := kernel_init_tested callees layout.base (words cpu.mem) frames (mmapAt cpu.mem)
    (infoAt entry.mem (entry.long .bx).toNat) (entry.long .ax) entries { kernel with pager := { kernel.pager with mem := words cpu.mem } }
    linked.tables enters.mapped.image.tables idle walked (ranges ▸ room) first given
  rw [ranges] at shown
  refine ⟨fuel, cpu, last, ?_, fun cur member => ?_, tested, shown⟩
  · rw [boot, run, Option.bind_some]
    dsimp only
    rw [if_pos ⟨rfl, there⟩, read, Option.bind_some, enters.mapped.root, magic, returned, Option.map_some]
  · rw [low_read_mmap cpu low cur (map.ranges cur member).1 (map.ranges cur member).2.1, sameEntries cur member]

end

-- Low memory and 126 MiB behind the first one, at 0xA000.
def mapNumbers : List Nat := [20, 0x9FC00 * 2 ^ 32, 2 ^ 32, 0x100000 * 2 ^ 32 + 20, 0x7EE0000 * 2 ^ 32, 2 ^ 32]

def loaderNumbers (address : Nat) : Nat :=
  if 0xA000 ≤ address ∧ address < 0xA030 then (mapNumbers[(address - 0xA000) / 8]?).getD 0
  else if address = 0x9028 then 48 * 2 ^ 32
  else if address = 0x9030 then 0xA000
  else 0

def loadedMem : Bytes := (loaderLeft loaderNumbers).mem

theorem loaded_info : infoAt loadedMem 0x9000 = ⟨48, 0xA000⟩ := by decide +kernel

theorem loaded_low : mmapAt loadedMem 0xA000 = ⟨20, 0, 0x9FC00, 1⟩ := by decide +kernel

theorem loaded_high : mmapAt loadedMem 0xA018 = ⟨20, 0x100000, 0x7EE0000, 1⟩ := by decide +kernel

theorem loaded_ranges : (loaderRanges loadedMem [0xA000, 0xA018]).map toRange = [⟨0x100000, 0x7EE0000⟩] := by decide +kernel

theorem loaded_map_in : MapIn smallLayout loadedMem 0x9000 [0xA000, 0xA018] where
  info := ⟨by decide, by decide, .inl (by decide)⟩
  ranges := List.forall_mem_cons.mpr
    ⟨⟨by decide, by decide, .inl (by decide)⟩, List.forall_mem_singleton.mpr ⟨by decide, by decide, .inl (by decide)⟩⟩
  walked := by
    rw [loaded_info]
    refine .entry 0xA000 _ (by decide) ?_
    rw [loaded_low]
    refine .entry 0xA018 _ (by decide) ?_
    rw [loaded_high]
    exact .done _ (by decide) (by decide)

theorem loaded_clear (page : Addr) (aligned : Aligned page) (behind : 0x10F000 ≤ page.toNat) : Paging.Clear (words loadedMem) page := by
  intro index
  have number := entry_addr_to_nat page index aligned
  have gdt : smallLayout.bootGDT = 0x10A000 := rfl
  have clear : imageNumbers smallLayout loaderNumbers ((entryAddr page index).toNat / 8 * 8) = 0 := by
    rw [imageNumbers, gdt, if_neg (by omega), if_neg (by omega), loaderNumbers, if_neg (by omega), if_neg (by omega), if_neg (by omega)]
  have word := words_of_numbers (imageNumbers smallLayout loaderNumbers) (entryAddr page index)
  rw [clear] at word
  exact (congrArg present word).trans (by decide)

theorem loaded_frames_behind : FramesBehind smallLayout loadedMem [0xA000, 0xA018] threeEntriesFrames where
  first := by
    have first := three_entries_first
    rw [loaded_ranges]
    exact ⟨first.draws, first.four, first.whole, first.distinct, first.apart, fun page member =>
      loaded_clear page (first.whole page member ▸ frame_aligned page) (three_entries_above page member).2⟩
  behind := fun page member => Nat.le_trans (by decide) (three_entries_above page member).2

theorem loaded_machine_tested :
    ∃ fuel cpu last, boot bootCallees smallLayout fuel (loaderLeft loaderNumbers) bootKernel = some (cpu, last) ∧
      (∀ cur ∈ [0xA000, 0xA018], cpu.readMmap cur = some (mmapAt (loaderLeft loaderNumbers).mem cur)) ∧
      Tested smallLayout.base (words cpu.mem) threeEntriesFrames last.pager ∧
      Shows last.terminal (emptyPage.putAll (mapText ((loaderLeft loaderNumbers).long .ax) bootCallees.mallocInitSpace
        (loaderRanges (loaderLeft loaderNumbers).mem [0xA000, 0xA018]) ++ initText)) :=
  start_to_test bootCallees smallLayout (loaderLeft loaderNumbers) bootKernel [0xA000, 0xA018] threeEntriesFrames small_layout_linked
    (loader_left_entered loaderNumbers) (by decide) (by decide) loaded_map_in loaded_frames_behind rfl (by decide +kernel) (by decide)

end Kraftwerk.Boot
