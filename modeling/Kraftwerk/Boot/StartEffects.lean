import Kraftwerk.Boot.StartCode

set_option autoImplicit false

-- What the instructions of start do, block by block: to the registers, to the paging and to the image.
namespace Kraftwerk.Boot

open LittleEndian Paging

-- The order of the sections in linker.ld, with everything of them below 4 MiB.
structure Linked (layout : Layout) : Prop where
  code : ∀ number < 35, 0x1000 ≤ layout.place number ∧ layout.place number < layout.base.toNat
  tables : Loaded layout.base
  stack : layout.base.toNat + 0x90EA + 16384 ≤ layout.stackTop
  low : layout.stackTop ≤ 0x400000
  text : layout.startKernel2 < 2 ^ 39 ∧ layout.kernelInit < 2 ^ 39

-- What of the image the boot loader has to have put into memory.
structure ImageIn (layout : Layout) (mem : Bytes) : Prop where
  tables : words mem = bootMemory layout.base (words mem)
  descriptors : ∀ index descriptor, bootDescriptors[index]? = some descriptor →
    loadNumber mem (layout.bootGDT + 8 * index) 8 = descriptor.toNat

-- Protected mode without paging. Whether CR0.WP is set is left to the boot loader.
structure Entered (layout : Layout) (cpu : Cpu) : Prop where
  mode : cpu.longCode = false
  unpaged : cpu.paged = false
  guarded : (cpu.control .cr0).getLsbD 0 = true
  levels : (cpu.control .cr4).getLsbD 12 = false
  image : ImageIn layout cpu.mem

section
variable (cpu : Cpu) (register other : Gpr)

theorem reg_set_mem (mem : Bytes) : (cpu.setMem mem).reg register = cpu.reg register := rfl

theorem long_set_mem (mem : Bytes) : (cpu.setMem mem).long register = cpu.long register := rfl

theorem reg_set_reg (value : BitVec 64) : (cpu.setReg register value).reg register = value := Function.update_self ..

theorem reg_set_reg_ne (value : BitVec 64) (different : other ≠ register) : (cpu.setReg register value).reg other = cpu.reg other :=
  Function.update_of_ne different _ _

theorem long_set_long (value : BitVec 32) : (cpu.setLong register value).long register = value := by
  rw [Cpu.long, Cpu.setLong, reg_set_reg, BitVec.setWidth_setWidth_of_le _ (by decide), BitVec.setWidth_eq]

theorem long_set_long_ne (value : BitVec 32) (different : other ≠ register) : (cpu.setLong register value).long other = cpu.long other :=
  congrArg (BitVec.setWidth 32) (reg_set_reg_ne cpu register other _ different)

end

-- The first 4 MiB without their first page are where they are.
def Low (cpu : Cpu) : Prop := ∀ vaddr, 0x1000 ≤ vaddr → vaddr < 0x400000 → cpu.translate vaddr = some vaddr

theorem unpaged_low (cpu : Cpu) (unpaged : cpu.paged = false) : Low cpu := by
  intro vaddr _ _
  rw [Cpu.translate, unpaged, if_neg Bool.false_ne_true]

-- Where the entries of the tables do not keep the kernel from writing.
def Unprotected (cpu : Cpu) : Prop := cpu.paged = false ∨ cpu.writeProtect = false

theorem unprotected_stores (cpu : Cpu) (free : Unprotected cpu) : cpu.translateStore = cpu.translate := by
  funext vaddr
  rw [Cpu.translateStore, if_neg]
  rcases free with unpaged | unprotected
  · simp [unpaged]
  · simp [unprotected]

-- Paging through the tables of this file.
structure Mapped (layout : Layout) (cpu : Cpu) : Prop where
  paged : cpu.paged = true
  root : cpu.root = tableAddr layout.base .bootPML4T
  image : ImageIn layout cpu.mem

section
variable (layout : Layout) (linked : Linked layout) (cpu : Cpu)

include linked

theorem mapped_translate (mapped : Mapped layout cpu) (vaddr : Nat) (outside : OutsideSlot (BitVec.ofNat 64 vaddr)) :
    cpu.translate vaddr = (bootMap (BitVec.ofNat 64 vaddr)).map BitVec.toNat := by
  rw [Cpu.translate, mapped.paged, if_pos rfl, mapped.root, mapped.image.tables, boot_walk_exact layout.base _ linked.tables _ outside]

theorem mapped_low (mapped : Mapped layout cpu) : Low cpu := by
  intro vaddr above below
  have number : (BitVec.ofNat 64 vaddr).toNat = vaddr := by
    rw [BitVec.toNat_ofNat]
    omega
  have outside : OutsideSlot (BitVec.ofNat 64 vaddr) := by
    intro slot
    have index := (index_iff _ _ _).mp slot
    rw [number, show (510 : BitVec 9).toNat = 510 by rfl] at index
    omega
  rw [mapped_translate layout linked cpu mapped vaddr outside, bootMap, number]
  rw [Nat.mod_eq_of_lt (by omega), if_pos ⟨above, below⟩, Option.map_some, number]

-- Behind KERNEL_VMA, a loadNumber address is only found again below 2 MiB.
theorem mapped_kernel (mapped : Mapped layout cpu) (lma : Nat) (small : lma < 2 ^ 39) :
    cpu.translate (kernelAddr lma).toNat = some lma ↔ lma < 0x200000 := by
  have outside := kernel_outside lma small
  rw [kernelAddr, mapped_translate layout linked cpu mapped _ (by rw [BitVec.ofNat_toNat, BitVec.setWidth_eq]; exact outside),
    BitVec.ofNat_toNat, BitVec.setWidth_eq, kernel_boot_map lma small]
  by_cases inside : lma < 0x400000
  · have number : (BitVec.ofNat 64 (lma % 0x200000)).toNat = lma % 0x200000 := by
      rw [BitVec.toNat_ofNat]
      omega
    rw [if_pos inside, Option.map_some, number, Option.some.injEq]
    omega
  · rw [if_neg inside, Option.map_none]
    exact iff_of_false (Option.some_ne_none lma).symm (by omega)

end

theorem words_congr (mem after : Bytes) (address : Addr)
    (same : ∀ byte, address.toNat / 8 * 8 ≤ byte → byte < address.toNat / 8 * 8 + 8 → after byte = mem byte) :
    words after address = words mem address :=
  congrArg (BitVec.ofNat 64) (load_congr after mem _ 8 same)

theorem words_of_numbers (numbers : Nat → Nat) (address : Addr) :
    words (ofNumbers 8 numbers) address = BitVec.ofNat 64 (numbers (address.toNat / 8 * 8)) := by
  have eight := load_of_numbers 8 numbers (address.toNat / 8) 0 8 (Nat.le_refl _)
  rw [Nat.add_zero, pow_zero, Nat.div_one, Nat.mul_comm 8] at eight
  rw [words, eight]
  apply BitVec.eq_of_toNat_eq
  rw [BitVec.toNat_ofNat, BitVec.toNat_ofNat]
  omega

theorem tables_kept (base : Addr) (loaded : Loaded base) (mem after : Bytes)
    (same : ∀ byte, base.toNat ≤ byte → byte < base.toNat + 0x9000 → after byte = mem byte)
    (tables : words mem = bootMemory base (words mem)) : words after = bootMemory base (words after) := by
  funext address
  have here := congrFun tables address
  rw [bootMemory] at here ⊢
  cases table : initTables[(address - base).toNat / 0x1000]? with
  | none => rfl
  | some table' =>
      have inside := (List.getElem?_eq_some_iff.mp table).1
      have nine : initTables.length = 9 := rfl
      have offset := BitVec.toNat_sub address base
      have bound := address.isLt
      have small := loaded.small
      have aligned := loaded.aligned
      rw [table] at here
      rw [words_congr mem after address fun byte above below => same byte (by omega) (by omega)]
      exact here

theorem image_kept (layout : Layout) (linked : Linked layout) (mem after : Bytes)
    (same : ∀ byte, layout.base.toNat ≤ byte → byte < layout.base.toNat + 0x9028 → after byte = mem byte)
    (image : ImageIn layout mem) : ImageIn layout after where
  tables := tables_kept layout.base linked.tables mem after (fun byte above below => same byte above (by omega)) image.tables
  descriptors := by
    intro index descriptor found
    have inside := (List.getElem?_eq_some_iff.mp found).1
    have five : bootDescriptors.length = 5 := rfl
    rw [← image.descriptors index descriptor found, Layout.bootGDT]
    exact load_congr after mem _ 8 fun byte above below => same byte (by omega) (by omega)

section
variable (cpu : Cpu) (low : Low cpu) (behind : Addr)

include low

theorem low_load (address count : Nat) (above : 0x1000 ≤ address) (below : address + count ≤ 0x400000) :
    loadVia cpu.translate cpu.mem address count = some (loadNumber cpu.mem address count) :=
  load_via_identity _ _ address count fun byte start stop => low byte (by omega) (by omega)

theorem low_store (free : Unprotected cpu) (address value count : Nat) (above : 0x1000 ≤ address) (below : address + count ≤ 0x400000) :
    cpu.store address value count = some (cpu.setMem (storeNumber cpu.mem address value count)) := by
  rw [Cpu.store, unprotected_stores cpu free,
    store_via_identity _ _ address value count fun byte start stop => low byte (by omega) (by omega), Option.map_some]

theorem low_pointer (operand : Nat) (above : 0x1000 ≤ operand) (below : operand + 6 ≤ 0x400000) :
    cpu.readPointer operand = some ⟨loadNumber cpu.mem operand 2, loadNumber cpu.mem (operand + 2) 4⟩ := by
  rw [Cpu.readPointer, low_load cpu low operand 2 above (by omega), Option.bind_some,
    low_load cpu low (operand + 2) 4 (by omega) (by omega), Option.map_some]

theorem low_push (free : Unprotected cpu) (source : Gpr) (top : Nat) (stack : (cpu.long .sp).toNat = top)
    (above : 0x1004 ≤ top) (below : top ≤ 0x400000) :
    (Instr.push source).effect cpu behind =
      some ((cpu.setLong .sp (BitVec.ofNat 32 (top - 4))).setMem (storeNumber cpu.mem (top - 4) (cpu.long source).toNat 4)) := by
  have number : (cpu.long .sp - 4).toNat = top - 4 := by
    rw [BitVec.toNat_sub, stack]
    have four : (4 : BitVec 32).toNat = 4 := rfl
    omega
  have value : cpu.long .sp - 4 = BitVec.ofNat 32 (top - 4) := by
    rw [← number, BitVec.ofNat_toNat, BitVec.setWidth_eq]
  rw [Instr.effect, number, low_store cpu low free (top - 4) _ 4 (by omega) (by omega), Option.map_some, value]
  rfl

theorem low_descriptor (layout : Layout) (linked : Linked layout) (image : ImageIn layout cpu.mem) (index : Nat) (descriptor : BitVec 64)
    (selector : BitVec 16) (number : selector.toNat = 8 * index) (known : bootDescriptors[index]? = some descriptor)
    (table : cpu.gdtr = ⟨39, layout.bootGDT⟩) : cpu.descriptor selector = some descriptor := by
  have inside := (List.getElem?_eq_some_iff.mp known).1
  have five : bootDescriptors.length = 5 := rfl
  have start : layout.bootGDT = layout.base.toNat + 0x9000 := rfl
  have stack := linked.stack
  have top := linked.low
  have offset : 8 * index / 8 * 8 = 8 * index := by omega
  rw [Cpu.descriptor, table, number, offset]
  dsimp only
  rw [if_pos (by omega), low_load cpu low _ 8 (by omega) (by omega), image.descriptors index descriptor known, Option.map_some,
    BitVec.ofNat_toNat, BitVec.setWidth_eq]

theorem low_load_stack (offset : BitVec 32) (into : Gpr) (address : Nat) (number : (cpu.long .sp + offset).toNat = address)
    (above : 0x1000 ≤ address) (below : address + 4 ≤ 0x400000) :
    (Instr.loadStack offset into).effect cpu behind = some (cpu.setLong into (BitVec.ofNat 32 (loadNumber cpu.mem address 4))) := by
  rw [Instr.effect, number, low_load cpu low address 4 above below, Option.map_some]

end

-- Whether it goes on behind the instruction, with paging and mode as they were.
def Instr.goesOn : Instr → Bool
  | .toControl _ .cr0 | .farJump _ _ | .jump _ | .call _ => false
  | _ => true

-- Whether it leaves memory and the control registers alone as well.
def Instr.quiet : Instr → Bool
  | .push _ | .storeWord _ _ | .storeLong _ _ | .toControl _ _ => false
  | instr => instr.goesOn

-- Instructions one behind the other, without the fetches.
def effects : List Instr → Cpu → Option Cpu
  | [], cpu => some cpu
  | instr :: rest, cpu => (instr.effect cpu 0).bind (effects rest)

theorem goes_on_effect (instr : Instr) (cpu : Cpu) (behind : Addr) (goesOn : instr.goesOn = true) :
    instr.effect cpu behind = instr.effect cpu 0 := by
  cases instr with
  | call target => cases goesOn
  | _ => rfl

theorem goes_on_next (instr : Instr) (cpu : Cpu) (behind : Addr) (goesOn : instr.goesOn = true) : instr.next cpu behind = behind := by
  cases instr with
  | farJump selector target => cases goesOn
  | jump target => cases goesOn
  | call target => cases goesOn
  | _ => rfl

structure GoneOn (instr : Instr) (cpu after : Cpu) : Prop where
  paged : after.paged = cpu.paged
  mode : after.longCode = cpu.longCode
  control : instr.quiet = true → after.control = cpu.control
  mem : instr.quiet = true → after.mem = cpu.mem

theorem gone_on_quiet (instr : Instr) (cpu after : Cpu) (control : after.control = cpu.control) (mem : after.mem = cpu.mem)
    (mode : after.longCode = cpu.longCode) : GoneOn instr cpu after :=
  ⟨by rw [Cpu.paged, Cpu.paged, control], mode, fun _ => control, fun _ => mem⟩

theorem goes_on_kept (instr : Instr) (cpu after : Cpu) (goesOn : instr.goesOn = true) (done : instr.effect cpu 0 = some after) :
    GoneOn instr cpu after := by
  cases instr with
  | cli => cases done; exact gone_on_quiet _ _ _ rfl rfl rfl
  | mov value into => cases done; exact gone_on_quiet _ _ _ rfl rfl rfl
  | movWord value into => cases done; exact gone_on_quiet _ _ _ rfl rfl rfl
  | or value into => cases done; exact gone_on_quiet _ _ _ rfl rfl rfl
  | push source =>
      obtain ⟨stored, storedEq, rfl⟩ := Option.map_eq_some_iff.mp done
      obtain ⟨mem, _, rfl⟩ := Option.map_eq_some_iff.mp storedEq
      exact ⟨rfl, rfl, (nomatch ·), (nomatch ·)⟩
  | lidt operand =>
      obtain ⟨pointer, _, rfl⟩ := Option.map_eq_some_iff.mp done
      exact gone_on_quiet _ _ _ rfl rfl rfl
  | lgdt operand =>
      obtain ⟨pointer, _, rfl⟩ := Option.map_eq_some_iff.mp done
      exact gone_on_quiet _ _ _ rfl rfl rfl
  | toControl source into =>
      cases into with
      | cr0 => cases goesOn
      | cr3 => cases done; exact ⟨rfl, rfl, (nomatch ·), (nomatch ·)⟩
      | cr4 => cases done; exact ⟨rfl, rfl, (nomatch ·), (nomatch ·)⟩
  | ofControl source into => cases done; exact gone_on_quiet _ _ _ rfl rfl rfl
  | rdmsr =>
      rw [Instr.effect] at done
      split at done
      · cases done; exact gone_on_quiet _ _ _ rfl rfl rfl
      · cases done
  | wrmsr =>
      rw [Instr.effect] at done
      split at done
      · cases done; exact gone_on_quiet _ _ _ rfl rfl rfl
      · cases done
  | storeWord source address =>
      obtain ⟨mem, _, rfl⟩ := Option.map_eq_some_iff.mp done
      exact ⟨rfl, rfl, (nomatch ·), (nomatch ·)⟩
  | storeLong source address =>
      obtain ⟨mem, _, rfl⟩ := Option.map_eq_some_iff.mp done
      exact ⟨rfl, rfl, (nomatch ·), (nomatch ·)⟩
  | toSegment source into =>
      obtain ⟨descriptor, _, chosen⟩ := Option.bind_eq_some_iff.mp done
      split at chosen
      · cases chosen; exact gone_on_quiet _ _ _ rfl rfl rfl
      · cases chosen
  | farJump selector target => cases goesOn
  | loadStack offset into =>
      obtain ⟨value, _, rfl⟩ := Option.map_eq_some_iff.mp done
      exact gone_on_quiet _ _ _ rfl rfl rfl
  | movabs value into => cases done; exact gone_on_quiet _ _ _ rfl rfl rfl
  | jump target => cases goesOn
  | call target => cases goesOn

theorem effects_append (front back : List Instr) (cpu : Cpu) : effects (front ++ back) cpu = (effects front cpu).bind (effects back) := by
  induction front generalizing cpu with
  | nil => rfl
  | cons instr front ih =>
      rw [List.cons_append, effects, effects]
      cases instr.effect cpu 0 with
      | none => rfl
      | some after => exact ih after

section
variable (layout : Layout) (entry : Cpu)

def stackSet : Cpu :=
  ({ entry with interrupts := false }.setLong .sp (BitVec.ofNat 32 layout.stackTop)).setLong .bp (BitVec.ofNat 32 layout.stackTop)

def magicPushed : Cpu :=
  ((stackSet layout entry).setLong .sp (BitVec.ofNat 32 (layout.stackTop - 4))).setMem
    (storeNumber (stackSet layout entry).mem (layout.stackTop - 4) ((stackSet layout entry).long .ax).toNat 4)

def infoPushed : Cpu :=
  ((magicPushed layout entry).setLong .sp (BitVec.ofNat 32 (layout.stackTop - 4 - 4))).setMem
    (storeNumber (magicPushed layout entry).mem (layout.stackTop - 4 - 4) ((magicPushed layout entry).long .bx).toNat 4)

def pushed : Bytes :=
  storeNumber (storeNumber entry.mem (layout.stackTop - 4) (entry.long .ax).toNat 4) (layout.stackTop - 4 - 4) (entry.long .bx).toNat 4

theorem info_pushed_mem : (infoPushed layout entry).mem = pushed layout entry := by
  have magic : (stackSet layout entry).long .ax = entry.long .ax := by
    rw [stackSet, long_set_long_ne _ .bp .ax _ (by decide), long_set_long_ne _ .sp .ax _ (by decide)]
    rfl
  have info : (magicPushed layout entry).long .bx = entry.long .bx := by
    rw [magicPushed, long_set_mem, long_set_long_ne _ .sp .bx _ (by decide), stackSet, long_set_long_ne _ .bp .bx _ (by decide),
      long_set_long_ne _ .sp .bx _ (by decide)]
    rfl
  have between : (magicPushed layout entry).mem = storeNumber entry.mem (layout.stackTop - 4) (entry.long .ax).toNat 4 := by
    rw [← magic]
    rfl
  rw [pushed, ← info, ← between]
  rfl

end

structure EntryDone (layout : Layout) (entry after : Cpu) : Prop where
  mode : after.longCode = false
  mem : after.mem = pushed layout entry
  sp : after.reg .sp = BitVec.ofNat 64 (layout.stackTop - 8)
  control : after.control = entry.control
  efer : after.efer = entry.efer
  interrupts : after.interrupts = false

-- The control registers before paging is turned on.
def featured (layout : Layout) (entry : Cpu) : Control → BitVec 64 :=
  Function.update (Function.update entry.control .cr3 (((tableAddr layout.base .bootPML4T).setWidth 32).setWidth 64)) .cr4
    (((entry.control .cr4).setWidth 32 ||| 32 ||| 8).setWidth 64)

-- What a block that only works on the other registers leaves as it was.
structure Beside (cpu after : Cpu) : Prop where
  mem : after.mem = cpu.mem
  sp : after.reg .sp = cpu.reg .sp
  interrupts : after.interrupts = cpu.interrupts
  mode : after.longCode = cpu.longCode

theorem beside_trans (cpu middle after : Cpu) (first : Beside cpu middle) (second : Beside middle after) : Beside cpu after :=
  ⟨second.mem.trans first.mem, second.sp.trans first.sp, second.interrupts.trans first.interrupts, second.mode.trans first.mode⟩

theorem table_effects (layout : Layout) (cpu : Cpu) : ∃ after, effects (tableCode layout) cpu = some after ∧ Beside cpu after ∧
    after.efer = cpu.efer ∧
    after.control = Function.update cpu.control .cr3 (((tableAddr layout.base .bootPML4T).setWidth 32).setWidth 64) := by
  refine ⟨_, rfl, ⟨rfl, rfl, rfl, rfl⟩, rfl, ?_⟩
  exact congrArg (fun value => Function.update cpu.control .cr3 (BitVec.setWidth 64 value)) (long_set_long cpu .ax _)

theorem or_long (cpu : Cpu) (register : Gpr) (value mask : BitVec 32) (behind : Addr) (holds : cpu.long register = value) :
    (Instr.or mask register).effect cpu behind = some (cpu.setLong register (value ||| mask)) := by
  rw [Instr.effect, holds]

theorem pae_effects (cpu : Cpu) : ∃ after, effects paeCode cpu = some after ∧ Beside cpu after ∧ after.efer = cpu.efer ∧
    after.control = Function.update cpu.control .cr4 (((cpu.control .cr4).setWidth 32 ||| 32 ||| 8).setWidth 64) := by
  have read : effects paeCode cpu =
      effects [.or 32 .ax, .or 8 .ax, .toControl .ax .cr4] (cpu.setLong .ax ((cpu.control .cr4).setWidth 32)) := rfl
  rw [read, effects, or_long _ .ax _ 32 0 (long_set_long cpu .ax _), Option.bind_some, effects,
    or_long _ .ax _ 8 0 (long_set_long _ .ax _), Option.bind_some]
  refine ⟨_, rfl, ⟨rfl, rfl, rfl, rfl⟩, rfl, ?_⟩
  exact congrArg (fun value => Function.update cpu.control .cr4 (BitVec.setWidth 64 value)) (long_set_long _ .ax _)

def eferRead (cpu : Cpu) : Cpu :=
  ((cpu.setLong .cx efer).setLong .ax (cpu.efer.setWidth 32)).setLong .dx ((cpu.efer >>> 32).setWidth 32)

theorem long_mode_effects (cpu : Cpu) : ∃ after, effects longModeCode cpu = some after ∧ Beside cpu after ∧ after.control = cpu.control ∧
    after.efer = ((cpu.efer >>> 32).setWidth 32 ++ (cpu.efer.setWidth 32 ||| 0x100) : BitVec 64) := by
  have chosen : (cpu.setLong .cx efer).long .cx = efer := long_set_long cpu .cx efer
  have ax : (eferRead cpu).long .ax = cpu.efer.setWidth 32 := by
    rw [eferRead, long_set_long_ne _ .dx .ax _ (by decide), long_set_long]
  have dx : ((eferRead cpu).setLong .ax (cpu.efer.setWidth 32 ||| 0x100)).long .dx = (cpu.efer >>> 32).setWidth 32 := by
    rw [long_set_long_ne _ .ax .dx _ (by decide), eferRead, long_set_long]
  have cx : ((eferRead cpu).setLong .ax (cpu.efer.setWidth 32 ||| 0x100)).long .cx = efer := by
    rw [long_set_long_ne _ .ax .cx _ (by decide), eferRead, long_set_long_ne _ .dx .cx _ (by decide),
      long_set_long_ne _ .ax .cx _ (by decide), chosen]
  have read : Instr.rdmsr.effect (cpu.setLong .cx efer) 0 = some (eferRead cpu) := by
    rw [Instr.effect, if_pos chosen]
    rfl
  have started : effects longModeCode cpu = effects [.rdmsr, .or 0x100 .ax, .wrmsr] (cpu.setLong .cx efer) := rfl
  rw [started, effects, read, Option.bind_some, effects, or_long _ .ax _ 0x100 0 ax, Option.bind_some, effects, Instr.effect, if_pos cx,
    Option.bind_some, effects, dx, long_set_long]
  exact ⟨_, rfl, ⟨rfl, rfl, rfl, rfl⟩, rfl, rfl⟩

theorem paging_effects (cpu : Cpu) : ∃ after, effects pagingCode cpu = some after ∧ Beside cpu after ∧ after.control = cpu.control ∧
    after.efer = cpu.efer ∧ after.long .cx = (cpu.control .cr0).setWidth 32 ||| 0x80000000 := by
  have read : effects pagingCode cpu = effects [.or 0x80000000 .cx] (cpu.setLong .cx ((cpu.control .cr0).setWidth 32)) := rfl
  rw [read, effects, or_long _ .cx _ 0x80000000 0 (long_set_long cpu .cx _), Option.bind_some, effects]
  exact ⟨_, rfl, ⟨rfl, rfl, rfl, rfl⟩, rfl, rfl, long_set_long _ .cx _⟩

section
variable (layout : Layout) (linked : Linked layout) (entry : Cpu) (entered : Entered layout entry)

include linked entered

theorem entry_effects : ∃ after, effects (entryCode layout) entry = some after ∧ EntryDone layout entry after := by
  have unpaged : ∀ cpu : Cpu, cpu.control = entry.control → cpu.paged = false := fun cpu same => by
    rw [Cpu.paged, same]
    exact entered.unpaged
  have low : ∀ cpu : Cpu, cpu.control = entry.control → Low cpu := fun cpu same => unpaged_low cpu (unpaged cpu same)
  have stack := linked.stack
  have top := linked.low
  have number : ∀ value ≤ 0x400000, (BitVec.ofNat 32 value).toNat = value := fun value small => by
    rw [BitVec.toNat_ofNat]
    omega
  have top0 : ((stackSet layout entry).long .sp).toNat = layout.stackTop := by
    rw [stackSet, long_set_long_ne _ .bp .sp _ (by decide), long_set_long, number _ top]
  have top1 : ((magicPushed layout entry).long .sp).toNat = layout.stackTop - 4 := by
    rw [magicPushed, long_set_mem, long_set_long, number _ (by omega)]
  have push1 : (Instr.push .ax).effect (stackSet layout entry) 0 = some (magicPushed layout entry) :=
    low_push (stackSet layout entry) (low _ rfl) 0 (.inl (unpaged _ rfl)) .ax layout.stackTop top0 (by omega) top
  have push2 : (Instr.push .bx).effect (magicPushed layout entry) 0 = some (infoPushed layout entry) :=
    low_push (magicPushed layout entry) (low _ rfl) 0 (.inl (unpaged _ rfl)) .bx (layout.stackTop - 4) top1 (by omega) (by omega)
  have pointer := low_pointer (infoPushed layout entry) (low _ rfl) layout.bootIDTPtr (by rw [Layout.bootIDTPtr]; omega)
    (by rw [Layout.bootIDTPtr]; omega)
  have starts : effects (entryCode layout) entry = effects [.push .ax, .push .bx, .lidt layout.bootIDTPtr] (stackSet layout entry) := rfl
  rw [starts, effects, push1, Option.bind_some, effects, push2, Option.bind_some, effects, Instr.effect, pointer, Option.map_some,
    Option.bind_some, effects]
  refine ⟨_, rfl, entered.mode, info_pushed_mem layout entry, ?_, rfl, rfl, rfl⟩
  dsimp only
  rw [infoPushed, Cpu.setLong, reg_set_mem, reg_set_reg]
  apply BitVec.eq_of_toNat_eq
  rw [BitVec.toNat_setWidth, number _ (by omega), BitVec.toNat_ofNat]
  omega

theorem unpaged_effects : ∃ after, effects (unpagedCode layout) entry = some after ∧ after.mem = pushed layout entry ∧
    after.reg .sp = BitVec.ofNat 64 (layout.stackTop - 8) ∧ after.interrupts = false ∧ after.longCode = false ∧
    after.control = featured layout entry ∧
    after.efer = ((entry.efer >>> 32).setWidth 32 ++ (entry.efer.setWidth 32 ||| 0x100) : BitVec 64) ∧
    after.long .cx = (entry.control .cr0).setWidth 32 ||| 0x80000000 := by
  obtain ⟨first, one, done⟩ := entry_effects layout linked entry entered
  obtain ⟨second, two, beside2, efer2, control2⟩ := table_effects layout first
  obtain ⟨third, three, beside3, efer3, control3⟩ := pae_effects second
  obtain ⟨fourth, four, beside4, control4, efer4⟩ := long_mode_effects third
  obtain ⟨after, five, beside5, control5, efer5, cx⟩ := paging_effects fourth
  have beside := beside_trans _ _ _ (beside_trans _ _ _ (beside_trans _ _ _ beside2 beside3) beside4) beside5
  refine ⟨after, ?_, beside.mem.trans done.mem, beside.sp.trans done.sp, beside.interrupts.trans done.interrupts,
    beside.mode.trans done.mode, ?_, ?_, ?_⟩
  · rw [unpagedCode, effects_append, one, Option.bind_some, effects_append, two, Option.bind_some, effects_append, three,
      Option.bind_some, effects_append, four, Option.bind_some, five]
  · rw [control5, control4, control3, control2, done.control]
    rfl
  · rw [efer5, efer4, efer3, efer2, done.efer]
  · rw [cx, control4, control3, control2, done.control]
    rfl

end

-- Paging is on, and the code is still that for 32 bits.
structure PagingOn (layout : Layout) (entry cpu : Cpu) (mem : Bytes) : Prop where
  mapped : Mapped layout cpu
  mem : cpu.mem = mem
  sp : cpu.reg .sp = BitVec.ofNat 64 (layout.stackTop - 8)
  interrupts : cpu.interrupts = false
  active : cpu.efer.getLsbD 10 = true
  features : cpu.control .cr4 = ((entry.control .cr4).setWidth 32 ||| 32 ||| 8).setWidth 64
  protection : cpu.control .cr0 = ((entry.control .cr0).setWidth 32 ||| 0x80000000).setWidth 64

theorem low_half (address : Addr) (small : address.toNat < 2 ^ 32) : (address.setWidth 32).setWidth 64 = address := by
  apply BitVec.eq_of_toNat_eq
  rw [BitVec.toNat_setWidth, BitVec.toNat_setWidth]
  omega

section
variable (layout : Layout) (linked : Linked layout) (entry : Cpu) (entered : Entered layout entry)

include linked entered

theorem pushed_image : ImageIn layout (pushed layout entry) := by
  have stack := linked.stack
  refine image_kept layout linked entry.mem _ (fun byte above below => ?_) entered.image
  rw [pushed, store_elsewhere _ _ _ _ _ (by omega), store_elsewhere _ _ _ _ _ (by omega)]

theorem paging_turned_on (cpu : Cpu) (mem : cpu.mem = pushed layout entry) (sp : cpu.reg .sp = BitVec.ofNat 64 (layout.stackTop - 8))
    (interrupts : cpu.interrupts = false) (control : cpu.control = featured layout entry)
    (efer : cpu.efer = ((entry.efer >>> 32).setWidth 32 ++ (entry.efer.setWidth 32 ||| 0x100) : BitVec 64))
    (cx : cpu.long .cx = (entry.control .cr0).setWidth 32 ||| 0x80000000) :
    ∃ after, (Instr.toControl .cx .cr0).effect cpu 0 = some after ∧ PagingOn layout entry after (pushed layout entry) ∧
      after.longCode = cpu.longCode := by
  have unpaged : cpu.paged = false := by
    rw [Cpu.paged, control]
    exact entered.unpaged
  have pg : ((cpu.long .cx).setWidth 64).getLsbD 31 = true := by
    rw [cx]
    simp
  have pe : ((cpu.long .cx).setWidth 64).getLsbD 0 = true := by
    rw [cx]
    simp [entered.guarded]
  have lme : cpu.efer.getLsbD 8 = true := by
    rw [efer, BitVec.getLsbD_append, if_pos (by decide), BitVec.getLsbD_or]
    exact Bool.or_true _
  have pae : (cpu.control .cr4).getLsbD 5 = true := by
    rw [control]
    simp [featured]
  have four : (cpu.control .cr4).getLsbD 12 = false := by
    rw [control]
    simpa [featured] using entered.levels
  have small := linked.tables.small
  have stack := linked.stack
  have top := linked.low
  have root : (cpu.control .cr3) = tableAddr layout.base .bootPML4T := by
    rw [control, featured, Function.update_of_ne (by decide), Function.update_self]
    refine low_half _ ?_
    rw [table_addr_to_nat layout.base linked.tables, InitTable.number]
    omega
  rw [Instr.effect, Cpu.setControl]
  dsimp only
  rw [if_pos ⟨rfl, pg, unpaged⟩, pe, lme, pae, four, Bool.not_false, Bool.and_self, Bool.and_self, Bool.and_self, if_pos rfl]
  refine ⟨_, rfl, ⟨⟨?_, ?_, mem ▸ pushed_image layout linked entry entered⟩, mem, sp, interrupts, ?_, ?_, ?_⟩, rfl⟩
  · rw [Cpu.paged]
    dsimp only
    rw [Function.update_self]
    exact pg
  · rw [Cpu.root]
    dsimp only
    rw [Function.update_of_ne (by decide), root]
    exact table_addr_whole layout.base linked.tables .bootPML4T
  · dsimp only
    rw [BitVec.getLsbD_or]
    exact Bool.or_true _
  · dsimp only
    rw [Function.update_of_ne (by decide), control, featured, Function.update_self]
  · dsimp only
    rw [Function.update_self, cx]

end

theorem paging_on_reg (layout : Layout) (entry cpu : Cpu) (mem : Bytes) (on : PagingOn layout entry cpu mem) (register : Gpr)
    (value : BitVec 64) (other : Gpr.sp ≠ register) : PagingOn layout entry (cpu.setReg register value) mem :=
  ⟨⟨on.mapped.paged, on.mapped.root, on.mapped.image⟩, on.mem, (reg_set_reg_ne cpu register .sp value other).trans on.sp, on.interrupts,
    on.active, on.features, on.protection⟩

theorem paging_on_protect (layout : Layout) (entry cpu : Cpu) (mem : Bytes) (on : PagingOn layout entry cpu mem) :
    cpu.writeProtect = entry.writeProtect := by
  rw [Cpu.writeProtect, on.protection]
  simp [Cpu.writeProtect]

theorem paging_on_gdtr (layout : Layout) (entry cpu : Cpu) (mem : Bytes) (on : PagingOn layout entry cpu mem) (table : TableRegister) :
    PagingOn layout entry { cpu with gdtr := table } mem :=
  ⟨⟨on.mapped.paged, on.mapped.root, on.mapped.image⟩, on.mem, on.sp, on.interrupts, on.active, on.features, on.protection⟩

section
variable (layout : Layout) (linked : Linked layout) (entry cpu : Cpu) (mem : Bytes) (on : PagingOn layout entry cpu mem)

include linked on

theorem paging_on_store (address value count : Nat) (above : layout.base.toNat + 0x9028 ≤ address) :
    PagingOn layout entry (cpu.setMem (storeNumber cpu.mem address value count)) (storeNumber mem address value count) := by
  refine ⟨⟨on.mapped.paged, on.mapped.root, ?_⟩, congrArg (fun mem => storeNumber mem address value count) on.mem, on.sp, on.interrupts,
    on.active, on.features, on.protection⟩
  exact image_kept layout linked cpu.mem _ (fun byte start stop => store_elsewhere _ _ _ _ _ (by omega)) on.mapped.image

variable (free : entry.writeProtect = false)

include free

theorem paging_on_low_store (address value count : Nat) (above : 0x1000 ≤ address) (below : address + count ≤ 0x400000) :
    cpu.store address value count = some (cpu.setMem (storeNumber cpu.mem address value count)) :=
  low_store cpu (mapped_low layout linked cpu on.mapped) (.inr ((paging_on_protect layout entry cpu mem on).trans free)) address value count
    above below

theorem store_word (source : Gpr) (address value : Nat) (behind : Addr) (holds : ((cpu.reg source).setWidth 16).toNat = value)
    (above : 0x1000 ≤ address) (below : address + 2 ≤ 0x400000) :
    (Instr.storeWord source address).effect cpu behind = some (cpu.setMem (storeNumber cpu.mem address value 2)) := by
  rw [Instr.effect, paging_on_low_store layout linked entry cpu mem on free address _ 2 above below, holds]

theorem store_long (source : Gpr) (address value : Nat) (behind : Addr) (holds : (cpu.long source).toNat = value)
    (above : 0x1000 ≤ address) (below : address + 4 ≤ 0x400000) :
    (Instr.storeLong source address).effect cpu behind = some (cpu.setMem (storeNumber cpu.mem address value 4)) := by
  rw [Instr.effect, paging_on_low_store layout linked entry cpu mem on free address _ 4 above below, holds]

end

def pointed (layout : Layout) (entry : Cpu) : Bytes :=
  storeNumber (storeNumber (pushed layout entry) layout.bootGDTLim 39 2) layout.bootGDTBse layout.bootGDT 4

def descriptorsSet (layout : Layout) (cpu : Cpu) : Cpu := (cpu.setLong .ax (BitVec.ofNat 32 layout.bootGDT)).setLong .dx 39

def limitStored (layout : Layout) (cpu : Cpu) : Cpu :=
  (descriptorsSet layout cpu).setMem (storeNumber (descriptorsSet layout cpu).mem layout.bootGDTLim 39 2)

def pointerStored (layout : Layout) (cpu : Cpu) : Cpu :=
  (limitStored layout cpu).setMem (storeNumber (limitStored layout cpu).mem layout.bootGDTBse layout.bootGDT 4)

theorem descriptor_effects (layout : Layout) (linked : Linked layout) (entry cpu : Cpu) (free : entry.writeProtect = false)
    (on : PagingOn layout entry cpu (pushed layout entry)) : ∃ after, effects (descriptorCode layout) cpu = some after ∧
      PagingOn layout entry after (pointed layout entry) ∧ after.gdtr = ⟨39, layout.bootGDT⟩ := by
  have stack := linked.stack
  have top := linked.low
  have gdt : layout.bootGDT = layout.base.toNat + 0x9000 := rfl
  have lim : layout.bootGDTLim = layout.base.toNat + 0x9042 := Nat.add_assoc _ _ _
  have bse : layout.bootGDTBse = layout.base.toNat + 0x9044 := Nat.add_assoc _ _ _
  have set : PagingOn layout entry (descriptorsSet layout cpu) (pushed layout entry) :=
    paging_on_reg layout entry _ _ (paging_on_reg layout entry cpu _ on .ax _ (by decide)) .dx _ (by decide)
  have limited : PagingOn layout entry (limitStored layout cpu) (storeNumber (pushed layout entry) layout.bootGDTLim 39 2) :=
    paging_on_store layout linked entry _ _ set layout.bootGDTLim 39 2 (by omega)
  have stored : PagingOn layout entry (pointerStored layout cpu) (pointed layout entry) :=
    paging_on_store layout linked entry _ _ limited layout.bootGDTBse layout.bootGDT 4 (by omega)
  have number : ∀ value ≤ 0x400000, (BitVec.ofNat 32 value).toNat = value := fun value small => by
    rw [BitVec.toNat_ofNat]
    omega
  have dx : (((descriptorsSet layout cpu).reg .dx).setWidth 16).toNat = 39 := by
    rw [descriptorsSet, Cpu.setLong, reg_set_reg]
    rfl
  have ax : ((limitStored layout cpu).long .ax).toNat = layout.bootGDT := by
    rw [limitStored, long_set_mem, descriptorsSet, long_set_long_ne _ .dx .ax _ (by decide), long_set_long, number _ (by omega)]
  have first : (Instr.storeWord .dx layout.bootGDTLim).effect (descriptorsSet layout cpu) 0 = some (limitStored layout cpu) :=
    store_word layout linked entry _ _ set free .dx layout.bootGDTLim 39 0 dx (by omega) (by omega)
  have second : (Instr.storeLong .ax layout.bootGDTBse).effect (limitStored layout cpu) 0 = some (pointerStored layout cpu) :=
    store_long layout linked entry _ _ limited free .ax layout.bootGDTBse layout.bootGDT 0 ax (by omega) (by omega)
  have limit : loadNumber (pointed layout entry) layout.bootGDTLim 2 = 39 := by
    rw [pointed, load_store_elsewhere _ _ _ _ _ _ (by omega), load_store]
    rfl
  have base : loadNumber (pointed layout entry) (layout.bootGDTLim + 2) 4 = layout.bootGDT := by
    rw [show layout.bootGDTLim + 2 = layout.bootGDTBse by omega, pointed, load_store]
    omega
  have pointer := low_pointer (pointerStored layout cpu) (mapped_low layout linked _ stored.mapped) layout.bootGDTLim (by omega) (by omega)
  rw [stored.mem, limit, base] at pointer
  have starts : effects (descriptorCode layout) cpu = effects
      [.storeWord .dx layout.bootGDTLim, .storeLong .ax layout.bootGDTBse, .lgdt layout.bootGDTLim] (descriptorsSet layout cpu) := rfl
  rw [starts, effects, first, Option.bind_some, effects, second, Option.bind_some, effects, Instr.effect, pointer, Option.map_some,
    Option.bind_some, effects]
  exact ⟨_, rfl, paging_on_gdtr layout entry _ _ stored _, rfl⟩

-- The table register is loaded, so that the selectors are those of its descriptors.
structure Described (layout : Layout) (entry cpu : Cpu) : Prop where
  on : PagingOn layout entry cpu (pointed layout entry)
  gdtr : cpu.gdtr = ⟨39, layout.bootGDT⟩

section
variable (layout : Layout) (linked : Linked layout) (entry : Cpu)

include linked

theorem described_selector (cpu : Cpu) (described : Described layout entry cpu) (index : Nat) (descriptor : BitVec 64) (selector : BitVec 16)
    (number : selector.toNat = 8 * index) (known : bootDescriptors[index]? = some descriptor) : cpu.descriptor selector = some descriptor :=
  low_descriptor cpu (mapped_low layout linked cpu described.on.mapped) layout linked described.on.mapped.image index descriptor selector
    number known described.gdtr

theorem segments_loaded (segments : List Segment) (cpu : Cpu) (described : Described layout entry cpu)
    (selector : (cpu.reg .ax).setWidth 16 = (0x10 : BitVec 16)) :
    ∃ after, effects (segments.map (.toSegment .ax)) cpu = some after ∧ Described layout entry after ∧
      (∀ segment ∈ segments, after.segment segment = 0x10) ∧ ∀ segment, cpu.segment segment = 0x10 → after.segment segment = 0x10 := by
  induction segments generalizing cpu with
  | nil => exact ⟨cpu, rfl, described, fun _ member => absurd member List.not_mem_nil, fun _ there => there⟩
  | cons into rest ih =>
      have on := described.on
      have found := described_selector layout linked entry cpu described 2 0x000F92000000FFFF 0x10 rfl rfl
      obtain ⟨after, done, laterDescribed, loaded, kept⟩ := ih { cpu with segment := Function.update cpu.segment into 0x10 }
        ⟨⟨⟨on.mapped.paged, on.mapped.root, on.mapped.image⟩, on.mem, on.sp, on.interrupts, on.active, on.features,
          on.protection⟩, described.gdtr⟩ selector
      refine ⟨after, ?_, laterDescribed, ?_, fun segment there => kept segment ?_⟩
      · rw [List.map_cons, effects, Instr.effect, selector, found, Option.bind_some, if_pos (by decide), Option.bind_some]
        exact done
      · exact List.forall_mem_cons.mpr ⟨kept into (Function.update_self ..), loaded⟩
      · by_cases same : segment = into
        · rw [same]
          exact Function.update_self ..
        · exact (Function.update_of_ne same _ _).trans there

omit linked in
theorem low_word (register : BitVec 64) (value : BitVec 16) : (register &&& ~~~0xFFFF ||| value.setWidth 64).setWidth 16 = value := by
  rw [BitVec.setWidth_or, BitVec.setWidth_and, BitVec.setWidth_setWidth_of_le _ (by decide), BitVec.setWidth_eq,
    show (~~~0xFFFF : BitVec 64).setWidth 16 = 0#16 by decide, BitVec.and_zero]
  exact BitVec.zero_or

theorem segment_effects (cpu : Cpu) (described : Described layout entry cpu) : ∃ after, effects segmentCode cpu = some after ∧
    Described layout entry after ∧ ∀ segment, after.segment segment = 0x10 := by
  have on := paging_on_reg layout entry cpu _ described.on .ax (cpu.reg .ax &&& ~~~0xFFFF ||| (0x10 : BitVec 16).setWidth 64) (by decide)
  obtain ⟨after, done, afterDescribed, loaded, _⟩ := segments_loaded layout linked entry [.ds, .es, .fs, .gs, .ss] _ ⟨on, described.gdtr⟩
    (by rw [reg_set_reg]; exact low_word _ _)
  refine ⟨after, done, afterDescribed, fun segment => loaded segment ?_⟩
  cases segment <;> decide

theorem far_jump (cpu : Cpu) (described : Described layout entry cpu) (target behind : Addr) :
    (Instr.farJump 0x08 target).effect cpu behind = some { cpu with cs := 0x08, longCode := true } := by
  have found := described_selector layout linked entry cpu described 1 0x002F9A000000FFFF 0x08 rfl rfl
  rw [Instr.effect, found, Option.bind_some, if_pos (by decide), described.on.active]
  rfl

theorem stack_slot (cpu : Cpu) (on : PagingOn layout entry cpu (pointed layout entry)) (offset : BitVec 32) (small : offset.toNat ≤ 8) :
    (cpu.long .sp + offset).toNat = layout.stackTop - 8 + offset.toNat := by
  have stack := linked.stack
  have top := linked.low
  rw [BitVec.toNat_add, Cpu.long, on.sp, BitVec.toNat_setWidth, BitVec.toNat_ofNat]
  omega

theorem pointed_arguments : loadNumber (pointed layout entry) (layout.stackTop - 8) 4 = (entry.long .bx).toNat ∧
    loadNumber (pointed layout entry) (layout.stackTop - 4) 4 = (entry.long .ax).toNat := by
  have stack := linked.stack
  have lim : layout.bootGDTLim = layout.base.toNat + 0x9042 := Nat.add_assoc _ _ _
  have bse : layout.bootGDTBse = layout.base.toNat + 0x9044 := Nat.add_assoc _ _ _
  have info := (entry.long .bx).isLt
  have magic := (entry.long .ax).isLt
  constructor
  · rw [pointed, load_store_elsewhere _ _ _ _ _ _ (by omega), load_store_elsewhere _ _ _ _ _ _ (by omega), pushed, Nat.sub_sub, load_store]
    exact Nat.mod_eq_of_lt info
  · rw [pointed, load_store_elsewhere _ _ _ _ _ _ (by omega), load_store_elsewhere _ _ _ _ _ _ (by omega), pushed,
      load_store_elsewhere _ _ _ _ _ _ (by omega), load_store]
    exact Nat.mod_eq_of_lt magic

-- mb_info and magic are in the registers of the first two arguments.
structure Arguments (layout : Layout) (entry cpu : Cpu) : Prop where
  described : Described layout entry cpu
  info : cpu.reg .di = (entry.long .bx).setWidth 64
  magic : cpu.reg .si = (entry.long .ax).setWidth 64
  target : cpu.reg .ax = kernelAddr layout.startKernel2

theorem argument_effects (cpu : Cpu) (described : Described layout entry cpu) :
    ∃ after, effects (argumentCode layout) cpu = some after ∧
      Arguments layout entry after ∧ after.cs = cpu.cs ∧ after.segment = cpu.segment ∧ after.longCode = cpu.longCode := by
  have stack := linked.stack
  have top := linked.low
  obtain ⟨info, magic⟩ := pointed_arguments layout linked entry
  have infoAt := stack_slot layout linked entry cpu described.on 0 (by decide)
  have firstOn := paging_on_reg layout entry cpu _ described.on .di ((entry.long .bx).setWidth 64) (by decide)
  have magicAt := stack_slot layout linked entry _ firstOn 4 (by decide)
  have secondOn := paging_on_reg layout entry _ _ firstOn .si ((entry.long .ax).setWidth 64) (by decide)
  have thirdOn := paging_on_reg layout entry _ _ secondOn .ax (kernelAddr layout.startKernel2) (by decide)
  have first := low_load_stack cpu (mapped_low layout linked cpu described.on.mapped) 0 0 .di _ infoAt (by omega)
    (by rw [show (0 : BitVec 32).toNat = 0 by rfl]; omega)
  have second := low_load_stack _ (mapped_low layout linked _ firstOn.mapped) 0 4 .si _ magicAt (by omega)
    (by rw [show (4 : BitVec 32).toNat = 4 by rfl]; omega)
  rw [described.on.mem, show layout.stackTop - 8 + (0 : BitVec 32).toNat = layout.stackTop - 8 by rfl, info, BitVec.ofNat_toNat,
    BitVec.setWidth_eq, Cpu.setLong] at first
  rw [firstOn.mem, show layout.stackTop - 8 + (4 : BitVec 32).toNat = layout.stackTop - 4 by
    rw [show (4 : BitVec 32).toNat = 4 by rfl]; omega, magic, BitVec.ofNat_toNat, BitVec.setWidth_eq, Cpu.setLong] at second
  rw [argumentCode, effects, first, Option.bind_some, effects, second, Option.bind_some, effects, Instr.effect, Option.bind_some, effects]
  refine ⟨_, rfl, ⟨⟨thirdOn, described.gdtr⟩, ?_, ?_, reg_set_reg _ .ax _⟩, rfl, rfl, rfl⟩
  · rw [reg_set_reg_ne _ .ax .di _ (by decide), reg_set_reg_ne _ .si .di _ (by decide), reg_set_reg]
  · rw [reg_set_reg_ne _ .ax .si _ (by decide), reg_set_reg]

end

end Kraftwerk.Boot
