import Kraftwerk.Boot.InitTables
import Kraftwerk.Lib.LittleEndian

set_option autoImplicit false

-- os/boot/x86-64/64_init.s from start to the call of kernel_init, on the processor as it runs this code.
namespace Kraftwerk.Boot

open LittleEndian Paging

inductive Gpr where
  | ax | bx | cx | dx | sp | bp | si | di
deriving DecidableEq, Repr

inductive Segment where
  | ds | es | fs | gs | ss
deriving DecidableEq, Repr

inductive Control where
  | cr0 | cr3 | cr4
deriving DecidableEq, Repr

structure TableRegister where
  limit : Nat
  base : Nat
deriving DecidableEq, Repr

structure Cpu where
  reg : Gpr → BitVec 64
  control : Control → BitVec 64
  efer : BitVec 64
  gdtr : TableRegister
  idtr : TableRegister
  cs : BitVec 16
  longCode : Bool
  segment : Segment → BitVec 16
  interrupts : Bool
  mem : Bytes

def words (mem : Bytes) : Paging.Memory := fun address => BitVec.ofNat 64 (loadNumber mem (address.toNat / 8 * 8) 8)

def Cpu.paged (cpu : Cpu) : Bool := (cpu.control .cr0).getLsbD 31

def Cpu.root (cpu : Cpu) : Addr := frame (cpu.control .cr3)

-- Segments start at 0, so that an address is linear as it stands.
def Cpu.translate (cpu : Cpu) (vaddr : Nat) : Option Nat :=
  if cpu.paged then (walk (words cpu.mem) cpu.root (BitVec.ofNat 64 vaddr)).map BitVec.toNat else some vaddr

def Cpu.writeProtect (cpu : Cpu) : Bool := (cpu.control .cr0).getLsbD 16

-- Bit 1 of each entry on the way, which the stores of the kernel obey where CR0.WP is set.
def Cpu.writable (cpu : Cpu) (vaddr : Nat) : Bool :=
  (List.range 4).all fun level =>
    (levelEntry (words cpu.mem) cpu.root (BitVec.ofNat 64 vaddr) level).all fun entry => (words cpu.mem entry).getLsbD 1

def Cpu.translateStore (cpu : Cpu) (vaddr : Nat) : Option Nat :=
  if cpu.paged && cpu.writeProtect && !cpu.writable vaddr then none else cpu.translate vaddr

def Cpu.setMem (cpu : Cpu) (mem : Bytes) : Cpu := { cpu with mem := mem }

def Cpu.setReg (cpu : Cpu) (register : Gpr) (value : BitVec 64) : Cpu := { cpu with reg := Function.update cpu.reg register value }

def Cpu.setLong (cpu : Cpu) (register : Gpr) (value : BitVec 32) : Cpu := cpu.setReg register (value.setWidth 64)

def Cpu.long (cpu : Cpu) (register : Gpr) : BitVec 32 := (cpu.reg register).setWidth 32

inductive Instr where
  | cli
  | mov (value : BitVec 32) (into : Gpr)
  | movWord (value : BitVec 16) (into : Gpr)
  | or (value : BitVec 32) (into : Gpr)
  | push (source : Gpr)
  | lidt (operand : Nat)
  | lgdt (operand : Nat)
  | toControl (source : Gpr) (into : Control)
  | ofControl (source : Control) (into : Gpr)
  | rdmsr
  | wrmsr
  | storeWord (source : Gpr) (address : Nat)
  | storeLong (source : Gpr) (address : Nat)
  | toSegment (source : Gpr) (into : Segment)
  | farJump (selector : BitVec 16) (target : Addr)
  | loadStack (offset : BitVec 32) (into : Gpr)
  | movabs (value : Addr) (into : Gpr)
  | jump (target : Gpr)
  | call (target : Addr)

def efer : BitVec 32 := 0xC0000080

def Cpu.descriptor (cpu : Cpu) (selector : BitVec 16) : Option (BitVec 64) :=
  let offset := selector.toNat / 8 * 8
  if offset + 7 ≤ cpu.gdtr.limit then (loadVia cpu.translate cpu.mem (cpu.gdtr.base + offset) 8).map (BitVec.ofNat 64) else none

def isData (descriptor : BitVec 64) : Bool :=
  descriptor.getLsbD 47 && descriptor.getLsbD 44 && !descriptor.getLsbD 43 && descriptor.getLsbD 41 &&
    !descriptor.getLsbD 45 && !descriptor.getLsbD 46

def isCode (descriptor : BitVec 64) : Bool :=
  descriptor.getLsbD 47 && descriptor.getLsbD 44 && descriptor.getLsbD 43 && !descriptor.getLsbD 45 && !descriptor.getLsbD 46 &&
    !(descriptor.getLsbD 53 && descriptor.getLsbD 54)

def Cpu.readPointer (cpu : Cpu) (operand : Nat) : Option TableRegister :=
  (loadVia cpu.translate cpu.mem operand 2).bind fun limit =>
    (loadVia cpu.translate cpu.mem (operand + 2) 4).map fun base => ⟨limit, base⟩

def Cpu.store (cpu : Cpu) (address value count : Nat) : Option Cpu :=
  (storeVia cpu.translateStore cpu.mem address value count).map cpu.setMem

-- Paging that is turned on is that of long mode. Its fifth level, CR4.LA57, is left out.
def Cpu.setControl (cpu : Cpu) (register : Control) (value : BitVec 64) : Option Cpu :=
  let after := { cpu with control := Function.update cpu.control register value }
  if register = .cr0 ∧ value.getLsbD 31 = true ∧ cpu.paged = false then
    if value.getLsbD 0 && cpu.efer.getLsbD 8 && (cpu.control .cr4).getLsbD 5 && !(cpu.control .cr4).getLsbD 12 then
      some { after with efer := cpu.efer ||| 0x400 }
    else none
  else some after

-- What an instruction does, but for rip, which is kept beside the processor. The last argument is the address behind it.
def Instr.effect (instr : Instr) (cpu : Cpu) (behind : Addr) : Option Cpu :=
  match instr with
  | .cli => some { cpu with interrupts := false }
  | .mov value into => some (cpu.setLong into value)
  | .movWord value into =>
      some (cpu.setReg into (cpu.reg into &&& ~~~0xFFFF ||| value.setWidth 64))
  | .or value into => some (cpu.setLong into (cpu.long into ||| value))
  | .push source =>
      (cpu.store (cpu.long .sp - 4).toNat (cpu.long source).toNat 4).map fun stored => stored.setLong .sp (cpu.long .sp - 4)
  | .lidt operand => (cpu.readPointer operand).map fun pointer => { cpu with idtr := pointer }
  | .lgdt operand => (cpu.readPointer operand).map fun pointer => { cpu with gdtr := pointer }
  | .toControl source into => cpu.setControl into ((cpu.long source).setWidth 64)
  | .ofControl source into => some (cpu.setLong into ((cpu.control source).setWidth 32))
  | .rdmsr =>
      if cpu.long .cx = Boot.efer then
        some ((cpu.setLong .ax (cpu.efer.setWidth 32)).setLong .dx ((cpu.efer >>> 32).setWidth 32))
      else none
  | .wrmsr => if cpu.long .cx = Boot.efer then some { cpu with efer := (cpu.long .dx ++ cpu.long .ax : BitVec 64) } else none
  | .storeWord source address => cpu.store address ((cpu.reg source).setWidth 16).toNat 2
  | .storeLong source address => cpu.store address (cpu.long source).toNat 4
  | .toSegment source into =>
      let selector := (cpu.reg source).setWidth 16
      (cpu.descriptor selector).bind fun descriptor =>
        if isData descriptor then some { cpu with segment := Function.update cpu.segment into selector } else none
  | .farJump selector _ =>
      (cpu.descriptor selector).bind fun descriptor =>
        if isCode descriptor then some { cpu with cs := selector, longCode := descriptor.getLsbD 53 && cpu.efer.getLsbD 10 } else none
  | .loadStack offset into =>
      (loadVia cpu.translate cpu.mem (cpu.long .sp + offset).toNat 4).map fun value => cpu.setLong into (BitVec.ofNat 32 value)
  | .movabs value into => some (cpu.setReg into value)
  | .jump _ => some cpu
  | .call _ =>
      (cpu.store (cpu.reg .sp - 8).toNat behind.toNat 8).map fun stored => stored.setReg .sp (cpu.reg .sp - 8)

def Instr.next (instr : Instr) (cpu : Cpu) (behind : Addr) : Addr :=
  match instr with
  | .farJump _ target => target
  | .jump target => cpu.reg target
  | .call target => target
  | _ => behind

structure Placed where
  address : Addr
  lma : Nat
  long : Bool
  behind : Addr
  instr : Instr

structure Fetched (rip : Addr) (cpu : Cpu) (placed : Placed) : Prop where
  here : rip = placed.address
  mode : cpu.longCode = placed.long
  bytes : cpu.translate placed.address.toNat = some placed.lma

instance (rip : Addr) (cpu : Cpu) (placed : Placed) : Decidable (Fetched rip cpu placed) :=
  decidable_of_iff (rip = placed.address ∧ cpu.longCode = placed.long ∧ cpu.translate placed.address.toNat = some placed.lma)
    ⟨fun known => ⟨known.1, known.2.1, known.2.2⟩, fun fetched => ⟨fetched.here, fetched.mode, fetched.bytes⟩⟩

def runCode (code : List Placed) (rip : Addr) (cpu : Cpu) : Option (Addr × Cpu) :=
  match code with
  | [] => some (rip, cpu)
  | placed :: rest =>
      if Fetched rip cpu placed then
        (placed.instr.effect cpu placed.behind).bind fun after => runCode rest (placed.instr.next after placed.behind) after
      else none

-- What the linker decides. The addresses in .text are those at which it is loaded.
structure Layout where
  place : Nat → Nat
  base : Addr
  stackTop : Nat
  startKernel2 : Nat
  behindCall : Nat
  kernelInit : Nat

section
variable (layout : Layout)

def Layout.bootGDT : Nat := layout.base.toNat + 0x9000

def Layout.bootGDTPtr : Nat := layout.base.toNat + 0x9040

def Layout.bootGDTLim : Nat := layout.bootGDTPtr + 2

def Layout.bootGDTBse : Nat := layout.bootGDTPtr + 4

def Layout.bootIDTPtr : Nat := layout.base.toNat + 0x90E0

def entryCode : List Instr :=
  [.cli, .mov (BitVec.ofNat 32 layout.stackTop) .sp, .mov (BitVec.ofNat 32 layout.stackTop) .bp, .push .ax, .push .bx,
    .lidt layout.bootIDTPtr]

def tableCode : List Instr := [.mov ((tableAddr layout.base .bootPML4T).setWidth 32) .ax, .toControl .ax .cr3]

-- Bit 3 is not the one for global pages, which is bit 7.
def paeCode : List Instr := [.ofControl .cr4 .ax, .or 32 .ax, .or 8 .ax, .toControl .ax .cr4]

def longModeCode : List Instr := [.mov efer .cx, .rdmsr, .or 0x100 .ax, .wrmsr]

def pagingCode : List Instr := [.ofControl .cr0 .cx, .or 0x80000000 .cx]

def descriptorCode : List Instr :=
  [.mov (BitVec.ofNat 32 layout.bootGDT) .ax, .mov 39 .dx, .storeWord .dx layout.bootGDTLim, .storeLong .ax layout.bootGDTBse,
    .lgdt layout.bootGDTLim]

def segmentCode : List Instr :=
  [.movWord 0x10 .ax, .toSegment .ax .ds, .toSegment .ax .es, .toSegment .ax .fs, .toSegment .ax .gs, .toSegment .ax .ss]

def kernelAddr (lma : Nat) : Addr := BitVec.ofNat 64 (kernelVma + lma)

def argumentCode : List Instr := [.loadStack 0 .di, .loadStack 4 .si, .movabs (kernelAddr layout.startKernel2) .ax]

def layOut (place : Nat → Nat) (long : Bool) : Nat → List Instr → List Placed
  | _, [] => []
  | number, instr :: rest =>
      ⟨BitVec.ofNat 64 (place number), place number, long, BitVec.ofNat 64 (place (number + 1)), instr⟩ ::
        layOut place long (number + 1) rest

def unpagedCode : List Instr := entryCode layout ++ (tableCode layout ++ (paeCode ++ (longModeCode ++ pagingCode)))

def reloadCode : List Instr := descriptorCode layout ++ segmentCode ++ [.farJump 0x08 (BitVec.ofNat 64 (layout.place 31))]

def pagedCode : List Instr := .toControl .cx .cr0 :: reloadCode layout

def callPlaced : Placed :=
  ⟨kernelAddr layout.startKernel2, layout.startKernel2, true, kernelAddr layout.behindCall, .call (kernelAddr layout.kernelInit)⟩

def startCode : List Placed :=
  layOut layout.place false 0 (unpagedCode layout ++ pagedCode layout) ++
    (layOut layout.place true 31 (argumentCode layout ++ [.jump .ax]) ++ [callPlaced layout])

end

def bootDescriptors : List (BitVec 64) := [0, 0x002F9A000000FFFF, 0x000F92000000FFFF, 0x002FFA000000FFFF, 0x000FF2000000FFFF]

end Kraftwerk.Boot
