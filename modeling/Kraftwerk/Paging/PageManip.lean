import Kraftwerk.Paging.Window
import Mathlib.Logic.Function.Basic

set_option autoImplicit false

-- os/arch/x86-64/page_manip.cpp. Every access goes through the recursive window
-- and the walk of the processor; a result of none is an access that faults, an
-- allocation that fails, or a handler that halts. The TLB is not modelled.
namespace Kraftwerk.Paging

def load (root : Addr) (mem : Memory) (vaddr : Addr) : Option (BitVec 64) := (walk mem root vaddr).map mem

def store (root : Addr) (mem : Memory) (vaddr : Addr) (value : BitVec 64) : Option Memory :=
  (walk mem root vaddr).map fun address => Function.update mem address value

-- The page tables with what physical_memory::allocate(1) will answer, in order.
structure Machine where
  mem : Memory
  frames : List Addr

def allocate (machine : Machine) : Option (Addr × Machine) :=
  match machine.frames with
  | [] => none
  | page :: rest => some (page, { machine with frames := rest })

-- The three levels of mem_create_pagetable differ in the window only.
def createEntry (root window : Addr) (machine : Machine) : Option Machine :=
  (load root machine.mem window).bind fun entry =>
    if !present entry then
      (allocate machine).bind fun (table, machine) =>
        (store root machine.mem window (table ||| 0x101)).map fun mem => { machine with mem := mem }
    else some machine

def memCreatePagetable (root vaddr : Addr) (machine : Machine) : Option Machine :=
  (createEntry root (slot memPml4tAddr (memPml4Index vaddr)) machine).bind fun machine =>
    (createEntry root (slot (memPdptAddr vaddr) (memPdptIndex vaddr)) machine).bind fun machine =>
      createEntry root (slot (memPdirAddr vaddr) (memPdirIndex vaddr)) machine

def memCheckPagetable (root vaddr : Addr) (mem : Memory) : Option Bool :=
  (load root mem (slot memPml4tAddr (memPml4Index vaddr))).bind fun pml4e =>
    if !present pml4e then some false
    else
      (load root mem (slot (memPdptAddr vaddr) (memPdptIndex vaddr))).bind fun pdpte =>
        if !present pdpte then some false
        else
          (load root mem (slot (memPdirAddr vaddr) (memPdirIndex vaddr))).bind fun pde =>
            if !present pde then some false else some true

def loadEntry (root vaddr : Addr) (mem : Memory) : Option (BitVec 64) :=
  load root mem (slot (memPtblAddr vaddr) (memPtblIndex vaddr))

def storeEntry (root vaddr : Addr) (mem : Memory) (value : BitVec 64) : Option Memory :=
  store root mem (slot (memPtblAddr vaddr) (memPtblIndex vaddr)) value

structure PageEntry where
  address : Addr
  global : Bool
  pageSize : Bool
  dirty : Bool
  accessed : Bool
  cacheDisabled : Bool
  writeThrough : Bool
  userAccessible : Bool
  rwAccessible : Bool
  present : Bool
deriving DecidableEq, Repr

def PageEntry.ofRaw (rawValue : BitVec 64) : PageEntry where
  address := rawValue &&& ~~~0xFFF
  present := rawValue &&& (1#64 <<< 0) != 0
  rwAccessible := rawValue &&& (1#64 <<< 1) != 0
  userAccessible := rawValue &&& (1#64 <<< 2) != 0
  writeThrough := rawValue &&& (1#64 <<< 3) != 0
  cacheDisabled := rawValue &&& (1#64 <<< 4) != 0
  accessed := rawValue &&& (1#64 <<< 5) != 0
  dirty := rawValue &&& (1#64 <<< 6) != 0
  pageSize := rawValue &&& (1#64 <<< 7) != 0
  global := rawValue &&& (1#64 <<< 8) != 0

def flagBit {width : Nat} (flag : Bool) (index : Nat) : BitVec width :=
  (if flag then (1 : BitVec width) else 0) <<< index

def PageEntry.toRaw (entry : PageEntry) : BitVec 64 :=
  (entry.address &&& ~~~0xFFF) ||| flagBit entry.global 8 ||| flagBit entry.pageSize 7 ||| flagBit entry.dirty 6 |||
    flagBit entry.accessed 5 ||| flagBit entry.cacheDisabled 4 ||| flagBit entry.writeThrough 3 |||
    flagBit entry.userAccessible 2 ||| flagBit entry.rwAccessible 1 ||| flagBit entry.present 0

def memGetMmuEntry (root vaddr : Addr) (mem : Memory) : Option PageEntry :=
  (memCheckPagetable root vaddr mem).bind fun there =>
    if !there then some (.ofRaw 0) else (loadEntry root vaddr mem).map .ofRaw

def memGetPhysicalAddress (root vaddr : Addr) (mem : Memory) : Option Addr :=
  (memCheckPagetable root vaddr mem).bind fun there =>
    if !there then some 0 else (loadEntry root vaddr mem).map (· &&& ~~~0xFFF)

def memGetFlags (root vaddr : Addr) (mem : Memory) : Option Addr :=
  (memCheckPagetable root vaddr mem).bind fun there =>
    if !there then some 0 else (loadEntry root vaddr mem).map (· &&& 0xFFF)

-- The setters do not look at what mem_check_pagetable answers.
def memSetMmuEntry (root vaddr : Addr) (entry : PageEntry) (mem : Memory) : Option Memory :=
  (memCheckPagetable root vaddr mem).bind fun _ => storeEntry root vaddr mem entry.toRaw

def memSetPhysicalAddress (root vaddr paddr : Addr) (mem : Memory) : Option Memory :=
  (memCheckPagetable root vaddr mem).bind fun _ =>
    (loadEntry root vaddr mem).bind fun old =>
      let flags : BitVec 16 := (old &&& 0xFFF).setWidth 16
      storeEntry root vaddr mem ((paddr &&& ~~~0xFFF) ||| flags.setWidth 64)

def memSetFlags (root vaddr : Addr) (flags : BitVec 16) (mem : Memory) : Option Memory :=
  (memCheckPagetable root vaddr mem).bind fun _ =>
    (loadEntry root vaddr mem).bind fun old =>
      let paddr := old &&& ~~~0xFFF
      storeEntry root vaddr mem (paddr ||| (flags &&& 0xFFF).setWidth 64)

structure PageFlags where
  global : Bool
  pageSize : Bool
  dirty : Bool
  accessed : Bool
  cacheDisabled : Bool
  writeThrough : Bool
  userAccessible : Bool
  rwAccessible : Bool
  present : Bool
deriving DecidableEq, Repr

def flagsToX8664 (flags : PageFlags) : BitVec 32 :=
  0 ||| flagBit flags.global 8 ||| flagBit flags.pageSize 7 ||| flagBit flags.dirty 6 ||| flagBit flags.accessed 5 |||
    flagBit flags.cacheDisabled 4 ||| flagBit flags.writeThrough 3 ||| flagBit flags.userAccessible 2 |||
    flagBit flags.rwAccessible 1 ||| flagBit flags.present 0

def mapPages (root : Addr) (pflags : BitVec 32) : Nat → Addr → Addr → Machine → Option Machine
  | 0, _, _, machine => some machine
  | left + 1, vaddr, paddr, machine =>
      (memCheckPagetable root vaddr machine.mem).bind fun there =>
        (if !there then memCreatePagetable root vaddr machine else some machine).bind fun machine =>
          (storeEntry root vaddr machine.mem ((paddr &&& ~~~0xFFF) ||| pflags.setWidth 64)).bind fun mem =>
            mapPages root pflags left (vaddr + 0x1000) (paddr + 0x1000) { machine with mem := mem }

def mapRange (root vaddr paddr : Addr) (nPages : BitVec 32) (flags : PageFlags) (machine : Machine) : Option Machine :=
  mapPages root (flagsToX8664 flags) nPages.toNat vaddr paddr machine

-- Where a page table is missing, continue leaves vaddr as it is.
def unmapPages (root : Addr) : Nat → Addr → Memory → Option Memory
  | 0, _, mem => some mem
  | left + 1, vaddr, mem =>
      (memCheckPagetable root vaddr mem).bind fun there =>
        if !there then unmapPages root left vaddr mem
        else (storeEntry root vaddr mem 0).bind fun mem => unmapPages root left (vaddr + 0x1000) mem

def unmapRange (root vaddr : Addr) (nPages : BitVec 32) (mem : Memory) : Option Memory :=
  unmapPages root nPages.toNat vaddr mem

structure Pager extends Machine where
  pfaulting : Bool

-- The error code is only written out, before the handler halts.
def handlePagefault (root : Addr) (_errcode : BitVec 64) (faultAddr : Addr) (pager : Pager) : Option Pager :=
  if pager.pfaulting then none
  else if faultAddr < 0x1000 then none
  else
    (allocate pager.toMachine).bind fun (newPage, machine) =>
      (memCheckPagetable root faultAddr machine.mem).bind fun there =>
        (if !there then memCreatePagetable root faultAddr machine else some machine).bind fun machine =>
          (storeEntry root faultAddr machine.mem ((newPage &&& ~~~0xFFF) ||| 0x1)).map fun mem =>
            ⟨{ machine with mem := mem }, false⟩

end Kraftwerk.Paging
