import Kraftwerk.Isr.Preservation
import Kraftwerk.Paging.DemandMemory

set_option autoImplicit false

-- A program on demand-paged memory whose page faults go through _isr_pagefault, against the same program on flat memory.
namespace Kraftwerk.Isr

open DownStack FlatMemory Register
open Paging (Addr FramedPager Place InPages OutsideSlot Pageable FramesKept framedHandlePagefault faultCode attempt)

-- The depth of the stack where code leaves: nothing down to the depth base is popped, and a handler is called with not more than
-- 24 words on the stack.
def exitDepth (base : Nat) (inner : Nat → Option Nat) : List Instr → Nat → Option Nat
  | [], _ => none
  | .push _ :: rest, depth => if depth < 64 then exitDepth base inner rest (depth + 1) else none
  | .pushq _ :: rest, depth => if depth < 64 then exitDepth base inner rest (depth + 1) else none
  | .movq _ _ :: rest, depth => exitDepth base inner rest depth
  | .movabs _ _ :: rest, depth => exitDepth base inner rest depth
  | .load _ _ :: rest, depth => exitDepth base inner rest depth
  | .addRsp amount :: rest, depth => if amount = 8 ∧ base < depth then exitDepth base inner rest (depth - 1) else none
  | .pop _ :: rest, depth => if base < depth then exitDepth base inner rest (depth - 1) else none
  | .callCppFunc :: rest, depth => if depth < 64 ∧ inner (depth + 1) = some depth then exitDepth base inner rest depth else none
  | .callRax :: rest, depth => if depth ≤ 24 then exitDepth base inner rest depth else none
  | .retq :: _, depth => if base < depth then some (depth - 1) else none
  | .iretq :: _, depth => some depth

-- The SysV ABI for two more words: the SS and RSP that the processor pushes above RFLAGS.
structure KeepsFrame (handler : Word → Machine → Machine) : Prop extends ObeysAbi handler where
  frame : ∀ target entry index, index < 24 →
    (handler target entry).mem (entry.rsp + 8 + BitVec.ofNat 64 (8 * index)) = entry.mem (entry.rsp + 8 + BitVec.ofNat 64 (8 * index))

structure LeavesAt (top : Word) (base : Nat) (m back : Machine) (depth : Nat) : Prop where
  rsp : back.rsp = slot top depth
  kept : ∀ index, 1 ≤ index → index ≤ base → back.mem (slot top index) = m.mem (slot top index)

section
variable (top : Word) (base : Nat)

theorem leaves_later (m middle back : Machine) (depth : Nat)
    (first : ∀ index, 1 ≤ index → index ≤ base → middle.mem (slot top index) = m.mem (slot top index))
    (later : LeavesAt top base middle back depth) : LeavesAt top base m back depth :=
  ⟨later.rsp, fun index positive within => (later.kept index positive within).trans (first index positive within)⟩

theorem leaves_same (m middle back : Machine) (depth : Nat) (later : LeavesAt top base middle back depth) (same : middle.mem = m.mem) :
    LeavesAt top base m back depth := leaves_later top base m middle back depth (fun _ _ _ => by rw [same]) later

theorem push_keeps (m : Machine) (word : Word) (depth : Nat) (rsp : m.rsp = slot top depth) (above : base ≤ depth) (few : depth < 64)
    (index : Nat) (within : index ≤ base) : (pushWord word m).mem (slot top index) = m.mem (slot top index) := by
  rw [pushWord]
  dsimp only
  rw [rsp, slot_push]
  refine Function.update_of_ne (fun same => ?_) _ _
  have equal := slot_injective top index (depth + 1) (by omega) (by omega) same
  omega

theorem push_rsp (m : Machine) (word : Word) (depth : Nat) (rsp : m.rsp = slot top depth) :
    (pushWord word m).rsp = slot top (depth + 1) := by
  rw [pushWord]
  dsimp only
  rw [rsp, slot_push]

theorem pop_rsp (m : Machine) (depth : Nat) (rsp : m.rsp = slot top depth) (positive : 1 ≤ depth) : m.rsp + 8 = slot top (depth - 1) := by
  obtain ⟨less, rfl⟩ := Nat.exists_eq_add_of_le' positive
  rw [rsp, slot_pop, Nat.add_sub_cancel]

variable (sys : System) (abi : KeepsFrame sys.handler)

include abi

theorem handler_keeps (rest : List Instr) (m : Machine) (depth : Nat) (rsp : m.rsp = slot top depth) (above : base ≤ depth)
    (few : depth ≤ 24) : LeavesAt top base m (callHandler sys rest m) depth := by
  have pushed := push_rsp top m (sys.codeAddress rest) depth rsp
  have behind : (pushWord (sys.codeAddress rest) m).rsp + 8 = slot top depth := by rw [pushed, slot_pop]
  refine ⟨(abi.returns _ _).trans behind, fun index positive within => ?_⟩
  have kept := abi.frame (m.reg rax) (pushWord (sys.codeAddress rest) m) (depth - index) (by omega)
  rw [behind, slot_load top depth (depth - index) (by omega), Nat.sub_sub_self (by omega)] at kept
  exact kept.trans (push_keeps top base m _ depth rsp above (by omega) index within)

theorem exec_leaves (cppFunc : Machine → Option (Exit × Machine)) (inner : Nat → Option Nat)
    (called : ∀ depth m exit back last, m.rsp = slot top depth → base ≤ depth → inner depth = some last →
      cppFunc m = some (exit, back) → LeavesAt top base m back last)
    (code : List Instr) (depth : Nat) (m : Machine) (exit : Exit) (back : Machine) (last : Nat) (rsp : m.rsp = slot top depth)
    (above : base ≤ depth) (fits : exitDepth base inner code depth = some last) (done : exec sys cppFunc code m = some (exit, back)) :
    LeavesAt top base m back last := by
  induction code generalizing depth m with
  | nil => cases done
  | cons instr rest ih =>
      cases instr with
      | push source =>
          obtain ⟨few, later⟩ := Option.ite_none_right_eq_some.mp fits
          exact leaves_later top base m _ back last (fun index _ => push_keeps top base m _ depth rsp above few index)
            (ih (depth + 1) _ (push_rsp top m _ depth rsp) (Nat.le_succ_of_le above) later done)
      | pushq constant =>
          obtain ⟨few, later⟩ := Option.ite_none_right_eq_some.mp fits
          exact leaves_later top base m _ back last (fun index _ => push_keeps top base m _ depth rsp above few index)
            (ih (depth + 1) _ (push_rsp top m _ depth rsp) (Nat.le_succ_of_le above) later done)
      | movq constant into => exact leaves_same top base m _ back last (ih depth (setReg into constant m) rsp above fits done) rfl
      | movabs symbol into => exact leaves_same top base m _ back last (ih depth (setReg into (sys.symbol symbol) m) rsp above fits done) rfl
      | load offset into => exact leaves_same top base m _ back last (ih depth (setReg into (m.mem (m.rsp + offset)) m) rsp above fits done) rfl
      | addRsp amount =>
          obtain ⟨⟨rfl, deeper⟩, later⟩ := Option.ite_none_right_eq_some.mp fits
          exact leaves_same top base m _ back last (ih (depth - 1) (addRsp 8 m) (pop_rsp top m depth rsp (by omega)) (by omega) later done) rfl
      | pop into =>
          obtain ⟨deeper, later⟩ := Option.ite_none_right_eq_some.mp fits
          exact leaves_same top base m _ back last (ih (depth - 1) (popReg into m) (pop_rsp top m depth rsp (by omega)) (by omega) later done) rfl
      | callCppFunc =>
          obtain ⟨⟨few, inside⟩, later⟩ := Option.ite_none_right_eq_some.mp fits
          rw [exec] at done
          split at done
          · rename_i target returned returns
            split at done
            · have within := called (depth + 1) _ _ returned depth (push_rsp top m _ depth rsp) (Nat.le_succ_of_le above) inside returns
              refine leaves_later top base m returned back last (fun index positive inBase => ?_)
                (ih depth returned within.rsp above later done)
              exact (within.kept index positive inBase).trans (push_keeps top base m _ depth rsp above few index inBase)
            · cases done
          · cases done
      | callRax =>
          obtain ⟨few, later⟩ := Option.ite_none_right_eq_some.mp fits
          have within := handler_keeps top base sys abi rest m depth rsp above few
          exact leaves_later top base m _ back last within.kept (ih depth _ within.rsp above later done)
      | retq =>
          obtain ⟨deeper, same⟩ := Option.ite_none_right_eq_some.mp fits
          cases done
          cases same
          exact ⟨pop_rsp top m depth rsp (by omega), fun _ _ _ => rfl⟩
      | iretq =>
          cases done
          cases fits
          exact ⟨rsp, fun _ _ _ => rfl⟩

-- The stub leaves with the five words of the processor's frame on the stack, and these as they were.
theorem page_fault_leaves (entry back : Machine) (exit : Exit) (rsp : entry.rsp = slot top 6)
    (done : runStub sys .pagefault entry = some (exit, back)) : LeavesAt top 5 entry back 5 := by
  refine exec_leaves top 5 sys abi _ (exitDepth 5 (fun _ => none) isrCallCppFunc) ?_ isrPagefault 6 entry exit back 5 rsp (by decide) rfl
    done
  intro depth m exit back last inRsp above inside returned
  exact exec_leaves top 5 sys abi _ (fun _ => none) (fun _ _ _ _ _ _ _ none => by cases none) isrCallCppFunc depth m exit back last inRsp
    above inside returned

end

structure Context where
  reg : Register → Word
  rsp : Word
  rip : Word
  cs : Word
  rflags : Word
  ss : Word

structure Running where
  machine : Machine
  rip : Word
  cs : Word
  rflags : Word
  ss : Word
  pager : FramedPager

def Running.context (running : Running) : Context :=
  ⟨running.machine.reg, running.machine.rsp, running.rip, running.cs, running.rflags, running.ss⟩

def Running.goOn (running : Running) (context : Context) (pager : FramedPager) : Running where
  machine := { running.machine with reg := context.reg, rsp := context.rsp }
  rip := context.rip
  cs := context.cs
  rflags := context.rflags
  ss := context.ss
  pager := pager

-- In 64-bit mode the processor aligns the stack first, and pushes SS and RSP in every case. RF, which it sets in the RFLAGS that it
-- pushes for a fault, is left out.
def enterStub (code : Word) (running : Running) : Machine :=
  pushWord code (pushWord running.rip (pushWord running.cs (pushWord running.rflags (pushWord running.machine.rsp (pushWord running.ss
    { running.machine with rsp := running.machine.rsp &&& ~~~0xF })))))

-- What iretq takes from the stack.
def leaveStub (back : Machine) (pager : FramedPager) : Running where
  machine := { back with rsp := back.mem (back.rsp + 24) }
  rip := back.mem back.rsp
  cs := back.mem (back.rsp + 8)
  rflags := back.mem (back.rsp + 16)
  ss := back.mem (back.rsp + 32)
  pager := pager

-- A program by its accesses: what it does from one to the next depends on its context and on what it has loaded.
abbrev Program (pages : List Addr) := Client Context (Place pages) Word

section
variable (sys : System) (address : Stub → Word) (idt : Idt) (root : Addr)

-- do_isr_pagefault passes its first argument and CR2 on.
def pageFault (code cr2 : Word) (running : Running) : Option Running :=
  if gateOffset (idt 14) = address .pagefault then
    (runStub sys .pagefault (enterStub code running)).bind fun (exit, back) =>
      back.calls.head?.bind fun call =>
        if exit = .iretq ∧ call.target = sys.symbol .doIsrPagefault then
          (framedHandlePagefault root call.rdi cr2 running.pager).map (leaveStub back)
        else none
  else none

-- An instruction that faults is fetched again when the stub has left.
def instruction {pages : List Addr} (program : Program pages) : Nat → Running → Option Running
  | 0, _ => none
  | fuel + 1, running =>
      match program running.context with
      | none => some running
      | some (access, resume) =>
          match attempt root running.pager (access.map Place.vaddr) with
          | some (loaded, pager) => some (running.goOn (resume loaded) pager)
          | none =>
              (pageFault sys address idt root (faultCode (access.map Place.vaddr)) (access.map Place.vaddr).address running).bind
                (instruction program fuel)

end

def frameTop (running : Running) : Word := running.machine.rsp &&& ~~~0xF

def frameWords (running : Running) : List Word := [running.rip, running.cs, running.rflags, running.machine.rsp, running.ss]

theorem entry_stack (code : Word) (running : Running) :
    StackIs (enterStub code running) (frameTop running) (code :: frameWords running) := by
  have empty : StackIs { running.machine with rsp := running.machine.rsp &&& ~~~0xF } (frameTop running) [] :=
    ⟨(BitVec.sub_zero _).symm, trivial⟩
  have push := fun (m : Machine) (word : Word) (words : List Word) (few : words.length ≤ 5) (stack : StackIs m (frameTop running) words) =>
    stack_push m (frameTop running) word words (by omega) stack
  have ss := push _ running.ss [] (by simp) empty
  have rsp := push _ running.machine.rsp _ (by simp) ss
  have rflags := push _ running.rflags _ (by simp) rsp
  have cs := push _ running.cs _ (by simp) rflags
  have rip := push _ running.rip _ (by simp) cs
  exact push _ code _ (by simp [frameWords]) rip

section
variable (sys : System) (abi : KeepsFrame sys.handler)

include abi

-- Whatever the handler does to its registers and its stack, the interrupted context comes back.
theorem fault_resumes (code cr2 : Word) (address : Stub → Word) (idt : Idt) (root : Addr) (running : Running) (pager : FramedPager)
    (gate : gateOffset (idt 14) = address .pagefault) (handled : framedHandlePagefault root code cr2 running.pager = some pager) :
    ∃ after, pageFault sys address idt root code cr2 running = some after ∧ after.context = running.context ∧ after.pager = pager := by
  have stack := entry_stack code running
  obtain ⟨back, runs, preserved⟩ := error_code_stub_preserves sys abi.toObeysAbi .pagefault .doIsrPagefault rfl (enterStub code running)
  have leaves := page_fault_leaves (frameTop running) sys abi _ back .iretq stack.rsp runs
  have word : ∀ index word, (frameWords running)[index]? = some word → back.mem (back.rsp + BitVec.ofNat 64 (8 * index)) = word := by
    intro index word found
    have inside := (List.getElem?_eq_some_iff.mp found).1
    have five : (frameWords running).length = 5 := rfl
    rw [leaves.rsp, slot_load _ 5 index (by omega), leaves.kept (5 - index) (by omega) (by omega)]
    have held := holds_get _ _ word _ (index + 1) stack.holds found
    rw [List.length_cons, five, Nat.add_sub_add_right] at held
    exact held
  have first : back.mem back.rsp = running.rip := (congrArg back.mem (BitVec.add_zero back.rsp).symm).trans (word 0 running.rip rfl)
  obtain ⟨handler, named, called⟩ := preserved.called
  obtain rfl : Symbol.doIsrPagefault = handler := Option.some.inj named
  have passed : errorCode .pagefault (enterStub code running) = code := stack_top _ _ code _ stack
  rw [passed] at called
  refine ⟨leaveStub back pager, ?_, ?_, rfl⟩
  · rw [pageFault, if_pos gate, runs, Option.bind_some]
    dsimp only
    rw [called, List.head?_cons, Option.bind_some, if_pos ⟨rfl, rfl⟩]
    dsimp only
    rw [handled, Option.map_some]
  · rw [Running.context, Running.context, leaveStub]
    dsimp only
    have registers : back.reg = running.machine.reg := funext preserved.registers
    have cs : back.mem (back.rsp + 8) = running.cs := word 1 running.cs rfl
    have rflags : back.mem (back.rsp + 16) = running.rflags := word 2 running.rflags rfl
    have rsp : back.mem (back.rsp + 24) = running.machine.rsp := word 3 running.machine.rsp rfl
    have ss : back.mem (back.rsp + 32) = running.ss := word 4 running.ss rfl
    rw [registers, first, cs, rflags, rsp, ss]

section
variable (address : Stub → Word) (idt : Idt) (root : Addr) (gate : gateOffset (idt 14) = address .pagefault) {pages : List Addr}
  (program : Program pages)

include gate

theorem instruction_executes (fuel : Nat) (running : Running) (access : Access (Place pages) Word) (resume : List Word → Context)
    (loaded : List Word) (next : FramedPager) (chosen : program running.context = some (access, resume))
    (done : Paging.execute root fuel running.pager (access.map Place.vaddr) = some (loaded, next)) :
    ∃ after, instruction sys address idt root program fuel running = some after ∧ after.context = resume loaded ∧ after.pager = next := by
  induction fuel generalizing running with
  | zero => cases done
  | succ fuel ih =>
      rw [Paging.execute] at done
      rw [instruction, chosen]
      dsimp only
      split at done
      · rename_i served attempted
        cases done
        rw [attempted]
        exact ⟨_, rfl, rfl, rfl⟩
      · rename_i faulted
        rw [faulted]
        obtain ⟨pager, handled, again⟩ := Option.bind_eq_some_iff.mp done
        obtain ⟨resumed, returned, context, same⟩ := fault_resumes sys abi _ _ address idt root running pager gate handled
        dsimp only
        rw [returned, Option.bind_some]
        exact ih resumed (context ▸ chosen) (same ▸ again)

theorem instruction_served (pages frames : List Addr) (start : Paging.Memory) (program : Program pages) (fuel : Nat) (running : Running)
    (rest : List Addr) (outside : ∀ page ∈ pages, OutsideSlot page)
    (backed : Paging.Backed root pages frames start running.pager rest) :
    ∃ next, instruction sys address idt root program (fuel + 2) running = some next ∧
      (∃ rest, Paging.Backed root pages frames start next.pager rest) ∧
      ServesClient program (fun running => Paging.contents root pages running.pager) Running.context running next := by
  cases chosen : program running.context with
  | none =>
      refine ⟨running, by rw [instruction, chosen], ⟨rest, backed⟩, fun _ => rfl, fun access resume choice => ?_⟩
      cases chosen.symm.trans choice
  | some choice =>
      obtain ⟨access, resume⟩ := choice
      obtain ⟨loaded, pager, more, done, after, served⟩ :=
        Paging.access_served root pages frames start running.pager rest outside backed fuel access
      obtain ⟨next, executed, context, same⟩ :=
        instruction_executes sys abi address idt root gate program (fuel + 2) running access resume loaded pager chosen done
      refine ⟨next, executed, ⟨more, same ▸ after⟩, fun none => ?_, fun other others otherChosen => ?_⟩
      · cases chosen.symm.trans none
      · cases chosen.symm.trans otherChosen
        refine ⟨loaded, ?_, context⟩
        rw [← same] at served
        cases access with
        | load place => exact served
        | store place value => exact served

end

end

theorem page_fault_installed : Installed 14 .pagefault := installed_of_last_call 14 .pagefault (by decide +kernel)

-- A program cannot tell pages that are made on demand, each fault of which comes through the gate and the stub, from flat memory:
-- after every number of accesses it has the same registers, stack pointer, RIP and flags.
theorem faulted_program_flat (sys : System) (abi : KeepsFrame sys.handler) (address : Stub → Word) (idt : Idt) (root : Addr)
    (pages frames : List Addr) (running : Running) (fuel : Nat) (idle : running.pager.pfaulting = false)
    (draws : Pmem.Draws running.pager.lists frames) (pageable : Pageable root ⟨running.pager.mem, frames⟩)
    (enough : 4 * pages.length ≤ frames.length)
    (untouched : ∀ page ∈ pages, OutsideSlot page ∧ Paging.mapping running.pager.mem root page = none) (program : Program pages)
    (turns : Nat) :
    ∃ memory final last,
      Loops.after (instruction sys address (initializeIdt address idt) root program (fuel + 2)) turns running = some last ∧
      drive program turns running.context memory = (last.context, final) ∧
      (∀ place word, Paging.load root last.pager.mem place.vaddr = some word → final place = word) ∧
      (∀ user, OutsideSlot user → ¬ InPages pages user →
        Paging.walk last.pager.mem root user = Paging.walk running.pager.mem root user) ∧
      FramesKept running.pager.mem last.pager.mem root frames := by
  have outside := fun page member => (untouched page member).1
  have gate := page_fault_installed address idt
  have fresh := Paging.untouched_backed root pages frames running.pager idle draws pageable enough fun page member => (untouched page member).2
  obtain ⟨memory, final, last, finished, ⟨rest, backed⟩, driven, _, agrees⟩ := drive_flat program
    (instruction sys address (initializeIdt address idt) root program (fuel + 2))
    (fun running => Paging.contents root pages running.pager) Running.context
    (fun state => ∃ rest, Paging.Backed root pages frames running.pager.mem state.pager rest)
    (fun state inv => inv.elim fun rest backed =>
      instruction_served sys abi address _ root gate pages frames running.pager.mem program fuel state rest outside backed)
    turns running ⟨frames, fresh⟩
  refine ⟨memory, final, last, finished, driven, agrees, fun user userOutside notPages => ?_, backed.words⟩
  rw [Paging.walk_mapping last.pager.mem root user backed.pageable.plain userOutside, backed.others user userOutside notPages,
    Paging.walk_mapping running.pager.mem root user pageable.plain userOutside]

theorem quiet_keeps_frame : KeepsFrame quietSystem.handler where
  toObeysAbi := quiet_obeys_abi
  frame := fun _ _ _ _ => rfl

def countUp : Program [0x1FF000] := fun context =>
  if context.rip = 0x8000 then
    some (.load Paging.holePlace, fun loaded =>
      { context with reg := Function.update context.reg rax (loaded.headD 0), rip := 0x8007 })
  else some (.store Paging.holePlace (context.reg rax + 1), fun _ => { context with rip := 0x8000 })

def countingUp : Running where
  machine := quietEntry
  rip := 0x8000
  cs := 0x08
  rflags := 0x2
  ss := 0x10
  pager := Paging.holedPager

theorem counting_up_flat :
    ∃ memory final last,
      Loops.after (instruction quietSystem (fun _ => 0x200000) (initializeIdt (fun _ => 0x200000) fun _ => ⟨0, 0, 0, 0, 0, 0, 0⟩) 0x1000
        countUp 2) 5 countingUp = some last ∧
      drive countUp 5 countingUp.context memory = (last.context, final) ∧
      (∀ place word, Paging.load 0x1000 last.pager.mem place.vaddr = some word → final place = word) ∧
      (∀ user, OutsideSlot user → ¬ InPages [0x1FF000] user →
        Paging.walk last.pager.mem 0x1000 user = Paging.walk countingUp.pager.mem 0x1000 user) ∧
      FramesKept countingUp.pager.mem last.pager.mem 0x1000 [0x5000, 0x6000, 0x7000, 0x8000] :=
  faulted_program_flat quietSystem quiet_keeps_frame (fun _ => 0x200000) (fun _ => ⟨0, 0, 0, 0, 0, 0, 0⟩) 0x1000 [0x1FF000]
    [0x5000, 0x6000, 0x7000, 0x8000] countingUp 0 rfl Paging.holed_pager_draws Paging.holed_pageable (by decide)
    (List.forall_mem_singleton.mpr ⟨by decide, by decide⟩) countUp 5

end Kraftwerk.Isr
