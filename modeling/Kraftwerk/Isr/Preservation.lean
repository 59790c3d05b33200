import Kraftwerk.Isr.Context

set_option autoImplicit false

namespace Kraftwerk.Isr

open DownStack Instr Register

def runStub (sys : System) (stub : Stub) (entry : Machine) : Option (Exit × Machine) :=
  exec sys (exec sys (fun _ => none) isrCallCppFunc) stub.body entry

-- Where the processor left RIP, with CS and RFLAGS above it: below it lies an
-- error code for the stubs that push no constant of their own.
def savedRip (stub : Stub) (entry : Machine) : Word :=
  match pushedConstant stub.body with
  | some _ => entry.rsp
  | none => entry.rsp + 8

def errorCode (stub : Stub) (entry : Machine) : Word :=
  match pushedConstant stub.body with
  | some constant => constant
  | none => entry.mem entry.rsp

structure Preserved (sys : System) (stub : Stub) (entry back : Machine) : Prop where
  registers : ∀ register, back.reg register = entry.reg register
  rsp : back.rsp = savedRip stub entry
  frame : ∀ index, index < 3 → back.mem (back.rsp + BitVec.ofNat 64 (8 * index)) =
    entry.mem (savedRip stub entry + BitVec.ofNat 64 (8 * index))
  called : ∃ handler, calledSymbol stub.body = some handler ∧
    back.calls = ⟨sys.symbol handler, errorCode stub entry, entry.mem (savedRip stub entry),
      entry.mem (savedRip stub entry + 8)⟩ :: entry.calls

def PreservesContext (sys : System) (stub : Stub) (entry : Machine) : Prop :=
  ∃ back, runStub sys stub entry = some (.iretq, back) ∧ Preserved sys stub entry back

theorem call_and_return_preserves (sys : System) (abi : ObeysAbi sys.handler) (handler : Symbol) (m : Machine)
    (top kept code rip cs rflags : Word) (stack : StackIs m top [kept, code, rip, cs, rflags]) :
    ∃ back, exec sys (exec sys (fun _ => none) isrCallCppFunc) (callAndReturn handler) m = some (.iretq, back) ∧
      StackIs back top [rip, cs, rflags] ∧
      (∀ register, back.reg register = if register = rax then kept else m.reg register) ∧
      back.calls = ⟨sys.symbol handler, code, rip, cs⟩ :: m.calls := by
  let rest := [Instr.addRsp 8, pop rax, Instr.addRsp 8, iretq]
  have named := stack_set_reg m top (sys.symbol handler) _ rax stack
  have pushed := stack_push _ top ((setReg rax (sys.symbol handler) m).reg rax) _ (by simp) named
  have value : (setReg rax (sys.symbol handler) m).reg rax = sys.symbol handler := by
    simp only [setReg, Function.update_self]
  have called := stack_push _ top (sys.codeAddress rest) _ (by simp) pushed
  rw [value] at called
  obtain ⟨back, returns, backStack, backReg, backCalls⟩ :=
    isr_call_cpp_func_returns sys abi (fun _ => none) _ top _ _ _ _ _ _ _ called
  have discarded := stack_drop back top _ _ backStack
  have popped := stack_set_reg _ top kept _ rax discarded
  refine ⟨addRsp 8 (popReg rax (addRsp 8 back)), ?_, ?_, fun register => ?_, ?_⟩
  · simp only [callAndReturn, exec, returns, value, rest, if_true]
  · exact stack_drop _ top code _ (stack_drop _ top kept _ (stack_set_reg _ top _ _ rax discarded))
  · by_cases isRax : register = rax
    · subst isRax
      simp only [popReg, Isr.addRsp, setReg, Function.update_self, if_true]
      exact stack_top _ top kept _ discarded
    · rw [if_neg isRax]
      refine (Function.update_of_ne isRax _ _).trans ((backReg register isRax).trans ?_)
      exact Function.update_of_ne isRax _ _
  · exact backCalls

theorem slot_frame (rip : Word) : slot (rip + 24) 3 = rip := add_sub_cancel_right rip 24

theorem frame_holds (mem : Word → Word) (rip : Word) :
    Holds mem (rip + 24) [mem rip, mem (rip + 8), mem (rip + 16)] := by
  have cs : slot (rip + 24) 2 = rip + 8 := by rw [← slot_pop, slot_frame]
  have rflags : slot (rip + 24) 1 = rip + 16 := by
    rw [← slot_pop, cs, BitVec.add_assoc]
    rfl
  exact ⟨congrArg mem (slot_frame rip), congrArg mem cs, congrArg mem rflags, trivial⟩

theorem preserved_of_stack (sys : System) (stub : Stub) (entry back : Machine) (handler : Symbol)
    (calls : calledSymbol stub.body = some handler)
    (stack : StackIs back (savedRip stub entry + 24) [entry.mem (savedRip stub entry), entry.mem (savedRip stub entry + 8),
      entry.mem (savedRip stub entry + 16)])
    (registers : ∀ register, back.reg register = entry.reg register)
    (called : back.calls = ⟨sys.symbol handler, errorCode stub entry, entry.mem (savedRip stub entry),
      entry.mem (savedRip stub entry + 8)⟩ :: entry.calls) : Preserved sys stub entry back where
  registers := registers
  rsp := stack.rsp.trans (slot_frame _)
  frame := by
    intro index below
    match index, below with
    | 0, _ => exact (stack_load back _ _ _ 0 stack rfl).trans (congrArg entry.mem (BitVec.add_zero _).symm)
    | 1, _ => exact stack_load back _ _ _ 1 stack rfl
    | 2, _ => exact stack_load back _ _ _ 2 stack rfl
  called := ⟨handler, calls, called⟩

-- With the rax slot and the code slot filled alike by any stub, this is what its end makes of them.
theorem stub_end (sys : System) (abi : ObeysAbi sys.handler) (handler : Symbol) (entry : Machine) (first second rip : Word)
    (below : entry.rsp = slot (rip + 24) 3) :
    ∃ back, exec sys (exec sys (fun _ => none) isrCallCppFunc) (callAndReturn handler)
        (pushWord second (pushWord first entry)) = some (.iretq, back) ∧
      StackIs back (rip + 24) [entry.mem rip, entry.mem (rip + 8), entry.mem (rip + 16)] ∧
      (∀ register, back.reg register = if register = rax then second else entry.reg register) ∧
      back.calls = ⟨sys.symbol handler, first, entry.mem rip, entry.mem (rip + 8)⟩ :: entry.calls := by
  have start : StackIs entry (rip + 24) [entry.mem rip, entry.mem (rip + 8), entry.mem (rip + 16)] :=
    ⟨below, frame_holds entry.mem rip⟩
  have one := stack_push entry (rip + 24) first _ (by simp) start
  have two := stack_push _ (rip + 24) second _ (by simp) one
  exact call_and_return_preserves sys abi handler _ (rip + 24) second first _ _ _ two

-- The handler gets the stub's error code; what comes back in rax is the value the stub pushed.
theorem stub_preserves (sys : System) (stub : Stub) (handler : Symbol) (entry back : Machine)
    (calls : calledSymbol stub.body = some handler)
    (stack : StackIs back (savedRip stub entry + 24) [entry.mem (savedRip stub entry), entry.mem (savedRip stub entry + 8),
      entry.mem (savedRip stub entry + 16)])
    (registers : ∀ register, back.reg register = if register = rax then entry.reg rax else entry.reg register)
    (called : back.calls = ⟨sys.symbol handler, errorCode stub entry, entry.mem (savedRip stub entry),
      entry.mem (savedRip stub entry + 8)⟩ :: entry.calls) : Preserved sys stub entry back := by
  refine preserved_of_stack sys stub entry back handler calls stack (fun register => ?_) called
  rw [registers register]
  split
  · rename_i isRax
    rw [isRax]
  · rfl

theorem code_stub_preserves (sys : System) (abi : ObeysAbi sys.handler) (stub : Stub) (code : Word) (handler : Symbol)
    (shape : stub.body = codeStub code handler) (entry : Machine) : PreservesContext sys stub entry := by
  have ripEq : savedRip stub entry = entry.rsp := by rw [savedRip, shape]; rfl
  have codeEq : errorCode stub entry = code := by rw [errorCode, shape]; rfl
  obtain ⟨back, runs, stack, registers, called⟩ :=
    stub_end sys abi handler entry code (entry.reg rax) entry.rsp (slot_frame entry.rsp).symm
  rw [← ripEq] at stack called
  rw [← codeEq] at called
  refine ⟨back, by rw [runStub, shape]; exact runs, ?_⟩
  exact stub_preserves sys stub handler entry back (by rw [shape]; rfl) stack registers called

-- The processor's error code takes the place of the constant that other stubs push.
theorem error_code_stub_preserves (sys : System) (abi : ObeysAbi sys.handler) (stub : Stub) (handler : Symbol)
    (shape : stub.body = errorCodeStub handler) (entry : Machine) : PreservesContext sys stub entry := by
  have ripEq : savedRip stub entry = entry.rsp + 8 := by rw [savedRip, shape]; rfl
  have codeEq : errorCode stub entry = entry.mem entry.rsp := by rw [errorCode, shape]; rfl
  have below : entry.rsp = slot (entry.rsp + 8 + 24) 4 := by rw [← slot_push, slot_frame, BitVec.add_sub_cancel]
  have start : StackIs entry (entry.rsp + 8 + 24) [entry.mem entry.rsp, entry.mem (entry.rsp + 8),
      entry.mem (entry.rsp + 8 + 8), entry.mem (entry.rsp + 8 + 16)] :=
    ⟨below, congrArg entry.mem below.symm, frame_holds entry.mem (entry.rsp + 8)⟩
  have pushed := stack_push entry _ (entry.reg rax) _ (by simp) start
  obtain ⟨back, runs, stack, registers, called⟩ := call_and_return_preserves sys abi handler _ _ _ _ _ _ _ pushed
  rw [← ripEq] at stack called
  rw [← codeEq] at called
  refine ⟨back, by rw [runStub, shape]; exact runs, ?_⟩
  exact stub_preserves sys stub handler entry back (by rw [shape]; rfl) stack registers called

-- The handler gets the interrupted rax as the error code, and rax comes back as 15.
theorem fpexcept_preserves_iff (sys : System) (abi : ObeysAbi sys.handler) (entry : Machine) :
    PreservesContext sys .fpexcept entry ↔ entry.reg rax = 15 := by
  obtain ⟨back, runs, stack, registers, called⟩ :=
    stub_end sys abi .doIsrFpexcept entry (entry.reg rax) 15 entry.rsp (slot_frame entry.rsp).symm
  have runsStub : runStub sys .fpexcept entry = some (.iretq, back) := runs
  constructor
  · rintro ⟨other, otherRuns, preserved⟩
    obtain rfl : back = other := congrArg Prod.snd (Option.some.inj (runsStub.symm.trans otherRuns))
    rw [← preserved.registers rax, registers rax, if_pos rfl]
  · intro fifteen
    rw [fifteen] at called
    rw [← fifteen] at registers
    exact ⟨back, runsStub, stub_preserves sys .fpexcept .doIsrFpexcept entry back rfl stack registers called⟩

theorem stub_shape (stub : Stub) (other : stub ≠ .fpexcept) :
    (∃ code handler, stub.body = codeStub code handler) ∨ ∃ handler, stub.body = errorCodeStub handler := by
  cases stub with
  | fpexcept => exact absurd rfl other
  | dfault | invalidTSS | segnotpresent | stackseg | gpfault | pagefault | align => exact .inr ⟨_, rfl⟩
  | irq line => exact .inl ⟨_, _, rfl⟩
  | _ => exact .inl ⟨_, _, rfl⟩

theorem installed_stubs_preserve_iff (sys : System) (abi : ObeysAbi sys.handler) (vector : Nat) (stub : Stub) :
    Installed vector stub → ∀ entry,
      PreservesContext sys stub entry ↔ stub ≠ .fpexcept ∨ entry.reg rax = 15 := by
  intro _ entry
  by_cases swapped : stub = .fpexcept
  · subst swapped
    rw [fpexcept_preserves_iff sys abi entry]
    simp
  · refine iff_of_true ?_ (.inl swapped)
    cases stub_shape stub swapped with
    | inl shape =>
        obtain ⟨code, handler, shape⟩ := shape
        exact code_stub_preserves sys abi stub code handler shape entry
    | inr shape =>
        obtain ⟨handler, shape⟩ := shape
        exact error_code_stub_preserves sys abi stub handler shape entry

-- Handlers that return at once, with every symbol and code address 0.
def quietSystem : System := ⟨fun _ m => { m with rsp := m.rsp + 8 }, fun _ => 0, fun _ => 0⟩

theorem quiet_obeys_abi : ObeysAbi quietSystem.handler where
  saved := fun _ _ _ _ => rfl
  returns := fun _ _ => rfl
  above := fun _ _ _ _ => rfl

def quietEntry : Machine := ⟨fun _ => 0, 0x8000, fun address => address, []⟩

theorem page_fault_preserves_iff :
    PreservesContext quietSystem .pagefault quietEntry ↔ Stub.pagefault ≠ .fpexcept ∨ quietEntry.reg rax = 15 :=
  installed_stubs_preserve_iff quietSystem quiet_obeys_abi 14 .pagefault
    (installed_of_last_call 14 .pagefault (by decide)) quietEntry

theorem floating_point_exception_clobbers :
    Installed 16 .fpexcept ∧ ObeysAbi quietSystem.handler ∧ ¬ PreservesContext quietSystem .fpexcept quietEntry := by
  refine ⟨installed_of_last_call 16 .fpexcept (by decide), quiet_obeys_abi, fun preserves => ?_⟩
  have fifteen := (fpexcept_preserves_iff quietSystem quiet_obeys_abi quietEntry).mp preserves
  exact absurd fifteen (by decide)

end Kraftwerk.Isr
