import Kraftwerk.Isr.Machine
import Mathlib.Data.List.Induction

set_option autoImplicit false

namespace Kraftwerk.Isr

open Instr Register

def isrCallCppFunc : List Instr :=
  [movq 0x0DEADC0DED15EA5E rax, push rax,
    push r8, push r9, push r10, push r11, push r12, push r13, push r14, push r15,
    push rcx, push rdx, push rbx, push rbp, push rsi, push rdi,
    load 128 rax, load 144 rdi, load 152 rsi, load 160 rdx, callRax,
    pop rdi, pop rsi, pop rbp, pop rbx, pop rdx, pop rcx,
    pop r15, pop r14, pop r13, pop r12, pop r11, pop r10, pop r9, pop r8,
    Instr.addRsp 8, retq]

def callAndReturn (handler : Symbol) : List Instr :=
  [movabs handler rax, push rax, callCppFunc, Instr.addRsp 8, pop rax, Instr.addRsp 8, iretq]

def codeStub (code : Word) (handler : Symbol) : List Instr := pushq code :: push rax :: callAndReturn handler

-- The processor has pushed an error code.
def errorCodeStub (handler : Symbol) : List Instr := push rax :: callAndReturn handler

def isrDivZero : List Instr := codeStub 0 .doIsrDivZero
def isrDebug : List Instr := codeStub 1 .doIsrDebug
def isrNmi : List Instr := codeStub 2 .doIsrNmi
def isrBreakpoint : List Instr := codeStub 3 .doIsrBreakpoint
def isrOverflow : List Instr := codeStub 4 .doIsrOverflow
def isrBoundrange : List Instr := codeStub 5 .doIsrBoundrange
def isrInvalidop : List Instr := codeStub 6 .doIsrInvalidop
def isrDevnotavail : List Instr := codeStub 7 .doIsrDevnotavail
def isrDfault : List Instr := errorCodeStub .doIsrDfault
def isrInvalidTSS : List Instr := errorCodeStub .doIsrInvalidTSS
def isrSegnotpresent : List Instr := errorCodeStub .doIsrSegnotpresent
def isrStackseg : List Instr := errorCodeStub .doIsrStackseg
def isrGpfault : List Instr := errorCodeStub .doIsrGpfault
def isrPagefault : List Instr := errorCodeStub .doIsrPagefault
-- The two pushes are the other way round here.
def isrFpexcept : List Instr := push rax :: pushq 15 :: callAndReturn .doIsrFpexcept
def isrAlign : List Instr := errorCodeStub .doIsrAlign
def isrMachine : List Instr := codeStub 17 .doIsrMachine
def isrSimdFp : List Instr := codeStub 18 .doIsrSimdFp
def isrVirt : List Instr := codeStub 19 .doIsrVirt
def isrSecurity : List Instr := codeStub 20 .doIsrSecurity
def isrReserved : List Instr := codeStub 0xFF .doIsrReserved
def isrTest : List Instr := codeStub 0x8D .doIsrTest
-- _isr_irq_0 to _isr_irq_15.
def isrIrq (line : Fin 16) : List Instr := codeStub (BitVec.ofNat 64 line.val) .doIrq

inductive Stub where
  | divZero | debug | nmi | breakpoint | overflow | boundrange | invalidop | devnotavail | dfault | invalidTSS | segnotpresent
  | stackseg | gpfault | pagefault | fpexcept | align | machine | simdFp | virt | security | reserved | test
  | irq (line : Fin 16)
deriving DecidableEq, Repr

def Stub.body : Stub → List Instr
  | divZero => isrDivZero
  | debug => isrDebug
  | nmi => isrNmi
  | breakpoint => isrBreakpoint
  | overflow => isrOverflow
  | boundrange => isrBoundrange
  | invalidop => isrInvalidop
  | devnotavail => isrDevnotavail
  | dfault => isrDfault
  | invalidTSS => isrInvalidTSS
  | segnotpresent => isrSegnotpresent
  | stackseg => isrStackseg
  | gpfault => isrGpfault
  | pagefault => isrPagefault
  | fpexcept => isrFpexcept
  | align => isrAlign
  | machine => isrMachine
  | simdFp => isrSimdFp
  | virt => isrVirt
  | security => isrSecurity
  | reserved => isrReserved
  | test => isrTest
  | irq line => isrIrq line

-- The constant in a stub's pushq; a stub without one relies on the processor's error code.
def pushedConstant : List Instr → Option Word
  | [] => none
  | pushq constant :: _ => some constant
  | _ :: rest => pushedConstant rest

-- The address in a stub's movabs.
def calledSymbol : List Instr → Option Symbol
  | [] => none
  | movabs handler _ :: _ => some handler
  | _ :: rest => calledSymbol rest

structure IdtEntry where
  offsetLow : BitVec 16
  codeSelector : BitVec 16
  zero : BitVec 8
  type : BitVec 8
  offsetMiddle : BitVec 16
  offsetHigh : BitVec 32
  zero2 : BitVec 32
deriving DecidableEq, Repr

abbrev Idt := Nat → IdtEntry

def newEntry (handlerFunc : Word) : IdtEntry where
  offsetLow := (handlerFunc &&& 0xFFFF).setWidth 16
  codeSelector := 0x08
  zero := 0
  type := 0x8F
  offsetMiddle := ((handlerFunc >>> 16) &&& 0xFFFF).setWidth 16
  offsetHigh := ((handlerFunc >>> 32) &&& 0xFFFFFFFF).setWidth 32
  zero2 := 0

def addInterruptEntry (idt : Idt) (intNo : Nat) (handlerFunc : Word) : Idt :=
  if 255 < intNo then idt else Function.update idt intNo (newEntry handlerFunc)

def exceptionCalls : List (Nat × Stub) :=
  [(0, .divZero), (1, .debug), (2, .nmi), (3, .breakpoint), (4, .overflow), (5, .boundrange), (6, .invalidop),
    (7, .devnotavail), (8, .dfault), (10, .invalidTSS), (11, .segnotpresent), (12, .stackseg), (13, .gpfault),
    (14, .pagefault), (15, .reserved), (16, .fpexcept), (17, .align), (18, .machine), (19, .simdFp), (20, .virt)]

def reservedCalls : List (Nat × Stub) := (List.range' 21 11).map (fun i => (i, .reserved))

def irqCalls : List (Nat × Stub) := (List.finRange 16).map (fun line => (32 + line.val, .irq line))

-- The calls of add_interrupt_entry in initialize_idt, in their order.
def initializeIdtCalls : List (Nat × Stub) := exceptionCalls ++ reservedCalls ++ (30, .security) :: irqCalls ++ [(255, .test)]

def initializeIdt (address : Stub → Word) (idt : Idt) : Idt :=
  initializeIdtCalls.foldl (fun idt call => addInterruptEntry idt call.1 (address call.2)) idt

def gateOffset (entry : IdtEntry) : Word :=
  entry.offsetHigh.setWidth 64 <<< 32 ||| entry.offsetMiddle.setWidth 64 <<< 16 ||| entry.offsetLow.setWidth 64

def Installed (vector : Nat) (stub : Stub) : Prop :=
  ∀ (address : Stub → Word) (idt : Idt), gateOffset (initializeIdt address idt vector) = address stub

theorem masked_field (word : Word) (low width : Nat) (mask : Word) (maskEq : mask.toNat = 2 ^ width - 1) :
    (((word >>> low) &&& mask).setWidth width).toNat = word.toNat / 2 ^ low % 2 ^ width := by
  rw [BitVec.toNat_setWidth, BitVec.toNat_and, maskEq, Nat.and_two_pow_sub_one_eq_mod, BitVec.toNat_ushiftRight,
    Nat.shiftRight_eq_div_pow, Nat.mod_mod]

theorem gate_offset_to_nat (entry : IdtEntry) : (gateOffset entry).toNat =
    2 ^ 32 * entry.offsetHigh.toNat + (2 ^ 16 * entry.offsetMiddle.toNat + entry.offsetLow.toNat) := by
  have low := entry.offsetLow.isLt
  have middle := entry.offsetMiddle.isLt
  have high := entry.offsetHigh.isLt
  simp only [gateOffset, BitVec.toNat_or, BitVec.toNat_shiftLeft, BitVec.toNat_setWidth, Nat.shiftLeft_eq]
  rw [Nat.or_assoc, Nat.two_pow_add_eq_or_of_lt (by omega), Nat.two_pow_add_eq_or_of_lt low]
  simp (disch := omega) only [Nat.mod_eq_of_lt, Nat.mul_comm]

theorem gate_offset_new_entry (handlerFunc : Word) : gateOffset (newEntry handlerFunc) = handlerFunc := by
  have low : (newEntry handlerFunc).offsetLow.toNat = handlerFunc.toNat / 2 ^ 0 % 2 ^ 16 :=
    masked_field handlerFunc 0 16 0xFFFF (by decide)
  have middle : (newEntry handlerFunc).offsetMiddle.toNat = handlerFunc.toNat / 2 ^ 16 % 2 ^ 16 :=
    masked_field handlerFunc 16 16 0xFFFF (by decide)
  have high : (newEntry handlerFunc).offsetHigh.toNat = handlerFunc.toNat / 2 ^ 32 % 2 ^ 32 :=
    masked_field handlerFunc 32 32 0xFFFFFFFF (by decide)
  apply BitVec.eq_of_toNat_eq
  rw [gate_offset_to_nat, low, middle, high]
  omega

-- The last call for a vector decides its entry.
theorem fold_entries (address : Stub → Word) (idt : Idt) (calls : List (Nat × Stub)) (vector : Nat)
    (small : ∀ call ∈ calls, call.1 ≤ 255) :
    calls.foldl (fun idt call => addInterruptEntry idt call.1 (address call.2)) idt vector =
      match calls.reverse.find? (fun call => call.1 == vector) with
      | some call => newEntry (address call.2)
      | none => idt vector := by
  induction calls using List.reverseRecOn with
  | nil => rfl
  | append_singleton before last ih =>
      have inRange : ¬ 255 < last.1 := Nat.not_lt.mpr (small last (by simp))
      rw [List.foldl_append, List.reverse_append]
      simp only [List.foldl_cons, List.foldl_nil, addInterruptEntry, if_neg inRange, List.reverse_cons, List.reverse_nil,
        List.nil_append, List.singleton_append, List.find?_cons]
      by_cases same : last.1 = vector
      · subst same
        simp
      · have other : (last.1 == vector) = false := by simp [same]
        rw [Function.update_of_ne (fun eq => same eq.symm), other]
        exact ih (fun call member => small call (by simp [member]))

theorem initialize_idt_calls_small : ∀ call ∈ initializeIdtCalls, call.1 ≤ 255 := by decide

theorem installed_of_last_call (vector : Nat) (stub : Stub)
    (last : (initializeIdtCalls.reverse.find? (fun call => call.1 == vector)).map Prod.snd = some stub) :
    Installed vector stub := by
  intro address idt
  obtain ⟨call, found, rfl⟩ := Option.map_eq_some_iff.mp last
  rw [initializeIdt, fold_entries address idt initializeIdtCalls vector initialize_idt_calls_small, found]
  exact gate_offset_new_entry _

end Kraftwerk.Isr
