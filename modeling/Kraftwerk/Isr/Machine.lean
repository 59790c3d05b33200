import Mathlib.Algebra.Group.Nat.Defs
import Mathlib.Logic.Function.Basic

set_option autoImplicit false

-- The instructions that os/arch/x86-64/interrupts.s is written in, over 64-bit words.
namespace Kraftwerk.Isr

abbrev Word := BitVec 64

inductive Register where
  | rax | rbx | rcx | rdx | rsi | rdi | rbp | r8 | r9 | r10 | r11 | r12 | r13 | r14 | r15
deriving DecidableEq, Repr

inductive Symbol where
  | doIsrDivZero | doIsrDebug | doIsrNmi | doIsrBreakpoint | doIsrOverflow | doIsrBoundrange | doIsrInvalidop
  | doIsrDevnotavail | doIsrDfault | doIsrInvalidTSS | doIsrSegnotpresent | doIsrStackseg | doIsrGpfault | doIsrPagefault
  | doIsrFpexcept | doIsrAlign | doIsrMachine | doIsrSimdFp | doIsrVirt | doIsrSecurity | doIsrReserved | doIsrTest | doIrq
deriving DecidableEq, Repr

inductive Instr where
  | push (source : Register)
  | pushq (constant : Word)
  | movq (constant : Word) (into : Register)
  | movabs (symbol : Symbol) (into : Register)
  | load (offset : Word) (into : Register)
  | addRsp (amount : Word)
  | pop (into : Register)
  | callCppFunc
  | callRax
  | retq
  | iretq
deriving DecidableEq, Repr

structure HandlerCall where
  target : Word
  rdi : Word
  rsi : Word
  rdx : Word
deriving DecidableEq, Repr

structure Machine where
  reg : Register → Word
  rsp : Word
  mem : Word → Word
  calls : List HandlerCall

-- What the stubs do not fix: the C functions, from the state at their first
-- instruction to the state behind their ret, and where the linker puts things.
structure System where
  handler : Word → Machine → Machine
  symbol : Symbol → Word
  codeAddress : List Instr → Word

inductive Exit where
  | retq (target : Word)
  | iretq
deriving DecidableEq

def pushWord (word : Word) (m : Machine) : Machine :=
  { m with rsp := m.rsp - 8, mem := Function.update m.mem (m.rsp - 8) word }

def setReg (register : Register) (word : Word) (m : Machine) : Machine := { m with reg := Function.update m.reg register word }

def addRsp (amount : Word) (m : Machine) : Machine := { m with rsp := m.rsp + amount }

def popReg (register : Register) (m : Machine) : Machine := addRsp 8 (setReg register (m.mem m.rsp) m)

def callHandler (sys : System) (rest : List Instr) (m : Machine) : Machine :=
  { sys.handler (m.reg .rax) (pushWord (sys.codeAddress rest) m) with
    calls := ⟨m.reg .rax, m.reg .rdi, m.reg .rsi, m.reg .rdx⟩ :: m.calls }

-- Up to the retq or iretq that leaves the code. What callCppFunc calls has to return behind the call.
def exec (sys : System) (cppFunc : Machine → Option (Exit × Machine)) : List Instr → Machine → Option (Exit × Machine)
  | [], _ => none
  | .push source :: rest, m => exec sys cppFunc rest (pushWord (m.reg source) m)
  | .pushq constant :: rest, m => exec sys cppFunc rest (pushWord constant m)
  | .movq constant into :: rest, m => exec sys cppFunc rest (setReg into constant m)
  | .movabs symbol into :: rest, m => exec sys cppFunc rest (setReg into (sys.symbol symbol) m)
  | .load offset into :: rest, m => exec sys cppFunc rest (setReg into (m.mem (m.rsp + offset)) m)
  | .addRsp amount :: rest, m => exec sys cppFunc rest (addRsp amount m)
  | .pop into :: rest, m => exec sys cppFunc rest (popReg into m)
  | .callCppFunc :: rest, m =>
      match cppFunc (pushWord (sys.codeAddress rest) m) with
      | some (.retq target, back) => if target = sys.codeAddress rest then exec sys cppFunc rest back else none
      | _ => none
  | .callRax :: rest, m => exec sys cppFunc rest (callHandler sys rest m)
  | .retq :: _, m => some (.retq (m.mem m.rsp), addRsp 8 m)
  | .iretq :: _, m => some (.iretq, m)

end Kraftwerk.Isr
