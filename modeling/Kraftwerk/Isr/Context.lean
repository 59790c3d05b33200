import Kraftwerk.Isr.Stubs
import Kraftwerk.Lib.DownStack

set_option autoImplicit false

namespace Kraftwerk.Isr

open DownStack Instr Register

def pushAll (registers : List Register) (m : Machine) : Machine := registers.foldl (fun m register => pushWord (m.reg register) m) m

def popAll (registers : List Register) (m : Machine) : Machine := registers.foldl (fun m register => popReg register m) m

-- The machine's stack as a list of words below a fixed address.
structure StackIs (m : Machine) (top : Word) (words : List Word) : Prop where
  rsp : m.rsp = slot top words.length
  holds : Holds m.mem top words

theorem stack_push (m : Machine) (top word : Word) (words : List Word) (small : words.length + 1 < 2 ^ 61)
    (stack : StackIs m top words) : StackIs (pushWord word m) top (word :: words) := by
  have below : m.rsp - 8 = slot top (words.length + 1) := by rw [stack.rsp, slot_push]
  refine ⟨below, ?_⟩
  simp only [pushWord, below]
  exact holds_push m.mem top word words small stack.holds

theorem stack_drop (m : Machine) (top word : Word) (words : List Word) (stack : StackIs m top (word :: words)) :
    StackIs (addRsp 8 m) top words :=
  ⟨by rw [addRsp, stack.rsp, List.length_cons, slot_pop], stack.holds.2⟩

theorem stack_set_reg (m : Machine) (top word : Word) (words : List Word) (register : Register) (stack : StackIs m top words) :
    StackIs (setReg register word m) top words := ⟨stack.rsp, stack.holds⟩

theorem stack_top (m : Machine) (top word : Word) (words : List Word) (stack : StackIs m top (word :: words)) :
    m.mem m.rsp = word := by
  rw [stack.rsp]
  exact stack.holds.1

theorem stack_load (m : Machine) (top word : Word) (words : List Word) (index : Nat) (stack : StackIs m top words)
    (found : words[index]? = some word) : m.mem (m.rsp + BitVec.ofNat 64 (8 * index)) = word := by
  have inside := (List.getElem?_eq_some_iff.mp found).1
  rw [stack.rsp, slot_load top words.length index (Nat.le_of_lt inside)]
  exact holds_get m.mem top word words index stack.holds found

theorem exec_push_all (sys : System) (cppFunc : Machine → Option (Exit × Machine)) (registers : List Register)
    (rest : List Instr) (m : Machine) :
    exec sys cppFunc (registers.map push ++ rest) m = exec sys cppFunc rest (pushAll registers m) := by
  induction registers generalizing m with
  | nil => rfl
  | cons register others ih => exact ih (pushWord (m.reg register) m)

theorem exec_pop_all (sys : System) (cppFunc : Machine → Option (Exit × Machine)) (registers : List Register)
    (rest : List Instr) (m : Machine) :
    exec sys cppFunc (registers.map pop ++ rest) m = exec sys cppFunc rest (popAll registers m) := by
  induction registers generalizing m with
  | nil => rfl
  | cons register others ih => exact ih (popReg register m)

theorem push_all_reg (registers : List Register) (m : Machine) : (pushAll registers m).reg = m.reg := by
  induction registers generalizing m with
  | nil => rfl
  | cons register others ih => exact ih (pushWord (m.reg register) m)

theorem push_all_calls (registers : List Register) (m : Machine) : (pushAll registers m).calls = m.calls := by
  induction registers generalizing m with
  | nil => rfl
  | cons register others ih => exact ih (pushWord (m.reg register) m)

theorem push_all_stack (registers : List Register) (m : Machine) (top : Word) (words : List Word)
    (small : words.length + registers.length < 2 ^ 61) (stack : StackIs m top words) :
    StackIs (pushAll registers m) top ((registers.map m.reg).reverse ++ words) := by
  induction registers generalizing m words with
  | nil => exact stack
  | cons register others ih =>
      rw [List.length_cons] at small
      have pushed := stack_push m top (m.reg register) words (by omega) stack
      have later := ih (pushWord (m.reg register) m) (m.reg register :: words) (by rw [List.length_cons]; omega) pushed
      rw [List.map_cons, List.reverse_cons, List.append_assoc]
      exact later

theorem pop_all_calls (registers : List Register) (m : Machine) : (popAll registers m).calls = m.calls := by
  induction registers generalizing m with
  | nil => rfl
  | cons register others ih => exact ih (popReg register m)

-- Popping the words that hold the registers' values brings these values back.
theorem pop_all_restores (registers : List Register) (value : Register → Word) (m : Machine) (top : Word) (words : List Word)
    (stack : StackIs m top (registers.map value ++ words)) :
    StackIs (popAll registers m) top words ∧
      ∀ register, (popAll registers m).reg register = if register ∈ registers then value register else m.reg register := by
  induction registers generalizing m with
  | nil => exact ⟨stack, fun register => by simp [popAll]⟩
  | cons first others ih =>
      rw [List.map_cons, List.cons_append] at stack
      have popped : StackIs (popReg first m) top (others.map value ++ words) :=
        stack_drop _ top (value first) _ (stack_set_reg m top _ _ first stack)
      obtain ⟨later, restored⟩ := ih (popReg first m) popped
      refine ⟨later, fun register => ?_⟩
      have step : (popAll (first :: others) m).reg register = (popAll others (popReg first m)).reg register := rfl
      rw [step, restored register]
      have head : (popReg first m).reg register = if register = first then value first else m.reg register := by
        simp only [popReg, Isr.addRsp, setReg, stack_top m top _ _ stack, Function.update_apply]
      rw [head]
      by_cases same : register = first
      · subst same
        simp
      · simp [same]

def calleeSaved : List Register := [rbx, rbp, r12, r13, r14, r15]

-- The SysV ABI for a handler that returns: it pops its return address and leaves
-- alone the callee-saved registers and the stack above, here the 22 words up to RFLAGS.
structure ObeysAbi (handler : Word → Machine → Machine) : Prop where
  saved : ∀ target entry, ∀ register ∈ calleeSaved, (handler target entry).reg register = entry.reg register
  returns : ∀ target entry, (handler target entry).rsp = entry.rsp + 8
  above : ∀ target entry index, index < 22 →
    (handler target entry).mem (entry.rsp + 8 + BitVec.ofNat 64 (8 * index)) =
      entry.mem (entry.rsp + 8 + BitVec.ofNat 64 (8 * index))

-- The general registers in the order in which _isr_call_cpp_func pushes them.
def savedRegisters : List Register := [r8, r9, r10, r11, r12, r13, r14, r15, rcx, rdx, rbx, rbp, rsi, rdi]

def magic : Word := 0x0DEADC0DED15EA5E

theorem isr_call_cpp_func_parts : isrCallCppFunc =
    movq magic rax :: push rax :: (savedRegisters.map push ++
      (load 128 rax :: load 144 rdi :: load 152 rsi :: load 160 rdx :: callRax ::
        (savedRegisters.reverse.map pop ++ [Instr.addRsp 8, retq]))) := rfl

theorem call_handler_stack (sys : System) (abi : ObeysAbi sys.handler) (rest : List Instr) (m : Machine) (top : Word)
    (words : List Word) (few : words.length ≤ 22) (stack : StackIs m top words) :
    StackIs (callHandler sys rest m) top words := by
  have called := stack_push m top (sys.codeAddress rest) words (by omega) stack
  have behind : (pushWord (sys.codeAddress rest) m).rsp + 8 = slot top words.length := by
    rw [called.rsp, List.length_cons, slot_pop]
  refine ⟨(abi.returns _ _).trans behind, ?_⟩
  refine holds_congr _ _ top words called.holds.2 (fun depth positive le => ?_)
  have kept := abi.above (m.reg rax) (pushWord (sys.codeAddress rest) m) (words.length - depth) (by omega)
  rw [behind, slot_load top words.length _ (by omega), Nat.sub_sub_self le] at kept
  exact kept

theorem mem_saved_registers (register : Register) (other : register ≠ rax) : register ∈ savedRegisters := by
  cases register with
  | rax => exact absurd rfl other
  | _ => decide

def savedFrame (reg : Register → Word) : List Word := savedRegisters.reverse.map reg ++ [magic]

def afterLoads (handler code rip cs : Word) (m : Machine) : Machine :=
  setReg rdx cs (setReg rsi rip (setReg rdi code (setReg rax handler m)))

def restoreCode : List Instr := savedRegisters.reverse.map pop ++ [Instr.addRsp 8, retq]

theorem exec_saves (sys : System) (cppFunc : Machine → Option (Exit × Machine)) (m : Machine) (top : Word) (words : List Word)
    (few : words.length ≤ 7) (stack : StackIs m top words) :
    ∃ saved, exec sys cppFunc isrCallCppFunc m =
        exec sys cppFunc (load 128 rax :: load 144 rdi :: load 152 rsi :: load 160 rdx :: callRax :: restoreCode) saved ∧
      StackIs saved top (savedFrame m.reg ++ words) ∧ (∀ register, register ≠ rax → saved.reg register = m.reg register) ∧
      saved.calls = m.calls := by
  have markedStack := stack_push (setReg rax magic m) top magic words (by omega) (stack_set_reg m top magic words rax stack)
  have savedStack := push_all_stack savedRegisters _ top (magic :: words)
    (by rw [List.length_cons]; have : savedRegisters.length = 14 := rfl; omega) markedStack
  refine ⟨pushAll savedRegisters (pushWord magic (setReg rax magic m)), ?_, ?_, fun register other => ?_, ?_⟩
  · rw [isr_call_cpp_func_parts, exec, exec, exec_push_all]
    rfl
  · have values : (savedRegisters.map (setReg rax magic m).reg).reverse = savedRegisters.reverse.map m.reg := by
      rw [← List.map_reverse]
      refine List.map_congr_left (fun register member => Function.update_of_ne (fun isRax => ?_) _ _)
      rw [isRax] at member
      exact absurd member (by decide)
    rw [savedFrame, List.append_assoc, ← values]
    exact savedStack
  · rw [push_all_reg]
    exact Function.update_of_ne other _ _
  · exact push_all_calls savedRegisters _

theorem exec_loads (sys : System) (cppFunc : Machine → Option (Exit × Machine)) (m : Machine)
    (top ret handler kept code rip cs : Word) (reg : Register → Word) (above : List Word)
    (stack : StackIs m top (savedFrame reg ++ ret :: handler :: kept :: code :: rip :: cs :: above)) :
    exec sys cppFunc (load 128 rax :: load 144 rdi :: load 152 rsi :: load 160 rdx :: callRax :: restoreCode) m =
      exec sys cppFunc restoreCode (callHandler sys restoreCode (afterLoads handler code rip cs m)) := by
  have handlerAt : m.mem (m.rsp + 128) = handler := stack_load m top handler _ 16 stack rfl
  have codeAt : m.mem (m.rsp + 144) = code := stack_load m top code _ 18 stack rfl
  have ripAt : m.mem (m.rsp + 152) = rip := stack_load m top rip _ 19 stack rfl
  have csAt : m.mem (m.rsp + 160) = cs := stack_load m top cs _ 20 stack rfl
  simp only [exec, setReg, handlerAt, codeAt, ripAt, csAt, afterLoads]

theorem exec_restores (sys : System) (cppFunc : Machine → Option (Exit × Machine)) (m : Machine) (top ret : Word)
    (reg : Register → Word) (words : List Word) (stack : StackIs m top (savedFrame reg ++ ret :: words)) :
    ∃ back, exec sys cppFunc restoreCode m = some (.retq ret, back) ∧ StackIs back top words ∧
      (∀ register, register ≠ rax → back.reg register = reg register) ∧ back.calls = m.calls := by
  rw [savedFrame, List.append_assoc] at stack
  obtain ⟨poppedStack, restored⟩ := pop_all_restores savedRegisters.reverse reg m top _ stack
  have returnStack := stack_drop _ top magic _ poppedStack
  refine ⟨addRsp 8 (addRsp 8 (popAll savedRegisters.reverse m)), ?_, stack_drop _ top ret words returnStack, ?_, ?_⟩
  · rw [restoreCode, exec_pop_all]
    simp only [exec, stack_top _ top ret words returnStack]
  · intro register other
    refine (restored register).trans (if_pos ?_)
    exact List.mem_reverse.mpr (mem_saved_registers register other)
  · exact pop_all_calls savedRegisters.reverse m

theorem isr_call_cpp_func_returns (sys : System) (abi : ObeysAbi sys.handler)
    (cppFunc : Machine → Option (Exit × Machine)) (m : Machine) (top ret handler kept code rip cs rflags : Word)
    (stack : StackIs m top [ret, handler, kept, code, rip, cs, rflags]) :
    ∃ back, exec sys cppFunc isrCallCppFunc m = some (.retq ret, back) ∧
      StackIs back top [handler, kept, code, rip, cs, rflags] ∧
      (∀ register, register ≠ rax → back.reg register = m.reg register) ∧
      back.calls = ⟨handler, code, rip, cs⟩ :: m.calls := by
  obtain ⟨saved, saves, savedStack, savedReg, savedCalls⟩ := exec_saves sys cppFunc m top _ (by simp) stack
  have loads := exec_loads sys cppFunc saved top ret handler kept code rip cs m.reg [rflags] savedStack
  have calledStack := call_handler_stack sys abi restoreCode (afterLoads handler code rip cs saved) top _
    (by simp [savedFrame, savedRegisters]) ⟨savedStack.rsp, savedStack.holds⟩
  obtain ⟨back, restores, backStack, backReg, backCalls⟩ := exec_restores sys cppFunc _ top ret m.reg _ calledStack
  refine ⟨back, by rw [saves, loads, restores], backStack, backReg, ?_⟩
  rw [backCalls]
  exact congrArg _ savedCalls

end Kraftwerk.Isr
