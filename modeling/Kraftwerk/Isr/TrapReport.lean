import Kraftwerk.Isr.Preservation
import Kraftwerk.Vga.Writehex

set_option autoImplicit false

-- halt_err of os/arch/x86-64/isr.cpp and the handlers that end in it, behind the table that initialize_idt
-- fills: what the screen shows of an interrupt.
namespace Kraftwerk.Isr

open CString Instr Register Vga

-- The string that each do_isr function passes to halt_err. The page fault handler has none and returns.
def description : Symbol → Option Str
  | .doIsrDivZero => some (.literal "Division by zero error")
  | .doIsrDebug => some (.literal "Debug interrupt")
  | .doIsrNmi => some (.literal "Non-Maskable interrupt")
  | .doIsrBreakpoint => some (.literal "Breakpoint")
  | .doIsrOverflow => some (.literal "Overflow error")
  | .doIsrBoundrange => some (.literal "BOUND instruction range exceeded")
  | .doIsrInvalidop => some (.literal "Invalid operation error")
  | .doIsrDevnotavail => some (.literal "No FPU error")
  | .doIsrDfault => some (.literal "Double fault")
  | .doIsrInvalidTSS => some (.literal "Invalid TSS error")
  | .doIsrSegnotpresent => some (.literal "Segment PRESENT error")
  | .doIsrStackseg => some (.literal "Stack segment fault")
  | .doIsrGpfault => some (.literal "General protection error")
  | .doIsrPagefault => none
  | .doIsrFpexcept => some (.literal "Floating point exception")
  | .doIsrAlign => some (.literal "Alignment check")
  | .doIsrMachine => some (.literal "Machine check")
  | .doIsrSimdFp => some (.literal "SIMD floating point exception")
  | .doIsrVirt => some (.literal "Virtualization fault")
  | .doIsrSecurity => some (.literal "Security fault")
  | .doIsrReserved => some (.literal "Reserved exception")
  | .doIsrTest => some (.literal "Test interrupt")
  | .doIrq => some (.literal "IRQ")

-- What it has written when it halts.
def haltErr (fuel : Nat) (err rip : Word) (cs : BitVec 16) (desc : Str) (terminal : Terminal) : Option Terminal :=
  (terminalWritestring fuel (.literal "\nKernel mode trap: ") terminal).bind (fun terminal =>
    (terminalWritestring fuel desc terminal).bind (fun terminal =>
      (terminalWritestring fuel (.literal "\nErrcode=0x") terminal).bind (fun terminal =>
        (terminalWritestring fuel (.literal "\nRIP=0x") (@terminalWritehex 8 err terminal)).bind (fun terminal =>
          (terminalWritestring fuel (.literal "\nCS=0x") (@terminalWritehex 8 rip terminal)).map (fun terminal =>
            @terminalWritehex 2 cs terminal)))))

def trapReport (fuel : Nat) (handler : Symbol) (call : HandlerCall) (terminal : Terminal) : Option Terminal :=
  (description handler).bind (fun desc => haltErr fuel call.rdi call.rsi (call.rdx.setWidth 16) desc terminal)

def returnAtOnce (_ : Word) (m : Machine) : Machine := addRsp 8 m

def handlerCall (sys : System) (stub : Stub) (entry : Machine) : Option HandlerCall :=
  (runStub { sys with handler := returnAtOnce } stub entry).bind (fun left => left.2.calls.head?)

def installedStub (vector : Nat) : Option Stub := (initializeIdtCalls.reverse.find? (fun call => call.1 == vector)).map Prod.snd

def reportedCode (stub : Stub) (entry : Machine) : Word := if stub = .fpexcept then entry.reg rax else errorCode stub entry

def trapText (desc : Str) (err rip : Word) (cs : BitVec 16) : List Byte :=
  (Str.literal "\nKernel mode trap: ").chars ++ (desc.chars ++ ((Str.literal "\nErrcode=0x").chars ++ (@hexText 8 err ++
    ((Str.literal "\nRIP=0x").chars ++ (@hexText 8 rip ++ ((Str.literal "\nCS=0x").chars ++ @hexText 2 cs))))))

-- The report has the error code, RIP and CS, and no others would give the same text.
def TrapShown (sys : System) (stub : Stub) (entry : Machine) (fuel : Nat) (terminal : Terminal) (page : Page) : Prop :=
  ∃ handler desc call last text, calledSymbol stub.body = some handler ∧ description handler = some desc ∧
    handlerCall sys stub entry = some call ∧ call.target = sys.symbol handler ∧
    trapReport fuel handler call terminal = some last ∧ Shows last (page.putAll text) ∧
    ∀ err rip cs, text = trapText desc err rip cs ↔
      err = reportedCode stub entry ∧ rip = entry.mem (savedRip stub entry) ∧ cs = (entry.mem (savedRip stub entry + 8)).setWidth 16

theorem return_at_once_abi : ObeysAbi returnAtOnce where
  saved := fun _ _ _ _ => rfl
  returns := fun _ _ => rfl
  above := fun _ _ _ _ => rfl

section Calls

variable (sys : System) (stub : Stub) (entry : Machine)

theorem called_head (abi : ObeysAbi sys.handler) :
    ∃ handler back, calledSymbol stub.body = some handler ∧ runStub sys stub entry = some (.iretq, back) ∧
      back.calls.head? = some ⟨sys.symbol handler, reportedCode stub entry, entry.mem (savedRip stub entry),
        entry.mem (savedRip stub entry + 8)⟩ := by
  have preserved : stub ≠ .fpexcept → PreservesContext sys stub entry := by
    intro other
    obtain ⟨code, handler, shape⟩ | ⟨handler, shape⟩ := stub_shape stub other
    · exact code_stub_preserves sys abi stub code handler shape entry
    · exact error_code_stub_preserves sys abi stub handler shape entry
  by_cases swapped : stub = .fpexcept
  · subst swapped
    obtain ⟨back, runs, _, _, called⟩ := stub_end sys abi .doIsrFpexcept entry (entry.reg rax) 15 entry.rsp (slot_frame entry.rsp).symm
    exact ⟨.doIsrFpexcept, back, rfl, runs, by rw [called]; rfl⟩
  · obtain ⟨back, runs, kept⟩ := preserved swapped
    obtain ⟨handler, symbol, called⟩ := kept.called
    exact ⟨handler, back, symbol, runs, by rw [called, reportedCode, if_neg swapped]; rfl⟩

theorem handler_call_eq : ∃ handler, calledSymbol stub.body = some handler ∧
    handlerCall sys stub entry = some ⟨sys.symbol handler, reportedCode stub entry, entry.mem (savedRip stub entry),
      entry.mem (savedRip stub entry + 8)⟩ := by
  obtain ⟨handler, back, symbol, runs, head⟩ := called_head { sys with handler := returnAtOnce } stub entry return_at_once_abi
  exact ⟨handler, symbol, by rw [handlerCall, runs]; exact head⟩

theorem handler_call_of_returns (abi : ObeysAbi sys.handler) :
    ∃ back, runStub sys stub entry = some (.iretq, back) ∧ back.calls.head? = handlerCall sys stub entry := by
  obtain ⟨handler, back, symbol, runs, head⟩ := called_head sys stub entry abi
  obtain ⟨other, otherSymbol, same⟩ := handler_call_eq sys stub entry
  obtain rfl : handler = other := Option.some.inj (symbol.symm.trans otherSymbol)
  exact ⟨back, runs, head.trans same.symm⟩

end Calls

theorem halt_err_shown (fuel : Nat) (terminal : Terminal) (page : Page) (err rip : Word) (cs : BitVec 16) (desc : Str)
    (shows : Shows terminal page) (enough : 2 ^ 32 ≤ fuel) (short : desc.chars.length < 2 ^ 32) :
    ∃ last, haltErr fuel err rip cs desc terminal = some last ∧ Shows last (page.putAll (trapText desc err rip cs)) := by
  obtain ⟨first, one, page1⟩ := string_shown fuel terminal page (.literal "\nKernel mode trap: ") shows (by decide) enough
  obtain ⟨second, two, page2⟩ := string_shown fuel first _ desc page1 short enough
  obtain ⟨third, three, page3⟩ := string_shown fuel second _ (.literal "\nErrcode=0x") page2 (by decide) enough
  obtain ⟨fourth, four, page4⟩ := string_shown fuel _ _ (.literal "\nRIP=0x") (@writehex_shows 8 err third _ page3) (by decide) enough
  obtain ⟨fifth, five, page5⟩ := string_shown fuel _ _ (.literal "\nCS=0x") (@writehex_shows 8 rip fourth _ page4) (by decide) enough
  refine ⟨@terminalWritehex 2 cs fifth, ?_, ?_⟩
  · rw [haltErr, one, Option.bind_some, two, Option.bind_some, three, Option.bind_some, four, Option.bind_some, five, Option.map_some]
  · simp only [trapText, page_put_all_append]
    exact @writehex_shows 2 cs fifth _ page5

theorem description_short (handler : Symbol) (desc : Str) (described : description handler = some desc) : desc.chars.length < 2 ^ 32 := by
  have all : ∀ handler, ∀ desc ∈ description handler, desc.chars.length ≤ 64 := by
    intro handler
    cases handler <;> decide
  exact Nat.lt_of_le_of_lt (all handler desc described) (by decide)

theorem described_unless_page_fault (stub : Stub) (handler : Symbol) (other : stub ≠ .pagefault)
    (symbol : calledSymbol stub.body = some handler) :
    ∃ desc, description handler = some desc := by
  cases stub with
  | pagefault => exact absurd rfl other
  | _ =>
      obtain rfl := Option.some.inj symbol
      exact ⟨_, rfl⟩

theorem trap_text_injective (desc : Str) (err rip err' rip' : Word) (cs cs' : BitVec 16)
    (same : trapText desc err rip cs = trapText desc err' rip' cs') : err = err' ∧ rip = rip' ∧ cs = cs' := by
  have behindErr := List.append_cancel_left (List.append_cancel_left (List.append_cancel_left same))
  obtain ⟨errSame, behindRip⟩ := @hex_text_injective 8 _ _ _ _ behindErr
  obtain ⟨ripSame, behindCs⟩ := @hex_text_injective 8 _ _ _ _ (List.append_cancel_left behindRip)
  have csSame := List.append_cancel_left behindCs
  rw [← List.append_nil (@hexText 2 cs), ← List.append_nil (@hexText 2 cs')] at csSame
  exact ⟨errSame, ripSame, (@hex_text_injective 2 _ _ _ _ csSame).1⟩

theorem installed_stubs : ∀ vector < 256, vector ≠ 9 ∧ (vector < 48 ∨ vector = 255) → vector ≠ 14 →
    (installedStub vector).any (fun stub => stub ≠ .pagefault) = true := by decide +kernel

-- Every vector below 48 but 9, and 255. Only the page fault is not reported.
theorem traps_shown (sys : System) (vector : Nat) (given : vector ≠ 9 ∧ (vector < 48 ∨ vector = 255)) (other : vector ≠ 14)
    (entry : Machine) (fuel : Nat) (terminal : Terminal) (page : Page) (shows : Shows terminal page) (enough : 2 ^ 32 ≤ fuel) :
    ∃ stub, (∀ (address : Stub → Word) (idt : Idt), initializeIdt address idt vector = newEntry (address stub)) ∧
      TrapShown sys stub entry fuel terminal page := by
  obtain ⟨stub, installed, notFault⟩ := (Option.any_eq_true _ _).mp (installed_stubs vector (by omega) given other)
  refine ⟨stub, fun address idt => ?_, ?_⟩
  · obtain ⟨call, found, rfl⟩ := Option.map_eq_some_iff.mp installed
    rw [initializeIdt, fold_entries address idt initializeIdtCalls vector initialize_idt_calls_small, found]
  · obtain ⟨handler, symbol, call⟩ := handler_call_eq sys stub entry
    obtain ⟨desc, described⟩ := described_unless_page_fault stub handler (of_decide_eq_true notFault) symbol
    have short := description_short handler desc described
    obtain ⟨last, written, lastPage⟩ := halt_err_shown fuel terminal page (reportedCode stub entry)
      (entry.mem (savedRip stub entry)) ((entry.mem (savedRip stub entry + 8)).setWidth 16) desc shows enough short
    refine ⟨handler, desc, _, last, _, symbol, described, call, rfl, ?_, lastPage, fun err rip cs => ⟨fun same => ?_, ?_⟩⟩
    · rw [trapReport, described, Option.bind_some]
      exact written
    · exact trap_text_injective desc err rip _ _ cs _ same.symm
    · rintro ⟨rfl, rfl, rfl⟩
      rfl

theorem divide_error_shown : ∃ stub,
    (∀ (address : Stub → Word) (idt : Idt), initializeIdt address idt 0 = newEntry (address stub)) ∧
      TrapShown quietSystem stub ⟨fun _ => 0, 0x8000, fun address => if address = 0x8000 then 0x400 else 0x10, []⟩ (2 ^ 32)
        (terminalInitialize ⟨5, 7, 0, fun _ => 0⟩) emptyPage :=
  traps_shown quietSystem 0 (by decide) (by decide) _ (2 ^ 32) _ emptyPage (initialize_shows _) (Nat.le_refl _)

end Kraftwerk.Isr
