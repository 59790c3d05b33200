import Kraftwerk.Print.Kprintf

set_option autoImplicit false

-- panic of os/core/printf.cpp. No panic returns, so one that begins while another is running leaves that one
-- where it is.
namespace Kraftwerk.Print

open CString Runs Vga

structure PanicCall where
  str : Nat
  print : PrintCall

inductive PanicText where
  | literal (data : Str)
  | stored (address : Nat)

-- Between its first two writes to panic_str, before some of its calls of terminal_writestring, or halted behind them.
inductive Running where
  | calm
  | formatting (call : PanicCall)
  | writing (left : List PanicText)

structure PanicState where
  terminal : Terminal
  memory : Nat → Byte
  panicStr : Nat
  doublePanic : Bool
  running : Running
  begun : List PanicCall

def PanicText.write (fuel : Nat) (state : PanicState) : PanicText → Option Terminal
  | .literal data => terminalWritestring fuel data state.terminal
  | .stored address => writestringAt state.memory address fuel 0 state.terminal

-- Each text that is left is this string.
def PanicText.Spells (memory : Nat → Byte) (str : Str) : PanicText → Prop
  | .literal data => str = data
  | .stored address => str.HeldBy (fun index => memory (address + index))

section Panics

variable (usable : Nat → Nat) (fuel : Nat) (page : Page) (state : PanicState)

end Panics

end Kraftwerk.Print
