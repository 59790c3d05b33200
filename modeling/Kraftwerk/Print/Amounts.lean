import Kraftwerk.Print.NumberText

set_option autoImplicit false

-- What a directive makes of its width and its precision, and when it reads and obeys them.
namespace Kraftwerk.Print

open CString

section Width

variable (usable : Nat → Nat) (old : List Byte) (format : Format)

end Width

section Precision

variable (format : Format)

end Precision

section Obeyed

variable (text : DirectiveText) (format : Format) (conv : Arg) (directive : Directive)

end Obeyed

-- "%5c" and "%.9p" print one character.
example : kvsnprintf (fun request => max request 16) (fun _ => []) 4096 0 ⟨"%5c%.9p".toList.map chr, by decide⟩ [.word 65, .word 0] =
    some ⟨2, place 4096 [chr 'A', chr '0', 0], []⟩ := by decide

end Kraftwerk.Print
