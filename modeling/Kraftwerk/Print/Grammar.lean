import Kraftwerk.Print.Kvsnprintf

set_option autoImplicit false

-- The directives that kvsnprintf documents, as texts, and how the loop reads them.
namespace Kraftwerk.Print

open CString

inductive Flag where
  | minus | plus | space | numer | zero
deriving DecidableEq

def Flag.char : Flag → Byte
  | .minus => chr '-'
  | .plus => chr '+'
  | .space => chr ' '
  | .numer => chr '#'
  | .zero => chr '0'

-- A width, or a precision behind its point.
inductive Amount where
  | missing
  | digits (first : Fin 10) (rest : List (Fin 10))
  | star
deriving DecidableEq

def digitChar (digit : Fin 10) : Byte := BitVec.ofNat 8 (48 + digit.val)

def Amount.text : Amount → List Byte
  | .missing => []
  | .digits first rest => (first :: rest).map digitChar
  | .star => [chr '*']

def Amount.given : Amount → Bool
  | .missing => false
  | .digits _ _ | .star => true

def Amount.value (word : BitVec 64) : Amount → Nat
  | .missing => 0
  | .digits first rest => (first :: rest).foldl (fun number digit => number * 10 + digit.val) 0
  | .star => (word.setWidth 32).toNat

def Amount.takes (word : BitVec 64) : Amount → List Arg
  | .missing | .digits _ _ => []
  | .star => [.word word]

def lengthText : Length → List Byte
  | .none => []
  | .hh => [chr 'h', chr 'h']
  | .h => [chr 'h']
  | .l => [chr 'l']
  | .ll => [chr 'l', chr 'l']
  | .j => [chr 'j']
  | .z => [chr 'z']
  | .t => [chr 't']
  | .L => [chr 'L']

inductive Conversion where
  | n | d | i | u | o | x | X | c | s | p
deriving DecidableEq

def Conversion.char : Conversion → Byte
  | .n => chr 'n'
  | .d => chr 'd'
  | .i => chr 'i'
  | .u => chr 'u'
  | .o => chr 'o'
  | .x => chr 'x'
  | .X => chr 'X'
  | .c => chr 'c'
  | .s => chr 's'
  | .p => chr 'p'

-- The arguments that fit a conversion.
def Conversion.fits (length : Length) (conversion : Conversion) : Arg → Bool
  | .word _ => conversion != .n && (conversion != .s || length == .l)
  | .str _ => conversion == .s && length != .l
  | .target _ => conversion == .n

def Conversion.directive (format : Format) : Conversion → Arg → Option Directive
  | .n, .target address => some (.count format.length address)
  | .d, .word val | .i, .word val => some (.number format (signedType format.length) 10 val)
  | .u, .word val => some (.number format (unsignedType format.length) 10 val)
  | .o, .word val => some (.number format (unsignedType format.length) 8 val)
  | .x, .word val | .X, .word val => some (.number format (unsignedType format.length) 16 val)
  | .c, .word val => some (if format.length = .l then .dropped else .character val)
  | .s, .word _ => if format.length = .l then some .dropped else none
  | .s, .str ptr => if format.length = .l then none else some (.string format ptr)
  | .p, .word val => some (.pointer format val)
  | _, _ => none

-- %[flags][width][.precision][length]specifier. A zero before the width is a flag.
structure DirectiveText where
  flags : List Flag
  width : Amount
  precision : Option Amount
  length : Length
  conversion : Conversion
  noLeadingZero : ∀ rest, width ≠ .digits 0 rest

def pointText : Option Amount → List Byte
  | none => []
  | some amount => chr '.' :: amount.text

def DirectiveText.chars (text : DirectiveText) : List Byte :=
  text.flags.map Flag.char ++ (text.width.text ++ (pointText text.precision ++ (lengthText text.length ++ [text.conversion.char])))

def Flag.set (format : Format) : Flag → Format
  | .minus => { format with leftJustify := true }
  | .plus => { format with precedeSign := true }
  | .space => { format with insertSpace := true }
  | .numer => { format with insertNumer := true }
  | .zero => { format with zeroPadding := true }

section Readers

end Readers

-- The format that the readers build from a text.
def DirectiveText.format (text : DirectiveText) (width precision : BitVec 64) : Format where
  leftJustify := decide (.minus ∈ text.flags)
  precedeSign := decide (.plus ∈ text.flags)
  insertSpace := decide (.space ∈ text.flags)
  insertNumer := decide (.numer ∈ text.flags)
  zeroPadding := decide (.zero ∈ text.flags)
  width := BitVec.ofNat 32 (text.width.value width)
  widthSpecified := text.width.given
  precision := BitVec.ofNat 32
    (if (text.precision.getD .missing).given then (text.precision.getD .missing).value precision else 6)
  precisionSpecified := (text.precision.getD .missing).given
  length := text.length

theorem length_text_nonzero (length : Length) : ∀ c ∈ lengthText length, c ≠ 0 := by
  cases length <;> decide

end Kraftwerk.Print
