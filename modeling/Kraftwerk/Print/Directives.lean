import Kraftwerk.Print.Itoa

set_option autoImplicit false

-- How kvsnprintf of os/core/printf.cpp reads its format. The text at pos is the list of
-- characters left, whose end is the NUL; a reader is none when va_arg finds no argument
-- of its type or pos passes the NUL.
namespace Kraftwerk.Print

open CString

inductive Arg where
  | word (value : BitVec 64)
  | str (value : Str)
  | target (address : Nat)
deriving DecidableEq

inductive Length where
  | none | hh | h | l | ll | j | z | t | L
deriving DecidableEq, Repr

structure Format where
  leftJustify : Bool := false
  precedeSign : Bool := false
  insertSpace : Bool := false
  insertNumer : Bool := false
  zeroPadding : Bool := false
  width : BitVec 32 := 0
  widthSpecified : Bool := false
  precision : BitVec 32 := 0
  precisionSpecified : Bool := false
  length : Length := .none
deriving DecidableEq

inductive Directive where
  | plain (cur : Byte)
  | percent
  | count (length : Length) (target : Nat)
  | number (format : Format) (type : IntType) (base : Nat) (val : BitVec 64)
  | pointer (format : Format) (val : BitVec 64)
  | character (val : BitVec 64)
  | string (format : Format) (ptr : Str)
  | dropped
deriving DecidableEq

structure Input where
  pos : List Byte
  args : List Arg

def takeWord : List Arg → Option (BitVec 64 × List Arg)
  | .word value :: args => some (value, args)
  | _ => none

def takeStr : List Arg → Option (Str × List Arg)
  | .str value :: args => some (value, args)
  | _ => none

def takeTarget : List Arg → Option (Nat × List Arg)
  | .target address :: args => some (address, args)
  | _ => none

def isDigit (digit : Byte) : Bool := chr '0' ≤ digit && digit ≤ chr '9'

def digitToInt (digit : Byte) : BitVec 32 := if isDigit digit then (digit - chr '0').setWidth 32 else 0

def readFlags : Format → List Byte → Format × List Byte
  | format, [] => (format, [])
  | format, cur :: rest =>
      if cur = chr '-' then readFlags { format with leftJustify := true } rest
      else if cur = chr '+' then readFlags { format with precedeSign := true } rest
      else if cur = chr ' ' then readFlags { format with insertSpace := true } rest
      else if cur = chr '#' then readFlags { format with insertNumer := true } rest
      else if cur = chr '0' then readFlags { format with zeroPadding := true } rest
      else (format, cur :: rest)

def readWidth : Format → List Byte → List Arg → Option (Format × Input)
  | format, [], args => some (format, ⟨[], args⟩)
  | format, cur :: rest, args =>
      if isDigit cur then
        readWidth { format with width := format.width * 10 + digitToInt cur, widthSpecified := true } rest args
      else if cur = chr '*' then
        (takeWord args).map (fun (value, args) =>
          ({ format with width := value.setWidth 32, widthSpecified := true }, ⟨rest, args⟩))
      else some (format, ⟨cur :: rest, args⟩)

-- After '*' the code goes on at read_length without moving pos past the star.
def readPrecisionDigits : Format → List Byte → List Arg → Option (Format × Input)
  | format, [], args => some (format, ⟨[], args⟩)
  | format, cur :: rest, args =>
      if isDigit cur then
        readPrecisionDigits
          { format with precision := format.precision * 10 + digitToInt cur, precisionSpecified := true } rest args
      else if cur = chr '*' then
        (takeWord args).map (fun (value, args) =>
          ({ format with precision := value.setWidth 32, precisionSpecified := true }, ⟨cur :: rest, args⟩))
      else some (format, ⟨cur :: rest, args⟩)

def defaultPrecision (format : Format) : Format :=
  if format.precisionSpecified then format else { format with precision := 6 }

def readPrecision (format : Format) (input : Input) : Option (Format × Input) :=
  match input.pos with
  | [] => some (defaultPrecision format, input)
  | cur :: rest =>
      if cur = chr '.' then
        (readPrecisionDigits format rest input.args).map (fun (format, input) => (defaultPrecision format, input))
      else some (defaultPrecision format, input)

def doubled (letter : Byte) (single double : Length) : List Byte → Length × List Byte
  | [] => (single, [])
  | cur :: rest => if cur = letter then (double, rest) else (single, cur :: rest)

def readLength : List Byte → Length × List Byte
  | [] => (.none, [])
  | cur :: rest =>
      if cur = chr 'h' then doubled (chr 'h') .h .hh rest
      else if cur = chr 'l' then doubled (chr 'l') .l .ll rest
      else if cur = chr 'j' then (.j, rest)
      else if cur = chr 'z' then (.z, rest)
      else if cur = chr 't' then (.t, rest)
      else if cur = chr 'L' then (.L, rest)
      else (.none, cur :: rest)

def signedType : Length → IntType
  | .hh => ⟨8, true⟩
  | .h => ⟨16, true⟩
  | .l | .ll | .j | .t => ⟨64, true⟩
  | .z => ⟨64, false⟩
  | .none | .L => ⟨32, true⟩

-- The types of the u, o, x and X conversions; t reads a ptrdiff_t here too.
def unsignedType : Length → IntType
  | .hh => ⟨8, false⟩
  | .h => ⟨16, false⟩
  | .l | .ll | .j | .z => ⟨64, false⟩
  | .t => ⟨64, true⟩
  | .none | .L => ⟨32, false⟩

def readNumber (format : Format) (type : IntType) (base : Nat) (args : List Arg) : Option (Directive × List Arg) :=
  (takeWord args).map (fun (val, args) => (.number format type base val, args))

def readSpecifier (format : Format) (specifier : Byte) (args : List Arg) : Option (Directive × List Arg) :=
  if specifier = chr 'n' then (takeTarget args).map (fun (target, args) => (.count format.length target, args))
  else if specifier = chr 'd' ∨ specifier = chr 'i' then readNumber format (signedType format.length) 10 args
  else if specifier = chr 'u' then readNumber format (unsignedType format.length) 10 args
  else if specifier = chr 'o' then readNumber format (unsignedType format.length) 8 args
  else if specifier = chr 'x' ∨ specifier = chr 'X' then readNumber format (unsignedType format.length) 16 args
  else if specifier = chr 'c' then
    (takeWord args).map (fun (val, args) => (if format.length = .l then .dropped else .character val, args))
  else if specifier = chr 's' then
    if format.length = .l then (takeWord args).map (fun (_, args) => (.dropped, args))
    else (takeStr args).map (fun (ptr, args) => (.string format ptr, args))
  else if specifier = chr 'p' then (takeWord args).map (fun (val, args) => (.pointer format val, args))
  else some (.dropped, args)

def readConversion (input : Input) : Option (Directive × Input) :=
  let flags := readFlags {} input.pos
  (readWidth flags.1 flags.2 input.args).bind (fun (format, input) =>
    (readPrecision format input).bind (fun (format, input) =>
      let length := readLength input.pos
      match length.2 with
      | [] => none
      | specifier :: rest =>
          (readSpecifier { format with length := length.1 } specifier input.args).map (fun (directive, args) =>
            (directive, ⟨rest, args⟩))))

def nextDirective (cur : Byte) (rest : List Byte) (args : List Arg) : Option (Directive × Input) :=
  if cur = chr '%' then
    if rest.head? = some (chr '%') then some (.percent, ⟨rest.tail, args⟩) else readConversion ⟨rest, args⟩
  else some (.plain cur, ⟨rest, args⟩)

def directivesFrom : Nat → Input → Option (List Directive)
  | 0, _ => none
  | fuel + 1, ⟨pos, args⟩ =>
      match pos with
      | [] => some []
      | cur :: rest =>
          (nextDirective cur rest args).bind (fun (directive, input) =>
            (directivesFrom fuel input).map (directive :: ·))

def directives (fmt : Str) (args : List Arg) : Option (List Directive) := directivesFrom (fmt.chars.length + 1) ⟨fmt.chars, args⟩

theorem read_flags_length (format : Format) (chars : List Byte) : (readFlags format chars).2.length ≤ chars.length := by
  fun_induction readFlags format chars with
  | case1 format => exact Nat.le_refl _
  | case2 format rest ih | case3 format rest _ ih | case4 format rest _ _ ih | case5 format rest _ _ _ ih
  | case6 format rest _ _ _ _ ih => exact Nat.le_succ_of_le ih
  | case7 format cur rest => exact Nat.le_refl _

theorem read_width_length (format next : Format) (chars : List Byte) (args : List Arg) (input : Input)
    (read : readWidth format chars args = some (next, input)) : input.pos.length ≤ chars.length := by
  fun_induction readWidth format chars args with
  | case1 => grind
  | case2 format args cur rest _ ih => exact Nat.le_succ_of_le (ih read)
  | case3 => grind [Option.map_eq_some_iff]
  | case4 => grind

theorem read_precision_digits_length (format next : Format) (chars : List Byte) (args : List Arg) (input : Input)
    (read : readPrecisionDigits format chars args = some (next, input)) : input.pos.length ≤ chars.length := by
  fun_induction readPrecisionDigits format chars args with
  | case1 => grind
  | case2 format args cur rest _ ih => exact Nat.le_succ_of_le (ih read)
  | case3 => grind [Option.map_eq_some_iff]
  | case4 => grind

theorem read_precision_length (format next : Format) (input after : Input)
    (read : readPrecision format input = some (next, after)) : after.pos.length ≤ input.pos.length := by
  rw [readPrecision] at read
  cases chars : input.pos with
  | nil => grind
  | cons cur rest =>
      rw [chars] at read
      dsimp only at read
      by_cases dot : cur = chr '.'
      · rw [if_pos dot] at read
        obtain ⟨⟨last, reached⟩, digits, same⟩ := Option.map_eq_some_iff.mp read
        obtain ⟨_, rfl⟩ := Prod.mk.inj same
        exact Nat.le_succ_of_le (read_precision_digits_length format last rest input.args reached digits)
      · rw [if_neg dot] at read
        grind

theorem doubled_length (letter : Byte) (single double : Length) (chars : List Byte) :
    (doubled letter single double chars).2.length ≤ chars.length := by
  cases chars with
  | nil => exact Nat.le_refl _
  | cons cur rest => grind [doubled]

theorem read_length_length (chars : List Byte) : (readLength chars).2.length ≤ chars.length := by
  cases chars with
  | nil => exact Nat.le_refl _
  | cons cur rest =>
      have afterH := doubled_length (chr 'h') .h .hh rest
      have afterL := doubled_length (chr 'l') .l .ll rest
      grind [readLength]

theorem read_conversion_length (input after : Input) (directive : Directive)
    (read : readConversion input = some (directive, after)) : after.pos.length ≤ input.pos.length := by
  obtain ⟨⟨format, atPrecision⟩, width, read⟩ := Option.bind_eq_some_iff.mp read
  obtain ⟨⟨format, atLength⟩, precision, read⟩ := Option.bind_eq_some_iff.mp read
  have flags := read_flags_length {} input.pos
  have widths := read_width_length _ _ _ _ _ width
  have precisions := read_precision_length _ _ _ _ precision
  have lengths := read_length_length atLength.pos
  dsimp only at read
  cases chars : (readLength atLength.pos).2 with
  | nil => simp only [chars, reduceCtorEq] at read
  | cons specifier rest =>
      rw [chars] at read lengths
      obtain ⟨found, _, same⟩ := Option.map_eq_some_iff.mp read
      obtain ⟨_, rfl⟩ := Prod.mk.inj same
      rw [List.length_cons] at lengths
      dsimp only
      omega

-- Every turn of the loop moves pos on, so the fuel of directives never runs out.
theorem next_directive_length (cur : Byte) (rest : List Byte) (args : List Arg) (directive : Directive) (input : Input)
    (next : nextDirective cur rest args = some (directive, input)) : input.pos.length ≤ rest.length := by
  rw [nextDirective] at next
  by_cases percent : cur = chr '%'
  · rw [if_pos percent] at next
    by_cases double : rest.head? = some (chr '%')
    · rw [if_pos double] at next
      obtain ⟨_, rfl⟩ := Prod.mk.inj (Option.some.inj next)
      simp
    · rw [if_neg double] at next
      exact read_conversion_length ⟨rest, args⟩ input directive next
  · rw [if_neg percent] at next
    obtain ⟨_, rfl⟩ := Prod.mk.inj (Option.some.inj next)
    exact Nat.le_refl _

theorem directives_from_enough (fuel more : Nat) (input : Input) (enough : input.pos.length < fuel) (still : fuel ≤ more) :
    directivesFrom more input = directivesFrom fuel input := by
  induction fuel generalizing more input with
  | zero => exact absurd enough (Nat.not_lt_zero _)
  | succ fuel ih =>
      obtain ⟨more, rfl⟩ : ∃ before, more = before + 1 := ⟨more - 1, by omega⟩
      obtain ⟨pos, args⟩ := input
      cases pos with
      | nil => rfl
      | cons cur rest =>
          rw [directivesFrom, directivesFrom]
          refine Option.bind_congr (fun ⟨directive, input⟩ next => ?_)
          have shorter := next_directive_length cur rest args directive input next
          rw [List.length_cons] at enough
          dsimp only
          rw [ih more input (by omega) (by omega)]

end Kraftwerk.Print
