import Kraftwerk.Print.Directives

set_option autoImplicit false

-- The text that kvsnprintf constructs for a directive.
namespace Kraftwerk.Print

open CString

inductive Piece where
  | nothing
  | count (length : Length) (target : Nat)
  | percent
  | char (cur : Byte)
  | text (final : Str)
deriving DecidableEq

-- The string in a block of kmalloc that was filled without a NUL: it runs on into what the
-- block held before. The list of old contents ends at their first NUL past the block.
def unterminated (written old : List Byte) : Str := Str.ofBytes (written ++ old.drop written.length)

-- The copying loop, entered with nCopied characters copied.
def copyOutFrom (max : Int) : Nat → List Byte → List Byte
  | _, [] => []
  | nCopied, cur :: rest => cur :: (if 0 < max ∧ max ≤ nCopied + 1 then [] else copyOutFrom max (nCopied + 1) rest)

def copyOut (str : Str) (max : Int) : List Byte := copyOutFrom max 0 str.chars

-- A negative width is larger than every strlen, and final[width] is then outside of the block.
def justify (usable : Nat → Nat) (str : Str) (width : BitVec 32) (leftJustify zeroPad : Bool) : Option Str :=
  if 0 ≤ width.toInt ∧ width.toNat ≤ str.chars.length then some str
  else if 0 ≤ width.toInt ∧ width.toNat + 1 < 2 ^ 31 ∧ width.toNat < usable (width.toNat + 1) then
    let padding := List.replicate (width.toNat - str.chars.length) (if zeroPad then chr '0' else chr ' ')
    some (Str.ofBytes (if leftJustify then str.chars ++ padding else padding ++ str.chars))
  else none

def padding (str : Str) (width : Nat) (zeroPad : Bool) : List Byte :=
  List.replicate (width - str.chars.length) (if zeroPad then chr '0' else chr ' ')

-- A text that is not shorter than the width is not padded.
def justifiedText (str : Str) (width : Nat) (leftJustify zeroPad : Bool) : List Byte :=
  if leftJustify then str.chars ++ padding str width zeroPad else padding str width zeroPad ++ str.chars

def intprecision (usable : Nat → Nat) (old : List Byte) (str : Str) (precision : BitVec 32) : Option Str :=
  if precision.toInt < str.chars.length then some str
  else if precision.toNat + 1 < 2 ^ 31 ∧ precision.toNat ≤ usable (precision.toNat + 1) then
    some (unterminated (List.replicate (precision.toNat - str.chars.length) (chr '0') ++ str.chars) old)
  else none

def copied (format : Format) (ptr : Str) : List Byte :=
  copyOut ptr (if format.precisionSpecified then format.precision.toInt else 0)

def copyRequest (format : Format) (ptr : Str) : Nat :=
  if format.precisionSpecified then (format.precision + 1).toNat else ptr.chars.length + 1

def copyString (usable : Nat → Nat) (old : List Byte) (format : Format) (ptr : Str) : Option Str :=
  if (copied format ptr).length ≤ usable (copyRequest format ptr) then some (unterminated (copied format ptr) old)
  else none

-- The width, and then the length of the text, which the code counts in an int.
def field (usable : Nat → Nat) (format : Format) (str : Str) : Option Piece :=
  (if format.widthSpecified then justify usable str format.width format.leftJustify format.zeroPadding
    else some str).bind (fun final => if final.chars.length < 2 ^ 31 then some (.text final) else none)

def numberText (usable : Nat → Nat) (format : Format) (type : IntType) (base : Nat) (val : BitVec 64) : Option Str :=
  itoa usable type (type.value val) base format.insertSpace format.precedeSign format.insertNumer

def convert (usable : Nat → Nat) (old : List Byte) : Directive → Option Piece
  | .plain cur => some (.char cur)
  | .percent => some .percent
  | .count length target => some (.count length target)
  | .number format type base val =>
      (numberText usable format type base val).bind (fun final =>
        (if format.precisionSpecified then intprecision usable old final format.precision else some final).bind
          (field usable format))
  | .pointer format val => (itoa usable ⟨64, false⟩ val.toNat 16 false false format.insertNumer).bind (field usable format)
  | .character val => some (.char (val.setWidth 8))
  | .string format ptr => (copyString usable old format ptr).bind (field usable format)
  | .dropped => some .nothing

-- The directives one after the other; each one finds the contents of its own block.
def convertAll (usable : Nat → Nat) : (Nat → List Byte) → List Directive → Option (List Piece)
  | _, [] => some []
  | old, directive :: rest =>
      (convert usable (old 0) directive).bind (fun piece =>
        (convertAll usable (fun index => old (index + 1)) rest).map (piece :: ·))

-- The conversion prints a temporary that it never terminates.
def Directive.unclosed (usable : Nat → Nat) : Directive → Bool
  | .number format type base val =>
      format.precisionSpecified &&
        (numberText usable format type base val).any (fun final => decide (final.chars.length ≤ format.precision.toInt))
  | .string _ _ => true
  | _ => false

def Piece.counted : Piece → Nat
  | .char _ => 1
  | .text final => final.chars.length
  | _ => 0

def totalCounted (pieces : List Piece) : Nat := (pieces.map Piece.counted).sum

theorem total_counted_cons (piece : Piece) (rest : List Piece) :
    totalCounted (piece :: rest) = piece.counted + totalCounted rest := rfl

theorem copy_out_from_eq (max : Int) (nCopied : Nat) (chars : List Byte) (room : max ≤ 0 ∨ nCopied < max) :
    copyOutFrom max nCopied chars = if 0 < max then chars.take (max.toNat - nCopied) else chars := by
  induction chars generalizing nCopied with
  | nil => simp [copyOutFrom]
  | cons cur rest ih =>
      rw [copyOutFrom]
      by_cases limited : 0 < max
      · obtain ⟨more, amount⟩ : ∃ more, max.toNat - nCopied = more + 1 := ⟨max.toNat - nCopied - 1, by omega⟩
        rw [if_pos limited, amount, List.take_succ_cons]
        by_cases full : max ≤ nCopied + 1
        · obtain rfl : more = 0 := by omega
          rw [if_pos ⟨limited, full⟩, List.take_zero]
        · rw [if_neg (fun both => full both.2), ih (nCopied + 1) (by omega), if_pos limited]
          rw [show max.toNat - (nCopied + 1) = more by omega]
      · rw [if_neg (fun both => limited both.1), if_neg limited, ih (nCopied + 1) (by omega), if_neg limited]

theorem copy_out_eq (str : Str) (max : Int) :
    copyOut str max = if 0 < max then str.chars.take max.toNat else str.chars :=
  copy_out_from_eq max 0 str.chars (by omega)

theorem copy_out_nonzero (str : Str) (max : Int) (c : Byte) (member : c ∈ copyOut str max) : c ≠ 0 := by
  rw [copy_out_eq] at member
  by_cases limited : 0 < max
  · rw [if_pos limited] at member
    exact str.nonzero c (List.mem_of_mem_take member)
  · rw [if_neg limited] at member
    exact str.nonzero c member

theorem unterminated_fresh (written : List Byte) (nonzero : ∀ c ∈ written, c ≠ 0) :
    (unterminated written []).chars = written := by
  rw [unterminated, List.drop_nil, List.append_nil, of_bytes_chars written nonzero]

-- Old contents without a NUL make the string longer than what was written.
theorem unterminated_stale (written : List Byte) (size : Nat) (nonzero : ∀ c ∈ written, c ≠ 0)
    (larger : written.length ≤ size) : (unterminated written (List.replicate size 1)).chars.length = size := by
  rw [unterminated, List.drop_replicate, of_bytes_chars, List.length_append, List.length_replicate]
  · omega
  · intro c member
    rcases List.mem_append.mp member with front | back
    · exact nonzero c front
    · rw [(List.mem_replicate.mp back).2]
      decide

def fieldLength (format : Format) (length : Nat) : Nat :=
  if format.widthSpecified then max length format.width.toNat else length

section Justified

variable (str : Str) (width : Nat) (leftJustify zeroPad : Bool)

theorem padding_length : (padding str width zeroPad).length = width - str.chars.length := List.length_replicate

theorem justified_text_length :
    (justifiedText str width leftJustify zeroPad).length = max width str.chars.length := by
  have pad := padding_length str width zeroPad
  rw [justifiedText]
  split
  · rw [List.length_append, pad]
    omega
  · rw [List.length_append, pad]
    omega

theorem justified_text_nonzero (c : Byte) (member : c ∈ justifiedText str width leftJustify zeroPad) : c ≠ 0 := by
  have pad : ∀ c ∈ padding str width zeroPad, c ≠ 0 := by
    intro c inside
    rw [(List.mem_replicate.mp inside).2]
    cases zeroPad <;> decide
  rw [justifiedText] at member
  split at member
  · exact (List.mem_append.mp member).elim (str.nonzero c) (pad c)
  · exact (List.mem_append.mp member).elim (pad c) (str.nonzero c)

theorem justified_text_long (long : width ≤ str.chars.length) : justifiedText str width leftJustify zeroPad = str.chars := by
  have none : padding str width zeroPad = [] := by rw [padding, Nat.sub_eq_zero_of_le long, List.replicate_zero]
  cases leftJustify
  · rw [justifiedText, none, if_neg Bool.false_ne_true, List.nil_append]
  · rw [justifiedText, none, if_pos rfl, List.append_nil]

end Justified

theorem justify_text (usable : Nat → Nat) (str final : Str) (width : BitVec 32) (leftJustify zeroPad : Bool)
    (justified : justify usable str width leftJustify zeroPad = some final) :
    final.chars = justifiedText str width.toNat leftJustify zeroPad := by
  rw [justify] at justified
  by_cases wide : 0 ≤ width.toInt ∧ width.toNat ≤ str.chars.length
  · rw [if_pos wide] at justified
    obtain rfl := Option.some.inj justified
    exact (justified_text_long str width.toNat leftJustify zeroPad wide.2).symm
  · rw [if_neg wide] at justified
    obtain ⟨room, made⟩ := Option.ite_none_right_eq_some.mp justified
    obtain rfl := Option.some.inj made
    exact of_bytes_chars _ (justified_text_nonzero str width.toNat leftJustify zeroPad)

theorem justify_length (usable : Nat → Nat) (str final : Str) (width : BitVec 32) (leftJustify zeroPad : Bool)
    (justified : justify usable str width leftJustify zeroPad = some final) :
    final.chars.length = max str.chars.length width.toNat := by
  rw [justify_text usable str final width leftJustify zeroPad justified, justified_text_length, Nat.max_comm]

theorem field_counted (usable : Nat → Nat) (format : Format) (str : Str) (piece : Piece)
    (made : field usable format str = some piece) : piece.counted = fieldLength format str.chars.length := by
  obtain ⟨final, justified, short⟩ := Option.bind_eq_some_iff.mp made
  by_cases small : final.chars.length < 2 ^ 31
  · rw [if_pos small] at short
    obtain rfl := Option.some.inj short
    rw [fieldLength, Piece.counted]
    by_cases specified : format.widthSpecified = true
    · rw [if_pos specified] at justified ⊢
      exact justify_length usable str final _ _ _ justified
    · rw [if_neg specified] at justified ⊢
      rw [Option.some.inj justified]
  · rw [if_neg small] at short
    cases short

theorem convert_closed (usable : Nat → Nat) (old other : List Byte) (directive : Directive)
    (closed : directive.unclosed usable = false) : convert usable old directive = convert usable other directive := by
  cases directive with
  | number format type base val =>
      refine Option.bind_congr (fun final made => ?_)
      by_cases specified : format.precisionSpecified = true
      · have long : format.precision.toInt < final.chars.length := by
          simpa [Directive.unclosed, specified, made] using closed
        rw [if_pos specified, if_pos specified, intprecision, intprecision, if_pos long, if_pos long]
      · rw [if_neg specified, if_neg specified]
  | string format ptr => cases closed
  | plain cur => rfl
  | percent => rfl
  | count length target => rfl
  | pointer format val => rfl
  | character val => rfl
  | dropped => rfl

theorem convert_unclosed (usable : Nat → Nat) (directive : Directive) (piece : Piece)
    (unclosed : directive.unclosed usable = true) (made : convert usable [] directive = some piece) :
    ∃ format written, (∀ c ∈ written, c ≠ 0) ∧
      ∀ old, convert usable old directive = field usable format (unterminated written old) := by
  cases directive with
  | number format type base val =>
      obtain ⟨final, text, made⟩ := Option.bind_eq_some_iff.mp made
      have specified : format.precisionSpecified = true := by
        simp only [Directive.unclosed, Bool.and_eq_true] at unclosed
        exact unclosed.1
      have short : ¬ format.precision.toInt < final.chars.length := by
        simpa [Directive.unclosed, specified, text] using unclosed
      rw [if_pos specified, intprecision, if_neg short] at made
      by_cases room : format.precision.toNat + 1 < 2 ^ 31 ∧ format.precision.toNat ≤ usable (format.precision.toNat + 1)
      · refine ⟨format, List.replicate (format.precision.toNat - final.chars.length) (chr '0') ++ final.chars, ?_, ?_⟩
        · intro c member
          rcases List.mem_append.mp member with zero | digit
          · rw [(List.mem_replicate.mp zero).2]
            decide
          · exact final.nonzero c digit
        · intro old
          rw [convert, text, Option.bind_some, if_pos specified, intprecision, if_neg short, if_pos room, Option.bind_some]
      · rw [if_neg room] at made
        cases made
  | string format ptr =>
      by_cases room : (copied format ptr).length ≤ usable (copyRequest format ptr)
      · refine ⟨format, copied format ptr, copy_out_nonzero ptr _, fun old => ?_⟩
        rw [convert, copyString, if_pos room, Option.bind_some]
      · rw [convert, copyString, if_neg room] at made
        cases made
  | plain cur => cases unclosed
  | percent => cases unclosed
  | count length target => cases unclosed
  | pointer format val => cases unclosed
  | character val => cases unclosed
  | dropped => cases unclosed

-- What an unterminated temporary prints depends on what kmalloc's block held.
theorem convert_stale (usable : Nat → Nat) (directive : Directive) (piece : Piece)
    (unclosed : directive.unclosed usable = true) (made : convert usable [] directive = some piece) :
    ∃ old, ∀ other, convert usable old directive = some other → other.counted = piece.counted + 1 := by
  obtain ⟨format, written, nonzero, shape⟩ := convert_unclosed usable directive piece unclosed made
  rw [shape] at made
  have fresh := field_counted usable format _ piece made
  rw [unterminated_fresh written nonzero] at fresh
  refine ⟨List.replicate (fieldLength format written.length + 1) 1, fun other otherMade => ?_⟩
  rw [shape] at otherMade
  have counted := field_counted usable format _ other otherMade
  have atLeast : written.length ≤ fieldLength format written.length := by
    rw [fieldLength]
    split <;> omega
  rw [unterminated_stale written _ nonzero (by omega)] at counted
  rw [counted, fresh, fieldLength, fieldLength]
  split <;> omega

end Kraftwerk.Print
