import Kraftwerk.Print.FormatScan
import Mathlib.Data.Nat.Digits.Lemmas

set_option autoImplicit false

-- The text of an integer conversion: its sign, its prefix and its digits, padded to the width.
namespace Kraftwerk.Print

open CString

-- The type and the base that a directive names by its letter and its length.
def namesSigned (specifier : Byte) : Bool := specifier == chr 'd' || specifier == chr 'i'

def namedBits : Length → Nat
  | .hh => 8
  | .h => 16
  | .l | .ll | .j | .z | .t => 64
  | .none | .L => 32

def namedType (specifier : Byte) (length : Length) : IntType := ⟨namedBits length, namesSigned specifier⟩

def namedBase (specifier : Byte) : Nat :=
  if specifier = chr 'o' then 8 else if specifier = chr 'x' ∨ specifier = chr 'X' then 16 else 10

def numberSign (format : Format) (num : Int) : List Byte :=
  if num < 0 then [chr '-'] else if format.insertSpace then [chr ' '] else if format.precedeSign then [chr '+'] else []

def numberPrefix (format : Format) (base : Nat) : List Byte :=
  if !format.insertNumer then [] else if base = 8 then [chr '0'] else if base = 16 then [chr '0', chr 'x'] else []

def numberHead (format : Format) (base : Nat) (num : Int) : List Byte := numberSign format num ++ numberPrefix format base

def numberDigits (base : Nat) (num : Int) : List Byte := (numeral base num.natAbs).reverse

def Format.leastDigits (format : Format) : Nat := if format.precisionSpecified then format.precision.toNat else 0

def Format.leastChars (format : Format) : Nat := if format.widthSpecified then format.width.toNat else 0

-- What the directive asks for.
def numberWanted (format : Format) (base : Nat) (num : Int) : List Byte :=
  let head := numberHead format base num
  let digits := List.replicate (format.leastDigits - (numberDigits base num).length) (chr '0') ++ numberDigits base num
  let missing := format.leastChars - (head ++ digits).length
  if format.leftJustify then head ++ digits ++ List.replicate missing (chr ' ')
  else if format.zeroPadding then head ++ List.replicate missing (chr '0') ++ digits
  else List.replicate missing (chr ' ') ++ (head ++ digits)

-- What __kvsprintf_justify makes of a text.
def justified (format : Format) (text : List Byte) : List Byte :=
  let padding := List.replicate (format.leastChars - text.length) (if format.zeroPadding then chr '0' else chr ' ')
  if format.leftJustify then text ++ padding else padding ++ text

section Lists

theorem replicate_commutes (count : Nat) (letter : Byte) (chars : List Byte) (positive : 0 < count) :
    List.replicate count letter ++ chars = chars ++ List.replicate count letter ↔ ∀ c ∈ chars, c = letter := by
  constructor
  · intro same
    obtain ⟨less, rfl⟩ : ∃ less, count = less + 1 := ⟨count - 1, by omega⟩
    induction chars with
    | nil => exact fun _ member => absurd member List.not_mem_nil
    | cons first rest ih =>
        rw [List.replicate_succ, List.cons_append, List.cons_append, List.cons.injEq] at same
        obtain ⟨rfl, later⟩ := same
        have shifted : List.replicate (less + 1) letter ++ rest = List.replicate less letter ++ letter :: rest := by
          rw [List.replicate_succ', List.append_assoc, List.singleton_append]
        exact List.forall_mem_cons.mpr ⟨rfl, ih (shifted.trans later)⟩
  · intro all
    rw [List.eq_replicate_of_mem all, List.replicate_append_replicate, List.replicate_append_replicate, Nat.add_comm]

-- A text padded by the code and a text padded as asked for, where the precision adds no zeros.
theorem padded_same_iff (head digits : List Byte) (count : Nat) (left zero : Bool) :
    (if left then head ++ digits ++ List.replicate count (if zero then chr '0' else chr ' ')
      else List.replicate count (if zero then chr '0' else chr ' ') ++ (head ++ digits)) =
    (if left then head ++ digits ++ List.replicate count (chr ' ')
      else if zero then head ++ List.replicate count (chr '0') ++ digits
      else List.replicate count (chr ' ') ++ (head ++ digits)) ↔
      (0 < count → zero = true → left = false ∧ ∀ c ∈ head, c = chr '0') := by
  cases Nat.eq_zero_or_pos count with
  | inl none => simp [none]
  | inr positive =>
      cases zero with
      | false => simp
      | true =>
          cases left with
          | true =>
              have different : List.replicate count (chr '0') ≠ List.replicate count (chr ' ') := by
                intro same
                have letters := (List.replicate_inj.mp same).2
                exact absurd (letters.resolve_left positive.ne') (by decide)
              simp [positive, different]
          | false =>
              simp only [Bool.false_eq_true, if_false, if_true, positive, forall_const, true_and]
              rw [← List.append_assoc, List.append_left_inj]
              exact replicate_commutes count (chr '0') head positive

-- The same where the precision adds zeros that the code leaves out: the texts differ, but for zeros at the right end.
theorem padded_short_iff (head digits : List Byte) (zeros count : Nat) (left zero : Bool) (positive : 0 < zeros)
    (mixed : ¬ ∀ c ∈ head, c = chr '0') :
    (if left then head ++ digits ++ List.replicate count (if zero then chr '0' else chr ' ')
      else List.replicate count (if zero then chr '0' else chr ' ') ++ (head ++ digits)) =
    (if left then head ++ (List.replicate zeros (chr '0') ++ digits) ++ List.replicate (count - zeros) (chr ' ')
      else if zero then head ++ List.replicate (count - zeros) (chr '0') ++ (List.replicate zeros (chr '0') ++ digits)
      else List.replicate (count - zeros) (chr ' ') ++ (head ++ (List.replicate zeros (chr '0') ++ digits))) ↔
      left = true ∧ zero = true ∧ count = zeros ∧ ∀ c ∈ digits, c = chr '0' := by
  constructor
  · intro same
    have lengths := congrArg List.length same
    have spaces := congrArg (List.count (chr ' ')) same
    have unlike : (chr '0' == chr ' ') = false := by decide
    cases left with
    | false =>
        cases zero with
        | false =>
            simp only [Bool.false_eq_true, if_false, List.count_append, List.count_replicate, unlike, beq_self_eq_true, if_true,
              List.length_append, List.length_replicate] at spaces lengths
            omega
        | true =>
            simp only [Bool.false_eq_true, if_false, if_true, List.length_append, List.length_replicate] at same lengths
            obtain ⟨more, rfl⟩ : ∃ more, count = more + zeros := ⟨count - zeros, by omega⟩
            rw [Nat.add_sub_cancel, ← List.append_assoc, ← List.append_assoc, List.append_assoc head, List.replicate_append_replicate,
              List.append_left_inj] at same
            exact absurd ((replicate_commutes _ (chr '0') head (by omega)).mp same) mixed
    | true =>
        cases zero with
        | false =>
            simp only [Bool.false_eq_true, if_false, if_true, List.count_append, List.count_replicate, unlike, beq_self_eq_true,
              List.length_append, List.length_replicate] at spaces lengths
            omega
        | true =>
            simp only [if_true, List.count_append, List.count_replicate, unlike, beq_self_eq_true, Bool.false_eq_true, if_false,
              List.length_append, List.length_replicate] at same spaces lengths
            obtain rfl : count = zeros := by omega
            rw [Nat.sub_self, List.replicate_zero, List.append_nil, List.append_assoc, List.append_cancel_left_eq] at same
            exact ⟨rfl, rfl, rfl, (replicate_commutes count (chr '0') digits positive).mp same.symm⟩
  · rintro ⟨rfl, rfl, rfl, all⟩
    rw [if_pos rfl, if_pos rfl, if_pos rfl, Nat.sub_self, List.replicate_zero, List.append_nil, List.append_assoc,
      List.append_cancel_left_eq]
    exact ((replicate_commutes count (chr '0') digits positive).mpr all).symm

end Lists

-- The blocks of the text have room for a width beyond the text.
def WidthRoom (usable : Nat → Nat) (format : Format) (length : Nat) : Prop :=
  length < format.leastChars → format.leastChars + 1 < 2 ^ 31 ∧ format.leastChars < usable (format.leastChars + 1)

theorem justified_nonzero (format : Format) (str : Str) (c : Byte) (member : c ∈ justified format str.chars) : c ≠ 0 := by
  exact justified_text_nonzero str format.leastChars format.leftJustify format.zeroPadding c member

theorem justified_length (format : Format) (text : List Byte) :
    (justified format text).length = max text.length format.leastChars := by
  rw [justified]
  split <;> simp only [List.length_append, List.length_replicate] <;> omega

section Field

variable (usable : Nat → Nat) (format : Format) (str : Str)

theorem to_int_of_small (word : BitVec 32) (small : word.toNat < 2 ^ 31) : word.toInt = word.toNat :=
  BitVec.toInt_eq_toNat_of_lt (by omega)

theorem nonnegative_of_small (word : BitVec 32) (small : word.toNat < 2 ^ 31) : 0 ≤ word.toInt := by
  rw [to_int_of_small word small]
  exact Int.natCast_nonneg _

theorem field_justified (short : str.chars.length < 2 ^ 31) (room : WidthRoom usable format str.chars.length) :
    ∃ final, field usable format str = some (.text final) ∧ final.chars = justified format str.chars := by
  have small : (justified format str.chars).length < 2 ^ 31 := by
    rw [justified_length]
    rcases Nat.lt_or_ge str.chars.length format.leastChars with wide | narrow
    · have bound := (room wide).1
      omega
    · omega
  have whole : (Str.ofBytes (justified format str.chars)).chars = justified format str.chars :=
    of_bytes_chars _ (justified_nonzero format str)
  cases specified : format.widthSpecified with
  | false =>
      have same : justified format str.chars = str.chars := by
        simp [justified, Format.leastChars, specified]
      exact ⟨str, by rw [field, specified, if_neg Bool.false_ne_true, Option.bind_some, if_pos short], same.symm⟩
  | true =>
      have least : format.leastChars = format.width.toNat := by rw [Format.leastChars, if_pos specified]
      by_cases narrow : format.width.toNat ≤ str.chars.length
      · have fits := nonnegative_of_small format.width (by omega)
        have none : format.width.toNat - str.chars.length = 0 := Nat.sub_eq_zero_of_le narrow
        refine ⟨str, ?_, by simp [justified, least, none]⟩
        rw [field, if_pos specified, justify, if_pos ⟨fits, narrow⟩, Option.bind_some, if_pos short]
      · have bound := room (by omega)
        rw [least] at bound
        have fits := nonnegative_of_small format.width (by omega)
        refine ⟨Str.ofBytes (justified format str.chars), ?_, whole⟩
        rw [field, if_pos specified, justify, if_neg (fun both => narrow both.2), if_pos ⟨fits, bound⟩]
        dsimp only
        rw [← least, ← justified, Option.bind_some, if_pos (by rw [whole]; exact small)]

theorem field_without_room (short : str.chars.length < 2 ^ 31) (room : ¬ WidthRoom usable format str.chars.length) :
    field usable format str = none := by
  rw [WidthRoom, Classical.not_imp] at room
  obtain ⟨wide, small⟩ := room
  have specified : format.widthSpecified = true := by
    by_contra unspecified
    rw [Format.leastChars, if_neg unspecified] at wide
    omega
  rw [Format.leastChars, if_pos specified] at wide small
  rw [field, if_pos specified, justify, if_neg (fun both => by omega), if_neg (fun all => small all.2), Option.bind_none]

end Field

section Digits

-- The types that the conversions read their arguments at, and their bases.
def ReadableType (type : IntType) : Prop := type.bits = 8 ∨ type.bits = 16 ∨ type.bits = 32 ∨ type.bits = 64

variable (type : IntType) (val : BitVec 64)

theorem value_small (readable : ReadableType type) : (type.value val).natAbs < 2 ^ 64 := by
  obtain ⟨bits, signed⟩ := type
  rcases readable with rfl | rfl | rfl | rfl <;> cases signed <;>
    simp only [IntType.value, Bool.false_eq_true, if_false, if_true, BitVec.toInt_eq_toNat_cond] <;> omega

theorem convert_negated (readable : ReadableType type) (negative : type.value val < 0) :
    type.convert (-type.value val) =
      if type.value val = -2 ^ (type.bits - 1) then type.value val else -type.value val := by
  obtain ⟨bits, signed⟩ := type
  cases signed with
  | false => exact absurd negative (Int.not_lt.mpr (Int.natCast_nonneg _))
  | true =>
      rcases readable with rfl | rfl | rfl | rfl <;>
        simp only [IntType.convert, IntType.value, if_true, BitVec.toInt_setWidth, BitVec.toNat_ofInt, Int.bmod] at negative ⊢ <;>
        omega

end Digits

def ReadableBase (base : Nat) : Prop := base = 8 ∨ base = 10 ∨ base = 16

-- The value has a sign that itoa can print.
def SignFits (type : IntType) (base : Nat) (num : Int) : Prop := num < 0 → base = 10 ∧ num ≠ -2 ^ (type.bits - 1)

theorem numeral_nonempty (base num : Nat) : 0 < (numeral base num).length := by
  rw [numeral]
  split
  · exact Nat.one_pos
  · rename_i nonzero
    rw [List.length_map]
    exact List.length_pos_of_ne_nil (Nat.digits_ne_nil_iff_ne_zero.mpr nonzero)

theorem numeral_length (base num : Nat) (large : 2 ≤ base) (small : num < 2 ^ 64) : (numeral base num).length ≤ 64 := by
  rw [numeral]
  split
  · decide
  · rw [List.length_map]
    exact (Nat.digits_length_le_iff large num).mpr (Nat.lt_of_lt_of_le small (Nat.pow_le_pow_left large 64))

theorem alphanumeric_nonzero (digit : Nat) (small : digit < 16) :
    alphanumeric.getD digit 0 ≠ 0 ∧ alphanumeric.getD digit 0 ≠ chr ' ' ∧ (alphanumeric.getD digit 0 = chr '0' → digit = 0) := by
  revert digit
  decide

theorem numeral_letters (base num : Nat) (large : 2 ≤ base) (small : base ≤ 16) (c : Byte) (member : c ∈ numeral base num) :
    ∃ digit < 16, c = alphanumeric.getD digit 0 := by
  rw [numeral] at member
  split at member
  · exact ⟨0, by decide, List.mem_singleton.mp member⟩
  · obtain ⟨digit, inside, rfl⟩ := List.mem_map.mp member
    exact ⟨digit, Nat.lt_of_lt_of_le (Nat.digits_lt_base large inside) small, rfl⟩

-- A numeral of zeros only is that of 0.
theorem numeral_zeros (base num : Nat) (large : 2 ≤ base) (small : base ≤ 16) :
    (∀ c ∈ numeral base num, c = chr '0') ↔ num = 0 := by
  constructor
  · intro all
    by_contra nonzero
    rw [numeral, if_neg nonzero] at all
    have nonempty : Nat.digits base num ≠ [] := Nat.digits_ne_nil_iff_ne_zero.mpr nonzero
    have last := all _ (List.mem_map_of_mem (List.getLast_mem nonempty))
    have below := Nat.lt_of_lt_of_le (Nat.digits_lt_base large (List.getLast_mem nonempty)) small
    exact Nat.getLast_digit_ne_zero base nonzero ((alphanumeric_nonzero _ below).2.2 last)
  · rintro rfl c member
    rw [numeral, if_pos rfl] at member
    exact List.mem_singleton.mp member

theorem readable_base_bounds (base : Nat) (readable : ReadableBase base) : 2 ≤ base ∧ base ≤ 16 := by
  rcases readable with rfl | rfl | rfl <;> decide

section Itoa

variable (usable : Nat → Nat) (format : Format) (type : IntType) (base : Nat) (val : BitVec 64)

theorem head_letters (num : Int) (c : Byte) (member : c ∈ numberHead format base num) : c ∈ "- +0x".toList.map chr := by
  have letter : ∀ c : Char, c ∈ "- +0x".toList → chr c ∈ "- +0x".toList.map chr := fun c inside => List.mem_map_of_mem inside
  have sign : ∀ c ∈ numberSign format num, c ∈ "- +0x".toList.map chr := by
    rw [numberSign]
    repeat' split
    · exact List.forall_mem_singleton.mpr (letter '-' (by decide))
    · exact List.forall_mem_singleton.mpr (letter ' ' (by decide))
    · exact List.forall_mem_singleton.mpr (letter '+' (by decide))
    · exact List.forall_mem_nil _
  have front : ∀ c ∈ numberPrefix format base, c ∈ "- +0x".toList.map chr := by
    rw [numberPrefix]
    repeat' split
    · exact List.forall_mem_nil _
    · exact List.forall_mem_singleton.mpr (letter '0' (by decide))
    · exact List.forall_mem_cons.mpr ⟨letter '0' (by decide), List.forall_mem_singleton.mpr (letter 'x' (by decide))⟩
    · exact List.forall_mem_nil _
  rcases List.mem_append.mp member with inside | inside
  · exact sign c inside
  · exact front c inside

theorem number_nonzero (readable : ReadableBase base) (num : Int) (c : Byte)
    (member : c ∈ numberHead format base num ++ numberDigits base num) : c ≠ 0 := by
  obtain ⟨large, small⟩ := readable_base_bounds base readable
  rcases List.mem_append.mp member with inside | inside
  · have letter := head_letters format base num c inside
    clear inside member
    revert c
    decide
  · obtain ⟨digit, below, rfl⟩ := numeral_letters base num.natAbs large small c (List.mem_reverse.mp inside)
    exact (alphanumeric_nonzero digit below).1

-- A negative number in another base: the loop reads outside of alphanumeric, or stops at one zero.
theorem itoa_digits_signed (num : Int) (negative : num < 0) :
    itoaDigits num base = none ∨ itoaDigits num base = some [chr '0'] := by
  obtain ⟨count, rfl⟩ : ∃ count : Nat, num = -count := ⟨num.natAbs, by omega⟩
  by_cases whole : count % base = 0
  · right
    have remainder : (-(count : Int)).tmod base = 0 := by
      rw [Int.neg_tmod, show (count : Int).tmod base = ((count % base : Nat) : Int) from rfl, whole]
      rfl
    have quotient : ¬ 0 < (-(count : Int)).tdiv base := by
      rw [Int.neg_tdiv, show (count : Int).tdiv base = ((count / base : Nat) : Int) from rfl]
      exact Int.not_lt.mpr (Int.neg_nonpos_of_nonneg (Int.natCast_nonneg _))
    rw [itoaDigits, itoaDigitsFrom, remainder, if_neg (by decide)]
    simp only [quotient, if_false]
    rfl
  · exact .inl (itoa_digits_negative base count whole)

-- What itoa returns where the sign of the value fits.
theorem number_text_fits (readable : ReadableType type) (bases : ReadableBase base) (fits : SignFits type base (type.value val)) :
    itoaDigits (if decide (type.value val < 0) && base == 10 then type.convert (-type.value val) else type.value val) base =
      some (numeral base (type.value val).natAbs) := by
  obtain ⟨large, small⟩ := readable_base_bounds base bases
  by_cases negative : type.value val < 0
  · obtain ⟨rfl, notLeast⟩ := fits negative
    have magnitude : -type.value val = ((type.value val).natAbs : Int) := by omega
    rw [if_pos (by simp [negative]), convert_negated type val readable negative, if_neg notLeast, magnitude]
    exact itoa_digits_nat 10 _ (by decide) (by decide)
  · have magnitude : type.value val = ((type.value val).natAbs : Int) := by omega
    rw [if_neg (by simp [negative]), magnitude, Int.natAbs_natCast]
    exact itoa_digits_nat base _ large (small.trans (by decide))

theorem itoa_sign_reversed (neg addSpace addPlus : Bool) : (itoaSign neg addSpace addPlus).reverse = itoaSign neg addSpace addPlus := by
  cases neg <;> cases addSpace <;> cases addPlus <;> rfl

theorem itoa_prefix_reversed : (if format.insertNumer then itoaPrefix base else []).reverse = numberPrefix format base := by
  rw [numberPrefix]
  cases format.insertNumer with
  | false => rfl
  | true =>
      rw [if_pos rfl, Bool.not_true, if_neg Bool.false_ne_true, itoaPrefix]
      repeat' split
      all_goals rfl

theorem itoa_sign_fits (num : Int) (fits : SignFits type base num) :
    itoaSign (decide (num < 0) && base == 10) format.insertSpace format.precedeSign = numberSign format num := by
  by_cases negative : num < 0
  · obtain ⟨rfl, _⟩ := fits negative
    simp [itoaSign, numberSign, negative]
  · simp [itoaSign, numberSign, negative]

theorem number_text_eq (readable : ReadableType type) (bases : ReadableBase base) (fits : SignFits type base (type.value val)) :
    ∃ text : Str, text.chars = numberHead format base (type.value val) ++ numberDigits base (type.value val) ∧
      numberText usable format type base val =
        if text.chars.length < usable (itoaRequest (type.value val) base (decide (type.value val < 0) && base == 10)
          format.insertSpace format.precedeSign format.insertNumer) then some text else none := by
  have chars : (numeral base (type.value val).natAbs ++ (if format.insertNumer then itoaPrefix base else []) ++
      itoaSign (decide (type.value val < 0) && base == 10) format.insertSpace format.precedeSign).reverse =
        numberHead format base (type.value val) ++ numberDigits base (type.value val) := by
    rw [List.reverse_append, List.reverse_append, itoa_sign_reversed, itoa_prefix_reversed, itoa_sign_fits format type base _ fits,
      numberHead, numberDigits, List.append_assoc]
  have length := congrArg List.length chars
  rw [List.length_reverse] at length
  have whole := of_bytes_chars _ (number_nonzero format base bases (type.value val))
  refine ⟨_, whole, ?_⟩
  rw [numberText, itoa, number_text_fits type base val readable bases fits, Option.bind_some, whole]
  dsimp only
  rw [chars, length]

-- Where the sign does not fit, nothing but one zero is printed behind sign and prefix.
theorem number_text_misfit (readable : ReadableType type) (misfit : ¬ SignFits type base (type.value val)) (text : Str)
    (made : numberText usable format type base val = some text) :
    (∀ c ∈ text.chars, c ∈ " +0x".toList.map chr) ∧ text.chars.length < 2 ^ 31 := by
  rw [SignFits, Classical.not_imp] at misfit
  obtain ⟨negative, misfit⟩ := misfit
  obtain ⟨digits, printed, str⟩ := Option.bind_eq_some_iff.mp made
  by_cases decimal : base = 10
  · -- The smallest value of the type is its own negation.
    have least : type.value val = -2 ^ (type.bits - 1) := by
      by_contra notLeast
      exact misfit ⟨decimal, notLeast⟩
    rw [if_pos (by simp [negative, decimal]), convert_negated type val readable negative, if_pos least, least, decimal] at printed
    have rest : 2 ^ (type.bits - 1) % 10 ≠ 0 := by
      rcases readable with bits | bits | bits | bits <;> rw [bits] <;> decide
    have outside := itoa_digits_negative 10 (2 ^ (type.bits - 1)) rest
    rw [Nat.cast_pow, Nat.cast_ofNat, printed] at outside
    cases outside
  · have other : (decide (type.value val < 0) && base == 10) = false := by simp [decimal]
    rw [other, if_neg Bool.false_ne_true] at printed
    dsimp only at str
    rw [other] at str
    obtain ⟨_, str⟩ := Option.ite_none_right_eq_some.mp str
    obtain rfl := Option.some.inj str
    obtain none | zero := itoa_digits_signed base (type.value val) negative
    · cases none.symm.trans printed
    · obtain rfl := Option.some.inj (zero.symm.trans printed)
      have letters : (∀ c ∈ [chr '0'] ++ (if format.insertNumer then itoaPrefix base else []) ++
          itoaSign false format.insertSpace format.precedeSign, c ∈ " +0x".toList.map chr) ∧
          ([chr '0'] ++ (if format.insertNumer then itoaPrefix base else []) ++
            itoaSign false format.insertSpace format.precedeSign).length < 2 ^ 31 := by
        rw [itoaPrefix]
        repeat' split
        all_goals cases format.insertSpace <;> cases format.precedeSign <;> decide
      refine ⟨fun c member => letters.1 c (List.mem_reverse.mp (List.takeWhile_subset _ member)), ?_⟩
      refine Nat.lt_of_le_of_lt (List.takeWhile_sublist _).length_le ?_
      rw [List.length_reverse]
      exact letters.2

end Itoa

theorem head_zeros_short (format : Format) (base : Nat) (num : Int) (zeros : ∀ c ∈ numberHead format base num, c = chr '0') :
    (numberHead format base num).length ≤ 1 := by
  have sign : numberSign format num = [] := by
    have all := fun c inside => zeros c (List.mem_append_left _ inside)
    revert all
    rw [numberSign]
    repeat' split
    · exact fun all => absurd (all (chr '-') List.mem_cons_self) (by decide)
    · exact fun all => absurd (all (chr ' ') List.mem_cons_self) (by decide)
    · exact fun all => absurd (all (chr '+') List.mem_cons_self) (by decide)
    · exact fun _ => rfl
  have front : (numberPrefix format base).length ≤ 1 := by
    have all := fun c inside => zeros c (List.mem_append_right _ inside)
    revert all
    rw [numberPrefix]
    repeat' split
    · exact fun _ => Nat.zero_le 1
    · exact fun _ => Nat.le_refl 1
    · exact fun all => absurd (all (chr 'x') (List.mem_cons_of_mem _ List.mem_cons_self)) (by decide)
    · exact fun _ => Nat.zero_le 1
  rwa [numberHead, sign, List.nil_append]

theorem head_length (format : Format) (base : Nat) (num : Int) : (numberHead format base num).length ≤ 3 := by
  rw [numberHead, List.length_append, numberSign, numberPrefix]
  repeat' split
  all_goals decide

-- The precision adds no zeros, and is less than the whole text.
def PrecisionFits (format : Format) (base : Nat) (num : Int) : Prop :=
  format.leastDigits ≤ (numberDigits base num).length ∧
    format.leastDigits < (numberHead format base num).length + (numberDigits base num).length

-- The zeros of the padding stand at the right end, or in front of nothing but zeros.
def PaddingFits (format : Format) (base : Nat) (num : Int) : Prop :=
  (numberHead format base num).length + (numberDigits base num).length < format.leastChars → format.zeroPadding = true →
    format.leftJustify = false ∧ ∀ c ∈ numberHead format base num, c = chr '0'

-- The zeros that pad 0 on the right stand for those of its precision.
structure ZerosCoincide (format : Format) (base : Nat) (num : Int) : Prop where
  zero : num = 0
  leftJustify : format.leftJustify = true
  zeroPadding : format.zeroPadding = true
  more : 1 < format.leastDigits
  less : format.leastDigits ≤ (numberHead format base num).length
  exact : format.leastChars = (numberHead format base num).length + format.leastDigits

structure NumberCondition (usable : Nat → Nat) (format : Format) (type : IntType) (base : Nat) (num : Int) : Prop where
  sign : SignFits type base num
  room : (numberHead format base num ++ numberDigits base num).length <
    usable (itoaRequest num base (decide (num < 0) && base == 10) format.insertSpace format.precedeSign format.insertNumer)
  width : WidthRoom usable format (numberHead format base num ++ numberDigits base num).length
  zeros : (PrecisionFits format base num ∧ PaddingFits format base num) ∨ ZerosCoincide format base num

-- Both ways to pad the text of the code and the text that is wanted.
theorem justified_wanted_iff (format : Format) (base : Nat) (num : Int) (bases : ReadableBase base)
    (below : format.leastDigits < (numberHead format base num).length + (numberDigits base num).length) :
    justified format (numberHead format base num ++ numberDigits base num) = numberWanted format base num ↔
      (PrecisionFits format base num ∧ PaddingFits format base num) ∨ ZerosCoincide format base num := by
  obtain ⟨large, small⟩ := readable_base_bounds base bases
  have some_digit : 0 < (numberDigits base num).length := by
    rw [numberDigits, List.length_reverse]
    exact numeral_nonempty base _
  have all_zeros : (∀ c ∈ numberDigits base num, c = chr '0') ↔ num = 0 := by
    simp only [numberDigits, List.mem_reverse]
    rw [numeral_zeros base _ large small, Int.natAbs_eq_zero]
  rcases Nat.eq_zero_or_pos (format.leastDigits - (numberDigits base num).length) with none | more
  · have fits : PrecisionFits format base num := ⟨by omega, below⟩
    rw [justified, numberWanted, none, List.replicate_zero, List.nil_append]
    rw [padded_same_iff, PaddingFits, List.length_append]
    constructor
    · intro padding
      exact .inl ⟨fits, fun wide => padding (by omega)⟩
    · rintro (⟨_, padding⟩ | coincide)
      · exact fun wide => padding (by omega)
      · have more := coincide.more
        have only : (numberDigits base num).length = 1 := by
          rw [coincide.zero]
          rfl
        omega
  · have mixed : ¬ ∀ c ∈ numberHead format base num, c = chr '0' := fun zeros => by
      have short := head_zeros_short format base num zeros
      omega
    have missing : format.leastChars - (numberHead format base num ++ (List.replicate
        (format.leastDigits - (numberDigits base num).length) (chr '0') ++ numberDigits base num)).length =
        format.leastChars - (numberHead format base num ++ numberDigits base num).length -
          (format.leastDigits - (numberDigits base num).length) := by
      simp only [List.length_append, List.length_replicate]
      omega
    rw [justified, numberWanted, missing, padded_short_iff _ _ _ _ _ _ more mixed, all_zeros, List.length_append]
    constructor
    · rintro ⟨left, zero, count, rfl⟩
      have only : (numberDigits base 0).length = 1 := rfl
      exact .inr ⟨rfl, left, zero, by omega, by omega, by omega⟩
    · rintro (⟨fits, _⟩ | coincide)
      · have enough := fits.1
        omega
      · obtain ⟨rfl, left, zero, _, _, exact⟩ := coincide
        have only : (numberDigits base 0).length = 1 := rfl
        exact ⟨left, zero, by omega, rfl⟩

theorem wanted_minus (format : Format) (base : Nat) (num : Int) (negative : num < 0) : chr '-' ∈ numberWanted format base num := by
  have head : chr '-' ∈ numberHead format base num := by
    rw [numberHead, numberSign, if_pos negative]
    exact List.mem_append_left _ (List.mem_singleton.mpr rfl)
  rw [numberWanted]
  repeat' split
  all_goals simp only [List.mem_append, head, true_or, or_true]

theorem nonnegative_no_minus (format : Format) (base : Nat) (num : Int) (bases : ReadableBase base) (nonnegative : 0 ≤ num) :
    chr '-' ∉ numberHead format base num ++ numberDigits base num := by
  obtain ⟨large, small⟩ := readable_base_bounds base bases
  intro member
  rcases List.mem_append.mp member with head | digit
  · rw [numberHead, numberSign, numberPrefix, if_neg (Int.not_lt.mpr nonnegative)] at head
    revert head
    repeat' split
    all_goals decide
  · obtain ⟨digit, below, same⟩ := numeral_letters base num.natAbs large small _ (List.mem_reverse.mp digit)
    clear member
    revert digit
    decide

theorem wanted_no_minus (format : Format) (base : Nat) (num : Int) (bases : ReadableBase base) (nonnegative : 0 ≤ num) :
    chr '-' ∉ numberWanted format base num := by
  have text := nonnegative_no_minus format base num bases nonnegative
  rw [List.mem_append, not_or] at text
  have zeros : ∀ count, chr '-' ∉ List.replicate count (chr '0') := fun count member =>
    absurd (List.mem_replicate.mp member).2 (by decide)
  have spaces : ∀ count, chr '-' ∉ List.replicate count (chr ' ') := fun count member =>
    absurd (List.mem_replicate.mp member).2 (by decide)
  rw [numberWanted]
  repeat' split
  all_goals simp only [List.mem_append, text.1, text.2, zeros, spaces, or_self, not_false_eq_true]

theorem wanted_digits (format : Format) (base : Nat) (num : Int) (c : Byte) (digit : c ∈ numberDigits base num) :
    c ∈ numberWanted format base num := by
  rw [numberWanted]
  repeat' split
  all_goals simp only [List.mem_append, digit, or_true, true_or]

theorem wanted_length (format : Format) (base : Nat) (num : Int) : format.leastDigits ≤ (numberWanted format base num).length := by
  rw [numberWanted]
  repeat' split
  all_goals
    simp only [List.length_append, List.length_replicate]
    omega

theorem field_letters (usable : Nat → Nat) (format : Format) (str final : Str) (made : field usable format str = some (.text final))
    (short : str.chars.length < 2 ^ 31) (c : Byte) (member : c ∈ final.chars) : c ∈ str.chars ∨ c = chr '0' ∨ c = chr ' ' := by
  by_cases room : WidthRoom usable format str.chars.length
  · obtain ⟨other, justifiedTo, chars⟩ := field_justified usable format str short room
    obtain rfl := Piece.text.inj (Option.some.inj (justifiedTo.symm.trans made))
    rw [chars, justified] at member
    have padding : c ∈ List.replicate (format.leastChars - str.chars.length) (if format.zeroPadding then chr '0' else chr ' ') →
        c = chr '0' ∨ c = chr ' ' := by
      intro inside
      rw [(List.mem_replicate.mp inside).2]
      cases format.zeroPadding <;> simp
    split at member <;> rcases List.mem_append.mp member with inside | inside
    · exact .inl inside
    · exact .inr (padding inside)
    · exact .inr (padding inside)
    · exact .inl inside
  · rw [field_without_room usable format str short room] at made
    cases made

theorem field_keeps (usable : Nat → Nat) (format : Format) (str final : Str) (made : field usable format str = some (.text final))
    (short : str.chars.length < 2 ^ 31) (c : Byte) (member : c ∈ str.chars) : c ∈ final.chars := by
  by_cases room : WidthRoom usable format str.chars.length
  · obtain ⟨other, justifiedTo, chars⟩ := field_justified usable format str short room
    obtain rfl := Piece.text.inj (Option.some.inj (justifiedTo.symm.trans made))
    rw [chars, justified]
    split
    · exact List.mem_append_left _ member
    · exact List.mem_append_right _ member
  · rw [field_without_room usable format str short room] at made
    cases made

-- A value whose top bit is set.
theorem value_large (val : BitVec 64) (large : 2 ^ 63 ≤ val.toNat) :
    (⟨64, true⟩ : IntType).value val < 0 ∧ 0 < (⟨64, false⟩ : IntType).value val := by
  simp only [IntType.value, if_true, Bool.false_eq_true, if_false, BitVec.setWidth_eq, BitVec.toInt_eq_toNat_cond]
  omega

theorem value_small_same (val : BitVec 64) (small : val.toNat < 2 ^ 63) (signed : Bool) :
    (⟨64, signed⟩ : IntType).value val = val.toNat := by
  cases signed with
  | true =>
      have bound : 2 * val.toNat < 2 ^ 64 := by omega
      rw [IntType.value, if_pos rfl, BitVec.setWidth_eq]
      exact BitVec.toInt_eq_toNat_of_lt bound
  | false => rw [IntType.value, if_neg Bool.false_ne_true, BitVec.setWidth_eq]

theorem nonzero_digit (base : Nat) (num : Int) (bases : ReadableBase base) (nonzero : num ≠ 0) :
    ∃ c ∈ numberDigits base num, c ∉ " +0x".toList.map chr := by
  obtain ⟨large, small⟩ := readable_base_bounds base bases
  have mixed : ¬ ∀ c ∈ numeral base num.natAbs, c = chr '0' := fun zeros =>
    nonzero (Int.natAbs_eq_zero.mp ((numeral_zeros base _ large small).mp zeros))
  rw [not_forall] at mixed
  obtain ⟨c, mixed⟩ := mixed
  obtain ⟨member, notZero⟩ := Classical.not_imp.mp mixed
  refine ⟨c, List.mem_reverse.mpr member, ?_⟩
  obtain ⟨digit, below, rfl⟩ := numeral_letters base num.natAbs large small c member
  clear member mixed
  revert digit
  decide

section Converted

variable (usable : Nat → Nat) (format : Format) (type : IntType) (base : Nat) (val : BitVec 64)

-- The conversion makes this text, whatever the blocks of kmalloc held.
def Makes (chars : List Byte) : Prop := ∀ old, ∃ final, convert usable old (.number format type base val) = some (.text final) ∧
  final.chars = chars

theorem number_length_small (readable : ReadableType type) (bases : ReadableBase base) :
    (numberHead format base (type.value val) ++ numberDigits base (type.value val)).length < 2 ^ 31 := by
  have head := head_length format base (type.value val)
  have digits := numeral_length base (type.value val).natAbs (readable_base_bounds base bases).1 (value_small type val readable)
  rw [List.length_append, numberDigits, List.length_reverse]
  omega

-- The precision is below the length of the text, so that the text stays terminated.
theorem convert_short (old : List Byte) (text : Str) (made : numberText usable format type base val = some text)
    (short : format.precisionSpecified = true → format.precision.toInt < text.chars.length) :
    convert usable old (.number format type base val) = field usable format text := by
  rw [convert, made, Option.bind_some]
  cases specified : format.precisionSpecified with
  | false => rfl
  | true => rw [if_pos rfl, intprecision, if_pos (short specified), Option.bind_some]

theorem makes_field (chars : List Byte) (makes : Makes usable format type base val chars) :
    ∃ text final, numberText usable format type base val = some text ∧
      (format.precisionSpecified = true → format.precision.toInt < text.chars.length) ∧
      field usable format text = some (.text final) ∧ final.chars = chars := by
  obtain ⟨first, firstMade, firstChars⟩ := makes []
  obtain ⟨text, made, _⟩ := Option.bind_eq_some_iff.mp firstMade
  have closed : format.precisionSpecified = true → format.precision.toInt < text.chars.length := by
    intro specified
    by_contra long
    have unclosed : (Directive.number format type base val).unclosed usable = true := by
      simpa [Directive.unclosed, specified, made] using long
    obtain ⟨old, stale⟩ := convert_stale usable _ _ unclosed firstMade
    obtain ⟨second, secondMade, secondChars⟩ := makes old
    have longer := stale _ secondMade
    rw [Piece.counted, Piece.counted, firstChars, secondChars] at longer
    omega
  exact ⟨text, first, made, closed, convert_short usable format type base val [] text made closed ▸ firstMade, firstChars⟩

-- A text that is wanted and padded has a precision in the range of an int.
theorem precision_below (text : Str) (small : text.chars.length < 2 ^ 31) (nonempty : 0 < text.chars.length)
    (closed : format.precisionSpecified = true → format.precision.toInt < text.chars.length)
    (width : WidthRoom usable format text.chars.length)
    (same : justified format text.chars = numberWanted format base (type.value val)) : format.leastDigits < text.chars.length := by
  cases specified : format.precisionSpecified with
  | false => rwa [Format.leastDigits, specified, if_neg Bool.false_ne_true]
  | true =>
      have least : format.leastDigits = format.precision.toNat := by rw [Format.leastDigits, if_pos specified]
      have long := wanted_length format base (type.value val)
      rw [← same, justified_length] at long
      have bound : format.precision.toNat < 2 ^ 31 := by
        rcases Nat.lt_or_ge text.chars.length format.leastChars with wide | narrow
        · have room := (width wide).1
          omega
        · omega
      have signed := closed specified
      rw [to_int_of_small _ bound] at signed
      omega

theorem number_length_positive :
    0 < (numberHead format base (type.value val)).length + (numberDigits base (type.value val)).length := by
  have digits := numeral_nonempty base (type.value val).natAbs
  rw [numberDigits, List.length_reverse]
  omega

theorem condition_of_makes (readable : ReadableType type) (bases : ReadableBase base)
    (makes : Makes usable format type base val (numberWanted format base (type.value val))) :
    NumberCondition usable format type base (type.value val) := by
  obtain ⟨text, final, made, closed, converted, wanted⟩ := makes_field usable format type base val _ makes
  have sign : SignFits type base (type.value val) := by
    by_contra misfit
    obtain ⟨letters, small⟩ := number_text_misfit usable format type base val readable misfit text made
    have minus := wanted_minus format base (type.value val) (Classical.not_imp.mp misfit).1
    rw [← wanted] at minus
    rcases field_letters usable format text final converted small _ minus with inside | zero | space
    · exact absurd (letters _ inside) (by decide)
    · exact absurd zero (by decide)
    · exact absurd space (by decide)
  obtain ⟨printed, chars, textEq⟩ := number_text_eq usable format type base val readable bases sign
  obtain ⟨room, same⟩ := Option.ite_none_right_eq_some.mp (textEq.symm.trans made)
  obtain rfl := Option.some.inj same
  have short := number_length_small format type base val readable bases
  rw [← chars] at short
  have width : WidthRoom usable format printed.chars.length := by
    by_contra full
    rw [field_without_room usable format printed short full] at converted
    cases converted
  obtain ⟨other, justifiedTo, otherChars⟩ := field_justified usable format printed short width
  obtain rfl := Piece.text.inj (Option.some.inj (justifiedTo.symm.trans converted))
  have positive := number_length_positive format type base val
  rw [← List.length_append, ← chars] at positive
  have below := precision_below usable format type base val printed short positive closed width (otherChars.symm.trans wanted)
  rw [wanted, chars] at otherChars
  rw [chars] at room width below
  rw [List.length_append] at below
  exact ⟨sign, room, width, (justified_wanted_iff format base _ bases below).mp otherChars.symm⟩

theorem makes_of_condition (readable : ReadableType type) (bases : ReadableBase base)
    (condition : NumberCondition usable format type base (type.value val)) :
    Makes usable format type base val (numberWanted format base (type.value val)) := by
  intro old
  obtain ⟨text, chars, textEq⟩ := number_text_eq usable format type base val readable bases condition.sign
  rw [chars, if_pos condition.room] at textEq
  have short := number_length_small format type base val readable bases
  have below : format.leastDigits < (numberHead format base (type.value val)).length + (numberDigits base (type.value val)).length := by
    rcases condition.zeros with ⟨fits, _⟩ | coincide
    · exact fits.2
    · have less := coincide.less
      have digits := numeral_nonempty base (type.value val).natAbs
      rw [← List.length_reverse, ← numberDigits] at digits
      omega
  have closed : format.precisionSpecified = true → format.precision.toInt < text.chars.length := by
    intro specified
    rw [Format.leastDigits, if_pos specified] at below
    rw [List.length_append] at short
    rw [to_int_of_small _ (by omega), chars, List.length_append]
    omega
  rw [convert_short usable format type base val old text textEq closed]
  obtain ⟨final, justifiedTo, finalChars⟩ := field_justified usable format text (chars ▸ short) (chars ▸ condition.width)
  refine ⟨final, justifiedTo, ?_⟩
  rw [finalChars, chars]
  exact (justified_wanted_iff format base _ bases below).mpr condition.zeros

theorem makes_wanted_iff (readable : ReadableType type) (bases : ReadableBase base) :
    Makes usable format type base val (numberWanted format base (type.value val)) ↔
      NumberCondition usable format type base (type.value val) :=
  ⟨condition_of_makes usable format type base val readable bases, makes_of_condition usable format type base val readable bases⟩

-- Read unsigned, a negative value is printed without its minus sign; read signed, a large one gets one or is cut to a zero.
theorem makes_other_small (signed : Bool) (bases : ReadableBase base)
    (makes : Makes usable format ⟨64, !signed⟩ base val (numberWanted format base ((⟨64, signed⟩ : IntType).value val))) :
    val.toNat < 2 ^ 63 := by
  by_contra large
  have readable : ReadableType ⟨64, !signed⟩ := .inr (.inr (.inr rfl))
  obtain ⟨negative, positive⟩ := value_large val (Nat.not_lt.mp large)
  obtain ⟨text, final, made, _, fielded, wanted⟩ := makes_field usable format ⟨64, !signed⟩ base val _ makes
  by_cases fits : SignFits ⟨64, !signed⟩ base ((⟨64, !signed⟩ : IntType).value val)
  · obtain ⟨printed, chars, textEq⟩ := number_text_eq usable format ⟨64, !signed⟩ base val readable bases fits
    obtain ⟨_, same⟩ := Option.ite_none_right_eq_some.mp (textEq.symm.trans made)
    obtain rfl := Option.some.inj same
    have short := number_length_small format ⟨64, !signed⟩ base val readable bases
    rw [← chars] at short
    cases signed with
    | true =>
        have minus := wanted_minus format base _ negative
        rw [← wanted] at minus
        rcases field_letters usable format printed final fielded short _ minus with inside | zero | space
        · exact nonnegative_no_minus format base _ bases positive.le (chars ▸ inside)
        · exact absurd zero (by decide)
        · exact absurd space (by decide)
    | false =>
        have minus : chr '-' ∈ printed.chars := by
          rw [chars, numberHead, numberSign, Bool.not_false, if_pos negative]
          exact List.mem_append_left _ (List.mem_append_left _ (List.mem_singleton.mpr rfl))
        have kept := field_keeps usable format printed final fielded short _ minus
        exact wanted_no_minus format base _ bases positive.le (wanted ▸ kept)
  · obtain ⟨letters, short⟩ := number_text_misfit usable format ⟨64, !signed⟩ base val readable fits text made
    cases signed with
    | true => exact absurd (Classical.not_imp.mp fits).1 (Int.not_lt.mpr positive.le)
    | false =>
        -- A digit of the value that is not 0 is printed nowhere.
        obtain ⟨c, digit, other⟩ := nonzero_digit base _ bases positive.ne'
        have member := wanted_digits format base _ c digit
        rw [← wanted] at member
        rcases field_letters usable format text final fielded short c member with inside | rfl | rfl
        · exact other (letters c inside)
        · exact other (by decide)
        · exact other (by decide)

end Converted

section Names

-- What the code reads for a directive.
def readType (specifier : Byte) (length : Length) : IntType :=
  if namesSigned specifier then signedType length else unsignedType length

-- %zd and %zi read a size_t; %tu, %to, %tx and %tX read a ptrdiff_t.
def ReadsOther (specifier : Byte) (length : Length) : Prop := length = if namesSigned specifier then .z else .t

-- Read so, the value is the one that the directive names.
def TypeFits (specifier : Byte) (length : Length) (val : BitVec 64) : Prop := ReadsOther specifier length → val.toNat < 2 ^ 63

theorem named_type_readable (specifier : Byte) (length : Length) : ReadableType (namedType specifier length) := by
  cases length <;> simp [ReadableType, namedType, namedBits]

theorem named_base_readable (specifier : Byte) : ReadableBase (namedBase specifier) := by
  rw [namedBase]
  repeat' split
  · exact .inl rfl
  · exact .inr (.inr rfl)
  · exact .inr (.inl rfl)

theorem read_type_named (specifier : Byte) (length : Length) (same : ¬ ReadsOther specifier length) :
    readType specifier length = namedType specifier length := by
  rw [ReadsOther] at same
  rw [readType, namedType]
  cases signed : namesSigned specifier <;> cases length <;> simp_all [signedType, unsignedType, namedBits]

theorem read_type_other (specifier : Byte) (length : Length) (other : ReadsOther specifier length) :
    namedType specifier length = ⟨64, namesSigned specifier⟩ ∧ readType specifier length = ⟨64, !namesSigned specifier⟩ := by
  obtain rfl : length = _ := other
  rw [readType, namedType]
  cases namesSigned specifier <;> exact ⟨rfl, rfl⟩

theorem read_number_some (format found : Format) (type other : IntType) (base otherBase : Nat) (val : BitVec 64) (args rest : List Arg)
    (read : readNumber format other otherBase args = some (.number found type base val, rest)) :
    found = format ∧ type = other ∧ base = otherBase := by
  obtain ⟨⟨word, after⟩, _, same⟩ := Option.map_eq_some_iff.mp read
  obtain ⟨rfl, rfl, rfl, _⟩ := Directive.number.inj (Prod.mk.inj same).1
  exact ⟨rfl, rfl, rfl⟩

theorem read_specifier_number (format found : Format) (specifier : Byte) (type : IntType) (base : Nat) (val : BitVec 64)
    (args rest : List Arg) (read : readSpecifier format specifier args = some (.number found type base val, rest)) :
    type = readType specifier found.length ∧ base = namedBase specifier := by
  rw [readSpecifier] at read
  by_cases count : specifier = chr 'n'
  · rw [if_pos count] at read
    obtain ⟨_, _, same⟩ := Option.map_eq_some_iff.mp read
    cases same
  rw [if_neg count] at read
  by_cases decimal : specifier = chr 'd' ∨ specifier = chr 'i'
  · rw [if_pos decimal] at read
    obtain ⟨rfl, rfl, rfl⟩ := read_number_some format found type _ base _ val args rest read
    rcases decimal with rfl | rfl <;> exact ⟨rfl, rfl⟩
  rw [if_neg decimal] at read
  by_cases unsigned : specifier = chr 'u'
  · rw [if_pos unsigned] at read
    obtain ⟨rfl, rfl, rfl⟩ := read_number_some format found type _ base _ val args rest read
    exact unsigned ▸ ⟨rfl, rfl⟩
  rw [if_neg unsigned] at read
  by_cases octal : specifier = chr 'o'
  · rw [if_pos octal] at read
    obtain ⟨rfl, rfl, rfl⟩ := read_number_some format found type _ base _ val args rest read
    exact octal ▸ ⟨rfl, rfl⟩
  rw [if_neg octal] at read
  by_cases hex : specifier = chr 'x' ∨ specifier = chr 'X'
  · rw [if_pos hex] at read
    obtain ⟨rfl, rfl, rfl⟩ := read_number_some format found type _ base _ val args rest read
    rcases hex with rfl | rfl <;> exact ⟨rfl, rfl⟩
  rw [if_neg hex] at read
  by_cases character : specifier = chr 'c'
  · rw [if_pos character] at read
    obtain ⟨_, _, same⟩ := Option.map_eq_some_iff.mp read
    have directive := (Prod.mk.inj same).1
    split at directive <;> cases directive
  rw [if_neg character] at read
  by_cases string : specifier = chr 's'
  · rw [if_pos string] at read
    by_cases wide : format.length = .l
    · rw [if_pos wide] at read
      obtain ⟨_, _, same⟩ := Option.map_eq_some_iff.mp read
      cases same
    · rw [if_neg wide] at read
      obtain ⟨_, _, same⟩ := Option.map_eq_some_iff.mp read
      cases same
  rw [if_neg string] at read
  by_cases pointer : specifier = chr 'p'
  · rw [if_pos pointer] at read
    obtain ⟨_, _, same⟩ := Option.map_eq_some_iff.mp read
    cases same
  · rw [if_neg pointer] at read
    cases read

-- The last character of a format that is one integer directive is the letter of the directive.
theorem number_names (fmt : Str) (args : List Arg) (format : Format) (type : IntType) (base : Nat) (val : BitVec 64) (specifier : Byte)
    (matching : directives fmt args = some [.number format type base val]) (letter : fmt.chars.getLast? = some specifier) :
    type = readType specifier format.length ∧ base = namedBase specifier := by
  have read : directivesFrom (fmt.chars.length + 1) ⟨fmt.chars, args⟩ = some [.number format type base val] := matching
  cases chars : fmt.chars with
  | nil =>
      rw [chars] at read
      cases read
  | cons cur rest =>
      rw [chars] at letter
      rw [chars, directivesFrom] at read
      obtain ⟨⟨directive, input⟩, next, more⟩ := Option.bind_eq_some_iff.mp read
      obtain ⟨others, done, same⟩ := Option.map_eq_some_iff.mp more
      obtain ⟨rfl, rfl⟩ := List.cons.inj same
      have ended : input.pos = [] := by
        cases pos : input.pos with
        | nil => rfl
        | cons first later =>
            rw [show input = ⟨first :: later, input.args⟩ from pos ▸ rfl, List.length_cons, directivesFrom] at done
            obtain ⟨_, _, none⟩ := Option.bind_eq_some_iff.mp done
            obtain ⟨_, _, none⟩ := Option.map_eq_some_iff.mp none
            cases none
      rw [nextDirective] at next
      split at next
      · split at next
        · cases Option.some.inj next
        · obtain ⟨front, last, found, left, whole, _, took⟩ := read_conversion_moves rest args _ input next
          rw [whole, ended, ← List.cons_append, List.getLast?_concat] at letter
          obtain rfl := Option.some.inj letter
          exact read_specifier_number found format last type base val left input.args took
      · cases Option.some.inj next

variable (usable : Nat → Nat) (format : Format) (specifier : Byte) (val : BitVec 64)

theorem named_makes_iff : Makes usable format (readType specifier format.length) (namedBase specifier) val
      (numberWanted format (namedBase specifier) ((namedType specifier format.length).value val)) ↔
    TypeFits specifier format.length val ∧ NumberCondition usable format (namedType specifier format.length) (namedBase specifier)
      ((namedType specifier format.length).value val) := by
  have bases := named_base_readable specifier
  by_cases other : ReadsOther specifier format.length
  · obtain ⟨named, read⟩ := read_type_other specifier format.length other
    have readable : ReadableType ⟨64, !namesSigned specifier⟩ := .inr (.inr (.inr rfl))
    rw [named, read]
    by_cases small : val.toNat < 2 ^ 63
    · have same := (value_small_same val small (namesSigned specifier)).trans (value_small_same val small (!namesSigned specifier)).symm
      have natural : ¬ (⟨64, !namesSigned specifier⟩ : IntType).value val < 0 := by
        rw [value_small_same val small]
        exact Int.not_lt.mpr (Int.natCast_nonneg _)
      rw [same, makes_wanted_iff usable format _ _ val readable bases]
      constructor
      · exact fun condition =>
          ⟨fun _ => small, fun negative => absurd negative natural, condition.room, condition.width, condition.zeros⟩
      · exact fun both => ⟨fun negative => absurd negative natural, both.2.room, both.2.width, both.2.zeros⟩
    · constructor
      · exact fun makes => absurd (makes_other_small usable format _ val _ bases makes) small
      · exact fun both => absurd (both.1 other) small
  · rw [read_type_named specifier format.length other, makes_wanted_iff usable format _ _ val (named_type_readable _ _) bases]
    exact (and_iff_right fun reads => absurd reads other).symm

end Names

theorem number_piece (usable : Nat → Nat) (old : List Byte) (format : Format) (type : IntType) (base : Nat) (val : BitVec 64)
    (piece : Piece) (made : convert usable old (.number format type base val) = some piece) : ∃ final, piece = .text final := by
  obtain ⟨_, _, made⟩ := Option.bind_eq_some_iff.mp made
  obtain ⟨_, _, made⟩ := Option.bind_eq_some_iff.mp made
  obtain ⟨final, _, made⟩ := Option.bind_eq_some_iff.mp made
  exact ⟨final, (Option.some.inj (Option.ite_none_right_eq_some.mp made).2).symm⟩

-- The call leaves this text behind out, whatever the blocks of kmalloc held.
def Prints (usable : Nat → Nat) (out : Nat) (fmt : Str) (args : List Arg) (text : List Byte) : Prop :=
  ∀ old, ∃ printed, kvsnprintf usable old out 0 fmt args = some printed ∧ printed.writes = place out (text ++ [0])

theorem prints_makes_iff (usable : Nat → Nat) (out : Nat) (fmt : Str) (args : List Arg) (format : Format) (type : IntType)
    (base : Nat) (val : BitVec 64) (chars : List Byte) (given : out ≠ 0)
    (matching : directives fmt args = some [.number format type base val]) :
    Prints usable out fmt args chars ↔ Makes usable format type base val chars := by
  have written : ∀ old final, convert usable (old 0) (.number format type base val) = some (.text final) →
      ∃ printed, kvsnprintf usable old out 0 fmt args = some printed ∧ printed.writes = place out (final.chars ++ [0]) := by
    intro old final made
    refine ⟨printPieces out 0 [.text final], ?_, ?_⟩
    · rw [kvsnprintf_eq usable old out 0 fmt args _ matching, convertAll, made]
      rfl
    · rw [print_pieces_writes out 0 _ given, shown_unbounded]
      simp [Print.written, Piece.written]
  constructor
  · intro prints old
    obtain ⟨printed, run, writes⟩ := prints fun _ => old
    have converted := run
    rw [kvsnprintf_eq usable _ out 0 fmt args _ matching, convertAll] at converted
    obtain ⟨pieces, made, _⟩ := Option.map_eq_some_iff.mp converted
    obtain ⟨piece, made, _⟩ := Option.bind_eq_some_iff.mp made
    obtain ⟨final, rfl⟩ := number_piece usable old format type base val piece made
    obtain ⟨other, again, text⟩ := written (fun _ => old) final made
    obtain rfl := Option.some.inj (run.symm.trans again)
    exact ⟨final, made, List.append_cancel_right (place_inj out _ _ (text.symm.trans writes))⟩
  · intro makes old
    obtain ⟨final, made, wanted⟩ := makes (old 0)
    obtain ⟨printed, run, text⟩ := written old final made
    exact ⟨printed, run, wanted ▸ text⟩

theorem prints_number_iff (usable : Nat → Nat) (out : Nat) (fmt : Str) (args : List Arg) (format : Format) (type : IntType)
    (base : Nat) (val : BitVec 64) (specifier : Byte) (given : out ≠ 0)
    (matching : directives fmt args = some [.number format type base val]) (letter : fmt.chars.getLast? = some specifier) :
    Prints usable out fmt args (numberWanted format (namedBase specifier) ((namedType specifier format.length).value val)) ↔
      TypeFits specifier format.length val ∧ NumberCondition usable format (namedType specifier format.length) (namedBase specifier)
        ((namedType specifier format.length).value val) := by
  obtain ⟨rfl, rfl⟩ := number_names fmt args format type base val specifier matching letter
  rw [prints_makes_iff usable out fmt args format _ _ val _ given matching]
  exact named_makes_iff usable format specifier val

theorem prefix_and_precision_printed : Prints (fun request => max request 16) 4096 (Str.ofBytes ("%-#8.2x".toList.map chr)) [.word 0x3AB]
    ("0x3AB   ".toList.map chr) :=
  (prints_number_iff (fun request => max request 16) 4096 (Str.ofBytes ("%-#8.2x".toList.map chr)) [.word 0x3AB]
    { leftJustify := true, insertNumer := true, width := 8, widthSpecified := true, precision := 2, precisionSpecified := true }
    ⟨32, false⟩ 16 0x3AB (chr 'x') (by decide) (by decide) (by decide)).mpr
      ⟨fun other => absurd other (by unfold ReadsOther; decide), fun negative => absurd negative (by decide), by decide, fun _ => by decide,
        .inl ⟨⟨by decide, by decide⟩, fun _ padded => absurd padded (by decide)⟩⟩

-- "%06d" of -42: the zeros stand before the sign.
theorem zeros_before_sign :
    kvsnprintf (fun request => max request 16) (fun _ => []) 4096 0 (Str.ofBytes ("%06d".toList.map chr)) [.word (-42)] =
        some ⟨6, place 4096 ("000-42".toList.map chr ++ [0]), []⟩ ∧
      numberWanted { zeroPadding := true, width := 6, widthSpecified := true, precision := 6 } 10 (-42) = "-00042".toList.map chr ∧
      ¬ Prints (fun request => max request 16) 4096 (Str.ofBytes ("%06d".toList.map chr)) [.word (-42)] ("-00042".toList.map chr) := by
  have run : kvsnprintf (fun request => max request 16) (fun _ => []) 4096 0 (Str.ofBytes ("%06d".toList.map chr)) [.word (-42)] =
      some ⟨6, place 4096 ("000-42".toList.map chr ++ [0]), []⟩ := by decide
  refine ⟨run, by decide, fun prints => ?_⟩
  obtain ⟨printed, again, writes⟩ := prints fun _ => []
  obtain rfl := Option.some.inj (run.symm.trans again)
  exact absurd writes (by decide)

end Kraftwerk.Print
