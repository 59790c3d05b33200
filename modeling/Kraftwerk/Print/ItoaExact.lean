import Kraftwerk.Print.ItoaBlock
import Kraftwerk.Print.NumberText

set_option autoImplicit false

-- What itoa writes to its block, for every type, value and base.
namespace Kraftwerk.Print

open CString

-- The digits of a number, the highest first.
structure NumeralOf (base num : Nat) (digits : List Nat) : Prop where
  below : ∀ digit ∈ digits, digit < base
  value : Nat.ofDigits base digits.reverse = num
  leading : digits = [0] ∨ ∃ first rest, digits = first :: rest ∧ first ≠ 0

def letterOf (digit : Nat) : Byte := alphanumeric.getD digit 0

def IndexesInside (block : ItoaBlock) : Prop := ∀ index ∈ block.indices, 0 ≤ index ∧ index < alphanumeric.length

def prefixText (base : Nat) (addPrefix : Bool) : List Byte :=
  if !addPrefix then [] else if base = 8 then "0".toList.map chr else if base = 16 then "0x".toList.map chr else []

section Text

variable (outside : Int → Byte) (old : Nat → Byte) (type : IntType) (num : Int) (base : Nat) (addSpace addPlus addPrefix : Bool)

theorem numeral_of_digits (count : Nat) (large : 2 ≤ base) :
    NumeralOf base count (if count = 0 then [0] else Nat.digits base count).reverse := by
  by_cases zero : count = 0
  · subst zero
    refine ⟨fun digit member => ?_, by simp, .inl rfl⟩
    rw [List.mem_singleton.mp member]
    omega
  · rw [if_neg zero]
    refine ⟨fun digit member => Nat.digits_lt_base large (List.mem_reverse.mp member), ?_, .inr ?_⟩
    · rw [List.reverse_reverse, Nat.ofDigits_digits]
    · have nonempty : Nat.digits base count ≠ [] := Nat.digits_ne_nil_iff_ne_zero.mpr zero
      refine ⟨_, _, (congrArg List.reverse (List.dropLast_append_getLast nonempty).symm).trans List.reverse_concat, ?_⟩
      exact Nat.getLast_digit_ne_zero base zero

theorem letter_nonzero (digit : Nat) (small : digit < 36) : letterOf digit ≠ 0 := by
  revert digit
  decide

theorem letter_at (digit : Nat) (small : digit < 36) : alphanumericAt outside digit = letterOf digit := by
  have length : alphanumeric.length = 36 := by decide
  rw [alphanumericAt, if_pos ⟨Int.natCast_nonneg _, by rw [length]; omega⟩, Int.toNat_natCast, letterOf]

theorem prefix_text_reversed : (if addPrefix then itoaPrefix base else []).reverse = prefixText base addPrefix := by
  rw [prefixText, itoaPrefix]
  cases addPrefix with
  | false => rfl
  | true =>
      rw [if_pos rfl, Bool.not_true, if_neg Bool.false_ne_true]
      repeat' split
      all_goals rfl

theorem head_nonzero (neg : Bool) (c : Byte) (member : c ∈ itoaSign neg addSpace addPlus ++ prefixText base addPrefix) : c ≠ 0 := by
  have sign : ∀ c ∈ itoaSign neg addSpace addPlus, c ≠ 0 := by
    rw [itoaSign]
    repeat' split
    all_goals simp [chr]
  have front : ∀ c ∈ prefixText base addPrefix, c ≠ 0 := by
    rw [prefixText]
    repeat' split
    all_goals simp [chr]
  rcases List.mem_append.mp member with inside | inside
  · exact sign c inside
  · exact front c inside

-- Where the digit loop starts from a number that is not negative.
theorem itoa_text (count : Nat) (start : startNumber type num base = count) (large : 2 ≤ base) (small : base ≤ 36) :
    ∃ (block : ItoaBlock) (digits : List Nat) (text : Str),
      itoaBlock outside old type num base addSpace addPlus addPrefix = some block ∧ IndexesInside block ∧
        NumeralOf base count digits ∧ text.HeldBy block.str.bytes ∧
          text.chars = itoaSign (isNegative num base) addSpace addPlus ++ prefixText base addPrefix ++ digits.map letterOf := by
  obtain ⟨lows, lowsEq⟩ : ∃ lows, lows = if count = 0 then [0] else Nat.digits base count := ⟨_, rfl⟩
  have numeral := numeral_of_digits base count large
  rw [← lowsEq] at numeral
  have below : ∀ digit ∈ lows, digit < 36 := fun digit member =>
    Nat.lt_of_lt_of_le (numeral.below digit (List.mem_reverse.mpr member)) small
  obtain ⟨block, made⟩ := itoa_block_made outside old type num base addSpace addPlus addPrefix (lows.map Nat.cast) (by
    rw [start, lowsEq]
    exact remainders_nat base _ count large (Nat.lt_succ_self count))
  have letters : (lows.map Nat.cast).map (alphanumericAt outside) = lows.map letterOf := by
    rw [List.map_map]
    exact List.map_congr_left (fun digit member => letter_at outside digit (below digit member))
  have reversed : (itoaChars outside num base addSpace addPlus addPrefix (lows.map Nat.cast)).reverse =
      itoaSign (isNegative num base) addSpace addPlus ++ prefixText base addPrefix ++ lows.reverse.map letterOf := by
    rw [itoaChars, letters, List.reverse_append, List.reverse_append, itoa_sign_reversed, prefix_text_reversed, ← List.map_reverse,
      List.append_assoc]
  have nonzero : ∀ c ∈ itoaSign (isNegative num base) addSpace addPlus ++ prefixText base addPrefix ++ lows.reverse.map letterOf,
      c ≠ 0 := by
    intro c member
    rcases List.mem_append.mp member with head | letter
    · exact head_nonzero base addSpace addPlus addPrefix _ c head
    · obtain ⟨digit, inside, rfl⟩ := List.mem_map.mp letter
      exact letter_nonzero digit (below digit (List.mem_reverse.mp inside))
  have spelled := made.text (fun c member => nonzero c (by rw [← reversed]; exact List.mem_reverse.mpr member))
  rw [reversed] at spelled
  refine ⟨block, lows.reverse, ⟨_, nonzero⟩, made.made, fun index member => ?_, numeral, spelled, rfl⟩
  rw [made.indices] at member
  obtain ⟨digit, inside, rfl⟩ := List.mem_map.mp (List.mem_reverse.mp member)
  have length : alphanumeric.length = 36 := by decide
  exact ⟨Int.natCast_nonneg digit, by rw [length]; exact Int.ofNat_lt.mpr (below digit inside)⟩

theorem itoa_digits_remainders (fuel : Nat) (start : Int) (digits : List Byte) (read : itoaDigitsFrom base fuel start = some digits) :
    ∃ indices, remainders base fuel start = some indices ∧ (∀ index ∈ indices, 0 ≤ index ∧ index < alphanumeric.length) ∧
      digits = indices.map (alphanumericAt outside) := by
  induction fuel generalizing start digits with
  | zero => cases read
  | succ fuel ih =>
      rw [itoaDigitsFrom] at read
      obtain ⟨notBefore, read⟩ := Option.ite_none_left_eq_some.mp read
      obtain ⟨digit, here, read⟩ := Option.bind_eq_some_iff.mp read
      obtain ⟨below, value⟩ := List.getElem?_eq_some_iff.mp here
      have inside : 0 ≤ start.tmod base ∧ start.tmod base < alphanumeric.length := ⟨by omega, by omega⟩
      have letter : digit = alphanumericAt outside (start.tmod base) := by
        rw [alphanumericAt, if_pos inside, List.getD_eq_getElem?_getD, here, Option.getD_some]
      rw [remainders]
      by_cases more : 0 < start.tdiv base
      · rw [if_pos more] at read ⊢
        obtain ⟨rest, later, rfl⟩ := Option.map_eq_some_iff.mp read
        obtain ⟨indices, remains, all, rfl⟩ := ih _ rest later
        exact ⟨_ :: indices, by rw [remains]; rfl, List.forall_mem_cons.mpr ⟨inside, all⟩, by rw [letter]; rfl⟩
      · rw [if_neg more] at read ⊢
        obtain rfl := Option.some.inj read
        exact ⟨[_], rfl, fun index member => by rw [List.mem_singleton.mp member]; exact inside, by rw [letter]; rfl⟩

-- Where the text of the conversions is made, it is the one in the block, and the block has room for it.
theorem itoa_agrees (usable : Nat → Nat) (text : Str) (done : itoa usable type num base addSpace addPlus addPrefix = some text) :
    ∃ block, itoaBlock outside old type num base addSpace addPlus addPrefix = some block ∧ IndexesInside block ∧
      text.HeldBy block.str.bytes ∧ block.str.bytesWritten ≤ usable block.request := by
  obtain ⟨digits, read, rest⟩ := Option.bind_eq_some_iff.mp done
  obtain ⟨indices, remains, all, rfl⟩ := itoa_digits_remainders outside base _ _ digits read
  obtain ⟨block, made⟩ := itoa_block_made outside old type num base addSpace addPlus addPrefix indices remains
  obtain ⟨short, chars⟩ := Option.ite_none_right_eq_some.mp rest
  obtain rfl := Option.some.inj chars
  have nonzero : ∀ c ∈ itoaChars outside num base addSpace addPlus addPrefix indices, c ≠ 0 := by
    intro c member
    rw [itoaChars, List.append_assoc] at member
    rcases List.mem_append.mp member with letter | head
    · obtain ⟨index, inside, rfl⟩ := List.mem_map.mp letter
      obtain ⟨notBefore, below⟩ := all index inside
      have length : alphanumeric.length = 36 := by decide
      rw [alphanumericAt, if_pos (all index inside)]
      exact letter_nonzero index.toNat (by omega)
    · refine head_nonzero base addSpace addPlus addPrefix (isNegative num base) c ?_
      rw [← prefix_text_reversed, ← itoa_sign_reversed, ← List.reverse_append]
      exact List.mem_reverse.mpr head
  have held : (Str.ofBytes (itoaChars outside num base addSpace addPlus addPrefix indices).reverse).HeldBy block.str.bytes := by
    rw [Str.HeldBy, of_bytes_chars _ (fun c member => nonzero c (List.mem_reverse.mp member))]
    exact made.text nonzero
  refine ⟨block, made.made, fun index member => ?_, held, ?_⟩
  · rw [made.indices] at member
    exact all index (List.mem_reverse.mp member)
  · rw [Buffer.bytes_written_range block.str _ made.writes, made.request]
    exact short

end Text

-- The string that itoa returns for an unsigned value, and where it reads alphanumeric.
def ItoaExact (outside : Int → Byte) (old : Nat → Byte) (bits : Nat) (num : BitVec bits) (base : Nat)
    (addSpace addPlus addPrefix : Bool) : Prop :=
  ∃ (block : ItoaBlock) (digits : List Nat) (text : Str),
    itoaBlock outside old ⟨bits, false⟩ num.toNat base addSpace addPlus addPrefix = some block ∧ IndexesInside block ∧
      NumeralOf base num.toNat digits ∧ text.HeldBy block.str.bytes ∧
        text.chars = (if addSpace then [chr ' '] else if addPlus then [chr '+'] else []) ++ prefixText base addPrefix ++
          digits.map letterOf

theorem itoa_unsigned_exact (outside : Int → Byte) (old : Nat → Byte) (bits : Nat) (num : BitVec bits) (base : Nat)
    (addSpace addPlus addPrefix : Bool) (large : 2 ≤ base) (small : base ≤ 36) :
    ItoaExact outside old bits num base addSpace addPlus addPrefix := by
  have positive : isNegative (num.toNat : Int) base = false := by
    rw [isNegative, decide_eq_false (Int.not_lt.mpr (Int.natCast_nonneg _)), Bool.false_and]
  have start : startNumber ⟨bits, false⟩ (num.toNat : Int) base = (num.toNat : Int) := by
    rw [startNumber, positive, if_neg Bool.false_ne_true]
  obtain ⟨block, digits, text, made, inside, numeral, held, chars⟩ :=
    itoa_text outside old ⟨bits, false⟩ num.toNat base addSpace addPlus addPrefix num.toNat start large small
  rw [positive] at chars
  exact ⟨block, digits, text, made, inside, numeral, held, chars⟩

theorem word_in_base_36_exact : ItoaExact (fun _ => 0) (fun _ => 0) 64 0xFFFFFFFFFFFFFFFF 36 true true true :=
  itoa_unsigned_exact (fun _ => 0) (fun _ => 0) 64 0xFFFFFFFFFFFFFFFF 36 true true true (by decide) (by decide)

-- The block has room for all that is written, each byte counted once.
def WithinRequest (outside : Int → Byte) (old : Nat → Byte) (type : IntType) (num : Int) (base : Nat)
    (addSpace addPlus addPrefix : Bool) : Prop :=
  ∃ block, itoaBlock outside old type num base addSpace addPlus addPrefix = some block ∧ block.str.bytesWritten ≤ block.request

section Request

variable (outside : Int → Byte) (type : IntType) (num : Int) (base : Nat) (addSpace addPlus addPrefix : Bool)

theorem n_digits_from_digits (fuel count : Nat) (large : 2 ≤ base) (enough : count ≤ fuel) :
    getNDigitsFrom base fuel count = (Nat.digits base count).length := by
  induction fuel generalizing count with
  | zero =>
      obtain rfl := Nat.le_zero.mp enough
      rw [Nat.digits_zero]
      rfl
  | succ fuel ih =>
      rw [getNDigitsFrom]
      by_cases zero : count = 0
      · rw [zero, Nat.digits_zero]
        rfl
      · have positive := Nat.pos_of_ne_zero zero
        have less : count / base < count := Nat.div_lt_self positive large
        rw [if_pos (Int.natCast_pos.mpr positive), show (count : Int).tdiv base = ((count / base : Nat) : Int) from rfl,
          ih (count / base) (by omega), Nat.digits_def' large positive, List.length_cons]

theorem n_digits_nonpositive (nonpositive : num ≤ 0) : getNDigits num base = 0 := by
  rw [getNDigits, Int.toNat_of_nonpos nonpositive]
  rfl

-- The characters beside the digits are those that additional counts.
theorem itoa_chars_length (digits : List Int) :
    (itoaChars outside num base addSpace addPlus addPrefix digits).length + 1 + getNDigits num base =
      digits.length + itoaRequest num base (isNegative num base) addSpace addPlus addPrefix := by
  have sign : (itoaSign (isNegative num base) addSpace addPlus).length =
      if addSpace || addPlus || isNegative num base then 1 else 0 := by
    rw [itoaSign]
    cases isNegative num base <;> cases addSpace <;> cases addPlus <;> rfl
  have front : (if addPrefix then itoaPrefix base else []).length =
      (if addPrefix && base == 8 then 1 else 0) + (if addPrefix && base == 16 then 2 else 0) := by
    rw [itoaPrefix]
    cases addPrefix with
    | false => rfl
    | true =>
        by_cases octal : base = 8
        · subst octal
          rfl
        · by_cases hex : base = 16
          · subst hex
            rfl
          · simp [octal, hex]
  rw [itoaChars, List.length_append, List.length_append, List.length_map, sign, front, itoaRequest]
  omega

end Request

theorem within_request_iff (outside : Int → Byte) (old : Nat → Byte) (type : IntType) (num : Int) (base : Nat)
    (addSpace addPlus addPrefix : Bool) (bases : ReadableBase base) :
    WithinRequest outside old type num base addSpace addPlus addPrefix ↔ 0 < num := by
  have large := (readable_base_bounds base bases).1
  obtain ⟨digits, remains, nonempty⟩ := remainders_some base (startNumber type num base) large
  obtain ⟨block, made⟩ := itoa_block_made outside old type num base addSpace addPlus addPrefix digits remains
  have written := Buffer.bytes_written_range block.str _ made.writes
  have balance := itoa_chars_length outside num base addSpace addPlus addPrefix digits
  have fits : WithinRequest outside old type num base addSpace addPlus addPrefix ↔ digits.length ≤ getNDigits num base := by
    constructor
    · rintro ⟨other, otherMade, short⟩
      obtain rfl := Option.some.inj (made.made.symm.trans otherMade)
      rw [written, made.request] at short
      omega
    · intro short
      refine ⟨block, made.made, ?_⟩
      rw [written, made.request]
      omega
  rw [fits]
  constructor
  · intro short
    by_contra nonpositive
    rw [n_digits_nonpositive num base (Int.not_lt.mp nonpositive)] at short
    omega
  · intro positive
    obtain ⟨count, rfl⟩ := Int.eq_ofNat_of_zero_le (Int.le_of_lt positive)
    have start : startNumber type (count : Int) base = (count : Int) := by
      rw [startNumber, isNegative, decide_eq_false (Int.not_lt.mpr (Int.le_of_lt positive)), Bool.false_and,
        if_neg Bool.false_ne_true]
    have nonzero : count ≠ 0 := (Int.natCast_pos.mp positive).ne'
    rw [start, Int.toNat_natCast, remainders_nat base _ count large (Nat.lt_succ_self count), if_neg nonzero] at remains
    obtain rfl := Option.some.inj remains
    rw [List.length_map, getNDigits, Int.toNat_natCast, n_digits_from_digits base count count large (Nat.le_refl _)]

theorem largest_short_within_request :
    WithinRequest (fun _ => 0) (fun _ => 0) ⟨16, true⟩ 32767 16 false true true :=
  (within_request_iff (fun _ => 0) (fun _ => 0) ⟨16, true⟩ 32767 16 false true true (.inr (.inr rfl))).mpr (by decide)

-- For 0 one byte is requested, and the digit and the NUL are written.
theorem zero_outside_request : ¬ WithinRequest (fun _ => 0) (fun _ => 0) ⟨32, true⟩ 0 10 false false false := by
  rintro ⟨block, made, short⟩
  have sizes : (itoaBlock (fun _ => 0) (fun _ => 0) ⟨32, true⟩ 0 10 false false false).map
      (fun block => (block.str.bytesWritten, block.request)) = some (2, 1) := by decide
  rw [made] at sizes
  obtain ⟨written, request⟩ := Prod.mk.inj (Option.some.inj sizes)
  rw [written, request] at short
  exact absurd short (by decide)

-- The signed types that atoi can give back.
inductive SmallSigned where
  | signedChar | short | int
deriving DecidableEq, Repr

def SmallSigned.type : SmallSigned → IntType
  | .signedChar => ⟨8, true⟩
  | .short => ⟨16, true⟩
  | .int => ⟨32, true⟩

-- itoa stays inside of alphanumeric, and atoi reads the number back from its string.
def RoundTrips (outside : Int → Byte) (old : Nat → Byte) (type : IntType) (num : Int) : Prop :=
  ∃ block n fuel, itoaBlock outside old type num 10 false false false = some block ∧ IndexesInside block ∧
    atoi fuel block.str.bytes = some n ∧ n.toInt = num

section RoundTrip

theorem digit_letter (digit : Nat) (small : digit < 10) :
    digitToInt (letterOf digit) = BitVec.ofNat 32 digit ∧ letterOf digit ≠ chr '-' := by
  revert digit
  decide

theorem atoi_from_spells (bytes : Nat → Byte) (i value : Nat) (digits : List Nat) (small : ∀ digit ∈ digits, digit < 10)
    (spelled : Spells bytes i (digits.map letterOf)) :
    atoiFrom bytes digits.length i (BitVec.ofNat 32 value) =
      BitVec.ofNat 32 (digits.foldl (fun number digit => number * 10 + digit) value) := by
  induction digits generalizing i value with
  | nil => rfl
  | cons digit rest ih =>
      obtain ⟨here, later⟩ := spelled
      obtain ⟨below, smallRest⟩ := List.forall_mem_cons.mp small
      have next : BitVec.ofNat 32 value * 10 + digitToInt (bytes i) = BitVec.ofNat 32 (value * 10 + digit) := by
        rw [here, (digit_letter digit below).1, BitVec.ofNat_add, BitVec.ofNat_mul]
        rfl
      rw [List.length_cons, atoiFrom, next, List.foldl_cons]
      exact ih (i + 1) _ smallRest later

theorem of_digits_foldl (digits : List Nat) :
    digits.foldl (fun number digit => number * 10 + digit) 0 = Nat.ofDigits 10 digits.reverse := by
  rw [Nat.ofDigits_eq_foldr, List.foldr_reverse]
  refine congrFun (congrFun (congrArg List.foldl ?_) 0) digits
  funext number digit
  rw [Nat.cast_id, Nat.mul_comm, Nat.add_comm]

-- A sign and the digits of a number are read back.
theorem atoi_held (bytes : Nat → Byte) (neg : Bool) (count : Nat) (digits : List Nat) (text : Str) (numeral : NumeralOf 10 count digits)
    (held : text.HeldBy bytes) (chars : text.chars = (if neg then [chr '-'] else []) ++ digits.map letterOf) :
    atoi (text.chars.length + 1) bytes = some (if neg then -BitVec.ofNat 32 count else BitVec.ofNat 32 count) := by
  have length := strlen_held text bytes (text.chars.length + 1) held (Nat.lt_succ_self _)
  have value := of_digits_foldl digits
  rw [numeral.value] at value
  have spelled := held
  rw [Str.HeldBy, chars, List.append_assoc] at spelled
  obtain ⟨sign, behind⟩ := (spells_append bytes 0 _ _).mp spelled
  obtain ⟨letters, _⟩ := (spells_append bytes _ _ _).mp behind
  have read := atoi_from_spells bytes _ 0 digits numeral.below letters
  rw [value] at read
  have first : (bytes 0 == chr '-') = neg := by
    cases neg with
    | true => rw [sign.1]; rfl
    | false =>
        obtain ⟨first, rest, shape⟩ : ∃ first rest, digits = first :: rest := by
          rcases numeral.leading with zero | ⟨first, rest, shape, _⟩
          · exact ⟨0, [], zero⟩
          · exact ⟨first, rest, shape⟩
        rw [shape] at letters
        have other := (digit_letter first (numeral.below first (by rw [shape]; exact List.mem_cons_self))).2
        rw [← letters.1] at other
        exact beq_eq_false_iff_ne.mpr other
  rw [atoi, length, Option.map_some]
  dsimp only
  rw [first, chars]
  cases neg with
  | true =>
      have left : ([chr '-'] ++ digits.map letterOf).length - 1 = digits.length := by simp
      rw [if_pos rfl, if_pos rfl, if_pos rfl, if_pos rfl, left]
      exact congrArg (fun n => some (-n)) read
  | false =>
      have left : (digits.map letterOf).length - 0 = digits.length := by simp
      rw [if_neg Bool.false_ne_true, if_neg Bool.false_ne_true, if_neg Bool.false_ne_true, if_neg Bool.false_ne_true, List.nil_append,
        left]
      exact congrArg some read

theorem small_signed_bounds (kind : SmallSigned) (val : BitVec 64) :
    -2 ^ (kind.type.bits - 1) ≤ kind.type.value val ∧ kind.type.value val < 2 ^ 31 ∧ (2 : Int) ^ (kind.type.bits - 1) ≤ 2 ^ 31 := by
  cases kind <;> simp only [SmallSigned.type, IntType.value, if_true, BitVec.toInt_eq_toNat_cond] <;> omega

theorem small_signed_readable (kind : SmallSigned) : ReadableType kind.type := by
  cases kind with
  | signedChar => exact .inl rfl
  | short => exact .inr (.inl rfl)
  | int => exact .inr (.inr (.inl rfl))

theorem small_to_int (count : Nat) (small : count < 2 ^ 31) :
    (BitVec.ofNat 32 count).toInt = count ∧ (-BitVec.ofNat 32 count).toInt = -count := by
  have value : (BitVec.ofNat 32 count).toInt = count := by
    rw [BitVec.toInt_eq_toNat_of_lt (by rw [BitVec.toNat_ofNat]; omega), BitVec.toNat_ofNat]
    omega
  refine ⟨value, ?_⟩
  rw [BitVec.toInt_neg, value, Int.bmod]
  omega

-- The smallest value is its own negation, and its first remainder is negative.
theorem least_index_outside (kind : SmallSigned) : (-2 ^ (kind.type.bits - 1) : Int).tmod 10 < 0 := by
  cases kind <;> decide

end RoundTrip

theorem round_trips_iff (outside : Int → Byte) (old : Nat → Byte) (kind : SmallSigned) (val : BitVec 64) :
    RoundTrips outside old kind.type (kind.type.value val) ↔ kind.type.value val ≠ -2 ^ (kind.type.bits - 1) := by
  have readable := small_signed_readable kind
  obtain ⟨least, less, power⟩ := small_signed_bounds kind val
  constructor
  · rintro ⟨block, n, fuel, done, inside, _⟩ same
    have negative : kind.type.value val < 0 := by
      rw [same]
      exact Int.neg_neg_of_pos (by positivity)
    have start : startNumber kind.type (kind.type.value val) 10 = kind.type.value val := by
      rw [startNumber, isNegative, decide_eq_true negative]
      rw [if_pos (by rfl), convert_negated kind.type val readable negative, if_pos same]
    obtain ⟨other, made⟩ := itoa_block_made outside old kind.type (kind.type.value val) 10 false false false _ (by
      rw [start]
      exact remainders_negative 10 _ _ negative)
    obtain rfl := Option.some.inj (made.made.symm.trans done)
    have first := (inside ((kind.type.value val).tmod 10) (by rw [made.indices]; simp)).1
    rw [same] at first
    exact absurd (least_index_outside kind) (Int.not_lt.mpr first)
  · intro notLeast
    obtain ⟨count, countEq⟩ : ∃ count : Nat, count = (kind.type.value val).natAbs := ⟨_, rfl⟩
    have small : count < 2 ^ 31 := by omega
    have start : startNumber kind.type (kind.type.value val) 10 = count := by
      rw [startNumber, isNegative]
      by_cases negative : kind.type.value val < 0
      · rw [decide_eq_true negative, if_pos (by rfl), convert_negated kind.type val readable negative, if_neg notLeast]
        omega
      · rw [decide_eq_false negative, Bool.false_and, if_neg Bool.false_ne_true]
        omega
    obtain ⟨block, digits, text, made, inside, numeral, held, chars⟩ :=
      itoa_text outside old kind.type (kind.type.value val) 10 false false false count start (by decide) (by decide)
    have sign : itoaSign (isNegative (kind.type.value val) 10) false false ++ prefixText 10 false =
        if decide (kind.type.value val < 0) then [chr '-'] else [] := by
      rw [isNegative, itoaSign]
      cases decide (kind.type.value val < 0) <;> rfl
    rw [sign] at chars
    refine ⟨block, _, _, made, inside, atoi_held block.str.bytes _ count digits text numeral held chars, ?_⟩
    obtain ⟨plus, minus⟩ := small_to_int count small
    by_cases negative : kind.type.value val < 0
    · rw [decide_eq_true negative, if_pos rfl, minus]
      omega
    · rw [decide_eq_false negative, if_neg Bool.false_ne_true, plus]
      omega

-- The digit loop starts from -128 and reads alphanumeric[-8].
theorem least_signed_char_outside : ¬ RoundTrips (fun _ => 0) (fun _ => 0) SmallSigned.signedChar.type (-128) := by
  rintro ⟨block, n, fuel, made, inside, _⟩
  have indices : (itoaBlock (fun _ => 0) (fun _ => 0) SmallSigned.signedChar.type (-128) 10 false false false).map (·.indices) =
      some [-8] := by decide
  rw [made] at indices
  have same : block.indices = [-8] := Option.some.inj indices
  have first := inside (-8) (by rw [same]; exact List.mem_singleton_self _)
  exact absurd first (by decide)

end Kraftwerk.Print
