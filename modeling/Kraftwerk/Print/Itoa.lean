import Kraftwerk.Lib.CString
import Mathlib.Data.Nat.Digits.Defs

set_option autoImplicit false

-- The integer conversions of os/include/interface/print.h. A temporary is a block of
-- kmalloc; usable gives the room in the block that kmalloc returns for a request.
namespace Kraftwerk.Print

open CString

def alphanumeric : List Byte := "0123456789ABCDEFGHIJKLMNOPQRSTUVWXYZ".toList.map chr

structure IntType where
  bits : Nat
  signed : Bool
deriving DecidableEq, Repr

def IntType.value (type : IntType) (word : BitVec 64) : Int :=
  if type.signed then (word.setWidth type.bits).toInt else (word.setWidth type.bits).toNat

def IntType.convert (type : IntType) (num : Int) : Int := type.value (BitVec.ofInt 64 num)

def getNDigitsFrom (base : Nat) : Nat → Int → Nat
  | 0, _ => 0
  | fuel + 1, num => if 0 < num then getNDigitsFrom base fuel (num.tdiv base) + 1 else 0

def getNDigits (num : Int) (base : Nat) : Nat := getNDigitsFrom base num.toNat num

-- The do-while loop over the digits. An index before alphanumeric is a read outside of it.
def itoaDigitsFrom (base : Nat) : Nat → Int → Option (List Byte)
  | 0, _ => none
  | fuel + 1, num =>
      if num.tmod base < 0 then none
      else
        (alphanumeric[(num.tmod base).toNat]?).bind (fun digit =>
          if 0 < num.tdiv base then (itoaDigitsFrom base fuel (num.tdiv base)).map (digit :: ·) else some [digit])

def itoaDigits (num : Int) (base : Nat) : Option (List Byte) := itoaDigitsFrom base (num.toNat + 1) num

def numeral (base num : Nat) : List Byte :=
  if num = 0 then [chr '0'] else (Nat.digits base num).map (fun digit => alphanumeric.getD digit 0)

theorem numeral_step (base num : Nat) (large : 2 ≤ base) (more : 0 < num / base) :
    numeral base num = alphanumeric.getD (num % base) 0 :: numeral base (num / base) := by
  have positive : 0 < num := Nat.pos_of_ne_zero (fun zero => by simp [zero] at more)
  rw [numeral, numeral, if_neg positive.ne', if_neg more.ne', Nat.digits_def' large positive, List.map_cons]

theorem numeral_last (base num : Nat) (large : 2 ≤ base) (last : num / base = 0) :
    numeral base num = [alphanumeric.getD (num % base) 0] := by
  by_cases zero : num = 0
  · subst zero
    rw [numeral, if_pos rfl, Nat.zero_mod]
    rfl
  · rw [numeral, if_neg zero, Nat.digits_def' large (Nat.pos_of_ne_zero zero), last, Nat.digits_zero, List.map_singleton]

theorem itoa_digits_from_nat (base fuel num : Nat) (large : 2 ≤ base) (small : base ≤ 36) (enough : num < fuel) :
    itoaDigitsFrom base fuel num = some (numeral base num) := by
  induction fuel generalizing num with
  | zero => exact absurd enough (Nat.not_lt_zero num)
  | succ fuel ih =>
      have remainder : (num : Int).tmod base = ((num % base : Nat) : Int) := rfl
      have quotient : (num : Int).tdiv base = ((num / base : Nat) : Int) := rfl
      have digit : alphanumeric[num % base]? = some (alphanumeric.getD (num % base) 0) := by
        have inside : num % base < alphanumeric.length := by
          have below : num % base < base := Nat.mod_lt _ (by omega)
          have length : alphanumeric.length = 36 := by decide
          omega
        rw [List.getD_eq_getElem?_getD, List.getElem?_eq_getElem inside, Option.getD_some]
      rw [itoaDigitsFrom, remainder, quotient, if_neg (Int.not_lt.mpr (Int.natCast_nonneg _)), Int.toNat_natCast, digit,
        Option.bind_some]
      by_cases more : 0 < num / base
      · have less : num / base < num := Nat.div_lt_self (by by_contra zero; simp_all) large
        rw [if_pos (Int.natCast_pos.mpr more), ih (num / base) (by omega), numeral_step base num large more, Option.map_some]
      · rw [if_neg (by rwa [Int.natCast_pos]), numeral_last base num large (Nat.eq_zero_of_not_pos more)]

theorem itoa_digits_nat (base num : Nat) (large : 2 ≤ base) (small : base ≤ 36) :
    itoaDigits num base = some (numeral base num) :=
  itoa_digits_from_nat base (num + 1) num large small (Nat.lt_succ_self num)

theorem itoa_digits_negative (base num : Nat) (rest : num % base ≠ 0) : itoaDigits (-num) base = none := by
  have negative : (-(num : Int)).tmod base < 0 := by
    rw [Int.neg_tmod]
    exact Int.neg_neg_of_pos (Int.natCast_pos.mpr (Nat.pos_of_ne_zero rest))
  rw [itoaDigits, itoaDigitsFrom, if_pos negative]

def itoaPrefix (base : Nat) : List Byte :=
  if base = 8 then [chr '0'] else if base = 16 then [chr 'x', chr '0'] else []

def itoaSign (neg addSpace addPlus : Bool) : List Byte :=
  if neg then [chr '-'] else if addSpace then [chr ' '] else if addPlus then [chr '+'] else []

def itoaRequest (num : Int) (base : Nat) (neg addSpace addPlus addPrefix : Bool) : Nat :=
  getNDigits num base + (1 + (if addSpace || addPlus || neg then 1 else 0) + (if addPrefix && base == 8 then 1 else 0) +
    (if addPrefix && base == 16 then 2 else 0))

-- The terminated text, or none when the loop reads outside of alphanumeric or the text
-- with its NUL is longer than the block.
def itoa (usable : Nat → Nat) (type : IntType) (num : Int) (base : Nat) (addSpace addPlus addPrefix : Bool) : Option Str :=
  let neg := num < 0 && base == 10
  (itoaDigits (if neg then type.convert (-num) else num) base).bind (fun digits =>
    let str := digits ++ (if addPrefix then itoaPrefix base else []) ++ itoaSign neg addSpace addPlus
    if str.length < usable (itoaRequest num base neg addSpace addPlus addPrefix) then some (Str.ofBytes str.reverse)
    else none)

example : (itoa (fun n => max n 16) ⟨32, true⟩ (-123) 10 false false false).map (·.chars) = some ("-123".toList.map chr) := by
  decide

example : itoa (fun n => max n 16) ⟨32, true⟩ (-2147483648) 10 false false false = none := by decide

end Kraftwerk.Print
