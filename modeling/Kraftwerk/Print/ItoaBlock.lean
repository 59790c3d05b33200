import Kraftwerk.Lib.Buffer
import Kraftwerk.Print.Directives
import Mathlib.Data.Nat.Digits.Lemmas

set_option autoImplicit false

-- itoa, reverse and atoi over the bytes of their blocks. outside gives what is read at an
-- index outside of alphanumeric.
namespace Kraftwerk.Print

open CString

def strlenFrom (str : Nat → Byte) : Nat → Nat → Option Nat
  | 0, _ => none
  | fuel + 1, i => if str i = 0 then some i else strlenFrom str fuel (i + 1)

def strlen (fuel : Nat) (str : Nat → Byte) : Option Nat := strlenFrom str fuel 0

-- For an empty string j is -1 in the code; 0 ends the loop as well.
def reverseFrom : Nat → Nat → Nat → Buffer → Option Buffer
  | 0, _, _, _ => none
  | fuel + 1, i, j, str =>
      if i < j then reverseFrom fuel (i + 1) (j - 1) ((str.write i (str.bytes j)).write j (str.bytes i)) else some str

def reverse (fuel : Nat) (str : Buffer) : Option Buffer :=
  (strlen fuel str.bytes).bind (fun length => reverseFrom (length + 1) 0 (length - 1) str)

def alphanumericAt (outside : Int → Byte) (index : Int) : Byte :=
  if 0 ≤ index ∧ index < alphanumeric.length then alphanumeric.getD index.toNat 0 else outside index

-- str and len of itoa, with the indices into alphanumeric so far.
structure Written where
  str : Buffer
  len : Nat
  indices : List Int

def Written.put (written : Written) (cur : Byte) : Written :=
  { written with str := written.str.write written.len cur, len := written.len + 1 }

def putDigits (outside : Int → Byte) (base : Nat) : Nat → Int → Written → Option Written
  | 0, _, _ => none
  | fuel + 1, num, written =>
      let index := num.tmod base
      let written := { written.put (alphanumericAt outside index) with indices := index :: written.indices }
      if 0 < num.tdiv base then putDigits outside base fuel (num.tdiv base) written else some written

def putPrefix (base : Nat) (addPrefix : Bool) (written : Written) : Written :=
  if addPrefix then
    if base = 8 then written.put (chr '0')
    else if base = 16 then (written.put (chr 'x')).put (chr '0')
    else written
  else written

def putSign (neg addSpace addPlus : Bool) (written : Written) : Written :=
  if neg then written.put (chr '-')
  else if addSpace then written.put (chr ' ')
  else if addPlus then written.put (chr '+')
  else written

structure ItoaBlock where
  str : Buffer
  indices : List Int
  request : Nat

def itoaBlock (outside : Int → Byte) (old : Nat → Byte) (type : IntType) (num : Int) (base : Nat)
    (addSpace addPlus addPrefix : Bool) : Option ItoaBlock :=
  let neg := num < 0 && base == 10
  let request := itoaRequest num base neg addSpace addPlus addPrefix
  let num := if neg then type.convert (-num) else num
  (putDigits outside base (num.toNat + 1) num ⟨Buffer.fresh old, 0, []⟩).bind (fun digits =>
    let written := putSign neg addSpace addPlus (putPrefix base addPrefix digits)
    (reverse (written.len + 1) (written.str.write written.len 0)).map (fun str => ⟨str, written.indices, request⟩))

def atoiFrom (num : Nat → Byte) : Nat → Nat → BitVec 32 → BitVec 32
  | 0, _, n => n
  | left + 1, i, n => atoiFrom num left (i + 1) (n * 10 + digitToInt (num i))

def atoi (fuel : Nat) (num : Nat → Byte) : Option (BitVec 32) :=
  (strlen fuel num).map (fun len =>
    let neg := num 0 == chr '-'
    let i := if neg then 1 else 0
    let n := atoiFrom num (len - i) i 0
    if neg then -n else n)

example : (itoaBlock (fun _ => 0) (fun _ => 1) ⟨32, true⟩ (-120) 10 false false false).bind (fun block => atoi 9 block.str.bytes) =
    some (-120) := by decide

section Loops

theorem strlen_from_spells (str : Nat → Byte) (fuel i : Nat) (chars : List Byte) (nonzero : ∀ c ∈ chars, c ≠ 0)
    (spelled : Spells str i (chars ++ [0])) (enough : chars.length < fuel) : strlenFrom str fuel i = some (i + chars.length) := by
  induction fuel generalizing i chars with
  | zero => exact absurd enough (Nat.not_lt_zero _)
  | succ fuel ih =>
      cases chars with
      | nil => rw [strlenFrom, if_pos spelled.1, List.length_nil, Nat.add_zero]
      | cons cur rest =>
          obtain ⟨here, later⟩ := spelled
          obtain ⟨notEnd, nonzeroRest⟩ := List.forall_mem_cons.mp nonzero
          rw [strlenFrom, here, if_neg notEnd, ih (i + 1) rest nonzeroRest later (Nat.lt_of_succ_lt_succ enough), List.length_cons,
            Nat.add_right_comm, Nat.add_assoc]

theorem strlen_held (str : Str) (bytes : Nat → Byte) (fuel : Nat) (held : str.HeldBy bytes) (enough : str.chars.length < fuel) :
    strlen fuel bytes = some str.chars.length := by
  rw [strlen, strlen_from_spells bytes fuel 0 str.chars str.nonzero held enough, Nat.zero_add]

-- What one loop of reverse does to the bytes from i to j.
structure Reversed (i j : Nat) (str after : Buffer) : Prop where
  inside : ∀ k, i ≤ k → k ≤ j → after.bytes k = str.bytes (i + j - k)
  outside : ∀ k, k < i ∨ j < k → after.bytes k = str.bytes k
  writes : ∀ k, k ∈ after.writes → k ∈ str.writes ∨ (i < j ∧ i ≤ k ∧ k ≤ j)
  still : ∀ k, k ∈ str.writes → k ∈ after.writes

theorem reverse_from_reversed (fuel i j : Nat) (str : Buffer) (some_fuel : 0 < fuel) (enough : j < i + fuel) :
    ∃ after, reverseFrom fuel i j str = some after ∧ Reversed i j str after := by
  induction fuel generalizing i j str with
  | zero => exact absurd some_fuel (Nat.lt_irrefl 0)
  | succ fuel ih =>
      rw [reverseFrom]
      by_cases less : i < j
      · rw [if_pos less]
        obtain ⟨after, done, rest⟩ :=
          ih (i + 1) (j - 1) ((str.write i (str.bytes j)).write j (str.bytes i)) (by omega) (by omega)
        have middle : ∀ k, k ≠ i → k ≠ j → ((str.write i (str.bytes j)).write j (str.bytes i)).bytes k = str.bytes k := by
          intro k notI notJ
          rw [Buffer.write_other _ j k _ notJ, Buffer.write_other _ i k _ notI]
        refine ⟨after, done, fun k above below => ?_, fun k apart => ?_, fun k member => ?_, fun k member => ?_⟩
        · rcases Nat.eq_or_lt_of_le above with rfl | above
          · rw [rest.outside i (.inl (Nat.lt_succ_self i)), Buffer.write_other _ j i _ (Nat.ne_of_lt less), Buffer.write_same,
              Nat.add_sub_cancel_left]
          · rcases Nat.eq_or_lt_of_le below with rfl | below
            · rw [rest.outside k (.inr (by omega)), Buffer.write_same, Nat.add_sub_cancel]
            · rw [rest.inside k above (by omega), middle _ (by omega) (by omega)]
              exact congrArg str.bytes (by omega)
        · rw [rest.outside k (by omega), middle k (by omega) (by omega)]
        · rcases rest.writes k member with before | inside
          · rcases List.mem_cons.mp before with rfl | before
            · exact .inr ⟨less, Nat.le_of_lt less, Nat.le_refl _⟩
            · rcases List.mem_cons.mp before with rfl | before
              · exact .inr ⟨less, Nat.le_refl _, Nat.le_of_lt less⟩
              · exact .inl before
          · exact .inr (by omega)
        · exact rest.still k (List.mem_cons_of_mem _ (List.mem_cons_of_mem _ member))
      · rw [if_neg less]
        refine ⟨str, rfl, fun k above below => ?_, fun _ _ => rfl, fun k member => .inl member, fun k member => member⟩
        exact congrArg str.bytes (by omega)

-- A string is replaced by the reversed string, in the bytes that it has.
theorem reverse_held (fuel : Nat) (str : Buffer) (text : Str) (held : text.HeldBy str.bytes) (enough : text.chars.length < fuel) :
    ∃ after, reverse fuel str = some after ∧ Spells after.bytes 0 (text.chars.reverse ++ [0]) ∧
      (∀ k, k ∈ after.writes → k ∈ str.writes ∨ k < text.chars.length) ∧ ∀ k, k ∈ str.writes → k ∈ after.writes := by
  obtain ⟨after, done, rest⟩ := reverse_from_reversed (text.chars.length + 1) 0 (text.chars.length - 1) str (Nat.succ_pos _) (by omega)
  obtain ⟨spelled, terminator, _⟩ := (spells_append _ _ _ _).mp held
  have letters := (spells_iff _ _ _).mp spelled
  rw [Nat.zero_add] at terminator
  refine ⟨after, ?_, (spells_append _ _ _ _).mpr ⟨(spells_iff _ _ _).mpr (fun index inside => ?_), ?_, trivial⟩, fun k member => ?_, rest.still⟩
  · rw [reverse, strlen_held text str.bytes fuel held enough, Option.bind_some, done]
  · rw [List.length_reverse] at inside
    rw [List.getElem_reverse, Nat.zero_add, rest.inside index (Nat.zero_le _) (by omega), ← letters _ (by omega)]
    exact congrArg str.bytes (by omega)
  · rw [List.length_reverse, Nat.zero_add]
    rcases Nat.eq_zero_or_pos text.chars.length with none | positive
    · rw [none] at terminator ⊢
      rw [rest.inside 0 (Nat.le_refl 0) (Nat.zero_le _), none]
      exact terminator
    · rw [rest.outside _ (.inr (by omega)), terminator]
  · rcases rest.writes k member with before | inside
    · exact .inl before
    · exact .inr (by omega)

end Loops

section Digits

variable (outside : Int → Byte) (base : Nat)

-- The remainders that the digit loop meets.
def remainders : Nat → Int → Option (List Int)
  | 0, _ => none
  | fuel + 1, num => if 0 < num.tdiv base then (remainders fuel (num.tdiv base)).map (num.tmod base :: ·) else some [num.tmod base]

def Written.putAll (written : Written) (chars : List Byte) : Written :=
  { written with str := written.str.writeAll written.len chars, len := written.len + chars.length }

theorem put_all_append (written : Written) (front back : List Byte) :
    written.putAll (front ++ back) = (written.putAll front).putAll back := by
  simp only [Written.putAll, Buffer.write_all_append, List.length_append, Nat.add_assoc]

theorem put_digits_eq (fuel : Nat) (num : Int) (written : Written) :
    putDigits outside base fuel num written = (remainders base fuel num).map (fun indices =>
      { written.putAll (indices.map (alphanumericAt outside)) with indices := indices.reverse ++ written.indices }) := by
  induction fuel generalizing num written with
  | zero => rfl
  | succ fuel ih =>
      rw [putDigits, remainders]
      by_cases more : 0 < num.tdiv base
      · dsimp only
        rw [if_pos more, if_pos more, ih, Option.map_map]
        refine Option.map_congr (fun indices _ => ?_)
        simp only [Function.comp_apply, Written.put, Written.putAll, Buffer.writeAll, List.map_cons, List.length_cons, List.length_map,
          List.reverse_cons, List.append_assoc, List.singleton_append, Nat.add_assoc, Nat.add_comm 1]
      · dsimp only
        rw [if_neg more, if_neg more]
        rfl

theorem put_prefix_eq (addPrefix : Bool) (written : Written) :
    putPrefix base addPrefix written = written.putAll (if addPrefix then itoaPrefix base else []) := by
  rw [putPrefix, itoaPrefix]
  repeat' split
  all_goals rfl

theorem put_sign_eq (neg addSpace addPlus : Bool) (written : Written) :
    putSign neg addSpace addPlus written = written.putAll (itoaSign neg addSpace addPlus) := by
  rw [putSign, itoaSign]
  repeat' split
  all_goals rfl

theorem remainders_last (fuel : Nat) (num : Int) (last : ¬ 0 < num.tdiv base) :
    remainders base (fuel + 1) num = some [num.tmod base] := if_neg last

theorem remainders_nat (fuel num : Nat) (large : 2 ≤ base) (enough : num < fuel) :
    remainders base fuel num = some ((if num = 0 then [0] else Nat.digits base num).map Nat.cast) := by
  induction fuel generalizing num with
  | zero => exact absurd enough (Nat.not_lt_zero num)
  | succ fuel ih =>
      have quotient : (num : Int).tdiv base = ((num / base : Nat) : Int) := rfl
      have remainder : (num : Int).tmod base = ((num % base : Nat) : Int) := rfl
      by_cases zero : num = 0
      · subst zero
        exact remainders_last base fuel 0 (by rw [Int.zero_tdiv]; decide)
      · rw [if_neg zero, Nat.digits_def' large (Nat.pos_of_ne_zero zero), List.map_cons]
        by_cases more : 0 < num / base
        · have less : num / base < num := Nat.div_lt_self (Nat.pos_of_ne_zero zero) large
          rw [remainders, quotient, if_pos (Int.natCast_pos.mpr more), ih (num / base) (by omega), if_neg more.ne', remainder]
          rfl
        · rw [remainders_last base fuel num (by rwa [quotient, Int.natCast_pos]), Nat.eq_zero_of_not_pos more, Nat.digits_zero,
            remainder]
          rfl

theorem remainders_nat_nonempty (num : Nat) : (if num = 0 then [0] else Nat.digits base num) ≠ [] := by
  split
  · exact List.cons_ne_nil 0 []
  · rename_i nonzero
    exact Nat.digits_ne_nil_iff_ne_zero.mpr nonzero

theorem remainders_negative (fuel : Nat) (num : Int) (negative : num < 0) : remainders base (fuel + 1) num = some [num.tmod base] := by
  obtain ⟨count, rfl⟩ : ∃ count : Nat, num = -count := ⟨num.natAbs, by omega⟩
  refine remainders_last base fuel _ ?_
  rw [Int.neg_tdiv, show (count : Int).tdiv base = ((count / base : Nat) : Int) from rfl]
  exact Int.not_lt.mpr (Int.neg_nonpos_of_nonneg (Int.natCast_nonneg _))

-- The loop ends on every number, and takes at least one turn.
theorem remainders_some (num : Int) (large : 2 ≤ base) :
    ∃ digits, remainders base (num.toNat + 1) num = some digits ∧ 0 < digits.length := by
  by_cases negative : num < 0
  · exact ⟨_, remainders_negative base _ num negative, Nat.one_pos⟩
  · obtain ⟨count, rfl⟩ := Int.eq_ofNat_of_zero_le (Int.not_lt.mp negative)
    refine ⟨_, remainders_nat base _ count large (Nat.lt_succ_self count), ?_⟩
    rw [List.length_map]
    exact List.length_pos_of_ne_nil (remainders_nat_nonempty base count)

end Digits

section Block

variable (outside : Int → Byte) (old : Nat → Byte) (type : IntType) (num : Int) (base : Nat) (addSpace addPlus addPrefix : Bool)

def isNegative : Bool := num < 0 && base == 10

-- The number that the digit loop starts from.
def startNumber : Int := if isNegative num base then type.convert (-num) else num

-- What is in the block before it is reversed.
def itoaChars (indices : List Int) : List Byte :=
  indices.map (alphanumericAt outside) ++ (if addPrefix then itoaPrefix base else []) ++
    itoaSign (isNegative num base) addSpace addPlus

structure Made (digits : List Int) (block : ItoaBlock) : Prop where
  made : itoaBlock outside old type num base addSpace addPlus addPrefix = some block
  indices : block.indices = digits.reverse
  request : block.request = itoaRequest num base (isNegative num base) addSpace addPlus addPrefix
  writes : ∀ index, index ∈ block.str.writes ↔ index < (itoaChars outside num base addSpace addPlus addPrefix digits).length + 1
  text : (∀ c ∈ itoaChars outside num base addSpace addPlus addPrefix digits, c ≠ 0) →
    Spells block.str.bytes 0 ((itoaChars outside num base addSpace addPlus addPrefix digits).reverse ++ [0])

theorem itoa_block_made (digits : List Int)
    (remains : remainders base ((startNumber type num base).toNat + 1) (startNumber type num base) = some digits) :
    ∃ block, Made outside old type num base addSpace addPlus addPrefix digits block := by
  obtain ⟨chars, charsEq⟩ : ∃ chars, chars = itoaChars outside num base addSpace addPlus addPrefix digits := ⟨_, rfl⟩
  have filled := Buffer.write_all_spells (Buffer.fresh old) 0 (chars ++ [0])
  have held := held_of_spells _ chars filled
  have short : (Str.ofBytes chars).chars.length ≤ chars.length := (List.takeWhile_sublist _).length_le
  obtain ⟨after, reversed, spelled, writes, still⟩ := reverse_held (chars.length + 1) _ _ held (Nat.lt_succ_of_le short)
  have put : putSign (isNegative num base) addSpace addPlus (putPrefix base addPrefix
      { (⟨Buffer.fresh old, 0, []⟩ : Written).putAll (digits.map (alphanumericAt outside)) with indices := digits.reverse ++ [] }) =
        ⟨(Buffer.fresh old).writeAll 0 chars, chars.length, digits.reverse⟩ := by
    rw [put_sign_eq, put_prefix_eq, ← put_all_append, charsEq, itoaChars, List.append_assoc, List.append_nil]
    simp only [Written.putAll, Buffer.write_all_append, List.length_append, Nat.zero_add]
  refine ⟨⟨after, digits.reverse, _⟩, ?_, rfl, rfl, fun index => ?_, fun nonzero => ?_⟩
  · rw [Buffer.write_all_append, Nat.zero_add] at reversed
    have closed : reverse (chars.length + 1) (((Buffer.fresh old).writeAll 0 chars).write chars.length 0) = some after := reversed
    rw [startNumber, isNegative] at remains
    rw [isNegative] at put
    rw [itoaBlock]
    dsimp only
    rw [put_digits_eq, remains, Option.map_some, Option.bind_some, put]
    dsimp only
    rw [closed]
    rfl
  · rw [← charsEq]
    have before := Buffer.write_all_writes (Buffer.fresh old) 0 index (chars ++ [0])
    rw [List.length_append, List.length_singleton, Nat.zero_add] at before
    constructor
    · intro member
      rcases writes index member with first | inside
      · rcases before.mp first with none | inside
        · exact absurd none List.not_mem_nil
        · exact inside.2
      · omega
    · intro inside
      exact still index (before.mpr (.inr ⟨Nat.zero_le _, inside⟩))
  · rw [← charsEq] at nonzero ⊢
    rw [of_bytes_chars chars nonzero] at spelled
    exact spelled

end Block

end Kraftwerk.Print
