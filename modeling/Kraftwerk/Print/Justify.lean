import Kraftwerk.Print.StringCopy

set_option autoImplicit false

-- __kvsprintf_justify over the bytes of its block. old is what kmalloc's block held before.
namespace Kraftwerk.Print

open CString

-- strlen counts in an int, which overflows behind 2^31 - 1 characters.
def strlenInt (fuel : Nat) (str : Nat → Byte) : Option Nat :=
  (strlen fuel str).bind (fun i => if i < 2 ^ 31 then some i else none)

def padFrom (paddingChar : Byte) (ptr : Nat) : Nat → Nat → Buffer → Buffer
  | 0, _, final => final
  | left + 1, i, final => padFrom paddingChar ptr left (i + 1) (final.write (ptr + i) paddingChar)

-- What is returned: the new block, or str itself.
structure Justification where
  final : Option Buffer
  released : Bool

-- The width is compared as a size_t. A negative one is larger than every strlen, and final[width]
-- is then outside of the block; width+1 overflows for the largest int.
def kvsprintfJustify (fuel : Nat) (old str : Nat → Byte) (width : BitVec 32) (leftJustify zeroPad : Bool) : Option Justification :=
  (strlenInt fuel str).bind (fun length =>
    if (width.signExtend 64).toNat ≤ length then some ⟨none, false⟩
    else if width.toInt < 0 ∨ 2 ^ 31 ≤ width.toInt + 1 then none
    else
      let paddingChar := if zeroPad then chr '0' else chr ' '
      let nPaddingNeeded := width.toNat - length
      let start := if leftJustify then 0 else nPaddingNeeded
      let paddingPtr := if leftJustify then length else 0
      (copyOutBytes fuel str (Buffer.fresh old) start 0).map (fun (copy : Copy) =>
        let final := padFrom paddingChar paddingPtr nPaddingNeeded 0 copy.out
        ⟨some (final.write width.toNat 0), true⟩))

example : (kvsprintfJustify 9 (fun _ => 7) (placed ⟨[chr '4', chr '2'], by decide⟩ (fun _ => 7)) 5 false true).bind
    (fun result => result.final.map (fun final => (List.range 7).map final.bytes)) =
      some (("00042".toList.map chr) ++ [0, 7]) := by decide

-- The string returned is held by the new block, or by the bytes that str is held by.
structure IsJustified (bytes : Nat → Byte) (str : Str) (width : Nat) (leftJustify zeroPad : Bool) (result : Justification) : Prop where
  text : ∃ text : Str, text.HeldBy (result.final.elim bytes Buffer.bytes) ∧
    text.chars = justifiedText str width leftJustify zeroPad ∧ text.chars.length = max width str.chars.length
  itself : result.final = none ↔ width ≤ str.chars.length
  inside : ∀ final, result.final = some final → ∀ index ∈ final.writes, index < width + 1
  released : result.released = result.final.isSome

def Justifies (old bytes : Nat → Byte) (str : Str) (width : BitVec 32) (leftJustify zeroPad : Bool) : Prop :=
  ∃ fuel result, kvsprintfJustify fuel old bytes width leftJustify zeroPad = some result ∧
    IsJustified bytes str width.toNat leftJustify zeroPad result

section Lengths

variable (bytes : Nat → Byte)

theorem strlen_from_stop (fuel i length : Nat) (done : strlenFrom bytes fuel i = some length) :
    bytes length = 0 ∧ ∀ index, i ≤ index → index < length → bytes index ≠ 0 := by
  induction fuel generalizing i with
  | zero => cases done
  | succ fuel ih =>
      rw [strlenFrom] at done
      by_cases stop : bytes i = 0
      · rw [if_pos stop] at done
        obtain rfl := Option.some.inj done
        exact ⟨stop, fun index above below => absurd (Nat.lt_of_le_of_lt above below) (Nat.lt_irrefl i)⟩
      · rw [if_neg stop] at done
        obtain ⟨last, inside⟩ := ih (i + 1) done
        refine ⟨last, fun index above below => ?_⟩
        rcases Nat.eq_or_lt_of_le above with rfl | above
        · exact stop
        · exact inside index above below

theorem strlen_length (fuel length : Nat) (str : Str) (held : str.HeldBy bytes) (done : strlen fuel bytes = some length) :
    length = str.chars.length := by
  obtain ⟨stop, inside⟩ := strlen_from_stop bytes fuel 0 length done
  exact held_stop str bytes length held stop (fun index below => inside index (Nat.zero_le index) below)

theorem strlen_int_some (fuel : Nat) (str : Str) (held : str.HeldBy bytes) (short : str.chars.length < 2 ^ 31)
    (enough : str.chars.length < fuel) : strlenInt fuel bytes = some str.chars.length := by
  rw [strlenInt, strlen_held str bytes fuel held enough, Option.bind_some, if_pos short]

theorem strlen_int_short (fuel length : Nat) (str : Str) (held : str.HeldBy bytes) (done : strlenInt fuel bytes = some length) :
    str.chars.length < 2 ^ 31 := by
  obtain ⟨i, counted, rest⟩ := Option.bind_eq_some_iff.mp done
  rw [← strlen_length bytes fuel i str held counted]
  exact (Option.ite_none_right_eq_some.mp rest).1

theorem pad_from_eq (paddingChar : Byte) (ptr left i : Nat) (final : Buffer) :
    padFrom paddingChar ptr left i final = final.writeAll (ptr + i) (List.replicate left paddingChar) := by
  induction left generalizing i final with
  | zero => rfl
  | succ left ih => rw [padFrom, ih, List.replicate_succ, Buffer.writeAll, Nat.add_assoc]

end Lengths

section Block

variable (old bytes : Nat → Byte) (str : Str) (width : Nat) (leftJustify zeroPad : Bool)

-- The text and the padding, in the order that they are written in, and the NUL behind them.
def justifiedBlock : Buffer :=
  let nPaddingNeeded := width - str.chars.length
  let start := if leftJustify then 0 else nPaddingNeeded
  let paddingPtr := if leftJustify then str.chars.length else 0
  (((Buffer.fresh old).writeAll start str.chars).writeAll paddingPtr (padding str width zeroPad)).write width 0

theorem block_text (short : str.chars.length < width) :
    Spells (justifiedBlock old str width leftJustify zeroPad).bytes 0 (justifiedText str width leftJustify zeroPad ++ [0]) := by
  have pad := padding_length str width zeroPad
  have length : (justifiedText str width leftJustify zeroPad).length = width := by
    rw [justified_text_length, Nat.max_eq_left (Nat.le_of_lt short)]
  -- The NUL is behind the text, whose two parts are side by side.
  have text : Spells ((((Buffer.fresh old).writeAll (if leftJustify then 0 else width - str.chars.length) str.chars).writeAll
      (if leftJustify then str.chars.length else 0) (padding str width zeroPad)).bytes) 0 (justifiedText str width leftJustify zeroPad) := by
    rw [justifiedText]
    cases leftJustify with
    | true =>
        rw [if_pos rfl, if_pos rfl, if_pos rfl]
        refine (spells_append _ _ _ _).mpr ⟨Buffer.write_all_beside _ 0 _ _ _ (.inl (by omega)), ?_⟩
        rw [Nat.zero_add]
        exact Buffer.write_all_spells _ _ _
    | false =>
        rw [if_neg Bool.false_ne_true, if_neg Bool.false_ne_true, if_neg Bool.false_ne_true]
        refine (spells_append _ _ _ _).mpr ⟨Buffer.write_all_spells _ _ _, ?_⟩
        rw [Nat.zero_add, pad]
        exact Buffer.write_all_beside _ _ 0 _ _ (.inr (by omega))
  refine (spells_append _ _ _ _).mpr ⟨(spells_iff _ _ _).mpr (fun index inside => ?_), ?_, trivial⟩
  · rw [justifiedBlock, Buffer.write_other _ _ _ _ (by omega)]
    exact (spells_iff _ _ _).mp text index inside
  · rw [length, Nat.zero_add, justifiedBlock, Buffer.write_same]

theorem block_inside (short : str.chars.length < width) (index : Nat)
    (member : index ∈ (justifiedBlock old str width leftJustify zeroPad).writes) : index < width + 1 := by
  have pad := padding_length str width zeroPad
  rcases List.mem_cons.mp member with rfl | before
  · exact Nat.lt_succ_self _
  · rcases (Buffer.write_all_writes _ _ _ _).mp before with first | second
    · rcases (Buffer.write_all_writes _ _ _ _).mp first with none | inside
      · exact absurd none List.not_mem_nil
      · cases leftJustify <;> simp at inside <;> omega
    · cases leftJustify <;> simp [pad] at second <;> omega

theorem justified_block (short : str.chars.length < width) :
    IsJustified bytes str width leftJustify zeroPad ⟨some (justifiedBlock old str width leftJustify zeroPad), true⟩ where
  text := ⟨⟨justifiedText str width leftJustify zeroPad, justified_text_nonzero str width leftJustify zeroPad⟩,
    block_text old str width leftJustify zeroPad short, rfl, justified_text_length str width leftJustify zeroPad⟩
  itself := ⟨fun itself => absurd itself (Option.some_ne_none _), fun long => absurd short (Nat.not_lt.mpr long)⟩
  inside := fun _ same => Option.some.inj same ▸ block_inside old str width leftJustify zeroPad short
  released := rfl

theorem justified_itself (held : str.HeldBy bytes) (long : width ≤ str.chars.length) :
    IsJustified bytes str width leftJustify zeroPad ⟨none, false⟩ where
  text := ⟨str, held, (justified_text_long str width leftJustify zeroPad long).symm, (Nat.max_eq_right long).symm⟩
  itself := ⟨fun _ => long, fun _ => rfl⟩
  inside := fun _ same => absurd same.symm (Option.some_ne_none _)
  released := rfl

end Block

section Width

variable (old bytes : Nat → Byte) (str : Str) (width : BitVec 32) (leftJustify zeroPad : Bool)

theorem nonneg_width (nonneg : 0 ≤ width.toInt) : width.toInt = width.toNat := by
  have sign := BitVec.toInt_eq_toNat_cond width
  split at sign
  · exact sign
  · have := width.isLt
    omega

theorem width_as_size (nonneg : 0 ≤ width.toInt) : (width.signExtend 64).toNat = width.toNat := by
  have same := BitVec.toInt_signExtend_of_le (x := width) (show 32 ≤ 64 by decide)
  have large := nonneg_width width nonneg
  have sign := BitVec.toInt_eq_toNat_cond (width.signExtend 64)
  have bound := (width.signExtend 64).isLt
  split at sign <;> omega

theorem kvsprintf_justify_long (fuel : Nat) (held : str.HeldBy bytes) (nonneg : 0 ≤ width.toInt)
    (long : width.toNat ≤ str.chars.length) (counted : str.chars.length < 2 ^ 31) (enough : str.chars.length < fuel) :
    kvsprintfJustify fuel old bytes width leftJustify zeroPad = some ⟨none, false⟩ := by
  rw [kvsprintfJustify, strlen_int_some bytes fuel str held counted enough, Option.bind_some, width_as_size width nonneg, if_pos long]

theorem kvsprintf_justify_short (fuel : Nat) (held : str.HeldBy bytes) (nonneg : 0 ≤ width.toInt)
    (small : width.toNat + 1 < 2 ^ 31) (short : str.chars.length < width.toNat) (enough : str.chars.length < fuel) :
    kvsprintfJustify fuel old bytes width leftJustify zeroPad =
      some ⟨some (justifiedBlock old str width.toNat leftJustify zeroPad), true⟩ := by
  have large := nonneg_width width nonneg
  have inWidth : ¬ (width.toInt < 0 ∨ 2 ^ 31 ≤ width.toInt + 1) := by omega
  obtain ⟨after, copied, text⟩ := copy_loop_string bytes
    (if leftJustify then 0 else width.toNat - str.chars.length) fuel 0 0 (Buffer.fresh old) [0] str.chars str.nonzero held enough
  have all : copyOutFrom 0 0 str.chars = str.chars := copy_out_eq str 0
  rw [all, Nat.add_zero] at text
  rw [kvsprintfJustify, strlen_int_some bytes fuel str held (by omega) enough, Option.bind_some, width_as_size width nonneg,
    if_neg (Nat.not_le.mpr short), if_neg inWidth]
  dsimp only
  rw [copyOutBytes, copied, Option.map_some, pad_from_eq, text, Nat.add_zero]
  rfl

theorem justifies (held : str.HeldBy bytes) (nonneg : 0 ≤ width.toInt) (counted : str.chars.length < 2 ^ 31)
    (room : str.chars.length < width.toNat → width.toNat + 1 < 2 ^ 31) : Justifies old bytes str width leftJustify zeroPad := by
  rcases Nat.lt_or_ge str.chars.length width.toNat with short | long
  · exact ⟨_, _, kvsprintf_justify_short old bytes str width leftJustify zeroPad _ held nonneg (room short) short (Nat.lt_succ_self _),
      justified_block old bytes str width.toNat leftJustify zeroPad short⟩
  · exact ⟨_, _, kvsprintf_justify_long old bytes str width leftJustify zeroPad _ held nonneg long counted (Nat.lt_succ_self _),
      justified_itself bytes str width.toNat leftJustify zeroPad held long⟩

theorem justifies_iff (held : str.HeldBy bytes) (nonneg : 0 ≤ width.toInt) (small : width.toInt < 2 ^ 31 - 1) :
    Justifies old bytes str width leftJustify zeroPad ↔ str.chars.length < 2 ^ 31 := by
  constructor
  · rintro ⟨fuel, result, done, _⟩
    obtain ⟨length, counted, _⟩ := Option.bind_eq_some_iff.mp done
    exact strlen_int_short bytes fuel length str held counted
  · intro counted
    have large := nonneg_width width nonneg
    exact justifies old bytes str width leftJustify zeroPad held nonneg counted (fun _ => by omega)

theorem justify_agrees (usable : Nat → Nat) (final : Str) (held : str.HeldBy bytes) (counted : str.chars.length < 2 ^ 31)
    (justified : justify usable str width leftJustify zeroPad = some final) :
    ∃ fuel result, kvsprintfJustify fuel old bytes width leftJustify zeroPad = some result ∧
      final.HeldBy (result.final.elim bytes Buffer.bytes) := by
  have text := justify_text usable str final width leftJustify zeroPad justified
  have fitting : 0 ≤ width.toInt ∧ (str.chars.length < width.toNat → width.toNat + 1 < 2 ^ 31) := by
    rw [justify] at justified
    split at justified
    · rename_i long
      exact ⟨long.1, fun short => absurd long.2 (Nat.not_le.mpr short)⟩
    · obtain ⟨room, _⟩ := Option.ite_none_right_eq_some.mp justified
      exact ⟨room.1, fun _ => room.2.1⟩
  obtain ⟨fuel, result, done, right⟩ := justifies old bytes str width leftJustify zeroPad held fitting.1 counted fitting.2
  obtain ⟨spelled, inBlock, same, _⟩ := right.text
  refine ⟨fuel, result, done, ?_⟩
  rw [Str.HeldBy, text, ← same]
  exact inBlock

end Width

def answer : Str := ⟨[chr '4', chr '2'], by decide⟩

theorem answer_justified : Justifies (fun _ => 7) (placed answer (fun _ => 7)) answer 5 false true :=
  (justifies_iff (fun _ => 7) (placed answer (fun _ => 7)) answer 5 false true (placed_held answer _) (by decide) (by decide)).mpr
    (by decide)

-- An int that wraps has counted none of these characters.
def longText : Str := ⟨List.replicate (2 ^ 32) (chr 'a'), fun c member => by rw [List.eq_of_mem_replicate member]; decide⟩

theorem long_text_uncounted : longText.HeldBy (placed longText (fun _ => 0)) ∧
    ¬ Justifies (fun _ => 0) (placed longText (fun _ => 0)) longText 5 true false := by
  refine ⟨placed_held longText _, ?_⟩
  rintro ⟨fuel, result, done, _⟩
  obtain ⟨length, counted, _⟩ := Option.bind_eq_some_iff.mp done
  have short := strlen_int_short _ fuel length longText (placed_held longText _) counted
  rw [longText, List.length_replicate] at short
  exact absurd short (by decide)

end Kraftwerk.Print
