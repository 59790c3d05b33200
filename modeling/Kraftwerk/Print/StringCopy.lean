import Kraftwerk.Print.ItoaBlock
import Kraftwerk.Print.Convert

set_option autoImplicit false

-- __copy_out and the conversion %s over the bytes of their blocks.
namespace Kraftwerk.Print

open CString

-- The state of the copying loop, with the indices of in that were read.
structure Copy where
  out : Buffer
  nCopied : Nat
  reads : List Nat

def copyOutLoop (source : Nat → Byte) (start : Nat) (max : Int) : Nat → Copy → Option Copy
  | 0, _ => none
  | fuel + 1, ⟨out, nCopied, reads⟩ =>
      if source nCopied = 0 then some ⟨out, nCopied, nCopied :: reads⟩
      else
        let copy : Copy := ⟨out.write (start + nCopied) (source nCopied), nCopied + 1, nCopied :: reads⟩
        if 0 < max ∧ max ≤ copy.nCopied then some copy else copyOutLoop source start max fuel copy

def copyOutBytes (fuel : Nat) (source : Nat → Byte) (out : Buffer) (start : Nat) (max : Int) : Option Copy :=
  copyOutLoop source start max fuel ⟨out, 0, [0]⟩

structure StringPrinted where
  request : Nat
  final : Buffer
  printed : Copy

-- The temporary, with the request for its block. strlen(ptr)+1 bytes hold the whole text,
-- precision+1 bytes as much as is wanted of it.
def fillString (fuel : Nat) (old : Nat → Byte) (ptr : Nat → Byte) : Option (BitVec 32) → Option (Nat × Buffer)
  | some precision =>
      (copyOutBytes fuel ptr (Buffer.fresh old) 0 precision.toInt).map (fun (copy : Copy) => ((precision + 1).toNat, copy.out))
  | none =>
      (strlen fuel ptr).bind (fun length =>
        (copyOutBytes fuel ptr (Buffer.fresh old) 0 0).map (fun (copy : Copy) => (length + 1, copy.out)))

-- Without a width, and to an out that takes the text.
def stringConversion (fuel : Nat) (old : Nat → Byte) (ptr : Nat → Byte) (precision : Option (BitVec 32)) (out : Buffer) :
    Option StringPrinted :=
  (fillString fuel old ptr precision).bind (fun (request, final) =>
    (copyOutBytes fuel final.bytes out 0 0).map (fun printed => ⟨request, final, printed⟩))

def stringWanted (str : Str) (precision : Option (BitVec 32)) : List Byte :=
  match precision with
  | some precision => str.chars.take precision.toNat
  | none => str.chars

section Copies

variable (source : Nat → Byte) (start : Nat)

-- What a loop that ends at a NUL has read and written.
structure Copied (first : Nat) (out : Buffer) (reads : List Nat) (after : Copy) : Prop where
  further : first ≤ after.nCopied
  inside : ∀ index, first ≤ index → index < after.nCopied → source index ≠ 0
  stop : source after.nCopied = 0
  read : ∀ index, first ≤ index → index ≤ after.nCopied → index ∈ after.reads
  out : ∀ chars, Spells source first chars → chars.length = after.nCopied - first → after.out = out.writeAll (start + first) chars

theorem copy_loop_copied (fuel first : Nat) (out : Buffer) (reads : List Nat) (after : Copy)
    (done : copyOutLoop source start 0 fuel ⟨out, first, reads⟩ = some after) :
    Copied source start first out reads after ∧ ∀ index ∈ reads, index ∈ after.reads := by
  induction fuel generalizing first out reads with
  | zero => cases done
  | succ fuel ih =>
      rw [copyOutLoop] at done
      by_cases stop : source first = 0
      · rw [if_pos stop] at done
        obtain rfl := Option.some.inj done
        refine ⟨⟨Nat.le_refl first, fun index above below => ?_, stop, fun index above below => ?_, fun chars _ length => ?_⟩, ?_⟩
        · exact absurd (Nat.lt_of_le_of_lt above below) (Nat.lt_irrefl first)
        · rw [Nat.le_antisymm below above]
          exact List.mem_cons_self
        · rw [Nat.sub_self] at length
          rw [List.eq_nil_of_length_eq_zero length]
          rfl
        · exact fun index member => List.mem_cons_of_mem _ member
      · rw [if_neg stop] at done
        dsimp only at done
        rw [if_neg (fun both => absurd both.1 (Int.lt_irrefl 0))] at done
        obtain ⟨rest, kept⟩ := ih (first + 1) _ _ done
        have further := rest.further
        refine ⟨⟨by omega, fun index above below => ?_, rest.stop, fun index above below => ?_, fun chars spelled length => ?_⟩, ?_⟩
        · rcases Nat.eq_or_lt_of_le above with rfl | above
          · exact stop
          · exact rest.inside index above below
        · rcases Nat.eq_or_lt_of_le above with rfl | above
          · exact kept first List.mem_cons_self
          · exact rest.read index above below
        · cases chars with
          | nil => exact absurd length (by rw [List.length_nil]; omega)
          | cons cur others =>
              obtain ⟨rfl, later⟩ := spelled
              rw [List.length_cons] at length
              rw [rest.out others later (by omega)]
              rfl
        · exact fun index member => kept index (List.mem_cons_of_mem _ member)

theorem copied_length (out : Buffer) (reads : List Nat) (after : Copy) (str : Str) (held : str.HeldBy source)
    (copied : Copied source start 0 out reads after) : after.nCopied = str.chars.length :=
  held_stop str source after.nCopied held copied.stop (fun index below => copied.inside index (Nat.zero_le index) below)

theorem copy_loop_string (fuel first : Nat) (max : Int) (out : Buffer) (reads : List Nat) (chars : List Byte)
    (nonzero : ∀ c ∈ chars, c ≠ 0) (spelled : Spells source first (chars ++ [0])) (enough : chars.length < fuel) :
    ∃ after, copyOutLoop source start max fuel ⟨out, first, reads⟩ = some after ∧
      after.out = out.writeAll (start + first) (copyOutFrom max first chars) := by
  induction fuel generalizing first out reads chars with
  | zero => exact absurd enough (Nat.not_lt_zero _)
  | succ fuel ih =>
      cases chars with
      | nil => exact ⟨_, by rw [copyOutLoop, if_pos spelled.1], rfl⟩
      | cons cur rest =>
          obtain ⟨rfl, later⟩ := spelled
          obtain ⟨notEnd, nonzeroRest⟩ := List.forall_mem_cons.mp nonzero
          rw [copyOutLoop, if_neg notEnd, copyOutFrom]
          dsimp only
          by_cases full : 0 < max ∧ max ≤ first + 1
          · rw [if_pos full, if_pos (by exact_mod_cast full)]
            exact ⟨_, rfl, rfl⟩
          · rw [if_neg full, if_neg (by exact_mod_cast full)]
            exact ih (first + 1) _ _ rest nonzeroRest later (Nat.lt_of_succ_lt_succ enough)

theorem copy_loop_more (max : Int) (fuel more : Nat) (copy after : Copy) (still : fuel ≤ more)
    (done : copyOutLoop source start max fuel copy = some after) : copyOutLoop source start max more copy = some after := by
  induction fuel generalizing more copy with
  | zero => cases done
  | succ fuel ih =>
      obtain ⟨more, rfl⟩ : ∃ before, more = before + 1 := ⟨more - 1, by omega⟩
      obtain ⟨out, nCopied, reads⟩ := copy
      rw [copyOutLoop] at done ⊢
      by_cases stop : source nCopied = 0
      · rw [if_pos stop] at done ⊢
        exact done
      · rw [if_neg stop] at done ⊢
        dsimp only at done ⊢
        by_cases full : 0 < max ∧ max ≤ ((nCopied + 1 : Nat) : Int)
        · rw [if_pos full] at done ⊢
          exact done
        · rw [if_neg full] at done ⊢
          exact ih more _ (Nat.le_of_succ_le_succ still) done

end Copies

section Conversion

variable (old beyond : Nat → Byte) (out : Buffer) (str : Str) (precision : Option (BitVec 32))

def PrintsText : Prop :=
  ∃ fuel result, stringConversion fuel old (placed str beyond) precision out = some result ∧
    result.printed.nCopied = (stringWanted str precision).length ∧ Spells result.printed.out.bytes 0 (stringWanted str precision)

-- Also, the temporary stays in its block, and nothing is read of it but what was written to it.
def PrintsArgument : Prop :=
  ∃ fuel result, stringConversion fuel old (placed str beyond) precision out = some result ∧
    (result.printed.nCopied = (stringWanted str precision).length ∧ Spells result.printed.out.bytes 0 (stringWanted str precision)) ∧
      (∀ index ∈ result.final.writes, index < result.request) ∧ ∀ index ∈ result.printed.reads, index ∈ result.final.writes

-- A precision that stands for no limit is not less than the text.
def LimitFits : Prop := ∀ limit, precision = some limit → 0 < limit.toInt ∨ str.chars.length ≤ limit.toNat

def stringCopied : List Byte := copyOut str (precision.elim 0 BitVec.toInt)

theorem string_copied_wanted (fits : LimitFits str precision) : stringCopied str precision = stringWanted str precision := by
  cases precision with
  | none => exact copy_out_eq str 0
  | some limit =>
      rw [stringCopied, stringWanted, Option.elim_some, copy_out_eq]
      rcases fits limit rfl with positive | long
      · have same : limit.toInt.toNat = limit.toNat := by
          rw [BitVec.toInt_eq_toNat_cond] at positive ⊢
          split <;> omega
        rw [if_pos positive, same]
      · have all : str.chars.take limit.toInt.toNat = str.chars ∨ ¬ 0 < limit.toInt := by
          by_cases positive : 0 < limit.toInt
          · refine .inl (List.take_of_length_le ?_)
            rw [BitVec.toInt_eq_toNat_cond] at positive ⊢
            split <;> omega
          · exact .inr positive
        rw [List.take_of_length_le long]
        split
        · rename_i positive
          exact all.resolve_right (fun negative => negative positive)
        · rfl

theorem string_copied_longer (unfit : ¬ LimitFits str precision) :
    (stringWanted str precision).length < (stringCopied str precision).length := by
  obtain ⟨limit, notAll⟩ := Classical.not_forall.mp unfit
  obtain ⟨rfl, notEither⟩ := Classical.not_imp.mp notAll
  obtain ⟨nonpositive, short⟩ := not_or.mp notEither
  rw [stringCopied, stringWanted, Option.elim_some, copy_out_eq, if_neg nonpositive, List.length_take]
  omega

theorem fill_string_made (fuel request : Nat) (final : Buffer)
    (done : fillString fuel old (placed str beyond) precision = some (request, final)) :
    final = (Buffer.fresh old).writeAll 0 (stringCopied str precision) := by
  have copied : ∀ (max : Int) (copy : Copy), copyOutBytes fuel (placed str beyond) (Buffer.fresh old) 0 max = some copy →
      copy.out = (Buffer.fresh old).writeAll 0 (copyOut str max) := by
    intro max copy looped
    obtain ⟨after, string, same⟩ := copy_loop_string (placed str beyond) 0 (fuel + (str.chars.length + 1)) 0 max (Buffer.fresh old) [0]
      str.chars str.nonzero (placed_held str beyond) (by omega)
    have further := copy_loop_more (placed str beyond) 0 max fuel (fuel + (str.chars.length + 1)) _ copy (Nat.le_add_right fuel _) looped
    rw [Option.some.inj (further.symm.trans string), same]
    rfl
  cases precision with
  | some limit =>
      obtain ⟨copy, looped, same⟩ := Option.map_eq_some_iff.mp done
      obtain ⟨_, rfl⟩ := Prod.mk.inj same
      exact copied limit.toInt copy looped
  | none =>
      obtain ⟨length, _, done⟩ := Option.bind_eq_some_iff.mp done
      obtain ⟨copy, looped, same⟩ := Option.map_eq_some_iff.mp done
      obtain ⟨_, rfl⟩ := Prod.mk.inj same
      exact copied 0 copy looped

theorem fill_string_some : ∃ request final, fillString (str.chars.length + 1) old (placed str beyond) precision = some (request, final) := by
  have looped : ∀ max : Int, ∃ copy, copyOutBytes (str.chars.length + 1) (placed str beyond) (Buffer.fresh old) 0 max = some copy := by
    intro max
    obtain ⟨after, string, _⟩ := copy_loop_string (placed str beyond) 0 (str.chars.length + 1) 0 max (Buffer.fresh old) [0]
      str.chars str.nonzero (placed_held str beyond) (Nat.lt_succ_self _)
    exact ⟨after, string⟩
  cases precision with
  | some limit =>
      obtain ⟨copy, done⟩ := looped limit.toInt
      exact ⟨_, _, by rw [fillString, done]; rfl⟩
  | none =>
      obtain ⟨copy, done⟩ := looped 0
      exact ⟨_, _, by rw [fillString, strlen_held str _ _ (placed_held str beyond) (Nat.lt_succ_self _), Option.bind_some, done]; rfl⟩

structure Filled (final : Buffer) : Prop where
  copied : Spells final.bytes 0 (stringCopied str precision)
  behind : ∀ index, (stringCopied str precision).length ≤ index → final.bytes index = old index
  written : ∀ index, index ∈ final.writes ↔ index < (stringCopied str precision).length
  nonzero : ∀ index, index < (stringCopied str precision).length → final.bytes index ≠ 0

theorem string_filled (fuel request : Nat) (final : Buffer)
    (done : fillString fuel old (placed str beyond) precision = some (request, final)) : Filled old str precision final := by
  obtain rfl := fill_string_made old beyond str precision fuel request final done
  have copied := Buffer.write_all_spells (Buffer.fresh old) 0 (stringCopied str precision)
  refine ⟨copied, fun index above => ?_, fun index => ?_, fun index inside => ?_⟩
  · exact Buffer.write_all_outside _ 0 _ _ (.inr (by omega))
  · rw [Buffer.write_all_writes]
    constructor
    · rintro (none | inside)
      · exact absurd none List.not_mem_nil
      · omega
    · exact fun inside => .inr ⟨Nat.zero_le _, by omega⟩
  · have letter := (spells_iff _ _ _).mp copied index inside
    rw [Nat.zero_add] at letter
    rw [letter]
    exact copy_out_nonzero str _ _ (List.getElem_mem inside)

-- The copy to out passes all that was copied, and reads the byte behind it.
theorem printed_reads_behind (fuel : Nat) (final : Buffer) (printed : Copy) (filled : Filled old str precision final)
    (done : copyOutBytes fuel final.bytes out 0 0 = some printed) :
    (stringCopied str precision).length ≤ printed.nCopied ∧ (stringCopied str precision).length ∈ printed.reads := by
  obtain ⟨copied, _⟩ := copy_loop_copied final.bytes 0 fuel 0 out [0] printed done
  have further : (stringCopied str precision).length ≤ printed.nCopied := by
    by_contra less
    exact filled.nonzero _ (Nat.lt_of_not_le less) copied.stop
  exact ⟨further, copied.read _ (Nat.zero_le _) further⟩

theorem printed_cases (fuel : Nat) (result : StringPrinted)
    (done : stringConversion fuel old (placed str beyond) precision out = some result) :
    Filled old str precision result.final ∧ copyOutBytes fuel result.final.bytes out 0 0 = some result.printed := by
  obtain ⟨⟨request, final⟩, made, done⟩ := Option.bind_eq_some_iff.mp done
  obtain ⟨printed, looped, rfl⟩ := Option.map_eq_some_iff.mp done
  exact ⟨string_filled old beyond str precision fuel request final made, looped⟩

theorem prints_text_iff :
    PrintsText old beyond out str precision ↔ LimitFits str precision ∧ old (stringWanted str precision).length = 0 := by
  constructor
  · rintro ⟨fuel, result, done, length, _⟩
    obtain ⟨filled, looped⟩ := printed_cases old beyond out str precision fuel result done
    obtain ⟨further, _⟩ := printed_reads_behind old out str precision fuel result.final result.printed filled looped
    have fits : LimitFits str precision := by
      by_contra unfit
      have longer := string_copied_longer str precision unfit
      omega
    refine ⟨fits, ?_⟩
    obtain ⟨copied, _⟩ := copy_loop_copied result.final.bytes 0 fuel 0 out [0] result.printed looped
    have stop := copied.stop
    rw [length, ← string_copied_wanted str precision fits, filled.behind _ (Nat.le_refl _)] at stop
    rw [← string_copied_wanted str precision fits]
    exact stop
  · rintro ⟨fits, zero⟩
    have same := string_copied_wanted str precision fits
    obtain ⟨request, final, made⟩ := fill_string_some old beyond str precision
    have filled := string_filled old beyond str precision _ request final made
    have nonzero : ∀ c ∈ stringCopied str precision, c ≠ 0 := fun c member => copy_out_nonzero str _ c member
    have short : (stringCopied str precision).length < str.chars.length + 1 := by
      rw [same]
      cases precision with
      | none => exact Nat.lt_succ_self _
      | some limit => exact Nat.lt_succ_of_le (List.length_take_le' _ _)
    have spelled : Spells final.bytes 0 (stringCopied str precision ++ [0]) :=
      (spells_append _ _ _ _).mpr ⟨filled.copied, by rw [Nat.zero_add, filled.behind _ (Nat.le_refl _), same]; exact zero, trivial⟩
    obtain ⟨printed, looped, text⟩ := copy_loop_string final.bytes 0 (str.chars.length + 1) 0 0 out [0] _ nonzero spelled short
    obtain ⟨copied, _⟩ := copy_loop_copied final.bytes 0 _ 0 out [0] printed looped
    have length := copied_length final.bytes 0 out [0] printed ⟨stringCopied str precision, nonzero⟩ spelled copied
    dsimp only at length
    rw [same] at length
    refine ⟨str.chars.length + 1, ⟨request, final, printed⟩, ?_, length, ?_⟩
    · have printedFrom : copyOutBytes (str.chars.length + 1) final.bytes out 0 0 = some printed := looped
      rw [stringConversion, made, Option.bind_some]
      dsimp only
      rw [printedFrom, Option.map_some]
    · rw [text, copy_out_from_eq 0 0 _ (.inl (Int.le_refl 0)), if_neg (Int.lt_irrefl 0), same]
      exact Buffer.write_all_spells out 0 _

-- What is printed is the temporary of the conversions, which runs on into the old contents.
theorem string_conversion_agrees (usable : Nat → Nat) (held : List Byte) (format : Format) (final : Str) (fuel : Nat)
    (result : StringPrinted) (made : copyString usable held format str = some final)
    (given : precision = if format.precisionSpecified then some format.precision else none)
    (done : stringConversion fuel (fun index => held.getD index 0) (placed str beyond) precision out = some result) :
    result.printed.nCopied = final.chars.length ∧ Spells result.printed.out.bytes 0 final.chars := by
  obtain ⟨filled, looped⟩ := printed_cases _ beyond out str precision fuel result done
  obtain ⟨_, same⟩ := Option.ite_none_right_eq_some.mp made
  obtain rfl := Option.some.inj same
  have written : copied format str = stringCopied str precision := by
    rw [copied, stringCopied, given]
    split <;> rfl
  rw [written]
  have whole : (unterminated (stringCopied str precision) held).HeldBy result.final.bytes := by
    refine held_of_spells _ _ ?_
    rw [List.append_assoc]
    refine (spells_append _ _ _ _).mpr ⟨filled.copied, (spells_iff _ _ _).mpr (fun index inside => ?_)⟩
    rw [Nat.zero_add, filled.behind _ (Nat.le_add_right _ index), List.getElem_append]
    split
    · rename_i before
      rw [List.length_drop] at before
      rw [List.getElem_drop, List.getD_eq_getElem?_getD, List.getElem?_eq_getElem (by omega), Option.getD_some]
    · rename_i notBefore
      rw [List.length_drop] at notBefore
      rw [List.getElem_singleton, List.getD_eq_getElem?_getD, List.getElem?_eq_none (by omega), Option.getD_none]
  obtain ⟨copied, _⟩ := copy_loop_copied result.final.bytes 0 fuel 0 out [0] result.printed looped
  have length := copied_length result.final.bytes 0 out [0] result.printed _ whole copied
  refine ⟨length, ?_⟩
  rw [copied.out _ ((spells_append _ _ _ _).mp whole).1 length.symm]
  exact Buffer.write_all_spells out 0 _

end Conversion

-- The byte behind the copied text is read, and nothing has written it. The text comes out
-- right where that byte happens to be NUL and the precision stands for a limit.
theorem string_argument_never_exact (old beyond : Nat → Byte) (out : Buffer) (str : Str) (precision : Option (BitVec 32)) :
    ¬ PrintsArgument old beyond out str precision ∧
      (PrintsText old beyond out str precision ↔ LimitFits str precision ∧ old (stringWanted str precision).length = 0) := by
  refine ⟨?_, prints_text_iff old beyond out str precision⟩
  rintro ⟨fuel, result, done, _, _, reads⟩
  obtain ⟨filled, looped⟩ := printed_cases old beyond out str precision fuel result done
  obtain ⟨_, read⟩ := printed_reads_behind old out str precision fuel result.final result.printed filled looped
  exact absurd ((filled.written _).mp (reads _ read)) (Nat.lt_irrefl _)

-- "ab" in a block of "!!!!..." that is cut off behind its fifth byte.
theorem stale_block_printed :
    ¬ PrintsArgument (fun index => if index < 5 then chr '!' else 0) (fun _ => 0) (Buffer.fresh (fun _ => 0))
      ⟨"ab".toList.map chr, by decide⟩ none := by
  rintro ⟨fuel, result, done, text, _⟩
  obtain ⟨_, zero⟩ := (prints_text_iff _ _ _ _ _).mp ⟨fuel, result, done, text⟩
  exact absurd zero (by decide)

end Kraftwerk.Print
