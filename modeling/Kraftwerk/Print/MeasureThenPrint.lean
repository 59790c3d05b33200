import Kraftwerk.Print.Truncation

set_option autoImplicit false

-- The two passes of kvprintf and panic: the first call measures without a buffer, the
-- second one prints into a buffer of the returned length and one byte.
namespace Kraftwerk.Print

open CString

-- Whatever the temporaries of the two passes find in their blocks, the second pass writes
-- exactly the n characters that the first one promises and a NUL after them.
def MeasureThenPrint (usable : Nat → Nat) (fmt : Str) (args : List Arg) : Prop :=
  ∀ (old later : Nat → List Byte) (buf : Nat), buf ≠ 0 → ∃ (n : Nat) (first second : Printed) (text : List Byte),
    kvsnprintf usable old 0 0 fmt args = some first ∧ first.writes = [] ∧ first.value.toInt = n ∧
    kvsnprintf usable later buf (BitVec.ofNat 64 (n + 1)) fmt args = some second ∧ second.value.toInt = n ∧
    text.length = n ∧ second.writes = place buf (text ++ [0])

theorem convert_all_closed (usable : Nat → Nat) (old later : Nat → List Byte) (directives : List Directive)
    (closed : ∀ directive ∈ directives, directive.unclosed usable = false) :
    convertAll usable old directives = convertAll usable later directives := by
  induction directives generalizing old later with
  | nil => rfl
  | cons directive rest ih =>
      rw [convertAll, convertAll, convert_closed usable (old 0) (later 0) directive (closed directive List.mem_cons_self)]
      refine Option.bind_congr (fun piece _ => ?_)
      rw [ih _ _ (fun other member => closed other (List.mem_cons_of_mem directive member))]

def firstOld (first : List Byte) (old : Nat → List Byte) : Nat → List Byte
  | 0 => first
  | index + 1 => old index

theorem convert_all_stale (usable : Nat → Nat) (directives : List Directive) (pieces : List Piece)
    (made : convertAll usable (fun _ => []) directives = some pieces)
    (unclosed : ∃ directive ∈ directives, directive.unclosed usable = true) :
    ∃ old, ∀ others, convertAll usable old directives = some others → totalCounted others = totalCounted pieces + 1 := by
  induction directives generalizing pieces with
  | nil =>
      obtain ⟨_, member, _⟩ := unclosed
      cases member
  | cons directive rest ih =>
      obtain ⟨piece, first, made⟩ := Option.bind_eq_some_iff.mp made
      obtain ⟨tail, later, rfl⟩ := Option.map_eq_some_iff.mp made
      cases stale : directive.unclosed usable with
      | true =>
          obtain ⟨old, longer⟩ := convert_stale usable directive piece stale first
          refine ⟨firstOld old (fun _ => []), fun others othersMade => ?_⟩
          obtain ⟨other, otherFirst, othersMade⟩ := Option.bind_eq_some_iff.mp othersMade
          obtain ⟨otherTail, otherLater, rfl⟩ := Option.map_eq_some_iff.mp othersMade
          obtain rfl : tail = otherTail := Option.some.inj (later.symm.trans otherLater)
          rw [total_counted_cons, total_counted_cons, longer other otherFirst]
          omega
      | false =>
          have inRest : ∃ directive ∈ rest, directive.unclosed usable = true := by
            obtain ⟨found, member, open'⟩ := unclosed
            rcases List.mem_cons.mp member with rfl | member
            · rw [stale] at open'
              cases open'
            · exact ⟨found, member, open'⟩
          obtain ⟨old, longer⟩ := ih tail later inRest
          refine ⟨firstOld [] old, fun others othersMade => ?_⟩
          obtain ⟨other, otherFirst, othersMade⟩ := Option.bind_eq_some_iff.mp othersMade
          obtain ⟨otherTail, otherLater, rfl⟩ := Option.map_eq_some_iff.mp othersMade
          obtain rfl : piece = other := Option.some.inj (first.symm.trans otherFirst)
          rw [total_counted_cons, total_counted_cons, longer otherTail otherLater]
          omega

theorem value_to_int (value : BitVec 32) (n : Nat) : value.toInt = n ↔ value.toNat = n ∧ n < 2 ^ 31 := by
  have bound := value.isLt
  rw [BitVec.toInt_eq_toNat_cond]
  split <;> omega

-- The first pass keeps its hands off memory when no "%%" occurs.
theorem first_pass_silent (pieces : List Piece) : (printPieces 0 0 pieces).writes = [] ↔ percents pieces = [] := by
  rw [print_pieces_writes_null, shown_discarding]
  constructor
  · intro silent
    by_contra shown
    have some : (pieces.flatMap Piece.discarded).length ≠ 0 := fun none => shown (List.eq_nil_of_length_eq_zero none)
    have ended := (List.append_eq_nil_iff.mp silent).2
    rw [if_neg some] at ended
    cases ended
  · intro none
    rw [percents] at none
    simp [none, place]

-- The second pass writes n characters when some piece ends there, or no piece occurs.
theorem second_pass_exact (pieces : List Piece) (n : Nat) (small : n < 2 ^ 31) (noPercent : percents pieces = [])
    (total : n = totalCounted pieces % 2 ^ 32) :
    (shownFrom (BitVec.ofNat 64 (n + 1)) false 0 pieces).length = n ↔ pieces = [] ∨ EndsAt n pieces := by
  have size : (BitVec.ofNat 64 (n + 1)).toNat = n + 1 := by
    rw [BitVec.toNat_ofNat]
    omega
  have lengths := total_written_length pieces
  rw [noPercent, List.length_nil] at lengths
  have atMost := Nat.mod_le (totalCounted pieces) (2 ^ 32)
  have within := shown_within_iff (BitVec.ofNat 64 (n + 1)) n size pieces
  constructor
  · intro exact
    rcases within.mp (Nat.le_of_eq exact) with fits | ⟨_, _, ends⟩
    · by_cases none : pieces = []
      · exact Or.inl none
      · have same : totalCounted pieces = n := by omega
        exact Or.inr (same ▸ ends_at_all pieces none)
    · exact Or.inr ends
  · rintro (rfl | ends)
    · exact total.symm
    · have short := within.mpr (Or.inr ⟨by omega, noPercent, ends⟩)
      rw [shown_eq_take (BitVec.ofNat 64 (n + 1)) n size pieces short, List.length_take]
      omega

theorem measure_then_print_iff (usable : Nat → Nat) (fmt : Str) (args : List Arg) (found : List Directive)
    (matching : directives fmt args = some found) :
    MeasureThenPrint usable fmt args ↔
      ∃ pieces, convertAll usable (fun _ => []) found = some pieces ∧ .percent ∉ found ∧
        (∀ directive ∈ found, directive.unclosed usable = false) ∧ totalCounted pieces % 2 ^ 32 < 2 ^ 31 ∧
        (pieces = [] ∨ EndsAt (totalCounted pieces % 2 ^ 32) pieces) := by
  constructor
  · intro agrees
    obtain ⟨n, first, second, text, measured, silent, firstValue, printed, secondValue, length, writes⟩ :=
      agrees (fun _ => []) (fun _ => []) 1 Nat.one_ne_zero
    rw [kvsnprintf_eq usable _ _ _ fmt args found matching] at measured printed
    obtain ⟨pieces, made, rfl⟩ := Option.map_eq_some_iff.mp measured
    rw [made, Option.map_some] at printed
    obtain rfl := Option.some.inj printed
    have noPercent := (first_pass_silent pieces).mp silent
    rw [print_pieces_value, value_to_int, BitVec.toNat_ofNat] at firstValue
    obtain ⟨total, small⟩ := firstValue
    rw [print_pieces_writes 1 _ pieces Nat.one_ne_zero] at writes
    have shown := (List.append_inj' (place_inj 1 _ _ writes) rfl).1
    refine ⟨pieces, made, (convert_all_percents usable _ found pieces made).mp noPercent, ?_, total ▸ small, ?_⟩
    · by_contra stale
      push Not at stale
      obtain ⟨directive, member, open'⟩ := stale
      obtain ⟨later, longer⟩ := convert_all_stale usable found pieces made
        ⟨directive, member, Bool.not_eq_false _ ▸ open'⟩
      obtain ⟨m, _, second, _, measured, _, firstValue, printed, secondValue, _, _⟩ :=
        agrees (fun _ => []) later 1 Nat.one_ne_zero
      rw [kvsnprintf_eq usable _ _ _ fmt args found matching] at measured printed
      rw [made, Option.map_some] at measured
      obtain rfl := Option.some.inj measured
      obtain ⟨others, othersMade, rfl⟩ := Option.map_eq_some_iff.mp printed
      rw [print_pieces_value, value_to_int, BitVec.toNat_ofNat] at firstValue secondValue
      have differs := longer others othersMade
      omega
    · rw [total]
      exact (second_pass_exact pieces n small noPercent total.symm).mp (by rw [shown, length])
  · rintro ⟨pieces, made, percent, closed, small, ends⟩ old later buf given
    have noPercent := (convert_all_percents usable _ found pieces made).mpr percent
    have exact := (second_pass_exact pieces _ small noPercent rfl).mpr ends
    refine ⟨totalCounted pieces % 2 ^ 32, printPieces 0 0 pieces, _, _, ?_, (first_pass_silent pieces).mpr noPercent, ?_, ?_,
      ?_, exact, print_pieces_writes buf _ pieces given⟩
    · rw [kvsnprintf_eq usable _ _ _ fmt args found matching, convert_all_closed usable old (fun _ => []) found closed, made,
        Option.map_some]
    · rw [print_pieces_value, value_to_int, BitVec.toNat_ofNat]
      exact ⟨rfl, small⟩
    · rw [kvsnprintf_eq usable _ _ _ fmt args found matching, convert_all_closed usable later (fun _ => []) found closed,
        made, Option.map_some]
    · rw [print_pieces_value, value_to_int, BitVec.toNat_ofNat]
      exact ⟨rfl, small⟩

theorem measure_then_print_number : MeasureThenPrint (fun request => max request 16) (Str.ofBytes ("%d".toList.map chr))
    [.word 123] :=
  (measure_then_print_iff (fun request => max request 16) (Str.ofBytes ("%d".toList.map chr)) [.word 123]
    [.number { precision := 6 } ⟨32, true⟩ 10 123] (by decide)).mpr
      ⟨[.text (Str.ofBytes ("123".toList.map chr))], by decide, by decide, by decide, by decide,
        Or.inr ⟨[.text (Str.ofBytes ("123".toList.map chr))], [], rfl, by decide, by decide⟩⟩

theorem percent_written_to_null : ¬ MeasureThenPrint (fun request => max request 16) (Str.ofBytes ("%%".toList.map chr)) [] := by
  intro agrees
  obtain ⟨_, first, _, _, measured, silent, _⟩ := agrees (fun _ => []) (fun _ => []) 1 Nat.one_ne_zero
  have output : kvsnprintf (fun request => max request 16) (fun _ => []) 0 0 (Str.ofBytes ("%%".toList.map chr)) [] =
      some ⟨0, [(0, chr '%'), (1, 0)], []⟩ := by decide
  obtain rfl := Option.some.inj (measured.symm.trans output)
  cases silent

end Kraftwerk.Print
