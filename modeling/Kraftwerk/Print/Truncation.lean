import Kraftwerk.Print.Kvsnprintf

set_option autoImplicit false

-- Where the output stops when bufsz is limit + 1: the bound is looked at after each piece
-- only, and what "%%" writes is neither counted nor stopped.
namespace Kraftwerk.Print

open CString

def percents (pieces : List Piece) : List Byte := pieces.flatMap Piece.discarded

-- Some pieces from the first one on, not none of them, count up to this length.
def EndsAt (length : Nat) (pieces : List Piece) : Prop :=
  ∃ front back, pieces = front ++ back ∧ front ≠ [] ∧ totalCounted front = length

theorem written_length (piece : Piece) : piece.written.length = piece.counted + piece.discarded.length := by
  cases piece with
  | nothing | count | percent | char => rfl
  | text final => exact (Nat.add_zero _).symm

theorem total_written_length (pieces : List Piece) :
    (written pieces).length = totalCounted pieces + (percents pieces).length := by
  induction pieces with
  | nil => rfl
  | cons piece rest ih =>
      rw [written_cons, total_counted_cons, List.length_append, ih, written_length, percents, percents, List.flatMap_cons,
        List.length_append]
      omega

theorem percents_cons (piece : Piece) (rest : List Piece) : percents (piece :: rest) = piece.discarded ++ percents rest := rfl

theorem ends_at_cons (limit : Nat) (piece : Piece) (rest : List Piece) (later : EndsAt limit rest) :
    EndsAt (piece.counted + limit) (piece :: rest) := by
  obtain ⟨front, back, rfl, _, rfl⟩ := later
  exact ⟨piece :: front, back, rfl, List.cons_ne_nil _ _, total_counted_cons piece front⟩

theorem ends_at_first (piece : Piece) (rest : List Piece) : EndsAt piece.counted (piece :: rest) :=
  ⟨[piece], rest, rfl, List.cons_ne_nil _ _, rfl⟩

theorem ends_at_all (pieces : List Piece) (some : pieces ≠ []) : EndsAt (totalCounted pieces) pieces :=
  ⟨pieces, [], (List.append_nil _).symm, some, rfl⟩

section
variable (bufsz : BitVec 64) (limit : Nat) (size : bufsz.toNat = limit + 1)
include size

theorem shown_step (counted : Nat) (piece : Piece) (rest : List Piece) :
    shownFrom bufsz false (BitVec.ofNat 32 counted) (piece :: rest) =
      piece.written ++ if limit ≤ (counted + piece.counted) % 2 ^ 32 then percents rest
        else shownFrom bufsz false (BitVec.ofNat 32 (counted + piece.counted)) rest := by
  have reached := full_iff bufsz (BitVec.ofNat 32 (counted + piece.counted)) limit size
  rw [BitVec.toNat_ofNat] at reached
  rw [shownFrom, Bool.false_or, ← BitVec.ofNat_add]
  by_cases stop : limit ≤ (counted + piece.counted) % 2 ^ 32
  · rw [reached.mpr stop, if_pos stop, shown_discarding]
    rfl
  · rw [Bool.eq_false_iff.mpr (fun isFull => stop (reached.mp isFull)), if_neg stop]
    rfl

theorem shown_of_fits (counted : Nat) (pieces : List Piece) (fits : counted + (written pieces).length ≤ limit) :
    shownFrom bufsz false (BitVec.ofNat 32 counted) pieces = written pieces := by
  induction pieces generalizing counted with
  | nil => rfl
  | cons piece rest ih =>
      rw [written_cons, List.length_append, written_length] at fits
      rw [shown_step bufsz limit size, written_cons]
      by_cases stop : limit ≤ (counted + piece.counted) % 2 ^ 32
      · have bound := Nat.mod_le (counted + piece.counted) (2 ^ 32)
        have lengths := total_written_length rest
        have noText : written rest = [] := List.eq_nil_of_length_eq_zero (by omega)
        have noPercent : percents rest = [] := List.eq_nil_of_length_eq_zero (by omega)
        rw [if_pos stop, noText, noPercent]
      · rw [if_neg stop, ih (counted + piece.counted) (by omega)]

-- When a piece ends at the limit, the output is cut off there.
theorem shown_of_ends_at (counted rest : Nat) (pieces : List Piece) (small : limit < 2 ^ 32)
    (reaches : counted + rest = limit) (noPercent : percents pieces = []) (ends : EndsAt rest pieces) :
    shownFrom bufsz false (BitVec.ofNat 32 counted) pieces = (written pieces).take rest := by
  induction pieces generalizing counted rest with
  | nil =>
      obtain ⟨front, back, split, nonempty, _⟩ := ends
      exact absurd (List.append_eq_nil_iff.mp split.symm).1 nonempty
  | cons piece tail ih =>
      obtain ⟨front, back, split, nonempty, total⟩ := ends
      obtain ⟨first, later, rfl⟩ := List.exists_cons_of_ne_nil nonempty
      obtain ⟨rfl, tailEq⟩ := List.cons.inj split
      rw [percents_cons] at noPercent
      obtain ⟨noFirst, noLater⟩ := List.append_eq_nil_iff.mp noPercent
      have firstLength : piece.written.length = piece.counted := by rw [written_length, noFirst, List.length_nil, Nat.add_zero]
      rw [total_counted_cons] at total
      have within : (counted + piece.counted) % 2 ^ 32 = counted + piece.counted := Nat.mod_eq_of_lt (by omega)
      rw [shown_step bufsz limit size, within, written_cons]
      by_cases stop : limit ≤ counted + piece.counted
      · have exact : rest = piece.written.length := by omega
        rw [if_pos stop, noLater, List.append_nil, exact, List.take_left]
      · have restLength : rest = piece.written.length + totalCounted later := by omega
        have more : later ≠ [] := by
          rintro rfl
          simp only [totalCounted, List.map_nil, List.sum_nil] at total
          omega
        rw [if_neg stop, ih (counted + piece.counted) (totalCounted later) (by omega) noLater ⟨later, back, tailEq, more, rfl⟩,
          restLength, List.take_length_add_append]

theorem shown_within (before counted : Nat) (pieces : List Piece) (ahead : counted ≤ before)
    (within : before + (shownFrom bufsz false (BitVec.ofNat 32 counted) pieces).length ≤ limit) :
    before + (written pieces).length ≤ limit ∨
      (before = counted ∧ limit < 2 ^ 32 ∧ percents pieces = [] ∧ ∃ rest, counted + rest = limit ∧ EndsAt rest pieces) := by
  induction pieces generalizing before counted with
  | nil => exact Or.inl within
  | cons piece rest ih =>
      rw [shown_step bufsz limit size, List.length_append, written_length] at within
      have bound := Nat.mod_le (counted + piece.counted) (2 ^ 32)
      have below := Nat.mod_lt (counted + piece.counted) (y := 2 ^ 32) (by decide)
      rw [written_cons, List.length_append, written_length, percents_cons]
      by_cases stop : limit ≤ (counted + piece.counted) % 2 ^ 32
      · rw [if_pos stop] at within
        have noFirst : piece.discarded = [] := List.eq_nil_of_length_eq_zero (by omega)
        have noLater : percents rest = [] := List.eq_nil_of_length_eq_zero (by omega)
        refine Or.inr ⟨by omega, by omega, by rw [noFirst, noLater, List.append_nil], piece.counted, by omega, ?_⟩
        exact ends_at_first piece rest
      · rw [if_neg stop] at within
        rcases ih (before + (piece.counted + piece.discarded.length)) (counted + piece.counted) (by omega) (by omega)
          with fits | ⟨same, small, noLater, later, reaches, ends⟩
        · exact Or.inl (by omega)
        · have noFirst : piece.discarded = [] := List.eq_nil_of_length_eq_zero (by omega)
          refine Or.inr ⟨by omega, small, by rw [noFirst, noLater, List.append_nil], piece.counted + later, by omega, ?_⟩
          exact ends_at_cons later piece rest ends

-- The output of a call stays within the limit exactly when all of it fits or a piece ends there.
theorem shown_within_iff (pieces : List Piece) :
    (shownFrom bufsz false 0 pieces).length ≤ limit ↔
      (written pieces).length ≤ limit ∨ (limit < 2 ^ 32 ∧ percents pieces = [] ∧ EndsAt limit pieces) := by
  constructor
  · intro within
    rcases shown_within bufsz limit size 0 0 pieces (Nat.le_refl 0) (by simpa using within)
      with fits | ⟨_, small, noPercent, rest, reaches, ends⟩
    · exact Or.inl (by simpa using fits)
    · rw [Nat.zero_add] at reaches
      exact Or.inr ⟨small, noPercent, reaches ▸ ends⟩
  · rintro (fits | ⟨small, noPercent, ends⟩)
    · rw [show (0 : BitVec 32) = BitVec.ofNat 32 0 from rfl, shown_of_fits bufsz limit size 0 pieces (by omega)]
      exact fits
    · rw [show (0 : BitVec 32) = BitVec.ofNat 32 0 from rfl,
        shown_of_ends_at bufsz limit size 0 limit pieces small (Nat.zero_add limit) noPercent ends]
      exact List.length_take_le limit _

theorem shown_eq_take (pieces : List Piece) (within : (shownFrom bufsz false 0 pieces).length ≤ limit) :
    shownFrom bufsz false 0 pieces = (written pieces).take limit := by
  rcases (shown_within_iff bufsz limit size pieces).mp within with fits | ⟨small, noPercent, ends⟩
  · rw [show (0 : BitVec 32) = BitVec.ofNat 32 0 from rfl, shown_of_fits bufsz limit size 0 pieces (by omega)]
    rw [List.take_of_length_le fits]
  · exact shown_of_ends_at bufsz limit size 0 limit pieces small (Nat.zero_add limit) noPercent ends

end

theorem convert_percent (usable : Nat → Nat) (old : List Byte) (directive : Directive) (piece : Piece)
    (made : convert usable old directive = some piece) : piece.discarded = [] ↔ directive ≠ .percent := by
  have fieldText : ∀ format str, field usable format str = some piece → piece.discarded = [] := by
    intro format str made
    obtain ⟨final, _, short⟩ := Option.bind_eq_some_iff.mp made
    split at short
    · rw [← Option.some.inj short]
      rfl
    · cases short
  cases directive with
  | percent => simp [← Option.some.inj made, Piece.discarded]
  | number format type base val =>
      obtain ⟨_, _, made⟩ := Option.bind_eq_some_iff.mp made
      obtain ⟨_, _, made⟩ := Option.bind_eq_some_iff.mp made
      simp [fieldText _ _ made]
  | pointer format val =>
      obtain ⟨_, _, made⟩ := Option.bind_eq_some_iff.mp made
      simp [fieldText _ _ made]
  | string format ptr =>
      obtain ⟨_, _, made⟩ := Option.bind_eq_some_iff.mp made
      simp [fieldText _ _ made]
  | plain cur => simp [← Option.some.inj made, Piece.discarded]
  | count length target => simp [← Option.some.inj made, Piece.discarded]
  | character val => simp [← Option.some.inj made, Piece.discarded]
  | dropped => simp [← Option.some.inj made, Piece.discarded]

theorem convert_all_percents (usable : Nat → Nat) (old : Nat → List Byte) (directives : List Directive) (pieces : List Piece)
    (made : convertAll usable old directives = some pieces) : percents pieces = [] ↔ .percent ∉ directives := by
  induction directives generalizing old pieces with
  | nil =>
      obtain rfl := Option.some.inj made
      simp [percents]
  | cons directive rest ih =>
      obtain ⟨piece, first, made⟩ := Option.bind_eq_some_iff.mp made
      obtain ⟨later, tail, rfl⟩ := Option.map_eq_some_iff.mp made
      rw [percents_cons, List.append_eq_nil_iff, convert_percent usable _ _ _ first, ih _ _ tail, List.mem_cons, not_or,
        ne_comm]

end Kraftwerk.Print
