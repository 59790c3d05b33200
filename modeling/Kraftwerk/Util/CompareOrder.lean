import Kraftwerk.Util.Compare
import Mathlib.Data.List.GetD
import Mathlib.Data.Nat.Find
import Mathlib.Order.PiLex
import Mathlib.Order.WellFounded

set_option autoImplicit false

-- What strcmp orders strings by: their letters one after the other, the terminator among them.
namespace Kraftwerk.Util

section Letters

variable {Letter : Type} [LinearOrder Letter]

theorem compare_letters_less (a b : Letter) (less : a < b) : compareLetters a b = -1 ∧ compareLetters b a = 1 := by
  rw [compareLetters, compareLetters, if_pos less, if_neg (lt_asymm less), if_pos less]
  exact ⟨rfl, rfl⟩

theorem compare_letters_swap (a b : Letter) : compareLetters a b = -compareLetters b a := by
  rcases lt_trichotomy a b with less | rfl | more
  · rw [(compare_letters_less a b less).1, (compare_letters_less a b less).2]
  · rw [(compare_letters_eq_zero a a).mpr rfl]
    rfl
  · rw [(compare_letters_less b a more).1, (compare_letters_less b a more).2]
    rfl

theorem compare_letters_le (a b : Letter) : compareLetters a b ≤ 0 ↔ a ≤ b := by
  rcases lt_trichotomy a b with less | rfl | more
  · rw [(compare_letters_less a b less).1]
    exact iff_of_true (by decide) (le_of_lt less)
  · rw [(compare_letters_eq_zero a a).mpr rfl]
    exact iff_of_true (Int.le_refl 0) (le_refl a)
  · rw [(compare_letters_less b a more).2]
    exact iff_of_false (by decide) (not_le_of_gt more)

-- Sequences compare as their letters do where they first differ.
theorem compare_letters_lex (x y : Nat → Letter) (pos : Nat) (before : ∀ earlier < pos, x earlier = y earlier) (differ : x pos ≠ y pos) :
    compareLetters (toLex x) (toLex y) = compareLetters (x pos) (y pos) := by
  rcases lt_or_gt_of_ne differ with less | more
  · have first : toLex x < toLex y := ⟨pos, before, less⟩
    rw [(compare_letters_less _ _ first).1, (compare_letters_less _ _ less).1]
  · have first : toLex y < toLex x := ⟨pos, fun earlier inside => (before earlier inside).symm, more⟩
    rw [(compare_letters_less _ _ first).2, (compare_letters_less _ _ more).2]

end Letters

variable {Letter : Type} [LinearOrder Letter] [Zero Letter]

def Text.letters (text : Text Letter) (pos : Nat) : Letter := text.chars.getD pos 0

structure FirstDifference (a b : Text Letter) (pos : Nat) : Prop where
  before : ∀ earlier < pos, a.letters earlier = b.letters earlier
  differ : a.letters pos ≠ b.letters pos

-- strcmp gives this result where the two strings lie in some memory.
def Answers (a b : Text Letter) (result : Int) : Prop :=
  ∃ before behind fuel compared, strcmp fuel (a.around before) (b.around behind) = some compared ∧ compared.result = result

structure DecidesOrder (Letter : Type) [LinearOrder Letter] [Zero Letter] : Prop where
  returns : ∀ (a b : Text Letter) (before behind : Int → Letter), ∃ fuel compared,
    strcmp fuel (a.around before) (b.around behind) = some compared
  inside : ∀ (a b : Text Letter) (before behind : Int → Letter) (fuel : Nat) (compared : Compared),
    strcmp fuel (a.around before) (b.around behind) = some compared → ReadsInside a b compared.reads
  equal : ∀ (a b : Text Letter) (result : Int), Answers a b result → (result = 0 ↔ a.chars = b.chars)
  antisymmetric : ∀ (a b : Text Letter) (result back : Int), Answers a b result → Answers b a back → result = -back
  transitive : ∀ (a b c : Text Letter) (first second both : Int), Answers a b first → Answers b c second → Answers a c both →
    first ≤ 0 → second ≤ 0 → both ≤ 0
  decided : ∀ (a b : Text Letter) (result : Int) (pos : Nat), Answers a b result → FirstDifference a b pos →
    result = compareLetters (a.letters pos) (b.letters pos)

section Key

variable (a b : Text Letter)

omit [LinearOrder Letter] in
-- The letters say where a string ends, so they are those of one string only.
theorem letters_injective (same : a.letters = b.letters) : a.chars = b.chars := by
  have shorter : ∀ first second : Text Letter, first.letters = second.letters → first.chars.length ≤ second.chars.length := by
    intro first second same
    by_contra longer
    have inside := Nat.lt_of_not_le longer
    have letter := congrFun same second.chars.length
    rw [Text.letters, Text.letters, List.getD_eq_default _ _ (Nat.le_refl _), List.getD_eq_getElem _ _ inside] at letter
    exact first.nonzero _ (List.getElem_mem inside) letter
  refine List.ext_getElem (Nat.le_antisymm (shorter a b same) (shorter b a same.symm)) (fun pos inA inB => ?_)
  have letter := congrFun same pos
  rwa [Text.letters, Text.letters, List.getD_eq_getElem _ _ inA, List.getD_eq_getElem _ _ inB] at letter

theorem first_difference (different : a.chars ≠ b.chars) : ∃ pos, FirstDifference a b pos := by
  have differ : ∃ pos, a.letters pos ≠ b.letters pos := by
    by_contra none
    exact different (letters_injective a b (funext (fun pos => not_not.mp (fun apart => none ⟨pos, apart⟩))))
  exact ⟨Nat.find differ, fun earlier inside => not_not.mp (Nat.find_min differ inside), Nat.find_spec differ⟩

theorem compare_chars_first (as bs : List Letter) (pos : Nat) (before : ∀ earlier < pos, as.getD earlier 0 = bs.getD earlier 0)
    (differ : as.getD pos 0 ≠ bs.getD pos 0) (nonzeroA : ∀ c ∈ as, c ≠ 0) (nonzeroB : ∀ c ∈ bs, c ≠ 0) :
    compareChars as bs = compareLetters (as.getD pos 0) (bs.getD pos 0) := by
  induction pos generalizing as bs with
  | zero =>
      have apart : ¬ SameHead as bs := by
        rintro ⟨c, restA, restB, rfl, rfl⟩
        exact differ rfl
      rw [(compare_chars_stop as bs apart).1]
      cases as <;> cases bs <;> rfl
  | succ pos ih =>
      have heads := before 0 (Nat.succ_pos pos)
      cases as with
      | nil =>
          cases bs with
          | nil => exact absurd rfl differ
          | cons d bs => exact absurd heads.symm (nonzeroB d List.mem_cons_self)
      | cons c as =>
          cases bs with
          | nil => exact absurd heads (nonzeroA c List.mem_cons_self)
          | cons d bs =>
              obtain rfl : c = d := heads
              rw [compareChars, if_pos rfl]
              exact ih as bs (fun earlier inside => before (earlier + 1) (Nat.succ_lt_succ inside)) differ
                (List.forall_mem_cons.mp nonzeroA).2 (List.forall_mem_cons.mp nonzeroB).2

-- strcmp compares strings in the lexicographic order of their letters.
theorem compare_chars_lex : compareChars a.chars b.chars = compareLetters (toLex a.letters) (toLex b.letters) := by
  by_cases same : a.chars = b.chars
  · have letters : a.letters = b.letters := funext (fun pos => congrArg (fun chars => chars.getD pos 0) same)
    rw [(compare_chars_eq_zero _ _ a.nonzero b.nonzero).mpr same, letters, (compare_letters_eq_zero _ _).mpr rfl]
  · obtain ⟨pos, first⟩ := first_difference a b same
    rw [compare_letters_lex a.letters b.letters pos first.before first.differ]
    exact compare_chars_first a.chars b.chars pos first.before first.differ a.nonzero b.nonzero

end Key

theorem answers_iff (a b : Text Letter) (result : Int) : Answers a b result ↔ result = compareLetters (toLex a.letters) (toLex b.letters) := by
  rw [← compare_chars_lex]
  constructor
  · rintro ⟨before, behind, fuel, compared, done, rfl⟩
    exact (strcmp_run a b before behind fuel compared done).1
  · rintro rfl
    obtain ⟨reads, done, _⟩ := strcmp_around a b (fun _ => 0) (fun _ => 0)
    exact ⟨_, _, _, _, done, rfl⟩

theorem strcmp_decides_order (Letter : Type) [LinearOrder Letter] [Zero Letter] : DecidesOrder Letter where
  returns := fun a b before behind => by
    obtain ⟨reads, done, _⟩ := strcmp_around a b before behind
    exact ⟨_, _, done⟩
  inside := fun a b before behind fuel compared done => (strcmp_run a b before behind fuel compared done).2
  equal := fun a b result answers => by
    rw [(answers_iff a b result).mp answers, ← compare_chars_lex, compare_chars_eq_zero _ _ a.nonzero b.nonzero]
  antisymmetric := fun a b result back answers answersBack => by
    rw [(answers_iff a b result).mp answers, (answers_iff b a back).mp answersBack]
    exact compare_letters_swap _ _
  transitive := fun a b c first second both answersFirst answersSecond answersBoth lower upper => by
    rw [(answers_iff a b first).mp answersFirst, compare_letters_le] at lower
    rw [(answers_iff b c second).mp answersSecond, compare_letters_le] at upper
    rw [(answers_iff a c both).mp answersBoth, compare_letters_le]
    exact le_trans lower upper
  decided := fun a b result pos answers first => by
    rw [(answers_iff a b result).mp answers]
    exact compare_letters_lex a.letters b.letters pos first.before first.differ

end Kraftwerk.Util
