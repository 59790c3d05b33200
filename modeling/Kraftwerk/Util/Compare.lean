import Kraftwerk.Lib.CString
import Mathlib.Algebra.Ring.Int.Defs
import Mathlib.Data.Int.Order.Basic
import Mathlib.Order.Lattice

set_option autoImplicit false

-- strcmp and strncmp of os/include/core/misc_util.h, for any char_type. A string is the
-- memory around its first character, by its distance from there.
namespace Kraftwerk.Util

open CString

variable {Letter : Type} [LinearOrder Letter] [Zero Letter]

-- The result, with the distances that both strings were read at.
structure Compared where
  result : Int
  reads : List Int
deriving DecidableEq

def compareLetters (first second : Letter) : Int := if first < second then -1 else if second < first then 1 else 0

def GoesOn (str1 str2 : Int → Letter) (pos : Int) : Prop := str1 pos = str2 pos ∧ str1 pos ≠ 0 ∧ str2 pos ≠ 0

instance (str1 str2 : Int → Letter) (pos : Int) : Decidable (GoesOn str1 str2 pos) := inferInstanceAs (Decidable (_ ∧ _))

def compareAt (str1 str2 : Int → Letter) (pos : Int) (reads : List Int) : Compared :=
  ⟨compareLetters (str1 pos) (str2 pos), pos :: reads⟩

def strcmpFrom (str1 str2 : Int → Letter) : Nat → Int → List Int → Option Compared
  | 0, _, _ => none
  | fuel + 1, pos, reads =>
      if GoesOn str1 str2 pos then strcmpFrom str1 str2 fuel (pos + 1) (pos :: reads)
      else some (compareAt str1 str2 pos (pos :: reads))

def strcmp (fuel : Nat) (str1 str2 : Int → Letter) : Option Compared := strcmpFrom str1 str2 fuel 0 []

-- The number of turns that i < num still allows; the characters are read before i is tested.
-- Behind the loop both pointers are moved back by one.
def strncmpFrom (str1 str2 : Int → Letter) : Nat → Int → List Int → Compared
  | 0, pos, reads => compareAt str1 str2 (pos - 1) (pos :: reads)
  | left + 1, pos, reads =>
      if GoesOn str1 str2 pos then strncmpFrom str1 str2 left (pos + 1) (pos :: reads)
      else compareAt str1 str2 (pos - 1) (pos :: reads)

def strncmp (str1 str2 : Int → Letter) (num : Nat) : Compared := strncmpFrom str1 str2 num 0 []

-- A string over any letters, and memory that has it at distance 0.
structure Text (Letter : Type) [Zero Letter] where
  chars : List Letter
  nonzero : ∀ c ∈ chars, c ≠ 0

def Text.truncate (text : Text Letter) (num : Nat) : Text Letter :=
  ⟨text.chars.take num, fun c member => text.nonzero c (List.mem_of_mem_take member)⟩

def Text.around (text : Text Letter) (elsewhere : Int → Letter) (pos : Int) : Letter :=
  if 0 ≤ pos ∧ pos ≤ text.chars.length then text.chars.getD pos.toNat 0 else elsewhere pos

def ReadsInside (a b : Text Letter) (reads : List Int) : Prop :=
  ∀ pos ∈ reads, 0 ≤ pos ∧ pos ≤ a.chars.length ∧ pos ≤ b.chars.length

-- strncmp compares what strcmp compares in the truncated strings.
structure IsPrefixComparison (a b : Text Letter) (before behind : Int → Letter) (num : Nat) : Prop where
  result : ∃ fuel reads, strcmp fuel ((a.truncate num).around before) ((b.truncate num).around behind) =
    some ⟨(strncmp (a.around before) (b.around behind) num).result, reads⟩
  reads : ReadsInside a b (strncmp (a.around before) (b.around behind) num).reads

section Strings

-- How many leading characters are equal, and how the first ones that differ compare.
def commonLength : List Letter → List Letter → Nat
  | a :: as, b :: bs => if a = b then commonLength as bs + 1 else 0
  | _, _ => 0

def compareChars : List Letter → List Letter → Int
  | [], [] => 0
  | [], b :: _ => compareLetters 0 b
  | a :: _, [] => compareLetters a 0
  | a :: as, b :: bs => if a = b then compareChars as bs else compareLetters a b

omit [Zero Letter] in
theorem compare_letters_eq_zero (a b : Letter) : compareLetters a b = 0 ↔ a = b := by
  rw [compareLetters]
  rcases lt_trichotomy a b with less | rfl | more
  · rw [if_pos less]
    exact iff_of_false (by decide) (ne_of_lt less)
  · rw [if_neg (lt_irrefl a), if_neg (lt_irrefl a)]
    exact iff_of_true rfl rfl
  · rw [if_neg (lt_asymm more), if_pos more]
    exact iff_of_false (by decide) (ne_of_gt more)

theorem compare_chars_eq_zero (as bs : List Letter) (nonzeroA : ∀ c ∈ as, c ≠ 0) (nonzeroB : ∀ c ∈ bs, c ≠ 0) :
    compareChars as bs = 0 ↔ as = bs := by
  induction as generalizing bs with
  | nil =>
      cases bs with
      | nil => exact iff_of_true rfl rfl
      | cons b bs =>
          rw [compareChars, compare_letters_eq_zero]
          exact iff_of_false (nonzeroB b List.mem_cons_self).symm (List.cons_ne_nil b bs).symm
  | cons a as ih =>
      cases bs with
      | nil =>
          rw [compareChars, compare_letters_eq_zero]
          exact iff_of_false (nonzeroA a List.mem_cons_self) (List.cons_ne_nil a as)
      | cons b bs =>
          rw [compareChars, List.cons.injEq]
          by_cases same : a = b
          · rw [if_pos same, ih bs (List.forall_mem_cons.mp nonzeroA).2 (List.forall_mem_cons.mp nonzeroB).2]
            simp [same]
          · rw [if_neg same, compare_letters_eq_zero]
            simp [same]

omit [Zero Letter] in
theorem common_length_le (as bs : List Letter) : commonLength as bs ≤ as.length ∧ commonLength as bs ≤ bs.length := by
  induction as generalizing bs with
  | nil => exact ⟨Nat.le_refl _, Nat.zero_le _⟩
  | cons a as ih =>
      cases bs with
      | nil => exact ⟨Nat.zero_le _, Nat.le_refl _⟩
      | cons b bs =>
          rw [commonLength]
          split
          · exact ⟨Nat.succ_le_succ (ih bs).1, Nat.succ_le_succ (ih bs).2⟩
          · exact ⟨Nat.zero_le _, Nat.zero_le _⟩

omit [Zero Letter] in
theorem common_length_self (as : List Letter) : commonLength as as = as.length := by
  induction as with
  | nil => rfl
  | cons a as ih => rw [commonLength, if_pos rfl, ih, List.length_cons]

theorem common_letter (as bs : List Letter) (index : Nat) (inside : index < commonLength as bs) : as.getD index 0 = bs.getD index 0 := by
  induction as generalizing bs index with
  | nil => exact absurd inside (Nat.not_lt_zero index)
  | cons a as ih =>
      cases bs with
      | nil => exact absurd inside (Nat.not_lt_zero index)
      | cons b bs =>
          rw [commonLength] at inside
          split at inside
          · rename_i same
            cases index with
            | zero => exact same
            | succ index => exact ih bs index (Nat.lt_of_succ_lt_succ inside)
          · exact absurd inside (Nat.not_lt_zero index)

-- The letters from a distance on.
def SpellsFrom (str : Int → Letter) (pos : Nat) (chars : List Letter) : Prop := Spells (fun index => str (index : Int)) pos chars

omit [LinearOrder Letter] in
theorem around_at (text : Text Letter) (elsewhere : Int → Letter) (pos : Nat) (inside : pos ≤ text.chars.length) :
    text.around elsewhere pos = text.chars.getD pos 0 := by
  rw [Text.around, if_pos ⟨Int.natCast_nonneg _, Int.ofNat_le.mpr inside⟩, Int.toNat_natCast]

omit [LinearOrder Letter] in
theorem around_spells (text : Text Letter) (elsewhere : Int → Letter) : SpellsFrom (text.around elsewhere) 0 (text.chars ++ [0]) := by
  refine (spells_iff _ _ _).mpr (fun index inside => ?_)
  rw [List.length_append, List.length_singleton] at inside
  rw [Nat.zero_add, around_at text elsewhere index (Nat.le_of_lt_succ inside), List.getElem_append]
  split
  · rename_i before
    rw [List.getD_eq_getElem?_getD, List.getElem?_eq_getElem before, Option.getD_some]
  · rename_i notBefore
    rw [List.getD_eq_getElem?_getD, List.getElem?_eq_none (Nat.le_of_not_lt notBefore), Option.getD_none, List.getElem_singleton]

end Strings

section Loops

variable (str1 str2 : Int → Letter)

-- The distances read are those from pos to where the loop stops.
def ReadsTo (pos stop : Nat) (before reads : List Int) : Prop := ∀ p ∈ reads, p ∈ before ∨ ((pos : Int) ≤ p ∧ p ≤ stop)

theorem reads_stop (pos : Nat) (before : List Int) : ReadsTo pos pos before ((pos : Int) :: before) := by
  intro p member
  rcases List.mem_cons.mp member with rfl | earlier
  · exact .inr ⟨Int.le_refl _, Int.le_refl _⟩
  · exact .inl earlier

theorem reads_turn (pos stop : Nat) (before reads : List Int) (further : pos < stop)
    (later : ReadsTo (pos + 1) stop ((pos : Int) :: before) reads) : ReadsTo pos stop before reads := by
  intro p member
  rcases later p member with earlier | inside
  · rcases List.mem_cons.mp earlier with rfl | earlier
    · exact .inr ⟨Int.le_refl _, by omega⟩
    · exact .inl earlier
  · exact .inr ⟨by omega, inside.2⟩

def SameHead (as bs : List Letter) : Prop := ∃ a restA restB, as = a :: restA ∧ bs = a :: restB

omit [LinearOrder Letter] in
theorem spells_head (str : Int → Letter) (pos : Nat) (as : List Letter) (spelled : SpellsFrom str pos (as ++ [0])) :
    str pos = as.headD 0 := by
  cases as with
  | nil => exact spelled.1
  | cons a as => exact spelled.1

omit [LinearOrder Letter] in
-- The loops of both functions go on over the common letters.
theorem goes_on_iff (pos : Nat) (as bs : List Letter) (nonzeroA : ∀ c ∈ as, c ≠ 0) (first : SpellsFrom str1 pos (as ++ [0]))
    (second : SpellsFrom str2 pos (bs ++ [0])) : GoesOn str1 str2 pos ↔ SameHead as bs := by
  rw [GoesOn, spells_head str1 pos as first, spells_head str2 pos bs second]
  constructor
  · rintro ⟨same, someA, someB⟩
    cases as with
    | nil => exact absurd rfl someA
    | cons a as =>
        cases bs with
        | nil => exact absurd rfl someB
        | cons b bs =>
            obtain rfl : a = b := same
            exact ⟨a, as, bs, rfl, rfl⟩
  · rintro ⟨a, restA, restB, rfl, rfl⟩
    exact ⟨rfl, nonzeroA a List.mem_cons_self, nonzeroA a List.mem_cons_self⟩

theorem compare_chars_stop (as bs : List Letter) (differ : ¬ SameHead as bs) :
    compareChars as bs = compareLetters (as.headD 0) (bs.headD 0) ∧ commonLength as bs = 0 := by
  cases as with
  | nil =>
      cases bs with
      | nil => exact ⟨((compare_letters_eq_zero 0 0).mpr rfl).symm, rfl⟩
      | cons b bs => exact ⟨rfl, rfl⟩
  | cons a as =>
      cases bs with
      | nil => exact ⟨rfl, rfl⟩
      | cons b bs =>
          have other : a ≠ b := fun same => differ ⟨a, as, bs, rfl, by rw [same]⟩
          exact ⟨if_neg other, if_neg other⟩

omit [Zero Letter] in
theorem common_length_take (left : Nat) (as bs : List Letter) (differ : ¬ SameHead as bs) :
    commonLength (as.take (left + 1)) (bs.take (left + 1)) = 0 := by
  cases as with
  | nil => rfl
  | cons a as =>
      cases bs with
      | nil => rfl
      | cons b bs => exact if_neg (fun same => differ ⟨a, as, bs, rfl, by rw [same]⟩)

theorem strcmp_from_spells (fuel pos : Nat) (before : List Int) (as bs : List Letter) (nonzeroA : ∀ c ∈ as, c ≠ 0)
    (first : SpellsFrom str1 pos (as ++ [0])) (second : SpellsFrom str2 pos (bs ++ [0])) (enough : as.length < fuel) :
    ∃ reads, strcmpFrom str1 str2 fuel pos before = some ⟨compareChars as bs, reads⟩ ∧
      ReadsTo pos (pos + commonLength as bs) before reads := by
  induction fuel generalizing pos before as bs with
  | zero => exact absurd enough (Nat.not_lt_zero _)
  | succ fuel ih =>
      have goesOn := goes_on_iff str1 str2 pos as bs nonzeroA first second
      rw [strcmpFrom]
      by_cases same : SameHead as bs
      · rw [if_pos (goesOn.mpr same)]
        obtain ⟨a, restA, restB, rfl, rfl⟩ := same
        obtain ⟨reads, done, within⟩ := ih (pos + 1) (pos :: before) restA restB (List.forall_mem_cons.mp nonzeroA).2 first.2 second.2
          (Nat.lt_of_succ_lt_succ enough)
        rw [compareChars, if_pos rfl, commonLength, if_pos rfl]
        rw [Nat.add_right_comm, Nat.add_assoc] at within
        exact ⟨reads, done, reads_turn pos _ before reads (Nat.lt_add_of_pos_right (Nat.succ_pos _)) within⟩
      · rw [if_neg (fun goes => same (goesOn.mp goes))]
        obtain ⟨result, none⟩ := compare_chars_stop as bs same
        refine ⟨pos :: pos :: before, ?_, ?_⟩
        · rw [compareAt, spells_head str1 pos as first, spells_head str2 pos bs second, result]
        · rw [none, Nat.add_zero]
          intro p member
          rcases List.mem_cons.mp member with rfl | earlier
          · exact .inr ⟨Int.le_refl _, Int.le_refl _⟩
          · exact reads_stop pos before p earlier

theorem strncmp_from_spells (left pos : Nat) (before : List Int) (as bs : List Letter) (nonzeroA : ∀ c ∈ as, c ≠ 0)
    (first : SpellsFrom str1 pos (as ++ [0])) (second : SpellsFrom str2 pos (bs ++ [0])) :
    ∃ reads, strncmpFrom str1 str2 left pos before =
        compareAt str1 str2 (((pos + commonLength (as.take left) (bs.take left) : Nat) : Int) - 1) reads ∧
      ReadsTo pos (pos + commonLength (as.take left) (bs.take left)) before reads := by
  induction left generalizing pos before as bs with
  | zero =>
      rw [List.take_zero, List.take_zero]
      exact ⟨_, rfl, reads_stop pos before⟩
  | succ left ih =>
      have goesOn := goes_on_iff str1 str2 pos as bs nonzeroA first second
      rw [strncmpFrom]
      by_cases same : SameHead as bs
      · rw [if_pos (goesOn.mpr same)]
        obtain ⟨a, restA, restB, rfl, rfl⟩ := same
        obtain ⟨reads, done, within⟩ := ih (pos + 1) (pos :: before) restA restB (List.forall_mem_cons.mp nonzeroA).2 first.2 second.2
        rw [List.take_succ_cons, List.take_succ_cons, commonLength, if_pos rfl]
        rw [Nat.add_right_comm, Nat.add_assoc] at done within
        exact ⟨reads, done, reads_turn pos _ before reads (Nat.lt_add_of_pos_right (Nat.succ_pos _)) within⟩
      · rw [if_neg (fun goes => same (goesOn.mp goes)), common_length_take left as bs same]
        exact ⟨_, rfl, reads_stop pos before⟩

end Loops

section Truncated

variable (a b : Text Letter) (before behind : Int → Letter)

theorem strcmp_around : ∃ reads, strcmp (a.chars.length + 1) (a.around before) (b.around behind) =
    some ⟨compareChars a.chars b.chars, reads⟩ ∧ ReadsInside a b reads := by
  obtain ⟨reads, done, within⟩ := strcmp_from_spells _ _ (a.chars.length + 1) 0 [] a.chars b.chars a.nonzero (around_spells a before)
    (around_spells b behind) (Nat.lt_succ_self _)
  have shorter := common_length_le a.chars b.chars
  refine ⟨reads, done, fun p member => ?_⟩
  have inside := (within p member).resolve_left List.not_mem_nil
  omega

theorem strcmp_from_more (str1 str2 : Int → Letter) (fuel more : Nat) (pos : Int) (reads : List Int) (compared : Compared)
    (still : fuel ≤ more) (done : strcmpFrom str1 str2 fuel pos reads = some compared) :
    strcmpFrom str1 str2 more pos reads = some compared := by
  induction fuel generalizing more pos reads with
  | zero => cases done
  | succ fuel ih =>
      obtain ⟨more, rfl⟩ : ∃ less, more = less + 1 := ⟨more - 1, by omega⟩
      rw [strcmpFrom] at done ⊢
      by_cases goes : GoesOn str1 str2 pos
      · rw [if_pos goes] at done ⊢
        exact ih more _ _ (Nat.le_of_succ_le_succ still) done
      · rw [if_neg goes] at done ⊢
        exact done

-- Whenever strcmp returns, it is with the order of the strings, and with nothing read behind them.
theorem strcmp_run (fuel : Nat) (compared : Compared) (done : strcmp fuel (a.around before) (b.around behind) = some compared) :
    compared.result = compareChars a.chars b.chars ∧ ReadsInside a b compared.reads := by
  obtain ⟨reads, other, inside⟩ := strcmp_around a b before behind
  have first := strcmp_from_more _ _ fuel (fuel + (a.chars.length + 1)) 0 [] compared (Nat.le_add_right _ _) done
  have second := strcmp_from_more _ _ _ (fuel + (a.chars.length + 1)) 0 [] _ (Nat.le_add_left _ _) other
  obtain rfl := Option.some.inj (first.symm.trans second)
  exact ⟨rfl, inside⟩

theorem truncated_letter (num index : Nat) (inside : index < commonLength (a.chars.take num) (b.chars.take num)) :
    a.around before index = b.around behind index := by
  obtain ⟨shortA, shortB⟩ := common_length_le (a.chars.take num) (b.chars.take num)
  rw [List.length_take] at shortA shortB
  have whole : ∀ chars : List Letter, (chars.take num).getD index 0 = chars.getD index 0 := by
    intro chars
    rw [List.getD_eq_getElem?_getD, List.getD_eq_getElem?_getD, List.getElem?_take_of_lt (by omega)]
  rw [around_at a before index (by omega), around_at b behind index (by omega), ← whole a.chars, ← whole b.chars]
  exact common_letter _ _ index inside

end Truncated

theorem strncmp_prefix_iff (a b : Text Letter) (before behind : Int → Letter) (num : Nat) :
    IsPrefixComparison a b before behind num ↔ a.chars.take num = b.chars.take num ∧ a.chars.take num ≠ [] := by
  obtain ⟨reads, done, within⟩ := strncmp_from_spells (a.around before) (b.around behind) num 0 [] a.chars b.chars a.nonzero
    (around_spells a before) (around_spells b behind)
  obtain ⟨common, commonEq⟩ : ∃ common, common = commonLength (a.chars.take num) (b.chars.take num) := ⟨_, rfl⟩
  rw [← commonEq, Nat.zero_add] at done within
  have run : strncmp (a.around before) (b.around behind) num = compareAt (a.around before) (b.around behind) ((common : Int) - 1) reads :=
    done
  obtain ⟨shortA, shortB⟩ := common_length_le (a.chars.take num) (b.chars.take num)
  rw [← commonEq, List.length_take] at shortA shortB
  -- The letters in front of the place where the loop stopped are equal.
  have zero : 0 < common → (strncmp (a.around before) (b.around behind) num).result = 0 := by
    intro positive
    have last : (common : Int) - 1 = ((common - 1 : Nat) : Int) := by omega
    rw [run, compareAt, last, compare_letters_eq_zero]
    exact truncated_letter a b before behind num (common - 1) (by omega)
  constructor
  · rintro ⟨⟨fuel, compared, result⟩, inside⟩
    have first := (inside ((common : Int) - 1) (by rw [run]; exact List.mem_cons_self)).1
    have positive : 0 < common := by omega
    obtain ⟨equal, _⟩ := strcmp_run (a.truncate num) (b.truncate num) before behind fuel _ result
    dsimp only at equal
    rw [zero positive] at equal
    have same := (compare_chars_eq_zero _ _ (a.truncate num).nonzero (b.truncate num).nonzero).mp equal.symm
    refine ⟨same, fun empty => ?_⟩
    have none := congrArg List.length empty
    rw [List.length_take, List.length_nil] at none
    omega
  · rintro ⟨same, nonempty⟩
    have length : common = (a.chars.take num).length := by rw [commonEq, ← same, common_length_self]
    have positive : 0 < common := by
      rw [length]
      exact List.length_pos_iff.mpr nonempty
    obtain ⟨compared, result, _⟩ := strcmp_around (a.truncate num) (b.truncate num) before behind
    have equal := (compare_chars_eq_zero _ _ (a.truncate num).nonzero (b.truncate num).nonzero).mpr same
    refine ⟨⟨(a.truncate num).chars.length + 1, compared, ?_⟩, fun p member => ?_⟩
    · rw [zero positive, ← equal]
      exact result
    · rw [run] at member
      rcases List.mem_cons.mp member with rfl | member
      · omega
      · have inside := (within p member).resolve_left List.not_mem_nil
        omega

-- "ab" and "ac" differ in their second character, and the first ones are compared.
theorem second_letter_missed :
    ¬ IsPrefixComparison (⟨[97, 98], by decide⟩ : Text Int) ⟨[97, 99], by decide⟩ (fun _ => 0) (fun _ => 0) 2 := by
  rintro ⟨⟨fuel, compared, result⟩, _⟩
  obtain ⟨equal, _⟩ := strcmp_run (Text.truncate ⟨[97, 98], by decide⟩ 2) (Text.truncate ⟨[97, 99], by decide⟩ 2) (fun _ => (0 : Int))
    (fun _ => 0) fuel _ result
  dsimp only at equal
  exact absurd equal (by decide)

end Kraftwerk.Util
