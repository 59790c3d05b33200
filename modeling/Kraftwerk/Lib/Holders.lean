import Mathlib.Algebra.Order.BigOperators.Group.Finset

set_option autoImplicit false

-- The handles alive at a moment and what each holds. A total over them changes with one handle
-- by what it held and what it holds now.
namespace Holders

structure Family (Holder Value : Type) where
  live : Finset Holder
  value : Holder → Value

variable {Holder Value Amount : Type} [DecidableEq Holder]

namespace Family

def add (family : Family Holder Value) (holder : Holder) (value : Value) : Family Holder Value :=
  ⟨insert holder family.live, Function.update family.value holder value⟩

def set (family : Family Holder Value) (holder : Holder) (value : Value) : Family Holder Value :=
  ⟨family.live, Function.update family.value holder value⟩

def drop (family : Family Holder Value) (holder : Holder) : Family Holder Value := ⟨family.live.erase holder, family.value⟩

section Values

variable (family : Family Holder Value) (holder other rhs : Holder) (value : Value)

@[simp] theorem set_live : (family.set holder value).live = family.live := rfl

@[simp] theorem add_value : (family.add holder value).value holder = value := Function.update_self ..

@[simp] theorem set_value : (family.set holder value).value holder = value := Function.update_self ..

theorem add_value_other (apart : other ≠ holder) :
    (family.add holder value).value other = family.value other := Function.update_of_ne apart ..

theorem set_value_other (apart : other ≠ holder) :
    (family.set holder value).value other = family.value other := Function.update_of_ne apart ..

-- What a handle takes from another one, itself included, the other one still holds.
theorem set_taken : (family.set holder (family.value rhs)).value rhs = family.value rhs := by
  rcases eq_or_ne rhs holder with rfl | apart
  · exact set_value ..
  · exact set_value_other _ _ _ _ apart

end Values

section Total

variable [AddCommMonoid Amount] (worth : Value → Amount)

def total (family : Family Holder Value) (worth : Value → Amount) : Amount := ∑ holder ∈ family.live, worth (family.value holder)

theorem total_drop (family : Family Holder Value) (holder : Holder) (alive : holder ∈ family.live) :
    (family.drop holder).total worth + worth (family.value holder) = family.total worth :=
  Finset.sum_erase_add family.live (fun other => worth (family.value other)) alive

theorem total_add (family : Family Holder Value) (holder : Holder) (value : Value) (dead : holder ∉ family.live) :
    (family.add holder value).total worth = family.total worth + worth value := by
  have split : (family.add holder value).total worth =
      worth ((family.add holder value).value holder) + ∑ other ∈ family.live, worth ((family.add holder value).value other) :=
    Finset.sum_insert dead
  have others : ∀ other ∈ family.live, worth ((family.add holder value).value other) = worth (family.value other) := by
    intro other alive
    rw [add_value_other family holder other value (ne_of_mem_of_not_mem alive dead)]
  rw [split, add_value, Finset.sum_congr rfl others, add_comm, total]

theorem total_set (family : Family Holder Value) (holder : Holder) (value : Value) (alive : holder ∈ family.live) :
    (family.set holder value).total worth + worth (family.value holder) = family.total worth + worth value := by
  have others : (family.set holder value).drop holder = (family.drop holder).set holder value := rfl
  have same : ((family.drop holder).set holder value).total worth = (family.drop holder).total worth := by
    refine Finset.sum_congr rfl (fun other member => ?_)
    rw [set_value_other (family.drop holder) holder other value (Finset.ne_of_mem_erase member)]
  have before := total_drop worth family holder alive
  have after := total_drop worth (family.set holder value) holder alive
  rw [others, same, set_value] at after
  rw [← before, ← after, add_right_comm]

end Total

section Numbers

variable (worth : Value → Nat) (family : Family Holder Value)

theorem le_total (holder : Holder) (alive : holder ∈ family.live) : worth (family.value holder) ≤ family.total worth := by
  rw [← total_drop worth family holder alive]
  exact Nat.le_add_left _ _

omit [DecidableEq Holder] in
theorem total_pos (positive : 0 < family.total worth) : ∃ holder ∈ family.live, 0 < worth (family.value holder) :=
  Finset.exists_lt_of_sum_lt (by rw [Finset.sum_const_zero]; exact positive)

-- Two different handles count twice.
theorem le_total_drop (holder other : Holder) (otherAlive : other ∈ family.live) (apart : other ≠ holder) :
    worth (family.value other) ≤ (family.drop holder).total worth :=
  le_total worth (family.drop holder) other (Finset.mem_erase.mpr ⟨apart, otherAlive⟩)

theorem holder_unique (first second : Holder) (once : family.total worth ≤ 1) (firstAlive : first ∈ family.live)
    (secondAlive : second ∈ family.live) (firstHolds : 0 < worth (family.value first)) (secondHolds : 0 < worth (family.value second)) :
    first = second := by
  by_contra apart
  have split := total_drop worth family first firstAlive
  have other := le_total_drop worth family first second secondAlive (Ne.symm apart)
  omega

-- A handle takes what another one holds and leaves it with nothing. What it held itself is gone.
theorem total_move (holder rhs : Holder) (left : Value) (alive : holder ∈ family.live) (rhsAlive : rhs ∈ family.live)
    (nothing : worth left = 0) :
    ((family.set holder (family.value rhs)).set rhs left).total worth + worth (family.value holder) = family.total worth := by
  have taken := total_set worth family holder (family.value rhs) alive
  have given := total_set worth (family.set holder (family.value rhs)) rhs left rhsAlive
  rw [set_taken, nothing] at given
  omega

theorem total_move_add (holder rhs : Holder) (left : Value) (dead : holder ∉ family.live) (rhsAlive : rhs ∈ family.live)
    (nothing : worth left = 0) : ((family.add holder (family.value rhs)).set rhs left).total worth = family.total worth := by
  have taken := total_add worth family holder (family.value rhs) dead
  have given := total_set worth (family.add holder (family.value rhs)) rhs left (Finset.mem_insert_of_mem rhsAlive)
  rw [add_value_other family holder rhs _ (ne_of_mem_of_not_mem rhsAlive dead), nothing] at given
  omega

theorem total_exchange (holder rhs : Holder) (alive : holder ∈ family.live) (rhsAlive : rhs ∈ family.live) :
    ((family.set holder (family.value rhs)).set rhs (family.value holder)).total worth = family.total worth := by
  have taken := total_set worth family holder (family.value rhs) alive
  have given := total_set worth (family.set holder (family.value rhs)) rhs (family.value holder) rhsAlive
  rw [set_taken] at given
  omega

end Numbers

end Family

end Holders
