import Mathlib.Data.BitVec
import Mathlib.Logic.Function.Basic

set_option autoImplicit false

-- A stack of 64-bit words that grows downwards in memory. Slot number depth
-- lies depth words below the address top, and the words are listed last pushed first.
namespace DownStack

abbrev Word := BitVec 64

def slot (top : Word) (depth : Nat) : Word := top - BitVec.ofNat 64 (8 * depth)

def Holds (mem : Word → Word) (top : Word) : List Word → Prop
  | [] => True
  | word :: rest => mem (slot top (rest.length + 1)) = word ∧ Holds mem top rest

theorem slot_push (top : Word) (depth : Nat) : slot top depth - 8 = slot top (depth + 1) := by
  rw [slot, slot, Nat.mul_add, BitVec.ofNat_add, sub_sub]
  rfl

theorem slot_pop (top : Word) (depth : Nat) : slot top (depth + 1) + 8 = slot top depth := by
  rw [← slot_push, BitVec.sub_add_cancel]

theorem slot_load (top : Word) (depth count : Nat) (le : count ≤ depth) :
    slot top depth + BitVec.ofNat 64 (8 * count) = slot top (depth - count) := by
  obtain ⟨rest, rfl⟩ := Nat.exists_eq_add_of_le le
  rw [slot, slot, Nat.mul_add, BitVec.ofNat_add, BitVec.add_comm (BitVec.ofNat 64 (8 * count)), ← sub_sub,
    sub_add_cancel, Nat.add_sub_cancel_left]

theorem slot_injective (top : Word) (depth other : Nat) (small : depth < 2 ^ 61) (otherSmall : other < 2 ^ 61)
    (same : slot top depth = slot top other) : depth = other := by
  have offsets := congrArg (fun address => (top - address).toNat) same
  simp only [slot, sub_sub_cancel, BitVec.toNat_ofNat] at offsets
  rw [Nat.mod_eq_of_lt (by omega), Nat.mod_eq_of_lt (by omega)] at offsets
  omega

theorem holds_update (mem : Word → Word) (top word : Word) (words : List Word) (depth : Nat) (above : words.length < depth)
    (small : depth < 2 ^ 61) (holds : Holds mem top words) :
    Holds (Function.update mem (slot top depth) word) top words := by
  induction words with
  | nil => trivial
  | cons first rest ih =>
      obtain ⟨here, later⟩ := holds
      rw [List.length_cons] at above
      refine ⟨?_, ih (by omega) later⟩
      rw [Function.update_of_ne, here]
      intro same
      have := slot_injective top _ _ (by omega) small same
      omega

theorem holds_push (mem : Word → Word) (top word : Word) (words : List Word) (small : words.length + 1 < 2 ^ 61)
    (holds : Holds mem top words) :
    Holds (Function.update mem (slot top (words.length + 1)) word) top (word :: words) :=
  ⟨Function.update_self .., holds_update mem top word words _ (Nat.lt_succ_self _) small holds⟩

theorem holds_get (mem : Word → Word) (top word : Word) (words : List Word) (index : Nat) (holds : Holds mem top words)
    (found : words[index]? = some word) : mem (slot top (words.length - index)) = word := by
  induction words generalizing index with
  | nil => simp at found
  | cons first rest ih =>
      cases index with
      | zero =>
          obtain rfl := Option.some.inj found
          exact holds.1
      | succ index =>
          rw [List.length_cons, Nat.add_sub_add_right]
          exact ih index holds.2 found

theorem holds_congr (mem other : Word → Word) (top : Word) (words : List Word) (holds : Holds mem top words)
    (same : ∀ depth, 1 ≤ depth → depth ≤ words.length → other (slot top depth) = mem (slot top depth)) :
    Holds other top words := by
  induction words with
  | nil => trivial
  | cons first rest ih =>
      simp only [List.length_cons] at same
      refine ⟨?_, ih holds.2 (fun depth positive le => same depth positive (by omega))⟩
      rw [same _ (by omega) (Nat.le_refl _)]
      exact holds.1

end DownStack
