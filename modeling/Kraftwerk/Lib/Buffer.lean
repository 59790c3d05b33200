import Kraftwerk.Lib.CString
import Mathlib.Data.Finset.Card
import Mathlib.Data.Finset.Range

set_option autoImplicit false

-- Bytes from the start of a block on, those behind it as well, and the indices that were written.
namespace CString

structure Buffer where
  bytes : Nat → Byte
  writes : List Nat

namespace Buffer

def fresh (old : Nat → Byte) : Buffer := ⟨old, []⟩

def write (buffer : Buffer) (index : Nat) (value : Byte) : Buffer :=
  ⟨Function.update buffer.bytes index value, index :: buffer.writes⟩

def writeAll : Buffer → Nat → List Byte → Buffer
  | buffer, _, [] => buffer
  | buffer, pos, cur :: rest => (buffer.write pos cur).writeAll (pos + 1) rest

theorem write_same (buffer : Buffer) (index : Nat) (value : Byte) : (buffer.write index value).bytes index = value :=
  Function.update_self ..

theorem write_other (buffer : Buffer) (index other : Nat) (value : Byte) (apart : other ≠ index) :
    (buffer.write index value).bytes other = buffer.bytes other := Function.update_of_ne apart ..

theorem write_all_append (buffer : Buffer) (pos : Nat) (front back : List Byte) :
    buffer.writeAll pos (front ++ back) = (buffer.writeAll pos front).writeAll (pos + front.length) back := by
  induction front generalizing buffer pos with
  | nil => rfl
  | cons cur rest ih =>
      rw [List.cons_append, writeAll, writeAll, ih, List.length_cons, Nat.add_right_comm, Nat.add_assoc]

theorem write_all_outside (buffer : Buffer) (pos index : Nat) (chars : List Byte)
    (outside : index < pos ∨ pos + chars.length ≤ index) : (buffer.writeAll pos chars).bytes index = buffer.bytes index := by
  induction chars generalizing buffer pos with
  | nil => rfl
  | cons cur rest ih =>
      rw [List.length_cons] at outside
      rw [writeAll, ih (buffer.write pos cur) (pos + 1) (by omega), write_other buffer pos index cur (by omega)]

theorem write_all_spells (buffer : Buffer) (pos : Nat) (chars : List Byte) : Spells (buffer.writeAll pos chars).bytes pos chars := by
  induction chars generalizing buffer pos with
  | nil => trivial
  | cons cur rest ih =>
      refine ⟨?_, ih (buffer.write pos cur) (pos + 1)⟩
      rw [writeAll, write_all_outside _ (pos + 1) pos rest (.inl (Nat.lt_succ_self pos)), write_same]

-- What is written last is in its place, and what was written before it is beside it.
theorem write_all_beside (buffer : Buffer) (first second : Nat) (front back : List Byte)
    (apart : first + front.length ≤ second ∨ second + back.length ≤ first) :
    Spells ((buffer.writeAll first front).writeAll second back).bytes first front := by
  refine (spells_iff _ _ _).mpr (fun index inside => ?_)
  rw [write_all_outside _ second _ back (by omega)]
  exact (spells_iff _ _ _).mp (write_all_spells buffer first front) index inside

theorem write_all_writes (buffer : Buffer) (pos index : Nat) (chars : List Byte) :
    index ∈ (buffer.writeAll pos chars).writes ↔ index ∈ buffer.writes ∨ (pos ≤ index ∧ index < pos + chars.length) := by
  induction chars generalizing buffer pos with
  | nil => simp [writeAll]
  | cons cur rest ih =>
      rw [writeAll, ih, write, List.mem_cons, List.length_cons]
      constructor
      · rintro ((rfl | before) | inside)
        · exact .inr ⟨Nat.le_refl _, by omega⟩
        · exact .inl before
        · exact .inr (by omega)
      · rintro (before | inside)
        · exact .inl (.inr before)
        · rcases Nat.eq_or_lt_of_le inside.1 with rfl | less
          · exact .inl (.inl rfl)
          · exact .inr (by omega)

-- How many bytes were written, each counted once.
def bytesWritten (buffer : Buffer) : Nat := buffer.writes.toFinset.card

theorem bytes_written_range (buffer : Buffer) (count : Nat) (exact : ∀ index, index ∈ buffer.writes ↔ index < count) :
    buffer.bytesWritten = count := by
  have same : buffer.writes.toFinset = Finset.range count := by
    ext index
    rw [List.mem_toFinset, Finset.mem_range, exact]
  rw [bytesWritten, same, Finset.card_range]

end Buffer

end CString
