set_option autoImplicit false

-- NUL-terminated strings of bytes.
namespace CString

abbrev Byte := BitVec 8

def chr (c : Char) : Byte := BitVec.ofNat 8 c.toNat

structure Str where
  chars : List Byte
  nonzero : ∀ c ∈ chars, c ≠ 0
deriving DecidableEq

-- The string that starts at these bytes: it ends before their first NUL.
def Str.ofBytes (bytes : List Byte) : Str :=
  ⟨bytes.takeWhile (· ≠ 0), fun c member => by simpa using List.all_eq_true.mp List.all_takeWhile c member⟩

def Str.literal (text : String) : Str := Str.ofBytes (text.toList.map chr)

def Str.append (first second : Str) : Str where
  chars := first.chars ++ second.chars
  nonzero := fun c member => (List.mem_append.mp member).elim (first.nonzero c) (second.nonzero c)

@[simp] theorem of_bytes_append (str : Str) (bytes : List Byte) :
    (Str.ofBytes (str.chars ++ bytes)).chars = str.chars ++ (Str.ofBytes bytes).chars := by
  refine List.takeWhile_append_of_pos (fun c member => ?_)
  simpa using str.nonzero c member

theorem of_bytes_chars (bytes : List Byte) (nonzero : ∀ c ∈ bytes, c ≠ 0) : (Str.ofBytes bytes).chars = bytes := by
  simpa [Str.ofBytes] using of_bytes_append ⟨bytes, nonzero⟩ []

-- The byte at an index, where the terminator stands for everything from the end on.
def Str.byteAt (str : Str) (index : Nat) : Byte := str.chars.getD index 0

theorem byte_at_eq_zero_iff (str : Str) (index : Nat) : str.byteAt index = 0 ↔ str.chars.length ≤ index := by
  constructor
  · intro zero
    refine Nat.le_of_not_lt (fun inside => ?_)
    rw [Str.byteAt, List.getD_eq_getElem?_getD, List.getElem?_eq_getElem inside, Option.getD_some] at zero
    exact str.nonzero _ (List.getElem_mem inside) zero
  · intro past
    rw [Str.byteAt, List.getD_eq_getElem?_getD, List.getElem?_eq_none past, Option.getD_none]

theorem drop_eq_byte_at_cons (str : Str) (index : Nat) (inside : index < str.chars.length) :
    str.chars.drop index = str.byteAt index :: str.chars.drop (index + 1) := by
  rw [Str.byteAt, List.getD_eq_getElem?_getD, List.getElem?_eq_getElem inside, Option.getD_some]
  exact List.drop_eq_getElem_cons inside

-- The bytes from an address on are these.
def Spells {Letter : Type} (bytes : Nat → Letter) : Nat → List Letter → Prop
  | _, [] => True
  | pos, cur :: rest => bytes pos = cur ∧ Spells bytes (pos + 1) rest

section
variable {Letter : Type} (bytes : Nat → Letter) (pos : Nat)

theorem spells_append (front back : List Letter) :
    Spells bytes pos (front ++ back) ↔ Spells bytes pos front ∧ Spells bytes (pos + front.length) back := by
  induction front generalizing pos with
  | nil => simp [Spells]
  | cons cur rest ih =>
      rw [List.cons_append, Spells, Spells, ih, and_assoc, List.length_cons, Nat.add_right_comm, Nat.add_assoc]

theorem spells_iff (chars : List Letter) :
    Spells bytes pos chars ↔ ∀ index (inside : index < chars.length), bytes (pos + index) = chars[index] := by
  induction chars generalizing pos with
  | nil => exact ⟨fun _ index inside => absurd inside (Nat.not_lt_zero index), fun _ => trivial⟩
  | cons cur rest ih =>
      rw [Spells, ih]
      constructor
      · rintro ⟨here, later⟩ index inside
        cases index with
        | zero => exact here
        | succ index =>
            have shifted : pos + (index + 1) = pos + 1 + index := by omega
            exact (congrArg bytes shifted).trans (later index (Nat.lt_of_succ_lt_succ inside))
      · intro all
        refine ⟨all 0 (Nat.succ_pos _), fun index inside => ?_⟩
        rw [Nat.add_assoc, Nat.add_comm 1]
        exact all (index + 1) (Nat.succ_lt_succ inside)

end

-- A string at the start of these bytes, with its NUL.
def Str.HeldBy (str : Str) (bytes : Nat → Byte) : Prop := Spells bytes 0 (str.chars ++ [0])

theorem held_of_spells (bytes : Nat → Byte) (chars : List Byte) (spelled : Spells bytes 0 (chars ++ [0])) :
    (Str.ofBytes chars).HeldBy bytes := by
  have cut := List.takeWhile_append_dropWhile (p := (· ≠ 0)) (l := chars)
  cases behind : chars.dropWhile (· ≠ 0) with
  | nil =>
      rw [behind, List.append_nil] at cut
      have whole : (Str.ofBytes chars).chars = chars := cut
      rw [Str.HeldBy, whole]
      exact spelled
  | cons first rest =>
      have zero : first = 0 := by
        have stopped := List.head?_dropWhile_not (· ≠ 0) chars
        rw [behind] at stopped
        simpa using stopped
      rw [← cut, behind, zero, List.append_assoc] at spelled
      obtain ⟨front, here, _⟩ := (spells_append bytes 0 _ _).mp spelled
      exact (spells_append bytes 0 _ _).mpr ⟨front, here, trivial⟩

theorem held_by_iff (str : Str) (bytes : Nat → Byte) :
    str.HeldBy bytes ↔ ∀ index ≤ str.chars.length, bytes index = str.byteAt index := by
  rw [Str.HeldBy, spells_iff]
  have byte : ∀ index (inside : index < (str.chars ++ [0]).length), (str.chars ++ [0])[index] = str.byteAt index := by
    intro index inside
    rw [Str.byteAt, List.getD_eq_getElem?_getD, List.getElem_append]
    split
    · rename_i before
      rw [List.getElem?_eq_getElem before, Option.getD_some]
    · rename_i notBefore
      rw [List.getElem?_eq_none (Nat.le_of_not_lt notBefore), Option.getD_none, List.getElem_singleton]
  constructor
  · intro spelled index within
    have inside : index < (str.chars ++ [0]).length := by simpa using Nat.lt_succ_of_le within
    rw [← byte index inside, ← spelled index inside, Nat.zero_add]
  · intro same index inside
    rw [byte index inside, Nat.zero_add]
    rw [List.length_append, List.length_singleton] at inside
    exact same index (Nat.le_of_lt_succ inside)

theorem held_stop (str : Str) (bytes : Nat → Byte) (stop : Nat) (held : str.HeldBy bytes) (zero : bytes stop = 0)
    (inside : ∀ index < stop, bytes index ≠ 0) : stop = str.chars.length := by
  have byte := (held_by_iff str bytes).mp held
  rcases Nat.lt_trichotomy stop str.chars.length with less | same | more
  · rw [byte stop (Nat.le_of_lt less), byte_at_eq_zero_iff] at zero
    exact absurd less (Nat.not_lt.mpr zero)
  · exact same
  · refine absurd ?_ (inside str.chars.length more)
    exact (byte _ (Nat.le_refl _)).trans ((byte_at_eq_zero_iff str _).mpr (Nat.le_refl _))

def placed (str : Str) (beyond : Nat → Byte) (index : Nat) : Byte :=
  if index ≤ str.chars.length then str.byteAt index else beyond index

theorem placed_held (str : Str) (beyond : Nat → Byte) : str.HeldBy (placed str beyond) :=
  (held_by_iff str _).mpr (fun _ within => if_pos within)

end CString
