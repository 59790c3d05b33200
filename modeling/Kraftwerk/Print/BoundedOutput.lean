import Kraftwerk.Print.Truncation
import Mathlib.Logic.Function.Basic

set_option autoImplicit false

-- What a call of kvsnprintf with a bufsz of at least 1 leaves in memory.
namespace Kraftwerk.Print

open CString

def storeAll (memory : Nat → Byte) (writes : List (Nat × Byte)) : Nat → Byte :=
  writes.foldl (fun memory write => Function.update memory write.1 write.2) memory

def contents (memory : Nat → Byte) (address length : Nat) : List Byte :=
  (List.range' address length).map memory

-- The call writes in its buffer only, and leaves there the first bufsz - 1 characters of
-- what the call without a bound prints, and a NUL.
def BoundedOutput (usable : Nat → Nat) (old : Nat → List Byte) (out : Nat) (bufsz : BitVec 64) (fmt : Str)
    (args : List Arg) : Prop :=
  ∃ bounded unbounded text,
    kvsnprintf usable old out bufsz fmt args = some bounded ∧
    kvsnprintf usable old out 0 fmt args = some unbounded ∧
    unbounded.writes = place out (text ++ [0]) ∧
    (∀ write ∈ bounded.writes, out ≤ write.1 ∧ write.1 < out + bufsz.toNat) ∧
    ∀ memory, contents (storeAll memory bounded.writes) out (min text.length (bufsz.toNat - 1) + 1) =
      text.take (bufsz.toNat - 1) ++ [0]

theorem place_mem_iff (address : Nat) (bytes : List Byte) (target : Nat) :
    (∃ cur, (target, cur) ∈ place address bytes) ↔ address ≤ target ∧ target < address + bytes.length := by
  induction bytes generalizing address with
  | nil => simp [place]
  | cons first rest ih =>
      have head : (∃ cur, (target, cur) ∈ place address (first :: rest)) ↔
          target = address ∨ ∃ cur, (target, cur) ∈ place (address + 1) rest := by
        simp only [place, List.mem_cons, Prod.mk.injEq]
        constructor
        · rintro ⟨cur, ⟨same, _⟩ | later⟩
          · exact Or.inl same
          · exact Or.inr ⟨cur, later⟩
        · rintro (same | ⟨cur, later⟩)
          · exact ⟨first, Or.inl ⟨same, rfl⟩⟩
          · exact ⟨cur, Or.inr later⟩
      rw [head, ih (address + 1), List.length_cons]
      omega

theorem store_all_below (memory : Nat → Byte) (address target : Nat) (bytes : List Byte) (below : target < address) :
    storeAll memory (place address bytes) target = memory target := by
  induction bytes generalizing memory address with
  | nil => rfl
  | cons first rest ih =>
      rw [place, storeAll, List.foldl_cons]
      exact (ih _ (address + 1) (Nat.lt_succ_of_lt below)).trans (Function.update_of_ne below.ne _ _)

theorem contents_place (memory : Nat → Byte) (address : Nat) (bytes : List Byte) :
    contents (storeAll memory (place address bytes)) address bytes.length = bytes := by
  induction bytes generalizing memory address with
  | nil => rfl
  | cons first rest ih =>
      rw [place, storeAll, List.foldl_cons, contents, List.length_cons, List.range'_succ, List.map_cons]
      refine congrArg₂ List.cons ?_ (ih _ (address + 1))
      exact (store_all_below _ (address + 1) address rest (Nat.lt_succ_self address)).trans (Function.update_self _ _ _)

theorem bounded_output_iff (usable : Nat → Nat) (old : Nat → List Byte) (out : Nat) (bufsz : BitVec 64) (fmt : Str)
    (args : List Arg) (found : List Directive) (given : out ≠ 0) (room : 1 ≤ bufsz.toNat)
    (matching : directives fmt args = some found) :
    BoundedOutput usable old out bufsz fmt args ↔
      ∃ pieces, convertAll usable old found = some pieces ∧
        ((written pieces).length ≤ bufsz.toNat - 1 ∨
          (bufsz.toNat - 1 < 2 ^ 32 ∧ .percent ∉ found ∧ EndsAt (bufsz.toNat - 1) pieces)) := by
  have size : bufsz.toNat = (bufsz.toNat - 1) + 1 := by omega
  rw [BoundedOutput]
  simp only [kvsnprintf_eq usable old out _ fmt args found matching]
  cases converted : convertAll usable old found with
  | none => simp
  | some pieces =>
      have within := shown_within_iff bufsz _ size pieces
      rw [convert_all_percents usable old found pieces converted] at within
      have writes := print_pieces_writes out bufsz pieces given
      constructor
      · rintro ⟨bounded, unbounded, text, run, _, _, inside, _⟩
        obtain rfl := Option.some.inj run
        refine ⟨pieces, rfl, within.mp ?_⟩
        obtain ⟨cur, last⟩ := (place_mem_iff out (shownFrom bufsz false 0 pieces ++ [0])
          (out + (shownFrom bufsz false 0 pieces).length)).mpr ⟨by omega, by simp⟩
        have bound := (inside _ (writes ▸ last)).2
        dsimp only at bound
        omega
      · rintro ⟨same, made, fits⟩
        obtain rfl := Option.some.inj made
        have short := within.mpr fits
        have shown := shown_eq_take bufsz _ size pieces short
        refine ⟨_, _, written pieces, rfl, rfl, ?_, ?_, ?_⟩
        · rw [print_pieces_writes out 0 pieces given, shown_unbounded]
        · intro write member
          obtain ⟨above, below⟩ := (place_mem_iff out _ write.1).mp ⟨write.2, writes ▸ member⟩
          rw [List.length_append, List.length_singleton] at below
          omega
        · intro memory
          have stored := contents_place memory out (shownFrom bufsz false 0 pieces ++ [0])
          rw [← writes, List.length_append, List.length_singleton, shown, List.length_take, Nat.min_comm] at stored
          exact stored

theorem bounded_output_number : BoundedOutput (fun request => max request 16) (fun _ => []) 4096 4
    (Str.ofBytes ("%d".toList.map chr)) [.word 123] :=
  (bounded_output_iff (fun request => max request 16) (fun _ => []) 4096 4 (Str.ofBytes ("%d".toList.map chr)) [.word 123]
    [.number { precision := 6 } ⟨32, true⟩ 10 123] (by decide) (by decide) (by decide)).mpr
      ⟨[.text (Str.ofBytes ("123".toList.map chr))], by decide, Or.inl (by decide)⟩

theorem number_past_buffer : ¬ BoundedOutput (fun request => max request 16) (fun _ => []) 4096 2
    (Str.ofBytes ("%d".toList.map chr)) [.word 123] := by
  rintro ⟨bounded, _, _, run, _, _, inside, _⟩
  have output : kvsnprintf (fun request => max request 16) (fun _ => []) 4096 2 (Str.ofBytes ("%d".toList.map chr))
      [.word 123] = some ⟨3, [(4096, chr '1'), (4097, chr '2'), (4098, chr '3'), (4099, 0)], []⟩ := by decide
  obtain rfl := Option.some.inj (run.symm.trans output)
  exact absurd (inside (4099, 0) (by simp)).2 (by decide)

end Kraftwerk.Print
