import Kraftwerk.Pmem.Initialize

set_option autoImplicit false

-- The memory map part of kernel_init in os/boot/x86-64/init.cpp.
namespace Kraftwerk.Boot

open Kraftwerk.Pmem

structure MultibootMmap where
  size : BitVec 32
  baseAddr : BitVec 64
  length : BitVec 64
  type : BitVec 32
deriving DecidableEq, Repr

structure MultibootInfo where
  mmapLength : BitVec 32
  mmapAddr : BitVec 32
deriving DecidableEq, Repr

abbrev Memory := BitVec 32 → MultibootMmap

def usable (entry : MultibootMmap) : Bool := entry.type == 1 && decide (0x100000 ≤ entry.baseAddr.toNat)

def next (cur : BitVec 32) (entry : MultibootMmap) : BitVec 32 := cur + (entry.size + 4)

def mmapEnd (info : MultibootInfo) : BitVec 32 := info.mmapAddr + info.mmapLength

-- Each loop is bounded by fuel: an entry of size 2^32 - 4, for one, never lets cur move on.
def countRanges (memory : Memory) (info : MultibootInfo) : Nat → BitVec 32 → Option Nat
  | 0, _ => none
  | fuel + 1, cur =>
      if cur < mmapEnd info then
        (countRanges memory info fuel (next cur (memory cur))).map
          fun nMemRanges => if usable (memory cur) then nMemRanges + 1 else nMemRanges
      else some 0

-- The inner loop of the second pass: cur and cur_struct where it breaks or ends.
def findRange (memory : Memory) (info : MultibootInfo) :
    Nat → BitVec 32 → Option MultibootMmap → Option (BitVec 32 × Option MultibootMmap)
  | 0, _, _ => none
  | fuel + 1, cur, curStruct =>
      if cur < mmapEnd info then
        if usable (memory cur) then some (cur, some (memory cur))
        else findRange memory info fuel (next cur (memory cur)) (some (memory cur))
      else some (cur, curStruct)

-- A cur_struct that is still NULL faults.
def collectRanges (memory : Memory) (info : MultibootInfo) (fuel : Nat) : Nat → BitVec 32 → Option (List BootMmap)
  | 0, _ => some []
  | left + 1, cur =>
      (findRange memory info fuel cur none).bind fun (stop, found) =>
        found.bind fun curStruct =>
          (collectRanges memory info fuel left (next stop curStruct)).map
            fun rest => ⟨curStruct.baseAddr, curStruct.length⟩ :: rest

def kernelInitRanges (memory : Memory) (info : MultibootInfo) (fuel : Nat) : Option (List BootMmap) :=
  (countRanges memory info fuel info.mmapAddr).bind fun nMemRanges =>
    collectRanges memory info fuel nMemRanges info.mmapAddr

def mmapEntries (memory : Memory) (info : MultibootInfo) : Nat → BitVec 32 → Option (List MultibootMmap)
  | 0, _ => none
  | fuel + 1, cur =>
      if cur < mmapEnd info then
        (mmapEntries memory info fuel (next cur (memory cur))).map (fun rest => memory cur :: rest)
      else some []

def toRange (entry : MultibootMmap) : BootMmap := ⟨entry.baseAddr, entry.length⟩

theorem count_ranges_entries (memory : Memory) (info : MultibootInfo) (fuel : Nat) (cur : BitVec 32) :
    countRanges memory info fuel cur =
      (mmapEntries memory info fuel cur).map (fun entries => (entries.filter usable).length) := by
  induction fuel generalizing cur with
  | zero => rfl
  | succ fuel ih =>
      rw [countRanges, mmapEntries]
      split
      · rw [ih]
        cases mmapEntries memory info fuel (next cur (memory cur)) with
        | none => rfl
        | some rest => by_cases use : usable (memory cur) <;> simp [use]
      · rfl

-- The inner loop stops at the first usable entry of the walk, with the rest of it ahead.
theorem find_range_first (memory : Memory) (info : MultibootInfo) (fuel more : Nat) (cur : BitVec 32)
    (before : Option MultibootMmap) (entries : List MultibootMmap) (first : MultibootMmap) (others : List MultibootMmap)
    (le : fuel ≤ more) (walked : mmapEntries memory info fuel cur = some entries)
    (usableEq : entries.filter usable = first :: others) :
    ∃ stop rest, findRange memory info more cur before = some (stop, some first) ∧
      (∃ less ≤ fuel, mmapEntries memory info less (next stop first) = some rest) ∧ rest.filter usable = others := by
  induction fuel generalizing more cur before entries with
  | zero => simp [mmapEntries] at walked
  | succ fuel ih =>
      obtain ⟨more, rfl⟩ : ∃ less, more = less + 1 := ⟨more - 1, by omega⟩
      rw [mmapEntries] at walked
      split at walked
      · rename_i inside
        obtain ⟨rest, restEq, rfl⟩ := Option.map_eq_some_iff.mp walked
        rw [findRange, if_pos inside]
        by_cases use : usable (memory cur)
        · rw [List.filter_cons_of_pos use] at usableEq
          obtain ⟨rfl, othersEq⟩ := List.cons.inj usableEq
          rw [if_pos use]
          exact ⟨cur, rest, rfl, ⟨fuel, by omega, restEq⟩, othersEq⟩
        · rw [List.filter_cons_of_neg use] at usableEq
          rw [if_neg use]
          obtain ⟨stop, tail, found, ⟨less, lessLe, tailEq⟩, tailUsable⟩ :=
            ih more (next cur (memory cur)) (some (memory cur)) rest (by omega) restEq usableEq
          exact ⟨stop, tail, found, ⟨less, by omega, tailEq⟩, tailUsable⟩
      · obtain rfl := Option.some.inj walked
        simp at usableEq

theorem collect_ranges_entries (memory : Memory) (info : MultibootInfo) (fuel less : Nat) (cur : BitVec 32)
    (entries usableEntries : List MultibootMmap) (le : less ≤ fuel)
    (walked : mmapEntries memory info less cur = some entries) (usableEq : entries.filter usable = usableEntries) :
    collectRanges memory info fuel usableEntries.length cur = some (usableEntries.map toRange) := by
  induction usableEntries generalizing less cur entries with
  | nil => rfl
  | cons first others ih =>
      obtain ⟨stop, rest, found, ⟨fewer, fewerLe, restEq⟩, restUsable⟩ :=
        find_range_first memory info less fuel cur none entries first others le walked usableEq
      have later := ih fewer (next stop first) rest (by omega) restEq restUsable
      simp only [List.length_cons, collectRanges, found, Option.bind_some, later, Option.map_some, List.map_cons, toRange]

theorem kernel_init_ranges_entries (memory : Memory) (info : MultibootInfo) (fuel : Nat) :
    kernelInitRanges memory info fuel =
      (mmapEntries memory info fuel info.mmapAddr).map (fun entries => (entries.filter usable).map toRange) := by
  rw [kernelInitRanges, count_ranges_entries]
  cases walked : mmapEntries memory info fuel info.mmapAddr with
  | none => rfl
  | some entries => exact collect_ranges_entries memory info fuel fuel info.mmapAddr entries _ (Nat.le_refl _) walked rfl

end Kraftwerk.Boot
