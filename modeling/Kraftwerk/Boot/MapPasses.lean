import Kraftwerk.Boot.MemoryMap

set_option autoImplicit false

-- kernel_init's two passes once more, with the entries each of them reads and
-- the array the second one fills.
namespace Kraftwerk.Boot

open Kraftwerk.Pmem

structure Passes where
  nMemRanges : Nat
  mmap : List BootMmap
  reads : List (BitVec 32)
deriving DecidableEq, Repr

def countPass (memory : Memory) (info : MultibootInfo) : Nat → BitVec 32 → Option (Nat × List (BitVec 32))
  | 0, _ => none
  | fuel + 1, cur =>
      if cur < mmapEnd info then
        (countPass memory info fuel (next cur (memory cur))).map fun (nMemRanges, reads) =>
          (if usable (memory cur) then nMemRanges + 1 else nMemRanges, cur :: reads)
      else some (0, [])

structure Search where
  cur : BitVec 32
  curStruct : Option (BitVec 32)
  reads : List (BitVec 32)
deriving DecidableEq, Repr

def searchPass (memory : Memory) (info : MultibootInfo) : Nat → BitVec 32 → Option (BitVec 32) → Option Search
  | 0, _, _ => none
  | fuel + 1, cur, curStruct =>
      if cur < mmapEnd info then
        if usable (memory cur) then some ⟨cur, some cur, [cur]⟩
        else
          (searchPass memory info fuel (next cur (memory cur)) (some cur)).map
            fun search => { search with reads := cur :: search.reads }
      else some ⟨cur, curStruct, []⟩

-- left iterations are still to come. A NULL cur_struct faults, as does mmap[i]
-- outside the room kmalloc gave.
def fillPass (memory : Memory) (info : MultibootInfo) (fuel : Nat) :
    Nat → Nat → BitVec 32 → List BootMmap → Option (List BootMmap × List (BitVec 32))
  | 0, _, _, mmap => some (mmap, [])
  | left + 1, i, cur, mmap =>
      (searchPass memory info fuel cur none).bind fun search =>
        search.curStruct.bind fun curStruct =>
          if i < mmap.length then
            (fillPass memory info fuel left (i + 1) (next search.cur (memory curStruct))
              (mmap.set i (toRange (memory curStruct)))).map
                fun (filled, reads) => (filled, search.reads ++ curStruct :: reads)
          else none

def kernelInitPasses (memory : Memory) (info : MultibootInfo) (kmalloc : Nat → List BootMmap) (fuel : Nat) :
    Option Passes :=
  (countPass memory info fuel info.mmapAddr).bind fun (nMemRanges, counted) =>
    (fillPass memory info fuel nMemRanges 0 info.mmapAddr (kmalloc nMemRanges)).map
      fun (mmap, filled) => ⟨nMemRanges, mmap, counted ++ filled⟩

theorem count_pass_ranges (memory : Memory) (info : MultibootInfo) (fuel : Nat) (cur : BitVec 32) :
    (countPass memory info fuel cur).map Prod.fst = countRanges memory info fuel cur := by
  induction fuel generalizing cur with
  | zero => rfl
  | succ fuel ih =>
      rw [countPass, countRanges, ← ih]
      split
      · cases countPass memory info fuel (next cur (memory cur)) <;> rfl
      · rfl

theorem search_pass_range (memory : Memory) (info : MultibootInfo) (fuel : Nat) (cur : BitVec 32)
    (curStruct : Option (BitVec 32)) :
    (searchPass memory info fuel cur curStruct).map (fun search => (search.cur, search.curStruct.map memory)) =
      findRange memory info fuel cur (curStruct.map memory) := by
  induction fuel generalizing cur curStruct with
  | zero => rfl
  | succ fuel ih =>
      rw [searchPass, findRange]
      split
      · split
        · rfl
        · have later := ih (next cur (memory cur)) (some cur)
          rw [Option.map_some] at later
          rw [← later, Option.map_map]
          rfl
      · rfl

theorem fill_pass_ranges (memory : Memory) (info : MultibootInfo) (fuel left i : Nat) (cur : BitVec 32)
    (mmap : List BootMmap) (room : i + left ≤ mmap.length) :
    (fillPass memory info fuel left i cur mmap).map Prod.fst =
      (collectRanges memory info fuel left cur).map (fun ranges => mmap.take i ++ ranges ++ mmap.drop (i + left)) := by
  induction left generalizing i cur mmap with
  | zero => simp [fillPass, collectRanges]
  | succ left ih =>
      have same := search_pass_range memory info fuel cur none
      rw [Option.map_none] at same
      rw [fillPass, collectRanges, ← same]
      cases searchPass memory info fuel cur none with
      | none => rfl
      | some search =>
          obtain ⟨stop, curStruct, reads⟩ := search
          cases curStruct with
          | none => rfl
          | some curStruct =>
              have later := ih (i + 1) (next stop (memory curStruct)) (mmap.set i (toRange (memory curStruct)))
                (by rw [List.length_set]; omega)
              have inRoom : i < mmap.length := by omega
              have kept : (mmap.set i (toRange (memory curStruct))).take (i + 1) =
                  mmap.take i ++ [toRange (memory curStruct)] := by
                rw [List.take_add_one, List.take_set_of_le (Nat.le_refl i)]
                simp [inRoom]
              have ahead : (mmap.set i (toRange (memory curStruct))).drop (i + 1 + left) = mmap.drop (i + (left + 1)) := by
                rw [List.drop_set_of_lt (by omega), show i + 1 + left = i + (left + 1) by omega]
              rw [kept, ahead] at later
              simp only [Option.bind_some, Option.map_some, if_pos inRoom, Option.map_map]
              rw [show (Prod.fst ∘ fun filled : List BootMmap × List (BitVec 32) =>
                (filled.1, reads ++ curStruct :: filled.2)) = Prod.fst from rfl, later]
              cases collectRanges memory info fuel left (next stop (memory curStruct)) with
              | none => rfl
              | some ranges => simp [toRange]

def BeforeEnd (info : MultibootInfo) (reads : List (BitVec 32)) : Prop := ∀ address ∈ reads, address < mmapEnd info

theorem count_pass_reads (memory : Memory) (info : MultibootInfo) (fuel : Nat) (cur : BitVec 32) (nMemRanges : Nat)
    (reads : List (BitVec 32)) (counted : countPass memory info fuel cur = some (nMemRanges, reads)) :
    BeforeEnd info reads := by
  induction fuel generalizing cur nMemRanges reads with
  | zero => simp [countPass] at counted
  | succ fuel ih =>
      rw [countPass] at counted
      split at counted
      · rename_i inside
        obtain ⟨⟨less, later⟩, laterEq, same⟩ := Option.map_eq_some_iff.mp counted
        obtain ⟨-, rfl⟩ := Prod.mk.inj same
        intro address member
        cases List.mem_cons.mp member with
        | inl here => exact here ▸ inside
        | inr ahead => exact ih _ _ _ laterEq address ahead
      · obtain ⟨-, rfl⟩ := Prod.mk.inj (Option.some.inj counted)
        simp [BeforeEnd]

-- cur_struct is NULL or an entry that the search has read.
theorem search_pass_reads (memory : Memory) (info : MultibootInfo) (fuel : Nat) (cur : BitVec 32)
    (curStruct : Option (BitVec 32)) (search : Search)
    (before : ∀ address, curStruct = some address → address < mmapEnd info)
    (searched : searchPass memory info fuel cur curStruct = some search) :
    BeforeEnd info search.reads ∧ ∀ address, search.curStruct = some address → address < mmapEnd info := by
  induction fuel generalizing cur curStruct search with
  | zero => simp [searchPass] at searched
  | succ fuel ih =>
      rw [searchPass] at searched
      split at searched
      · rename_i inside
        split at searched
        · obtain rfl := Option.some.inj searched
          exact ⟨by simpa [BeforeEnd] using inside, fun address same => Option.some.inj same ▸ inside⟩
        · obtain ⟨later, laterEq, rfl⟩ := Option.map_eq_some_iff.mp searched
          obtain ⟨inLater, found⟩ := ih _ _ later (fun address same => Option.some.inj same ▸ inside) laterEq
          refine ⟨fun address member => ?_, found⟩
          cases List.mem_cons.mp member with
          | inl here => exact here ▸ inside
          | inr ahead => exact inLater address ahead
      · obtain rfl := Option.some.inj searched
        exact ⟨by simp [BeforeEnd], before⟩

theorem fill_pass_reads (memory : Memory) (info : MultibootInfo) (fuel left i : Nat) (cur : BitVec 32)
    (mmap filled : List BootMmap) (reads : List (BitVec 32))
    (done : fillPass memory info fuel left i cur mmap = some (filled, reads)) : BeforeEnd info reads := by
  induction left generalizing i cur mmap filled reads with
  | zero =>
      obtain ⟨-, rfl⟩ := Prod.mk.inj (Option.some.inj done)
      simp [BeforeEnd]
  | succ left ih =>
      rw [fillPass] at done
      obtain ⟨search, searched, afterSearch⟩ := Option.bind_eq_some_iff.mp done
      obtain ⟨curStruct, found, afterFound⟩ := Option.bind_eq_some_iff.mp afterSearch
      split at afterFound
      · obtain ⟨⟨rest, later⟩, laterEq, same⟩ := Option.map_eq_some_iff.mp afterFound
        obtain ⟨-, rfl⟩ := Prod.mk.inj same
        obtain ⟨inSearch, known⟩ := search_pass_reads memory info fuel cur none search (by simp) searched
        intro address member
        cases List.mem_append.mp member with
        | inl here => exact inSearch address here
        | inr ahead =>
            cases List.mem_cons.mp ahead with
            | inl same => exact same ▸ known curStruct found
            | inr later => exact ih _ _ _ _ _ laterEq address later
      · cases afterFound

def mmapStop (info : MultibootInfo) : Nat := info.mmapAddr.toNat + info.mmapLength.toNat

-- The walk of the buffer in unbounded arithmetic: where its entries start. It
-- is the code's walk as long as no position wraps at 2^32.
inductive MapWalk (memory : Memory) (stop : Nat) : Nat → List (BitVec 32) → Prop
  | done (position : Nat) (ended : stop ≤ position) (fits : position < 2 ^ 32) : MapWalk memory stop position []
  | entry (cur : BitVec 32) (rest : List (BitVec 32)) (inside : cur.toNat < stop)
      (later : MapWalk memory stop (cur.toNat + (memory cur).size.toNat + 4) rest) :
      MapWalk memory stop cur.toNat (cur :: rest)

theorem map_walk_fits (memory : Memory) (stop position : Nat) (entries : List (BitVec 32))
    (walked : MapWalk memory stop position entries) : stop < 2 ^ 32 ∧ position < 2 ^ 32 := by
  induction walked with
  | done position ended fits => exact ⟨by omega, fits⟩
  | entry cur rest inside later ih => exact ⟨ih.1, cur.isLt⟩

theorem next_exact (cur : BitVec 32) (entry : MultibootMmap) (fits : cur.toNat + entry.size.toNat + 4 < 2 ^ 32) :
    (next cur entry).toNat = cur.toNat + entry.size.toNat + 4 := by
  have added : (entry.size + 4).toNat = entry.size.toNat + 4 := by
    rw [BitVec.toNat_add]
    exact Nat.mod_eq_of_lt (by rw [show (4 : BitVec 32).toNat = 4 from rfl]; omega)
  rw [next, BitVec.toNat_add, added]
  omega

theorem before_end_iff (info : MultibootInfo) (fits : mmapStop info < 2 ^ 32) (cur : BitVec 32) :
    cur < mmapEnd info ↔ cur.toNat < mmapStop info := by
  have stopEq : (mmapEnd info).toNat = mmapStop info := by
    rw [mmapEnd, BitVec.toNat_add, ← mmapStop, Nat.mod_eq_of_lt fits]
  rw [BitVec.lt_def, stopEq]

theorem map_walk_entries (memory : Memory) (info : MultibootInfo) (fuel position : Nat) (entries : List (BitVec 32))
    (cur : BitVec 32) (walked : MapWalk memory (mmapStop info) position entries) (here : cur.toNat = position)
    (enough : entries.length < fuel) : mmapEntries memory info fuel cur = some (entries.map memory) := by
  have fits := (map_walk_fits memory _ _ _ walked).1
  induction walked generalizing fuel cur with
  | done position ended _ =>
      obtain ⟨fuel, rfl⟩ : ∃ less, fuel = less + 1 := ⟨fuel - 1, by omega⟩
      rw [mmapEntries, if_neg (by rw [before_end_iff info fits]; omega)]
      rfl
  | entry position rest inside later ih =>
      obtain rfl := BitVec.eq_of_toNat_eq here
      obtain ⟨fuel, rfl⟩ : ∃ less, fuel = less + 1 := ⟨fuel - 1, by omega⟩
      have laterFits := (map_walk_fits memory _ _ _ later).2
      rw [mmapEntries, if_pos ((before_end_iff info fits cur).mpr inside),
        ih fuel _ (next_exact cur _ laterFits) (by simpa using enough)]
      rfl

theorem memory_map_passes_agree (memory : Memory) (info : MultibootInfo) (kmalloc : Nat → List BootMmap)
    (entries : List (BitVec 32)) (fuel : Nat) (walked : MapWalk memory (mmapStop info) info.mmapAddr.toNat entries)
    (room : ((entries.map memory).filter usable).length ≤ (kmalloc ((entries.map memory).filter usable).length).length)
    (enough : entries.length < fuel) :
    ∃ passes, kernelInitPasses memory info kmalloc fuel = some passes ∧
      passes.nMemRanges = ((entries.map memory).filter usable).length ∧
      passes.mmap = ((entries.map memory).filter usable).map toRange ++
        (kmalloc passes.nMemRanges).drop passes.nMemRanges ∧
      ∀ address ∈ passes.reads, address.toNat < mmapStop info := by
  have fits := (map_walk_fits memory _ _ _ walked).1
  have visited := map_walk_entries memory info fuel _ entries info.mmapAddr walked rfl enough
  have count := count_pass_ranges memory info fuel info.mmapAddr
  rw [count_ranges_entries, visited, Option.map_some] at count
  obtain ⟨⟨nMemRanges, counted⟩, countEq, rfl⟩ := Option.map_eq_some_iff.mp count
  have filling := fill_pass_ranges memory info fuel ((entries.map memory).filter usable).length 0 info.mmapAddr
    (kmalloc ((entries.map memory).filter usable).length) (by rwa [Nat.zero_add])
  rw [collect_ranges_entries memory info fuel fuel info.mmapAddr _ _ (Nat.le_refl _) visited rfl] at filling
  obtain ⟨⟨mmap, filled⟩, fillEq, mmapEq⟩ := Option.map_eq_some_iff.mp filling
  refine ⟨⟨_, mmap, counted ++ filled⟩, by simp only [kernelInitPasses, countEq, Option.bind_some, fillEq, Option.map_some],
    rfl, ?_, ?_⟩
  · simpa using mmapEq
  · intro address member
    rw [← before_end_iff info fits]
    cases List.mem_append.mp member with
    | inl first => exact count_pass_reads memory info fuel _ _ counted countEq address first
    | inr second => exact fill_pass_reads memory info fuel _ _ _ _ _ filled fillEq address second

-- Low memory, a usable range in an entry of an odd size, and a reserved range.
def threeEntries : Memory := fun address =>
  if address = 0x9000 then ⟨20, 0, 0x9FC00, 1⟩
  else if address = 0x9018 then ⟨23, 0x100000, 0x7EE0000, 1⟩
  else ⟨20, 0xFFFC0000, 0x40000, 2⟩

def threeEntriesInfo : MultibootInfo := ⟨75, 0x9000⟩

theorem three_entries_walked :
    MapWalk threeEntries (mmapStop threeEntriesInfo) threeEntriesInfo.mmapAddr.toNat [0x9000, 0x9018, 0x9033] :=
  .entry 0x9000 _ (by decide) (.entry 0x9018 _ (by decide) (.entry 0x9033 _ (by decide) (.done _ (by decide) (by decide))))

theorem three_entries_passes_agree :
    ∃ passes, kernelInitPasses threeEntries threeEntriesInfo (fun n => List.replicate n ⟨0, 0⟩) 4 = some passes ∧
      passes.nMemRanges = 1 ∧ passes.mmap = [⟨0x100000, 0x7EE0000⟩] := by
  obtain ⟨passes, done, count, filled, -⟩ := memory_map_passes_agree threeEntries threeEntriesInfo
    (fun n => List.replicate n ⟨0, 0⟩) _ 4 three_entries_walked (by decide) (by decide)
  have one : passes.nMemRanges = 1 := count.trans (by decide)
  rw [one] at filled
  exact ⟨passes, done, one, filled.trans (by decide)⟩

end Kraftwerk.Boot
