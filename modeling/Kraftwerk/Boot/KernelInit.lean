import Kraftwerk.Boot.MapPasses
import Kraftwerk.Vga.Writehex

set_option autoImplicit false

-- kernel_init up to physical_memory::initialize: what it makes of the memory map, and what the screen shows of it.
namespace Kraftwerk.Boot

open CString Pmem Vga

-- What malloc_init writes. The lists that it makes are behind what kmalloc answers.
def reportMallocInit (fuel : Nat) (mallocInitSpace : BitVec 64) (terminal : Terminal) : Option Terminal :=
  (terminalWritestring fuel (.literal "Initializng kernel dynamic allocation.\n") terminal).bind fun terminal =>
    (terminalWritestring fuel (.literal "Heap initspace starts at 0x") terminal).bind fun terminal =>
      terminalWritestring fuel (.literal "Kernel dynamic memory initialization complete.\n")
        (terminalPutchar (chr '\n') (@terminalWritehex 8 mallocInitSpace terminal))

def reportRange (fuel : Nat) (curStruct : MultibootMmap) (terminal : Terminal) : Option Terminal :=
  (terminalWritestring fuel (.literal "\ninit: usable memory at 0x") terminal).bind fun terminal =>
    (terminalWritestring fuel (.literal "\ninit: length = 0x") (@terminalWritehex 8 curStruct.baseAddr terminal)).map
      fun terminal => @terminalWritehex 8 curStruct.length terminal

-- The second pass, with left iterations still to come.
def reportPass (memory : Memory) (info : MultibootInfo) (fuel : Nat) :
    Nat → Nat → BitVec 32 → List BootMmap → Terminal → Option (List BootMmap × Terminal)
  | 0, _, _, mmap, terminal => some (mmap, terminal)
  | left + 1, i, cur, mmap, terminal =>
      (searchPass memory info fuel cur none).bind fun search =>
        search.curStruct.bind fun curStruct =>
          (reportRange fuel (memory curStruct) terminal).bind fun terminal =>
            if i < mmap.length then
              reportPass memory info fuel left (i + 1) (next search.cur (memory curStruct)) (mmap.set i (toRange (memory curStruct)))
                terminal
            else none

-- n_mem_ranges and mmap. test_mem is written to the block that kmalloc has given for it.
def kernelInitMap (memory : Memory) (info : MultibootInfo) (magic : BitVec 32) (mallocInitSpace : BitVec 64)
    (kmalloc : Nat → List BootMmap) (fuel : Nat) (terminal : Terminal) : Option (Nat × List BootMmap × Terminal) :=
  (terminalWritestring fuel (.literal "Test!\n") (terminalInitialize terminal)).bind fun terminal =>
    (if magic = 0x2BADB002 then terminalWritestring fuel (.literal "yes\n") terminal else some terminal).bind fun terminal =>
      (reportMallocInit fuel mallocInitSpace terminal).bind fun terminal =>
        (countPass memory info fuel info.mmapAddr).bind fun (nMemRanges, _) =>
          (reportPass memory info fuel nMemRanges 0 info.mmapAddr (kmalloc nMemRanges) terminal).bind fun (mmap, terminal) =>
            (terminalWritestring fuel (.literal "\nDynmemTestStr!") terminal).map fun terminal => (nMemRanges, mmap, terminal)

def mallocInitText (mallocInitSpace : BitVec 64) : List Byte :=
  (Str.literal "Initializng kernel dynamic allocation.\n").chars ++ ((Str.literal "Heap initspace starts at 0x").chars ++
    (@hexText 8 mallocInitSpace ++ ([chr '\n'] ++ (Str.literal "Kernel dynamic memory initialization complete.\n").chars)))

def rangeText (entry : MultibootMmap) : List Byte :=
  (Str.literal "\ninit: usable memory at 0x").chars ++ (@hexText 8 entry.baseAddr ++
    ((Str.literal "\ninit: length = 0x").chars ++ @hexText 8 entry.length))

def mapText (magic : BitVec 32) (mallocInitSpace : BitVec 64) (ranges : List MultibootMmap) : List Byte :=
  (Str.literal "Test!\n").chars ++ ((if magic = 0x2BADB002 then (Str.literal "yes\n").chars else []) ++
    (mallocInitText mallocInitSpace ++ (ranges.flatMap rangeText ++ (Str.literal "\nDynmemTestStr!").chars)))

section Report

variable (memory : Memory) (info : MultibootInfo) (fuel : Nat) (enough : 2 ^ 32 ≤ fuel)

theorem report_malloc_init_shown (mallocInitSpace : BitVec 64) (terminal : Terminal) (page : Page) (shows : Shows terminal page)
    (enough : 2 ^ 32 ≤ fuel) : ∃ last, reportMallocInit fuel mallocInitSpace terminal = some last ∧
      Shows last (page.putAll (mallocInitText mallocInitSpace)) := by
  obtain ⟨first, one, page1⟩ := string_shown fuel terminal page (.literal "Initializng kernel dynamic allocation.\n") shows (by decide) enough
  obtain ⟨second, two, page2⟩ := string_shown fuel first _ (.literal "Heap initspace starts at 0x") page1 (by decide) enough
  have digits := @writehex_shows 8 mallocInitSpace second _ page2
  obtain ⟨last, three, page3⟩ := string_shown fuel _ _ (.literal "Kernel dynamic memory initialization complete.\n")
    (putchar_shows _ _ (chr '\n') digits) (by decide) enough
  refine ⟨last, by rw [reportMallocInit, one, Option.bind_some, two, Option.bind_some, three], ?_⟩
  simp only [mallocInitText, page_put_all_append]
  exact page3

theorem report_range_shown (entry : MultibootMmap) (terminal : Terminal) (page : Page) (shows : Shows terminal page)
    (enough : 2 ^ 32 ≤ fuel) :
    ∃ last, reportRange fuel entry terminal = some last ∧ Shows last (page.putAll (rangeText entry)) := by
  obtain ⟨first, one, page1⟩ := string_shown fuel terminal page (.literal "\ninit: usable memory at 0x") shows (by decide) enough
  obtain ⟨second, two, page2⟩ := string_shown fuel _ _ (.literal "\ninit: length = 0x") (@writehex_shows 8 entry.baseAddr first _ page1)
    (by decide) enough
  refine ⟨@terminalWritehex 8 entry.length second, by rw [reportRange, one, Option.bind_some, two, Option.map_some], ?_⟩
  simp only [rangeText, page_put_all_append]
  exact @writehex_shows 8 entry.length second _ page2

include enough in
-- With some usable entries ahead, the pass stores and reports exactly these.
theorem report_pass_entries (less i : Nat) (cur : BitVec 32) (entries usableEntries : List MultibootMmap) (mmap : List BootMmap)
    (terminal : Terminal) (page : Page) (le : less ≤ fuel) (walked : mmapEntries memory info less cur = some entries)
    (usableEq : entries.filter usable = usableEntries) (room : i + usableEntries.length ≤ mmap.length) (shows : Shows terminal page) :
    ∃ last, reportPass memory info fuel usableEntries.length i cur mmap terminal =
        some (mmap.take i ++ usableEntries.map toRange ++ mmap.drop (i + usableEntries.length), last) ∧
      Shows last (page.putAll (usableEntries.flatMap rangeText)) := by
  induction usableEntries generalizing less i cur entries mmap terminal page with
  | nil => exact ⟨terminal, by simp [reportPass], shows⟩
  | cons first others ih =>
      rw [List.length_cons] at room
      obtain ⟨stop, rest, found, ⟨fewer, fewerLe, restEq⟩, restUsable⟩ :=
        find_range_first memory info less fuel cur none entries first others le walked usableEq
      have searched := search_pass_range memory info fuel cur none
      rw [Option.map_none, found] at searched
      obtain ⟨search, searchEq, same⟩ := Option.map_eq_some_iff.mp searched
      obtain ⟨stopEq, structEq⟩ := Prod.mk.inj same
      obtain ⟨curStruct, curEq, firstEq⟩ := Option.map_eq_some_iff.mp structEq
      obtain ⟨between, reported, between_page⟩ := report_range_shown fuel first terminal page shows enough
      have inRoom : i < mmap.length := by omega
      obtain ⟨last, later, lastPage⟩ := ih fewer (i + 1) (next stop first) rest (mmap.set i (toRange first)) between _ (by omega) restEq
        restUsable (by rw [List.length_set]; omega) between_page
      refine ⟨last, ?_, by rw [List.flatMap_cons, page_put_all_append]; exact lastPage⟩
      have kept : (mmap.set i (toRange first)).take (i + 1) = mmap.take i ++ [toRange first] := by
        rw [List.take_add_one, List.take_set_of_le (Nat.le_refl i)]
        simp [inRoom]
      have ahead : (mmap.set i (toRange first)).drop (i + 1 + others.length) = mmap.drop (i + (others.length + 1)) := by
        rw [List.drop_set_of_lt (by omega), show i + 1 + others.length = i + (others.length + 1) by omega]
      rw [List.length_cons, reportPass, searchEq, Option.bind_some, curEq, Option.bind_some, firstEq, reported, Option.bind_some,
        if_pos inRoom, stopEq, later, kept, ahead, List.map_cons, List.append_assoc, List.append_assoc, List.append_assoc,
        List.singleton_append, List.cons_append]

theorem range_text_injective (entries others : List MultibootMmap) (same : entries.flatMap rangeText = others.flatMap rangeText) :
    entries.map toRange = others.map toRange := by
  have positive : ∀ entry rest, rangeText entry ++ rest ≠ [] := by
    intro entry rest none
    exact absurd (List.append_eq_nil_iff.mp (List.append_eq_nil_iff.mp none).1).1 (by decide)
  induction entries generalizing others with
  | nil =>
      cases others with
      | nil => rfl
      | cons first rest => exact absurd same.symm (positive first _)
  | cons entry rest ih =>
      cases others with
      | nil => exact absurd same (positive entry _)
      | cons first others =>
          simp only [List.flatMap_cons, rangeText, List.append_assoc] at same
          obtain ⟨base, behind⟩ := @hex_text_injective 8 _ _ _ _ (List.append_cancel_left same)
          obtain ⟨length, later⟩ := @hex_text_injective 8 _ _ _ _ (List.append_cancel_left behind)
          rw [List.map_cons, List.map_cons, ih others later, toRange, toRange, base, length]

end Report

-- Every fuel that is enough for the texts and for the entries of the map will do.
theorem kernel_init_map_returns (memory : Memory) (info : MultibootInfo) (magic : BitVec 32) (mallocInitSpace : BitVec 64)
    (kmalloc : Nat → List BootMmap) (entries : List (BitVec 32)) (fuel : Nat) (terminal : Terminal)
    (walked : MapWalk memory (mmapStop info) info.mmapAddr.toNat entries) (enough : 2 ^ 32 + entries.length ≤ fuel)
    (room : ((entries.map memory).filter usable).length ≤ (kmalloc ((entries.map memory).filter usable).length).length) :
    ∃ mmap last, kernelInitMap memory info magic mallocInitSpace kmalloc fuel terminal =
        some (((entries.map memory).filter usable).length, mmap, last) ∧
      mmap.take ((entries.map memory).filter usable).length = ((entries.map memory).filter usable).map toRange ∧
      Shows last (emptyPage.putAll (mapText magic mallocInitSpace ((entries.map memory).filter usable))) := by
  have enoughText : 2 ^ 32 ≤ fuel := by omega
  have visited := map_walk_entries memory info fuel _ entries info.mmapAddr walked rfl (by omega)
  have count := count_pass_ranges memory info fuel info.mmapAddr
  rw [count_ranges_entries, visited, Option.map_some] at count
  generalize entries.map memory = visits at count visited room ⊢
  obtain ⟨⟨nMemRanges, counted⟩, countEq, rfl⟩ := Option.map_eq_some_iff.mp count
  obtain ⟨first, one, page1⟩ := string_shown fuel _ emptyPage (.literal "Test!\n") (initialize_shows terminal) (by decide) enoughText
  have greeted : ∃ second, (if magic = 0x2BADB002 then terminalWritestring fuel (.literal "yes\n") first else some first) = some second ∧
      Shows second ((emptyPage.putAll (Str.literal "Test!\n").chars).putAll
        (if magic = 0x2BADB002 then (Str.literal "yes\n").chars else [])) := by
    split
    · exact string_shown fuel first _ (.literal "yes\n") page1 (by decide) enoughText
    · exact ⟨first, rfl, page1⟩
  obtain ⟨second, two, page2⟩ := greeted
  obtain ⟨third, three, page3⟩ := report_malloc_init_shown fuel mallocInitSpace second _ page2 enoughText
  obtain ⟨fourth, four, page4⟩ := report_pass_entries memory info fuel enoughText fuel 0 info.mmapAddr visits (visits.filter usable) _
    third _ (Nat.le_refl _) visited rfl (by rw [Nat.zero_add]; exact room) page3
  obtain ⟨last, five, page5⟩ := string_shown fuel fourth _ (.literal "\nDynmemTestStr!") page4 (by decide) enoughText
  rw [List.take_zero, List.nil_append] at four
  refine ⟨(visits.filter usable).map toRange ++ (kmalloc (visits.filter usable).length).drop (0 + (visits.filter usable).length),
    last, ?_, List.take_left' (List.length_map _), ?_⟩
  · simp only [kernelInitMap, one, two, three, countEq, four, five, Option.bind_some, Option.map_some]
  · simp only [mapText, page_put_all_append]
    exact page5

-- The array has the usable entries in their order, the screen shows them, and another array would have been shown otherwise.
theorem kernel_init_shown (memory : Memory) (info : MultibootInfo) (magic : BitVec 32) (mallocInitSpace : BitVec 64)
    (kmalloc : Nat → List BootMmap) (entries : List (BitVec 32)) (terminal : Terminal)
    (walked : MapWalk memory (mmapStop info) info.mmapAddr.toNat entries)
    (room : ((entries.map memory).filter usable).length ≤ (kmalloc ((entries.map memory).filter usable).length).length) :
    ∃ fuel nMemRanges mmap last, kernelInitMap memory info magic mallocInitSpace kmalloc fuel terminal = some (nMemRanges, mmap, last) ∧
      mmap.take nMemRanges = ((entries.map memory).filter usable).map toRange ∧
      Shows last (emptyPage.putAll (mapText magic mallocInitSpace ((entries.map memory).filter usable))) ∧
      ∀ others, mapText magic mallocInitSpace others = mapText magic mallocInitSpace ((entries.map memory).filter usable) →
        others.map toRange = ((entries.map memory).filter usable).map toRange := by
  obtain ⟨mmap, last, done, filled, shown⟩ :=
    kernel_init_map_returns memory info magic mallocInitSpace kmalloc entries _ terminal walked (Nat.le_refl _) room
  refine ⟨_, _, mmap, last, done, filled, shown, fun others same => ?_⟩
  exact range_text_injective others _
    (List.append_cancel_right (List.append_cancel_left (List.append_cancel_left (List.append_cancel_left same))))

theorem three_entries_shown :
    ∃ fuel nMemRanges mmap last, kernelInitMap threeEntries threeEntriesInfo 0x2BADB002 0xFFFFFF8000113000
        (fun n => List.replicate n ⟨0, 0⟩) fuel ⟨5, 7, 0, fun _ => 0⟩ = some (nMemRanges, mmap, last) ∧
      mmap.take nMemRanges = (([0x9000, 0x9018, 0x9033].map threeEntries).filter usable).map toRange ∧
      Shows last (emptyPage.putAll
        (mapText 0x2BADB002 0xFFFFFF8000113000 (([0x9000, 0x9018, 0x9033].map threeEntries).filter usable))) ∧
      ∀ others, mapText 0x2BADB002 0xFFFFFF8000113000 others =
          mapText 0x2BADB002 0xFFFFFF8000113000 (([0x9000, 0x9018, 0x9033].map threeEntries).filter usable) →
        others.map toRange = (([0x9000, 0x9018, 0x9033].map threeEntries).filter usable).map toRange :=
  kernel_init_shown threeEntries threeEntriesInfo 0x2BADB002 0xFFFFFF8000113000 (fun n => List.replicate n ⟨0, 0⟩) _
    ⟨5, 7, 0, fun _ => 0⟩ three_entries_walked (by decide)

end Kraftwerk.Boot
