import Kraftwerk.StandaloneStd.Vector

set_option autoImplicit false

-- standalone_std::vector: insert and emplace of a value that they are given by reference, over shift.
-- leave item is what is left of an item that was moved.
namespace Kraftwerk.StandaloneStd

open Storage

variable {T : Type}

-- A hole behind shiftLoc. The room for it is either in new storage, or behind the last item.
def shift (leave : T → T) (vector : Vector T) (shiftLoc shiftLen : Nat) : Option (Vector T) :=
  let behind := vector.objectCount - (shiftLoc + 1)
  if vector.arraySize < vector.objectCount + shiftLen then
    let allocated := vector.blocks.allocate (vector.objectCount + shiftLen)
    (Blocks.moveRange leave vector.elements allocated.2 0 (shiftLoc + 1) 0 allocated.1).bind (fun blocks =>
      (Blocks.moveRange leave vector.elements allocated.2 shiftLen behind (shiftLoc + 1) blocks).bind (fun blocks =>
        (blocks.deallocate vector.elements).map (fun blocks =>
          ⟨blocks, allocated.2, vector.objectCount + shiftLen, vector.objectCount + shiftLen⟩)))
  else
    (Blocks.moveRange leave vector.elements vector.elements shiftLen behind (shiftLoc + 1) vector.blocks).map (fun blocks =>
      { vector with blocks := blocks, objectCount := vector.objectCount + shiftLen })

-- *target = *value, for a reference value.
def copyItem (blocks : Blocks T) (value target : Pointer) : Option (Blocks T) :=
  (blocks.read value).bind (fun item => blocks.write target item)

-- What value refers to is read when the items were shifted. No iterator is returned.
def insert (leave : T → T) (vector : Vector T) (insertLoc : Nat) (value : Pointer) : Option (Vector T) :=
  (shift leave vector insertLoc 1).bind (fun vector =>
    (copyItem vector.blocks value (vector.elements.add (insertLoc + 1))).map (fun blocks => { vector with blocks := blocks }))

-- pos stays an address in the storage that the vector had before shift.
def emplace (leave : T → T) (vector : Vector T) (insertLoc : Nat) (value : Pointer) : Option (Vector T × Pointer) :=
  let pos := vector.elements.add insertLoc
  (shift leave vector insertLoc 1).bind (fun vector =>
    (copyItem vector.blocks value (pos.add 1)).map (fun blocks => ({ vector with blocks := blocks }, pos.add 1)))

inductive Insertion where
  | insert (value : Pointer)
  | emplace (value : Pointer)
deriving DecidableEq

def Insertion.value : Insertion → Pointer
  | .insert value | .emplace value => value

def insertStep (leave : T → T) (vector : Vector T) (insertLoc : Nat) : Insertion → Option (Vector T)
  | .insert value => insert leave vector insertLoc value
  | .emplace value => (emplace leave vector insertLoc value).map Prod.fst

def inserted (xs : List T) (pos : Nat) (value : T) : List T := xs.take (pos + 1) ++ value :: xs.drop (pos + 1)

def InsertsOne (leave : T → T) (vector : Vector T) (xs : List T) (pos : Nat) (call : Insertion) (value : T) : Prop :=
  ∃ after, insertStep leave vector pos call = some after ∧ after.Holds (inserted xs pos value)

-- What moving up by one makes of the items: the first is behind what is left of it.
def overwritten (leave : T → T) : List T → List T
  | [] => []
  | first :: rest => List.replicate rest.length (leave first) ++ [first]

-- The slots behind the hole's place, with the one behind the last item.
def opened (leave : T → T) (old : Option T) : List T → List (Option T)
  | [] => [old]
  | first :: rest => List.replicate (rest.length + 1) (some (leave first)) ++ [some first]

-- What moving the items up puts in the place of what value refers to.
def displaced (leave : T → T) (vector : Vector T) (xs : List T) (pos : Nat) (value : Pointer) : Option T :=
  if value.block = vector.elements.block ∧ pos < value.offset ∧ value.offset ≤ xs.length then
    (xs.drop (pos + 1)).head?.map (fun first => if value.offset = xs.length then first else leave first)
  else none

def Uniform (leave : T → T) : List T → Prop
  | [] => True
  | first :: rest => rest ≠ [] → leave first = first ∧ ∀ item ∈ rest, item = first

-- After shift, the vector counts the hole between these items.
structure Vector.HasHole (vector : Vector T) (front behind : List T) : Prop where
  count : vector.objectCount = front.length + (behind.length + 1)
  fits : front.length + (behind.length + 1) ≤ vector.arraySize
  first : vector.elements.offset = 0
  storage : ∃ slot tail, vector.blocks.slots vector.elements.block = some (front.map some ++ slot :: (behind.map some ++ tail)) ∧
    vector.arraySize ≤ front.length + (behind.length + 1) + tail.length

theorem fill_hole (vector : Vector T) (front behind : List T) (value : T) (hole : vector.HasHole front behind) :
    ∃ blocks, vector.blocks.write (vector.elements.add front.length) (some value) = some blocks ∧
      Vector.Holds { vector with blocks := blocks } (front ++ value :: behind) := by
  obtain ⟨slot, tail, here, size⟩ := hole.storage
  have length : (front ++ value :: behind).length = front.length + (behind.length + 1) := by rw [List.length_append, List.length_cons]
  have address : vector.elements.add front.length = ⟨vector.elements.block, (front.map some).length⟩ := by
    rw [Pointer.add, hole.first, Nat.zero_add, List.length_map]
  obtain ⟨blocks, written, slots⟩ := vector.blocks.write_between vector.elements.block (front.map some) (behind.map some ++ tail) slot
    (some value) here
  refine ⟨blocks, by rw [address]; exact written, holds_of_slots _ _ tail ?_ ?_ hole.first ?_ ?_⟩
  · exact hole.count.trans length.symm
  · exact length ▸ hole.fits
  · rw [List.map_append, List.map_cons, List.append_assoc]
    exact slots
  · exact length ▸ size

theorem overwritten_length (leave : T → T) (items : List T) : (overwritten leave items).length = items.length := by
  cases items with
  | nil => rfl
  | cons first rest => rw [overwritten, List.length_append, List.length_replicate, List.length_singleton, List.length_cons]

theorem overwritten_eq_iff (leave : T → T) (items : List T) : overwritten leave items = items ↔ Uniform leave items := by
  match items with
  | [] => exact ⟨fun _ => trivial, fun _ => rfl⟩
  | [first] => exact ⟨fun _ some => absurd rfl some, fun _ => rfl⟩
  | first :: second :: rest =>
      rw [overwritten, List.length_cons, List.replicate_succ, List.cons_append, List.cons.injEq]
      constructor
      · rintro ⟨kept, moved⟩ _
        rw [kept] at moved
        have all : second :: rest = List.replicate (rest.length + 1) first := by rw [← moved, List.replicate_succ']
        exact ⟨kept, fun item member => List.eq_of_mem_replicate (all ▸ member)⟩
      · intro uniform
        obtain ⟨kept, all⟩ := uniform (List.cons_ne_nil second rest)
        refine ⟨kept, ?_⟩
        rw [kept, ← List.replicate_succ']
        exact (List.eq_replicate_of_mem all).symm

section Shift

variable (leave : T → T) (vector : Vector T) (xs : List T) (pos : Nat)

theorem holds_split (holds : vector.Holds xs) :
    ∃ tail, vector.blocks.slots vector.elements.block = some ((xs.take (pos + 1)).map some ++ ((xs.drop (pos + 1)).map some ++ tail)) ∧
      vector.arraySize ≤ xs.length + tail.length := by
  obtain ⟨tail, here, size⟩ := holds_slots vector xs holds
  refine ⟨tail, ?_, size⟩
  rw [← List.append_assoc, ← List.map_append, List.take_append_drop]
  exact here

theorem lengths_around (inside : pos < xs.length) : (xs.take (pos + 1)).length = pos + 1 ∧ (xs.drop (pos + 1)).length = xs.length - (pos + 1) :=
  ⟨by rw [List.length_take, Nat.min_eq_left inside], List.length_drop⟩

theorem opened_eq (old : Option T) (items : List T) :
    ∃ slot, opened leave old items = slot :: (overwritten leave items).map some := by
  cases items with
  | nil => exact ⟨old, rfl⟩
  | cons first rest => exact ⟨some (leave first), by simp [opened, overwritten, List.replicate_succ]⟩

theorem shift_in_place (holds : vector.Holds xs) (inside : pos < xs.length) (spare : xs.length < vector.arraySize) :
    ∃ after old tail, shift leave vector pos 1 = some after ∧ after.HasHole (xs.take (pos + 1)) (overwritten leave (xs.drop (pos + 1))) ∧
      vector.blocks.slots vector.elements.block = some ((xs.take (pos + 1)).map some ++ ((xs.drop (pos + 1)).map some ++ old :: tail)) ∧
      after.blocks.slots vector.elements.block = some ((xs.take (pos + 1)).map some ++ (opened leave old (xs.drop (pos + 1)) ++ tail)) := by
  obtain ⟨slots, here, size⟩ := holds_split vector xs pos holds
  obtain ⟨front, back⟩ := lengths_around xs pos inside
  have start : vector.elements = ⟨vector.elements.block, 0⟩ := by rw [← holds.first]
  have room : ¬ vector.arraySize < vector.objectCount + 1 := by
    rw [holds.count]
    omega
  have length : (xs.take (pos + 1)).length + ((overwritten leave (xs.drop (pos + 1))).length + 1) = xs.length + 1 := by
    rw [overwritten_length, front, back]
    omega
  cases slots with
  | nil => exact absurd size (Nat.not_le.mpr spare)
  | cons old tail =>
      -- Nothing is behind pos, or its first item takes the place of the last one.
      have moved : ∃ blocks,
          Blocks.moveRange leave vector.elements vector.elements 1 (xs.drop (pos + 1)).length (pos + 1) vector.blocks = some blocks ∧
            blocks.slots vector.elements.block = some ((xs.take (pos + 1)).map some ++ (opened leave old (xs.drop (pos + 1)) ++ tail)) := by
        cases rest : xs.drop (pos + 1) with
        | nil =>
            rw [rest] at here
            exact ⟨vector.blocks, rfl, here⟩
        | cons first others =>
            rw [rest] at here
            obtain ⟨blocks, moved, slots⟩ := Blocks.move_range_up leave vector.elements.block ((xs.take (pos + 1)).map some) (others.map some)
              tail (some first) old vector.blocks here
            refine ⟨blocks, ?_, ?_⟩
            · rw [List.length_map, List.length_map, front, ← start] at moved
              exact moved
            · rw [slots, List.length_map, opened, List.append_assoc]
              rfl
      obtain ⟨blocks, moved, slots⟩ := moved
      obtain ⟨slot, hole⟩ := opened_eq leave old (xs.drop (pos + 1))
      refine ⟨{ vector with blocks := blocks, objectCount := vector.objectCount + 1 }, old, tail, ?_,
        ⟨?_, ?_, holds.first, slot, tail, ?_, ?_⟩, here, slots⟩
      · rw [shift, if_neg room, holds.count, ← back, moved, Option.map_some]
      · rw [length, holds.count]
      · rw [length]
        exact spare
      · rw [slots, hole, List.cons_append]
      · rw [List.length_cons] at size
        dsimp only
        omega

theorem shift_elsewhere (after : Vector T) (shiftLoc shiftLen block : Nat) (shifted : shift leave vector shiftLoc shiftLen = some after)
    (apart : vector.elements.block ≠ block) (new : after.elements.block ≠ block) :
    after.blocks.slots block = vector.blocks.slots block := by
  have keeps : ∀ (blocks next : Blocks T) (pointer : Pointer) item, pointer.block ≠ block → blocks.write pointer item = some next →
      blocks.slots block = vector.blocks.slots block → next.slots block = vector.blocks.slots block :=
    fun blocks next pointer item other written same => (blocks.write_elsewhere next pointer item block other written).trans same
  rw [shift] at shifted
  split at shifted
  · obtain ⟨first, copied, shifted⟩ := Option.bind_eq_some_iff.mp shifted
    obtain ⟨second, moved, shifted⟩ := Option.bind_eq_some_iff.mp shifted
    obtain ⟨freed, deallocated, rfl⟩ := Option.map_eq_some_iff.mp shifted
    have firstSame := Blocks.move_range_keeps leave _ (· ≠ block) keeps _ _ _ _ _ _ first apart new copied
      (vector.blocks.allocate_other _ _ new.symm)
    have secondSame := Blocks.move_range_keeps leave _ (· ≠ block) keeps _ _ _ _ _ first second apart new moved firstSame
    rw [second.deallocate_slots freed _ deallocated, Function.update_of_ne apart.symm]
    exact secondSame
  · obtain ⟨blocks, moved, rfl⟩ := Option.map_eq_some_iff.mp shifted
    exact Blocks.move_range_keeps leave _ (· ≠ block) keeps _ _ _ _ _ _ blocks apart apart moved rfl

theorem shift_fresh (after : Vector T) (shiftLoc shiftLen : Nat) (shifted : shift leave vector shiftLoc shiftLen = some after)
    (fresh : vector.blocks.Fresh) : after.blocks.Fresh := by
  have keeps : ∀ (blocks next : Blocks T) (pointer : Pointer) item, True → blocks.write pointer item = some next →
      blocks.Fresh → next.Fresh := fun blocks next pointer item _ => blocks.write_fresh next pointer item
  rw [shift] at shifted
  split at shifted
  · obtain ⟨first, copied, shifted⟩ := Option.bind_eq_some_iff.mp shifted
    obtain ⟨second, moved, shifted⟩ := Option.bind_eq_some_iff.mp shifted
    obtain ⟨freed, deallocated, rfl⟩ := Option.map_eq_some_iff.mp shifted
    have firstFresh := Blocks.move_range_keeps leave _ (fun _ => True) keeps _ _ _ _ _ _ first trivial trivial copied
      (vector.blocks.allocate_fresh _ fresh)
    have secondFresh := Blocks.move_range_keeps leave _ (fun _ => True) keeps _ _ _ _ _ first second trivial trivial moved firstFresh
    exact second.deallocate_fresh freed _ deallocated secondFresh
  · obtain ⟨blocks, moved, rfl⟩ := Option.map_eq_some_iff.mp shifted
    exact Blocks.move_range_keeps leave _ (fun _ => True) keeps _ _ _ _ _ _ blocks trivial trivial moved fresh

-- The old storage is freed where there is no room for the hole.
theorem shift_frees (after : Vector T) (shiftLoc shiftLen : Nat) (shifted : shift leave vector shiftLoc shiftLen = some after)
    (full : vector.arraySize < vector.objectCount + shiftLen) :
    after.elements = ⟨vector.blocks.next, 0⟩ ∧ after.arraySize = vector.objectCount + shiftLen ∧
      after.blocks.slots vector.elements.block = none := by
  rw [shift, if_pos full] at shifted
  obtain ⟨first, _, shifted⟩ := Option.bind_eq_some_iff.mp shifted
  obtain ⟨second, _, shifted⟩ := Option.bind_eq_some_iff.mp shifted
  obtain ⟨freed, deallocated, rfl⟩ := Option.map_eq_some_iff.mp shifted
  exact ⟨rfl, rfl, by rw [second.deallocate_slots freed _ deallocated, Function.update_self]⟩

theorem shift_reallocated (holds : vector.Holds xs) (fresh : vector.blocks.slots vector.blocks.next = none)
    (inside : pos < xs.length) (full : vector.arraySize ≤ xs.length) :
    ∃ after, shift leave vector pos 1 = some after ∧ after.HasHole (xs.take (pos + 1)) (xs.drop (pos + 1)) := by
  obtain ⟨tail, here, _⟩ := holds_split vector xs pos holds
  obtain ⟨front, back⟩ := lengths_around xs pos inside
  have start : vector.elements = ⟨vector.elements.block, 0⟩ := by rw [← holds.first]
  have apart : vector.elements.block ≠ vector.blocks.next := by
    intro same
    rw [same, fresh] at here
    cases here
  have slots : List.replicate (xs.length + 1) none =
      List.replicate (pos + 1) (none : Option T) ++ none :: List.replicate (xs.drop (pos + 1)).length none := by
    rw [← List.replicate_succ, List.replicate_append_replicate, back]
    congr 1
    omega
  have allocated := vector.blocks.allocate_new (xs.length + 1)
  rw [slots] at allocated
  obtain ⟨first, copied, emptied, half⟩ := Blocks.move_range_across leave vector.elements.block vector.blocks.next 0 apart []
    ((xs.take (pos + 1)).map some) ((xs.drop (pos + 1)).map some ++ tail) [] (List.replicate (pos + 1) none)
    (none :: List.replicate (xs.drop (pos + 1)).length none) (vector.blocks.allocate (xs.length + 1)).1
    ((vector.blocks.allocate_other _ _ apart).trans here) allocated rfl (by rw [List.length_replicate, List.length_map, front])
  obtain ⟨second, moved, rest, whole⟩ := Blocks.move_range_across leave vector.elements.block vector.blocks.next 1 apart
    (((xs.take (pos + 1)).map some).map (Option.map leave)) ((xs.drop (pos + 1)).map some) tail ((xs.take (pos + 1)).map some ++ [none])
    (List.replicate (xs.drop (pos + 1)).length none) [] first emptied (by rw [half]; simp) (by simp) (by simp)
  obtain ⟨freed, deallocated, kept⟩ := second.deallocate_start vector.elements.block _ rest
  have length : (xs.take (pos + 1)).length + ((xs.drop (pos + 1)).length + 1) = xs.length + 1 := by omega
  refine ⟨⟨freed, ⟨vector.blocks.next, 0⟩, xs.length + 1, xs.length + 1⟩, ?_, length.symm, Nat.le_of_eq length, rfl, none, [], ?_,
    Nat.le_of_eq length.symm⟩
  · rw [List.length_map, front] at copied
    rw [List.length_map, List.length_map, List.length_map, front, back] at moved
    have operate : (vector.blocks.allocate (xs.length + 1)).2 = ⟨vector.blocks.next, 0⟩ := rfl
    rw [shift, if_pos (by rw [holds.count]; omega)]
    dsimp only
    rw [holds.count, start, operate]
    rw [List.length_nil] at copied
    rw [copied, Option.bind_some, moved, Option.bind_some, deallocated, Option.map_some]
  · rw [← List.append_cons] at whole
    exact (kept _ apart.symm).trans whole

end Shift

section Insert

variable (leave : T → T) (vector : Vector T) (xs : List T) (pos : Nat) (value : Pointer) (item : T)

theorem insert_filled (between : Vector T) (behind : List T) (inside : pos < xs.length) (shifted : shift leave vector pos 1 = some between)
    (hole : between.HasHole (xs.take (pos + 1)) behind) (given : between.blocks.read value = some (some item)) :
    ∃ after, insert leave vector pos value = some after ∧ after.Holds (xs.take (pos + 1) ++ item :: behind) := by
  obtain ⟨blocks, written, holds⟩ := fill_hole between (xs.take (pos + 1)) behind item hole
  rw [(lengths_around xs pos inside).1] at written
  refine ⟨{ between with blocks := blocks }, ?_, holds⟩
  rw [insert, shifted, Option.bind_some, copyItem, given, Option.bind_some, written, Option.map_some]

-- Where nothing is reallocated, emplace writes to the same slot as insert.
theorem emplace_in_place (room : ¬ vector.arraySize < vector.objectCount + 1) :
    (emplace leave vector pos value).map Prod.fst = insert leave vector pos value := by
  rw [emplace, insert, shift, if_neg room]
  cases Blocks.moveRange leave vector.elements vector.elements 1 (vector.objectCount - (pos + 1)) (pos + 1) vector.blocks with
  | none => rfl
  | some blocks =>
      rw [Option.map_some, Option.bind_some, Option.bind_some, Option.map_map]
      rfl

theorem emplace_full (full : vector.arraySize < vector.objectCount + 1) : emplace leave vector pos value = none := by
  refine Option.bind_eq_none_iff.mpr fun after shifted => Option.map_eq_none_iff.mpr (Option.bind_eq_none_iff.mpr fun found _ => ?_)
  have freed := (shift_frees leave vector after pos 1 shifted full).2.2
  rw [Blocks.write, Pointer.add, Pointer.add]
  dsimp only
  rw [freed, Option.bind_none]

-- What is in the storage that shift frees is gone when it is read.
theorem insert_freed (full : vector.arraySize < vector.objectCount + 1) (own : value.block = vector.elements.block) :
    insert leave vector pos value = none := by
  refine Option.bind_eq_none_iff.mpr fun after shifted => ?_
  have freed := (shift_frees leave vector after pos 1 shifted full).2.2
  rw [copyItem, Blocks.read, own, freed, Option.bind_none, Option.bind_none, Option.map_none]

-- The new storage has no slot behind the one that was copied from behind the last item.
theorem insert_end_full (holds : vector.Holds xs) (full : vector.arraySize ≤ xs.length) :
    insert leave vector xs.length value = none := by
  rw [insert]
  cases shifted : shift leave vector xs.length 1 with
  | none => rfl
  | some after =>
      rw [shift, if_pos (by rw [holds.count]; omega)] at shifted
      obtain ⟨first, copied, shifted⟩ := Option.bind_eq_some_iff.mp shifted
      obtain ⟨second, moved, shifted⟩ := Option.bind_eq_some_iff.mp shifted
      obtain ⟨freed, deallocated, rfl⟩ := Option.map_eq_some_iff.mp shifted
      have ends := vector.blocks.allocate_ends (vector.objectCount + 1)
      have firstEnds := Blocks.move_range_ends leave _ _ _ _ _ _ first _ _ copied ends
      have secondEnds := Blocks.move_range_ends leave _ _ _ _ _ _ second _ _ moved firstEnds
      have freedEnds := Blocks.deallocate_ends second freed _ _ _ deallocated secondEnds
      rw [holds.count] at freedEnds
      have behind : freed.Ends vector.blocks.next (0 + (xs.length + 1)) := by
        rw [Nat.zero_add]
        exact freedEnds
      rw [Option.bind_some]
      refine Option.map_eq_none_iff.mpr (Option.bind_eq_none_iff.mpr fun found _ => ?_)
      exact freed.write_behind ((vector.blocks.allocate (vector.objectCount + 1)).2.add (xs.length + 1)) found behind

-- A slot among these, once they were moved up.
theorem opened_slot (front items : List T) (old : Option T) (tail : List (Option T)) (index : Nat)
    (given : (front.map some ++ (items.map some ++ old :: tail))[index]? = some (some item)) :
    (front.map some ++ (opened leave old items ++ tail))[index]? =
      some (some ((if front.length ≤ index ∧ index ≤ front.length + items.length then
        items.head?.map (fun first => if index = front.length + items.length then first else leave first) else none).getD item)) := by
  cases items with
  | nil =>
      rw [opened, List.singleton_append]
      simpa using given
  | cons first rest =>
      have length : (front.map some).length = front.length := List.length_map ..
      by_cases before : index < front.length
      · rw [List.getElem?_append_left (by omega)] at given ⊢
        rw [if_neg (by omega)]
        exact given
      · obtain ⟨place, rfl⟩ := Nat.exists_eq_add_of_le (Nat.le_of_not_lt before)
        rw [List.getElem?_append_right (by omega), length, Nat.add_sub_cancel_left] at given ⊢
        rw [opened, List.append_assoc, List.length_cons]
        rcases Nat.lt_trichotomy place (rest.length + 1) with inside | rfl | behind
        · rw [List.getElem?_append_left (by rw [List.length_replicate]; exact inside), List.getElem?_replicate, if_pos inside,
            if_pos (by omega), List.head?_cons, Option.map_some, if_neg (by omega), Option.getD_some]
        · rw [List.getElem?_append_right (Nat.le_of_eq List.length_replicate), List.length_replicate, Nat.sub_self,
            if_pos (by omega), List.head?_cons, Option.map_some, if_pos rfl, Option.getD_some, List.singleton_append,
            List.getElem?_cons_zero]
        · rw [List.getElem?_append_right (by rw [List.length_map, List.length_cons]; omega), List.length_map, List.length_cons] at given
          rw [List.getElem?_append_right (by rw [List.length_replicate]; omega), List.length_replicate, if_neg (by omega)]
          obtain ⟨further, more⟩ : ∃ further, place - (rest.length + 1) = further + 1 := ⟨place - (rest.length + 1) - 1, by omega⟩
          rw [more, List.getElem?_cons_succ] at given
          rw [more, List.singleton_append, List.getElem?_cons_succ]
          exact given

-- What value refers to once the items were moved up in place.
theorem read_displaced (after : Vector T) (old : Option T) (tail : List (Option T)) (inside : pos < xs.length)
    (shifted : shift leave vector pos 1 = some after) (same : after.elements = vector.elements)
    (here : vector.blocks.slots vector.elements.block = some ((xs.take (pos + 1)).map some ++ ((xs.drop (pos + 1)).map some ++ old :: tail)))
    (slots : after.blocks.slots vector.elements.block =
      some ((xs.take (pos + 1)).map some ++ (opened leave old (xs.drop (pos + 1)) ++ tail)))
    (given : vector.blocks.read value = some (some item)) :
    after.blocks.read value = some (some ((displaced leave vector xs pos value).getD item)) := by
  obtain ⟨front, back⟩ := lengths_around xs pos inside
  have whole : pos + 1 + (xs.length - (pos + 1)) = xs.length := by omega
  by_cases own : value.block = vector.elements.block
  · rw [Blocks.read, own, here, Option.bind_some] at given
    have moved := opened_slot leave item (xs.take (pos + 1)) (xs.drop (pos + 1)) old tail value.offset given
    rw [front, back, whole] at moved
    rw [Blocks.read, own, slots, Option.bind_some, moved, displaced]
    simp only [own, true_and, Nat.succ_le_iff]
  · rw [displaced, if_neg (fun all => own all.1), Option.getD_none, ← given, Blocks.read, Blocks.read]
    rw [shift_elsewhere leave vector after pos 1 value.block shifted (Ne.symm own) (same ▸ Ne.symm own)]

theorem insert_in_place (holds : vector.Holds xs) (inside : pos < xs.length) (spare : xs.length < vector.arraySize)
    (given : vector.blocks.read value = some (some item)) :
    ∃ after, insert leave vector pos value = some after ∧
      after.Holds (xs.take (pos + 1) ++ (displaced leave vector xs pos value).getD item :: overwritten leave (xs.drop (pos + 1))) := by
  obtain ⟨between, old, tail, shifted, hole, here, slots⟩ := shift_in_place leave vector xs pos holds inside spare
  have same : between.elements = vector.elements := by
    rw [shift, if_neg (by rw [holds.count]; omega)] at shifted
    obtain ⟨blocks, _, rfl⟩ := Option.map_eq_some_iff.mp shifted
    rfl
  exact insert_filled leave vector xs pos value _ between _ inside shifted hole
    (read_displaced leave vector xs pos value item between old tail inside shifted same here slots given)

theorem insert_reallocated (holds : vector.Holds xs) (fresh : vector.blocks.slots vector.blocks.next = none) (inside : pos < xs.length)
    (full : vector.arraySize ≤ xs.length) (other : value.block ≠ vector.elements.block)
    (given : vector.blocks.read value = some (some item)) :
    ∃ after, insert leave vector pos value = some after ∧ after.Holds (inserted xs pos item) := by
  obtain ⟨between, shifted, hole⟩ := shift_reallocated leave vector xs pos holds fresh inside full
  have more : vector.arraySize < vector.objectCount + 1 := by
    rw [holds.count]
    omega
  have new : between.elements.block ≠ value.block := by
    rw [(shift_frees leave vector between pos 1 shifted more).1]
    intro same
    rw [Blocks.read, ← same, fresh] at given
    cases given
  refine insert_filled leave vector xs pos value item between _ inside shifted hole ?_
  rw [← given, Blocks.read, Blocks.read, shift_elsewhere leave vector between pos 1 value.block shifted other.symm new]

end Insert

-- When an insertion keeps every element: with spare capacity, there is nothing behind pos that could be told from what
-- the first of it leaves, the value included; without, the value is outside of the storage that is freed.
structure InsertionKept (leave : T → T) (vector : Vector T) (xs : List T) (pos : Nat) (call : Insertion) (item : T) : Prop where
  full : pos < xs.length → vector.arraySize ≤ xs.length → call.value.block ≠ vector.elements.block ∧ ∃ value, call = .insert value
  spare : pos < xs.length → xs.length < vector.arraySize →
    Uniform leave (xs.drop (pos + 1)) ∧ ∀ other ∈ displaced leave vector xs pos call.value, other = item
  atEnd : pos = xs.length → xs.length < vector.arraySize ∧ vector.blocks.read (vector.elements.add xs.length) = some (some item) ∧
    vector.blocks.read (vector.elements.add (xs.length + 1)) ≠ none

section Exact

variable (leave : T → T) (vector : Vector T) (xs : List T) (pos : Nat) (call : Insertion) (item : T)

theorem insert_step_in_place (holds : vector.Holds xs) (spare : xs.length < vector.arraySize) :
    insertStep leave vector pos call = insert leave vector pos call.value := by
  cases call with
  | insert value => rfl
  | emplace value => exact emplace_in_place leave vector pos value (by rw [holds.count]; omega)

theorem inserts_spare_iff (holds : vector.Holds xs) (given : vector.blocks.read call.value = some (some item)) (inside : pos < xs.length)
    (spare : xs.length < vector.arraySize) : InsertsOne leave vector xs pos call item ↔
      Uniform leave (xs.drop (pos + 1)) ∧ ∀ other ∈ displaced leave vector xs pos call.value, other = item := by
  obtain ⟨after, done, result⟩ := insert_in_place leave vector xs pos call.value item holds inside spare given
  rw [← insert_step_in_place leave vector xs pos call holds spare] at done
  have kept : (displaced leave vector xs pos call.value).getD item = item ↔
      ∀ other ∈ displaced leave vector xs pos call.value, other = item := by
    cases displaced leave vector xs pos call.value <;> simp
  rw [← kept]
  constructor
  · rintro ⟨other, same, expected⟩
    obtain rfl := Option.some.inj (done.symm.trans same)
    have equal := holds_unique after _ _ result expected
    obtain ⟨copied, behind⟩ := List.cons.inj (List.append_cancel_left equal)
    exact ⟨(overwritten_eq_iff leave _).mp behind, copied⟩
  · rintro ⟨uniform, copied⟩
    rw [(overwritten_eq_iff leave _).mpr uniform, copied] at result
    exact ⟨after, done, result⟩

theorem inserts_full_iff (holds : vector.Holds xs) (given : vector.blocks.read call.value = some (some item))
    (fresh : vector.blocks.slots vector.blocks.next = none) (inside : pos < xs.length) (full : vector.arraySize ≤ xs.length) :
    InsertsOne leave vector xs pos call item ↔ call.value.block ≠ vector.elements.block ∧ ∃ value, call = .insert value := by
  have more : vector.arraySize < vector.objectCount + 1 := by
    rw [holds.count]
    omega
  cases call with
  | insert value =>
      constructor
      · rintro ⟨after, done, _⟩
        refine ⟨fun own => ?_, value, rfl⟩
        rw [insertStep, insert_freed leave vector pos value more own] at done
        cases done
      · exact fun kept => insert_reallocated leave vector xs pos value item holds fresh inside full kept.1 given
  | emplace value =>
      constructor
      · rintro ⟨after, done, _⟩
        rw [insertStep, emplace_full leave vector pos value more] at done
        cases done
      · rintro ⟨_, other, same⟩
        cases same

theorem insert_end (value : Pointer) (holds : vector.Holds xs) (given : vector.blocks.read value = some (some item))
    (spare : xs.length < vector.arraySize) :
    insert leave vector xs.length value = (vector.blocks.write (vector.elements.add (xs.length + 1)) (some item)).map
      (fun blocks => { vector with blocks := blocks, objectCount := vector.objectCount + 1 }) := by
  rw [insert, shift, if_neg (by rw [holds.count]; omega), holds.count, Nat.sub_eq_zero_of_le (Nat.le_succ _), Blocks.moveRange,
    Option.map_some, Option.bind_some, copyItem, given, Option.bind_some]

theorem read_behind (tail : List (Option T)) (index : Nat) (holds : vector.Holds xs)
    (here : vector.blocks.slots vector.elements.block = some (xs.map some ++ tail)) :
    vector.blocks.read (vector.elements.add (xs.length + index)) = tail[index]? := by
  have length : (xs.map some).length = xs.length := List.length_map ..
  rw [Blocks.read, Pointer.add, holds.first, here, Option.bind_some, Nat.zero_add]
  dsimp only
  rw [List.getElem?_append_right (by omega), length, Nat.add_sub_cancel_left]

-- At the end the value goes one slot too far, and the slot before it stays as it was.
theorem insert_end_slots (value : Pointer) (slot old : Option T) (rest : List (Option T)) (holds : vector.Holds xs)
    (given : vector.blocks.read value = some (some item)) (spare : xs.length < vector.arraySize)
    (enough : vector.arraySize ≤ xs.length + (slot :: old :: rest).length)
    (here : vector.blocks.slots vector.elements.block = some (xs.map some ++ slot :: old :: rest)) :
    ∃ after, insert leave vector xs.length value = some after ∧ (after.Holds (xs ++ [item]) ↔ slot = some item) := by
  have front : (xs.map some).length = xs.length := List.length_map ..
  have length : (xs ++ [item]).length = xs.length + 1 := by rw [List.length_append, List.length_singleton]
  have hole : vector.elements.add (xs.length + 1) = ⟨vector.elements.block, (xs.map some ++ [slot]).length⟩ := by
    rw [Pointer.add, holds.first, Nat.zero_add, List.length_append, List.length_map, List.length_singleton]
  obtain ⟨blocks, written, slots⟩ := vector.blocks.write_between vector.elements.block (xs.map some ++ [slot]) rest old (some item)
    (by rw [here, List.append_assoc]; rfl)
  refine ⟨{ vector with blocks := blocks, objectCount := vector.objectCount + 1 }, ?_, ?_⟩
  · rw [insert_end leave vector xs item value holds given spare, hole, written, Option.map_some]
  · constructor
    · intro held
      obtain ⟨others, there, _, spelled⟩ := held.storage
      dsimp only at there
      obtain rfl := Option.some.inj (slots.symm.trans there)
      rw [length, ← front, List.map_append, List.append_assoc, List.take_length_add_append] at spelled
      exact (List.cons.inj (List.append_cancel_left spelled)).1
    · rintro rfl
      refine holds_of_slots _ _ (some item :: rest) ?_ ?_ holds.first ?_ ?_
      · rw [length, holds.count]
      · rw [length]
        exact spare
      · rw [List.map_append]
        exact slots
      · rw [length]
        simp only [List.length_cons] at enough ⊢
        omega

theorem inserts_end_iff (holds : vector.Holds xs) (given : vector.blocks.read call.value = some (some item)) :
    InsertsOne leave vector xs xs.length call item ↔
      xs.length < vector.arraySize ∧ vector.blocks.read (vector.elements.add xs.length) = some (some item) ∧
        vector.blocks.read (vector.elements.add (xs.length + 1)) ≠ none := by
  rcases Nat.lt_or_ge xs.length vector.arraySize with spare | full
  · obtain ⟨tail, here, enough⟩ := holds_slots vector xs holds
    have whole : inserted xs xs.length item = xs ++ [item] := by
      rw [inserted, List.take_of_length_le (Nat.le_succ _), List.drop_eq_nil_of_le (Nat.le_succ _)]
    have last := read_behind vector xs tail 0 holds here
    rw [Nat.add_zero] at last
    rw [InsertsOne, insert_step_in_place leave vector xs xs.length call holds spare, whole, last, read_behind vector xs tail 1 holds here]
    cases tail with
    | nil =>
        rw [List.length_nil] at enough
        omega
    | cons slot rest =>
        cases rest with
        | nil =>
            have ends : vector.blocks.Ends vector.elements.block (xs.length + 1) := by
              intro slots found
              rw [← Option.some.inj (here.symm.trans found)]
              simp
            have offset : (vector.elements.add (xs.length + 1)).offset = xs.length + 1 := by rw [Pointer.add, holds.first, Nat.zero_add]
            rw [insert_end leave vector xs item call.value holds given spare, vector.blocks.write_behind _ _ (by rw [offset]; exact ends)]
            constructor
            · rintro ⟨after, done, _⟩
              cases done
            · exact fun kept => absurd rfl kept.2.2
        | cons old rest =>
            obtain ⟨after, done, iff⟩ := insert_end_slots leave vector xs item call.value slot old rest holds given spare enough here
            rw [done]
            constructor
            · rintro ⟨other, same, held⟩
              obtain rfl := Option.some.inj same
              exact ⟨spare, congrArg some (iff.mp held), Option.some_ne_none old⟩
            · rintro ⟨_, already, _⟩
              exact ⟨after, rfl, iff.mpr (Option.some.inj already)⟩
  · refine iff_of_false ?_ (fun kept => absurd kept.1 (Nat.not_lt.mpr full))
    rintro ⟨after, done, _⟩
    cases call with
    | insert value =>
        rw [insertStep, insert_end_full leave vector xs value holds full] at done
        cases done
    | emplace value =>
        rw [insertStep, emplace_full leave vector xs.length value (by rw [holds.count]; omega)] at done
        cases done

theorem inserts_one_iff (holds : vector.Holds xs) (given : vector.blocks.read call.value = some (some item))
    (fresh : vector.blocks.slots vector.blocks.next = none) (inside : pos ≤ xs.length) :
    InsertsOne leave vector xs pos call item ↔ InsertionKept leave vector xs pos call item := by
  rcases Nat.lt_or_eq_of_le inside with before | rfl
  · rcases Nat.lt_or_ge xs.length vector.arraySize with spare | full
    · rw [inserts_spare_iff leave vector xs pos call item holds given before spare]
      exact ⟨fun kept => ⟨fun _ full => absurd spare (Nat.not_lt.mpr full), fun _ _ => kept, fun end_ => absurd before (by omega)⟩,
        fun kept => kept.spare before spare⟩
    · rw [inserts_full_iff leave vector xs pos call item holds given fresh before full]
      exact ⟨fun moved => ⟨fun _ _ => moved, fun _ spare => absurd spare (Nat.not_lt.mpr full), fun end_ => absurd before (by omega)⟩,
        fun kept => kept.full before full⟩
  · rw [inserts_end_iff leave vector xs call item holds given]
    exact ⟨fun kept => ⟨fun before => absurd before (Nat.lt_irrefl _), fun before => absurd before (Nat.lt_irrefl _), fun _ => kept⟩,
      fun kept => kept.atEnd rfl⟩

end Exact

-- A vector beside an object that is not in it.
def Vector.beside (vector : Vector T) (item : T) : Vector T :=
  { vector with
    blocks := ⟨Function.update vector.blocks.slots vector.blocks.next (some [some item]), vector.blocks.next + 1⟩ }

theorem beside_holds (vector : Vector T) (xs : List T) (item : T) (holds : vector.Holds xs)
    (fresh : vector.blocks.slots vector.blocks.next = none) : (vector.beside item).Holds xs := by
  obtain ⟨slots, here, enough, spelled⟩ := holds.storage
  have apart : vector.elements.block ≠ vector.blocks.next := by
    intro same
    rw [same, fresh] at here
    cases here
  exact ⟨holds.count, holds.fits, holds.first, slots, (Function.update_of_ne apart ..).trans here, enough, spelled⟩

theorem full_vector_insert :
    InsertsOne id ((Vector.stored [1, 2, 3, 4] 0).beside 9) [1, 2, 3, 4] 0 (.insert ⟨1, 0⟩) 9 :=
  (inserts_one_iff id ((Vector.stored [1, 2, 3, 4] 0).beside 9) [1, 2, 3, 4] 0 (.insert ⟨1, 0⟩) 9
    (beside_holds _ _ 9 (stored_holds _ 0) rfl) rfl rfl (by decide)).mpr
      ⟨fun _ _ => ⟨by decide, _, rfl⟩, fun _ spare => absurd spare (by decide), fun last => absurd last (by decide)⟩

-- With two slots to spare 3 and 4 are lost; in a full vector, emplace writes to storage that is freed, and insert reads
-- an element of the vector there.
theorem spare_insert_loses :
    ¬ InsertsOne id ((Vector.stored [1, 2, 3, 4] 2).beside 9) [1, 2, 3, 4] 0 (.insert ⟨1, 0⟩) 9 ∧
      ¬ InsertsOne id ((Vector.stored [1, 2, 3, 4] 0).beside 9) [1, 2, 3, 4] 0 (.emplace ⟨1, 0⟩) 9 ∧
      ¬ InsertsOne id (Vector.stored [1, 2, 3, 4] 0) [1, 2, 3, 4] 0 (.insert ⟨0, 2⟩) 3 := by
  refine ⟨fun inserts => ?_, fun inserts => ?_, fun inserts => ?_⟩
  · have kept := (inserts_spare_iff id _ [1, 2, 3, 4] 0 _ 9 (beside_holds _ _ 9 (stored_holds _ 2) rfl) rfl (by decide) (by decide)).mp inserts
    exact absurd ((kept.1 (by decide)).2 3 (by decide)) (by decide)
  · obtain ⟨_, value, same⟩ :=
      (inserts_full_iff id _ [1, 2, 3, 4] 0 _ 9 (beside_holds _ _ 9 (stored_holds _ 0) rfl) rfl rfl (by decide) (by decide)).mp inserts
    cases same
  · have kept := (inserts_full_iff id _ [1, 2, 3, 4] 0 _ 3 (stored_holds _ 0) rfl rfl (by decide) (by decide)).mp inserts
    exact absurd rfl kept.1

example : (insert id ((Vector.stored [1, 2, 3, 4] 2).beside 9) 0 ⟨1, 0⟩).bind (fun after => after.blocks.slots 0) =
    some ([1, 9, 2, 2, 2].map some ++ [none]) := by decide

end Kraftwerk.StandaloneStd
