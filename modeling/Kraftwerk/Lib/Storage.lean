import Mathlib.Data.List.Basic
import Mathlib.Logic.Function.Basic

set_option autoImplicit false

-- Allocated blocks of slots by their number, none once freed. A slot without an item was never
-- written. Reading and writing outside of a block, and freeing what is not its start, are none.
namespace Storage

structure Pointer where
  block : Nat
  offset : Nat
deriving DecidableEq

def Pointer.add (pointer : Pointer) (slots : Nat) : Pointer := ⟨pointer.block, pointer.offset + slots⟩

structure Blocks (Item : Type) where
  slots : Nat → Option (List (Option Item))
  next : Nat

variable {Item : Type}

namespace Blocks

def allocate (blocks : Blocks Item) (count : Nat) : Blocks Item × Pointer :=
  (⟨Function.update blocks.slots blocks.next (some (List.replicate count none)), blocks.next + 1⟩, ⟨blocks.next, 0⟩)

def read (blocks : Blocks Item) (pointer : Pointer) : Option (Option Item) :=
  (blocks.slots pointer.block).bind (fun slots => slots[pointer.offset]?)

def write (blocks : Blocks Item) (pointer : Pointer) (item : Option Item) : Option (Blocks Item) :=
  (blocks.slots pointer.block).bind (fun slots =>
    if pointer.offset < slots.length then
      some { blocks with slots := Function.update blocks.slots pointer.block (some (slots.set pointer.offset item)) }
    else none)

def deallocate (blocks : Blocks Item) (pointer : Pointer) : Option (Blocks Item) :=
  if pointer.offset = 0 then
    (blocks.slots pointer.block).map (fun _ => { blocks with slots := Function.update blocks.slots pointer.block none })
  else none

-- The blocks from next on were not handed out yet.
def Fresh (blocks : Blocks Item) : Prop := ∀ block, blocks.next ≤ block → blocks.slots block = none

-- There is no slot behind the end of a block, nor in a freed one.
def Ends (blocks : Blocks Item) (block count : Nat) : Prop := ∀ slots, blocks.slots block = some slots → slots.length ≤ count

theorem allocate_new (blocks : Blocks Item) (count : Nat) : (blocks.allocate count).1.slots blocks.next = some (List.replicate count none) :=
  Function.update_self ..

theorem allocate_other (blocks : Blocks Item) (count block : Nat) (other : block ≠ blocks.next) :
    (blocks.allocate count).1.slots block = blocks.slots block := Function.update_of_ne other ..

theorem allocate_ends (blocks : Blocks Item) (count : Nat) : (blocks.allocate count).1.Ends blocks.next count := by
  intro slots here
  rw [allocate_new] at here
  have size : slots.length = count := by rw [← Option.some.inj here, List.length_replicate]
  exact Nat.le_of_eq size

theorem deallocate_ends (blocks after : Blocks Item) (pointer : Pointer) (block count : Nat) (freed : blocks.deallocate pointer = some after)
    (ends : blocks.Ends block count) : after.Ends block count := by
  rw [deallocate] at freed
  split at freed
  · obtain ⟨_, _, rfl⟩ := Option.map_eq_some_iff.mp freed
    intro slots here
    dsimp only at here
    rcases eq_or_ne block pointer.block with rfl | other
    · rw [Function.update_self] at here
      cases here
    · rw [Function.update_of_ne other] at here
      exact ends slots here
  · cases freed

theorem allocate_fresh (blocks : Blocks Item) (count : Nat) (fresh : blocks.Fresh) : (blocks.allocate count).1.Fresh := by
  intro block later
  have behind : blocks.next + 1 ≤ block := later
  rw [allocate_other blocks count block (by omega)]
  exact fresh block (by omega)

theorem deallocate_fresh (blocks after : Blocks Item) (pointer : Pointer) (freed : blocks.deallocate pointer = some after)
    (fresh : blocks.Fresh) : after.Fresh := by
  obtain ⟨_, freed⟩ := Option.ite_none_right_eq_some.mp freed
  obtain ⟨_, _, rfl⟩ := Option.map_eq_some_iff.mp freed
  intro block later
  rcases eq_or_ne block pointer.block with rfl | other
  · exact Function.update_self ..
  · exact (Function.update_of_ne other ..).trans (fresh block later)

theorem deallocate_slots (blocks after : Blocks Item) (pointer : Pointer) (freed : blocks.deallocate pointer = some after) :
    after.slots = Function.update blocks.slots pointer.block none := by
  obtain ⟨_, freed⟩ := Option.ite_none_right_eq_some.mp freed
  obtain ⟨_, _, rfl⟩ := Option.map_eq_some_iff.mp freed
  rfl

theorem deallocate_inside (blocks : Blocks Item) (pointer : Pointer) (inside : pointer.offset ≠ 0) : blocks.deallocate pointer = none :=
  if_neg inside

theorem deallocate_start (blocks : Blocks Item) (block : Nat) (slots : List (Option Item)) (here : blocks.slots block = some slots) :
    ∃ after, blocks.deallocate ⟨block, 0⟩ = some after ∧ ∀ other, other ≠ block → after.slots other = blocks.slots other := by
  rw [deallocate, if_pos rfl, here]
  exact ⟨_, rfl, fun other apart => Function.update_of_ne apart ..⟩

theorem write_behind (blocks : Blocks Item) (pointer : Pointer) (item : Option Item) (ends : blocks.Ends pointer.block pointer.offset) :
    blocks.write pointer item = none := by
  rw [write]
  cases here : blocks.slots pointer.block with
  | none => rfl
  | some slots => exact if_neg (Nat.not_lt_of_le (ends slots here))

theorem write_inside (blocks : Blocks Item) (pointer : Pointer) (item : Option Item) (slots : List (Option Item))
    (here : blocks.slots pointer.block = some slots) (inside : pointer.offset < slots.length) :
    ∃ after, blocks.write pointer item = some after ∧ after.slots pointer.block = some (slots.set pointer.offset item) ∧
      ∀ block, block ≠ pointer.block → after.slots block = blocks.slots block := by
  rw [write, here, Option.bind_some, if_pos inside]
  exact ⟨_, rfl, Function.update_self .., fun block other => Function.update_of_ne other ..⟩

theorem write_between (blocks : Blocks Item) (block : Nat) (front back : List (Option Item)) (slot item : Option Item)
    (here : blocks.slots block = some (front ++ slot :: back)) :
    ∃ after, blocks.write ⟨block, front.length⟩ item = some after ∧ after.slots block = some (front ++ item :: back) := by
  obtain ⟨after, written, slots, _⟩ := blocks.write_inside ⟨block, front.length⟩ item _ here (by simp)
  refine ⟨after, written, ?_⟩
  rw [slots, List.set_append_right _ _ (Nat.le_refl _), Nat.sub_self, List.set_cons_zero]

theorem write_ends (blocks after : Blocks Item) (pointer : Pointer) (item : Option Item) (block count : Nat)
    (written : blocks.write pointer item = some after) (ends : blocks.Ends block count) : after.Ends block count := by
  rw [write] at written
  obtain ⟨before, here, made⟩ := Option.bind_eq_some_iff.mp written
  obtain ⟨_, same⟩ := Option.ite_none_right_eq_some.mp made
  obtain rfl := Option.some.inj same
  intro slots found
  dsimp only at found
  rcases eq_or_ne block pointer.block with rfl | other
  · rw [Function.update_self] at found
    rw [← Option.some.inj found, List.length_set]
    exact ends before here
  · rw [Function.update_of_ne other] at found
    exact ends slots found

theorem write_fresh (blocks after : Blocks Item) (pointer : Pointer) (item : Option Item) (written : blocks.write pointer item = some after)
    (fresh : blocks.Fresh) : after.Fresh := by
  obtain ⟨slots, here, made⟩ := Option.bind_eq_some_iff.mp written
  obtain ⟨_, same⟩ := Option.ite_none_right_eq_some.mp made
  obtain rfl := Option.some.inj same
  intro block later
  have apart : block ≠ pointer.block := by
    rintro rfl
    rw [fresh _ later] at here
    cases here
  exact (Function.update_of_ne apart ..).trans (fresh block later)

theorem write_elsewhere (blocks after : Blocks Item) (pointer : Pointer) (item : Option Item) (block : Nat) (apart : pointer.block ≠ block)
    (written : blocks.write pointer item = some after) : after.slots block = blocks.slots block := by
  obtain ⟨slots, _, made⟩ := Option.bind_eq_some_iff.mp written
  obtain ⟨_, same⟩ := Option.ite_none_right_eq_some.mp made
  obtain rfl := Option.some.inj same
  exact Function.update_of_ne apart.symm ..

-- *target = move(*source), where leave item is what is left of a moved item.
def moveItem (leave : Item → Item) (blocks : Blocks Item) (source target : Pointer) : Option (Blocks Item) :=
  (blocks.read source).bind (fun item =>
    (blocks.write target item).bind (fun blocks => blocks.write source (item.map leave)))

-- target[i+len] = move(source[i]), from i on.
def moveRange (leave : Item → Item) (source target : Pointer) (len : Nat) : Nat → Nat → Blocks Item → Option (Blocks Item)
  | 0, _, blocks => some blocks
  | left + 1, i, blocks =>
      (blocks.moveItem leave (source.add i) (target.add (i + len))).bind (moveRange leave source target len left (i + 1))

section Moves

variable (leave : Item → Item)

theorem move_item_ends (blocks after : Blocks Item) (source target : Pointer) (block count : Nat)
    (moved : blocks.moveItem leave source target = some after) (ends : blocks.Ends block count) : after.Ends block count := by
  obtain ⟨item, _, moved⟩ := Option.bind_eq_some_iff.mp moved
  obtain ⟨between, first, second⟩ := Option.bind_eq_some_iff.mp moved
  exact write_ends between after source _ block count second (write_ends blocks between target _ block count first ends)

theorem move_range_ends (source target : Pointer) (len left i : Nat) (blocks after : Blocks Item) (block count : Nat)
    (moved : moveRange leave source target len left i blocks = some after) (ends : blocks.Ends block count) :
    after.Ends block count := by
  induction left generalizing i blocks with
  | zero =>
      obtain rfl := Option.some.inj moved
      exact ends
  | succ left ih =>
      rw [moveRange] at moved
      obtain ⟨next, one, moved⟩ := Option.bind_eq_some_iff.mp moved
      exact ih (i + 1) next moved (move_item_ends leave blocks next _ _ block count one ends)

-- What each write to some blocks keeps, a move of items between these blocks keeps.
section Keeps

variable (good : Blocks Item → Prop) (place : Nat → Prop)
  (keeps : ∀ (blocks after : Blocks Item) pointer item, place pointer.block → blocks.write pointer item = some after →
    good blocks → good after)

include keeps in
theorem move_item_keeps (blocks after : Blocks Item) (source target : Pointer) (here : place source.block) (there : place target.block)
    (moved : blocks.moveItem leave source target = some after) (kept : good blocks) : good after := by
  obtain ⟨item, _, moved⟩ := Option.bind_eq_some_iff.mp moved
  obtain ⟨between, first, second⟩ := Option.bind_eq_some_iff.mp moved
  exact keeps between after source _ here second (keeps blocks between target _ there first kept)

include keeps in
theorem move_range_keeps (source target : Pointer) (len left i : Nat) (blocks after : Blocks Item) (here : place source.block)
    (there : place target.block) (moved : moveRange leave source target len left i blocks = some after) (kept : good blocks) :
    good after := by
  induction left generalizing i blocks with
  | zero =>
      obtain rfl := Option.some.inj moved
      exact kept
  | succ left ih =>
      rw [moveRange] at moved
      obtain ⟨next, one, moved⟩ := Option.bind_eq_some_iff.mp moved
      exact ih (i + 1) next moved (move_item_keeps leave good place keeps blocks next (source.add i) (target.add (i + len)) here there one kept)

end Keeps

theorem move_within (blocks : Blocks Item) (block i j : Nat) (slots : List (Option Item)) (item : Option Item)
    (here : blocks.slots block = some slots) (found : slots[i]? = some item) (inside : j < slots.length) :
    ∃ after, blocks.moveItem leave ⟨block, i⟩ ⟨block, j⟩ = some after ∧
      after.slots block = some ((slots.set j item).set i (item.map leave)) := by
  obtain ⟨present, _⟩ := List.getElem?_eq_some_iff.mp found
  obtain ⟨between, first, stored, _⟩ := blocks.write_inside ⟨block, j⟩ item slots here inside
  obtain ⟨after, second, left, _⟩ := between.write_inside ⟨block, i⟩ (item.map leave) _ stored (by rw [List.length_set]; exact present)
  refine ⟨after, ?_, left⟩
  rw [moveItem, read, here, Option.bind_some, found, Option.bind_some, first, Option.bind_some, second]

theorem move_across (blocks : Blocks Item) (old new i j : Nat) (slots others : List (Option Item)) (item : Option Item)
    (here : blocks.slots old = some slots) (there : blocks.slots new = some others) (apart : old ≠ new)
    (found : slots[i]? = some item) (inside : j < others.length) :
    ∃ after, blocks.moveItem leave ⟨old, i⟩ ⟨new, j⟩ = some after ∧
      after.slots old = some (slots.set i (item.map leave)) ∧ after.slots new = some (others.set j item) := by
  obtain ⟨present, _⟩ := List.getElem?_eq_some_iff.mp found
  obtain ⟨between, first, stored, kept⟩ := blocks.write_inside ⟨new, j⟩ item others there inside
  obtain ⟨after, second, left, same⟩ := between.write_inside ⟨old, i⟩ (item.map leave) slots ((kept old apart).trans here) present
  refine ⟨after, ?_, left, (same new apart.symm).trans stored⟩
  rw [moveItem, read, here, Option.bind_some, found, Option.bind_some, first, Option.bind_some, second]

-- Moved up by one from the first on, each item but the first is overwritten before it is read.
theorem move_range_up (block : Nat) (front mid behind : List (Option Item)) (item old : Option Item) (blocks : Blocks Item)
    (here : blocks.slots block = some (front ++ item :: (mid ++ old :: behind))) :
    ∃ after, moveRange leave ⟨block, 0⟩ ⟨block, 0⟩ 1 (mid.length + 1) front.length blocks = some after ∧
      after.slots block = some (front ++ (List.replicate (mid.length + 1) (item.map leave) ++ item :: behind)) := by
  induction mid generalizing front blocks with
  | nil =>
      obtain ⟨after, moved, slots⟩ := move_within leave blocks block front.length (front.length + 1) _ item here (by simp) (by simp)
      refine ⟨after, ?_, ?_⟩
      · simp only [moveRange, Pointer.add, Nat.zero_add, List.length_nil, moved, Option.bind_some]
      · rw [slots]
        simp
  | cons next mid ih =>
      obtain ⟨between, moved, slots⟩ := move_within leave blocks block front.length (front.length + 1) _ item here (by simp) (by simp)
      obtain ⟨after, rest, finished⟩ := ih (front ++ [item.map leave]) between (by rw [slots]; simp)
      refine ⟨after, ?_, ?_⟩
      · rw [List.length_append, List.length_singleton] at rest
        rw [List.length_cons, moveRange]
        simp only [Pointer.add, Nat.zero_add, moved, Option.bind_some]
        exact rest
      · rw [finished, List.length_cons, List.replicate_succ, List.append_assoc]
        rfl

-- Moved to another block, they are all as they were.
theorem move_range_across (old new len : Nat) (apart : old ≠ new) (front mid back done gap tail : List (Option Item))
    (blocks : Blocks Item) (here : blocks.slots old = some (front ++ (mid ++ back)))
    (there : blocks.slots new = some (done ++ (gap ++ tail))) (further : done.length = front.length + len) (same : gap.length = mid.length) :
    ∃ after, moveRange leave ⟨old, 0⟩ ⟨new, 0⟩ len mid.length front.length blocks = some after ∧
      after.slots old = some (front ++ (mid.map (Option.map leave) ++ back)) ∧ after.slots new = some (done ++ (mid ++ tail)) := by
  induction mid generalizing front done gap blocks with
  | nil =>
      rw [List.eq_nil_of_length_eq_zero same] at there
      exact ⟨blocks, rfl, here, there⟩
  | cons item mid ih =>
      cases gap with
      | nil => cases same
      | cons slot gap =>
          obtain ⟨between, moved, left, slots⟩ := move_across leave blocks old new front.length (front.length + len) _ _ item here there apart
            (by simp) (by simp [further])
          obtain ⟨after, rest, finished⟩ := ih (front ++ [item.map leave]) (done ++ [item]) gap between (by rw [left]; simp)
            (by rw [slots]; simp [← further]) (by simp [further]; omega) (Nat.succ.inj same)
          refine ⟨after, ?_, ?_⟩
          · rw [List.length_append, List.length_singleton] at rest
            rw [List.length_cons, moveRange]
            simp only [Pointer.add, Nat.zero_add, moved, Option.bind_some]
            exact rest
          · simpa using finished

end Moves

end Blocks

theorem take_set_succ (slots : List Item) (index : Nat) (item : Item) (inside : index < slots.length) :
    (slots.set index item).take (index + 1) = slots.take index ++ [item] := by
  rw [List.take_add_one, List.take_set_of_le (Nat.le_refl index), List.getElem?_set_self inside]
  rfl

end Storage
