import Kraftwerk.Lib.Runs
import Kraftwerk.Lib.Storage
import Mathlib.Algebra.Group.Nat.Defs

set_option autoImplicit false

-- standalone_std::vector: push_back and emplace_back. grow n is what pow(n, 1.5) becomes as a
-- size_t, and build is the constructor of T that emplace_back calls.
namespace Kraftwerk.StandaloneStd

open Storage Runs

variable {T Args : Type}

structure Vector (T : Type) where
  blocks : Blocks T
  elements : Pointer
  objectCount : Nat
  arraySize : Nat

-- *tmp++ = move(elements[i]), from i up to object_count.
def moveElements (elements : Pointer) : Nat → Nat → Blocks T → Pointer → Option (Blocks T × Pointer)
  | 0, _, blocks, tmp => some (blocks, tmp)
  | left + 1, i, blocks, tmp =>
      (blocks.read (elements.add i)).bind (fun item =>
        (blocks.write tmp item).bind (fun blocks => moveElements elements left (i + 1) blocks (tmp.add 1)))

def reallocate (vector : Vector T) (newSize : Nat) : Option (Vector T) :=
  let allocated := vector.blocks.allocate newSize
  (moveElements vector.elements vector.objectCount 0 allocated.1 allocated.2).bind (fun moved =>
    (moved.1.deallocate vector.elements).map (fun blocks =>
      { vector with blocks := blocks, arraySize := newSize, elements := moved.2 }))

def appendValue (grow : Nat → Nat) (vector : Vector T) (value : T) : Option (Vector T) :=
  (if vector.arraySize ≤ vector.objectCount then reallocate vector (grow vector.arraySize) else some vector).bind (fun vector =>
    (vector.blocks.write (vector.elements.add vector.objectCount) (some value)).map (fun blocks =>
      { vector with blocks := blocks, objectCount := vector.objectCount + 1 }))

def pushBack (grow : Nat → Nat) (vector : Vector T) (value : T) : Option (Vector T) := appendValue grow vector value

def emplaceBack (grow : Nat → Nat) (build : Args → T) (vector : Vector T) (args : Args) : Option (Vector T) :=
  appendValue grow vector (build args)

inductive Append (T Args : Type) where
  | pushBack (value : T)
  | emplaceBack (args : Args)

def Append.value (build : Args → T) : Append T Args → T
  | .pushBack value => value
  | .emplaceBack args => build args

def appendStep (grow : Nat → Nat) (build : Args → T) (vector : Vector T) : Append T Args → Option (Vector T)
  | .pushBack value => pushBack grow vector value
  | .emplaceBack args => emplaceBack grow build vector args

-- The vector holds the items at the start of its storage.
structure Vector.Holds (vector : Vector T) (items : List T) : Prop where
  count : vector.objectCount = items.length
  fits : items.length ≤ vector.arraySize
  first : vector.elements.offset = 0
  storage : ∃ slots, vector.blocks.slots vector.elements.block = some slots ∧ vector.arraySize ≤ slots.length ∧
    slots.take items.length = items.map some

structure Appended (before after : Vector T) (items : List T) : Prop where
  holds : after.Holds items
  elsewhere : ∀ block, block ≠ before.elements.block → block ≠ after.elements.block →
    after.blocks.slots block = before.blocks.slots block

def AppendsAll (grow : Nat → Nat) (build : Args → T) (before : Vector T) (xs : List T) (calls : List (Append T Args)) : Prop :=
  ∃ after, run (appendStep grow build) before calls = some after ∧ Appended before after (xs ++ calls.map (Append.value build))

-- A vector in the first block, with slots to spare.
def Vector.stored (items : List T) (spare : Nat) : Vector T where
  blocks := ⟨Function.update (fun _ => none) 0 (some (items.map some ++ List.replicate spare none)), 1⟩
  elements := ⟨0, 0⟩
  objectCount := items.length
  arraySize := items.length + spare

theorem stored_holds (items : List T) (spare : Nat) : (Vector.stored items spare).Holds items := by
  refine ⟨rfl, Nat.le_add_right _ _, rfl, items.map some ++ List.replicate spare none, rfl, ?_, ?_⟩
  · rw [List.length_append, List.length_map, List.length_replicate]
    exact Nat.le_refl _
  · rw [← List.length_map some, List.take_left]

theorem holds_slots (vector : Vector T) (items : List T) (holds : vector.Holds items) :
    ∃ tail, vector.blocks.slots vector.elements.block = some (items.map some ++ tail) ∧ vector.arraySize ≤ items.length + tail.length := by
  obtain ⟨slots, here, enough, spelled⟩ := holds.storage
  refine ⟨slots.drop items.length, ?_, ?_⟩
  · rw [← spelled, List.take_append_drop]
    exact here
  · have fits := holds.fits
    rw [List.length_drop]
    omega

theorem holds_of_slots (vector : Vector T) (items : List T) (tail : List (Option T)) (count : vector.objectCount = items.length)
    (fits : items.length ≤ vector.arraySize) (first : vector.elements.offset = 0)
    (here : vector.blocks.slots vector.elements.block = some (items.map some ++ tail)) (enough : vector.arraySize ≤ items.length + tail.length) :
    vector.Holds items := by
  refine ⟨count, fits, first, _, here, ?_, ?_⟩
  · rw [List.length_append, List.length_map]
    exact enough
  · rw [← List.length_map some, List.take_left]

theorem holds_unique (vector : Vector T) (xs ys : List T) (left : vector.Holds xs) (right : vector.Holds ys) : xs = ys := by
  obtain ⟨slots, here, _, first⟩ := left.storage
  obtain ⟨others, there, _, second⟩ := right.storage
  obtain rfl := Option.some.inj (here.symm.trans there)
  have same : xs.length = ys.length := left.count.symm.trans right.count
  rw [same] at first
  exact List.map_injective_iff.mpr (fun _ _ => Option.some.inj) (first.symm.trans second)

variable (grow : Nat → Nat) (build : Args → T)

theorem append_step_value (vector : Vector T) (call : Append T Args) :
    appendStep grow build vector call = appendValue grow vector (call.value build) := by
  cases call <;> rfl

section Fitting

-- An append below array_size writes behind the last item, in the same storage.
theorem append_value_fits (vector : Vector T) (items : List T) (value : T) (holds : vector.Holds items)
    (room : items.length < vector.arraySize) :
    ∃ after, appendValue grow vector value = some after ∧ Appended vector after (items ++ [value]) ∧
      after.arraySize = vector.arraySize ∧ after.elements = vector.elements := by
  obtain ⟨slots, here, enough, spelled⟩ := holds.storage
  have offset : (vector.elements.add vector.objectCount).offset = items.length := by
    rw [Pointer.add, holds.first, holds.count, Nat.zero_add]
  obtain ⟨blocks, written, stored, others⟩ := vector.blocks.write_inside (vector.elements.add vector.objectCount) (some value) slots here
    (by rw [offset]; omega)
  refine ⟨{ vector with blocks := blocks, objectCount := vector.objectCount + 1 }, ?_, ⟨⟨?_, ?_, holds.first, ?_⟩, ?_⟩, rfl, rfl⟩
  · rw [appendValue, if_neg (by rw [holds.count]; omega), Option.bind_some, written, Option.map_some]
  · rw [List.length_append, List.length_singleton, holds.count]
  · rw [List.length_append, List.length_singleton]
    exact room
  · refine ⟨slots.set items.length (some value), ?_, ?_, ?_⟩
    · rw [← offset]
      exact stored
    · rw [List.length_set]
      exact enough
    · rw [List.length_append, List.length_singleton, take_set_succ slots items.length (some value) (by omega), spelled, List.map_append]
      rfl
  · intro block other _
    exact others block other

theorem appends_fit (vector : Vector T) (items : List T) (calls : List (Append T Args)) (holds : vector.Holds items)
    (room : items.length + calls.length ≤ vector.arraySize) : AppendsAll grow build vector items calls := by
  induction calls generalizing vector items with
  | nil => exact ⟨vector, rfl, by rw [List.map_nil, List.append_nil]; exact ⟨holds, fun _ _ _ => rfl⟩⟩
  | cons call rest ih =>
      rw [List.length_cons] at room
      obtain ⟨next, stepped, one, size, same⟩ := append_value_fits grow vector items (call.value build) holds (by omega)
      obtain ⟨after, finished, more⟩ := ih next (items ++ [call.value build]) one.holds
        (by rw [List.length_append, List.length_singleton, size]; omega)
      refine ⟨after, ?_, ?_, fun block other last => ?_⟩
      · rw [run, append_step_value, stepped]
        exact finished
      · rw [List.map_cons, List.append_cons]
        exact more.holds
      · rw [more.elsewhere block (by rw [same]; exact other) last, one.elsewhere block other (by rw [same]; exact other)]

end Fitting

section Full

theorem move_elements_end (elements : Pointer) (left i : Nat) (blocks after : Blocks T) (tmp last : Pointer)
    (moved : moveElements elements left i blocks tmp = some (after, last)) : last = tmp.add left := by
  induction left generalizing i blocks tmp with
  | zero =>
      obtain ⟨_, rfl⟩ := Prod.mk.inj (Option.some.inj moved)
      rfl
  | succ left ih =>
      rw [moveElements] at moved
      obtain ⟨item, _, moved⟩ := Option.bind_eq_some_iff.mp moved
      obtain ⟨blocks, _, moved⟩ := Option.bind_eq_some_iff.mp moved
      rw [ih (i + 1) blocks (tmp.add 1) moved, Pointer.add, Pointer.add, Pointer.add, Nat.add_assoc, Nat.add_comm 1]

-- Where tmp has moved to stays the vector's first element.
theorem reallocate_elements (vector after : Vector T) (newSize : Nat) (done : reallocate vector newSize = some after) :
    vector.elements.offset = 0 ∧ after.elements = ⟨vector.blocks.next, vector.objectCount⟩ ∧
      after.objectCount = vector.objectCount := by
  rw [reallocate] at done
  obtain ⟨⟨blocks, tmp⟩, moved, done⟩ := Option.bind_eq_some_iff.mp done
  obtain ⟨freed, deallocated, rfl⟩ := Option.map_eq_some_iff.mp done
  have last := move_elements_end _ _ _ _ _ _ _ moved
  refine ⟨?_, ?_, rfl⟩
  · by_contra inside
    rw [Blocks.deallocate_inside blocks vector.elements inside] at deallocated
    cases deallocated
  · dsimp only
    rw [last, Pointer.add, Blocks.allocate, Nat.zero_add]

-- The storage of an empty vector of no slots has none afterwards either.
theorem reallocate_empty (vector after : Vector T) (empty : vector.objectCount = 0) (done : reallocate vector 0 = some after) :
    after.blocks.Ends after.elements.block 0 := by
  obtain ⟨_, moved, _⟩ := reallocate_elements vector after 0 done
  rw [reallocate, empty] at done
  obtain ⟨freed, deallocated, rfl⟩ := Option.map_eq_some_iff.mp done
  exact Blocks.deallocate_ends _ freed vector.elements _ 0 deallocated (vector.blocks.allocate_ends 0)

theorem append_value_offset (vector after : Vector T) (value : T) (inside : vector.elements.offset ≠ 0)
    (done : appendValue grow vector value = some after) : after.elements.offset ≠ 0 := by
  rw [appendValue] at done
  obtain ⟨sized, resized, done⟩ := Option.bind_eq_some_iff.mp done
  obtain ⟨blocks, _, rfl⟩ := Option.map_eq_some_iff.mp done
  split at resized
  · exact absurd (reallocate_elements vector sized _ resized).1 inside
  · obtain rfl := Option.some.inj resized
    exact inside

theorem appends_offset (vector after : Vector T) (calls : List (Append T Args)) (inside : vector.elements.offset ≠ 0)
    (done : run (appendStep grow build) vector calls = some after) : after.elements.offset ≠ 0 :=
  run_invariant (appendStep grow build) (fun _ _ => True) (fun vector => vector.elements.offset ≠ 0)
    (fun vector call next kept _ stepped =>
      append_value_offset grow vector next (call.value build) kept (by rw [← append_step_value]; exact stepped))
    vector after calls inside (along_true _ vector calls) done

-- A full vector is moved to new storage: an empty one to a block of no slots, any other one to
-- its end.
theorem append_value_full (growZero : grow 0 = 0) (vector after : Vector T) (items : List T) (value : T) (holds : vector.Holds items)
    (full : vector.arraySize ≤ items.length) (done : appendValue grow vector value = some after) : after.elements.offset ≠ 0 := by
  rw [appendValue, if_pos (by rw [holds.count]; exact full)] at done
  obtain ⟨sized, resized, done⟩ := Option.bind_eq_some_iff.mp done
  obtain ⟨blocks, written, rfl⟩ := Option.map_eq_some_iff.mp done
  obtain ⟨_, moved, count⟩ := reallocate_elements vector sized _ resized
  dsimp only
  rw [moved]
  intro empty
  dsimp only at empty
  have size : vector.arraySize = 0 := by
    have same := holds.count
    omega
  rw [size, growZero] at resized
  have ends := reallocate_empty vector sized empty resized
  have nowhere : sized.blocks.write (sized.elements.add 0) (some value) = none := by
    rw [moved, empty] at ends ⊢
    exact sized.blocks.write_behind ⟨vector.blocks.next, 0⟩ (some value) ends
  rw [count, empty, nowhere] at written
  cases written

theorem appends_full (growZero : grow 0 = 0) (vector after : Vector T) (items : List T) (calls : List (Append T Args))
    (holds : vector.Holds items) (full : vector.arraySize < items.length + calls.length)
    (done : run (appendStep grow build) vector calls = some after) :
    after.elements.offset ≠ 0 := by
  induction calls generalizing vector items with
  | nil => exact absurd holds.fits (Nat.not_le_of_lt full)
  | cons call rest ih =>
      rw [List.length_cons] at full
      rw [run, append_step_value] at done
      obtain ⟨next, stepped, done⟩ := Option.bind_eq_some_iff.mp done
      by_cases room : items.length < vector.arraySize
      · obtain ⟨other, same, one, size, _⟩ := append_value_fits grow vector items (call.value build) holds room
        obtain rfl := Option.some.inj (stepped.symm.trans same)
        refine ih next (items ++ [call.value build]) one.holds ?_ done
        rw [List.length_append, List.length_singleton, size]
        omega
      · have inside := append_value_full grow growZero vector next items (call.value build) holds (Nat.le_of_not_lt room) stepped
        exact appends_offset grow build next after rest inside done

end Full

theorem appends_all_iff (growZero : grow 0 = 0) (vector : Vector T) (xs : List T) (calls : List (Append T Args))
    (holds : vector.Holds xs) : AppendsAll grow build vector xs calls ↔ xs.length + calls.length ≤ vector.arraySize := by
  constructor
  · rintro ⟨after, done, appended⟩
    by_contra full
    exact appends_full grow build growZero vector after xs calls holds (Nat.lt_of_not_le full) done appended.holds.first
  · exact appends_fit grow build vector xs calls holds

theorem two_appends_fit :
    AppendsAll (fun n => Nat.sqrt (n ^ 3)) Nat.succ (Vector.stored [1, 2] 2) [1, 2] [.pushBack 3, .emplaceBack 3] :=
  (appends_all_iff (fun n => Nat.sqrt (n ^ 3)) Nat.succ rfl _ [1, 2] _ (stored_holds [1, 2] 2)).mpr (by decide)

-- Eleven slots are allocated for the five items, and elements stays behind them.
theorem five_items_lost :
    ¬ AppendsAll (fun n => Nat.sqrt (n ^ 3)) Nat.succ (Vector.stored [1, 2, 3, 4, 5] 0) [1, 2, 3, 4, 5] [.pushBack 6] := by
  rintro ⟨after, done, appended⟩
  exact appends_full _ _ rfl _ after [1, 2, 3, 4, 5] _ (stored_holds _ 0) (by decide) done appended.holds.first

example : (pushBack (fun _ => 11) (Vector.stored [1, 2, 3, 4, 5] 0) 6).bind (fun after => after.blocks.read after.elements) =
    some none := by decide

end Kraftwerk.StandaloneStd
