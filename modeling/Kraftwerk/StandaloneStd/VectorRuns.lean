import Kraftwerk.Lib.Simulation
import Kraftwerk.StandaloneStd.VectorErase
import Kraftwerk.StandaloneStd.VectorInsert

set_option autoImplicit false

-- standalone_std::vector: pop_back, clear, assign and the element accesses, and runs of all its calls that do on the
-- storage what they do on a list.
namespace Kraftwerk.StandaloneStd

open Storage Runs

variable {T Args : Type}

-- Before the first element there is no slot.
def popBack (vector : Vector T) : Option (Vector T) :=
  if vector.objectCount = 0 then none
  else
    (vector.blocks.write (vector.elements.add (vector.objectCount - 1)) none).map (fun blocks =>
      { vector with blocks := blocks, objectCount := vector.objectCount - 1 })

-- What the loops of clear and assign make of each slot, from i on.
def writeFrom (elements : Pointer) (item : Option T) : Nat → Nat → Blocks T → Option (Blocks T)
  | 0, _, blocks => some blocks
  | left + 1, i, blocks => (blocks.write (elements.add i) item).bind (writeFrom elements item left (i + 1))

-- alloc_object.destruct(elements+i), where T is no pointer.
def clear (isPointer : Bool) (vector : Vector T) : Option (Vector T) :=
  (if isPointer then some vector.blocks else writeFrom vector.elements none vector.objectCount 0 vector.blocks).map (fun blocks =>
    { vector with blocks := blocks, objectCount := 0 })

-- elements[i] = value, and object_count stays as clear has left it.
def assignFill (isPointer : Bool) (vector : Vector T) (count : Nat) (value : T) : Option (Vector T) :=
  (clear isPointer vector).bind (fun vector =>
    (writeFrom vector.elements (some value) count 0 vector.blocks).map (fun blocks => { vector with blocks := blocks }))

def pushAll (grow : Nat → Nat) : List T → Vector T → Option (Vector T)
  | [], vector => some vector
  | value :: rest, vector => (pushBack grow vector value).bind (pushAll grow rest)

def assignRange (grow : Nat → Nat) (isPointer : Bool) (vector : Vector T) (items : List T) : Option (Vector T) :=
  (clear isPointer vector).bind (pushAll grow items)

-- at and operator[] without a bounds check, front and back.
def elementAt (vector : Vector T) (p : Nat) : Option (Option T) := vector.blocks.read (vector.elements.add p)

def front (vector : Vector T) : Option (Option T) := vector.blocks.read vector.elements

def back (vector : Vector T) : Option (Option T) :=
  if 0 < vector.objectCount then vector.blocks.read (vector.elements.add (vector.objectCount - 1))
  else vector.blocks.read (vector.elements.add 0)

inductive VectorCall (T Args : Type) where
  | append (call : Append T Args)
  | insertion (pos : Nat) (call : Insertion) (item : T)
  | erase (pos : Nat)
  | eraseRange (start stop : Nat)
  | popBack
  | clear
  | assignFill (count : Nat) (value : T)
  | assignRange (items : List T)

-- The loops of erase get a turn for each item, and one more to see that they are done.
def vectorStep (grow : Nat → Nat) (build : Args → T) (leave : T → T) (isPointer : Bool) (vector : Vector T) :
    VectorCall T Args → Option (Vector T)
  | .append call => appendStep grow build vector call
  | .insertion pos call _ => insertStep leave vector pos call
  | .erase pos => (StandaloneStd.erase leave (vector.objectCount + 1) vector pos).map Prod.fst
  | .eraseRange start stop => (StandaloneStd.eraseRange leave (vector.objectCount + 1) vector start stop).map Prod.fst
  | .popBack => StandaloneStd.popBack vector
  | .clear => StandaloneStd.clear isPointer vector
  | .assignFill count value => StandaloneStd.assignFill isPointer vector count value
  | .assignRange items => StandaloneStd.assignRange grow isPointer vector items

-- What a vector is for: a list, in storage for so many items.
structure Sequence (T : Type) where
  items : List T
  capacity : Nat

-- The calls on lists.
def Sequence.apply (build : Args → T) (sequence : Sequence T) : VectorCall T Args → Sequence T
  | .append call => { sequence with items := sequence.items ++ [call.value build] }
  | .insertion pos _ item => ⟨inserted sequence.items pos item, max sequence.capacity (sequence.items.length + 1)⟩
  | .erase pos => { sequence with items := sequence.items.take pos ++ sequence.items.drop (pos + 1) }
  | .eraseRange start stop => { sequence with items := sequence.items.take start ++ sequence.items.drop stop }
  | .popBack => { sequence with items := sequence.items.dropLast }
  | .clear => { sequence with items := [] }
  | .assignFill count value => { sequence with items := List.replicate count value }
  | .assignRange items => { sequence with items := items }

-- The calls that the storage follows, where rest is the memory besides it: appends and assignments fit, what is inserted
-- is the item outside of the storage that the call refers to and moving loses nothing, nor does erasing a range, and
-- assign of a count, which leaves object_count at 0, is given no count.
def Sequence.Follows (leave : T → T) (rest : Nat → Option (List (Option T))) (sequence : Sequence T) : VectorCall T Args → Prop
  | .append _ => sequence.items.length < sequence.capacity
  | .insertion pos call item => pos < sequence.items.length ∧
      (rest call.value.block).bind (fun slots => slots[call.value.offset]?) = some (some item) ∧
        if sequence.items.length < sequence.capacity then Uniform leave (sequence.items.drop (pos + 1)) else ∃ value, call = .insert value
  | .erase pos => pos < sequence.items.length
  | .eraseRange start stop => start ≤ stop ∧ stop < sequence.items.length ∧ RangeErasable leave sequence.items start stop
  | .popBack => 0 < sequence.items.length
  | .clear => True
  | .assignFill count _ => count = 0
  | .assignRange items => items.length ≤ sequence.capacity

instance [DecidableEq T] (leave : T → T) (items : List T) : Decidable (Uniform leave items) :=
  match items with
  | [] => isTrue trivial
  | first :: rest => inferInstanceAs (Decidable (rest ≠ [] → leave first = first ∧ ∀ item ∈ rest, item = first))

instance [DecidableEq T] (leave : T → T) (xs : List T) (start stop : Nat) : Decidable (RangeErasable leave xs start stop) :=
  match found : xs.drop stop with
  | [] => isFalse (by rintro ⟨x, rest, other, _⟩; rw [found] at other; cases other)
  | x :: rest =>
      decidable_of_iff ((∀ item ∈ rest, item = x) ∧ if start + rest.length ≤ stop then xs[start + rest.length]? = some x else leave x = x)
        ⟨fun kept => ⟨x, rest, found, kept⟩, by
          rintro ⟨other, others, same, kept⟩
          obtain ⟨rfl, rfl⟩ := List.cons.inj (found.symm.trans same)
          exact kept⟩

instance (call : Insertion) : Decidable (∃ value, call = .insert value) :=
  match call with
  | .insert value => isTrue ⟨value, rfl⟩
  | .emplace _ => isFalse (by rintro ⟨_, other⟩; cases other)

instance [DecidableEq T] (leave : T → T) (rest : Nat → Option (List (Option T))) (sequence : Sequence T) (call : VectorCall T Args) :
    Decidable (sequence.Follows leave rest call) :=
  match call with
  | .append _ | .erase _ | .popBack | .assignRange _ => inferInstanceAs (Decidable ((_ : Nat) ≤ _))
  | .insertion _ _ _ => inferInstanceAs (Decidable (_ ∧ _ ∧ ite ..))
  | .eraseRange _ _ => inferInstanceAs (Decidable (_ ∧ _ ∧ _))
  | .clear => inferInstanceAs (Decidable True)
  | .assignFill _ _ => inferInstanceAs (Decidable ((_ : Nat) = _))

-- The memory is the storage and what is besides it, and no block is handed out twice.
structure Outside (rest : Nat → Option (List (Option T))) (own : Nat) (blocks : Blocks T) : Prop where
  fresh : blocks.Fresh
  same : ∀ block, own ≠ block → blocks.slots block = rest block

-- The vector keeps the list at the start of its storage.
structure Vector.Keeps (rest : Nat → Option (List (Option T))) (vector : Vector T) (sequence : Sequence T) : Prop where
  holds : vector.Holds sequence.items
  capacity : vector.arraySize = sequence.capacity
  own : rest vector.elements.block = none
  outside : Outside rest vector.elements.block vector.blocks

-- The element accesses read the list.
structure Vector.Shows (vector : Vector T) (items : List T) : Prop where
  element : ∀ p, p < items.length → elementAt vector p = some items[p]?
  first : items ≠ [] → front vector = some items.head?
  last : items ≠ [] → back vector = some items.getLast?

section Writes

theorem write_from_slots (block : Nat) (item : Option T) (done mid behind : List (Option T)) (blocks : Blocks T)
    (here : blocks.slots block = some (done ++ (mid ++ behind))) :
    ∃ after, writeFrom ⟨block, 0⟩ item mid.length done.length blocks = some after ∧
      after.slots block = some (done ++ (List.replicate mid.length item ++ behind)) := by
  induction mid generalizing done blocks with
  | nil => exact ⟨blocks, rfl, here⟩
  | cons slot mid ih =>
      obtain ⟨between, written, slots⟩ := blocks.write_between block done (mid ++ behind) slot item here
      obtain ⟨after, rest, finished⟩ := ih (done ++ [item]) between (by rw [slots]; simp)
      refine ⟨after, ?_, ?_⟩
      · rw [List.length_append, List.length_singleton] at rest
        rw [List.length_cons, writeFrom, Pointer.add, Nat.zero_add, written, Option.bind_some]
        exact rest
      · rw [finished, List.length_cons, List.replicate_succ]
        simp

variable (rest : Nat → Option (List (Option T))) (own : Nat)

theorem write_outside (blocks after : Blocks T) (pointer : Pointer) (item : Option T) (here : pointer.block = own)
    (written : blocks.write pointer item = some after) (outside : Outside rest own blocks) : Outside rest own after :=
  ⟨blocks.write_fresh after pointer item written outside.fresh, fun block other =>
    (blocks.write_elsewhere after pointer item block (here ▸ other) written).trans (outside.same block other)⟩

theorem write_from_outside (elements : Pointer) (item : Option T) (left i : Nat) (blocks after : Blocks T) (here : elements.block = own)
    (written : writeFrom elements item left i blocks = some after) (outside : Outside rest own blocks) : Outside rest own after := by
  induction left generalizing i blocks with
  | zero =>
      obtain rfl := Option.some.inj written
      exact outside
  | succ left ih =>
      obtain ⟨next, one, written⟩ := Option.bind_eq_some_iff.mp written
      exact ih (i + 1) next written (write_outside rest own blocks next (elements.add i) item here one outside)

theorem erase_loop_outside (leave : T → T) (last target source : Pointer) (fuel : Nat) (blocks after : Blocks T) (here : source.block = own)
    (there : target.block = own) (erased : eraseLoop leave last fuel target source blocks = some after)
    (outside : Outside rest own blocks) : Outside rest own after := by
  induction fuel generalizing target source blocks with
  | zero => cases erased
  | succ fuel ih =>
      rw [eraseLoop] at erased
      split at erased
      · obtain rfl := Option.some.inj erased
        exact outside
      · obtain ⟨destructed, first, erased⟩ := Option.bind_eq_some_iff.mp erased
        obtain ⟨between, second, erased⟩ := Option.bind_eq_some_iff.mp erased
        have kept := write_outside rest own blocks destructed target none there first outside
        exact ih (target.add 1) (source.add 1) between here there erased (Blocks.move_item_keeps leave (Outside rest own) (· = own)
          (write_outside rest own) destructed between source target here there second kept)

end Writes

section Steps

variable (rest : Nat → Option (List (Option T))) (grow : Nat → Nat) (build : Args → T) (leave : T → T) (isPointer : Bool)
  (vector : Vector T) (sequence : Sequence T)

theorem keeps_append_value (value : T) (kept : vector.Keeps rest sequence) (room : sequence.items.length < sequence.capacity) :
    ∃ after, appendValue grow vector value = some after ∧ after.Keeps rest ⟨sequence.items ++ [value], sequence.capacity⟩ := by
  have spare : sequence.items.length < vector.arraySize := kept.capacity ▸ room
  obtain ⟨after, appended, one, size, _⟩ := append_value_fits grow vector sequence.items value kept.holds spare
  have outcome := appended
  rw [appendValue, if_neg (by rw [kept.holds.count]; omega), Option.bind_some] at outcome
  obtain ⟨blocks, written, rfl⟩ := Option.map_eq_some_iff.mp outcome
  exact ⟨_, appended, one.holds, size.trans kept.capacity, kept.own,
    write_outside rest _ _ blocks (vector.elements.add vector.objectCount) _ rfl written kept.outside⟩

-- The value that a call refers to, outside of the storage.
theorem read_outside (value : Pointer) (item : T) (kept : vector.Keeps rest sequence)
    (given : (rest value.block).bind (fun slots => slots[value.offset]?) = some (some item)) :
    value.block ≠ vector.elements.block ∧ vector.blocks.read value = some (some item) := by
  have other : value.block ≠ vector.elements.block := by
    intro same
    rw [same, kept.own] at given
    cases given
  exact ⟨other, by rw [Blocks.read, kept.outside.same _ other.symm]; exact given⟩

theorem insert_place_outside (pos : Nat) (value : Pointer) (after : Vector T) (kept : vector.Keeps rest sequence)
    (room : ¬ vector.arraySize < vector.objectCount + 1) (done : insert leave vector pos value = some after) :
    after.arraySize = vector.arraySize ∧ after.elements = vector.elements ∧ Outside rest vector.elements.block after.blocks := by
  obtain ⟨between, shifted, done⟩ := Option.bind_eq_some_iff.mp done
  obtain ⟨blocks, copied, rfl⟩ := Option.map_eq_some_iff.mp done
  obtain ⟨item, _, written⟩ := Option.bind_eq_some_iff.mp copied
  rw [shift, if_neg room] at shifted
  obtain ⟨moved, ranged, rfl⟩ := Option.map_eq_some_iff.mp shifted
  have outside := Blocks.move_range_keeps leave (Outside rest vector.elements.block) (· = vector.elements.block)
    (write_outside rest _) _ _ _ _ _ _ moved rfl rfl ranged kept.outside
  exact ⟨rfl, rfl, write_outside rest _ moved blocks (vector.elements.add (pos + 1)) item rfl written outside⟩

theorem insert_new_outside (pos : Nat) (value : Pointer) (after : Vector T) (kept : vector.Keeps rest sequence)
    (full : vector.arraySize < vector.objectCount + 1) (done : insert leave vector pos value = some after) :
    after.arraySize = vector.objectCount + 1 ∧ rest after.elements.block = none ∧ Outside rest after.elements.block after.blocks := by
  obtain ⟨slots, here, _⟩ := kept.holds.storage
  have apart : vector.elements.block ≠ vector.blocks.next := by
    intro same
    rw [same, kept.outside.fresh _ (Nat.le_refl _)] at here
    cases here
  obtain ⟨between, shifted, done⟩ := Option.bind_eq_some_iff.mp done
  obtain ⟨blocks, copied, rfl⟩ := Option.map_eq_some_iff.mp done
  obtain ⟨item, _, written⟩ := Option.bind_eq_some_iff.mp copied
  obtain ⟨new, size, freed⟩ := shift_frees leave vector between pos 1 shifted full
  have outside : Outside rest between.elements.block between.blocks := by
    refine ⟨shift_fresh leave vector between pos 1 shifted kept.outside.fresh, fun block other => ?_⟩
    rcases eq_or_ne vector.elements.block block with rfl | old
    · exact freed.trans kept.own.symm
    · exact (shift_elsewhere leave vector between pos 1 block shifted old other).trans (kept.outside.same block old)
  refine ⟨size, ?_, write_outside rest _ _ blocks (between.elements.add (pos + 1)) item rfl written outside⟩
  rw [new, ← kept.outside.same _ apart]
  exact kept.outside.fresh _ (Nat.le_refl _)

theorem keeps_insertion (pos : Nat) (call : Insertion) (item : T) (kept : vector.Keeps rest sequence)
    (follows : sequence.Follows leave rest (.insertion pos call item : VectorCall T Args)) :
    ∃ after, insertStep leave vector pos call = some after ∧ after.Keeps rest (sequence.apply build (.insertion pos call item)) := by
  obtain ⟨before, given, room⟩ := follows
  obtain ⟨other, found⟩ := read_outside rest vector sequence call.value item kept given
  have count := kept.holds.count
  have capacity := kept.capacity
  by_cases spare : sequence.items.length < sequence.capacity
  · rw [if_pos spare] at room
    have place : sequence.items.length < vector.arraySize := capacity ▸ spare
    have unmoved : displaced leave vector sequence.items pos call.value = none := if_neg fun all => other all.1
    obtain ⟨after, done, holds⟩ := insert_in_place leave vector sequence.items pos call.value item kept.holds before place found
    rw [unmoved, Option.getD_none, (overwritten_eq_iff leave _).mpr room] at holds
    obtain ⟨size, same, outside⟩ := insert_place_outside rest leave vector sequence pos call.value after kept (by omega) done
    refine ⟨after, (insert_step_in_place leave vector sequence.items pos call kept.holds place).trans done, holds, ?_, same ▸ kept.own,
      same ▸ outside⟩
    rw [size, capacity, Sequence.apply, Nat.max_eq_left spare]
  · rw [if_neg spare] at room
    obtain ⟨value, rfl⟩ := room
    have full : vector.arraySize ≤ sequence.items.length := by omega
    obtain ⟨after, done, holds⟩ := insert_reallocated leave vector sequence.items pos value item kept.holds
      (kept.outside.fresh _ (Nat.le_refl _)) before full other found
    obtain ⟨size, own, outside⟩ := insert_new_outside rest leave vector sequence pos value after kept (by omega) done
    refine ⟨after, done, holds, ?_, own, outside⟩
    rw [size, count, Sequence.apply, Nat.max_eq_right (by omega)]

theorem keeps_erase (pos : Nat) (kept : vector.Keeps rest sequence) (inside : pos < sequence.items.length) :
    ∃ after, (erase leave (vector.objectCount + 1) vector pos).map Prod.fst = some after ∧
      after.Keeps rest ⟨sequence.items.take pos ++ sequence.items.drop (pos + 1), sequence.capacity⟩ := by
  obtain ⟨after, done, holds⟩ := erase_holds leave (vector.objectCount + 1) vector sequence.items pos kept.holds inside
    (by rw [kept.holds.count]; exact Nat.lt_succ_self _)
  obtain ⟨result, erased, rfl⟩ := Option.map_eq_some_iff.mp done
  obtain ⟨blocks, looped, rfl⟩ := Option.map_eq_some_iff.mp erased
  exact ⟨_, done, holds, kept.capacity, kept.own,
    erase_loop_outside rest _ leave _ (vector.elements.add _) (vector.elements.add _) _ vector.blocks blocks rfl rfl looped kept.outside⟩

theorem keeps_erase_range (start stop : Nat) (kept : vector.Keeps rest sequence) (order : start ≤ stop) (inside : stop < sequence.items.length)
    (erasable : RangeErasable leave sequence.items start stop) :
    ∃ after, (eraseRange leave (vector.objectCount + 1) vector start stop).map Prod.fst = some after ∧
      after.Keeps rest ⟨sequence.items.take start ++ sequence.items.drop stop, sequence.capacity⟩ := by
  obtain ⟨after, done, holds⟩ := erase_range_holds leave (vector.objectCount + 1) vector sequence.items start stop kept.holds order inside
    (by rw [kept.holds.count]; exact Nat.lt_succ_self _)
  rw [(range_kept_iff leave sequence.items start stop order inside).mpr erasable] at holds
  obtain ⟨result, erased, rfl⟩ := Option.map_eq_some_iff.mp done
  obtain ⟨blocks, looped, rfl⟩ := Option.map_eq_some_iff.mp erased
  exact ⟨_, done, holds, kept.capacity, kept.own,
    erase_loop_outside rest _ leave _ (vector.elements.add _) (vector.elements.add _) _ vector.blocks blocks rfl rfl looped kept.outside⟩

theorem keeps_pop_back (kept : vector.Keeps rest sequence) (positive : 0 < sequence.items.length) :
    ∃ after, popBack vector = some after ∧ after.Keeps rest ⟨sequence.items.dropLast, sequence.capacity⟩ := by
  obtain ⟨tail, here, enough⟩ := holds_slots vector sequence.items kept.holds
  have some_item := List.length_pos_iff.mp positive
  have fits := kept.holds.fits
  have shorter : sequence.items.dropLast.length = sequence.items.length - 1 := List.length_dropLast
  rw [← List.dropLast_concat_getLast some_item, List.map_append, List.append_assoc] at here
  obtain ⟨blocks, written, slots⟩ := vector.blocks.write_between vector.elements.block (sequence.items.dropLast.map some) tail
    (some (sequence.items.getLast some_item)) none here
  have address : vector.elements.add (vector.objectCount - 1) = ⟨vector.elements.block, (sequence.items.dropLast.map some).length⟩ := by
    rw [Pointer.add, kept.holds.first, kept.holds.count, Nat.zero_add, List.length_map, shorter]
  have outside := write_outside rest vector.elements.block vector.blocks blocks
    ⟨vector.elements.block, (sequence.items.dropLast.map some).length⟩ none rfl written kept.outside
  refine ⟨{ vector with blocks := blocks, objectCount := vector.objectCount - 1 }, ?_, ?_, kept.capacity, kept.own, outside⟩
  · rw [popBack, if_neg (by rw [kept.holds.count]; omega), address, written, Option.map_some]
  · refine holds_of_slots _ _ (none :: tail) ?_ ?_ kept.holds.first slots ?_
    · rw [shorter, ← kept.holds.count]
    · rw [shorter]
      exact Nat.le_trans (Nat.sub_le _ _) fits
    · rw [List.length_cons, shorter]
      dsimp only
      omega

theorem keeps_clear (kept : vector.Keeps rest sequence) :
    ∃ after, clear isPointer vector = some after ∧ after.Keeps rest ⟨[], sequence.capacity⟩ := by
  obtain ⟨tail, here, enough⟩ := holds_slots vector sequence.items kept.holds
  have start : vector.elements = ⟨vector.elements.block, 0⟩ := by rw [← kept.holds.first]
  cases isPointer with
  | true =>
      refine ⟨{ vector with objectCount := 0 }, rfl, ?_, kept.capacity, kept.own, kept.outside⟩
      refine holds_of_slots _ [] (sequence.items.map some ++ tail) rfl (Nat.zero_le _) kept.holds.first here ?_
      rw [List.length_nil, Nat.zero_add, List.length_append, List.length_map]
      exact enough
  | false =>
      obtain ⟨blocks, written, slots⟩ := write_from_slots vector.elements.block none [] (sequence.items.map some) tail vector.blocks here
      rw [List.length_map, List.length_nil, ← kept.holds.count, ← start] at written
      refine ⟨{ vector with blocks := blocks, objectCount := 0 }, ?_, ?_, kept.capacity, kept.own,
        write_from_outside rest _ vector.elements _ _ _ _ blocks rfl written kept.outside⟩
      · rw [clear, if_neg Bool.false_ne_true, written, Option.map_some]
      · refine holds_of_slots _ [] _ rfl (Nat.zero_le _) kept.holds.first slots ?_
        rw [List.length_nil, Nat.zero_add, List.length_append, List.length_replicate, List.length_map]
        exact enough

theorem keeps_push_all (items : List T) (kept : vector.Keeps rest sequence)
    (room : sequence.items.length + items.length ≤ sequence.capacity) :
    ∃ after, pushAll grow items vector = some after ∧ after.Keeps rest ⟨sequence.items ++ items, sequence.capacity⟩ := by
  induction items generalizing vector sequence with
  | nil => exact ⟨vector, rfl, by rw [List.append_nil]; exact kept⟩
  | cons value others ih =>
      rw [List.length_cons] at room
      obtain ⟨next, pushed, one⟩ := keeps_append_value rest grow vector sequence value kept (by omega)
      obtain ⟨after, done, more⟩ := ih next _ one (by simp only [List.length_append, List.length_singleton]; omega)
      refine ⟨after, ?_, ?_⟩
      · rw [pushAll, pushBack, pushed, Option.bind_some, done]
      · rw [List.append_assoc, List.singleton_append] at more
        exact more

theorem keeps_step (call : VectorCall T Args) (kept : vector.Keeps rest sequence) (follows : sequence.Follows leave rest call) :
    ∃ after, vectorStep grow build leave isPointer vector call = some after ∧ after.Keeps rest (sequence.apply build call) := by
  cases call with
  | append call =>
      rw [vectorStep, append_step_value]
      exact keeps_append_value rest grow vector sequence _ kept follows
  | insertion pos call item => exact keeps_insertion rest build leave vector sequence pos call item kept follows
  | erase pos => exact keeps_erase rest leave vector sequence pos kept follows
  | eraseRange start stop =>
      obtain ⟨order, inside, erasable⟩ := follows
      exact keeps_erase_range rest leave vector sequence start stop kept order inside erasable
  | popBack => exact keeps_pop_back rest vector sequence kept follows
  | clear => exact keeps_clear rest isPointer vector sequence kept
  | assignFill count value =>
      obtain rfl : count = 0 := follows
      obtain ⟨cleared, done, empty⟩ := keeps_clear rest isPointer vector sequence kept
      exact ⟨cleared, by rw [vectorStep, assignFill, done, Option.bind_some]; rfl, empty⟩
  | assignRange items =>
      obtain ⟨cleared, done, empty⟩ := keeps_clear rest isPointer vector sequence kept
      obtain ⟨after, pushed, all⟩ := keeps_push_all rest grow cleared _ items empty (by rw [List.length_nil, Nat.zero_add]; exact follows)
      exact ⟨after, by rw [vectorStep, assignRange, done, Option.bind_some, pushed], all⟩

end Steps

theorem element_read (vector : Vector T) (items : List T) (p : Nat) (holds : vector.Holds items) (inside : p < items.length) :
    elementAt vector p = some items[p]? := by
  obtain ⟨tail, here, _⟩ := holds_slots vector items holds
  rw [elementAt, Blocks.read, Pointer.add, holds.first, Nat.zero_add, here, Option.bind_some]
  dsimp only
  rw [List.getElem?_append_left (by rw [List.length_map]; exact inside), List.getElem?_map, List.getElem?_eq_getElem inside, Option.map_some]

theorem holds_shows (vector : Vector T) (items : List T) (holds : vector.Holds items) : vector.Shows items := by
  refine ⟨fun p => element_read vector items p holds, fun some_item => ?_, fun some_item => ?_⟩
  · rw [List.head?_eq_getElem?]
    exact element_read vector items 0 holds (List.length_pos_iff.mpr some_item)
  · have positive := List.length_pos_iff.mpr some_item
    rw [back, if_pos (by rw [holds.count]; exact positive), holds.count, List.getLast?_eq_getElem?]
    exact element_read vector items (items.length - 1) holds (by omega)

theorem vector_runs_list (rest : Nat → Option (List (Option T))) (grow : Nat → Nat) (build : Args → T) (leave : T → T) (isPointer : Bool)
    (vector : Vector T) (sequence : Sequence T) (calls : List (VectorCall T Args)) (kept : vector.Keeps rest sequence)
    (follows : Along (fun sequence call => some (sequence.apply build call)) (Sequence.Follows leave rest) sequence calls) :
    ∃ after, run (vectorStep grow build leave isPointer) vector calls = some after ∧
      after.Keeps rest (calls.foldl (Sequence.apply build) sequence) ∧ after.Shows (calls.foldl (Sequence.apply build) sequence).items := by
  obtain ⟨after, finished, last⟩ := Simulation.run_follows (vectorStep grow build leave isPointer) (Sequence.apply build)
    (Sequence.Follows leave rest) (Vector.Keeps rest)
    (fun vector sequence call => keeps_step rest grow build leave isPointer vector sequence call) vector sequence calls kept follows
  exact ⟨after, finished, last, holds_shows after _ last.holds⟩

theorem beside_keeps (items : List T) (spare : Nat) (item : T) : ((Vector.stored items spare).beside item).Keeps
    (Function.update (fun _ => none) 1 (some [some item])) ⟨items, items.length + spare⟩ := by
  have slots : ((Vector.stored items spare).beside item).blocks.slots = Function.update (Function.update (fun _ : Nat => none) 0
      (some (items.map some ++ List.replicate spare none))) 1 (some [some item]) := rfl
  refine ⟨beside_holds _ items item (stored_holds items spare) rfl, rfl, rfl, fun block later => ?_, fun block other => ?_⟩
  · have behind : 2 ≤ block := later
    rw [slots, Function.update_of_ne (by omega), Function.update_of_ne (by omega)]
  · have apart : block ≠ 0 := fun same => other same.symm
    rw [slots]
    by_cases same : block = 1
    · rw [same, Function.update_self, Function.update_self]
    · rw [Function.update_of_ne same, Function.update_of_ne apart, Function.update_of_ne same]

-- 9, which is not in the vector, goes behind the first 1 into new storage and, at the end, into a slot to spare.
theorem appended_inserted_erased :
    ∃ after, run (vectorStep id Nat.succ id false) ((Vector.stored [1, 1] 1).beside 9)
        [.append (.emplaceBack 0), .insertion 0 (.insert ⟨1, 0⟩) 9, .eraseRange 2 3, .erase 0, .insertion 1 (.emplace ⟨1, 0⟩) 9,
          .popBack] = some after ∧
      after.Keeps (Function.update (fun _ => none) 1 (some [some 9])) ⟨[9, 1], 4⟩ ∧ after.Shows [9, 1] :=
  vector_runs_list (Function.update (fun _ => none) 1 (some [some 9])) id Nat.succ id false ((Vector.stored [1, 1] 1).beside 9)
    ⟨[1, 1], 3⟩ _ (beside_keeps [1, 1] 1 9) (by decide)

end Kraftwerk.StandaloneStd
