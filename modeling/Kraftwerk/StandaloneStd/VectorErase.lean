import Kraftwerk.StandaloneStd.Vector

set_option autoImplicit false

-- standalone_std::vector: erase of one element and of a range. leave item is what is left of an
-- item that was moved; a slot has no item once it was destructed.
namespace Kraftwerk.StandaloneStd

open Storage Runs

variable {T : Type}

-- The items from source on go to target, until source is last.
def eraseLoop (leave : T → T) (last : Pointer) : Nat → Pointer → Pointer → Blocks T → Option (Blocks T)
  | 0, _, _, _ => none
  | fuel + 1, target, source, blocks =>
      if source = last then some blocks
      else
        (blocks.write target none).bind (fun blocks =>
          (blocks.moveItem leave source target).bind (eraseLoop leave last fuel (target.add 1) (source.add 1)))

def Vector.last (vector : Vector T) : Pointer := vector.elements.add vector.objectCount

-- i+1 is at the end where i is at end()-1.
def erase (leave : T → T) (fuel : Nat) (vector : Vector T) (pos : Nat) : Option (Vector T × Pointer) :=
  (eraseLoop leave vector.last fuel (vector.elements.add pos) (vector.elements.add (pos + 1)) vector.blocks).map (fun blocks =>
    ({ vector with blocks := blocks, objectCount := vector.objectCount - 1 }, vector.elements.add (pos + 1)))

-- The first item that is kept is not the one at end, but the one behind it.
def eraseRange (leave : T → T) (fuel : Nat) (vector : Vector T) (start stop : Nat) : Option (Vector T × Pointer) :=
  let remSize := stop - start
  (eraseLoop leave vector.last fuel (vector.elements.add start) (vector.elements.add (stop + 1)) vector.blocks).map (fun blocks =>
    ({ vector with blocks := blocks, objectCount := vector.objectCount - remSize }, vector.elements.add (start + 1)))

def eraseStep (leave : T → T) (fuel start : Nat) (vector : Vector T) (_ : Unit) : Option (Vector T) :=
  (erase leave fuel vector start).map Prod.fst

def ErasesRange (leave : T → T) (vector : Vector T) (xs : List T) (start stop : Nat) : Prop :=
  ∃ fuel after one, (eraseRange leave fuel vector start stop).map Prod.fst = some after ∧ after.Holds (xs.take start ++ xs.drop stop) ∧
    run (eraseStep leave fuel start) vector (List.replicate (stop - start) ()) = some one ∧ one.Holds (xs.take start ++ xs.drop stop)

section Loop

variable (leave : T → T) (block : Nat)

theorem erase_loop (fuel : Nat) (front gap mid behind : List (Option T)) (blocks : Blocks T) (enough : mid.length < fuel)
    (some_gap : gap ≠ []) (here : blocks.slots block = some (front ++ (gap ++ (mid ++ behind)))) :
    ∃ after, eraseLoop leave ⟨block, front.length + gap.length + mid.length⟩ fuel ⟨block, front.length⟩
        ⟨block, front.length + gap.length⟩ blocks =
        some after ∧
      after.slots block = some (front ++ (mid ++ ((gap ++ mid.map (Option.map leave)).drop mid.length ++ behind))) := by
  induction mid generalizing fuel front gap blocks with
  | nil =>
      obtain ⟨fuel, rfl⟩ : ∃ before, fuel = before + 1 := ⟨fuel - 1, by omega⟩
      refine ⟨blocks, ?_, ?_⟩
      · rw [eraseLoop, List.length_nil, Nat.add_zero, if_pos rfl]
      · simpa using here
  | cons item mid ih =>
      obtain ⟨fuel, rfl⟩ : ∃ before, fuel = before + 1 := ⟨fuel - 1, by omega⟩
      cases gap with
      | nil => exact absurd rfl some_gap
      | cons slot gap =>
          obtain ⟨destructed, written, slots, _⟩ := blocks.write_inside ⟨block, front.length⟩ none _ here (by simp)
          rw [List.set_append_right _ _ (Nat.le_refl _), Nat.sub_self, List.cons_append, List.set_cons_zero] at slots
          obtain ⟨between, moved, left⟩ := Blocks.move_within leave destructed block (front.length + (gap.length + 1)) front.length _ item slots
            (by simp) (by simp)
          obtain ⟨after, rest, finished⟩ := ih fuel (front ++ [item]) (gap ++ [item.map leave]) between
            (Nat.lt_of_succ_lt_succ enough) (by simp) (by rw [left]; simp)
          refine ⟨after, ?_, ?_⟩
          · rw [eraseLoop, if_neg (by simp)]
            simp only [List.length_append, List.length_cons, List.length_nil, Nat.zero_add] at rest moved ⊢
            have further : front.length + (gap.length + 1) + (mid.length + 1) = front.length + 1 + (gap.length + 1) + mid.length := by omega
            have next : front.length + (gap.length + 1) + 1 = front.length + 1 + (gap.length + 1) := by omega
            rw [written, Option.bind_some, moved, Option.bind_some, Pointer.add, Pointer.add]
            dsimp only
            rw [further, next]
            exact rest
          · rw [finished]
            simp

theorem erase_loop_behind (last target source : Pointer) (fuel : Nat) (blocks : Blocks T) (behind : last.offset < source.offset) :
    eraseLoop leave last fuel target source blocks = none := by
  induction fuel generalizing target source blocks with
  | zero => rfl
  | succ fuel ih =>
      rw [eraseLoop, if_neg (fun same => by rw [same] at behind; exact Nat.lt_irrefl _ behind)]
      refine Option.bind_eq_none_iff.mpr (fun destructed _ => Option.bind_eq_none_iff.mpr (fun between _ => ?_))
      exact ih (target.add 1) (source.add 1) between (Nat.lt_succ_of_lt behind)

theorem erase_loop_more (last target source : Pointer) (fuel more : Nat) (blocks after : Blocks T) (still : fuel ≤ more)
    (done : eraseLoop leave last fuel target source blocks = some after) : eraseLoop leave last more target source blocks = some after := by
  induction fuel generalizing target source more blocks with
  | zero => cases done
  | succ fuel ih =>
      obtain ⟨more, rfl⟩ : ∃ before, more = before + 1 := ⟨more - 1, by omega⟩
      rw [eraseLoop] at done ⊢
      by_cases stop : source = last
      · rw [if_pos stop] at done ⊢
        exact done
      · rw [if_neg stop] at done ⊢
        obtain ⟨destructed, written, done⟩ := Option.bind_eq_some_iff.mp done
        obtain ⟨between, moved, done⟩ := Option.bind_eq_some_iff.mp done
        rw [written, Option.bind_some, moved, Option.bind_some]
        exact ih (target.add 1) (source.add 1) more between (Nat.le_of_succ_le_succ still) done

end Loop

-- What the loop makes of the items: those from source on are at start, and behind them is what
-- they were not written to, and then what is left of them.
def movedDown (leave : T → T) (xs : List T) (start source : Nat) : List T :=
  let kept := xs.drop source
  xs.take start ++ (kept ++ ((xs.drop start).take (source - start) ++ kept.map leave).drop kept.length)

section Erased

variable (leave : T → T) (fuel : Nat) (vector : Vector T) (xs : List T) (start source : Nat)

theorem erase_split (order : start < source) : xs = xs.take start ++ ((xs.drop start).take (source - start) ++ xs.drop source) := by
  have whole : start + (source - start) = source := by omega
  have rest := List.take_append_drop (source - start) (xs.drop start)
  rw [List.drop_drop, whole] at rest
  rw [rest, List.take_append_drop]

theorem moved_down_length (order : start < source) (inside : source ≤ xs.length) : (movedDown leave xs start source).length = xs.length := by
  simp only [movedDown, List.length_append, List.length_drop, List.length_take, List.length_map]
  omega

theorem moved_down_take (order : start < source) (inside : source ≤ xs.length) :
    (movedDown leave xs start source).take (xs.length - (source - start)) = xs.take start ++ xs.drop source := by
  have length : xs.length - (source - start) = (xs.take start ++ xs.drop source).length := by
    rw [List.length_append, List.length_take, List.length_drop]
    omega
  rw [movedDown, length, ← List.append_assoc, List.take_left]

-- The vector then holds as many of them as it is left with.
theorem erase_loop_holds (count : Nat) (holds : vector.Holds xs) (order : start < source) (inside : source ≤ xs.length)
    (fewer : count ≤ xs.length) (enough : xs.length < fuel) :
    ∃ blocks, eraseLoop leave vector.last fuel (vector.elements.add start) (vector.elements.add source) vector.blocks = some blocks ∧
      Vector.Holds { vector with blocks := blocks, objectCount := count } ((movedDown leave xs start source).take count) := by
  obtain ⟨tail, here, size⟩ := holds_slots vector xs holds
  have front : ((xs.take start).map some).length = start := by
    rw [List.length_map, List.length_take]
    omega
  have gap : (((xs.drop start).take (source - start)).map some).length = source - start := by
    rw [List.length_map, List.length_take, List.length_drop]
    omega
  have mid : ((xs.drop source).map some).length = xs.length - source := by rw [List.length_map, List.length_drop]
  obtain ⟨blocks, erased, slots⟩ := erase_loop leave vector.elements.block fuel ((xs.take start).map some)
    (((xs.drop start).take (source - start)).map some) ((xs.drop source).map some) tail vector.blocks (by omega)
    (by rw [← List.length_pos_iff]; omega)
    (by rw [here]; nth_rewrite 1 [erase_split xs start source order]; simp)
  refine ⟨blocks, ?_, ?_⟩
  · have address : ∀ index, vector.elements.add index = ⟨vector.elements.block, index⟩ := by
      intro index
      rw [Pointer.add, holds.first, Nat.zero_add]
    have stop : start + (source - start) = source := by omega
    have last : source + (xs.length - source) = xs.length := by omega
    rw [front, gap, mid, stop, last] at erased
    rw [Vector.last, holds.count, address, address, address]
    exact erased
  · have length := moved_down_length leave xs start source order inside
    have taken : ((movedDown leave xs start source).take count).length = count := by
      rw [List.length_take]
      omega
    refine holds_of_slots _ _ (((movedDown leave xs start source).drop count).map some ++ tail) ?_ ?_ holds.first ?_ ?_
    · exact taken.symm
    · have fits := holds.fits
      rw [taken]
      exact Nat.le_trans fewer fits
    · rw [← List.append_assoc, ← List.map_append, List.take_append_drop]
      dsimp only
      have left : Option.map leave ∘ some = some ∘ leave := rfl
      rw [slots, movedDown]
      simp [left]
    · rw [taken, List.length_append, List.length_map, List.length_drop]
      dsimp only
      omega

end Erased

section Single

variable (leave : T → T) (fuel : Nat) (vector : Vector T) (xs : List T) (pos : Nat)

theorem erase_holds (holds : vector.Holds xs) (inside : pos < xs.length) (enough : xs.length < fuel) :
    ∃ after, eraseStep leave fuel pos vector () = some after ∧ after.Holds (xs.take pos ++ xs.drop (pos + 1)) := by
  obtain ⟨blocks, erased, after⟩ := erase_loop_holds leave fuel vector xs pos (pos + 1) (xs.length - 1) holds (Nat.lt_succ_self pos)
    inside (Nat.sub_le _ _) enough
  refine ⟨{ vector with blocks := blocks, objectCount := xs.length - 1 }, ?_, ?_⟩
  · rw [eraseStep, erase, erased, holds.count, Option.map_some, Option.map_some]
  · have taken := moved_down_take leave xs pos (pos + 1) (Nat.lt_succ_self pos) inside
    rw [Nat.add_sub_cancel_left] at taken
    rw [← taken]
    exact after

theorem erases_run (count : Nat) (holds : vector.Holds xs) (inside : pos + count ≤ xs.length) (enough : xs.length < fuel) :
    ∃ after, run (eraseStep leave fuel pos) vector (List.replicate count ()) = some after ∧
      after.Holds (xs.take pos ++ xs.drop (pos + count)) := by
  induction count generalizing vector xs with
  | zero =>
      refine ⟨vector, rfl, ?_⟩
      rw [Nat.add_zero, List.take_append_drop]
      exact holds
  | succ count ih =>
      obtain ⟨next, stepped, one⟩ := erase_holds leave fuel vector xs pos holds (by omega) enough
      have length : (xs.take pos ++ xs.drop (pos + 1)).length = xs.length - 1 := by
        rw [List.length_append, List.length_take, List.length_drop]
        omega
      obtain ⟨after, finished, more⟩ := ih next _ one (by omega) (by omega)
      refine ⟨after, ?_, ?_⟩
      · rw [List.replicate_succ, run, stepped]
        exact finished
      · have position : pos + (count + 1) = pos + 1 + count := by omega
        have front : (xs.take pos).length = pos := by
          rw [List.length_take]
          omega
        have others : (xs.take pos ++ xs.drop (pos + 1)).drop (pos + count) = xs.drop (pos + (count + 1)) := by
          rw [← List.drop_drop, List.drop_left' front, List.drop_drop, position]
        rw [List.take_left' front, others] at more
        exact more

end Single

-- When a range is erased as its elements are one by one: the element at stop is lost, and the
-- last of those behind it, or what is in its place, is kept twice.
def RangeErasable (leave : T → T) (xs : List T) (start stop : Nat) : Prop :=
  ∃ x rest, xs.drop stop = x :: rest ∧ (∀ item ∈ rest, item = x) ∧
    if start + rest.length ≤ stop then xs[start + rest.length]? = some x else leave x = x

section Range

variable (leave : T → T) (fuel : Nat) (vector : Vector T) (xs : List T) (start stop : Nat)

theorem erase_range_holds (holds : vector.Holds xs) (order : start ≤ stop) (inside : stop < xs.length) (enough : xs.length < fuel) :
    ∃ after, (eraseRange leave fuel vector start stop).map Prod.fst = some after ∧
      after.Holds ((movedDown leave xs start (stop + 1)).take (xs.length - (stop - start))) := by
  obtain ⟨blocks, erased, after⟩ := erase_loop_holds leave fuel vector xs start (stop + 1) (xs.length - (stop - start)) holds
    (Nat.lt_succ_of_le order) inside (Nat.sub_le _ _) enough
  refine ⟨{ vector with blocks := blocks, objectCount := xs.length - (stop - start) }, ?_, after⟩
  rw [eraseRange, erased, holds.count, Option.map_some, Option.map_some]

theorem erase_range_more (fuel more : Nat) (result : Vector T × Pointer) (still : fuel ≤ more)
    (done : eraseRange leave fuel vector start stop = some result) : eraseRange leave more vector start stop = some result := by
  rw [eraseRange] at done ⊢
  obtain ⟨blocks, erased, rfl⟩ := Option.map_eq_some_iff.mp done
  rw [erase_loop_more leave _ _ _ fuel more vector.blocks blocks still erased, Option.map_some]

-- The loop starts behind the end that it runs to.
theorem erase_range_end (holds : vector.Holds xs) : eraseRange leave fuel vector start xs.length = none := by
  rw [eraseRange, erase_loop_behind leave _ _ _ fuel vector.blocks (by simp [Vector.last, Pointer.add, holds.count]), Option.map_none]

theorem cons_eq_concat_iff (x z : T) (rest : List T) : rest ++ [z] = x :: rest ↔ z = x ∧ ∀ item ∈ rest, item = x := by
  induction rest generalizing x with
  | nil => simp
  | cons first rest ih =>
      rw [List.cons_append, List.cons.injEq, ih first]
      constructor
      · rintro ⟨rfl, rfl, same⟩
        exact ⟨rfl, List.forall_mem_cons.mpr ⟨rfl, same⟩⟩
      · rintro ⟨rfl, same⟩
        obtain ⟨rfl, others⟩ := List.forall_mem_cons.mp same
        exact ⟨rfl, rfl, others⟩

-- What is kept behind the elements from stop + 1 on.
def keptBehind : List T := ((xs.drop start).take (stop + 1 - start) ++ (xs.drop (stop + 1)).map leave).drop (xs.drop (stop + 1)).length

theorem moved_down_one_more (order : start ≤ stop) (inside : stop < xs.length) :
    (movedDown leave xs start (stop + 1)).take (xs.length - (stop - start)) =
      xs.take start ++ (xs.drop (stop + 1) ++ (keptBehind leave xs start stop).head?.toList) := by
  have length : xs.length - (stop - start) = (xs.take start ++ xs.drop (stop + 1)).length + 1 := by
    rw [List.length_append, List.length_take, List.length_drop]
    omega
  rw [movedDown, length, ← List.append_assoc, List.take_length_add_append, List.take_one, List.append_assoc]
  rfl

theorem kept_behind_uniform (x : T) (rest : List T) (order : start ≤ stop) (inside : stop < xs.length) (behind : xs.drop (stop + 1) = rest)
    (uniform : ∀ item ∈ rest, item = x) :
    (keptBehind leave xs start stop).head? = some x ↔ if start + rest.length ≤ stop then xs[start + rest.length]? = some x else leave x = x := by
  have gap : ((xs.drop start).take (stop + 1 - start)).length = stop + 1 - start := by
    rw [List.length_take, List.length_drop]
    omega
  have replicated : rest = List.replicate rest.length x := List.eq_replicate_of_mem uniform
  have length : rest.length = xs.length - (stop + 1) := by rw [← behind, List.length_drop]
  rw [keptBehind, behind, List.head?_drop, List.getElem?_append, gap]
  by_cases near : start + rest.length ≤ stop
  · rw [if_pos near, if_pos (by omega), List.getElem?_take_of_lt (by omega), List.getElem?_drop]
  · rw [if_neg near, if_neg (by omega), List.getElem?_map, replicated, List.getElem?_replicate, List.length_replicate,
      if_pos (by omega), Option.map_some, Option.some.injEq]

theorem range_kept_iff (order : start ≤ stop) (inside : stop < xs.length) :
    (movedDown leave xs start (stop + 1)).take (xs.length - (stop - start)) = xs.take start ++ xs.drop stop ↔
      RangeErasable leave xs start stop := by
  obtain ⟨x, rest, found⟩ : ∃ x rest, xs.drop stop = x :: rest := ⟨xs[stop], xs.drop (stop + 1), List.drop_eq_getElem_cons inside⟩
  have behind : xs.drop (stop + 1) = rest := by rw [← List.tail_drop, found, List.tail_cons]
  rw [moved_down_one_more leave xs start stop order inside, behind, found, List.append_cancel_left_eq]
  constructor
  · intro same
    cases head : (keptBehind leave xs start stop).head? with
    | none =>
        rw [head] at same
        exact absurd (congrArg List.length same) (by simp)
    | some z =>
        rw [head] at same
        obtain ⟨rfl, uniform⟩ := (cons_eq_concat_iff x z rest).mp same
        exact ⟨z, rest, found, uniform, (kept_behind_uniform leave xs start stop z rest order inside behind uniform).mp head⟩
  · rintro ⟨first, others, same, uniform, last⟩
    obtain ⟨rfl, rfl⟩ := List.cons.inj (found.symm.trans same)
    rw [(kept_behind_uniform leave xs start stop x rest order inside behind uniform).mpr last]
    exact (cons_eq_concat_iff x x rest).mpr ⟨rfl, uniform⟩

theorem end_not_erased (holds : vector.Holds xs) : ¬ ErasesRange leave vector xs start xs.length := by
  rintro ⟨fuel, after, one, done, _⟩
  rw [erase_range_end leave fuel vector xs start holds] at done
  cases done

theorem erased_range_erasable (holds : vector.Holds xs) (order : start ≤ stop) (inside : stop < xs.length)
    (erases : ErasesRange leave vector xs start stop) : RangeErasable leave xs start stop := by
  obtain ⟨fuel, after, one, done, expected, _⟩ := erases
  obtain ⟨other, finished, result⟩ := erase_range_holds leave (fuel + (xs.length + 1)) vector xs start stop holds order inside (by omega)
  obtain ⟨returned, erased, rfl⟩ := Option.map_eq_some_iff.mp done
  rw [erase_range_more leave vector start stop fuel _ returned (Nat.le_add_right _ _) erased] at finished
  obtain rfl := Option.some.inj finished
  exact (range_kept_iff leave xs start stop order inside).mp (holds_unique returned.1 _ _ result expected)

theorem erases_range_iff (holds : vector.Holds xs) (order : start ≤ stop) (inside : stop ≤ xs.length) :
    ErasesRange leave vector xs start stop ↔ RangeErasable leave xs start stop := by
  rcases Nat.lt_or_eq_of_le inside with before | rfl
  · refine ⟨erased_range_erasable leave vector xs start stop holds order before, fun erasable => ?_⟩
    obtain ⟨after, done, result⟩ := erase_range_holds leave (xs.length + 1) vector xs start stop holds order before (Nat.lt_succ_self _)
    obtain ⟨one, ran, single⟩ := erases_run leave (xs.length + 1) vector xs start (stop - start) holds (by omega) (Nat.lt_succ_self _)
    rw [(range_kept_iff leave xs start stop order before).mpr erasable] at result
    rw [Nat.add_sub_cancel' order] at single
    exact ⟨xs.length + 1, after, one, done, result, ran, single⟩
  · refine ⟨fun erases => absurd erases (end_not_erased leave vector xs start holds), ?_⟩
    rintro ⟨x, rest, found, _⟩
    rw [List.drop_length] at found
    cases found

end Range

theorem equal_elements_erased : ErasesRange id (Vector.stored [1, 2, 2, 2] 0) [1, 2, 2, 2] 0 1 :=
  (erases_range_iff id (Vector.stored [1, 2, 2, 2] 0) [1, 2, 2, 2] 0 1 (stored_holds _ 0) (by decide) (by decide)).mpr
    ⟨2, [2, 2], rfl, by decide, by decide⟩

-- 2 is erased and 3 is lost; the empty range at the end is never done.
theorem erased_too_much : ¬ ErasesRange id (Vector.stored [1, 2, 3, 4] 0) [1, 2, 3, 4] 1 2 ∧
    ¬ ErasesRange id (Vector.stored [1, 2, 3, 4] 0) [1, 2, 3, 4] 4 4 := by
  refine ⟨fun erases => ?_, end_not_erased id _ [1, 2, 3, 4] 4 (stored_holds _ 0)⟩
  obtain ⟨x, rest, found, uniform, _⟩ :=
    erased_range_erasable id _ [1, 2, 3, 4] 1 2 (stored_holds _ 0) (by decide) (by decide) erases
  obtain ⟨rfl, rfl⟩ := List.cons.inj found
  exact absurd (uniform 4 (by simp)) (by decide)

example : ((eraseRange id 4 (Vector.stored [1, 2, 3, 4] 0) 1 2).bind (fun result => result.1.blocks.slots 0)) =
    some ([1, 4, 3, 4].map some) := by decide

end Kraftwerk.StandaloneStd
