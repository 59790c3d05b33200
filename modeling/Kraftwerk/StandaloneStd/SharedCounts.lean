import Kraftwerk.StandaloneStd.SharedPtr

set_option autoImplicit false

-- When the counters of shared_ptr and weak_ptr tell the numbers of their handles.
namespace Kraftwerk.StandaloneStd

open Holders Runs

variable {Ptr : Type}

section Counting

variable (family : Family Nat (Handle Ptr)) (handle rhs c : Nat) (value : Handle Ptr)

@[simp] theorem to_null : Handle.to c (Handle.null : Handle Ptr) = 0 := rfl

theorem to_one (points : value.ctrObject = some c) : value.to c = 1 := if_pos points

theorem to_zero (elsewhere : value.ctrObject ≠ some c) : value.to c = 0 := if_neg elsewhere

theorem to_none (empty : value.ctrObject = none) : value.to c = 0 := to_zero c value (by rw [empty]; exact Option.some_ne_none c |>.symm)

theorem to_le_holders (alive : handle ∈ family.live) : (family.value handle).to c ≤ holders family c :=
  Family.le_total (Handle.to c) family handle alive

theorem holders_pos (alive : handle ∈ family.live) (points : (family.value handle).ctrObject = some c) : 0 < holders family c := by
  have counted := to_le_holders family handle c alive
  rw [to_one c _ points] at counted
  exact counted

theorem holders_add (dead : handle ∉ family.live) : holders (family.add handle value) c = holders family c + value.to c :=
  Family.total_add (Handle.to c) family handle value dead

theorem holders_set (alive : handle ∈ family.live) :
    holders (family.set handle value) c + (family.value handle).to c = holders family c + value.to c :=
  Family.total_set (Handle.to c) family handle value alive

theorem holders_drop (alive : handle ∈ family.live) : holders (family.drop handle) c + (family.value handle).to c = holders family c :=
  Family.total_drop (Handle.to c) family handle alive

theorem holders_move (alive : handle ∈ family.live) (rhsAlive : rhs ∈ family.live) :
    holders ((family.set handle (family.value rhs)).set rhs .null) c + (family.value handle).to c = holders family c :=
  Family.total_move (Handle.to c) family handle rhs .null alive rhsAlive rfl

theorem holders_move_add (dead : handle ∉ family.live) (rhsAlive : rhs ∈ family.live) :
    holders ((family.add handle (family.value rhs)).set rhs .null) c = holders family c :=
  Family.total_move_add (Handle.to c) family handle rhs .null dead rhsAlive rfl

theorem holders_exchange (alive : handle ∈ family.live) (rhsAlive : rhs ∈ family.live) :
    holders ((family.set handle (family.value rhs)).set rhs (family.value handle)) c = holders family c :=
  Family.total_exchange (Handle.to c) family handle rhs alive rhsAlive

end Counting

section Counters

-- A counter as it is after the change, if the handle is to it.
def Handle.apply (value : Handle Ptr) (c : Nat) (change : Counter → Counter) (counter : Counter) : Counter :=
  if value.ctrObject = some c then change counter else counter

variable {counter : Counter} {isMade : Bool} {strong weak : Nat} (value : Handle Ptr) (c : Nat)

theorem count_sub_one (count : BitVec 32) (less : Nat) (same : count.toNat = less + 1) : (count - 1).toNat = less := by
  have narrow := count.isLt
  have one : (1 : BitVec 32).toNat = 1 := rfl
  rw [BitVec.toNat_sub]
  omega

theorem touch_alive (tells : counter.Tells isMade strong weak) (handled : 0 < strong + weak) : counter.touch = counter := by
  rw [Counter.touch, if_pos]
  rw [tells.deleted, if_neg (by omega)]

theorem tells_increment_strong (tells : counter.Tells isMade strong weak)
    (room : value.ctrObject = some c → 0 < strong ∧ strong + 1 < 2 ^ 32) :
    (value.apply c .incrementStrong counter).Tells isMade (strong + value.to c) weak := by
  rw [Handle.apply, Handle.to]
  split
  · rename_i points
    obtain ⟨some_strong, fits⟩ := room points
    rw [Counter.incrementStrong, touch_alive tells (by omega)]
    refine ⟨?_, tells.weakCount, ?_, ?_, tells.neverLate, fun _ => tells.handled (by omega)⟩
    · have same := tells.strongCount
      dsimp only
      rw [BitVec.toNat_add, same]
      exact Nat.mod_eq_of_lt fits
    · rw [if_neg (by omega)]
      exact tells.destroyed.trans (if_neg (by omega))
    · rw [if_neg (by omega)]
      exact tells.deleted.trans (if_neg (by omega))
  · exact tells

theorem tells_decrement_strong (tells : counter.Tells isMade (strong + value.to c) weak) :
    (value.apply c .decrementStrong counter).Tells isMade strong weak := by
  rw [Handle.apply]
  rw [Handle.to] at tells
  split
  · rename_i points
    rw [if_pos points] at tells
    rw [Counter.decrementStrong, touch_alive tells (by omega)]
    have made := tells.handled (by omega)
    have less := count_sub_one counter.strongCount strong tells.strongCount
    have zero : counter.strongCount - 1 = 0 ↔ strong = 0 := by
      rw [← BitVec.toNat_inj, less]
      rfl
    have zeroWeak : counter.weakCount = 0 ↔ weak = 0 := by
      rw [← BitVec.toNat_inj, tells.weakCount]
      rfl
    have destroyed := tells.destroyed.trans (if_neg (by omega))
    have deleted := tells.deleted.trans (if_neg (by omega))
    by_cases last : strong = 0
    · by_cases alone : weak = 0
      · rw [if_pos (zero.mpr last), if_pos (zeroWeak.mpr alone)]
        refine ⟨less, tells.weakCount, ?_, ?_, tells.neverLate, fun _ => made⟩
        · rw [if_pos ⟨made, last⟩]
          exact congrArg (· + 1) destroyed
        · rw [if_pos ⟨made, last, alone⟩]
          exact congrArg (· + 1) deleted
      · rw [if_pos (zero.mpr last), if_neg (fun none => alone (zeroWeak.mp none))]
        refine ⟨less, tells.weakCount, ?_, ?_, tells.neverLate, fun _ => made⟩
        · rw [if_pos ⟨made, last⟩]
          exact congrArg (· + 1) destroyed
        · rw [if_neg (by omega)]
          exact deleted
    · rw [if_neg (fun none => last (zero.mp none))]
      refine ⟨less, tells.weakCount, ?_, ?_, tells.neverLate, fun _ => made⟩
      · rw [if_neg (by omega)]
        exact destroyed
      · rw [if_neg (by omega)]
        exact deleted
  · rename_i elsewhere
    rw [if_neg elsewhere] at tells
    exact tells

theorem tells_increment_weak (tells : counter.Tells isMade strong weak)
    (room : value.ctrObject = some c → 0 < strong + weak ∧ weak + 1 < 2 ^ 32) :
    (value.apply c .incrementWeak counter).Tells isMade strong (weak + value.to c) := by
  rw [Handle.apply, Handle.to]
  split
  · rename_i points
    obtain ⟨handled, fits⟩ := room points
    rw [Counter.incrementWeak, touch_alive tells handled]
    refine ⟨tells.strongCount, ?_, tells.destroyed, ?_, tells.neverLate, fun _ => tells.handled handled⟩
    · have same := tells.weakCount
      dsimp only
      rw [BitVec.toNat_add, same]
      exact Nat.mod_eq_of_lt fits
    · rw [if_neg (by omega)]
      exact tells.deleted.trans (if_neg (by omega))
  · exact tells

-- The last handle of all does not delete the counter if it is a weak one.
theorem tells_decrement_weak (tells : counter.Tells isMade strong (weak + value.to c))
    (left : value.ctrObject = some c → 0 < strong + weak) : (value.apply c .decrementWeak counter).Tells isMade strong weak := by
  rw [Handle.apply]
  rw [Handle.to] at tells
  split
  · rename_i points
    have handled := left points
    rw [if_pos points] at tells
    rw [Counter.decrementWeak, touch_alive tells (by omega)]
    refine ⟨tells.strongCount, count_sub_one counter.weakCount weak tells.weakCount, tells.destroyed, ?_, tells.neverLate,
      fun _ => tells.handled (by omega)⟩
    rw [if_neg (by omega)]
    exact tells.deleted.trans (if_neg (by omega))
  · rename_i elsewhere
    rw [if_neg elsewhere] at tells
    exact tells

-- What the counts are after an increment, whether there was room or not.
theorem increment_strong_count (tells : counter.Tells isMade strong weak) :
    (value.apply c .incrementStrong counter).strongCount.toNat = (strong + value.to c) % 2 ^ 32 := by
  have narrow := counter.strongCount.isLt
  rw [Handle.apply, Handle.to, ← tells.strongCount]
  split
  · rw [Counter.incrementStrong, Counter.touch]
    split <;> exact BitVec.toNat_add ..
  · exact (Nat.mod_eq_of_lt narrow).symm

theorem increment_weak_count (tells : counter.Tells isMade strong weak) :
    (value.apply c .incrementWeak counter).weakCount.toNat = (weak + value.to c) % 2 ^ 32 := by
  have narrow := counter.weakCount.isLt
  rw [Handle.apply, Handle.to, ← tells.weakCount]
  split
  · rw [Counter.incrementWeak, Counter.touch]
    split <;> exact BitVec.toNat_add ..
  · exact (Nat.mod_eq_of_lt narrow).symm

theorem decrement_weak_deleted (tells : counter.Tells isMade strong weak) (handled : 0 < strong + weak) :
    (value.apply c .decrementWeak counter).deleted = 0 := by
  have deleted := tells.deleted.trans (if_neg (by omega))
  rw [Handle.apply]
  split
  · rw [Counter.decrementWeak, touch_alive tells handled]
    exact deleted
  · exact deleted

end Counters

namespace SharedPtrs

section Effects

variable (state : SharedPtrs Ptr) (change : Counter → Counter) (value : Handle Ptr) (c : Nat)

theorem on_counter_at : (state.onCounter value.ctrObject change).counters c = value.apply c change (state.counters c) := by
  rw [Handle.apply]
  cases value.ctrObject with
  | none => rfl
  | some d =>
      change Function.update state.counters d (change (state.counters d)) c = _
      rcases eq_or_ne c d with rfl | apart
      · rw [Function.update_self, if_pos rfl]
      · rw [Function.update_of_ne apart, if_neg (fun same => apart (Option.some.inj same).symm)]

@[simp] theorem on_counter_shared (ctrObject : Option Nat) : (state.onCounter ctrObject change).shared = state.shared := by
  cases ctrObject <;> rfl

@[simp] theorem on_counter_weak (ctrObject : Option Nat) : (state.onCounter ctrObject change).weak = state.weak := by
  cases ctrObject <;> rfl

@[simp] theorem on_counter_created (ctrObject : Option Nat) : (state.onCounter ctrObject change).created = state.created := by
  cases ctrObject <;> rfl

end Effects

def Room (family : Family Nat (Handle Ptr)) (ctrObject : Option Nat) : Prop := ∀ c ∈ ctrObject, holders family c + 1 < 2 ^ 32

section Shared

variable {state : SharedPtrs Ptr} (handle rhs : Nat)

theorem counted_of_same (next : SharedPtrs Ptr) (counted : state.Counted) (counters : next.counters = state.counters)
    (created : next.created = state.created)
    (shared : ∀ c, holders next.shared c = holders state.shared c)
    (weak : ∀ c, holders next.weak c = holders state.weak c) : next.Counted := by
  intro c
  rw [counters, created, shared, weak]
  exact counted c

theorem counted_construct (ptr : Option Ptr) (counted : state.Counted) (dead : handle ∉ state.shared.live) :
    (state.construct handle ptr).Counted := by
  intro c
  have added := holders_add state.shared handle c ⟨some state.created, ptr⟩ dead
  change (Function.update state.counters state.created .made c).Tells (c < state.created + 1)
    (holders (state.shared.add handle ⟨some state.created, ptr⟩) c) (holders state.weak c)
  rw [added]
  have before := counted c
  rcases eq_or_ne c state.created with rfl | apart
  · have none : ¬ 0 < holders state.shared state.created + holders state.weak state.created := by
      intro handled
      have made := before.handled handled
      simp at made
    have noShared : holders state.shared state.created = 0 := by omega
    have noWeak : holders state.weak state.created = 0 := by omega
    rw [Function.update_self, to_one _ _ rfl, noShared, noWeak]
    exact ⟨rfl, rfl, by simp [Counter.made], by simp [Counter.made], rfl, fun _ => by simp⟩
  · have sameAge : decide (c < state.created + 1) = decide (c < state.created) := by
      rw [decide_eq_decide]
      omega
    rw [Function.update_of_ne apart, to_zero _ _ (fun same => apart (Option.some.inj same).symm), sameAge]
    exact before

-- The handle goes where value points to, from nowhere.
theorem counted_of_share (next : SharedPtrs Ptr) (value : Handle Ptr) (counted : state.Counted)
    (source : ∀ c ∈ value.ctrObject, 0 < holders state.shared c)
    (counters : ∀ c, next.counters c = value.apply c .incrementStrong (state.counters c)) (created : next.created = state.created)
    (shared : ∀ c, holders next.shared c = holders state.shared c + value.to c)
    (weak : ∀ c, holders next.weak c = holders state.weak c) : next.Counted ↔ Room state.shared value.ctrObject := by
  constructor
  · intro after c points
    have told := (after c).strongCount
    have count := increment_strong_count value c (counted c)
    rw [counters, shared, count, to_one c value points] at told
    have positive := Nat.mod_lt (holders state.shared c + 1) (by decide : 0 < 2 ^ 32)
    omega
  · intro room c
    rw [counters, created, shared, weak]
    exact tells_increment_strong value c (counted c) (fun points => ⟨source c points, room c points⟩)

-- The handle that was value points nowhere now.
theorem counted_of_release (next : SharedPtrs Ptr) (value : Handle Ptr) (counted : state.Counted)
    (counters : ∀ c, next.counters c = value.apply c .decrementStrong (state.counters c)) (created : next.created = state.created)
    (shared : ∀ c, holders next.shared c + value.to c = holders state.shared c)
    (weak : ∀ c, holders next.weak c = holders state.weak c) : next.Counted := by
  intro c
  have before := counted c
  rw [← shared] at before
  rw [counters, created, weak]
  exact tells_decrement_strong value c before

theorem counted_share (value : Handle Ptr) (counted : state.Counted) (dead : handle ∉ state.shared.live)
    (source : ∀ c ∈ value.ctrObject, 0 < holders state.shared c) :
    ((state.addShared handle value).incrementShared handle).Counted ↔ Room state.shared value.ctrObject := by
  have effect : (state.addShared handle value).incrementShared handle =
      (state.addShared handle value).onCounter value.ctrObject .incrementStrong := by
    rw [incrementShared, addShared, Family.add_value]
  rw [effect]
  refine counted_of_share _ value counted source (fun c => on_counter_at ..) (on_counter_created ..) (fun c => ?_) (fun c => ?_)
  · rw [on_counter_shared]
    exact holders_add state.shared handle c value dead
  · rw [on_counter_weak]
    rfl

theorem counted_destroy (counted : state.Counted) (alive : handle ∈ state.shared.live) : (state.destroy handle).Counted := by
  refine counted_of_release _ (state.shared.value handle) counted (fun c => on_counter_at ..) (on_counter_created ..) (fun c => ?_)
    (fun c => ?_)
  · have gone := holders_drop state.shared handle c alive
    simpa [destroy, decrementShared] using gone
  · simp [destroy, decrementShared]

theorem reset_shared (state : SharedPtrs Ptr) : (state.reset handle).shared = state.shared.set handle .null := by
  rw [reset, setShared, decrementShared, on_counter_shared]

theorem reset_weak (state : SharedPtrs Ptr) : (state.reset handle).weak = state.weak := by
  rw [reset, setShared, decrementShared, on_counter_weak]

theorem counted_reset (counted : state.Counted) (alive : handle ∈ state.shared.live) : (state.reset handle).Counted := by
  refine counted_of_release _ (state.shared.value handle) counted (fun c => on_counter_at ..) (on_counter_created ..) (fun c => ?_)
    (fun c => ?_)
  · rw [reset_shared]
    exact holders_set state.shared handle c .null alive
  · rw [reset_weak]

theorem counted_move_construct (counted : state.Counted) (dead : handle ∉ state.shared.live) (rhsAlive : rhs ∈ state.shared.live) :
    (state.moveConstruct handle rhs).Counted :=
  counted_of_same _ counted rfl rfl (fun c => holders_move_add state.shared handle rhs c dead rhsAlive) (fun _ => rfl)

theorem counted_move_assign (counted : state.Counted) (alive : handle ∈ state.shared.live) (rhsAlive : rhs ∈ state.shared.live) :
    (state.moveAssign handle rhs).Counted := by
  rw [moveAssign]
  split
  · exact counted
  · refine counted_of_release _ (state.shared.value handle) counted (fun c => on_counter_at ..) (on_counter_created ..) (fun c => ?_)
      (fun c => ?_)
    · have moved := holders_move state.shared handle rhs c alive rhsAlive
      simpa [decrementShared, setShared] using moved
    · simp [decrementShared, setShared]

theorem counted_copy_assign (counted : state.Counted) (alive : handle ∈ state.shared.live) (rhsAlive : rhs ∈ state.shared.live) :
    (state.copyAssign handle rhs).Counted ↔
      ((state.shared.value handle).ctrObject ≠ (state.shared.value rhs).ctrObject →
        Room state.shared (state.shared.value rhs).ctrObject) := by
  rw [copyAssign]
  split
  · rename_i same
    rw [same]
    exact iff_of_true counted (fun differ => absurd rfl differ)
  · rename_i apart
    obtain ⟨value, valueEq⟩ : ∃ value, value = state.shared.value rhs := ⟨_, rfl⟩
    rw [← valueEq]
    -- Between the decrement and the increment the handle counts as one that was reset.
    have effect : ((state.decrementShared handle).setShared handle value).incrementShared handle =
        ((state.decrementShared handle).setShared handle value).onCounter value.ctrObject .incrementStrong := by
      rw [incrementShared, setShared, Family.set_value]
    have emptied : ∀ c, holders (state.reset handle).shared c + (state.shared.value handle).to c = holders state.shared c := by
      intro c
      rw [reset_shared]
      exact holders_set state.shared handle c .null alive
    have rhsStill : rhs ∈ (state.reset handle).shared.live ∧ (state.reset handle).shared.value rhs = value := by
      rw [reset_shared, valueEq]
      exact ⟨rhsAlive, Family.set_value_other state.shared handle rhs .null (Ne.symm apart)⟩
    rw [effect, counted_of_share (((state.decrementShared handle).setShared handle value).onCounter value.ctrObject .incrementStrong) value
      (counted_reset handle counted alive) (fun c points => holders_pos _ rhs c rhsStill.1 (by rw [rhsStill.2]; exact points))
      (fun c => on_counter_at ..) (on_counter_created ..) (fun c => ?_) (fun c => ?_)]
    · constructor
      · intro room differ c points
        have here := emptied c
        rw [to_zero c _ (fun same => differ (same.trans points.symm))] at here
        rw [← here]
        exact room c points
      · intro room c points
        have here := emptied c
        have narrow := (state.counters c).strongCount.isLt
        rw [(counted c).strongCount] at narrow
        by_cases same : (state.shared.value handle).ctrObject = some c
        · rw [to_one c _ same] at here
          omega
        · have fits := room (fun both => same (both.trans points)) c points
          omega
    · have taken := holders_set state.shared handle c value alive
      have gone := emptied c
      rw [on_counter_shared, setShared, decrementShared, on_counter_shared]
      dsimp only
      omega
    · rw [reset_weak, on_counter_weak, setShared, decrementShared, on_counter_weak]

-- What the handle takes from rhs after it was emptied itself: nothing if it is rhs.
theorem swap_taken (state : SharedPtrs Ptr) :
    ((state.shared.set handle .null).value rhs).ctrObject = none ↔ handle = rhs ∨ (state.shared.value rhs).ctrObject = none := by
  rcases eq_or_ne rhs handle with rfl | apart
  · rw [Family.set_value]
    exact iff_of_true rfl (.inl rfl)
  · rw [Family.set_value_other _ _ _ _ apart]
    exact ⟨.inr, fun either => either.resolve_left (Ne.symm apart)⟩

-- The counter of rhs loses the handle that has just taken it.
theorem counted_swap (counted : state.Counted) (alive : handle ∈ state.shared.live) (rhsAlive : rhs ∈ state.shared.live) :
    (state.swap handle rhs).Counted ↔ handle = rhs ∨ (state.shared.value rhs).ctrObject = none := by
  obtain ⟨taken, takenEq⟩ : ∃ taken, taken = (state.shared.set handle .null).value rhs := ⟨_, rfl⟩
  obtain ⟨filled, filledEq⟩ : ∃ filled, filled = (state.shared.set handle .null).set handle taken := ⟨_, rfl⟩
  have still : filled.value rhs = taken := by rw [filledEq, takenEq, Family.set_taken]
  have counters : ∀ c, (state.swap handle rhs).counters c = taken.apply c .decrementStrong (state.counters c) := by
    intro c
    rw [← still, filledEq, takenEq]
    exact on_counter_at ((state.setShared handle .null).setShared handle _) .decrementStrong _ c
  have family : (state.swap handle rhs).shared = filled.set rhs (state.shared.value handle) := by
    rw [filledEq, takenEq]
    exact congrArg (fun family => family.set rhs (state.shared.value handle)) (on_counter_shared ..)
  have same : ∀ c, holders (state.swap handle rhs).shared c = holders state.shared c := by
    intro c
    have emptied := holders_set state.shared handle c .null alive
    have taking := holders_set (state.shared.set handle .null) handle c taken alive
    have given := holders_set filled rhs c (state.shared.value handle) (by rw [filledEq]; exact rhsAlive)
    rw [Family.set_value, to_null, ← filledEq] at taking
    rw [still] at given
    rw [to_null] at emptied
    rw [family]
    omega
  have weak : (state.swap handle rhs).weak = state.weak := on_counter_weak ..
  have created : (state.swap handle rhs).created = state.created := on_counter_created ..
  rw [← swap_taken handle rhs state, ← takenEq]
  constructor
  · intro after
    cases points : taken.ctrObject with
    | none => rfl
    | some c =>
        have apart : rhs ≠ handle := by
          rintro rfl
          rw [takenEq, Family.set_value] at points
          cases points
        rw [takenEq, Family.set_value_other _ _ _ _ apart] at points
        have positive := holders_pos state.shared rhs c rhsAlive points
        obtain ⟨less, lessEq⟩ : ∃ less, holders state.shared c = less + 1 := ⟨holders state.shared c - 1, by omega⟩
        have before := counted c
        have told := (after c).strongCount
        rw [takenEq, Family.set_value_other _ _ _ _ apart] at counters
        rw [lessEq, ← to_one c _ points] at before
        rw [counters, (tells_decrement_strong _ c before).strongCount, same, lessEq] at told
        omega
  · intro none c
    have before := counted c
    rw [counters, Handle.apply, if_neg (by rw [none]; exact (Option.some_ne_none c).symm), created, same, weak]
    exact before

end Shared

section Weak

variable {state : SharedPtrs Ptr} (handle rhs : Nat)

theorem counted_of_share_weak (next : SharedPtrs Ptr) (value : Handle Ptr) (counted : state.Counted)
    (source : ∀ c ∈ value.ctrObject, 0 < holders state.shared c + holders state.weak c)
    (counters : ∀ c, next.counters c = value.apply c .incrementWeak (state.counters c)) (created : next.created = state.created)
    (shared : ∀ c, holders next.shared c = holders state.shared c)
    (weak : ∀ c, holders next.weak c = holders state.weak c + value.to c) : next.Counted ↔ Room state.weak value.ctrObject := by
  constructor
  · intro after c points
    have told := (after c).weakCount
    have count := increment_weak_count value c (counted c)
    rw [counters, weak, count, to_one c value points] at told
    have positive := Nat.mod_lt (holders state.weak c + 1) (by decide : 0 < 2 ^ 32)
    omega
  · intro room c
    rw [counters, created, shared, weak]
    exact tells_increment_weak value c (counted c) (fun points => ⟨source c points, room c points⟩)

theorem counted_share_weak (value : Handle Ptr) (counted : state.Counted) (dead : handle ∉ state.weak.live)
    (source : ∀ c ∈ value.ctrObject, 0 < holders state.shared c + holders state.weak c) :
    (state.copyConstructWeak handle value).Counted ↔ Room state.weak value.ctrObject := by
  have effect : state.copyConstructWeak handle value = (state.addWeak handle value).onCounter value.ctrObject .incrementWeak := by
    rw [copyConstructWeak, incrementWeak, addWeak, Family.add_value]
  rw [effect]
  refine counted_of_share_weak _ value counted source (fun c => on_counter_at ..) (on_counter_created ..) (fun c => ?_) (fun c => ?_)
  · rw [on_counter_shared]
    rfl
  · rw [on_counter_weak]
    exact holders_add state.weak handle c value dead

theorem counted_move_construct_weak (counted : state.Counted) (dead : handle ∉ state.weak.live) (rhsAlive : rhs ∈ state.weak.live) :
    (state.moveConstructWeak handle rhs).Counted :=
  counted_of_same _ counted rfl rfl (fun _ => rfl) (fun c => holders_move_add state.weak handle rhs c dead rhsAlive)

theorem counted_swap_weak (counted : state.Counted) (alive : handle ∈ state.weak.live) (rhsAlive : rhs ∈ state.weak.live) :
    (state.swapWeak handle rhs).Counted :=
  counted_of_same _ counted rfl rfl (fun _ => rfl) (fun c => holders_exchange state.weak handle rhs c alive rhsAlive)

-- Nobody deletes the counter if its last handle is a weak one.
theorem counted_destroy_weak (counted : state.Counted) (alive : handle ∈ state.weak.live) :
    (state.destroyWeak handle).Counted ↔
      ∀ c ∈ (state.weak.value handle).ctrObject, 1 < holders state.shared c + holders state.weak c := by
  obtain ⟨value, valueEq⟩ : ∃ value, value = state.weak.value handle := ⟨_, rfl⟩
  have counters : ∀ c, (state.destroyWeak handle).counters c = value.apply c .decrementWeak (state.counters c) := by
    intro c
    rw [valueEq]
    exact on_counter_at ..
  have shared : (state.destroyWeak handle).shared = state.shared := on_counter_shared ..
  have weak : (state.destroyWeak handle).weak = state.weak.drop handle := by
    rw [destroyWeak, decrementWeak, on_counter_weak]
  have created : (state.destroyWeak handle).created = state.created := on_counter_created ..
  have gone := fun c => holders_drop state.weak handle c alive
  rw [← valueEq] at gone ⊢
  constructor
  · intro after c points
    by_contra few
    have here := gone c
    have last := after c
    rw [to_one c value points] at here
    rw [created, counters, shared, weak] at last
    have handled : 0 < holders state.shared c + holders state.weak c := by omega
    have deleted := last.deleted
    rw [decrement_weak_deleted value c (counted c) handled, if_pos ⟨(counted c).handled handled, by omega, by omega⟩] at deleted
    cases deleted
  · intro left c
    have before := counted c
    rw [← gone c] at before
    rw [counters, created, shared, weak]
    refine tells_decrement_weak value c before (fun points => ?_)
    have others := left c points
    have here := gone c
    rw [to_one c value points] at here
    omega

-- The counter of the handle assigned to keeps counting it.
theorem counted_copy_assign_weak (value : Handle Ptr) (counted : state.Counted) (alive : handle ∈ state.weak.live)
    (source : ∀ c ∈ value.ctrObject, 0 < holders state.shared c + holders state.weak c) :
    (state.copyAssignWeak handle value).Counted ↔ (state.weak.value handle).ctrObject = none ∧ Room state.weak value.ctrObject := by
  have effect : state.copyAssignWeak handle value = (state.setWeak handle value).onCounter value.ctrObject .incrementWeak := by
    rw [copyAssignWeak, incrementWeak, setWeak, Family.set_value]
  have shared : (state.copyAssignWeak handle value).shared = state.shared := on_counter_shared ..
  have weak : (state.copyAssignWeak handle value).weak = state.weak.set handle value := on_counter_weak ..
  have taken := fun c => holders_set state.weak handle c value alive
  have counters : ∀ c, (state.copyAssignWeak handle value).counters c = value.apply c .incrementWeak (state.counters c) := by
    intro c
    rw [effect]
    exact on_counter_at ..
  cases held : (state.weak.value handle).ctrObject with
  | none =>
      have created : (state.copyAssignWeak handle value).created = state.created := on_counter_created ..
      rw [counted_of_share_weak (state.copyAssignWeak handle value) value counted source counters created (fun c => by rw [shared])
        (fun c => by rw [weak, ← taken c, to_none c _ held, Nat.add_zero])]
      exact ⟨fun room => ⟨rfl, room⟩, fun both => both.2⟩
  | some c =>
      refine iff_of_false (fun after => ?_) (fun both => Option.some_ne_none c both.1)
      have told := (after c).weakCount
      have here := taken c
      have narrow := (state.counters c).weakCount.isLt
      have positive := holders_pos state.weak handle c alive held
      have few : value.to c ≤ 1 := by
        rw [Handle.to]
        split <;> omega
      rw [(counted c).weakCount] at narrow
      rw [to_one c _ held] at here
      rw [counters, increment_weak_count value c (counted c), weak] at told
      omega

-- A weak handle is lost that its counter still counts.
theorem counted_lost_weak (next : SharedPtrs Ptr) (value : Handle Ptr) (counted : state.Counted)
    (counters : next.counters = state.counters) (created : next.created = state.created)
    (shared : ∀ c, holders next.shared c = holders state.shared c)
    (weak : ∀ c, holders next.weak c + value.to c = holders state.weak c) : next.Counted ↔ value.ctrObject = none := by
  cases held : value.ctrObject with
  | none =>
      refine iff_of_true (counted_of_same next counted counters created shared (fun c => ?_)) rfl
      rw [← weak c, to_none c value held, Nat.add_zero]
  | some c =>
      refine iff_of_false (fun after => ?_) (Option.some_ne_none c)
      have told := (after c).weakCount
      have here := weak c
      rw [counters, (counted c).weakCount] at told
      rw [to_one c value held] at here
      omega

theorem counted_move_assign_weak (counted : state.Counted) (alive : handle ∈ state.weak.live) (rhsAlive : rhs ∈ state.weak.live) :
    (state.moveAssignWeak handle rhs).Counted ↔ (state.weak.value handle).ctrObject = none :=
  counted_lost_weak _ (state.weak.value handle) counted rfl rfl (fun _ => rfl)
    (fun c => holders_move state.weak handle rhs c alive rhsAlive)

-- rhs is emptied here without a decrement, and the handle takes its counter without an increment.
theorem counted_move_assign_weak_from_shared (counted : state.Counted) (alive : handle ∈ state.weak.live)
    (rhsAlive : rhs ∈ state.shared.live) :
    (state.moveAssignWeakFromShared handle rhs).Counted ↔
      (state.weak.value handle).ctrObject = none ∧ (state.shared.value rhs).ctrObject = none := by
  have taken := fun c => holders_set state.weak handle c (state.shared.value rhs) alive
  have emptied := fun c => holders_set state.shared rhs c .null rhsAlive
  cases points : (state.shared.value rhs).ctrObject with
  | none =>
      have nothing := fun c => to_none c (state.shared.value rhs) points
      rw [counted_lost_weak (state.moveAssignWeakFromShared handle rhs) (state.weak.value handle) counted rfl rfl
        (fun c => by have here := emptied c; rw [nothing, to_null] at here; exact here)
        (fun c => by have here := taken c; rw [nothing, Nat.add_zero] at here; exact here)]
      exact (and_iff_left rfl).symm
  | some c =>
      refine iff_of_false (fun after => ?_) (fun both => Option.some_ne_none c both.2)
      have told := (after c).strongCount
      have here := emptied c
      rw [to_one c _ points, to_null] at here
      change (state.counters c).strongCount.toNat = holders (state.shared.set rhs .null) c at told
      rw [(counted c).strongCount] at told
      omega

end Weak

section FromWeak

variable {state : SharedPtrs Ptr} (handle rhs : Nat)

-- Reading the strong count of a counter that a weak handle is to changes nothing.
theorem touch_weak (counted : state.Counted) (rhsAlive : rhs ∈ state.weak.live) (c : Nat)
    (points : (state.weak.value rhs).ctrObject = some c) :
    (state.addShared handle (state.weak.value rhs)).onCounter (some c) .touch = state.addShared handle (state.weak.value rhs) := by
  have positive := holders_pos state.weak rhs c rhsAlive points
  change { state.addShared handle _ with counters := Function.update state.counters c (state.counters c).touch } = _
  rw [touch_alive (counted c) (by omega), Function.update_eq_self]
  rfl

theorem counted_construct_from_weak (counted : state.Counted) (dead : handle ∉ state.shared.live) (rhsAlive : rhs ∈ state.weak.live) :
    (∃ next, state.constructFromWeak handle rhs = some next ∧ next.Counted) ↔
      (state.weak.value rhs).ctrObject ≠ none ∧ Room state.shared (state.weak.value rhs).ctrObject := by
  obtain ⟨value, valueEq⟩ : ∃ value, value = state.weak.value rhs := ⟨_, rfl⟩
  rw [constructFromWeak, ← valueEq]
  cases points : value.ctrObject with
  | none =>
      refine iff_of_false ?_ (fun both => both.1 rfl)
      rintro ⟨next, stepped, _⟩
      cases stepped
  | some c =>
      have touched := touch_weak handle rhs counted rhsAlive c (by rw [← valueEq]; exact points)
      rw [← valueEq] at touched
      rw [Option.map_some, touched]
      have reads : 0 < ((state.addShared handle value).counters c).strongCount ↔ 0 < holders state.shared c := by
        rw [← (counted c).strongCount, BitVec.lt_def]
        rfl
      by_cases alive : 0 < holders state.shared c
      · rw [if_pos (reads.mpr alive)]
        have shares := counted_share handle value counted dead (fun other here => by
          obtain rfl := Option.some.inj (points.symm.trans here)
          exact alive)
        rw [points] at shares
        constructor
        · rintro ⟨next, stepped, after⟩
          obtain rfl := Option.some.inj stepped
          exact ⟨Option.some_ne_none c, shares.mp after⟩
        · rintro ⟨_, room⟩
          exact ⟨_, rfl, shares.mpr room⟩
      · rw [if_neg (fun read => alive (reads.mp read))]
        have same : ∀ other, holders ((state.addShared handle value).setShared handle .null).shared other =
            holders state.shared other := by
          intro other
          have added := holders_add state.shared handle other value dead
          have emptied := holders_set (state.shared.add handle value) handle other .null (Finset.mem_insert_self ..)
          rw [Family.add_value, to_null] at emptied
          change holders ((state.shared.add handle value).set handle .null) other = _
          omega
        refine iff_of_true ⟨_, rfl, counted_of_same _ counted rfl rfl same (fun _ => rfl)⟩
          ⟨Option.some_ne_none c, fun other here => ?_⟩
        obtain rfl := Option.some.inj here
        omega

theorem counted_construct_null (counted : state.Counted) (dead : handle ∉ state.shared.live) : (state.constructNull handle).Counted :=
  counted_of_same _ counted rfl rfl (fun c => holders_add state.shared handle c .null dead) (fun _ => rfl)

theorem counted_construct_weak (counted : state.Counted) (dead : handle ∉ state.weak.live) : (state.constructWeak handle).Counted :=
  counted_of_same _ counted rfl rfl (fun _ => rfl) (fun c => holders_add state.weak handle c .null dead)

theorem counted_lock (counted : state.Counted) (dead : handle ∉ state.shared.live) (rhsAlive : rhs ∈ state.weak.live) :
    (∃ next, state.lock handle rhs = some next ∧ next.Counted) ↔ Room state.shared (state.weak.value rhs).ctrObject := by
  rw [lock]
  cases points : (state.weak.value rhs).ctrObject with
  | none =>
      rw [Option.isSome_none, if_neg Bool.false_ne_true]
      exact iff_of_true ⟨_, rfl, counted_construct_null handle counted dead⟩ (fun c here => absurd here (Option.not_mem_none c))
  | some c =>
      rw [Option.isSome_some, if_pos rfl, counted_construct_from_weak handle rhs counted dead rhsAlive, points]
      exact and_iff_right (Option.some_ne_none c)

end FromWeak

-- The calls that leave every count right.
def Avoids (state : SharedPtrs Ptr) : SharedCall Ptr → Prop
  | .copyConstruct _ rhs => Room state.shared (state.shared.value rhs).ctrObject
  | .aliasConstruct _ rhs _ => Room state.shared (state.shared.value rhs).ctrObject
  | .constructFromWeak _ rhs => (state.weak.value rhs).ctrObject ≠ none ∧ Room state.shared (state.weak.value rhs).ctrObject
  | .lock _ rhs => Room state.shared (state.weak.value rhs).ctrObject
  | .copyAssign handle rhs =>
      (state.shared.value handle).ctrObject ≠ (state.shared.value rhs).ctrObject →
        Room state.shared (state.shared.value rhs).ctrObject
  | .swap handle rhs => handle = rhs ∨ (state.shared.value rhs).ctrObject = none
  | .copyConstructWeak _ rhs => Room state.weak (state.weak.value rhs).ctrObject
  | .constructWeakFromShared _ rhs => Room state.weak (state.shared.value rhs).ctrObject
  | .destroyWeak handle => ∀ c ∈ (state.weak.value handle).ctrObject, 1 < holders state.shared c + holders state.weak c
  | .copyAssignWeak handle rhs => (state.weak.value handle).ctrObject = none ∧ Room state.weak (state.weak.value rhs).ctrObject
  | .assignWeakFromShared handle rhs => (state.weak.value handle).ctrObject = none ∧ Room state.weak (state.shared.value rhs).ctrObject
  | .moveAssignWeak handle _ => (state.weak.value handle).ctrObject = none
  | .moveAssignWeakFromShared handle rhs => (state.weak.value handle).ctrObject = none ∧ (state.shared.value rhs).ctrObject = none
  | .resetWeak _ => False
  | _ => True

instance (family : Family Nat (Handle Ptr)) (ctrObject : Option Nat) : Decidable (Room family ctrObject) :=
  inferInstanceAs (Decidable (∀ c ∈ ctrObject, _))

instance (state : SharedPtrs Ptr) (call : SharedCall Ptr) : Decidable (state.Avoids call) :=
  match call with
  | .copyConstruct _ _ | .aliasConstruct _ _ _ | .lock _ _ | .copyConstructWeak _ _ | .constructWeakFromShared _ _ =>
      inferInstanceAs (Decidable (Room _ _))
  | .constructFromWeak _ _ | .copyAssignWeak _ _ | .assignWeakFromShared _ _ => inferInstanceAs (Decidable (_ ∧ Room _ _))
  | .copyAssign _ _ => inferInstanceAs (Decidable (_ → Room _ _))
  | .swap _ _ => inferInstanceAs (Decidable (_ ∨ _))
  | .destroyWeak _ => inferInstanceAs (Decidable (∀ c ∈ _, _))
  | .moveAssignWeak _ _ => inferInstanceAs (Decidable (_ = _))
  | .moveAssignWeakFromShared _ _ => inferInstanceAs (Decidable (_ ∧ _))
  | .resetWeak _ => inferInstanceAs (Decidable False)
  | .construct _ _ | .constructNull _ | .moveConstruct _ _ | .moveAssign _ _ | .destroy _ | .reset _ | .constructWeak _
  | .moveConstructWeak _ _ | .swapWeak _ _ => inferInstanceAs (Decidable True)

theorem counted_step_iff (state : SharedPtrs Ptr) (call : SharedCall Ptr) (counted : state.Counted) (allowed : state.Allowed call) :
    (∃ next, state.step call = some next ∧ next.Counted) ↔ state.Avoids call := by
  have only : ∀ next : SharedPtrs Ptr, (∃ other, some next = some other ∧ other.Counted) ↔ next.Counted := by
    intro next
    constructor
    · rintro ⟨other, same, after⟩
      exact Option.some.inj same ▸ after
    · exact fun after => ⟨next, rfl, after⟩
  have fromShared : ∀ rhs ∈ state.shared.live, ∀ c ∈ (state.shared.value rhs).ctrObject, 0 < holders state.shared c :=
    fun rhs alive c points => holders_pos state.shared rhs c alive points
  have fromWeak : ∀ rhs ∈ state.weak.live, ∀ c ∈ (state.weak.value rhs).ctrObject,
      0 < holders state.shared c + holders state.weak c :=
    fun rhs alive c points => Nat.add_pos_right _ (holders_pos state.weak rhs c alive points)
  cases call with
  | construct handle ptr => exact (only _).trans (iff_of_true (counted_construct handle ptr counted allowed) trivial)
  | constructNull handle => exact (only _).trans (iff_of_true (counted_construct_null handle counted allowed) trivial)
  | copyConstruct handle rhs => exact (only _).trans (counted_share handle _ counted allowed.1 (fromShared rhs allowed.2))
  | aliasConstruct handle rhs ptr =>
      exact (only _).trans (counted_share handle ⟨_, ptr⟩ counted allowed.1 (fromShared rhs allowed.2))
  | constructFromWeak handle rhs => exact counted_construct_from_weak handle rhs counted allowed.1 allowed.2
  | moveConstruct handle rhs =>
      exact (only _).trans (iff_of_true (counted_move_construct handle rhs counted allowed.1 allowed.2) trivial)
  | copyAssign handle rhs => exact (only _).trans (counted_copy_assign handle rhs counted allowed.1 allowed.2)
  | moveAssign handle rhs => exact (only _).trans (iff_of_true (counted_move_assign handle rhs counted allowed.1 allowed.2) trivial)
  | destroy handle => exact (only _).trans (iff_of_true (counted_destroy handle counted allowed) trivial)
  | swap handle rhs => exact (only _).trans (counted_swap handle rhs counted allowed.1 allowed.2)
  | reset handle => exact (only _).trans (iff_of_true (counted_reset handle counted allowed) trivial)
  | constructWeak handle => exact (only _).trans (iff_of_true (counted_construct_weak handle counted allowed) trivial)
  | copyConstructWeak handle rhs => exact (only _).trans (counted_share_weak handle _ counted allowed.1 (fromWeak rhs allowed.2))
  | constructWeakFromShared handle rhs =>
      exact (only _).trans (counted_share_weak handle _ counted allowed.1
        (fun c points => Nat.add_pos_left (fromShared rhs allowed.2 c points) _))
  | moveConstructWeak handle rhs =>
      exact (only _).trans (iff_of_true (counted_move_construct_weak handle rhs counted allowed.1 allowed.2) trivial)
  | destroyWeak handle => exact (only _).trans (counted_destroy_weak handle counted allowed)
  | copyAssignWeak handle rhs => exact (only _).trans (counted_copy_assign_weak handle _ counted allowed.1 (fromWeak rhs allowed.2))
  | assignWeakFromShared handle rhs =>
      exact (only _).trans (counted_copy_assign_weak handle _ counted allowed.1
        (fun c points => Nat.add_pos_left (fromShared rhs allowed.2 c points) _))
  | moveAssignWeak handle rhs => exact (only _).trans (counted_move_assign_weak handle rhs counted allowed.1 allowed.2)
  | moveAssignWeakFromShared handle rhs =>
      exact (only _).trans (counted_move_assign_weak_from_shared handle rhs counted allowed.1 allowed.2)
  | resetWeak handle =>
      refine iff_of_false ?_ (fun never => never)
      rintro ⟨next, stepped, _⟩
      cases stepped
  | swapWeak handle rhs => exact (only _).trans (iff_of_true (counted_swap_weak handle rhs counted allowed.1 allowed.2) trivial)
  | lock handle rhs => exact counted_lock handle rhs counted allowed.1 allowed.2

theorem counted_empty (old : Nat → Handle Ptr) : (empty old).Counted :=
  fun _ => ⟨rfl, rfl, rfl, rfl, rfl, fun handled => absurd handled (Nat.lt_irrefl 0)⟩

end SharedPtrs

theorem counts_sound_iff (old : Nat → Handle Ptr) (calls : List (SharedCall Ptr))
    (allowed : Along SharedPtrs.step SharedPtrs.Allowed (SharedPtrs.empty old) calls) :
    Visits SharedPtrs.step SharedPtrs.Counted (SharedPtrs.empty old) calls ↔
      Along SharedPtrs.step SharedPtrs.Avoids (SharedPtrs.empty old) calls := by
  constructor
  · intro visits
    exact along_of_visits SharedPtrs.step SharedPtrs.Allowed SharedPtrs.Avoids SharedPtrs.Counted
      (fun state call next counted able stepped after => (state.counted_step_iff call counted able).mp ⟨next, stepped, after⟩)
      (SharedPtrs.empty old) calls allowed visits
  · intro avoids
    exact visits_of_along SharedPtrs.step (fun state call => state.Allowed call ∧ state.Avoids call) SharedPtrs.Counted
      (fun state call counted both => (state.counted_step_iff call counted both.1).mpr both.2)
      (SharedPtrs.empty old) calls (SharedPtrs.counted_empty old) (along_and SharedPtrs.step _ _ _ calls allowed avoids)

def noPointers : SharedPtrs Unit := SharedPtrs.empty (fun _ => .null)

-- A weak handle that is locked, and goes before the last shared one.
theorem locked_and_destroyed : Visits SharedPtrs.step SharedPtrs.Counted noPointers
    [.construct 0 none, .constructWeakFromShared 0 0, .lock 1 0, .destroy 0, .copyConstruct 0 1, .destroyWeak 0, .destroy 0,
      .destroy 1] :=
  (counts_sound_iff (fun _ => .null) _ (by decide)).mpr (by decide)

-- The second object is destroyed while the first handle is to it.
theorem swapped_object_destroyed :
    Along SharedPtrs.step SharedPtrs.Allowed noPointers [.construct 0 none, .construct 1 none, .swap 0 1] ∧
      ¬ Visits SharedPtrs.step SharedPtrs.Counted noPointers [.construct 0 none, .construct 1 none, .swap 0 1] := by
  refine ⟨by decide, ?_⟩
  rintro ⟨_, _, first, _, _, second, _, _, third, counted⟩
  cases first
  cases second
  cases third
  exact absurd (counted 1).destroyed (by decide)

end Kraftwerk.StandaloneStd
