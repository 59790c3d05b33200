import Mathlib.Logic.Relation

set_option autoImplicit false

-- A loop as a partial step function on its states, none where it ends.
namespace Loops

variable {State : Type} (step : State → Option State)

def after : Nat → State → Option State
  | 0, state => some state
  | turns + 1, state => (step state).bind (after turns)

-- From one state to the other by turns that all start in a good state.
def Leads (good : State → Prop) : State → State → Prop :=
  Relation.ReflTransGen (fun state next => good state ∧ step state = some next)

variable {step}

theorem leads_step {good : State → Prop} {state next : State} (here : good state) (stepped : step state = some next) :
    Leads step good state next := Relation.ReflTransGen.single ⟨here, stepped⟩

theorem leads_mono {strong weak : State → Prop} {first last : State} (weaker : ∀ state, strong state → weak state)
    (leads : Leads step strong first last) : Leads step weak first last :=
  Relation.ReflTransGen.mono (fun _ _ both => ⟨weaker _ both.1, both.2⟩) _ _ leads

theorem leads_after {good : State → Prop} {first last : State} (leads : Leads step good first last) :
    ∃ turns, after step turns first = some last := by
  induction leads using Relation.ReflTransGen.head_induction_on with
  | refl => exact ⟨0, rfl⟩
  | head turn _ ih =>
      obtain ⟨turns, reached⟩ := ih
      exact ⟨turns + 1, by rw [after, turn.2]; exact reached⟩

theorem after_succ (turns : Nat) (first : State) : after step (turns + 1) first = (after step turns first).bind step := by
  induction turns generalizing first with
  | zero =>
      rw [after, after, Option.bind_some]
      cases step first <;> rfl
  | succ turns ih =>
      rw [after, after]
      cases stepped : step first with
      | none => rfl
      | some next => exact ih next

-- Every turn is taken from a good state and leads to one, so the loop never ends.
theorem never_ends {good : State → Prop} (goesOn : ∀ state, good state → ∃ next, step state = some next ∧ good next)
    (first : State) (here : good first) (turns : Nat) : ∃ state, after step turns first = some state ∧ good state := by
  induction turns with
  | zero => exact ⟨first, rfl, here⟩
  | succ turns ih =>
      obtain ⟨state, reached, goodState⟩ := ih
      obtain ⟨next, stepped, goodNext⟩ := goesOn state goodState
      exact ⟨next, by rw [after_succ, reached, Option.bind_some, stepped], goodNext⟩

-- A loop that ends in a good state has been in no other.
theorem ends_good {good : State → Prop} {first last : State} (leads : Leads step good first last) (here : good last)
    (ended : step last = none) :
    (∃ turns, after step turns first = none) ∧ ∀ turns state, after step turns first = some state → good state := by
  induction leads using Relation.ReflTransGen.head_induction_on with
  | refl =>
      refine ⟨⟨1, by rw [after, ended]; rfl⟩, fun turns state reached => ?_⟩
      cases turns with
      | zero =>
          obtain rfl := Option.some.inj reached
          exact here
      | succ turns =>
          rw [after, ended] at reached
          cases reached
  | @head state next turn _ ih =>
      obtain ⟨⟨turns, stopped⟩, stays⟩ := ih
      refine ⟨⟨turns + 1, by rw [after, turn.2]; exact stopped⟩, fun turns other reached => ?_⟩
      cases turns with
      | zero =>
          obtain rfl := Option.some.inj reached
          exact turn.1
      | succ turns =>
          rw [after, turn.2] at reached
          exact stays turns other reached

end Loops
