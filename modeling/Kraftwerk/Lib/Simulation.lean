import Kraftwerk.Lib.Runs

set_option autoImplicit false

-- Runs of a component beside a specification of it, which may have several outcomes for one call.
namespace Simulation

open Runs

variable {State Spec Call : Type}

def Traces (spec : Spec → Call → Spec → Prop) : Spec → List Call → Spec → Prop
  | before, [], after => before = after
  | before, call :: rest, after => ∃ next, spec before call next ∧ Traces spec next rest after

section
variable (step : State → Call → Option State) (spec : Spec → Call → Spec → Prop) (abstraction : State → Spec)

-- A step that keeps the invariant and is one of the outcomes of the specification carries every guarded run.
theorem run_traces (guard : State → Call → Prop) (inv : State → Prop)
    (simulates : ∀ state call, inv state → guard state call →
      ∃ next, step state call = some next ∧ inv next ∧ spec (abstraction state) call (abstraction next))
    (state : State) (calls : List Call) (initial : inv state) (along : Along step guard state calls) :
    ∃ last, run step state calls = some last ∧ inv last ∧ Traces spec (abstraction state) calls (abstraction last) := by
  induction calls generalizing state with
  | nil => exact ⟨state, rfl, initial, rfl⟩
  | cons call rest ih =>
      obtain ⟨next, stepped, kept, outcome⟩ := simulates state call initial along.1
      obtain ⟨last, finished, goodLast, later⟩ := ih next kept (along.2 next stepped)
      exact ⟨last, by rw [run, stepped]; exact finished, goodLast, abstraction next, outcome, later⟩

-- Where the specification is a function, the guard can be one on its states alone.
theorem run_follows (act : Spec → Call → Spec) (guard : Spec → Call → Prop) (related : State → Spec → Prop)
    (follows : ∀ state before call, related state before → guard before call →
      ∃ next, step state call = some next ∧ related next (act before call))
    (state : State) (before : Spec) (calls : List Call) (initial : related state before)
    (along : Along (fun before call => some (act before call)) guard before calls) :
    ∃ last, run step state calls = some last ∧ related last (calls.foldl act before) := by
  induction calls generalizing state before with
  | nil => exact ⟨state, rfl, initial⟩
  | cons call rest ih =>
      obtain ⟨next, stepped, kept⟩ := follows state before call initial along.1
      obtain ⟨last, finished, later⟩ := ih next (act before call) kept (along.2 _ rfl)
      exact ⟨last, by rw [run, stepped]; exact finished, later⟩

end

end Simulation
