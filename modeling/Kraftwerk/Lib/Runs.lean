set_option autoImplicit false

-- Finite runs of a component given by a partial step function. A step is none
-- when the code faults or never returns on that call.
namespace Runs

variable {State Call : Type}

def run (step : State → Call → Option State) : State → List Call → Option State
  | state, [] => some state
  | state, call :: rest => (step state call).bind (fun next => run step next rest)

-- Every call of the run satisfies the guard in the state it is made in.
def Along (step : State → Call → Option State) (guard : State → Call → Prop) : State → List Call → Prop
  | _, [] => True
  | state, call :: rest => guard state call ∧ ∀ next, step state call = some next → Along step guard next rest

-- No call of the run faults, and every state visited, both ends included, is good.
def Visits (step : State → Call → Option State) (good : State → Prop) : State → List Call → Prop
  | state, [] => good state
  | state, call :: rest => good state ∧ ∃ next, step state call = some next ∧ Visits step good next rest

-- Every state that the run reaches is good, as far as its calls return.
def Stays (step : State → Call → Option State) (good : State → Prop) : State → List Call → Prop
  | state, [] => good state
  | state, call :: rest => good state ∧ ∀ next, step state call = some next → Stays step good next rest

section
variable (step : State → Call → Option State)

theorem visits_start (good : State → Prop) (state : State) (calls : List Call) (visits : Visits step good state calls) :
    good state := by
  cases calls with
  | nil => exact visits
  | cons call rest => exact visits.1

theorem stays_start (good : State → Prop) (state : State) (calls : List Call) (stays : Stays step good state calls) :
    good state := by
  cases calls with
  | nil => exact stays
  | cons call rest => exact stays.1

theorem along_cons (guard : State → Call → Prop) (state next : State) (call : Call) (rest : List Call)
    (stepped : step state call = some next) :
    Along step guard state (call :: rest) ↔ guard state call ∧ Along step guard next rest := by
  rw [Along, stepped]
  exact and_congr_right (fun _ => ⟨fun later => later next rfl, fun later other same => Option.some.inj same ▸ later⟩)

instance decidableAlong (guard : State → Call → Prop) [∀ state call, Decidable (guard state call)] (state : State) (calls : List Call) :
    Decidable (Along step guard state calls) :=
  match calls with
  | [] => isTrue trivial
  | call :: rest =>
      match stepped : step state call with
      | none =>
          decidable_of_iff (guard state call)
            ⟨fun now => ⟨now, fun _ same => by rw [stepped] at same; cases same⟩, fun along => along.1⟩
      | some next =>
          haveI := decidableAlong guard next rest
          decidable_of_iff _ (along_cons step guard state next call rest stepped).symm

theorem along_true (state : State) (calls : List Call) : Along step (fun _ _ => True) state calls := by
  induction calls generalizing state with
  | nil => trivial
  | cons call rest ih => exact ⟨trivial, fun next _ => ih next⟩

theorem along_forall (guard : Call → Prop) (state : State) (calls : List Call) (all : ∀ call ∈ calls, guard call) :
    Along step (fun _ call => guard call) state calls := by
  induction calls generalizing state with
  | nil => trivial
  | cons call rest ih =>
      obtain ⟨now, later⟩ := List.forall_mem_cons.mp all
      exact ⟨now, fun next _ => ih next later⟩

theorem along_and (first second : State → Call → Prop) (state : State) (calls : List Call)
    (left : Along step first state calls) (right : Along step second state calls) :
    Along step (fun state call => first state call ∧ second state call) state calls := by
  induction calls generalizing state with
  | nil => trivial
  | cons call rest ih =>
      exact ⟨⟨left.1, right.1⟩, fun next stepped => ih next (left.2 next stepped) (right.2 next stepped)⟩

theorem visits_mono (strong weak : State → Prop) (state : State) (calls : List Call)
    (weaker : ∀ state, strong state → weak state) (visits : Visits step strong state calls) :
    Visits step weak state calls := by
  induction calls generalizing state with
  | nil => exact weaker _ visits
  | cons call rest ih =>
      obtain ⟨good, next, stepped, later⟩ := visits
      exact ⟨weaker _ good, next, stepped, ih next later⟩

theorem visits_run (good : State → Prop) (state : State) (calls : List Call) (visits : Visits step good state calls) :
    ∃ last, run step state calls = some last ∧ good last := by
  induction calls generalizing state with
  | nil => exact ⟨state, rfl, visits⟩
  | cons call rest ih =>
      obtain ⟨_, next, stepped, later⟩ := visits
      obtain ⟨last, finished, goodLast⟩ := ih next later
      exact ⟨last, by rw [run, stepped]; exact finished, goodLast⟩

-- One step that keeps the invariant and does not fault carries every guarded run.
theorem visits_of_along (guard : State → Call → Prop) (inv : State → Prop)
    (preserves : ∀ state call, inv state → guard state call → ∃ next, step state call = some next ∧ inv next)
    (state : State) (calls : List Call) (initial : inv state) (along : Along step guard state calls) :
    Visits step inv state calls := by
  induction calls generalizing state with
  | nil => exact initial
  | cons call rest ih =>
      obtain ⟨next, stepped, kept⟩ := preserves state call initial along.1
      exact ⟨initial, next, stepped, ih next kept (along.2 next stepped)⟩

theorem stays_of_along (guard : State → Call → Prop) (inv good : State → Prop)
    (preserves : ∀ state call next, inv state → guard state call → step state call = some next → inv next)
    (gives : ∀ state, inv state → good state) (state : State) (calls : List Call) (initial : inv state)
    (along : Along step guard state calls) : Stays step good state calls := by
  induction calls generalizing state with
  | nil => exact gives state initial
  | cons call rest ih =>
      exact ⟨gives state initial, fun next stepped =>
        ih next (preserves state call next initial along.1 stepped) (along.2 next stepped)⟩

-- A guard whose violation is seen in the very next state holds along every good run.
theorem along_of_visits (allowed guard : State → Call → Prop) (good : State → Prop)
    (detects : ∀ state call next, good state → allowed state call → step state call = some next →
      good next → guard state call)
    (state : State) (calls : List Call) (along : Along step allowed state calls)
    (visits : Visits step good state calls) : Along step guard state calls := by
  induction calls generalizing state with
  | nil => trivial
  | cons call rest ih =>
      obtain ⟨goodState, next, stepped, later⟩ := visits
      have goodNext := visits_start step good next rest later
      refine ⟨detects state call next goodState along.1 stepped goodNext, ?_⟩
      intro other otherStep
      obtain rfl : next = other := Option.some.inj (stepped.symm.trans otherStep)
      exact ih next (along.2 next stepped) later

theorem run_invariant (guard : State → Call → Prop) (inv : State → Prop)
    (preserves : ∀ state call next, inv state → guard state call → step state call = some next → inv next)
    (state last : State) (calls : List Call) (initial : inv state) (along : Along step guard state calls)
    (finished : run step state calls = some last) : inv last := by
  induction calls generalizing state with
  | nil => exact Option.some.inj finished ▸ initial
  | cons call rest ih =>
      obtain ⟨next, stepped, later⟩ := Option.bind_eq_some_iff.mp finished
      exact ih next (preserves state call next initial along.1 stepped) (along.2 next stepped) later

theorem along_of_invariant (guard report : State → Call → Prop) (inv : State → Prop)
    (preserves : ∀ state call next, inv state → guard state call → step state call = some next → inv next)
    (reports : ∀ state call, inv state → guard state call → report state call)
    (state : State) (calls : List Call) (initial : inv state) (along : Along step guard state calls) :
    Along step report state calls := by
  induction calls generalizing state with
  | nil => trivial
  | cons call rest ih =>
      exact ⟨reports state call initial along.1, fun next stepped =>
        ih next (preserves state call next initial along.1 stepped) (along.2 next stepped)⟩

end

end Runs
