import Kraftwerk.Lib.Loops
import Mathlib.Logic.Function.Basic

set_option autoImplicit false

-- Memory that is made on demand, against flat memory. A step may bring words along that nobody has written, as long as it
-- keeps all that could be loaded before it.
namespace FlatMemory

variable {State Address Word : Type}

inductive Access (Address Word : Type) where
  | load (address : Address)
  | store (address : Address) (value : Word)

def Access.address : Access Address Word → Address
  | .load address => address
  | .store address _ => address

def Access.map {Other : Type} (place : Address → Other) : Access Address Word → Access Other Word
  | .load address => .load (place address)
  | .store address value => .store (place address) value

section
variable [DecidableEq Address]

def perform (memory : Address → Word) : Access Address Word → (Address → Word) × List Word
  | .load address => (memory, [memory address])
  | .store address value => (Function.update memory address value, [])

def performAll (memory : Address → Word) : List (Access Address Word) → (Address → Word) × List Word
  | [] => (memory, [])
  | access :: rest =>
      let later := performAll (perform memory access).1 rest
      (later.1, (perform memory access).2 ++ later.2)

end

section
variable (step : State → Access Address Word → Option (List Word × State)) (contents : State → Address → Option Word)

def serve : State → List (Access Address Word) → Option (List Word × State)
  | state, [] => some ([], state)
  | state, access :: rest =>
      (step state access).bind fun (loaded, next) => (serve next rest).map fun (more, last) => (loaded ++ more, last)

def Keeps (state next : State) (address : Address) : Prop := ∀ word, contents state address = some word → contents next address = some word

def Serves (state : State) (access : Access Address Word) (loaded : List Word) (next : State) : Prop :=
  match access with
  | .load address => (∃ word, loaded = [word] ∧ contents next address = some word) ∧ ∀ other, Keeps contents state next other
  | .store address value => loaded = [] ∧ contents next address = some value ∧ ∀ other, other ≠ address → Keeps contents state next other

theorem serves_later (state middle next : State) (access : Access Address Word) (loaded : List Word)
    (kept : ∀ address, Keeps contents state middle address) (served : Serves contents middle access loaded next) :
    Serves contents state access loaded next := by
  cases access with
  | load address => exact ⟨served.1, fun other word here => served.2 other word (kept other word here)⟩
  | store address value =>
      exact ⟨served.1, served.2.1, fun other different word here => served.2.2 other different word (kept other word here)⟩

variable [DecidableEq Address] [Inhabited Word]

-- The first contents of an address are what it will turn out to hold.
theorem flat_before (state next : State) (access : Access Address Word) (loaded : List Word) (memory : Address → Word)
    (served : Serves contents state access loaded next) (agrees : ∀ address word, contents next address = some word → memory address = word) :
    ∃ before, perform before access = (memory, loaded) ∧ ∀ address word, contents state address = some word → before address = word := by
  cases access with
  | load address =>
      obtain ⟨⟨word, rfl, there⟩, kept⟩ := served
      exact ⟨memory, by rw [perform, agrees address word there], fun other old here => agrees other old (kept other old here)⟩
  | store address value =>
      obtain ⟨rfl, there, kept⟩ := served
      refine ⟨Function.update memory address ((contents state address).getD default), ?_, fun other old here => ?_⟩
      · rw [perform, Function.update_idem, ← agrees address value there, Function.update_eq_self]
      · by_cases touched : other = address
        · rw [touched, Function.update_self, ← touched, here, Option.getD_some]
        · rw [Function.update_of_ne touched]
          exact agrees other old (kept other touched old here)

-- Whatever each step carries on, the loads of a run are the ones of flat memory with some first contents.
theorem serve_flat (inv : State → Prop)
    (carries : ∀ state access, inv state →
      ∃ loaded next, step state access = some (loaded, next) ∧ inv next ∧ Serves contents state access loaded next)
    (state : State) (accesses : List (Access Address Word)) (initial : inv state) :
    ∃ memory final loaded last, serve step state accesses = some (loaded, last) ∧ inv last ∧
      performAll memory accesses = (final, loaded) ∧ (∀ address word, contents state address = some word → memory address = word) ∧
      ∀ address word, contents last address = some word → final address = word := by
  induction accesses generalizing state with
  | nil =>
      have agrees : ∀ address word, contents state address = some word → (contents state address).getD default = word :=
        fun address word here => by rw [here, Option.getD_some]
      exact ⟨_, _, [], state, rfl, initial, rfl, agrees, agrees⟩
  | cons access rest ih =>
      obtain ⟨loaded, next, stepped, kept, served⟩ := carries state access initial
      obtain ⟨memory, final, more, last, finished, goodLast, same, agrees, finalAgrees⟩ := ih next kept
      obtain ⟨before, performed, beforeAgrees⟩ := flat_before contents state next access loaded memory served agrees
      refine ⟨before, final, loaded ++ more, last, ?_, goodLast, ?_, beforeAgrees, finalAgrees⟩
      · rw [serve, stepped, Option.bind_some]
        dsimp only
        rw [finished, Option.map_some]
      · rw [performAll, performed, same]

end

section
variable {Control : Type}

-- A client chooses its next access by what it has loaded, until it makes no more.
abbrev Client (Control Address Word : Type) := Control → Option (Access Address Word × (List Word → Control))

variable (client : Client Control Address Word)

def drive [DecidableEq Address] : Nat → Control → (Address → Word) → Control × (Address → Word)
  | 0, control, memory => (control, memory)
  | turns + 1, control, memory =>
      match client control with
      | none => (control, memory)
      | some (access, resume) => drive turns (resume (perform memory access).2) (perform memory access).1

theorem drive_ended [DecidableEq Address] (turns : Nat) (control : Control) (memory : Address → Word) (ended : client control = none) :
    drive client turns control memory = (control, memory) := by
  cases turns with
  | zero => rfl
  | succ turns => rw [drive, ended]

variable [DecidableEq Address] [Inhabited Word] (step : State → Option State) (contents : State → Address → Option Word)
  (view : State → Control)

structure ServesClient (state next : State) : Prop where
  ended : client (view state) = none → next = state
  served : ∀ access resume, client (view state) = some (access, resume) →
    ∃ loaded, Serves contents state access loaded next ∧ view next = resume loaded

-- The client cannot tell the memory from flat memory with some first contents.
theorem drive_flat (inv : State → Prop)
    (carries : ∀ state, inv state → ∃ next, step state = some next ∧ inv next ∧ ServesClient client contents view state next)
    (turns : Nat) (state : State) (initial : inv state) :
    ∃ memory final last, Loops.after step turns state = some last ∧ inv last ∧
      drive client turns (view state) memory = (view last, final) ∧
      (∀ address word, contents state address = some word → memory address = word) ∧
      ∀ address word, contents last address = some word → final address = word := by
  induction turns generalizing state with
  | zero =>
      have agrees : ∀ address word, contents state address = some word → (contents state address).getD default = word :=
        fun address word here => by rw [here, Option.getD_some]
      exact ⟨_, _, state, rfl, initial, rfl, agrees, agrees⟩
  | succ turns ih =>
      obtain ⟨next, stepped, kept, ended, served⟩ := carries state initial
      obtain ⟨memory, final, last, finished, goodLast, driven, agrees, finalAgrees⟩ := ih next kept
      rw [Loops.after, stepped, Option.bind_some]
      cases chosen : client (view state) with
      | none =>
          obtain rfl := ended chosen
          rw [drive_ended client _ _ _ chosen] at driven
          exact ⟨memory, final, last, finished, goodLast, (drive_ended client _ _ _ chosen).trans driven, agrees, finalAgrees⟩
      | some choice =>
          obtain ⟨access, resume⟩ := choice
          obtain ⟨loaded, done, shown⟩ := served access resume chosen
          obtain ⟨before, performed, beforeAgrees⟩ := flat_before contents state next access loaded memory done agrees
          refine ⟨before, final, last, finished, goodLast, ?_, beforeAgrees, finalAgrees⟩
          rw [drive, chosen]
          dsimp only
          rw [performed, ← shown, driven]

end

end FlatMemory
