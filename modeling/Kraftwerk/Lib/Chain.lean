import Mathlib.Data.Finset.Card
import Mathlib.Data.Finset.Range
import Mathlib.Algebra.Group.Nat.Defs

set_option autoImplicit false

-- Singly linked lists in memory: the nodes that a walk along next passes until it is at null.
namespace Walk

section
variable {Address : Type} (null : Address) (next : Address → Address)

def Chain : Address → List Address → Prop
  | cur, [] => cur = null
  | cur, node :: rest => cur = node ∧ node ≠ null ∧ Chain (next node) rest

theorem chain_unique (head : Address) (nodes others : List Address) (chain : Chain null next head nodes)
    (other : Chain null next head others) : nodes = others := by
  induction nodes generalizing head others with
  | nil =>
      cases others with
      | nil => rfl
      | cons node rest =>
          obtain ⟨same, nonzero, _⟩ := other
          exact absurd (same.symm.trans chain) nonzero
  | cons node rest ih =>
      obtain ⟨rfl, nonzero, later⟩ := chain
      cases others with
      | nil => exact absurd other nonzero
      | cons second tail =>
          obtain ⟨rfl, _, otherLater⟩ := other
          rw [ih _ tail later otherLater]

theorem chain_suffix (head node : Address) (nodes : List Address) (chain : Chain null next head nodes)
    (member : node ∈ nodes) : ∃ rest, Chain null next node (node :: rest) ∧ rest.length < nodes.length := by
  induction nodes generalizing head with
  | nil => cases member
  | cons first rest ih =>
      obtain ⟨rfl, nonzero, later⟩ := chain
      rcases List.mem_cons.mp member with rfl | member
      · exact ⟨rest, ⟨rfl, nonzero, later⟩, Nat.lt_succ_self _⟩
      · obtain ⟨tail, tailChain, shorter⟩ := ih _ later member
        exact ⟨tail, tailChain, Nat.lt_succ_of_lt shorter⟩

-- A walk that ends at null passes no node twice.
theorem chain_nodup (head : Address) (nodes : List Address) (chain : Chain null next head nodes) : nodes.Nodup := by
  induction nodes generalizing head with
  | nil => exact List.nodup_nil
  | cons node rest ih =>
      have whole := chain
      obtain ⟨rfl, _, later⟩ := chain
      refine List.nodup_cons.mpr ⟨fun member => ?_, ih _ later⟩
      obtain ⟨tail, tailChain, shorter⟩ := chain_suffix null next _ head rest later member
      have same := chain_unique null next head _ _ whole tailChain
      rw [(List.cons.inj same).2] at shorter
      exact Nat.lt_irrefl _ shorter

theorem chain_not_null (head node : Address) (nodes : List Address) (chain : Chain null next head nodes)
    (member : node ∈ nodes) : node ≠ null := by
  obtain ⟨_, suffix, _⟩ := chain_suffix null next head node nodes chain member
  exact suffix.2.1

theorem chain_congr (other : Address → Address) (head : Address) (nodes : List Address) (chain : Chain null next head nodes)
    (same : ∀ node ∈ nodes, other node = next node) : Chain null other head nodes := by
  induction nodes generalizing head with
  | nil => exact chain
  | cons node rest ih =>
      obtain ⟨rfl, nonzero, later⟩ := chain
      obtain ⟨here, behind⟩ := List.forall_mem_cons.mp same
      exact ⟨rfl, nonzero, here ▸ ih _ later behind⟩

end

section
variable {Address : Type} [DecidableEq Address] (null : Address) (next move : Address → Address) (leaves : Address → Bool)

-- While loops that follow a cursor until it is null. move is where a round that is not left moves it to.
def endsAt : Nat → Address → Option Address
  | 0, _ => none
  | fuel + 1, cur => if cur = null then some null else if leaves cur then some cur else endsAt fuel (move cur)

-- The nodes that the rounds are made at.
def visited : Nat → Address → List Address
  | 0, _ => []
  | fuel + 1, cur => if cur = null then [] else if leaves cur then [cur] else cur :: visited fuel (move cur)

-- The loop moves along the chain to where it is left.
def Passes : List Address → Address → Prop
  | [], last => last = null
  | node :: rest, last => if leaves node then last = node else move node = next node ∧ Passes rest last

theorem ends_at_stuck (cur : Address) (nonzero : cur ≠ null) (stays : leaves cur = false) (stuck : move cur = cur) (fuel : Nat) :
    endsAt null move leaves fuel cur = none := by
  induction fuel with
  | zero => rfl
  | succ fuel ih => rw [endsAt, if_neg nonzero, if_neg (by rw [stays]; exact Bool.false_ne_true), stuck, ih]

theorem passes_of_ends (head last : Address) (nodes : List Address) (fuel : Nat) (chain : Chain null next head nodes)
    (moves : ∀ node, move node = node ∨ move node = next node) (ends : endsAt null move leaves fuel head = some last) :
    Passes null next move leaves nodes last := by
  induction fuel generalizing head nodes with
  | zero => cases ends
  | succ fuel ih =>
      cases nodes with
      | nil =>
          rw [Chain] at chain
          rw [endsAt, if_pos chain] at ends
          exact (Option.some.inj ends).symm
      | cons node rest =>
          obtain ⟨rfl, nonzero, later⟩ := chain
          rw [endsAt, if_neg nonzero] at ends
          rw [Passes]
          by_cases left : leaves head = true
          · rw [if_pos left] at ends ⊢
            exact (Option.some.inj ends).symm
          · rw [if_neg left] at ends ⊢
            rcases moves head with stuck | onward
            · rw [stuck, ends_at_stuck null move leaves head nonzero (Bool.not_eq_true _ ▸ left) stuck fuel] at ends
              cases ends
            · rw [onward] at ends
              exact ⟨onward, ih _ rest later ends⟩

theorem ends_of_passes (head last : Address) (nodes : List Address) (fuel : Nat) (chain : Chain null next head nodes)
    (passes : Passes null next move leaves nodes last) (enough : nodes.length < fuel) :
    endsAt null move leaves fuel head = some last := by
  induction nodes generalizing head fuel with
  | nil =>
      obtain ⟨fuel, rfl⟩ := Nat.exists_eq_add_one.mpr (Nat.zero_lt_of_lt enough)
      rw [Chain] at chain
      rw [endsAt, if_pos chain]
      exact congrArg some passes.symm
  | cons node rest ih =>
      obtain ⟨fuel, rfl⟩ := Nat.exists_eq_add_one.mpr (Nat.zero_lt_of_lt enough)
      obtain ⟨rfl, nonzero, later⟩ := chain
      rw [Passes] at passes
      rw [endsAt, if_neg nonzero]
      by_cases left : leaves head = true
      · rw [if_pos left] at passes ⊢
        rw [passes]
      · rw [if_neg left] at passes ⊢
        rw [passes.1]
        exact ih _ fuel later passes.2 (Nat.lt_of_succ_lt_succ enough)

theorem visited_prefix (head last : Address) (nodes : List Address) (fuel : Nat) (chain : Chain null next head nodes)
    (passes : Passes null next move leaves nodes last) : visited null move leaves fuel head <+: nodes := by
  induction nodes generalizing head fuel with
  | nil =>
      cases fuel with
      | zero => exact List.nil_prefix
      | succ fuel =>
          rw [Chain] at chain
          rw [visited, if_pos chain]
  | cons node rest ih =>
      cases fuel with
      | zero => exact List.nil_prefix
      | succ fuel =>
          obtain ⟨rfl, nonzero, later⟩ := chain
          rw [Passes] at passes
          rw [visited, if_neg nonzero]
          by_cases left : leaves head = true
          · rw [if_pos left]
            exact (List.prefix_cons_inj head).mpr List.nil_prefix
          · rw [if_neg left] at passes ⊢
            rw [passes.1]
            exact (List.prefix_cons_inj head).mpr (ih _ fuel later passes.2)

end

-- Where null is 0 and the addresses are of a number of bits, a walk is shorter than memory.
theorem chain_length (next : Nat → Nat) (head bits : Nat) (nodes : List Nat) (chain : Chain 0 next head nodes)
    (addresses : ∀ node ∈ nodes, node < 2 ^ bits) : nodes.length < 2 ^ bits := by
  have inside : nodes.toFinset ⊆ (Finset.range (2 ^ bits)).erase 0 := by
    intro node member
    have listed := List.mem_toFinset.mp member
    exact Finset.mem_erase.mpr
      ⟨chain_not_null 0 next head node nodes chain listed, Finset.mem_range.mpr (addresses node listed)⟩
  have positive := Nat.two_pow_pos bits
  have card := Finset.card_le_card inside
  rw [List.toFinset_card_of_nodup (chain_nodup 0 next head nodes chain),
    Finset.card_erase_of_mem (Finset.mem_range.mpr positive), Finset.card_range] at card
  omega

end Walk
