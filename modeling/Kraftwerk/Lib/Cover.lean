import Mathlib.Data.Set.Lattice
import Mathlib.Order.CompletePartialOrder
import Mathlib.Data.List.Basic
import Mathlib.Data.List.Count
import Mathlib.Logic.Function.Basic

set_option autoImplicit false

-- How often a list of regions covers a point. Disjointness and conservation of
-- regions both become arithmetic on this count.
namespace Cover

variable {Block Point : Type}

open Classical in
noncomputable def cover (region : Block → Set Point) (blocks : List Block) (point : Point) : Nat :=
  blocks.countP (fun block => decide (point ∈ region block))

section
variable (region : Block → Set Point)

@[simp] theorem cover_nil (point : Point) : cover region [] point = 0 := rfl

open Classical in
theorem cover_cons (block : Block) (blocks : List Block) (point : Point) :
    cover region (block :: blocks) point = cover region blocks point + if point ∈ region block then 1 else 0 := by
  simp [cover, List.countP_cons]

@[simp] theorem cover_append (left right : List Block) (point : Point) :
    cover region (left ++ right) point = cover region left point + cover region right point := by
  simp [cover]

theorem cover_perm (left right : List Block) (point : Point) (same : left.Perm right) :
    cover region left point = cover region right point :=
  same.countP_eq _

theorem cover_pos_iff (blocks : List Block) (point : Point) :
    0 < cover region blocks point ↔ ∃ block ∈ blocks, point ∈ region block := by
  simp [cover]

theorem cover_eq_zero_iff (blocks : List Block) (point : Point) :
    cover region blocks point = 0 ↔ ∀ block ∈ blocks, point ∉ region block := by
  simp [cover]

theorem pairwise_disjoint_iff (blocks : List Block) :
    blocks.Pairwise (fun a b => Disjoint (region a) (region b)) ↔ ∀ point, cover region blocks point ≤ 1 := by
  induction blocks with
  | nil => simp
  | cons block rest ih =>
      rw [List.pairwise_cons, ih]
      constructor
      · rintro ⟨apart, bounded⟩ point
        rw [cover_cons]
        split
        · rename_i inside
          have none : cover region rest point = 0 :=
            (cover_eq_zero_iff region rest point).mpr
              (fun other member => Set.disjoint_left.mp (apart other member) inside)
          omega
        · exact bounded point
      · intro bounded
        refine ⟨?_, fun point => ?_⟩
        · intro other member
          refine Set.disjoint_left.mpr (fun point inside insideOther => ?_)
          have covered := (cover_pos_iff region rest point).mpr ⟨other, member, insideOther⟩
          have bound := bounded point
          rw [cover_cons, if_pos inside] at bound
          omega
        · have bound := bounded point
          rw [cover_cons] at bound
          omega

-- Parts that stay in the disjoint areas of their items do not cover each other's points.
theorem cover_flat_map_apart {Item : Type} (items : List Item) (parts : Item → List Block) (area : Item → Set Point)
    (item : Item) (point : Point) (inside : ∀ other ∈ items, ∀ block ∈ parts other, region block ⊆ area other)
    (apart : items.Pairwise (fun a b => Disjoint (area a) (area b))) (member : item ∈ items) (here : point ∈ area item) :
    cover region (items.flatMap parts) point = cover region (parts item) point := by
  induction items with
  | nil => cases member
  | cons head tail ih =>
      obtain ⟨headApart, tailApart⟩ := List.pairwise_cons.mp apart
      have later := ih (fun other otherMember => inside other (List.mem_cons_of_mem head otherMember)) tailApart
      rw [List.flatMap_cons, cover_append]
      rcases List.mem_cons.mp member with rfl | inTail
      · have none : cover region (tail.flatMap parts) point = 0 := by
          refine (cover_eq_zero_iff region _ point).mpr (fun block blockMember covered => ?_)
          obtain ⟨other, otherMember, inParts⟩ := List.mem_flatMap.mp blockMember
          exact Set.disjoint_left.mp (headApart other otherMember) here
            (inside other (List.mem_cons_of_mem item otherMember) block inParts covered)
        rw [none, Nat.add_zero]
      · have none : cover region (parts head) point = 0 := by
          refine (cover_eq_zero_iff region _ point).mpr (fun block blockMember covered => ?_)
          exact Set.disjoint_left.mp (headApart item inTail) (inside head List.mem_cons_self block blockMember covered) here
        rw [none, Nat.zero_add, later inTail]

-- Replacing one list of an indexed family exchanges its share of the count.
theorem cover_flat_map_update {Index : Type} [DecidableEq Index] (indices : List Index)
    (family : Index → List Block) (index : Index) (blocks : List Block) (point : Point)
    (distinct : indices.Nodup) (member : index ∈ indices) :
    cover region (indices.flatMap (Function.update family index blocks)) point + cover region (family index) point =
      cover region (indices.flatMap family) point + cover region blocks point := by
  induction indices with
  | nil => simp at member
  | cons head tail ih =>
      obtain ⟨fresh, tailDistinct⟩ := List.nodup_cons.mp distinct
      simp only [List.flatMap_cons, cover_append]
      by_cases here : head = index
      · subst here
        have untouched : tail.flatMap (Function.update family head blocks) = tail.flatMap family := by
          apply List.flatMap_congr
          intro other otherMember
          have different : other ≠ head := fun same => fresh (same ▸ otherMember)
          rw [Function.update_of_ne different]
        rw [untouched, Function.update_self]
        omega
      · have later := ih tailDistinct ((List.mem_cons.mp member).resolve_left (Ne.symm here))
        rw [Function.update_of_ne here]
        omega

end

end Cover
