import Kraftwerk.Vmem.RegionRuns

set_option autoImplicit false

-- Which pages reserve_region takes, against the range it is asked for.
namespace Kraftwerk.Vmem

-- The node holds the whole range, in numbers that do not wrap.
def Contains (node : Node) (whereAddr : Addr) (nPages : BitVec 32) : Prop :=
  node.allocSt.toNat ≤ whereAddr.toNat ∧
    whereAddr.toNat + nPages.toNat * 4096 ≤ node.allocSt.toNat + node.size.toNat * 4096

-- The pages of the range were free and are not, and no other page has changed.
structure ReservesRange (nodes after : List Node) (range : Set Addr) : Prop where
  wereFree : range ⊆ pagesOf true nodes
  free : pagesOf true after = pagesOf true nodes \ range
  taken : pagesOf false after = pagesOf false nodes ∪ range

-- What reserve_region is for, on a region whose first node is free.
def ReservesExactly (reg : Region) (first : Node) (whereAddr : Addr) (nPages : BitVec 32) : Prop :=
  (Contains first whereAddr nPages → ∃ after, reserveRegion reg whereAddr nPages = some (true, { reg with list := after }) ∧
    ReservesRange reg.list after (pageRange whereAddr nPages.toNat)) ∧
  ((∀ node ∈ reg.list, node.free = true → ¬ Contains node whereAddr nPages) →
    ∀ answer, reserveRegion reg whereAddr nPages = some answer → answer = (false, reg))

-- The two ends as they are compared, in 64 bits with n_pages << 12 in 32.
def ComparesInside (node : Node) (whereAddr : Addr) (nPages : BitVec 32) : Prop :=
  node.allocSt.toNat ≤ whereAddr.toNat ∧
    (whereAddr.toNat + nPages.toNat * 4096 % 2 ^ 32) % 2 ^ 64 ≤ (node.allocSt.toNat + node.size.toNat * 4096) % 2 ^ 64

-- The range is the node, or the second half of it, which is what gets marked. A range of 2^20 pages
-- or more that ends at 2^64 is not found.
structure Marked (node : Node) (whereAddr : Addr) (nPages : BitVec 32) : Prop where
  place : (node.size.toNat = nPages.toNat ∧ whereAddr = node.allocSt) ∨
    (node.size.toNat = 2 * nPages.toNat ∧ whereAddr.toNat = node.allocSt.toNat + nPages.toNat * 4096)
  found : nPages.toNat < 2 ^ 20 ∨ node.allocSt.toNat + node.size.toNat * 4096 < 2 ^ 64 ∨
    2 ^ 64 ≤ whereAddr.toNat + nPages.toNat * 4096 % 2 ^ 32

structure ReserveCondition (reg : Region) (first : Node) (whereAddr : Addr) (nPages : BitVec 32) : Prop where
  marked : Contains first whereAddr nPages → Marked first whereAddr nPages
  refused : (∀ node ∈ reg.list, node.free = true → ¬ Contains node whereAddr nPages) →
    ∀ node ∈ reg.list.takeWhile Node.free, ¬ ComparesInside node whereAddr nPages

theorem fits_reserve_iff (node : Node) (whereAddr : Addr) (nPages : BitVec 32) :
    fitsReserve node whereAddr nPages = true ↔ ComparesInside node whereAddr nPages := by
  have length : ((nPages <<< 12).setWidth 64).toNat = nPages.toNat * 4096 % 2 ^ 32 := by
    rw [BitVec.toNat_setWidth_of_le (by decide), BitVec.toNat_shiftLeft, Nat.shiftLeft_eq]
  have size : (node.size <<< 12).toNat = node.size.toNat * 4096 % 2 ^ 64 := by
    rw [BitVec.toNat_shiftLeft, Nat.shiftLeft_eq]
  rw [fitsReserve, Bool.and_eq_true_iff, decide_eq_true_iff, decide_eq_true_iff, BitVec.le_def, BitVec.le_def,
    BitVec.toNat_add, BitVec.toNat_add, length, size, Nat.add_mod_mod, ComparesInside]

-- Where the range ends where the node does, the comparison fails only for a length that is cut to 32 bits.
theorem compares_inside_end (node : Node) (whereAddr : Addr) (nPages : BitVec 32)
    (starts : node.allocSt.toNat ≤ whereAddr.toNat)
    (ends : whereAddr.toNat + nPages.toNat * 4096 = node.allocSt.toNat + node.size.toNat * 4096) :
    ComparesInside node whereAddr nPages ↔ nPages.toNat < 2 ^ 20 ∨ node.allocSt.toNat + node.size.toNat * 4096 < 2 ^ 64 ∨
      2 ^ 64 ≤ whereAddr.toNat + nPages.toNat * 4096 % 2 ^ 32 := by
  have pages := nPages.isLt
  have address := whereAddr.isLt
  rw [ComparesInside, ← ends]
  omega

theorem mem_page_range (start page : Addr) (count : Nat) :
    page ∈ pageRange start count ↔ ∃ index < count, page.toNat = (start.toNat + index * 4096) % 2 ^ 64 := by
  have number : ∀ index, (start + BitVec.ofNat 64 (index * 4096)).toNat = (start.toNat + index * 4096) % 2 ^ 64 := fun index => by
    rw [BitVec.toNat_add, BitVec.toNat_ofNat, Nat.add_mod_mod]
  constructor
  · rintro ⟨index, below, rfl⟩
    exact ⟨index, below, number index⟩
  · rintro ⟨index, below, same⟩
    exact ⟨index, below, BitVec.eq_of_toNat_eq (same.trans (number index).symm)⟩

-- A page at or behind the start is as many pages behind it as its number says.
theorem page_behind (start page : Addr) (count : Nat) (small : count ≤ 2 ^ 52) (behind : start.toNat ≤ page.toNat) :
    page ∈ pageRange start count ↔ ∃ index < count, page.toNat = start.toNat + index * 4096 := by
  have bound := page.isLt
  rw [mem_page_range]
  constructor
  · rintro ⟨index, below, same⟩
    exact ⟨index, below, by omega⟩
  · rintro ⟨index, below, same⟩
    exact ⟨index, below, by omega⟩

-- A length below 4 GiB is compared as it is where neither end is at 2^64 or behind it.
theorem compares_inside_exact (node : Node) (whereAddr : Addr) (nPages : BitVec 32) (few : nPages.toNat < 2 ^ 20)
    (range : whereAddr.toNat + nPages.toNat * 4096 < 2 ^ 64) (ends : node.allocSt.toNat + node.size.toNat * 4096 < 2 ^ 64) :
    ComparesInside node whereAddr nPages ↔ Contains node whereAddr nPages := by
  have length : nPages.toNat * 4096 % 2 ^ 32 = nPages.toNat * 4096 := Nat.mod_eq_of_lt (by omega)
  rw [ComparesInside, length, Nat.mod_eq_of_lt range, Nat.mod_eq_of_lt ends, Contains]

section
variable (node : Node) (rest : List Node) (whereAddr : Addr) (nPages : BitVec 32)

-- A first node whose pages are those that stay free and those that are taken.
theorem reserves_range_iff (after : List Node) (keep range wanted : Set Addr) (start : Addr)
    (tiles : TilesFrom start (node :: rest)) (small : totalPages (node :: rest) ≤ 2 ^ 52) (free : node.free = true)
    (whole : nodePages node = keep ∪ range) (apart : Disjoint keep range)
    (freeAfter : pagesOf true after = keep ∪ pagesOf true rest) (takenAfter : pagesOf false after = range ∪ pagesOf false rest) :
    ReservesRange (node :: rest) after wanted ↔ wanted = range := by
  obtain ⟨freeBefore, takenBefore⟩ := pages_of_free node rest free
  have others := free_taken_disjoint start (node :: rest) tiles small
  have behind := first_pages_apart start node rest true tiles small
  rw [freeBefore, takenBefore] at others
  rw [whole] at freeBefore others behind
  constructor
  · intro reserves
    have taken := reserves.taken
    have wereFree := reserves.wereFree
    rw [takenAfter, takenBefore] at taken
    rw [freeBefore] at wereFree
    refine Set.Subset.antisymm (fun page member => ?_) (fun page member => ?_)
    · have isTaken : page ∈ range ∪ pagesOf false rest := taken ▸ Set.mem_union_right _ member
      exact isTaken.resolve_right (Set.disjoint_left.mp others (wereFree member))
    · have isTaken : page ∈ pagesOf false rest ∪ wanted := taken ▸ Set.mem_union_left _ member
      exact isTaken.resolve_left (Set.disjoint_left.mp others (Set.mem_union_left _ (Set.mem_union_right _ member)))
  · rintro rfl
    refine ⟨?_, ?_, ?_⟩
    · rw [freeBefore]
      exact fun page member => Set.mem_union_left _ (Set.mem_union_right _ member)
    · rw [freeBefore, freeAfter]
      ext page
      constructor
      · rintro (kept | later)
        · exact ⟨.inl (.inl kept), Set.disjoint_left.mp apart kept⟩
        · exact ⟨.inr later, fun member => Set.disjoint_left.mp behind (Set.mem_union_right _ member) later⟩
      · rintro ⟨(kept | member) | later, outside⟩
        · exact .inl kept
        · exact absurd member outside
        · exact .inr later
    · rw [takenBefore, takenAfter, Set.union_comm]

theorem first_size_small (small : totalPages (node :: rest) ≤ 2 ^ 52) : node.size.toNat ≤ 2 ^ 52 := by
  rw [total_pages_cons] at small
  omega

theorem contained_page (contains : Contains node whereAddr nPages) (pages : 0 < nPages.toNat) (start : Addr)
    (tiles : TilesFrom start (node :: rest)) (small : totalPages (node :: rest) ≤ 2 ^ 52)
    (free : whereAddr ∈ pagesOf true (node :: rest)) : whereAddr ∈ nodePages node := by
  have inside := tiled_pages_subset start (node :: rest) true tiles free
  obtain ⟨rfl, _⟩ := tiles
  obtain ⟨index, below, same⟩ := (page_behind _ _ _ small contains.1).mp inside
  have ends := contains.2
  rw [nodePages, mem_page_range]
  exact ⟨index, by omega, by rw [← same, Nat.mod_eq_of_lt whereAddr.isLt]⟩

-- The back part of a cut is the range asked for where that is the second of two halves.
theorem back_part_iff (contains : Contains node whereAddr nPages) (pages : 0 < nPages.toNat) (less : nPages.toNat < node.size.toNat)
    (small : node.size.toNat ≤ 2 ^ 52) :
    pageRange whereAddr nPages.toNat = pageRange (node.allocSt + BitVec.ofNat 64 (nPages.toNat * 4096))
        (node.size.toNat - nPages.toNat) ↔
      node.size.toNat = 2 * nPages.toNat ∧ whereAddr.toNat = node.allocSt.toNat + nPages.toNat * 4096 := by
  have few := nPages.isLt
  have address := whereAddr.isLt
  obtain ⟨starts, ends⟩ := contains
  have cut : (node.allocSt + BitVec.ofNat 64 (nPages.toNat * 4096)).toNat =
      (node.allocSt.toNat + nPages.toNat * 4096) % 2 ^ 64 := by
    rw [BitVec.toNat_add, BitVec.toNat_ofNat, Nat.add_mod_mod]
  constructor
  · intro same
    have first : whereAddr ∈ pageRange whereAddr nPages.toNat :=
      (mem_page_range _ _ _).mpr ⟨0, pages, by omega⟩
    rw [same, mem_page_range, cut] at first
    obtain ⟨index, below, place⟩ := first
    have front : node.allocSt + BitVec.ofNat 64 (nPages.toNat * 4096) ∈ pageRange whereAddr nPages.toNat := by
      rw [same, mem_page_range]
      exact ⟨0, by omega, by omega⟩
    rw [mem_page_range, cut] at front
    obtain ⟨other, otherBelow, otherPlace⟩ := front
    have start : whereAddr.toNat = node.allocSt.toNat + nPages.toNat * 4096 := by omega
    -- The last page of the node is in the range, which has no more pages behind it.
    have last : BitVec.ofNat 64 (whereAddr.toNat + (node.size.toNat - nPages.toNat - 1) * 4096) ∈
        pageRange whereAddr nPages.toNat := by
      rw [same, mem_page_range, cut, BitVec.toNat_ofNat]
      exact ⟨node.size.toNat - nPages.toNat - 1, by omega, by omega⟩
    rw [mem_page_range, BitVec.toNat_ofNat] at last
    obtain ⟨later, laterBelow, laterPlace⟩ := last
    exact ⟨by omega, start⟩
  · rintro ⟨twice, place⟩
    have half : node.size.toNat - nPages.toNat = nPages.toNat := by omega
    have start : whereAddr = node.allocSt + BitVec.ofNat 64 (nPages.toNat * 4096) := by
      apply BitVec.eq_of_toNat_eq
      rw [cut, ← place, Nat.mod_eq_of_lt address]
    rw [half, start]

-- The pages that the last part of reserve_region marks.
def markedPages (node : Node) (nPages : BitVec 32) : Set Addr :=
  if nPages.setWidth 64 < node.size then
    pageRange (node.allocSt + BitVec.ofNat 64 (nPages.toNat * 4096)) (node.size.toNat - nPages.toNat)
  else nodePages node

theorem pages_less : nPages.setWidth 64 < node.size ↔ nPages.toNat < node.size.toNat := by
  rw [BitVec.lt_def, BitVec.toNat_setWidth_of_le (by decide)]

theorem reserve_node_reserves_iff (start : Addr) (tiles : TilesFrom start (node :: rest))
    (small : totalPages (node :: rest) ≤ 2 ^ 52) (free : node.free = true) (wanted : Set Addr) :
    ReservesRange (node :: rest) (reserveNode node nPages ++ rest) wanted ↔ wanted = markedPages node nPages := by
  have count : (nPages.setWidth 64).toNat = nPages.toNat := BitVec.toNat_setWidth_of_le (by decide)
  have fits := first_size_small node rest small
  rw [reserveNode, markedPages]
  by_cases less : nPages.setWidth 64 < node.size
  · have below := (pages_less node nPages).mp less
    have back : nodePages { (bisectNode node (nPages.setWidth 64)).2 with free := false } =
        pageRange (node.allocSt + BitVec.ofNat 64 (nPages.toNat * 4096)) (node.size.toNat - nPages.toNat) := by
      rw [nodePages, bisectNode, shift_page_count, BitVec.toNat_sub_of_le (BitVec.le_of_lt less), count]
    have front : nodePages (bisectNode node (nPages.setWidth 64)).1 = pageRange node.allocSt nPages.toNat := by
      rw [nodePages, bisectNode, count]
    have frontPages := pages_of_free (bisectNode node (nPages.setWidth 64)).1
      ({ (bisectNode node (nPages.setWidth 64)).2 with free := false } :: rest) free
    have backPages := pages_of_taken { (bisectNode node (nPages.setWidth 64)).2 with free := false } rest rfl
    have whole := page_range_add node.allocSt nPages.toNat (node.size.toNat - nPages.toNat)
    have apart := page_range_disjoint node.allocSt nPages.toNat (node.size.toNat - nPages.toNat) (by omega)
    rw [show nPages.toNat + (node.size.toNat - nPages.toNat) = node.size.toNat by omega] at whole
    rw [if_pos less, if_pos less]
    refine reserves_range_iff node rest _ _ _ wanted start tiles small free whole apart ?_ ?_
    · exact frontPages.1.trans (by rw [front, backPages.1])
    · exact frontPages.2.trans (by rw [backPages.2, back])
  · have taken := pages_of_taken { node with free := false } rest rfl
    rw [if_neg less, if_neg less]
    refine reserves_range_iff node rest _ ∅ _ wanted start tiles small free (Set.empty_union _).symm
      (Set.empty_disjoint _) ?_ taken.2
    exact taken.1.trans (Set.empty_union _).symm

theorem marked_pages_iff (contains : Contains node whereAddr nPages) (pages : 0 < nPages.toNat)
    (small : node.size.toNat ≤ 2 ^ 52) : pageRange whereAddr nPages.toNat = markedPages node nPages ↔
      (node.size.toNat = nPages.toNat ∧ whereAddr = node.allocSt) ∨
        (node.size.toNat = 2 * nPages.toNat ∧ whereAddr.toNat = node.allocSt.toNat + nPages.toNat * 4096) := by
  rw [markedPages]
  by_cases less : nPages.setWidth 64 < node.size
  · have below := (pages_less node nPages).mp less
    rw [if_pos less, back_part_iff node whereAddr nPages contains pages below small]
    refine (or_iff_right fun whole => ?_).symm
    omega
  · have least := mt (pages_less node nPages).mpr less
    obtain ⟨starts, ends⟩ := contains
    have size : node.size.toNat = nPages.toNat := by omega
    have start : whereAddr = node.allocSt := BitVec.eq_of_toNat_eq (by omega)
    rw [if_neg less, nodePages, size, start]
    exact ⟨fun _ => .inl ⟨rfl, rfl⟩, fun _ => rfl⟩

theorem found_iff (start : Addr) (tiles : TilesFrom start (node :: rest)) (small : totalPages (node :: rest) ≤ 2 ^ 52)
    (free : node.free = true) (pages : 0 < nPages.toNat) (contains : Contains node whereAddr nPages) :
    (∃ after, reserveList whereAddr nPages (node :: rest) = some (true, after) ∧
      ReservesRange (node :: rest) after (pageRange whereAddr nPages.toNat)) ↔ Marked node whereAddr nPages := by
  have size := first_size_small node rest small
  have place := marked_pages_iff node whereAddr nPages contains pages size
  have compares : pageRange whereAddr nPages.toNat = markedPages node nPages →
      (ComparesInside node whereAddr nPages ↔ nPages.toNat < 2 ^ 20 ∨ node.allocSt.toNat + node.size.toNat * 4096 < 2 ^ 64 ∨
        2 ^ 64 ≤ whereAddr.toNat + nPages.toNat * 4096 % 2 ^ 32) := by
    intro marked
    refine compares_inside_end node whereAddr nPages contains.1 ?_
    rcases place.mp marked with ⟨whole, rfl⟩ | ⟨twice, second⟩
    · rw [whole]
    · omega
  rw [reserveList, free, if_neg (by decide)]
  by_cases fits : fitsReserve node whereAddr nPages = true
  · have inside := (fits_reserve_iff node whereAddr nPages).mp fits
    rw [if_pos fits, reserveCut, if_neg (fits_starts node whereAddr nPages fits)]
    have reserves := reserve_node_reserves_iff node rest nPages start tiles small free (pageRange whereAddr nPages.toNat)
    constructor
    · rintro ⟨after, done, reserved⟩
      obtain ⟨_, rfl⟩ := Prod.mk.inj (Option.some.inj done)
      have marked := reserves.mp reserved
      exact ⟨place.mp marked, (compares marked).mp inside⟩
    · intro marked
      exact ⟨_, rfl, reserves.mpr (place.mpr marked.place)⟩
  · rw [if_neg fits]
    constructor
    · rintro ⟨after, done, reserved⟩
      obtain ⟨⟨found, tail⟩, _, same⟩ := Option.map_eq_some_iff.mp done
      obtain ⟨_, rfl⟩ := Prod.mk.inj same
      have first : whereAddr ∈ pageRange whereAddr nPages.toNat := (mem_page_range _ _ _).mpr
        ⟨0, pages, by rw [Nat.zero_mul, Nat.add_zero, Nat.mod_eq_of_lt whereAddr.isLt]⟩
      have here := contained_page node rest whereAddr nPages contains pages start tiles small (reserved.wereFree first)
      have stays : whereAddr ∈ pagesOf true (node :: tail) := (mem_pages_cons true node tail whereAddr).mpr (.inl ⟨free, here⟩)
      rw [reserved.free] at stays
      exact absurd first stays.2
    · intro marked
      exact absurd ((compares (place.mpr marked.place)).mpr marked.found) (mt (fits_reserve_iff node whereAddr nPages).mpr fits)

end

theorem refused_iff (whereAddr : Addr) (nPages : BitVec 32) (nodes : List Node) :
    (∀ answer, reserveList whereAddr nPages nodes = some answer → answer = (false, nodes)) ↔
      ∀ node ∈ nodes.takeWhile Node.free, ¬ ComparesInside node whereAddr nPages := by
  induction nodes with
  | nil =>
      refine ⟨fun _ node member => absurd member List.not_mem_nil, fun _ answer done => ?_⟩
      exact (Option.some.inj done).symm
  | cons cur rest ih =>
      rw [reserveList]
      cases free : cur.free with
      | false =>
          rw [if_pos (by decide), List.takeWhile_cons_of_neg (by rw [free]; exact Bool.false_ne_true)]
          exact ⟨fun _ node member => absurd member List.not_mem_nil, fun _ answer done => by cases done⟩
      | true =>
          rw [if_neg (by decide), List.takeWhile_cons_of_pos free]
          by_cases fits : fitsReserve cur whereAddr nPages = true
          · rw [if_pos fits]
            constructor
            · intro refuses
              cases refuses _ rfl
            · intro outside
              exact absurd ((fits_reserve_iff cur whereAddr nPages).mp fits) (outside cur List.mem_cons_self)
          · rw [if_neg fits, List.forall_mem_cons, ← ih]
            constructor
            · intro refuses
              refine ⟨mt (fits_reserve_iff cur whereAddr nPages).mpr fits, fun answer done => ?_⟩
              have same := refuses _ (Option.map_eq_some_iff.mpr ⟨answer, done, rfl⟩)
              obtain ⟨no, tail⟩ := Prod.mk.inj same
              exact Prod.ext no (List.cons.inj tail).2
            · rintro ⟨_, refuses⟩ answer done
              obtain ⟨found, walked, rfl⟩ := Option.map_eq_some_iff.mp done
              rw [refuses found walked]

theorem reserve_region_some_iff (reg : Region) (whereAddr : Addr) (nPages : BitVec 32) (answer : Bool × Region) :
    reserveRegion reg whereAddr nPages = some answer ↔
      ∃ after, reserveList whereAddr nPages reg.list = some (answer.1, after) ∧ answer.2 = { reg with list := after } := by
  rw [reserveRegion, Option.map_eq_some_iff]
  constructor
  · rintro ⟨⟨reserved, after⟩, done, rfl⟩
    exact ⟨after, done, rfl⟩
  · rintro ⟨after, done, same⟩
    exact ⟨(answer.1, after), done, Prod.ext rfl same.symm⟩

theorem reserves_exactly_iff (reg : Region) (first : Node) (rest : List Node) (whereAddr : Addr) (nPages : BitVec 32)
    (tiles : Tiles reg) (list : reg.list = first :: rest) (free : first.free = true) (pages : 0 < nPages.toNat) :
    ReservesExactly reg first whereAddr nPages ↔ ReserveCondition reg first whereAddr nPages := by
  have chained := tiles.chained
  have small := tiles.total ▸ tiles.small
  rw [list] at chained small
  have found : Contains first whereAddr nPages → ((∃ after, reserveRegion reg whereAddr nPages =
      some (true, { reg with list := after }) ∧ ReservesRange reg.list after (pageRange whereAddr nPages.toNat)) ↔
        Marked first whereAddr nPages) := by
    intro contains
    rw [← found_iff first rest whereAddr nPages reg.regStart chained small free pages contains, ← list]
    constructor
    · rintro ⟨after, done, reserved⟩
      obtain ⟨later, listDone, same⟩ := (reserve_region_some_iff reg whereAddr nPages _).mp done
      obtain rfl : after = later := congrArg Region.list same
      exact ⟨after, listDone, reserved⟩
    · rintro ⟨after, done, reserved⟩
      exact ⟨after, (reserve_region_some_iff reg whereAddr nPages _).mpr ⟨after, done, rfl⟩, reserved⟩
  have refused : (∀ answer, reserveRegion reg whereAddr nPages = some answer → answer = (false, reg)) ↔
      ∀ node ∈ reg.list.takeWhile Node.free, ¬ ComparesInside node whereAddr nPages := by
    rw [← refused_iff]
    constructor
    · intro refuses answer done
      have same := refuses (answer.1, { reg with list := answer.2 })
        ((reserve_region_some_iff reg whereAddr nPages _).mpr ⟨answer.2, done, rfl⟩)
      obtain ⟨no, region⟩ := Prod.mk.inj same
      exact Prod.ext no (congrArg Region.list region)
    · intro refuses answer done
      obtain ⟨after, listDone, same⟩ := (reserve_region_some_iff reg whereAddr nPages answer).mp done
      obtain ⟨no, unchanged⟩ := Prod.mk.inj (refuses _ listDone)
      exact Prod.ext no (by rw [same, unchanged])
  constructor
  · intro reserves
    exact ⟨fun contains => (found contains).mp (reserves.1 contains), fun outside => refused.mp (reserves.2 outside)⟩
  · intro condition
    exact ⟨fun contains => (found contains).mpr (condition.marked contains), fun outside => refused.mpr (condition.refused outside)⟩

-- The upper half of a region of two pages is reserved; of its lower half, or of its middle, the upper half is.
def twoPages : Region := ⟨0x10000, 2, [⟨0x10000, 2, true⟩]⟩

theorem two_pages_tiles : Tiles twoPages where
  small := by decide
  chained := ⟨rfl, trivial⟩
  total := by decide

theorem two_pages_upper : ReservesExactly twoPages ⟨0x10000, 2, true⟩ 0x11000 1 := by
  refine (reserves_exactly_iff twoPages ⟨0x10000, 2, true⟩ [] 0x11000 1 two_pages_tiles rfl rfl (by decide)).mpr ⟨?_, ?_⟩
  · exact fun _ => ⟨.inr (by decide), .inl (by decide)⟩
  · intro outside
    exact absurd (by rw [Contains]; decide) (outside ⟨0x10000, 2, true⟩ (List.mem_singleton.mpr rfl) rfl)

theorem two_pages_lower : reserveRegion twoPages 0x10000 1 =
    some (true, ⟨0x10000, 2, [⟨0x10000, 1, true⟩, ⟨0x11000, 1, false⟩]⟩) ∧
      ¬ ReservesExactly twoPages ⟨0x10000, 2, true⟩ 0x10000 1 := by
  refine ⟨by decide, fun reserves => ?_⟩
  obtain ⟨after, done, reserved⟩ := reserves.1 (by rw [Contains]; decide)
  have same : some (true, ({ twoPages with list := after } : Region)) =
    some (true, ⟨0x10000, 2, [⟨0x10000, 1, true⟩, ⟨0x11000, 1, false⟩]⟩) := done.symm.trans (by decide)
  obtain ⟨_, region⟩ := Prod.mk.inj (Option.some.inj same)
  obtain rfl : after = _ := congrArg Region.list region
  have first : (0x10000 : Addr) ∈ pageRange 0x10000 (1 : BitVec 32).toNat := (mem_page_range _ _ _).mpr ⟨0, by decide⟩
  have stays : (0x10000 : Addr) ∈ pagesOf true [⟨0x10000, 1, true⟩, ⟨0x11000, 1, false⟩] :=
    (mem_pages_cons true _ _ _).mpr (.inl ⟨rfl, (mem_page_range _ _ _).mpr ⟨0, by decide⟩⟩)
  rw [reserved.free] at stays
  exact absurd first stays.2

end Kraftwerk.Vmem
