import Kraftwerk.Print.Convert

set_option autoImplicit false

-- kvsnprintf of os/core/printf.cpp. Addresses are natural numbers with NULL as 0; the
-- result lists the bytes written through out and the stores of %n, in the order of the code.
namespace Kraftwerk.Print

open CString

structure Store where
  target : Nat
  bits : Nat
  value : Nat
deriving DecidableEq, Repr

structure Cursor where
  out : Nat
  discard : Bool
  nPrinted : BitVec 32
  writes : List (Nat × Byte)
  stores : List Store
deriving DecidableEq

structure Printed where
  value : BitVec 32
  writes : List (Nat × Byte)
  stores : List Store
deriving DecidableEq

def place (address : Nat) : List Byte → List (Nat × Byte)
  | [] => []
  | cur :: rest => (address, cur) :: place (address + 1) rest

def countBits : Length → Nat
  | .hh => 8
  | .h => 16
  | .l | .ll | .j | .t | .z => 64
  | .none | .L => 32

def Cursor.copy (cursor : Cursor) (bytes : List Byte) : Cursor :=
  { cursor with
    out := cursor.out + bytes.length
    writes := cursor.writes ++ place cursor.out bytes }

def Cursor.print (cursor : Cursor) (bytes : List Byte) : Cursor :=
  { (if cursor.discard then cursor else cursor.copy bytes) with
    nPrinted := cursor.nPrinted + BitVec.ofNat 32 bytes.length }

-- The branch of "%%" does not look at discard and leaves n_printed alone.
def emit (cursor : Cursor) : Piece → Cursor
  | .nothing => cursor
  | .count length target =>
      { cursor with stores := cursor.stores ++ [⟨target, countBits length, cursor.nPrinted.toNat % 2 ^ countBits length⟩] }
  | .percent => cursor.copy [chr '%']
  | .char cur => cursor.print [cur]
  | .text final => cursor.print final.chars

def full (bufsz : BitVec 64) (nPrinted : BitVec 32) : Bool := 0 < bufsz && bufsz - 1 ≤ nPrinted.setWidth 64

def turn (bufsz : BitVec 64) (cursor : Cursor) (piece : Piece) : Cursor :=
  let after := emit cursor piece
  { after with discard := after.discard || full bufsz after.nPrinted }

def printLoop (usable : Nat → Nat) (bufsz : BitVec 64) : Nat → (Nat → List Byte) → Cursor → Input → Option Cursor
  | 0, _, _, _ => none
  | fuel + 1, old, cursor, ⟨pos, args⟩ =>
      match pos with
      | [] => some cursor
      | cur :: rest =>
          (nextDirective cur rest args).bind (fun (directive, input) =>
            (convert usable (old 0) directive).bind (fun piece =>
              printLoop usable bufsz fuel (fun index => old (index + 1)) (turn bufsz cursor piece) input))

def start (out : Nat) : Cursor := ⟨out, out = 0, 0, [], []⟩

def finish (cursor : Cursor) : Printed :=
  ⟨cursor.nPrinted, if cursor.out = 0 then cursor.writes else cursor.writes ++ [(cursor.out, 0)], cursor.stores⟩

def kvsnprintf (usable : Nat → Nat) (old : Nat → List Byte) (out : Nat) (bufsz : BitVec 64) (fmt : Str) (args : List Arg) :
    Option Printed :=
  (printLoop usable bufsz (fmt.chars.length + 1) old (start out) ⟨fmt.chars, args⟩).map finish

def printPieces (out : Nat) (bufsz : BitVec 64) (pieces : List Piece) : Printed :=
  finish (pieces.foldl (turn bufsz) (start out))

theorem print_loop_eq (usable : Nat → Nat) (bufsz : BitVec 64) (fuel : Nat) (old : Nat → List Byte) (cursor : Cursor)
    (input : Input) :
    printLoop usable bufsz fuel old cursor input = (directivesFrom fuel input).bind (fun directives =>
      (convertAll usable old directives).map (fun pieces => pieces.foldl (turn bufsz) cursor)) := by
  induction fuel generalizing old cursor input with
  | zero => rfl
  | succ fuel ih =>
      obtain ⟨pos, args⟩ := input
      cases pos with
      | nil => rfl
      | cons cur rest =>
          rw [printLoop, directivesFrom]
          dsimp only
          rw [Option.bind_assoc]
          refine Option.bind_congr (fun read _ => ?_)
          obtain ⟨directive, input⟩ := read
          dsimp only
          rw [Option.bind_map, Function.comp_def]
          cases converted : convert usable (old 0) directive with
          | none =>
              rw [Option.bind_none, eq_comm, Option.bind_eq_none_iff]
              intro directives _
              rw [convertAll, converted, Option.bind_none, Option.map_none]
          | some piece =>
              rw [Option.bind_some, ih]
              refine Option.bind_congr (fun directives _ => ?_)
              rw [convertAll, converted, Option.bind_some, Option.map_map]
              rfl

-- The format is read and converted in the same way for every out and bufsz.
theorem kvsnprintf_eq (usable : Nat → Nat) (old : Nat → List Byte) (out : Nat) (bufsz : BitVec 64) (fmt : Str)
    (args : List Arg) (found : List Directive) (matching : directives fmt args = some found) :
    kvsnprintf usable old out bufsz fmt args = (convertAll usable old found).map (printPieces out bufsz) := by
  rw [kvsnprintf, print_loop_eq, show directivesFrom _ _ = some found from matching, Option.bind_some, Option.map_map]
  rfl

section Shown

def Piece.written : Piece → List Byte
  | .percent => [chr '%']
  | .char cur => [cur]
  | .text final => final.chars
  | _ => []

def Piece.discarded : Piece → List Byte
  | .percent => [chr '%']
  | _ => []

def shownFrom (bufsz : BitVec 64) : Bool → BitVec 32 → List Piece → List Byte
  | _, _, [] => []
  | discard, nPrinted, piece :: rest =>
      let next := nPrinted + BitVec.ofNat 32 piece.counted
      (if discard then piece.discarded else piece.written) ++ shownFrom bufsz (discard || full bufsz next) next rest

def written (pieces : List Piece) : List Byte := pieces.flatMap Piece.written

theorem written_cons (piece : Piece) (rest : List Piece) : written (piece :: rest) = piece.written ++ written rest := rfl

theorem place_append (address : Nat) (front back : List Byte) :
    place address (front ++ back) = place address front ++ place (address + front.length) back := by
  induction front generalizing address with
  | nil => rfl
  | cons cur rest ih =>
      rw [List.cons_append, place, ih, place, List.cons_append, List.length_cons]
      rw [Nat.add_assoc address 1, Nat.add_comm 1]

theorem place_inj (address : Nat) (front back : List Byte) (same : place address front = place address back) :
    front = back := by
  induction front generalizing address back with
  | nil =>
      cases back with
      | nil => rfl
      | cons cur rest => cases same
  | cons first rest ih =>
      cases back with
      | nil => cases same
      | cons cur tail =>
          obtain ⟨head, later⟩ := List.cons.inj same
          rw [(Prod.mk.inj head).2, ih (address + 1) tail later]

theorem turn_eq (bufsz : BitVec 64) (cursor : Cursor) (piece : Piece) :
    let bytes := if cursor.discard then piece.discarded else piece.written
    let next := cursor.nPrinted + BitVec.ofNat 32 piece.counted
    (turn bufsz cursor piece).out = cursor.out + bytes.length ∧
      (turn bufsz cursor piece).writes = cursor.writes ++ place cursor.out bytes ∧
      (turn bufsz cursor piece).nPrinted = next ∧
      (turn bufsz cursor piece).discard = (cursor.discard || full bufsz next) := by
  cases piece with
  | nothing | count | percent =>
      cases discard : cursor.discard <;>
        simp [turn, emit, Cursor.copy, discard, Piece.discarded, Piece.written, Piece.counted, place]
  | char | text =>
      cases discard : cursor.discard <;>
        simp [turn, emit, Cursor.print, Cursor.copy, discard, Piece.discarded, Piece.written, Piece.counted, place]

theorem fold_turn_eq (bufsz : BitVec 64) (cursor : Cursor) (pieces : List Piece) :
    let shown := shownFrom bufsz cursor.discard cursor.nPrinted pieces
    (pieces.foldl (turn bufsz) cursor).out = cursor.out + shown.length ∧
      (pieces.foldl (turn bufsz) cursor).writes = cursor.writes ++ place cursor.out shown ∧
      (pieces.foldl (turn bufsz) cursor).nPrinted = cursor.nPrinted + BitVec.ofNat 32 (totalCounted pieces) := by
  induction pieces generalizing cursor with
  | nil => simp [shownFrom, place, totalCounted]
  | cons piece rest ih =>
      obtain ⟨out, writes, nPrinted, discard⟩ := turn_eq bufsz cursor piece
      obtain ⟨lastOut, lastWrites, lastPrinted⟩ := ih (turn bufsz cursor piece)
      rw [discard, nPrinted] at lastOut lastWrites
      rw [nPrinted] at lastPrinted
      rw [List.foldl_cons, lastOut, lastWrites, lastPrinted, out, writes, shownFrom]
      refine ⟨?_, ?_, ?_⟩
      · rw [List.length_append, Nat.add_assoc]
      · rw [List.append_assoc, ← place_append]
      · rw [total_counted_cons, BitVec.ofNat_add, BitVec.add_assoc]

theorem print_pieces_value (out : Nat) (bufsz : BitVec 64) (pieces : List Piece) :
    (printPieces out bufsz pieces).value = BitVec.ofNat 32 (totalCounted pieces) := by
  rw [printPieces, finish, (fold_turn_eq bufsz (start out) pieces).2.2]
  exact BitVec.zero_add _

theorem print_pieces_writes (out : Nat) (bufsz : BitVec 64) (pieces : List Piece) (given : out ≠ 0) :
    (printPieces out bufsz pieces).writes = place out (shownFrom bufsz false 0 pieces ++ [0]) := by
  obtain ⟨lastOut, lastWrites, _⟩ := fold_turn_eq bufsz (start out) pieces
  have keeps : (start out).discard = false := by simpa [start] using given
  rw [keeps] at lastOut lastWrites
  have positive : out + (shownFrom bufsz false 0 pieces).length ≠ 0 := by omega
  rw [printPieces, finish, lastOut, lastWrites, place_append]
  exact if_neg positive

-- Without a buffer the bytes of "%%" still go to memory, from address 0 on.
theorem print_pieces_writes_null (bufsz : BitVec 64) (pieces : List Piece) :
    (printPieces 0 bufsz pieces).writes =
      let shown := shownFrom bufsz true 0 pieces
      place 0 shown ++ if shown.length = 0 then [] else [(shown.length, 0)] := by
  obtain ⟨lastOut, lastWrites, _⟩ := fold_turn_eq bufsz (start 0) pieces
  have drops : (start 0).discard = true := rfl
  have begin : (start 0).out = 0 := rfl
  have printed : (start 0).nPrinted = 0 := rfl
  rw [drops, begin, printed] at lastOut lastWrites
  rw [Nat.zero_add] at lastOut
  rw [printPieces, finish, lastOut, lastWrites]
  by_cases none : (shownFrom bufsz true 0 pieces).length = 0
  · simp only [none, if_true, List.append_nil, start, List.nil_append]
  · simp only [none, if_false, start, List.nil_append]

theorem shown_discarding (bufsz : BitVec 64) (nPrinted : BitVec 32) (pieces : List Piece) :
    shownFrom bufsz true nPrinted pieces = pieces.flatMap Piece.discarded := by
  induction pieces generalizing nPrinted with
  | nil => rfl
  | cons piece rest ih => rw [shownFrom, Bool.true_or, ih, if_pos rfl, List.flatMap_cons]

theorem shown_unbounded (nPrinted : BitVec 32) (pieces : List Piece) :
    shownFrom 0 false nPrinted pieces = written pieces := by
  induction pieces generalizing nPrinted with
  | nil => rfl
  | cons piece rest ih =>
      have never : full 0 (nPrinted + BitVec.ofNat 32 piece.counted) = false := by simp [full]
      rw [shownFrom, never, Bool.or_false, ih, written_cons]
      rfl

theorem full_iff (bufsz : BitVec 64) (nPrinted : BitVec 32) (limit : Nat) (size : bufsz.toNat = limit + 1) :
    full bufsz nPrinted = true ↔ limit ≤ nPrinted.toNat := by
  have positive : (0 : BitVec 64) < bufsz := by
    rw [BitVec.lt_def, size]
    exact Nat.succ_pos limit
  have before : (bufsz - 1).toNat = limit := by
    have bound := bufsz.isLt
    rw [BitVec.toNat_sub, size, show (1 : BitVec 64).toNat = 1 from rfl]
    omega
  have wide : (nPrinted.setWidth 64).toNat = nPrinted.toNat := by
    rw [BitVec.toNat_setWidth, Nat.mod_eq_of_lt]
    exact Nat.lt_trans nPrinted.isLt (by decide)
  simp only [full, positive, decide_true, Bool.true_and, decide_eq_true_eq, BitVec.le_def, before, wide]

end Shown

end Kraftwerk.Print
