import Kraftwerk.Print.Kvsnprintf

set_option autoImplicit false

-- A format that is two formats one behind the other: it is read and printed as the first one and then the second
-- one, with the arguments that the first one has left.
namespace Kraftwerk.Print

open CString

-- The directives with the arguments behind the last one that was taken.
def directivesLeft : Nat → Input → Option (List Directive × List Arg)
  | 0, _ => none
  | fuel + 1, ⟨pos, args⟩ =>
      match pos with
      | [] => some ([], args)
      | cur :: rest =>
          (nextDirective cur rest args).bind (fun (directive, input) =>
            (directivesLeft fuel input).map (fun (read, left) => (directive :: read, left)))

-- What %n stores is what was printed before its own format, too.
def Store.behind (value : BitVec 32) (store : Store) : Store :=
  { store with value := (value.toNat + store.value) % 2 ^ 32 % 2 ^ store.bits }

-- The second text overwrites the NUL of the first one.
def Printed.then (first second : Printed) : Printed :=
  ⟨first.value + second.value, first.writes.dropLast ++ second.writes, first.stores ++ second.stores.map (Store.behind first.value)⟩

-- A reader that has stopped at some character does not see what is behind it.
section Readers

variable (more : List Byte)

theorem read_flags_append (format : Format) (chars : List Byte) (stopped : (readFlags format chars).2 ≠ []) :
    readFlags format (chars ++ more) = ((readFlags format chars).1, (readFlags format chars).2 ++ more) := by
  fun_induction readFlags format chars with
  | case1 format => exact absurd rfl stopped
  | case2 format rest ih => exact (if_pos rfl).trans (ih stopped)
  | case3 format rest minus ih => exact (if_neg minus).trans ((if_pos rfl).trans (ih stopped))
  | case4 format rest minus plus ih => exact (if_neg minus).trans ((if_neg plus).trans ((if_pos rfl).trans (ih stopped)))
  | case5 format rest minus plus space ih =>
      exact (if_neg minus).trans ((if_neg plus).trans ((if_neg space).trans ((if_pos rfl).trans (ih stopped))))
  | case6 format rest minus plus space numer ih =>
      exact (if_neg minus).trans ((if_neg plus).trans ((if_neg space).trans ((if_neg numer).trans ((if_pos rfl).trans (ih stopped)))))
  | case7 format cur rest minus plus space numer zero =>
      rw [List.cons_append, readFlags, if_neg minus, if_neg plus, if_neg space, if_neg numer, if_neg zero]

theorem read_width_append (format next : Format) (chars : List Byte) (args : List Arg) (input : Input)
    (read : readWidth format chars args = some (next, input)) (stopped : input.pos ≠ []) :
    readWidth format (chars ++ more) args = some (next, ⟨input.pos ++ more, input.args⟩) := by
  fun_induction readWidth format chars args with
  | case1 format args =>
      obtain ⟨_, rfl⟩ := Prod.mk.inj (Option.some.inj read)
      exact absurd rfl stopped
  | case2 format cur rest args digit ih =>
      rw [List.cons_append, readWidth, if_pos digit]
      exact ih read
  | case3 format rest args digit =>
      obtain ⟨⟨value, left⟩, taken, same⟩ := Option.map_eq_some_iff.mp read
      obtain ⟨rfl, rfl⟩ := Prod.mk.inj same
      rw [List.cons_append, readWidth, if_neg digit, if_pos rfl, taken, Option.map_some]
  | case4 format cur rest args digit star =>
      obtain ⟨rfl, rfl⟩ := Prod.mk.inj (Option.some.inj read)
      rw [List.cons_append, readWidth, if_neg digit, if_neg star]

theorem read_precision_digits_append (format next : Format) (chars : List Byte) (args : List Arg) (input : Input)
    (read : readPrecisionDigits format chars args = some (next, input)) (stopped : input.pos ≠ []) :
    readPrecisionDigits format (chars ++ more) args = some (next, ⟨input.pos ++ more, input.args⟩) := by
  fun_induction readPrecisionDigits format chars args with
  | case1 format args =>
      obtain ⟨_, rfl⟩ := Prod.mk.inj (Option.some.inj read)
      exact absurd rfl stopped
  | case2 format cur rest args digit ih =>
      rw [List.cons_append, readPrecisionDigits, if_pos digit]
      exact ih read
  | case3 format rest args digit =>
      obtain ⟨⟨value, left⟩, taken, same⟩ := Option.map_eq_some_iff.mp read
      obtain ⟨rfl, rfl⟩ := Prod.mk.inj same
      rw [List.cons_append, readPrecisionDigits, if_neg digit, if_pos rfl, taken, Option.map_some]
  | case4 format cur rest args digit star =>
      obtain ⟨rfl, rfl⟩ := Prod.mk.inj (Option.some.inj read)
      rw [List.cons_append, readPrecisionDigits, if_neg digit, if_neg star]

theorem read_precision_append (format next : Format) (chars : List Byte) (args : List Arg) (after : Input)
    (read : readPrecision format ⟨chars, args⟩ = some (next, after)) (stopped : after.pos ≠ []) :
    readPrecision format ⟨chars ++ more, args⟩ = some (next, ⟨after.pos ++ more, after.args⟩) := by
  cases chars with
  | nil =>
      obtain ⟨_, rfl⟩ := Prod.mk.inj (Option.some.inj read)
      exact absurd rfl stopped
  | cons cur rest =>
      rw [readPrecision] at read
      dsimp only at read
      rw [List.cons_append, readPrecision]
      dsimp only
      by_cases dot : cur = chr '.'
      · rw [if_pos dot] at read ⊢
        obtain ⟨⟨last, reached⟩, digits, same⟩ := Option.map_eq_some_iff.mp read
        obtain ⟨rfl, rfl⟩ := Prod.mk.inj same
        rw [read_precision_digits_append more format last rest args reached digits stopped, Option.map_some]
      · rw [if_neg dot] at read ⊢
        obtain ⟨rfl, rfl⟩ := Prod.mk.inj (Option.some.inj read)
        rfl

theorem doubled_append (letter : Byte) (single double : Length) (chars : List Byte) (stopped : (doubled letter single double chars).2 ≠ []) :
    doubled letter single double (chars ++ more) =
      ((doubled letter single double chars).1, (doubled letter single double chars).2 ++ more) := by
  cases chars with
  | nil => exact absurd rfl stopped
  | cons cur rest =>
      rw [List.cons_append, doubled, doubled]
      split <;> rfl

theorem read_length_append (chars : List Byte) (stopped : (readLength chars).2 ≠ []) :
    readLength (chars ++ more) = ((readLength chars).1, (readLength chars).2 ++ more) := by
  cases chars with
  | nil => exact absurd rfl stopped
  | cons cur rest =>
      rw [readLength] at stopped
      rw [List.cons_append, readLength, readLength]
      by_cases isH : cur = chr 'h'
      · rw [if_pos isH] at stopped ⊢
        rw [if_pos isH]
        exact doubled_append more _ _ _ rest stopped
      by_cases isL : cur = chr 'l'
      · rw [if_neg isH, if_pos isL] at stopped ⊢
        rw [if_neg isH, if_pos isL]
        exact doubled_append more _ _ _ rest stopped
      rw [if_neg isH, if_neg isH, if_neg isL, if_neg isL]
      split_ifs <;> rfl

-- Up to its specifier a directive has some characters left to read.
theorem read_conversion_append (chars : List Byte) (args : List Arg) (directive : Directive) (input : Input)
    (read : readConversion ⟨chars, args⟩ = some (directive, input)) :
    readConversion ⟨chars ++ more, args⟩ = some (directive, ⟨input.pos ++ more, input.args⟩) := by
  obtain ⟨⟨format, atPrecision⟩, width, afterWidth⟩ := Option.bind_eq_some_iff.mp read
  obtain ⟨⟨next, atLength⟩, precision, afterPrecision⟩ := Option.bind_eq_some_iff.mp afterWidth
  dsimp only at width precision afterPrecision
  cases left : (readLength atLength.pos).2 with
  | nil => simp only [left, reduceCtorEq] at afterPrecision
  | cons specifier rest =>
      rw [left] at afterPrecision
      obtain ⟨found, specified, same⟩ := Option.map_eq_some_iff.mp afterPrecision
      obtain ⟨rfl, rfl⟩ := Prod.mk.inj same
      have widthLength := read_width_length _ _ _ _ _ width
      have precisionLength := read_precision_length _ _ _ _ precision
      have lengthLength := read_length_length atLength.pos
      rw [left, List.length_cons] at lengthLength
      have flagsLeft : (readFlags {} chars).2 ≠ [] := List.length_pos_iff.mp (by omega)
      have widthLeft : atPrecision.pos ≠ [] := List.length_pos_iff.mp (by omega)
      have precisionLeft : atLength.pos ≠ [] := List.length_pos_iff.mp (by omega)
      have lengthLeft : (readLength atLength.pos).2 ≠ [] := by rw [left]; exact List.cons_ne_nil _ _
      rw [readConversion]
      dsimp only
      rw [read_flags_append more {} chars flagsLeft]
      dsimp only
      rw [read_width_append more _ _ _ _ _ width widthLeft, Option.bind_some,
        read_precision_append more _ _ _ _ _ precision precisionLeft, Option.bind_some, read_length_append more _ lengthLeft, left]
      dsimp only [List.cons_append]
      rw [specified, Option.map_some]

theorem next_directive_append (cur : Byte) (rest : List Byte) (args : List Arg) (directive : Directive) (input : Input)
    (next : nextDirective cur rest args = some (directive, input)) :
    nextDirective cur (rest ++ more) args = some (directive, ⟨input.pos ++ more, input.args⟩) := by
  rw [nextDirective] at next ⊢
  by_cases percent : cur = chr '%'
  · rw [if_pos percent] at next ⊢
    cases rest with
    | nil => cases next
    | cons first tail =>
        by_cases double : first = chr '%'
        · rw [List.head?_cons, if_pos (congrArg some double)] at next
          obtain ⟨rfl, rfl⟩ := Prod.mk.inj (Option.some.inj next)
          rw [List.cons_append, List.head?_cons, if_pos (congrArg some double)]
          rfl
        · rw [List.head?_cons, if_neg (fun same => double (Option.some.inj same))] at next
          rw [List.cons_append, List.head?_cons, if_neg (fun same => double (Option.some.inj same)), ← List.cons_append]
          exact read_conversion_append more _ args directive input next
  · rw [if_neg percent] at next ⊢
    obtain ⟨rfl, rfl⟩ := Prod.mk.inj (Option.some.inj next)
    rfl

theorem directives_append (fuel enough : Nat) (input : Input) (read : List Directive) (left : List Arg)
    (done : directivesLeft fuel input = some (read, left)) (room : input.pos.length + more.length < enough) :
    directivesFrom enough ⟨input.pos ++ more, input.args⟩ = (directivesFrom (more.length + 1) ⟨more, left⟩).map (read ++ ·) := by
  induction fuel generalizing enough input read with
  | zero => cases done
  | succ fuel ih =>
      obtain ⟨pos, args⟩ := input
      cases pos with
      | nil =>
          obtain ⟨rfl, rfl⟩ := Prod.mk.inj (Option.some.inj done)
          rw [List.nil_append, directives_from_enough (more.length + 1) enough ⟨more, args⟩ (Nat.lt_succ_self _)
            ((Nat.zero_add more.length).symm.trans_lt room)]
          exact Option.map_id'.symm
      | cons cur rest =>
          obtain ⟨⟨directive, input⟩, next, later⟩ := Option.bind_eq_some_iff.mp done
          obtain ⟨⟨others, last⟩, laterDone, same⟩ := Option.map_eq_some_iff.mp later
          obtain ⟨rfl, rfl⟩ := Prod.mk.inj same
          have shorter := next_directive_length cur rest args directive input next
          rw [List.length_cons] at room
          obtain ⟨enough, rfl⟩ : ∃ before, enough = before + 1 := ⟨enough - 1, by omega⟩
          rw [List.cons_append, directivesFrom]
          dsimp only
          rw [next_directive_append more cur rest args directive input next, Option.bind_some]
          dsimp only
          rw [ih enough input others laterDone (by omega), Option.map_map]
          rfl

theorem directives_left (fuel : Nat) (input : Input) : (directivesLeft fuel input).map Prod.fst = directivesFrom fuel input := by
  induction fuel generalizing input with
  | zero => rfl
  | succ fuel ih =>
      obtain ⟨pos, args⟩ := input
      cases pos with
      | nil => rfl
      | cons cur rest =>
          rw [directivesLeft, directivesFrom]
          dsimp only
          rw [Option.map_bind]
          refine Option.bind_congr (fun read _ => ?_)
          rw [← ih read.2, Function.comp_apply, Option.map_map, Option.map_map]
          rfl

end Readers

theorem convert_all_append (usable : Nat → Nat) (old : Nat → List Byte) (first second : List Directive) :
    convertAll usable old (first ++ second) = (convertAll usable old first).bind (fun pieces =>
      (convertAll usable (fun index => old (index + first.length)) second).map (pieces ++ ·)) := by
  induction first generalizing old with
  | nil => exact Option.map_id'.symm
  | cons directive rest ih =>
      rw [List.cons_append, convertAll, convertAll, Option.bind_assoc]
      refine Option.bind_congr (fun piece _ => ?_)
      rw [ih, Option.map_bind, Option.bind_map]
      refine Option.bind_congr (fun pieces _ => ?_)
      rw [Function.comp_apply, Function.comp_apply, Option.map_map, List.length_cons]
      rfl

-- Nothing that a conversion does depends on what was printed before it, but for what %n stores.
section Behind

def Cursor.behind (before cursor : Cursor) : Cursor :=
  ⟨cursor.out, cursor.discard, before.nPrinted + cursor.nPrinted, before.writes ++ cursor.writes,
    before.stores ++ cursor.stores.map (Store.behind before.nPrinted)⟩

def Cursor.rest (cursor : Cursor) : Cursor := ⟨cursor.out, cursor.discard, 0, [], []⟩

theorem behind_rest (cursor : Cursor) : cursor.behind cursor.rest = cursor := by
  obtain ⟨out, discard, nPrinted, writes, stores⟩ := cursor
  simp [Cursor.behind, Cursor.rest]

theorem store_behind (before printed : BitVec 32) (length : Length) (target : Nat) :
    Store.behind before ⟨target, countBits length, printed.toNat % 2 ^ countBits length⟩ =
      ⟨target, countBits length, (before + printed).toNat % 2 ^ countBits length⟩ := by
  have bound := printed.isLt
  rw [Store.behind, BitVec.toNat_add]
  cases length <;> simp only [countBits, Store.mk.injEq, true_and] <;> omega

theorem emit_behind (before cursor : Cursor) (piece : Piece) : emit (before.behind cursor) piece = before.behind (emit cursor piece) := by
  cases piece with
  | nothing => rfl
  | count length target =>
      simp only [emit, Cursor.behind, List.map_append, List.map_cons, List.map_nil, store_behind, List.append_assoc]
  | percent => simp only [emit, Cursor.copy, Cursor.behind, List.append_assoc]
  | char cur | text final =>
      cases discard : cursor.discard <;>
        simp [emit, Cursor.print, Cursor.copy, Cursor.behind, discard, BitVec.add_assoc]

theorem turn_behind (before cursor : Cursor) (piece : Piece) :
    turn 0 (before.behind cursor) piece = before.behind (turn 0 cursor piece) := by
  have never : ∀ printed : BitVec 32, full 0 printed = false := fun printed => by simp [full]
  rw [turn, turn, emit_behind, never, never, Bool.or_false, Bool.or_false]

theorem fold_turn_behind (before cursor : Cursor) (pieces : List Piece) :
    pieces.foldl (turn 0) (before.behind cursor) = before.behind (pieces.foldl (turn 0) cursor) := by
  induction pieces generalizing cursor with
  | nil => rfl
  | cons piece rest ih => rw [List.foldl_cons, turn_behind, ih, List.foldl_cons]

end Behind

theorem fold_turn_discard (cursor : Cursor) (pieces : List Piece) :
    (pieces.foldl (turn 0) cursor).discard = cursor.discard := by
  induction pieces generalizing cursor with
  | nil => rfl
  | cons piece rest ih =>
      have never : ∀ printed : BitVec 32, full 0 printed = false := fun printed => by simp [full]
      rw [List.foldl_cons, ih, (turn_eq 0 cursor piece).2.2.2, never, Bool.or_false]

theorem finish_behind (before cursor : Cursor) (given : before.out ≠ 0) (further : cursor.out ≠ 0) :
    finish (before.behind cursor) = (finish before).then (finish cursor) := by
  have reached : (before.behind cursor).out ≠ 0 := further
  rw [finish, finish, finish, if_neg given, if_neg further, if_neg reached, Printed.then, List.dropLast_concat]
  simp only [Cursor.behind, List.append_assoc]

theorem place_length (address : Nat) (bytes : List Byte) : (place address bytes).length = bytes.length := by
  induction bytes generalizing address with
  | nil => rfl
  | cons cur rest ih => rw [place, List.length_cons, ih, List.length_cons]

theorem print_pieces_append (out : Nat) (first second : List Piece) (given : out ≠ 0) :
    printPieces out 0 (first ++ second) =
      (printPieces out 0 first).then (printPieces (out + ((printPieces out 0 first).writes.length - 1)) 0 second) := by
  have keeps : (start out).discard = false := by simpa [start] using given
  have reached := (fold_turn_eq 0 (start out) first).1
  rw [keeps] at reached
  have stays := (fold_turn_discard (start out) first).trans keeps
  rw [print_pieces_writes out 0 first given, place_length, List.length_append, List.length_singleton, Nat.add_sub_cancel]
  rw [printPieces, printPieces, printPieces, List.foldl_append]
  generalize first.foldl (turn 0) (start out) = middle at reached stays ⊢
  have further : middle.out ≠ 0 := reached ▸ Nat.ne_of_gt (Nat.lt_of_lt_of_le (Nat.pos_of_ne_zero given) (Nat.le_add_right _ _))
  have same : middle.rest = start (out + (shownFrom 0 false 0 first).length) := by
    rw [Cursor.rest, start, stays, reached, decide_eq_false (reached ▸ further)]
    rfl
  have onward : ((second.foldl (turn 0) middle.rest)).out ≠ 0 := by
    rw [(fold_turn_eq 0 middle.rest second).1]
    exact Nat.ne_of_gt (Nat.lt_of_lt_of_le (Nat.pos_of_ne_zero further) (Nat.le_add_right _ _))
  rw [← same, ← finish_behind middle _ further onward, ← fold_turn_behind, behind_rest]

theorem kvsnprintf_unread (usable : Nat → Nat) (old : Nat → List Byte) (out : Nat) (fmt : Str) (args : List Arg)
    (unread : directives fmt args = none) : kvsnprintf usable old out 0 fmt args = none := by
  rw [kvsnprintf, print_loop_eq, show directivesFrom _ _ = none from unread, Option.bind_none, Option.map_none]

-- The second format takes the arguments that the first one has left, and prints from the NUL of the first text on.
theorem kvsnprintf_append (usable : Nat → Nat) (old : Nat → List Byte) (out : Nat) (first second : Str) (args left : List Arg)
    (read : List Directive) (given : out ≠ 0) (done : directivesLeft (first.chars.length + 1) ⟨first.chars, args⟩ = some (read, left)) :
    kvsnprintf usable old out 0 (first.append second) args = (kvsnprintf usable old out 0 first args).bind (fun printed =>
      (kvsnprintf usable (fun index => old (index + read.length)) (out + (printed.writes.length - 1)) 0 second left).map
        printed.then) := by
  have alone : directives first args = some read := by
    rw [directives, ← directives_left, done]
    rfl
  have both : directives (first.append second) args = (directives second left).map (read ++ ·) :=
    directives_append second.chars _ _ ⟨first.chars, args⟩ read left done
      (Nat.lt_succ_of_le (Nat.le_of_eq List.length_append.symm))
  rw [kvsnprintf_eq usable old out 0 first args read alone]
  cases matching : directives second left with
  | none =>
      rw [matching] at both
      rw [kvsnprintf_unread usable old out _ args both]
      refine (Option.bind_eq_none_iff.mpr (fun printed _ => ?_)).symm
      rw [kvsnprintf_unread usable _ _ second left matching, Option.map_none]
  | some found =>
      rw [matching] at both
      rw [kvsnprintf_eq usable old out 0 _ args _ both, convert_all_append, Option.bind_map, Option.map_bind]
      refine Option.bind_congr (fun pieces _ => ?_)
      rw [Function.comp_apply, Function.comp_apply, kvsnprintf_eq usable _ _ 0 second left found matching, Option.map_map, Option.map_map]
      exact congrArg (Option.map · _) (funext (fun others => print_pieces_append out pieces others given))

theorem count_behind_number :
    kvsnprintf (fun request => max request 16) (fun _ => []) 0x4000 0 ((Str.literal "n=%d").append (Str.literal "!%n"))
        [.word 42, .target 0x9000] =
      (kvsnprintf (fun request => max request 16) (fun _ => []) 0x4000 0 (Str.literal "n=%d") [.word 42, .target 0x9000]).bind (fun printed =>
        (kvsnprintf (fun request => max request 16) (fun _ => []) (0x4000 + (printed.writes.length - 1)) 0 (Str.literal "!%n")
          [.target 0x9000]).map printed.then) :=
  kvsnprintf_append (fun request => max request 16) (fun _ => []) 0x4000 (Str.literal "n=%d") (Str.literal "!%n") [.word 42, .target 0x9000]
    [.target 0x9000] [.plain (chr 'n'), .plain (chr '='), .number { precision := 6 } ⟨32, true⟩ 10 42] (by decide) (by decide)

end Kraftwerk.Print
