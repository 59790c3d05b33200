import Kraftwerk.Lib.Loops
import Kraftwerk.Print.Grammar

set_option autoImplicit false

-- The reads that kvsnprintf makes of its format, one after the other, in the memory from fmt on.
namespace Kraftwerk.Print

open CString

-- The places of the code that read *pos.
inductive ScanLabel where
  | loop | percent | flags | width | point | precision | length | doubled (letter : Byte) | specifier
deriving DecidableEq

structure ScanState where
  label : ScanLabel
  pos : Nat
deriving DecidableEq

def isFlag (cur : Byte) : Bool :=
  cur == chr '-' || cur == chr '+' || cur == chr ' ' || cur == chr '#' || cur == chr '0'

-- One read of *pos and where the code goes from there; none where the main loop ends.
-- At a NUL the while loops of the directive end as they do at a character they do not know.
def scanStep (fmt : Nat → Byte) : ScanState → Option ScanState
  | ⟨.loop, pos⟩ =>
      if fmt pos = 0 then none else if fmt pos = chr '%' then some ⟨.percent, pos + 1⟩ else some ⟨.loop, pos + 1⟩
  | ⟨.percent, pos⟩ => if fmt pos = chr '%' then some ⟨.loop, pos + 1⟩ else some ⟨.flags, pos⟩
  | ⟨.flags, pos⟩ => if isFlag (fmt pos) then some ⟨.flags, pos + 1⟩ else some ⟨.width, pos⟩
  | ⟨.width, pos⟩ =>
      if isDigit (fmt pos) then some ⟨.width, pos + 1⟩
      else if fmt pos = chr '*' then some ⟨.point, pos + 1⟩ else some ⟨.point, pos⟩
  | ⟨.point, pos⟩ => if fmt pos = chr '.' then some ⟨.precision, pos + 1⟩ else some ⟨.length, pos⟩
  -- a star here goes to read_length as every other character does
  | ⟨.precision, pos⟩ => if isDigit (fmt pos) then some ⟨.precision, pos + 1⟩ else some ⟨.length, pos⟩
  | ⟨.length, pos⟩ =>
      if fmt pos = chr 'h' ∨ fmt pos = chr 'l' then some ⟨.doubled (fmt pos), pos + 1⟩
      else if fmt pos = chr 'j' ∨ fmt pos = chr 'z' ∨ fmt pos = chr 't' ∨ fmt pos = chr 'L' then some ⟨.specifier, pos + 1⟩
      else some ⟨.specifier, pos⟩
  | ⟨.doubled letter, pos⟩ => if fmt pos = letter then some ⟨.specifier, pos + 1⟩ else some ⟨.specifier, pos⟩
  -- end_specifier moves on behind any specifier
  | ⟨.specifier, pos⟩ => some ⟨.loop, pos + 1⟩

structure StopsAtTerminator (fmt : Nat → Byte) (terminator : Nat) : Prop where
  ends : ∃ turns, Loops.after (scanStep fmt) turns ⟨.loop, 0⟩ = none
  reads : ∀ turns state, Loops.after (scanStep fmt) turns ⟨.loop, 0⟩ = some state → state.pos ≤ terminator

-- [flags][width][.precision][length], what a directive has before its specifier.
structure Front where
  flags : List Flag
  digits : List (Fin 10)
  star : Bool
  precision : Option (List (Fin 10))
  length : Length

def Front.chars (front : Front) : List Byte :=
  front.flags.map Flag.char ++ (front.digits.map digitChar ++ ((if front.star then [chr '*'] else []) ++
    ((front.precision.map (fun digits => chr '.' :: digits.map digitChar)).getD [] ++ lengthText front.length)))

-- A format made of plain characters and of directives with their specifiers: the longest
-- front behind a '%' is not the end of the format.
inductive Whole : List Byte → Prop where
  | nil : Whole []
  | plain (cur : Byte) (rest : List Byte) (other : cur ≠ chr '%') (whole : Whole rest) : Whole (cur :: rest)
  | directive (front : Front) (specifier : Byte) (rest : List Byte)
      (longest : ∀ longer : Front, longer.chars ≠ front.chars ++ [specifier]) (whole : Whole rest) :
      Whole (chr '%' :: (front.chars ++ specifier :: rest))

section Labels

def takesLength (cur : Byte) : Option ScanLabel :=
  if cur = chr 'h' ∨ cur = chr 'l' then some (.doubled cur)
  else if cur = chr 'j' ∨ cur = chr 'z' ∨ cur = chr 't' ∨ cur = chr 'L' then some .specifier
  else none

def takesPoint (cur : Byte) : Option ScanLabel := if cur = chr '.' then some .precision else takesLength cur

def takesWidth (cur : Byte) : Option ScanLabel :=
  if isDigit cur then some .width else if cur = chr '*' then some .point else takesPoint cur

def takesFlags (cur : Byte) : Option ScanLabel := if isFlag cur then some .flags else takesWidth cur

-- Where the scan is behind a character of the front; none where the character is the specifier.
def takes : ScanLabel → Byte → Option ScanLabel
  | .loop, _ => none
  | .percent, cur => takesFlags cur
  | .flags, cur => takesFlags cur
  | .width, cur => takesWidth cur
  | .point, cur => takesPoint cur
  | .precision, cur => if isDigit cur then some .precision else takesLength cur
  | .length, cur => takesLength cur
  | .doubled letter, cur => if cur = letter then some .specifier else none
  | .specifier, _ => none

def takesAll (label : ScanLabel) (chars : List Byte) : Option ScanLabel := chars.foldlM takes label

variable (fmt : Nat → Byte) (pos : Nat)

def LeadsTo (first last : ScanState) : Prop := Loops.Leads (scanStep fmt) (fun state => state.pos < last.pos) first last

def landing (taken : Option ScanLabel) : ScanState := ⟨taken.getD .loop, pos + 1⟩

variable {fmt pos}

theorem leads_trans {first middle last : ScanState} (front : LeadsTo fmt first middle) (back : LeadsTo fmt middle last)
    (further : middle.pos ≤ last.pos) : LeadsTo fmt first last :=
  (Loops.leads_mono (fun _ before => Nat.lt_of_lt_of_le before further) front).trans back

variable (fmt pos)

theorem specifier_leads : LeadsTo fmt ⟨.specifier, pos⟩ (landing pos none) :=
  Loops.leads_step (Nat.lt_succ_self pos) rfl

-- Without a move of pos the next label reads the same character again.
theorem stays_leads (label next : ScanLabel) (taken : Option ScanLabel) (stepped : scanStep fmt ⟨label, pos⟩ = some ⟨next, pos⟩)
    (later : LeadsTo fmt ⟨next, pos⟩ (landing pos taken)) : LeadsTo fmt ⟨label, pos⟩ (landing pos taken) :=
  Relation.ReflTransGen.head ⟨Nat.lt_succ_self pos, stepped⟩ later

theorem length_leads : LeadsTo fmt ⟨.length, pos⟩ (landing pos (takesLength (fmt pos))) := by
  rw [takesLength]
  by_cases double : fmt pos = chr 'h' ∨ fmt pos = chr 'l'
  · rw [if_pos double]
    exact Loops.leads_step (Nat.lt_succ_self pos) (by rw [scanStep, if_pos double]; rfl)
  · rw [if_neg double]
    by_cases single : fmt pos = chr 'j' ∨ fmt pos = chr 'z' ∨ fmt pos = chr 't' ∨ fmt pos = chr 'L'
    · rw [if_pos single]
      exact Loops.leads_step (Nat.lt_succ_self pos) (by rw [scanStep, if_neg double, if_pos single]; rfl)
    · rw [if_neg single]
      exact stays_leads fmt pos .length .specifier none (by rw [scanStep, if_neg double, if_neg single]) (specifier_leads fmt pos)

theorem point_leads : LeadsTo fmt ⟨.point, pos⟩ (landing pos (takesPoint (fmt pos))) := by
  rw [takesPoint]
  by_cases dot : fmt pos = chr '.'
  · rw [if_pos dot]
    exact Loops.leads_step (Nat.lt_succ_self pos) (by rw [scanStep, if_pos dot]; rfl)
  · rw [if_neg dot]
    exact stays_leads fmt pos .point .length _ (by rw [scanStep, if_neg dot]) (length_leads fmt pos)

theorem width_leads : LeadsTo fmt ⟨.width, pos⟩ (landing pos (takesWidth (fmt pos))) := by
  rw [takesWidth]
  by_cases digit : isDigit (fmt pos) = true
  · rw [if_pos digit]
    exact Loops.leads_step (Nat.lt_succ_self pos) (by rw [scanStep, if_pos digit]; rfl)
  · rw [if_neg digit]
    by_cases star : fmt pos = chr '*'
    · rw [if_pos star]
      exact Loops.leads_step (Nat.lt_succ_self pos) (by rw [scanStep, if_neg digit, if_pos star]; rfl)
    · rw [if_neg star]
      exact stays_leads fmt pos .width .point _ (by rw [scanStep, if_neg digit, if_neg star]) (point_leads fmt pos)

theorem flags_leads : LeadsTo fmt ⟨.flags, pos⟩ (landing pos (takesFlags (fmt pos))) := by
  rw [takesFlags]
  by_cases flag : isFlag (fmt pos) = true
  · rw [if_pos flag]
    exact Loops.leads_step (Nat.lt_succ_self pos) (by rw [scanStep, if_pos flag]; rfl)
  · rw [if_neg flag]
    exact stays_leads fmt pos .flags .width _ (by rw [scanStep, if_neg flag]) (width_leads fmt pos)

-- Inside a directive every character moves pos on by one, the specifier back to the main loop.
theorem takes_leads (label : ScanLabel) (inside : label ≠ .loop) :
    LeadsTo fmt ⟨label, pos⟩ (landing pos (takes label (fmt pos))) := by
  cases label with
  | loop => exact absurd rfl inside
  | percent =>
      by_cases percent : fmt pos = chr '%'
      · have taken : takes .percent (fmt pos) = none := by rw [percent]; decide
        rw [taken]
        exact Loops.leads_step (Nat.lt_succ_self pos) (by rw [scanStep, if_pos percent]; rfl)
      · exact stays_leads fmt pos .percent .flags _ (by rw [scanStep, if_neg percent]) (flags_leads fmt pos)
  | flags => exact flags_leads fmt pos
  | width => exact width_leads fmt pos
  | point => exact point_leads fmt pos
  | precision =>
      rw [takes]
      by_cases digit : isDigit (fmt pos) = true
      · rw [if_pos digit]
        exact Loops.leads_step (Nat.lt_succ_self pos) (by rw [scanStep, if_pos digit]; rfl)
      · rw [if_neg digit]
        exact stays_leads fmt pos .precision .length _ (by rw [scanStep, if_neg digit]) (length_leads fmt pos)
  | length => exact length_leads fmt pos
  | doubled letter =>
      rw [takes]
      by_cases double : fmt pos = letter
      · rw [if_pos double]
        exact Loops.leads_step (Nat.lt_succ_self pos) (by rw [scanStep, if_pos double]; rfl)
      · rw [if_neg double]
        exact stays_leads fmt pos (.doubled letter) .specifier none (by rw [scanStep, if_neg double]) (specifier_leads fmt pos)
  | specifier => exact specifier_leads fmt pos

theorem takes_inside (label next : ScanLabel) (cur : Byte) (taken : takes label cur = some next) : next ≠ .loop := by
  rintro rfl
  cases label <;> simp [takes, takesFlags, takesWidth, takesPoint, takesLength] at taken <;> grind

theorem front_leads (label next : ScanLabel) (chars : List Byte) (inside : label ≠ .loop) (spelled : Spells fmt pos chars)
    (taken : takesAll label chars = some next) : LeadsTo fmt ⟨label, pos⟩ ⟨next, pos + chars.length⟩ ∧ next ≠ .loop := by
  induction chars generalizing label pos with
  | nil =>
      obtain rfl := Option.some.inj taken
      exact ⟨Relation.ReflTransGen.refl, inside⟩
  | cons cur rest ih =>
      obtain ⟨rfl, spelledRest⟩ := spelled
      obtain ⟨middle, first, later⟩ := Option.bind_eq_some_iff.mp taken
      have step := takes_leads fmt pos label inside
      rw [first] at step
      obtain ⟨leads, stillInside⟩ := ih (pos + 1) middle (takes_inside label middle _ first) spelledRest later
      rw [Nat.add_right_comm, Nat.add_assoc] at leads
      exact ⟨leads_trans step leads (Nat.add_le_add_left (Nat.succ_le_succ (Nat.zero_le _)) pos), stillInside⟩

end Labels

section Fronts

theorem takes_all_append (label : ScanLabel) (front back : List Byte) :
    takesAll label (front ++ back) = (takesAll label front).bind (takesAll · back) := List.foldlM_append ..

theorem takes_all_cons (label : ScanLabel) (cur : Byte) (rest : List Byte) :
    takesAll label (cur :: rest) = (takes label cur).bind (takesAll · rest) := rfl

-- The labels before a flag, before a digit of the width, before the '.' and before the length.
def AtFlags (label : ScanLabel) : Prop := label = .percent ∨ label = .flags
def AtWidth (label : ScanLabel) : Prop := AtFlags label ∨ label = .width
def AtPoint (label : ScanLabel) : Prop := AtWidth label ∨ label = .point
def AtLength (label : ScanLabel) : Prop := AtPoint label ∨ label = .precision

theorem flags_taken (label : ScanLabel) (flags : List Flag) (here : AtFlags label) :
    ∃ next, takesAll label (flags.map Flag.char) = some next ∧ AtFlags next := by
  induction flags generalizing label with
  | nil => exact ⟨label, rfl, here⟩
  | cons flag rest ih =>
      have taken : takes label flag.char = some .flags := by
        rcases here with rfl | rfl <;> cases flag <;> decide
      rw [List.map_cons, takes_all_cons, taken]
      exact ih .flags (.inr rfl)

theorem digits_taken (label : ScanLabel) (digits : List (Fin 10)) (here : AtWidth label) :
    ∃ next, takesAll label (digits.map digitChar) = some next ∧ AtWidth next := by
  induction digits generalizing label with
  | nil => exact ⟨label, rfl, here⟩
  | cons digit rest ih =>
      have taken : takes label (digitChar digit) = some .flags ∨ takes label (digitChar digit) = some .width := by
        rcases here with (rfl | rfl) | rfl <;> revert digit <;> decide
      rw [List.map_cons, takes_all_cons]
      rcases taken with flag | width
      · rw [flag]
        exact ih .flags (.inl (.inr rfl))
      · rw [width]
        exact ih .width (.inr rfl)

theorem star_taken (label : ScanLabel) (star : Bool) (here : AtWidth label) :
    ∃ next, takesAll label (if star then [chr '*'] else []) = some next ∧ AtPoint next := by
  cases star with
  | false => exact ⟨label, rfl, .inl here⟩
  | true =>
      have taken : takes label (chr '*') = some .point := by
        rcases here with (rfl | rfl) | rfl <;> decide
      exact ⟨.point, by rw [if_pos rfl, takes_all_cons, taken]; rfl, .inr rfl⟩

theorem precision_digits_taken (digits : List (Fin 10)) : takesAll .precision (digits.map digitChar) = some .precision := by
  induction digits with
  | nil => rfl
  | cons digit rest ih =>
      have taken : takes .precision (digitChar digit) = some .precision := by
        revert digit
        decide
      rw [List.map_cons, takes_all_cons, taken]
      exact ih

theorem precision_taken (label : ScanLabel) (precision : Option (List (Fin 10))) (here : AtPoint label) :
    ∃ next, takesAll label ((precision.map (fun digits => chr '.' :: digits.map digitChar)).getD []) = some next ∧ AtLength next := by
  cases precision with
  | none => exact ⟨label, rfl, .inl here⟩
  | some digits =>
      have taken : takes label (chr '.') = some .precision := by
        rcases here with ((rfl | rfl) | rfl) | rfl <;> decide
      refine ⟨.precision, ?_, .inr rfl⟩
      rw [Option.map_some, Option.getD_some, takes_all_cons, taken]
      exact precision_digits_taken digits

theorem length_taken (label : ScanLabel) (length : Length) (here : AtLength label) :
    ∃ next, takesAll label (lengthText length) = some next := by
  rcases here with (((rfl | rfl) | rfl) | rfl) | rfl <;> cases length <;> exact ⟨_, rfl⟩

theorem front_taken (front : Front) : ∃ label, takesAll .percent front.chars = some label := by
  obtain ⟨first, flags, atWidth⟩ := flags_taken .percent front.flags (.inl rfl)
  obtain ⟨second, digits, atStar⟩ := digits_taken first front.digits (.inl atWidth)
  obtain ⟨third, star, atPoint⟩ := star_taken second front.star atStar
  obtain ⟨fourth, precision, atLength⟩ := precision_taken third front.precision atPoint
  obtain ⟨last, length⟩ := length_taken fourth front.length atLength
  refine ⟨last, ?_⟩
  rw [Front.chars, takes_all_append, flags, Option.bind_some, takes_all_append, digits, Option.bind_some, takes_all_append, star,
    Option.bind_some, takes_all_append, precision, Option.bind_some, length]

theorem front_nonzero (front : Front) (c : Byte) (member : c ∈ front.chars) : c ≠ 0 := by
  have digits : ∀ digits : List (Fin 10), ∀ c ∈ digits.map digitChar, c ≠ 0 := by
    intro digits c inside
    obtain ⟨digit, _, rfl⟩ := List.mem_map.mp inside
    have nonzero : ∀ digit, digitChar digit ≠ 0 := by decide
    exact nonzero digit
  rcases List.mem_append.mp member with inside | inside
  · obtain ⟨flag, _, rfl⟩ := List.mem_map.mp inside
    cases flag <;> decide
  rcases List.mem_append.mp inside with inside | inside
  · exact digits front.digits c inside
  rcases List.mem_append.mp inside with inside | inside
  · split at inside
    · rw [List.mem_singleton.mp inside]
      decide
    · exact absurd inside List.not_mem_nil
  rcases List.mem_append.mp inside with inside | inside
  · cases point : front.precision with
    | none =>
        rw [point] at inside
        exact absurd inside List.not_mem_nil
    | some after =>
        rw [point] at inside
        rcases List.mem_cons.mp inside with rfl | inside
        · decide
        · exact digits after c inside
  · exact length_text_nonzero front.length c inside

theorem flag_char (cur : Byte) (flag : isFlag cur = true) : ∃ flag : Flag, cur = flag.char := by
  simp only [isFlag, Bool.or_eq_true, beq_iff_eq] at flag
  rcases flag with (((rfl | rfl) | rfl) | rfl) | rfl
  · exact ⟨.minus, rfl⟩
  · exact ⟨.plus, rfl⟩
  · exact ⟨.space, rfl⟩
  · exact ⟨.numer, rfl⟩
  · exact ⟨.zero, rfl⟩

theorem digit_char (cur : Byte) (digit : isDigit cur = true) : ∃ digit : Fin 10, cur = digitChar digit := by
  revert cur
  decide

theorem taken_specifier (chars : List Byte) (label : ScanLabel) (taken : takesAll .specifier chars = some label) : chars = [] := by
  cases chars with
  | nil => rfl
  | cons cur rest => cases taken

theorem taken_doubled (letter : Byte) (chars : List Byte) (label : ScanLabel) (taken : takesAll (.doubled letter) chars = some label) :
    chars = [] ∨ chars = [letter] := by
  cases chars with
  | nil => exact .inl rfl
  | cons cur rest =>
      obtain ⟨middle, first, later⟩ := Option.bind_eq_some_iff.mp taken
      rw [takes] at first
      split at first
      · rename_i same
        obtain rfl := Option.some.inj first
        rw [taken_specifier rest label later, same]
        exact .inr rfl
      · cases first

theorem taken_length (cur : Byte) (rest : List Byte) (middle label : ScanLabel) (first : takesLength cur = some middle)
    (later : takesAll middle rest = some label) : ∃ length, cur :: rest = lengthText length := by
  rw [takesLength] at first
  split at first
  · rename_i double
    obtain rfl := Option.some.inj first
    rcases taken_doubled cur rest label later with rfl | rfl <;> rcases double with rfl | rfl
    · exact ⟨.h, rfl⟩
    · exact ⟨.l, rfl⟩
    · exact ⟨.hh, rfl⟩
    · exact ⟨.ll, rfl⟩
  · split at first
    · rename_i single
      obtain rfl := Option.some.inj first
      rw [taken_specifier rest label later]
      rcases single with rfl | rfl | rfl | rfl
      · exact ⟨.j, rfl⟩
      · exact ⟨.z, rfl⟩
      · exact ⟨.t, rfl⟩
      · exact ⟨.L, rfl⟩
    · cases first

theorem taken_precision (chars : List Byte) (label : ScanLabel) (taken : takesAll .precision chars = some label) :
    ∃ (digits : List (Fin 10)) (length : Length), chars = digits.map digitChar ++ lengthText length := by
  induction chars with
  | nil => exact ⟨[], .none, rfl⟩
  | cons cur rest ih =>
      obtain ⟨middle, first, later⟩ := Option.bind_eq_some_iff.mp taken
      rw [takes] at first
      split at first
      · rename_i isOne
        obtain rfl := Option.some.inj first
        obtain ⟨digit, rfl⟩ := digit_char cur isOne
        obtain ⟨digits, length, rfl⟩ := ih later
        exact ⟨digit :: digits, length, rfl⟩
      · obtain ⟨length, same⟩ := taken_length cur rest middle label first later
        exact ⟨[], length, same⟩

theorem taken_point (chars : List Byte) (label : ScanLabel) (taken : takesAll .point chars = some label) :
    ∃ (precision : Option (List (Fin 10))) (length : Length),
      chars = (precision.map (fun digits => chr '.' :: digits.map digitChar)).getD [] ++ lengthText length := by
  cases chars with
  | nil => exact ⟨none, .none, rfl⟩
  | cons cur rest =>
      obtain ⟨middle, first, later⟩ := Option.bind_eq_some_iff.mp taken
      rw [takes, takesPoint] at first
      split at first
      · rename_i dot
        obtain rfl := Option.some.inj first
        obtain ⟨digits, length, rfl⟩ := taken_precision rest label later
        exact ⟨some digits, length, by rw [dot]; rfl⟩
      · obtain ⟨length, same⟩ := taken_length cur rest middle label first later
        exact ⟨none, length, same⟩

-- A front without flags.
theorem taken_width (chars : List Byte) (label : ScanLabel) (taken : takesAll .width chars = some label) :
    ∃ front : Front, front.flags = [] ∧ front.chars = chars := by
  induction chars with
  | nil => exact ⟨⟨[], [], false, none, .none⟩, rfl, rfl⟩
  | cons cur rest ih =>
      obtain ⟨middle, first, later⟩ := Option.bind_eq_some_iff.mp taken
      rw [takes, takesWidth] at first
      split at first
      · rename_i isOne
        obtain rfl := Option.some.inj first
        obtain ⟨digit, rfl⟩ := digit_char cur isOne
        obtain ⟨front, none, rfl⟩ := ih later
        refine ⟨{ front with digits := digit :: front.digits }, none, ?_⟩
        rw [Front.chars, Front.chars, none]
        rfl
      · split at first
        · rename_i star
          obtain rfl := Option.some.inj first
          obtain ⟨precision, length, rfl⟩ := taken_point rest label later
          exact ⟨⟨[], [], true, precision, length⟩, rfl, by rw [star]; rfl⟩
        · obtain ⟨precision, length, same⟩ := taken_point (cur :: rest) label (Option.bind_eq_some_iff.mpr ⟨middle, first, later⟩)
          exact ⟨⟨[], [], false, precision, length⟩, rfl, same.symm⟩

theorem taken_flags (chars : List Byte) (label : ScanLabel) (taken : takesAll .flags chars = some label) :
    ∃ front : Front, front.chars = chars := by
  induction chars with
  | nil => exact ⟨⟨[], [], false, none, .none⟩, rfl⟩
  | cons cur rest ih =>
      obtain ⟨middle, first, later⟩ := Option.bind_eq_some_iff.mp taken
      rw [takes, takesFlags] at first
      split at first
      · rename_i isOne
        obtain rfl := Option.some.inj first
        obtain ⟨flag, rfl⟩ := flag_char cur isOne
        obtain ⟨front, rfl⟩ := ih later
        exact ⟨{ front with flags := flag :: front.flags }, rfl⟩
      · obtain ⟨front, _, same⟩ := taken_width (cur :: rest) label (Option.bind_eq_some_iff.mpr ⟨middle, first, later⟩)
        exact ⟨front, same⟩

theorem taken_front (chars : List Byte) (label : ScanLabel) (taken : takesAll .percent chars = some label) :
    ∃ front : Front, front.chars = chars := by
  cases chars with
  | nil => exact ⟨⟨[], [], false, none, .none⟩, rfl⟩
  | cons cur rest => exact taken_flags (cur :: rest) label taken

-- Behind a '%' there is a front only, or a front and the character that ends it.
theorem front_or_specifier (label : ScanLabel) (chars : List Byte) :
    (∃ next, takesAll label chars = some next) ∨
      ∃ used specifier rest next, chars = used ++ specifier :: rest ∧ takesAll label used = some next ∧ takes next specifier = none := by
  induction chars generalizing label with
  | nil => exact .inl ⟨label, rfl⟩
  | cons cur rest ih =>
      cases first : takes label cur with
      | none => exact .inr ⟨[], cur, rest, label, rfl, rfl, first⟩
      | some middle =>
          rw [takes_all_cons, first]
          rcases ih middle with all | ⟨used, specifier, others, next, rfl, taken, ended⟩
          · exact .inl all
          · exact .inr ⟨cur :: used, specifier, others, next, rfl, by rw [takes_all_cons, first]; exact taken, ended⟩

theorem no_longer_front (front : Front) (label : ScanLabel) (specifier : Byte) (taken : takesAll .percent front.chars = some label) :
    (∀ longer : Front, longer.chars ≠ front.chars ++ [specifier]) ↔ takes label specifier = none := by
  have both : takesAll .percent (front.chars ++ [specifier]) = takes label specifier := by
    rw [takes_all_append, taken, Option.bind_some, takes_all_cons]
    cases takes label specifier <;> rfl
  constructor
  · intro longest
    cases next : takes label specifier with
    | none => rfl
    | some last =>
        obtain ⟨longer, same⟩ := taken_front _ last (both.trans next)
        exact absurd same (longest longer)
  · intro ended longer same
    obtain ⟨last, all⟩ := front_taken longer
    rw [same, both, ended] at all
    cases all

-- The text ends inside a directive or it is whole.
theorem whole_or_cut (chars : List Byte) :
    Whole chars ∨ ∃ (before : List Byte) (front : Front), Whole before ∧ chars = before ++ chr '%' :: front.chars := by
  obtain ⟨size, sizeEq⟩ : ∃ size, size = chars.length := ⟨_, rfl⟩
  induction size using Nat.strongRecOn generalizing chars with
  | ind size ih =>
      cases chars with
      | nil => exact .inl .nil
      | cons cur rest =>
          rw [List.length_cons] at sizeEq
          by_cases percent : cur = chr '%'
          · subst percent
            rcases front_or_specifier .percent rest with ⟨next, taken⟩ | ⟨used, specifier, others, next, rfl, taken, ended⟩
            · obtain ⟨front, rfl⟩ := taken_front rest next taken
              exact .inr ⟨[], front, .nil, rfl⟩
            · obtain ⟨front, rfl⟩ := taken_front used next taken
              have longest := (no_longer_front front next specifier taken).mpr ended
              rw [List.length_append, List.length_cons] at sizeEq
              rcases ih others.length (by omega) others rfl with whole | ⟨before, last, whole, rfl⟩
              · exact .inl (.directive front specifier others longest whole)
              · refine .inr ⟨_, last, .directive front specifier before longest whole, ?_⟩
                rw [List.cons_append, List.append_assoc, List.cons_append]
          · rcases ih rest.length (by omega) rest rfl with whole | ⟨before, last, whole, rfl⟩
            · exact .inl (.plain cur rest percent whole)
            · exact .inr ⟨cur :: before, last, .plain cur before percent whole, rfl⟩

end Fronts

section Terminator

variable (fmt : Nat → Byte) (pos : Nat)

theorem percent_leads (percent : fmt pos = chr '%') : LeadsTo fmt ⟨.loop, pos⟩ ⟨.percent, pos + 1⟩ :=
  Loops.leads_step (Nat.lt_succ_self pos) (by rw [scanStep, if_neg (by rw [percent]; decide), if_pos percent])

-- Over text that is whole the main loop gets to its end.
theorem whole_leads (chars : List Byte) (whole : Whole chars) (nonzero : ∀ c ∈ chars, c ≠ 0) (spelled : Spells fmt pos chars) :
    LeadsTo fmt ⟨.loop, pos⟩ ⟨.loop, pos + chars.length⟩ := by
  induction whole generalizing pos with
  | nil => exact Relation.ReflTransGen.refl
  | plain cur rest other _ ih =>
      obtain ⟨here, spelledRest⟩ := spelled
      obtain ⟨notEnd, nonzeroRest⟩ := List.forall_mem_cons.mp nonzero
      have later := ih (pos + 1) nonzeroRest spelledRest
      rw [Nat.add_right_comm, Nat.add_assoc] at later
      have first : LeadsTo fmt ⟨.loop, pos⟩ ⟨.loop, pos + 1⟩ :=
        Loops.leads_step (Nat.lt_succ_self pos) (by rw [scanStep, here, if_neg notEnd, if_neg other])
      exact leads_trans first later (Nat.add_le_add_left (Nat.succ_le_succ (Nat.zero_le _)) pos)
  | directive front specifier rest longest _ ih =>
      obtain ⟨percent, spelledDirective⟩ := spelled
      obtain ⟨spelledFront, atSpecifier, spelledRest⟩ := (spells_append fmt (pos + 1) _ _).mp spelledDirective
      obtain ⟨label, taken⟩ := front_taken front
      have ended := (no_longer_front front label specifier taken).mp longest
      obtain ⟨toFront, inside⟩ := front_leads fmt (pos + 1) .percent label front.chars (by decide) spelledFront taken
      have toLoop := takes_leads fmt (pos + 1 + front.chars.length) label inside
      rw [atSpecifier, ended] at toLoop
      have nonzeroRest : ∀ c ∈ rest, c ≠ 0 := fun c member =>
        nonzero c (List.mem_cons_of_mem _ (List.mem_append_right _ (List.mem_cons_of_mem _ member)))
      have later := ih (pos + 1 + front.chars.length + 1) nonzeroRest spelledRest
      have total : pos + (chr '%' :: (front.chars ++ specifier :: rest)).length =
          pos + 1 + front.chars.length + 1 + rest.length := by
        simp only [List.length_cons, List.length_append]
        omega
      rw [total]
      have start := leads_trans (percent_leads fmt pos percent) toFront (Nat.le_add_right _ _)
      exact leads_trans (leads_trans start toLoop (Nat.le_succ _)) later (Nat.le_add_right _ _)

variable (str : Str) (beyond : Nat → Byte)

theorem cut_passes_terminator (before : List Byte) (front : Front) (whole : Whole before)
    (cut : str.chars = before ++ chr '%' :: front.chars) :
    ∃ turns, Loops.after (scanStep (placed str beyond)) turns ⟨.loop, 0⟩ = some ⟨.loop, str.chars.length + 1⟩ := by
  have spelled := placed_held str beyond
  rw [Str.HeldBy, cut, List.append_assoc] at spelled
  obtain ⟨spelledBefore, percent, spelledBehind⟩ := (spells_append _ _ _ _).mp spelled
  obtain ⟨spelledFront, terminator, _⟩ := (spells_append _ _ _ _).mp spelledBehind
  have nonzero : ∀ c ∈ before, c ≠ 0 := fun c member => str.nonzero c (by rw [cut]; exact List.mem_append_left _ member)
  obtain ⟨label, taken⟩ := front_taken front
  have toPercent := whole_leads _ 0 before whole nonzero spelledBefore
  obtain ⟨toFront, inside⟩ := front_leads _ _ .percent label front.chars (by decide) spelledFront taken
  have toLoop := takes_leads (placed str beyond) (0 + before.length + 1 + front.chars.length) label inside
  have ended : takes label 0 = none := by
    refine (no_longer_front front label 0 taken).mp (fun longer same => ?_)
    exact front_nonzero longer 0 (by rw [same]; simp) rfl
  rw [terminator, ended] at toLoop
  have start := leads_trans toPercent (percent_leads _ _ percent) (Nat.le_succ _)
  have reached := leads_trans (leads_trans start toFront (Nat.le_add_right _ _)) toLoop (Nat.le_succ _)
  have total : 0 + before.length + 1 + front.chars.length = str.chars.length := by
    rw [cut, List.length_append, List.length_cons]
    omega
  rw [landing, total] at reached
  exact Loops.leads_after reached

theorem stops_at_terminator_iff : StopsAtTerminator (placed str beyond) str.chars.length ↔ Whole str.chars := by
  constructor
  · intro stops
    rcases whole_or_cut str.chars with whole | ⟨before, front, whole, cut⟩
    · exact whole
    · obtain ⟨turns, reached⟩ := cut_passes_terminator str beyond before front whole cut
      exact absurd (stops.reads turns _ reached) (Nat.not_succ_le_self _)
  · intro whole
    obtain ⟨spelled, terminator, _⟩ := (spells_append _ _ _ _).mp (placed_held str beyond)
    have leads := whole_leads _ 0 str.chars whole str.nonzero spelled
    rw [Nat.zero_add] at leads terminator
    have within : Loops.Leads (scanStep (placed str beyond)) (fun state => state.pos ≤ str.chars.length) ⟨.loop, 0⟩
        ⟨.loop, str.chars.length⟩ := Loops.leads_mono (fun _ before => Nat.le_of_lt before) leads
    obtain ⟨ends, reads⟩ := Loops.ends_good within (Nat.le_refl _) (by rw [scanStep, if_pos terminator])
    exact ⟨ends, reads⟩

-- The NUL is taken for the specifier, and the main loop goes on with the byte behind it.
theorem percent_sign_passes_terminator :
    ¬ StopsAtTerminator (placed ⟨"50%".toList.map chr, by decide⟩ (fun _ => chr 'x')) 3 := by
  intro stops
  have reached : Loops.after (scanStep (placed ⟨"50%".toList.map chr, by decide⟩ (fun _ => chr 'x'))) 9 ⟨.loop, 0⟩ =
      some ⟨.loop, 4⟩ := by decide
  exact absurd (stops.reads 9 _ reached) (by decide)

end Terminator

-- The readers of a directive and the scan move pos alike.
section Readers

-- From a label over some characters to the rest, whose first character is taken as goesOn says.
def Moves (first : ScanLabel) (chars rest : List Byte) (goesOn : Byte → Option ScanLabel) : Prop :=
  ∃ used last, chars = used ++ rest ∧ takesAll first used = some last ∧ ∀ cur ∈ rest.head?, takes last cur = goesOn cur

theorem moves_stay (label : ScanLabel) (chars : List Byte) (goesOn : Byte → Option ScanLabel)
    (here : ∀ cur ∈ chars.head?, takes label cur = goesOn cur) : Moves label chars chars goesOn :=
  ⟨[], label, rfl, rfl, here⟩

theorem moves_cons (label next : ScanLabel) (cur : Byte) (chars rest : List Byte) (goesOn : Byte → Option ScanLabel)
    (taken : takes label cur = some next) (moves : Moves next chars rest goesOn) : Moves label (cur :: chars) rest goesOn := by
  obtain ⟨used, last, rfl, all, ends⟩ := moves
  exact ⟨cur :: used, last, rfl, by rw [takes_all_cons, taken]; exact all, ends⟩

theorem moves_trans (label : ScanLabel) (chars middle rest : List Byte) (onMiddle goesOn : Byte → Option ScanLabel)
    (front : Moves label chars middle onMiddle)
    (back : ∀ next, (∀ cur ∈ middle.head?, takes next cur = onMiddle cur) → Moves next middle rest goesOn) :
    Moves label chars rest goesOn := by
  obtain ⟨used, next, rfl, taken, here⟩ := front
  obtain ⟨more, last, rfl, takenMore, ends⟩ := back next here
  exact ⟨used ++ more, last, by rw [List.append_assoc], by rw [takes_all_append, taken]; exact takenMore, ends⟩

theorem read_flags_moves (format : Format) (chars : List Byte) (label : ScanLabel)
    (here : ∀ cur ∈ chars.head?, takes label cur = takesFlags cur) : Moves label chars (readFlags format chars).2 takesWidth := by
  have toFlags : ∀ cur, isFlag cur = true → takesFlags cur = some .flags := fun cur flag => by rw [takesFlags, if_pos flag]
  fun_induction readFlags format chars generalizing label with
  | case1 format => exact moves_stay label [] takesWidth (fun cur member => absurd member (Option.not_mem_none cur))
  | case2 format rest ih | case3 format rest _ ih | case4 format rest _ _ ih | case5 format rest _ _ _ ih
  | case6 format rest _ _ _ _ ih =>
      exact moves_cons label .flags _ rest _ _ ((here _ rfl).trans (toFlags _ (by decide))) (ih .flags (fun cur _ => rfl))
  | case7 format cur rest minus plus space numer zero =>
      have other : isFlag cur = false := by simp [isFlag, minus, plus, space, numer, zero]
      refine moves_stay label _ takesWidth (fun cur member => ?_)
      obtain rfl := Option.some.inj member
      rw [here _ rfl, takesFlags, other, if_neg Bool.false_ne_true]

theorem read_width_moves (format next : Format) (chars : List Byte) (args : List Arg) (input : Input) (label : ScanLabel)
    (read : readWidth format chars args = some (next, input))
    (here : ∀ cur ∈ chars.head?, takes label cur = takesWidth cur) : Moves label chars input.pos takesPoint := by
  fun_induction readWidth format chars args generalizing label with
  | case1 format args =>
      obtain ⟨_, rfl⟩ := Prod.mk.inj (Option.some.inj read)
      exact moves_stay label [] takesPoint (fun cur member => absurd member (Option.not_mem_none cur))
  | case2 format cur rest args digit ih =>
      exact moves_cons label .width cur rest _ _ ((here cur rfl).trans (by rw [takesWidth, if_pos digit]))
        (ih .width read (fun cur _ => rfl))
  | case3 format rest args digit =>
      obtain ⟨_, _, same⟩ := Option.map_eq_some_iff.mp read
      obtain ⟨_, rfl⟩ := Prod.mk.inj same
      exact moves_cons label .point _ rest _ _ ((here _ rfl).trans (by decide))
        (moves_stay .point rest takesPoint (fun cur _ => rfl))
  | case4 format cur rest args digit star =>
      obtain ⟨_, rfl⟩ := Prod.mk.inj (Option.some.inj read)
      refine moves_stay label _ takesPoint (fun cur member => ?_)
      obtain rfl := Option.some.inj member
      rw [here _ rfl, takesWidth, if_neg digit, if_neg star]

theorem read_precision_digits_moves (format next : Format) (chars : List Byte) (args : List Arg) (input : Input)
    (read : readPrecisionDigits format chars args = some (next, input)) : Moves .precision chars input.pos takesLength := by
  fun_induction readPrecisionDigits format chars args with
  | case1 format args =>
      obtain ⟨_, rfl⟩ := Prod.mk.inj (Option.some.inj read)
      exact moves_stay .precision [] takesLength (fun cur member => absurd member (Option.not_mem_none cur))
  | case2 format cur rest args digit ih =>
      exact moves_cons .precision .precision cur rest _ _ (by rw [takes, if_pos digit]) (ih read)
  | case3 format rest args digit =>
      obtain ⟨_, _, same⟩ := Option.map_eq_some_iff.mp read
      obtain ⟨_, rfl⟩ := Prod.mk.inj same
      refine moves_stay .precision _ takesLength (fun cur member => ?_)
      obtain rfl := Option.some.inj member
      rw [takes, if_neg digit]
  | case4 format cur rest args digit star =>
      obtain ⟨_, rfl⟩ := Prod.mk.inj (Option.some.inj read)
      refine moves_stay .precision _ takesLength (fun cur member => ?_)
      obtain rfl := Option.some.inj member
      rw [takes, if_neg digit]

theorem read_precision_moves (format next : Format) (input after : Input) (label : ScanLabel)
    (read : readPrecision format input = some (next, after))
    (here : ∀ cur ∈ input.pos.head?, takes label cur = takesPoint cur) : Moves label input.pos after.pos takesLength := by
  obtain ⟨pos, args⟩ := input
  cases pos with
  | nil =>
      obtain ⟨_, rfl⟩ := Prod.mk.inj (Option.some.inj read)
      exact moves_stay label [] takesLength (fun cur member => absurd member (Option.not_mem_none cur))
  | cons cur rest =>
      rw [readPrecision] at read
      dsimp only at read
      by_cases dot : cur = chr '.'
      · rw [if_pos dot] at read
        obtain ⟨⟨last, reached⟩, digits, same⟩ := Option.map_eq_some_iff.mp read
        obtain ⟨_, rfl⟩ := Prod.mk.inj same
        exact moves_cons label .precision cur rest _ _ ((here cur rfl).trans (by rw [takesPoint, if_pos dot]))
          (read_precision_digits_moves format last rest args reached digits)
      · rw [if_neg dot] at read
        obtain ⟨_, rfl⟩ := Prod.mk.inj (Option.some.inj read)
        refine moves_stay label _ takesLength (fun cur member => ?_)
        obtain rfl := Option.some.inj member
        rw [here _ rfl, takesPoint, if_neg dot]

theorem doubled_moves (letter : Byte) (single double : Length) (chars : List Byte) :
    Moves (.doubled letter) chars (doubled letter single double chars).2 (fun _ => none) := by
  cases chars with
  | nil => exact moves_stay _ [] _ (fun cur member => absurd member (Option.not_mem_none cur))
  | cons cur rest =>
      rw [doubled]
      by_cases same : cur = letter
      · rw [if_pos same]
        exact moves_cons _ .specifier cur rest _ _ (by rw [takes, if_pos same]) (moves_stay _ rest _ (fun cur _ => rfl))
      · rw [if_neg same]
        refine moves_stay _ _ _ (fun cur member => ?_)
        obtain rfl := Option.some.inj member
        rw [takes, if_neg same]

theorem read_length_moves (chars : List Byte) (label : ScanLabel)
    (here : ∀ cur ∈ chars.head?, takes label cur = takesLength cur) : Moves label chars (readLength chars).2 (fun _ => none) := by
  cases chars with
  | nil => exact moves_stay label [] _ (fun cur member => absurd member (Option.not_mem_none cur))
  | cons cur rest =>
      have taken := here cur rfl
      rw [takesLength] at taken
      have toSpecifier : takes label cur = some .specifier → Moves label (cur :: rest) rest (fun _ => none) := fun taken =>
        moves_cons label .specifier cur rest _ _ taken (moves_stay _ rest _ (fun cur _ => rfl))
      rw [readLength]
      by_cases isH : cur = chr 'h'
      · subst isH
        rw [if_pos rfl]
        exact moves_cons label _ _ rest _ _ taken (doubled_moves (chr 'h') .h .hh rest)
      by_cases isL : cur = chr 'l'
      · subst isL
        rw [if_neg isH, if_pos rfl]
        exact moves_cons label _ _ rest _ _ taken (doubled_moves (chr 'l') .l .ll rest)
      rw [if_neg isH, if_neg isL]
      rw [if_neg (not_or.mpr ⟨isH, isL⟩)] at taken
      by_cases single : cur = chr 'j' ∨ cur = chr 'z' ∨ cur = chr 't' ∨ cur = chr 'L'
      · rw [if_pos single] at taken
        rcases single with rfl | rfl | rfl | rfl <;> exact toSpecifier taken
      · rw [if_neg single] at taken
        rw [if_neg (fun same => single (.inl same)), if_neg (fun same => single (.inr (.inl same))),
          if_neg (fun same => single (.inr (.inr (.inl same)))), if_neg (fun same => single (.inr (.inr (.inr same))))]
        refine moves_stay label _ _ (fun cur member => ?_)
        obtain rfl := Option.some.inj member
        exact taken

-- The specifier is the first character that goes on from no front.
theorem read_conversion_moves (chars : List Byte) (args : List Arg) (directive : Directive) (input : Input)
    (read : readConversion ⟨chars, args⟩ = some (directive, input)) :
    ∃ (front : Front) (specifier : Byte) (format : Format) (left : List Arg), chars = front.chars ++ specifier :: input.pos ∧
      (∀ longer : Front, longer.chars ≠ front.chars ++ [specifier]) ∧
      readSpecifier format specifier left = some (directive, input.args) := by
  obtain ⟨⟨format, atPrecision⟩, width, afterWidth⟩ := Option.bind_eq_some_iff.mp read
  obtain ⟨⟨format, atLength⟩, precision, afterPrecision⟩ := Option.bind_eq_some_iff.mp afterWidth
  have flagsMoved := read_flags_moves {} chars .percent (fun cur _ => rfl)
  have widthMoved := moves_trans _ _ _ _ _ _ flagsMoved (fun next here => read_width_moves _ _ _ _ _ next width here)
  have precisionMoved := moves_trans _ _ _ _ _ _ widthMoved (fun next here => read_precision_moves _ _ _ _ next precision here)
  obtain ⟨used, last, rfl, taken, ended⟩ :=
    moves_trans _ _ _ _ _ _ precisionMoved (fun next here => read_length_moves atLength.pos next here)
  obtain ⟨front, rfl⟩ := taken_front used last taken
  dsimp only at afterPrecision
  cases left : (readLength atLength.pos).2 with
  | nil => simp only [left, reduceCtorEq] at afterPrecision
  | cons specifier rest =>
      rw [left] at afterPrecision ended
      obtain ⟨⟨found, others⟩, took, same⟩ := Option.map_eq_some_iff.mp afterPrecision
      obtain ⟨rfl, rfl⟩ := Prod.mk.inj same
      exact ⟨front, specifier, _, _, by rw [← left], (no_longer_front front last specifier taken).mpr (ended specifier rfl), took⟩

end Readers

end Kraftwerk.Print
