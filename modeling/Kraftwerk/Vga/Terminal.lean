import Kraftwerk.Lib.CString
import Mathlib.Algebra.Group.Nat.Defs
import Mathlib.Logic.Function.Basic

set_option autoImplicit false

-- os/device/vga.cpp, with terminal_buffer as the memory from 0xB8000 on.
namespace Kraftwerk.Vga

open CString

def vgaWidth : Nat := 80

def vgaHeight : Nat := 24

inductive VgaColor where
  | black | blue | green | cyan | red | magenta | brown | lightGrey | darkGrey | lightBlue | lightGreen | lightCyan
  | lightRed | lightMagenta | lightBrown | white
deriving DecidableEq, Repr

def VgaColor.code : VgaColor → BitVec 32
  | black => 0
  | blue => 1
  | green => 2
  | cyan => 3
  | red => 4
  | magenta => 5
  | brown => 6
  | lightGrey => 7
  | darkGrey => 8
  | lightBlue => 9
  | lightGreen => 10
  | lightCyan => 11
  | lightRed => 12
  | lightMagenta => 13
  | lightBrown => 14
  | white => 15

structure Terminal where
  row : Nat
  column : Nat
  color : Byte
  buffer : Nat → BitVec 16

def makeColor (fg bg : VgaColor) : Byte := (fg.code ||| bg.code <<< 4).setWidth 8

-- A char is signed, so c16 takes its sign.
def makeVgaentry (c color : Byte) : BitVec 16 := c.signExtend 16 ||| color.setWidth 16 <<< 8

def blankEntry : BitVec 16 := makeVgaentry (chr ' ') (makeColor .lightGrey .black)

def increment (position : Nat) : Nat := (position + 1) % 2 ^ 32

def decrement (position : Nat) : Nat := (position + (2 ^ 32 - 1)) % 2 ^ 32

-- The inner loop over x: one row of cells, each computed from the buffer as it is by then.
def fillRow (row : Nat) (cell : (Nat → BitVec 16) → Nat → BitVec 16) (buffer : Nat → BitVec 16) : Nat → BitVec 16 :=
  (List.range vgaWidth).foldl (fun buffer x => Function.update buffer (row * vgaWidth + x) (cell buffer x)) buffer

def copyRow (source target : Nat) (buffer : Nat → BitVec 16) : Nat → BitVec 16 :=
  fillRow target (fun buffer x => buffer (source * vgaWidth + x)) buffer

def blankRow (row : Nat) (buffer : Nat → BitVec 16) : Nat → BitVec 16 := fillRow row (fun _ _ => blankEntry) buffer

def terminalInitialize (terminal : Terminal) : Terminal :=
  let color := makeColor .lightGrey .black
  { row := 0, column := 0, color := color,
    buffer := (List.range vgaHeight).foldl
      (fun buffer y => fillRow y (fun _ _ => makeVgaentry (chr ' ') color) buffer) terminal.buffer }

def terminalSetcolor (color : Byte) (terminal : Terminal) : Terminal := { terminal with color := color }

def terminalSetcolors (fg bg : VgaColor) (terminal : Terminal) : Terminal := { terminal with color := makeColor fg bg }

def scrollDown (buffer : Nat → BitVec 16) : Nat → BitVec 16 :=
  blankRow (vgaHeight - 1) ((List.range (vgaHeight - 1)).foldl (fun buffer y => copyRow (y + 1) y buffer) buffer)

def scrollUp (buffer : Nat → BitVec 16) : Nat → BitVec 16 :=
  blankRow 0 ((List.range' 1 (vgaHeight - 1)).reverse.foldl (fun buffer y => copyRow (y - 1) y buffer) buffer)

def terminalScroll (numRows : Int) (terminal : Terminal) : Terminal :=
  if 0 < numRows then { terminal with buffer := scrollDown terminal.buffer }
  else if numRows < 0 then { terminal with buffer := scrollUp terminal.buffer }
  else terminal

def terminalPutentryat (c color : Byte) (x y : Nat) (terminal : Terminal) : Terminal :=
  { terminal with buffer := Function.update terminal.buffer ((y * vgaWidth + x) % 2 ^ 32) (makeVgaentry c color) }

def nextRow (terminal : Terminal) : Terminal :=
  let moved := { terminal with column := 0, row := increment terminal.row }
  if moved.row = vgaHeight then { terminalScroll 1 moved with row := vgaHeight - 1 } else moved

def terminalPutchar (c : Byte) (terminal : Terminal) : Terminal :=
  if c = chr '\n' then nextRow terminal
  else
    let written := terminalPutentryat c terminal.color terminal.column terminal.row terminal
    let moved := { written with column := increment written.column }
    if moved.column = vgaWidth then nextRow moved else moved

-- Only the row is ever put back: the column stays what its decrement made of it.
def terminalBackspace (terminal : Terminal) : Terminal :=
  let back := { terminal with column := decrement terminal.column }
  let moved :=
    if vgaWidth < back.column then
      let up := { back with row := decrement back.row }
      if vgaHeight < up.row then { terminalScroll (-1) up with row := 0 } else up
    else back
  terminalPutentryat (chr ' ') moved.color moved.column moved.row moved

-- The index is an unsigned int: on a string of 2^32 bytes or more it never meets the NUL.
def writestringFrom (data : Str) : Nat → BitVec 32 → Terminal → Option Terminal
  | 0, _, _ => none
  | fuel + 1, i, terminal =>
      if data.byteAt i.toNat ≠ 0 then writestringFrom data fuel (i + 1) (terminalPutchar (data.byteAt i.toNat) terminal)
      else some terminal

def terminalWritestring (fuel : Nat) (data : Str) (terminal : Terminal) : Option Terminal :=
  writestringFrom data fuel 0 terminal

def terminalWritestringLength (data : Nat → Byte) (datalen : BitVec 32) (terminal : Terminal) : Terminal :=
  ((List.range datalen.toNat).map data).foldl (fun terminal c => terminalPutchar c terminal) terminal

end Kraftwerk.Vga
