import OwnKernel.Model.Config

/-!
# The text terminal (`kernel.c`)

The terminal keeps a cursor in two 16-bit counters and writes character
cells to video memory. A call is modelled by the cursor it leaves and
the list of cells it writes, in order.
-/

namespace OwnKernel

/-- `VGA_WIDTH`. -/
def vgaWidth : ℕ := 80

/-- `VGA_HEIGHT`. -/
def vgaHeight : ℕ := 20

/-- One store `video_memory[index] = value`. -/
structure VideoWrite where
  index : ℕ
  value : BitVec 16
  deriving DecidableEq

/-- `terminal_row` and `terminal_col`. -/
structure Terminal where
  row : BitVec 16
  col : BitVec 16
  deriving DecidableEq

/-- `terminal_make_char`. Both characters are signed. -/
def terminalMakeChar (c color : Byte) : BitVec 16 :=
  (color.signExtend 16 <<< 8) ||| c.signExtend 16

/-- `terminal_putchar`. -/
def terminalPutchar (x y : ℕ) (c color : Byte) : VideoWrite :=
  ⟨y * vgaWidth + x, terminalMakeChar c color⟩

/-- The end of `terminal_writechar`, for a character that is shown. -/
def terminalShow (t : Terminal) (c color : Byte) : Terminal × List VideoWrite :=
  let put := terminalPutchar t.col.toNat t.row.toNat c color
  let col := t.col + 1
  if col.toNat = vgaWidth then (⟨t.row + 1, 0⟩, [put]) else (⟨t.row, col⟩, [put])

/-- `terminal_backspace`. The blank it shows moves the cursor like any
other, to the next row when it fills this one, before the column is
taken back. -/
def terminalBackspace (t : Terminal) : Terminal × List VideoWrite :=
  if t.row = 0 ∧ t.col = 0 then (t, [])
  else
    let t := if t.col = 0 then ⟨t.row - 1, BitVec.ofNat 16 vgaWidth⟩ else t
    let r := terminalShow { t with col := t.col - 1 } 0x20 15
    ({ r.1 with col := r.1.col - 1 }, r.2)

/-- `terminal_writechar`. -/
def terminalWritechar (t : Terminal) (c color : Byte) : Terminal × List VideoWrite :=
  if c = 0x0A then (⟨t.row + 1, 0⟩, [])
  else if c = 0x08 then terminalBackspace t
  else terminalShow t c color

/-- `terminal_initalize`. -/
def terminalInitalize : Terminal × List VideoWrite :=
  (⟨0, 0⟩, (List.range vgaHeight).flatMap fun row =>
    (List.range vgaWidth).map fun col => terminalPutchar col row 0x20 0)

/-- A sequence of calls of `terminal_writechar`. -/
def terminalWriteAll (t : Terminal) : List (Byte × Byte) → Terminal × List VideoWrite
  | [] => (t, [])
  | (c, color) :: cs =>
    let r := terminalWritechar t c color
    let rest := terminalWriteAll r.1 cs
    (rest.1, r.2 ++ rest.2)

/-- `print`. The length `strlen` gives counts the terminator, which is
written too. -/
def print (t : Terminal) (str : List Byte) : Terminal × List VideoWrite :=
  terminalWriteAll t ((str ++ [0]).map fun c => (c, 15))

end OwnKernel
