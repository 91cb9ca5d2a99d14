import SysproKernel.Lib.CStr
import SysproKernel.Lib.Loop
import SysproKernel.Terminal.Screen

/-!
# `Terminal.Buffer` — `terminal_buf` and the console functions

The terminal of util.c: the character buffer, the cursor, and `putc`, `puts` and `redraw_terminal` over
them. Every access to `terminal_buf` goes through `readCell`/`writeCell`, which fail on a subscript
outside the row, so a run that succeeds has stayed inside its rows throughout.
-/

namespace SysproKernel
namespace Terminal

open Lib.Loop

def maxLines : Nat := 1920 / fontHeight
def maxCharsInLine : Nat := 1080 / fontWidth

/-- `'\n'`. -/
def newline : Int8 := 10

/-! ## `terminal_buf` -/

/-- The rows of `terminal_buf`. -/
abbrev Buf := Nat → Nat → Int8

/-- An access outside `terminal_buf[row]`. -/
structure OutOfRow where
  row : Nat
  col : Nat
  deriving DecidableEq, Repr

def readCell (buf : Buf) (row col : Nat) : Except OutOfRow Int8 :=
  if row < maxLines ∧ col < maxCharsInLine + 1 then .ok (buf row col) else .error { row, col }

/-- The buffer with one cell replaced. -/
def setCell (buf : Buf) (row col : Nat) (c : Int8) : Buf :=
  Function.update buf row (Function.update (buf row) col c)

def writeCell (buf : Buf) (row col : Nat) (c : Int8) : Except OutOfRow Buf :=
  if row < maxLines ∧ col < maxCharsInLine + 1 then .ok (setCell buf row col c)
  else .error { row, col }

/-- The file-scope variables of util.c. -/
structure State where
  buf : Buf
  nLines : Nat
  nCharsInLine : Nat
  curLine : Nat
  curPosInLine : Nat

/-- Static storage at start-up. -/
def State.start : State :=
  { buf := fun _ _ => 0, nLines := 0, nCharsInLine := 0, curLine := 0, curPosInLine := 0 }

/-! ## `my_strcpy` -/

/-- A source string of `my_strcpy`: how its characters are read. -/
abbrev Source := Buf → Nat → Except OutOfRow Int8

/-- `terminal_buf[row]` as a source. -/
def rowSource (row : Nat) : Source := fun buf j => readCell buf row j

/-- The literal `""` as a source. -/
def emptySource : Source := fun _ _ => .ok 0

/-- `my_strcpy(terminal_buf[dst], t)` from character `j` on, with `n` cells of the row left. -/
def myStrcpyFrom (dst : Nat) (t : Source) (buf : Buf) (j : Nat) : Nat → Except OutOfRow Buf
  | 0     => .error { row := dst, col := j }
  | n + 1 => do
      let c ← t buf j
      if c = 0 then
        writeCell buf dst j 0
      else
        let buf ← writeCell buf dst j c
        myStrcpyFrom dst t buf (j + 1) n

def myStrcpy (dst : Nat) (t : Source) (buf : Buf) : Except OutOfRow Buf :=
  myStrcpyFrom dst t buf 0 (maxCharsInLine + 1)

/-! ## Drawing the terminal -/

variable (fb : FrameBuffer) (font : Font)

/-- `init_draw`, on the terminal it finds. -/
def initDraw (t : State) : State × List Write :=
  let nLines := fb.height / fontHeight
  let nLines := if nLines > maxLines then maxLines else nLines
  let nCharsInLine := fb.width / fontWidth
  let nCharsInLine := if nCharsInLine > maxCharsInLine then maxCharsInLine else nCharsInLine
  ({ t with nLines, nCharsInLine }, fill fb colorBlack)

/-- `draw_char` of a character in a terminal cell. -/
def drawCell (c : Int8) (line pos : Nat) : List Write :=
  drawChar fb font c (line * fontHeight : Nat) (pos * fontWidth : Nat) colorWhite

/-- The inner loop of `redraw_terminal` over row `i`, from column `j` on with `n` columns left. -/
def redrawRow (t : State) (i j : Nat) : Nat → Except OutOfRow (List Write)
  | 0     => .ok []
  | n + 1 => do
      let c ← readCell t.buf i j
      if c = 0 then
        return []
      else
        let ws ← redrawRow t i (j + 1) n
        return drawCell fb font c i j ++ ws

def redrawTerminal (t : State) : Except OutOfRow (List Write) :=
  forLoop t.nLines (fun i ws => do
    let row ← redrawRow fb font t i 0 t.nCharsInLine
    return ws ++ row) (fill fb colorBlack)

/-! ## `putc` and `puts` -/

/-- `terminal_buf[cur_line][cur_pos_in_line++] = c`. -/
def State.store (t : State) (c : Int8) : Except OutOfRow State := do
  let buf ← writeCell t.buf t.curLine t.curPosInLine c
  return { t with buf, curPosInLine := t.curPosInLine + 1 }

/-- `// shift lines`. -/
def State.shiftLines (t : State) : Except OutOfRow Buf := do
  let buf ← forLoop (t.nLines - 1) (fun i buf => myStrcpy i (rowSource (i + 1)) buf) t.buf
  myStrcpy (t.nLines - 1) emptySource buf

def putc (t : State) (c : Int8) : Except OutOfRow (State × List Write) := do
  if c = newline ∨ t.curPosInLine = t.nCharsInLine then
    let (t, redraw) ←
      if t.curLine + 1 = t.nLines then do
        let buf ← t.shiftLines
        pure ({ t with buf }, true)
      else
        pure ({ t with curLine := t.curLine + 1 }, false)
    let t := { t with curPosInLine := 0 }
    let (t, ws) ←
      if c ≠ newline then do
        let ws := if redraw then [] else drawCell fb font c t.curLine t.curPosInLine
        let t ← t.store c
        pure (t, ws)
      else
        pure (t, [])
    if redraw then do
      let ws' ← redrawTerminal fb font t
      return (t, ws ++ ws')
    else
      return (t, ws)
  else
    let ws := drawCell fb font c t.curLine t.curPosInLine
    let t ← t.store c
    return (t, ws)

/-- Successive calls of `putc`. -/
def putcs (t : State) : List Int8 → Except OutOfRow (State × List Write)
  | []      => .ok (t, [])
  | c :: cs => do
      let (t, ws) ← putc fb font t c
      let (t, ws') ← putcs t cs
      return (t, ws ++ ws')

/-- `puts`, on the characters `str` points to. -/
def puts (t : State) (str : List Int8) : Except OutOfRow (State × List Write) :=
  putcs fb font t (str.takeWhile (fun c => c ≠ 0))

end Terminal
end SysproKernel
