import Mathlib.Tactic.Common
import OwnKernel.Model.Cstring

/-!
# The library of user programs (`stdlib.c`, `stdio.c`)

Numbers are written into a static buffer from its end on, in the negative
range, where every `int` has room. A read or a write past an array, and a
signed result that is no `int`, stops a run with a `UserFault`.
-/

namespace OwnKernel

/-- What a C program must not do. -/
inductive UserFault
  /-- A read or a write past an array. -/
  | outOfBounds
  /-- A signed result that does not fit. -/
  | signedOverflow
  /-- An argument that was not passed, or not with this type. -/
  | badArgument
  /-- A loop that does not come to an end. -/
  | diverges
  /-- A key is waited for that has not been typed. -/
  | waiting
  deriving DecidableEq

/-- A signed result, which must be an `int`. -/
def checkInt (v : ℤ) : Except UserFault ℤ :=
  if -2 ^ 31 ≤ v ∧ v < 2 ^ 31 then .ok v else .error .signedOverflow

/-- The static buffer of `itoa`. -/
abbrev ItoaText := Vector Byte 12

/-- `text[loc] = c`. -/
def storeText (text : ItoaText) (loc : ℤ) (c : Byte) : Except UserFault ItoaText :=
  if h : 0 ≤ loc ∧ loc.toNat < 12 then .ok (text.set loc.toNat c h.2) else .error .outOfBounds

/-- The loop of `itoa`, over what is left of the number. The remainder has
the sign of the number. -/
def itoaLoop : ℕ → ItoaText → ℤ → ℤ → Except UserFault (ItoaText × ℤ)
  | 0, _, _, _ => .error .diverges
  | fuel + 1, text, loc, i =>
    if i = 0 then .ok (text, loc)
    else do
      let loc ← checkInt (loc - 1)
      let c ← checkInt (48 - i.tmod 10)
      let text ← storeText text loc (BitVec.ofInt 8 c)
      let i ← checkInt (i.tdiv 10)
      itoaLoop fuel text loc i

/-- The digits of `itoa`: those of the loop, and the one of zero. -/
def itoaDigits (text : ItoaText) (i : ℤ) : Except UserFault (ItoaText × ℤ) := do
  let (text, loc) ← itoaLoop (i.natAbs + 1) text 11 i
  if loc = 11 then do
    let loc ← checkInt (loc - 1)
    let text ← storeText text loc 0x30
    .ok (text, loc)
  else .ok (text, loc)

/-- `itoa`: the buffer, and the position in it that is returned. -/
def itoa (text : ItoaText) (i : ℤ) : Except UserFault (ItoaText × ℤ) := do
  let text ← storeText text 11 0
  let neg := decide (i < 0)
  let i ← if 0 ≤ i then checkInt (-i) else .ok i
  let (text, loc) ← itoaDigits text i
  if neg then do
    let loc ← checkInt (loc - 1)
    let text ← storeText text loc 0x2D
    .ok (text, loc)
  else .ok (text, loc)

/-- The string that starts here, up to its terminator. -/
def readString : List Byte → Except UserFault Cstring
  | [] => .error .outOfBounds
  | c :: cs => if c = 0 then .ok [] else do
    let str ← readString cs
    .ok (c :: str)

/-- A call that writes: of a character, or of a string. -/
inductive Output
  | putchar (c : Byte)
  | print (massage : Cstring)

/-- An argument of `printf`. -/
inductive VaArg
  | int (ival : Word)
  | str (sval : Cstring)

/-- `va_arg(ap, int)`. -/
def vaInt : List VaArg → Except UserFault (Word × List VaArg)
  | .int ival :: ap => .ok (ival, ap)
  | _ => .error .badArgument

/-- `va_arg(ap, char *)`. -/
def vaStr : List VaArg → Except UserFault (Cstring × List VaArg)
  | .str sval :: ap => .ok (sval, ap)
  | _ => .error .badArgument

/-- The loop of `printf`. `p` is the rest of the format with its
terminator, and nothing can be read behind it. -/
def printfLoop (text : ItoaText) :
    List Byte → List VaArg → Except UserFault (ItoaText × List Output)
  | [], _ => .error .outOfBounds
  | c :: p, ap =>
    if c = 0 then .ok (text, [])
    else if c ≠ 0x25 then do
      let (text, out) ← printfLoop text p ap
      .ok (text, .putchar c :: out)
    else match p with
      | [] => .error .outOfBounds
      | c :: p =>
        if c = 0x69 then do
          let (ival, ap) ← vaInt ap
          let (text, loc) ← itoa text ival.toInt
          let massage ← readString (text.toList.drop loc.toNat)
          let (text, out) ← printfLoop text p ap
          .ok (text, .print massage :: out)
        else if c = 0x73 then do
          let (sval, ap) ← vaStr ap
          let (text, out) ← printfLoop text p ap
          .ok (text, .print sval :: out)
        else do
          -- the terminator too, behind a `%` at the end
          let (text, out) ← printfLoop text p ap
          .ok (text, .putchar c :: out)

/-- `printf`, for a format `fmt`: its terminator is the last byte there
is. -/
def printf (text : ItoaText) (fmt : Cstring) (ap : List VaArg) :
    Except UserFault (ItoaText × List Output) :=
  printfLoop text (fmt ++ [0]) ap

end OwnKernel
