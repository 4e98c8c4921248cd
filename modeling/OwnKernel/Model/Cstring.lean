import OwnKernel.Model.Config

/-!
# Character strings (`string/string.c`)

A C string is the list of its characters; what lies past the end of the
list reads as the terminator.
-/

namespace OwnKernel

/-- A character string, without its terminator. -/
abbrev Cstring := List Byte

/-- `strlen`. The terminator is counted too. -/
def strlen : Cstring → ℕ
  | [] => 1
  | c :: cs => if c = 0 then 1 else strlen cs + 1

/-- `strnlen`. The terminator is counted too. -/
def strnlen : Cstring → ℕ → ℕ
  | [], _ => 1
  | c :: cs, max =>
    if c = 0 then 1
    else match max with
      | 0 => 1
      | max + 1 => strnlen cs max + 1

/-- The loop of `strlen` over the bytes of an array, from index `len` on,
or `none` when it reads behind them. -/
def strlenLoop : List Byte → ℕ → Option ℕ
  | [], _ => none
  | c :: cs, len => if c = 0 then some (len + 1) else strlenLoop cs (len + 1)

/-- The loop of `strnlen` over the bytes of an array. A byte is read before
`max` is asked for. -/
def strnlenLoop : List Byte → ℕ → ℕ → Option ℕ
  | [], _, _ => none
  | c :: cs, max, len =>
    if c = 0 then some (len + 1)
    else match max with
      | 0 => some (len + 1)
      | max + 1 => strnlenLoop cs max (len + 1)

/-- `is_digit`. -/
def isDigit (c : Byte) : Bool := 48 ≤ c.toInt ∧ c.toInt ≤ 57

/-- `to_numeric_digit`. -/
def toNumericDigit (c : Byte) : ℤ := c.toInt - 48

/-- `tolower`. -/
def tolower (c : Byte) : Byte := if 64 ≤ c.toInt ∧ c.toInt ≤ 90 then c + 32 else c

/-- `istrncmp`. -/
def istrncmp : Cstring → Cstring → ℕ → ℤ
  | _, _, 0 => 0
  | s₁, s₂, n + 1 =>
    let u₁ := s₁.headD 0
    let u₂ := s₂.headD 0
    if u₁ ≠ u₂ ∧ tolower u₁ ≠ tolower u₂ then (u₁.toNat : ℤ) - u₂.toNat
    else if u₁ = 0 then 0
    else istrncmp s₁.tail s₂.tail n

/-- `strncmp`. -/
def strncmp : Cstring → Cstring → ℕ → ℤ
  | _, _, 0 => 0
  | s₁, s₂, n + 1 =>
    let u₁ := s₁.headD 0
    let u₂ := s₂.headD 0
    if u₁ ≠ u₂ then (u₁.toNat : ℤ) - u₂.toNat
    else if u₁ = 0 then 0
    else strncmp s₁.tail s₂.tail n

end OwnKernel
