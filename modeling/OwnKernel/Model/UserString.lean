import OwnKernel.Model.Stdlib

/-!
# Strings of user programs (`string.c`)

The tokenizer writes into the string it is given and keeps a pointer into
it from one call to the next. Memory has the bytes that a program may
read, and no others.
-/

namespace OwnKernel

/-- The bytes of memory that may be read. -/
abbrev UserMem := Word → Option Byte

/-- `*p`. -/
def loadUserByte (mem : UserMem) (p : Word) : Except UserFault Byte :=
  match mem p with
  | some c => .ok c
  | none => .error .outOfBounds

/-- `*p = c`. -/
def storeUserByte (mem : UserMem) (p : Word) (c : Byte) : Except UserFault UserMem :=
  match mem p with
  | some _ => .ok (Function.update mem p (some c))
  | none => .error .outOfBounds

/-- `is_delim`. -/
def isDelim (c : Byte) : Cstring → Bool
  | [] => false
  | d :: delim => if d = 0 then false else if c = d then true else isDelim c delim

/-- Memory, and `backup_string`. -/
structure Strtok where
  mem : UserMem
  backupString : Word

/-- The first loop of `strtok`: where the next token starts, if there is
one. -/
def strtokSkip (mem : UserMem) (delim : Cstring) : ℕ → Word → Except UserFault (Option Word)
  | 0, _ => .error .diverges
  | fuel + 1, srcString => do
    let c ← loadUserByte mem srcString
    if isDelim c delim then strtokSkip mem delim fuel (srcString + 1)
    else if c = 0 then .ok none
    else .ok (some srcString)

/-- The second loop of `strtok`, which ends the token. -/
def strtokToken (mem : UserMem) (delim : Cstring) : ℕ → Word → Except UserFault Strtok
  | 0, _ => .error .diverges
  | fuel + 1, srcString => do
    let c ← loadUserByte mem srcString
    if c = 0 then .ok ⟨mem, srcString⟩
    else if isDelim c delim then do
      let mem ← storeUserByte mem srcString 0
      .ok ⟨mem, srcString + 1⟩
    else strtokToken mem delim fuel (srcString + 1)

/-- `strtok`. Each loop passes over a byte of memory in each round. -/
def strtok (srcString : Word) (delim : Cstring) (s : Strtok) : Except UserFault (Word × Strtok) :=
  let srcString := if srcString = 0 then s.backupString else srcString
  if srcString = 0 then .ok (0, s)
  else do
    let ret ← strtokSkip s.mem delim (2 ^ 32) srcString
    match ret with
    | none => .ok (0, s)
    | some ret => do
      let s ← strtokToken s.mem delim (2 ^ 32) ret
      .ok (ret, s)

/-- The loop of `strncpy`, over whatever holds the two strings: `src` reads
byte `i` of the one, and `dest` writes byte `i` of the other. -/
def Stdlib.strncpyLoop {σ : Type} (src : σ → ℕ → Except UserFault Byte)
    (dest : σ → ℕ → Byte → Except UserFault σ) : ℕ → ℕ → σ → Except UserFault σ
  | 0, i, s => dest s i 0
  | n + 1, i, s => do
    let c ← src s i
    if c = 0 then dest s i 0
    else do
      let s ← dest s i c
      Stdlib.strncpyLoop src dest n (i + 1) s

/-- `strncpy`. -/
def Stdlib.strncpy {σ : Type} (src : σ → ℕ → Except UserFault Byte)
    (dest : σ → ℕ → Byte → Except UserFault σ) (count : ℤ) (s : σ) : Except UserFault σ :=
  Stdlib.strncpyLoop src dest (count - 1).toNat 0 s

/-- `strtok(s, delim)`, and then `strtok(NULL, delim)` as often as `n`:
what the calls return. -/
def strtokCalls (delim : Cstring) : ℕ → Word → Strtok → Except UserFault (List Word × Strtok)
  | 0, srcString, s => do
    let (ret, s) ← strtok srcString delim s
    .ok ([ret], s)
  | n + 1, srcString, s => do
    let (ret, s) ← strtok srcString delim s
    let (rets, s) ← strtokCalls delim n 0 s
    .ok (ret :: rets, s)

end OwnKernel
