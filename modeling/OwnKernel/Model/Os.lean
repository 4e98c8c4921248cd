import OwnKernel.Model.UserString

/-!
# Reading and parsing a line (`os.c`)

`os_getkey` does not wait: it returns zero when no key has been typed. What
it returns, call after call, is a list here, and `os_getkey_block` skips
the zeros in it. So is what `os_malloc` returns: the blocks, with what they
hold.
-/

namespace OwnKernel

/-- `os_getkey_block`, with the keys left. -/
def osGetkeyBlock : List Byte → Except UserFault (Byte × List Byte)
  | [] => .error .waiting
  | val :: polls => if val = 0 then osGetkeyBlock polls else .ok (val, polls)

/-- `out[index] = c`. -/
def storeOut (out : List Byte) (index : ℤ) (c : Byte) : Except UserFault (List Byte) :=
  if 0 ≤ index ∧ index.toNat < out.length then .ok (out.set index.toNat c)
  else .error .outOfBounds

/-- The state of `os_terminal_readline`: its buffer, its index, the keys
that are left and the characters shown. -/
structure Readline where
  out : List Byte
  index : ℤ
  polls : List Byte
  shown : List Byte

/-- The loop of `os_terminal_readline`, from its test on. Each round takes
a key. -/
def readlineLoop (max : ℤ) (outputWhileTyping : Bool) : ℕ → Readline → Except UserFault Readline
  | 0, _ => .error .diverges
  | fuel + 1, r =>
    if r.index < max - 1 then do
      let (key, polls) ← osGetkeyBlock r.polls
      if key = 13 then .ok { r with polls := polls }
      else do
        let shown := if outputWhileTyping then r.shown ++ [key] else r.shown
        if key = 0x08 ∧ 1 ≤ r.index then do
          let out ← storeOut r.out (r.index - 1) 0
          readlineLoop max outputWhileTyping fuel ⟨out, r.index - 2 + 1, polls, shown⟩
        else do
          let out ← storeOut r.out r.index key
          readlineLoop max outputWhileTyping fuel ⟨out, r.index + 1, polls, shown⟩
    else .ok r

/-- `os_terminal_readline`. -/
def osTerminalReadline (out : List Byte) (max : ℤ) (outputWhileTyping : Bool) (polls : List Byte) :
    Except UserFault Readline := do
  let r ← readlineLoop max outputWhileTyping (polls.length + 1) ⟨out, 0, polls, []⟩
  let out ← storeOut r.out r.index 0
  .ok { r with out := out }

/-- `struct command_argument`. -/
structure CommandArgument where
  argument : List Byte
  next : Word

/-- Memory, the tokenizer's place in it, the arguments that are there, and
the blocks that `os_malloc` returns next. -/
structure ParseState where
  strtok : Strtok
  nodes : Word → Option CommandArgument
  blocks : List (Word × CommandArgument)

/-- `os_malloc(sizeof(struct command_argument))`. -/
def osMalloc (s : ParseState) : Word × ParseState :=
  match s.blocks with
  | [] => (0, s)
  | (p, node) :: blocks =>
    (p, { s with nodes := Function.update s.nodes p (some node), blocks := blocks })

/-- The node at `p`. -/
def readNode (s : ParseState) (p : Word) : Except UserFault CommandArgument :=
  match s.nodes p with
  | some node => .ok node
  | none => .error .outOfBounds

/-- The token is copied to the node at `p`, which is the last one. -/
def fillNode (s : ParseState) (p token : Word) : Except UserFault ParseState := do
  let node ← readNode s p
  let argument ← Stdlib.strncpy
    (fun _ i => loadUserByte s.strtok.mem (token + BitVec.ofNat 32 i))
    (fun argument i c => storeOut argument i c) 512 node.argument
  .ok { s with nodes := Function.update s.nodes p (some ⟨argument, 0⟩) }

/-- `current->next = new_command`. -/
def linkNode (s : ParseState) (current new : Word) : Except UserFault ParseState := do
  let node ← readNode s current
  .ok { s with nodes := Function.update s.nodes current (some { node with next := new }) }

/-- The loop of `os_parse_command`. -/
def osParseCommandLoop : ℕ → Word → Word → ParseState → Except UserFault ParseState
  | 0, _, _, _ => .error .diverges
  | fuel + 1, token, current, s =>
    if token = 0 then .ok s
    else do
      let (newCommand, s) := osMalloc s
      if newCommand = 0 then .ok s
      else do
        let s ← fillNode s newCommand token
        let s ← linkNode s current newCommand
        let (token, st) ← strtok 0 [0x20] s.strtok
        osParseCommandLoop fuel token newCommand { s with strtok := st }

/-- `sizeof(scommand)`. -/
def sizeofScommand : ℕ := 1025

/-- `os_parse_command`, with its array at `scommand`. -/
def osParseCommand (scommand command : Word) (max : ℤ) (s : ParseState) :
    Except UserFault (Word × ParseState) :=
  if sizeofScommand ≤ max then .ok (0, s)
  else do
    let mem ← Stdlib.strncpy (fun mem i => loadUserByte mem (command + BitVec.ofNat 32 i))
      (fun mem i c => storeUserByte mem (scommand + BitVec.ofNat 32 i) c) sizeofScommand s.strtok.mem
    let (token, st) ← strtok scommand [0x20] { s.strtok with mem := mem }
    let s := { s with strtok := st }
    if token = 0 then .ok (0, s)
    else do
      let (rootCommand, s) := osMalloc s
      if rootCommand = 0 then .ok (0, s)
      else do
        let s ← fillNode s rootCommand token
        let (token, st) ← strtok 0 [0x20] s.strtok
        let s ← osParseCommandLoop sizeofScommand token rootCommand { s with strtok := st }
        .ok (rootCommand, s)

end OwnKernel
