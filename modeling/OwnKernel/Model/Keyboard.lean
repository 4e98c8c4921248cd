import OwnKernel.Model.Kernel

/-!
# The keyboard buffer (`keyboard/keyboard.c`)

Characters typed go to the buffer of the current process, at `tail`, and
are read from the buffer of the current task's process, at `head`. A
character read leaves a zero behind, and a zero read means that there is
none.
-/

namespace OwnKernel

/-- `keyboard_get_tail_index`. `tail` is converted to the unsigned type of
`sizeof`. -/
def keyboardGetTailIndex (keyboard : KeyboardBuffer) : ℕ :=
  keyboard.tail.toNat % osKeyboardBufferSize

/-- The index `head` is at, in `keyboard_pop`. -/
def keyboardGetHeadIndex (keyboard : KeyboardBuffer) : ℕ :=
  keyboard.head.toNat % osKeyboardBufferSize

/-- The stores of `keyboard_push`. -/
def keyboardStore (keyboard : KeyboardBuffer) (c : Byte) : KeyboardBuffer :=
  { keyboard with
    buffer := Function.update keyboard.buffer (keyboardGetTailIndex keyboard) c
    tail := keyboard.tail + 1 }

/-- The stores of `keyboard_pop`. -/
def keyboardTake (keyboard : KeyboardBuffer) : KeyboardBuffer :=
  { keyboard with
    buffer := Function.update keyboard.buffer (keyboardGetHeadIndex keyboard) 0
    head := keyboard.head + 1 }

/-- `keyboard_push`. -/
def keyboardPush (c : Byte) : KernelM PUnit := do
  let k ← get
  if k.currentProcess = 0 then pure ⟨⟩
  else if c = 0 then pure ⟨⟩
  else modifyProcess k.currentProcess fun p => { p with keyboard := keyboardStore p.keyboard c }

/-- `keyboard_pop`. -/
def keyboardPop : KernelM Byte := do
  let k ← get
  if k.currentTask = 0 then pure 0
  else do
    let t ← readTask k.currentTask
    let p ← readProcess t.process
    let c := p.keyboard.buffer (keyboardGetHeadIndex p.keyboard)
    if c = 0 then pure 0
    else do
      modifyProcess t.process fun p => { p with keyboard := keyboardTake p.keyboard }
      pure c

/-- A call of the keyboard. -/
inductive KeyboardOp
  | push (c : Byte)
  | pop

/-- A sequence of calls, with what the pops return. -/
def keyboardRun : List KeyboardOp → KernelM (List Byte)
  | [] => pure []
  | .push c :: ops => do
    keyboardPush c
    keyboardRun ops
  | .pop :: ops => do
    let c ← keyboardPop
    let cs ← keyboardRun ops
    pure (c :: cs)

end OwnKernel
