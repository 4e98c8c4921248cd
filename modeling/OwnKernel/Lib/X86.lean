import OwnKernel.Lib.ByteMemory
import Mathlib.Logic.Function.Basic

/-!
# A small 32-bit x86

The instructions a context switch is written in, over a flat memory:
moves, pushes and pops, two arithmetic instructions, near calls and
`iretd`, and the interrupt that `iretd` returns from. A listing lies at
a base address, one instruction an address; nothing here depends on the
length of an encoding. `Stack` describes what pushes and pops have done
to a region below a starting stack pointer: the words pushed, and that
nothing outside the region changed.
`Tracked` describes a machine on its way through a listing by its stack
and its registers, and has a rule for each instruction.
-/

namespace OwnKernel

namespace X86

/-- A general register. -/
inductive Reg
  | eax | ebx | ecx | edx | esi | edi | ebp | esp
  deriving DecidableEq

/-- A data segment register. -/
inductive SegReg
  | ds | es | fs | gs
  deriving DecidableEq

/-- The processor and memory. `dpl` is the privilege level of the segment
a selector names. -/
structure Machine where
  reg : Reg → BitVec 32
  seg : SegReg → BitVec 16
  dpl : BitVec 16 → BitVec 16
  eip : BitVec 32
  eflags : BitVec 32
  cs : BitVec 16
  ss : BitVec 16
  mem : Mem

/-- An instruction. `load r b d` is `mov r, [b + d]`, `load16` the same
for the low half of `r`; `loadAbs` and `storeAbs` move from and to a fixed
address, `mov16` and `movImm16` the low half of a register. -/
inductive Instr
  | mov (d s : Reg)
  | mov16 (d s : Reg)
  | movImm16 (d : Reg) (imm : BitVec 16)
  | load (d b : Reg) (disp : ℕ)
  | load16 (d b : Reg) (disp : ℕ)
  | loadAbs (d : Reg) (address : BitVec 32)
  | storeAbs (address : BitVec 32) (s : Reg)
  | movSeg (d : SegReg) (s : Reg)
  | push (s : Reg)
  | pushMem (b : Reg) (disp : ℕ)
  | pushf
  | pop (d : Reg)
  | pushad
  | popad
  | orImm (d : Reg) (imm : BitVec 32)
  | addImm (d : Reg) (imm : BitVec 32)
  | call (target : ℕ)
  | ret
  | iretd
  deriving DecidableEq

/-- The status flags: CF, PF, AF, ZF, SF and OF. -/
def statusFlags : BitVec 32 := 0x8D5

/-- The interrupt flag. -/
def interruptFlag : BitVec 32 := 0x200

/-- The flags a result sets by itself: ZF, SF and PF. -/
def resultFlags (r : BitVec 32) : BitVec 32 :=
  (if r = 0 then 0x40 else 0) ||| (if r.msb then 0x80 else 0) |||
    (if (List.range 8).countP (fun i => r.getLsbD i) % 2 = 0 then 0x4 else 0)

/-- The flags of an addition. -/
def addFlags (a b : BitVec 32) : BitVec 32 :=
  resultFlags (a + b) ||| (if (a + b).toNat < a.toNat then 0x1 else 0) |||
    (if a.toNat % 16 + b.toNat % 16 < 16 then 0 else 0x10) |||
    (if a.msb = b.msb ∧ (a + b).msb ≠ a.msb then 0x800 else 0)

namespace Machine

/-- Write a register. -/
def setReg (m : Machine) (r : Reg) (v : BitVec 32) : Machine :=
  { m with reg := Function.update m.reg r v }

/-- Write the status flags. -/
def setStatus (m : Machine) (f : BitVec 32) : Machine :=
  { m with eflags := (m.eflags &&& ~~~ statusFlags) ||| (f &&& statusFlags) }

/-- The effective address `[b + disp]`. -/
def address (m : Machine) (b : Reg) (disp : ℕ) : BitVec 32 := m.reg b + BitVec.ofNat 32 disp

/-- Push a word. -/
def push (m : Machine) (w : BitVec 32) : Machine :=
  { m.setReg .esp (m.reg .esp - 4) with mem := m.mem.store32 (m.reg .esp - 4) w }

/-- The word on top of the stack. -/
def top (m : Machine) : BitVec 32 := m.mem.load32 (m.reg .esp)

/-- Take the word on top off. -/
def drop (m : Machine) : Machine := m.setReg .esp (m.reg .esp + 4)

/-- Write the low half of a register. -/
def setLow (m : Machine) (r : Reg) (v : BitVec 16) : Machine :=
  m.setReg r ((m.reg r &&& 0xFFFF0000) ||| v.setWidth 32)

/-- `pushad`: the general registers, with `esp` as it was. -/
def pushad (m : Machine) : Machine :=
  (((((((m.push (m.reg .eax)).push (m.reg .ecx)).push (m.reg .edx)).push (m.reg .ebx)).push
    (m.reg .esp)).push (m.reg .ebp)).push (m.reg .esi)).push (m.reg .edi)

/-- `popad`: the general registers but `esp`. -/
def popad (m : Machine) : Machine :=
  { m with reg := fun
    | .edi => m.mem.load32 (m.reg .esp)
    | .esi => m.mem.load32 (m.reg .esp + 4)
    | .ebp => m.mem.load32 (m.reg .esp + 8)
    | .ebx => m.mem.load32 (m.reg .esp + 16)
    | .edx => m.mem.load32 (m.reg .esp + 20)
    | .ecx => m.mem.load32 (m.reg .esp + 24)
    | .eax => m.mem.load32 (m.reg .esp + 28)
    | .esp => m.reg .esp + 32 }

/-- `iretd` in kernel mode: on a return to another privilege level the
stack is popped too, and a data segment register whose segment that level
may not use is cleared. -/
def iretd (m : Machine) : Machine :=
  let selector := m.mem.load32 (m.reg .esp + 4)
  let m' := { m.setReg .esp (m.reg .esp + 12) with
    eip := m.top
    cs := selector.setWidth 16
    eflags := m.mem.load32 (m.reg .esp + 8) }
  if selector.setWidth 16 &&& 3 = m.cs &&& 3 then m'
  else { m'.setReg .esp (m.mem.load32 (m.reg .esp + 12)) with
    ss := (m.mem.load32 (m.reg .esp + 16)).setWidth 16
    seg := fun r => if m.dpl (m.seg r) < selector.setWidth 16 &&& 3 then 0 else m.seg r }

/-- **An interrupt of a user** through an interrupt gate to `cs₀:target`,
with the kernel's stack at `ss₀:esp₀`. The flags TF, IF, NT, RF and VM are
cleared. -/
def interrupt (m : Machine) (ss₀ : BitVec 16) (esp₀ : BitVec 32) (cs₀ : BitVec 16)
    (target : BitVec 32) : Machine :=
  let m' := (((((m.setReg .esp esp₀).push (m.ss.setWidth 32)).push (m.reg .esp)).push
    m.eflags).push (m.cs.setWidth 32)).push m.eip
  { m' with
    eip := target
    eflags := m.eflags &&& ~~~ 0x34300
    cs := cs₀
    ss := ss₀ }

@[simp] theorem setReg_self (m : Machine) (r : Reg) (v : BitVec 32) : (m.setReg r v).reg r = v :=
  Function.update_self ..

theorem setReg_of_ne {m : Machine} {r q : Reg} {v : BitVec 32} (h : q ≠ r) :
    (m.setReg r v).reg q = m.reg q := Function.update_of_ne h ..

@[simp] theorem push_esp (m : Machine) (w : BitVec 32) :
    (m.push w).reg .esp = m.reg .esp - 4 := setReg_self m .esp (m.reg .esp - 4)

theorem push_of_ne {m : Machine} {w : BitVec 32} {q : Reg} (h : q ≠ .esp) :
    (m.push w).reg q = m.reg q := setReg_of_ne h

/-- `pushad` moves the stack pointer only. -/
theorem pushad_of_ne {m : Machine} {q : Reg} (h : q ≠ .esp) : m.pushad.reg q = m.reg q := by
  simp only [pushad, push_of_ne h]

@[simp] theorem drop_esp (m : Machine) : m.drop.reg .esp = m.reg .esp + 4 :=
  setReg_self m .esp (m.reg .esp + 4)

end Machine

/-- One instruction, with `eip` past it. A call goes to an instruction of
the listing at `base`; `or` leaves AF, which is undefined there, clear. -/
def Instr.exec (base : BitVec 32) (m : Machine) : Instr → Machine
  | .mov d s => m.setReg d (m.reg s)
  | .mov16 d s => m.setLow d ((m.reg s).setWidth 16)
  | .movImm16 d imm => m.setLow d imm
  | .load d b disp => m.setReg d (m.mem.load32 (m.address b disp))
  | .load16 d b disp => m.setReg d ((m.reg d &&& 0xFFFF0000) |||
      (m.mem.load16 (m.address b disp)).setWidth 32)
  | .loadAbs d address => m.setReg d (m.mem.load32 address)
  | .storeAbs address s => { m with mem := m.mem.store32 address (m.reg s) }
  | .movSeg d s => { m with seg := Function.update m.seg d ((m.reg s).setWidth 16) }
  | .push s => m.push (m.reg s)
  | .pushMem b disp => m.push (m.mem.load32 (m.address b disp))
  | .pushf => m.push (m.eflags &&& 0x00FCFFFF)
  | .pop d => m.drop.setReg d m.top
  | .pushad => m.pushad
  | .popad => m.popad
  | .orImm d imm => (m.setReg d (m.reg d ||| imm)).setStatus (resultFlags (m.reg d ||| imm))
  | .addImm d imm => (m.setReg d (m.reg d + imm)).setStatus (addFlags (m.reg d) imm)
  | .call target => { m.push m.eip with eip := base + BitVec.ofNat 32 target }
  | .ret => { m.drop with eip := m.top }
  | .iretd => m.iretd

/-- Fetch and execute one instruction of the listing. -/
def step (base : BitVec 32) (code : List Instr) (m : Machine) : Option Machine :=
  code[(m.eip - base).toNat]?.map fun i => i.exec base { m with eip := m.eip + 1 }

/-- `n` instructions. -/
def run (base : BitVec 32) (code : List Instr) : ℕ → Machine → Option Machine
  | 0, m => some m
  | n + 1, m => (step base code m).bind (run base code n)

variable {base : BitVec 32} {code : List Instr} {m m' : Machine} {i : Instr} {k k' n n' : ℕ}

/-- **One instruction of a run**, by its index in the listing. -/
theorem run_succ (hi : code[k]? = some i) (hk : k < 2 ^ 32)
    (hpc : m.eip = base + BitVec.ofNat 32 k) :
    run base code (n + 1) m =
      run base code n (i.exec base { m with eip := base + BitVec.ofNat 32 (k + 1) }) := by
  have hidx : (m.eip - base).toNat = k := by
    rw [hpc, BitVec.add_comm, BitVec.add_sub_cancel, BitVec.toNat_ofNat, Nat.mod_eq_of_lt hk]
  have hnext : m.eip + 1 = base + BitVec.ofNat 32 (k + 1) := by
    rw [hpc, BitVec.add_assoc, BitVec.ofNat_add]
    rfl
  rw [run, step, hidx, hi, Option.map_some, Option.bind_some, hnext]

/-! ## The stack -/

/-- **The stack after pushes and pops** that started at `top` over the
memory `m₀` and never go deeper than `depth` words. -/
structure Stack (m₀ : Mem) (top : BitVec 32) (depth : ℕ) (m : Mem) (sp : BitVec 32)
    (ws : List (BitVec 32)) : Prop where
  small : depth < 2 ^ 20
  len : ws.length ≤ depth
  sp_eq : sp = top - BitVec.ofNat 32 (4 * ws.length)
  words : ∀ i w, ws[i]? = some w → m.load32 (sp + BitVec.ofNat 32 (4 * i)) = w
  frame : ∀ x, ¬ InRange (top - BitVec.ofNat 32 (4 * depth)) (4 * depth) x → m x = m₀ x

namespace Stack

variable {m₀ mem : Mem} {top sp w a : BitVec 32} {depth : ℕ} {ws : List (BitVec 32)}

/-- Nothing pushed yet. -/
theorem nil (h : depth < 2 ^ 20) : Stack m₀ top depth m₀ top [] :=
  ⟨h, Nat.zero_le _, by simp, by simp, fun _ _ => rfl⟩

/-- A word pushed. -/
theorem push (h : Stack m₀ top depth mem sp ws) (hlt : ws.length < depth) (w : BitVec 32) :
    Stack m₀ top depth (mem.store32 (sp - 4) w) (sp - 4) (w :: ws) where
  small := h.small
  len := hlt
  sp_eq := by
    have := h.small
    rw [h.sp_eq, List.length_cons]
    bv_omega
  words i v hv := by
    have hsmall := h.small
    have hsp := h.sp_eq
    have hlen := h.len
    cases i with
    | zero =>
      obtain rfl : w = v := by simpa using hv
      simp
    | succ i =>
      rw [List.getElem?_cons_succ] at hv
      have hi : i < ws.length := (List.getElem?_eq_some_iff.1 hv).1
      have ha : sp - 4 + BitVec.ofNat 32 (4 * (i + 1)) = sp + BitVec.ofNat 32 (4 * i) := by bv_omega
      rw [ha, Mem.load32_store32_of_ne (by bv_omega) (by bv_omega)]
      exact h.words i v hv
  frame x hx := by
    have hsmall := h.small
    have hsp := h.sp_eq
    rw [Mem.store32_of_not_mem, h.frame x hx]
    intro hin
    refine hx ?_
    unfold InRange at hin ⊢
    bv_omega

/-- The word on top. -/
theorem top_eq (h : Stack m₀ top depth mem sp (w :: ws)) : mem.load32 sp = w := by
  have := h.words 0 w rfl
  rwa [Nat.mul_zero, BitVec.add_zero] at this

/-- The word on top taken off. -/
theorem pop (h : Stack m₀ top depth mem sp (w :: ws)) : Stack m₀ top depth mem (sp + 4) ws where
  small := h.small
  len := Nat.le_of_succ_le h.len
  sp_eq := by
    have := h.small
    have := h.len
    have hsp := h.sp_eq
    rw [List.length_cons] at hsp this
    bv_omega
  words i v hv := by
    have := h.words (i + 1) v hv
    rwa [Nat.mul_add_one, Nat.add_comm, BitVec.ofNat_add, ← BitVec.add_assoc] at this
  frame := h.frame

/-- The machine's own pushes. -/
theorem pushed {m : Machine} (h : Stack m₀ top depth m.mem (m.reg .esp) ws)
    (hlt : ws.length < depth) (w : BitVec 32) :
    Stack m₀ top depth (m.push w).mem ((m.push w).reg .esp) (w :: ws) := by
  rw [Machine.push_esp]
  exact h.push hlt w

/-- `pushad` pushes eight words. -/
theorem pushad {m : Machine} (h : Stack m₀ top depth m.mem (m.reg .esp) ws)
    (hlt : ws.length + 8 ≤ depth) :
    Stack m₀ top depth m.pushad.mem (m.pushad.reg .esp)
      (m.reg .edi :: m.reg .esi :: m.reg .ebp :: m.reg .esp :: m.reg .ebx :: m.reg .edx ::
        m.reg .ecx :: m.reg .eax :: ws) := by
  have h₁ := h.pushed (by omega) (m.reg .eax)
  have h₂ := h₁.pushed (by rw [List.length_cons]; omega) (m.reg .ecx)
  have h₃ := h₂.pushed (by simp only [List.length_cons]; omega) (m.reg .edx)
  have h₄ := h₃.pushed (by simp only [List.length_cons]; omega) (m.reg .ebx)
  have h₅ := h₄.pushed (by simp only [List.length_cons]; omega) (m.reg .esp)
  have h₆ := h₅.pushed (by simp only [List.length_cons]; omega) (m.reg .ebp)
  have h₇ := h₆.pushed (by simp only [List.length_cons]; omega) (m.reg .esi)
  exact h₇.pushed (by simp only [List.length_cons]; omega) (m.reg .edi)

/-- **An interrupt's frame** on the kernel's stack. -/
theorem interrupt {m : Machine} {ss₀ cs₀ : BitVec 16} {esp₀ target : BitVec 32} (h5 : 5 ≤ depth)
    (hsmall : depth < 2 ^ 20) :
    Stack m.mem esp₀ depth (m.interrupt ss₀ esp₀ cs₀ target).mem
      ((m.interrupt ss₀ esp₀ cs₀ target).reg .esp)
      [m.eip, m.cs.setWidth 32, m.eflags, m.reg .esp, m.ss.setWidth 32] := by
  have h₀ : Stack m.mem esp₀ depth (m.setReg .esp esp₀).mem ((m.setReg .esp esp₀).reg .esp) [] := by
    rw [Machine.setReg_self]
    exact .nil hsmall
  have h₁ := h₀.pushed (by rw [List.length_nil]; omega) (m.ss.setWidth 32)
  have h₂ := h₁.pushed (by simp only [List.length_cons, List.length_nil]; omega) (m.reg .esp)
  have h₃ := h₂.pushed (by simp only [List.length_cons, List.length_nil]; omega) m.eflags
  have h₄ := h₃.pushed (by simp only [List.length_cons, List.length_nil]; omega) (m.cs.setWidth 32)
  exact h₄.pushed (by simp only [List.length_cons, List.length_nil]; omega) m.eip

/-- A word stored away from the region. -/
theorem store32 (h : Stack m₀ top depth mem sp ws) (v : BitVec 32)
    (ha : ∀ x, InRange a 4 x → ¬ InRange (top - BitVec.ofNat 32 (4 * depth)) (4 * depth) x) :
    Stack (m₀.store32 a v) top depth (mem.store32 a v) sp ws where
  small := h.small
  len := h.len
  sp_eq := h.sp_eq
  words i w hw := by
    rw [← h.words i w hw]
    have hi : i < ws.length := (List.getElem?_eq_some_iff.1 hw).1
    refine Mem.load32_congr fun x hx => Mem.store32_of_not_mem fun hin => ha x hin ?_
    have hsmall := h.small
    have hsp := h.sp_eq
    have hlen := h.len
    unfold InRange at hx ⊢
    bv_omega
  frame x hx := by
    by_cases hin : InRange a 4 x
    · exact (Mem.store_of_mem hin).trans (Mem.store_of_mem hin).symm
    · rw [Mem.store32_of_not_mem hin, Mem.store32_of_not_mem hin, h.frame x hx]

/-- A word outside the region is what it was. -/
theorem load32_eq (h : Stack m₀ top depth mem sp ws)
    (ha : ∀ x, InRange a 4 x → ¬ InRange (top - BitVec.ofNat 32 (4 * depth)) (4 * depth) x) :
    mem.load32 a = m₀.load32 a :=
  Mem.load32_congr fun x hx => h.frame x (ha x hx)

end Stack

/-! ## Going through a listing -/

/-- **A machine at index `k` of a listing**, after starting with the
stack pointer `top` over the memory `m₀`: its registers but `esp` are
`g`, its data segment registers `sg`, its flags `e`, its code segment
`c`, and it has pushed `ws`. -/
structure Tracked (base : BitVec 32) (code : List Instr) (m₀ : Mem) (top : BitVec 32) (depth : ℕ)
    (c : BitVec 16) (pl : BitVec 16 → BitVec 16) (k : ℕ) (g : Reg → BitVec 32)
    (sg : SegReg → BitVec 16) (e : BitVec 32) (ws : List (BitVec 32)) (m : Machine) : Prop where
  small : code.length < 2 ^ 32
  eip : m.eip = base + BitVec.ofNat 32 k
  reg : ∀ q, q ≠ .esp → m.reg q = g q
  seg : m.seg = sg
  dpl : m.dpl = pl
  eflags : m.eflags = e
  cs : m.cs = c
  stack : Stack m₀ top depth m.mem (m.reg .esp) ws

namespace Tracked

variable {m₀ : Mem} {top : BitVec 32} {depth : ℕ} {c : BitVec 16}
  {pl : BitVec 16 → BitVec 16} {g : Reg → BitVec 32} {sg : SegReg → BitVec 16}
  {e w v imm a : BitVec 32} {ws : List (BitVec 32)} {d s b : Reg} {disp target j : ℕ}

theorem lt (h : Tracked base code m₀ top depth c pl k g sg e ws m) (hi : code[k]? = some i) :
    k < 2 ^ 32 := (List.getElem?_eq_some_iff.1 hi).1.trans h.small

/-- Registers after one of them is written. -/
theorem reg_update (h : ∀ q, q ≠ .esp → m.reg q = g q) (v : BitVec 32) :
    ∀ q, q ≠ .esp → (m.setReg d v).reg q = Function.update g d v q := by
  intro q hq
  by_cases hqd : q = d
  · rw [hqd, Function.update_self, Machine.setReg_self]
  · rw [Function.update_of_ne hqd, Machine.setReg_of_ne hqd, h q hq]

/-- The stack pointer after another register is written. -/
theorem esp_update (hd : d ≠ .esp) (v : BitVec 32) : (m.setReg d v).reg .esp = m.reg .esp :=
  Machine.setReg_of_ne hd.symm

/-- `mov d, s`. -/
theorem mov (h : Tracked base code m₀ top depth c pl k g sg e ws m) (hi : code[k]? = some (.mov d s))
    (hd : d ≠ .esp) (hs : m.reg s = v) :
    ∃ m', (∀ n, run base code (n + 1) m = run base code n m') ∧
      Tracked base code m₀ top depth c pl (k + 1) (Function.update g d v) sg e ws m' := by
  refine ⟨_, fun _ => run_succ hi (h.lt hi) h.eip, ?_⟩
  have hstack := h.stack
  rw [← esp_update hd (m.reg s)] at hstack
  exact ⟨h.small, rfl, hs ▸ reg_update h.reg _, h.seg, h.dpl, h.eflags, h.cs, hstack⟩

/-- `mov d, [b + disp]`. -/
theorem load (h : Tracked base code m₀ top depth c pl k g sg e ws m)
    (hi : code[k]? = some (.load d b disp)) (hd : d ≠ .esp)
    (hv : m.mem.load32 (m.address b disp) = v) :
    ∃ m', (∀ n, run base code (n + 1) m = run base code n m') ∧
      Tracked base code m₀ top depth c pl (k + 1) (Function.update g d v) sg e ws m' := by
  refine ⟨_, fun _ => run_succ hi (h.lt hi) h.eip, ?_⟩
  have hstack := h.stack
  rw [← esp_update hd (m.mem.load32 (m.address b disp))] at hstack
  exact ⟨h.small, rfl, hv ▸ reg_update h.reg _, h.seg, h.dpl, h.eflags, h.cs, hstack⟩

/-- `mov d, [b + disp]` for the low half of `d`. -/
theorem load16 (h : Tracked base code m₀ top depth c pl k g sg e ws m)
    (hi : code[k]? = some (.load16 d b disp)) (hd : d ≠ .esp) :
    ∃ v m', (∀ n, run base code (n + 1) m = run base code n m') ∧
      Tracked base code m₀ top depth c pl (k + 1) (Function.update g d v) sg e ws m' := by
  refine ⟨(m.reg d &&& 0xFFFF0000) ||| (m.mem.load16 (m.address b disp)).setWidth 32, _,
    fun _ => run_succ hi (h.lt hi) h.eip, ?_⟩
  have hstack := h.stack
  rw [← esp_update hd ((m.reg d &&& 0xFFFF0000) |||
    (m.mem.load16 (m.address b disp)).setWidth 32)] at hstack
  exact ⟨h.small, rfl, reg_update h.reg _, h.seg, h.dpl, h.eflags, h.cs, hstack⟩

/-- `mov` to a segment register. -/
theorem movSeg {sr : SegReg} (h : Tracked base code m₀ top depth c pl k g sg e ws m)
    (hi : code[k]? = some (.movSeg sr s)) :
    ∃ sg' m', (∀ n, run base code (n + 1) m = run base code n m') ∧
      Tracked base code m₀ top depth c pl (k + 1) g sg' e ws m' :=
  ⟨_, _, fun _ => run_succ hi (h.lt hi) h.eip, h.small, rfl, h.reg, rfl, h.dpl, h.eflags, h.cs, h.stack⟩

/-- A word pushed, whatever it is. -/
theorem pushed (h : Tracked base code m₀ top depth c pl k g sg e ws m) (hlt : ws.length < depth) :
    Tracked base code m₀ top depth c pl k' g sg e (w :: ws)
      { m.push w with eip := base + BitVec.ofNat 32 k' } where
  small := h.small
  eip := rfl
  reg q hq := (Machine.setReg_of_ne hq).trans (h.reg q hq)
  seg := h.seg
  dpl := h.dpl
  eflags := h.eflags
  cs := h.cs
  stack := h.stack.pushed hlt w

/-- `push s`. -/
theorem push (h : Tracked base code m₀ top depth c pl k g sg e ws m) (hi : code[k]? = some (.push s))
    (hlt : ws.length < depth) (hs : m.reg s = v) :
    ∃ m', (∀ n, run base code (n + 1) m = run base code n m') ∧
      Tracked base code m₀ top depth c pl (k + 1) g sg e (v :: ws) m' :=
  ⟨_, fun _ => run_succ hi (h.lt hi) h.eip, hs ▸ h.pushed hlt⟩

/-- `push dword [b + disp]`. -/
theorem pushMem (h : Tracked base code m₀ top depth c pl k g sg e ws m)
    (hi : code[k]? = some (.pushMem b disp)) (hlt : ws.length < depth)
    (hv : m.mem.load32 (m.address b disp) = v) :
    ∃ m', (∀ n, run base code (n + 1) m = run base code n m') ∧
      Tracked base code m₀ top depth c pl (k + 1) g sg e (v :: ws) m' :=
  ⟨_, fun _ => run_succ hi (h.lt hi) h.eip, hv ▸ h.pushed hlt⟩

/-- `pushf`. -/
theorem pushf (h : Tracked base code m₀ top depth c pl k g sg e ws m) (hi : code[k]? = some .pushf)
    (hlt : ws.length < depth) :
    ∃ m', (∀ n, run base code (n + 1) m = run base code n m') ∧
      Tracked base code m₀ top depth c pl (k + 1) g sg e ((e &&& 0x00FCFFFF) :: ws) m' :=
  ⟨_, fun _ => run_succ hi (h.lt hi) h.eip, by
    rw [← h.eflags]
    exact ({ h with eflags := rfl } : Tracked base code m₀ top depth c pl k g sg m.eflags ws m).pushed hlt⟩

/-- `pop d`. -/
theorem pop (h : Tracked base code m₀ top depth c pl k g sg e (w :: ws) m)
    (hi : code[k]? = some (.pop d)) (hd : d ≠ .esp) :
    ∃ m', (∀ n, run base code (n + 1) m = run base code n m') ∧
      Tracked base code m₀ top depth c pl (k + 1) (Function.update g d w) sg e ws m' := by
  refine ⟨_, fun _ => run_succ hi (h.lt hi) h.eip, h.small, rfl, ?_, h.seg, h.dpl, h.eflags, h.cs, ?_⟩
  · have hdrop : ∀ q, q ≠ .esp → m.drop.reg q = g q := fun q hq =>
      (Machine.setReg_of_ne hq).trans (h.reg q hq)
    have htop : m.top = w := h.stack.top_eq
    exact htop ▸ reg_update hdrop _
  · change Stack m₀ top depth m.mem ((m.drop.setReg d m.top).reg .esp) ws
    rw [esp_update hd, Machine.drop_esp]
    exact h.stack.pop

/-- `or d, imm`. -/
theorem orImm (h : Tracked base code m₀ top depth c pl k g sg e ws m)
    (hi : code[k]? = some (.orImm d imm)) (hd : d ≠ .esp) (hv : m.reg d = v) :
    ∃ e' m', (∀ n, run base code (n + 1) m = run base code n m') ∧
      Tracked base code m₀ top depth c pl (k + 1) (Function.update g d (v ||| imm)) sg e' ws m' := by
  refine ⟨_, _, fun _ => run_succ hi (h.lt hi) h.eip, h.small, rfl, ?_, h.seg, h.dpl, rfl, h.cs,
    ?_⟩
  · exact hv ▸ reg_update h.reg _
  · have hstack := h.stack
    rwa [← esp_update hd (m.reg d ||| imm)] at hstack

/-- `add esp, 4`. -/
theorem addEsp (h : Tracked base code m₀ top depth c pl k g sg e (w :: ws) m)
    (hi : code[k]? = some (.addImm .esp 4)) :
    ∃ e' m', (∀ n, run base code (n + 1) m = run base code n m') ∧
      Tracked base code m₀ top depth c pl (k + 1) g sg e' ws m' := by
  refine ⟨_, _, fun _ => run_succ hi (h.lt hi) h.eip, h.small, rfl, ?_, h.seg, h.dpl, rfl, h.cs,
    ?_⟩
  · exact fun q hq => (Machine.setReg_of_ne hq).trans (h.reg q hq)
  · change Stack m₀ top depth m.mem ((m.setReg .esp (m.reg .esp + 4)).reg .esp) ws
    rw [Machine.setReg_self]
    exact h.stack.pop

/-- `call`. -/
theorem call (h : Tracked base code m₀ top depth c pl k g sg e ws m)
    (hi : code[k]? = some (.call target)) (hlt : ws.length < depth) :
    ∃ m', (∀ n, run base code (n + 1) m = run base code n m') ∧
      Tracked base code m₀ top depth c pl target g sg e ((base + BitVec.ofNat 32 (k + 1)) :: ws) m' :=
  ⟨_, fun _ => run_succ hi (h.lt hi) h.eip, h.pushed hlt⟩

/-- `ret`. -/
theorem ret (h : Tracked base code m₀ top depth c pl k g sg e ((base + BitVec.ofNat 32 j) :: ws) m)
    (hi : code[k]? = some .ret) :
    ∃ m', (∀ n, run base code (n + 1) m = run base code n m') ∧
      Tracked base code m₀ top depth c pl j g sg e ws m' := by
  refine ⟨_, fun _ => run_succ hi (h.lt hi) h.eip, h.small, h.stack.top_eq, ?_, h.seg, h.dpl,
    h.eflags, h.cs, ?_⟩
  · exact fun q hq => (Machine.setReg_of_ne hq).trans (h.reg q hq)
  · change Stack m₀ top depth m.mem (m.drop.reg .esp) ws
    rw [Machine.drop_esp]
    exact h.stack.pop

/-- `pushad`. -/
theorem pushad (h : Tracked base code m₀ top depth c pl k g sg e ws m)
    (hi : code[k]? = some .pushad) (hlt : ws.length + 8 ≤ depth) :
    ∃ m', (∀ n, run base code (n + 1) m = run base code n m') ∧
      Tracked base code m₀ top depth c pl (k + 1) g sg e (g .edi :: g .esi :: g .ebp :: m.reg .esp ::
        g .ebx :: g .edx :: g .ecx :: g .eax :: ws) m' := by
  refine ⟨_, fun _ => run_succ hi (h.lt hi) h.eip, h.small, rfl, ?_, h.seg, h.dpl, h.eflags, h.cs, ?_⟩
  · exact fun q hq => (Machine.pushad_of_ne hq).trans (h.reg q hq)
  · have hstack := Stack.pushad (m := { m with eip := base + BitVec.ofNat 32 (k + 1) }) h.stack hlt
    rw [← h.reg .edi (by decide), ← h.reg .esi (by decide), ← h.reg .ebp (by decide),
      ← h.reg .ebx (by decide), ← h.reg .edx (by decide), ← h.reg .ecx (by decide),
      ← h.reg .eax (by decide)]
    exact hstack

/-- `push esp`. -/
theorem pushEsp (h : Tracked base code m₀ top depth c pl k g sg e ws m)
    (hi : code[k]? = some (.push .esp)) (hlt : ws.length < depth) :
    ∃ m', (∀ n, run base code (n + 1) m = run base code n m') ∧
      Tracked base code m₀ top depth c pl (k + 1) g sg e (m.reg .esp :: ws) m' :=
  h.push hi hlt rfl

/-- `mov d, [a]`. -/
theorem loadAbs (h : Tracked base code m₀ top depth c pl k g sg e ws m)
    (hi : code[k]? = some (.loadAbs d a)) (hd : d ≠ .esp) (hv : m.mem.load32 a = v) :
    ∃ m', (∀ n, run base code (n + 1) m = run base code n m') ∧
      Tracked base code m₀ top depth c pl (k + 1) (Function.update g d v) sg e ws m' := by
  refine ⟨_, fun _ => run_succ hi (h.lt hi) h.eip, ?_⟩
  have hstack := h.stack
  rw [← esp_update hd (m.mem.load32 a)] at hstack
  exact ⟨h.small, rfl, hv ▸ reg_update h.reg _, h.seg, h.dpl, h.eflags, h.cs, hstack⟩

/-- `mov [a], s`, away from the stack. -/
theorem storeAbs (h : Tracked base code m₀ top depth c pl k g sg e ws m)
    (hi : code[k]? = some (.storeAbs a s)) (hs : m.reg s = v)
    (ha : ∀ x, InRange a 4 x → ¬ InRange (top - BitVec.ofNat 32 (4 * depth)) (4 * depth) x) :
    ∃ m', (∀ n, run base code (n + 1) m = run base code n m') ∧
      Tracked base code (m₀.store32 a v) top depth c pl (k + 1) g sg e ws m' :=
  ⟨_, fun _ => run_succ hi (h.lt hi) h.eip, h.small, rfl, h.reg, h.seg, h.dpl, h.eflags, h.cs,
    hs ▸ h.stack.store32 (m.reg s) ha⟩

/-- `add esp, 8`. -/
theorem addEsp8 (h : Tracked base code m₀ top depth c pl k g sg e (w :: v :: ws) m)
    (hi : code[k]? = some (.addImm .esp 8)) :
    ∃ e' m', (∀ n, run base code (n + 1) m = run base code n m') ∧
      Tracked base code m₀ top depth c pl (k + 1) g sg e' ws m' := by
  refine ⟨_, _, fun _ => run_succ hi (h.lt hi) h.eip, h.small, rfl, ?_, h.seg, h.dpl, rfl, h.cs,
    ?_⟩
  · exact fun q hq => (Machine.setReg_of_ne hq).trans (h.reg q hq)
  · change Stack m₀ top depth m.mem ((m.setReg .esp (m.reg .esp + 8)).reg .esp) ws
    rw [Machine.setReg_self, show m.reg .esp + 8 = m.reg .esp + 4 + 4 by bv_omega]
    exact h.stack.pop.pop

/-- `popad`. -/
theorem popad {edi esi ebp esp ebx edx ecx eax : BitVec 32}
    (h : Tracked base code m₀ top depth c pl k g sg e
      (edi :: esi :: ebp :: esp :: ebx :: edx :: ecx :: eax :: ws) m)
    (hi : code[k]? = some .popad) :
    ∃ g' m', (∀ n, run base code (n + 1) m = run base code n m') ∧
      Tracked base code m₀ top depth c pl (k + 1) g' sg e ws m' ∧
      (g' .edi = edi ∧ g' .esi = esi ∧ g' .ebp = ebp) ∧
      g' .ebx = ebx ∧ g' .edx = edx ∧ g' .ecx = ecx ∧ g' .eax = eax := by
  have hw := h.stack.words
  refine ⟨m.popad.reg, _, fun _ => run_succ hi (h.lt hi) h.eip,
    ⟨h.small, rfl, fun _ _ => rfl, h.seg, h.dpl, h.eflags, h.cs, ?_⟩,
    ⟨h.stack.top_eq, hw 1 _ rfl, hw 2 _ rfl⟩, hw 4 _ rfl, hw 5 _ rfl, hw 6 _ rfl, hw 7 _ rfl⟩
  have hstack := h.stack.pop.pop.pop.pop.pop.pop.pop.pop
  rw [show m.reg .esp + 4 + 4 + 4 + 4 + 4 + 4 + 4 + 4 = m.reg .esp + 32 by bv_omega] at hstack
  exact hstack

/-- **`iretd` to another privilege level** pops the five words of the
frame. -/
theorem iretd {ip cs flags esp ss : BitVec 32}
    (h : Tracked base code m₀ top depth c pl k g sg e (ip :: cs :: flags :: esp :: ss :: ws) m)
    (hi : code[k]? = some .iretd) (hcs : cs.setWidth 16 &&& 3 ≠ c &&& 3) :
    ∃ m', (∀ n, run base code (n + 1) m = run base code n m') ∧ m'.eip = ip ∧
      m'.cs = cs.setWidth 16 ∧ m'.eflags = flags ∧ m'.reg .esp = esp ∧ m'.ss = ss.setWidth 16 ∧
      (∀ q, q ≠ .esp → m'.reg q = g q) ∧
      m'.seg = fun r => if pl (sg r) < cs.setWidth 16 &&& 3 then 0 else sg r := by
  have h0 := h.stack.top_eq
  have h1 : m.mem.load32 (m.reg .esp + 4) = cs := h.stack.words 1 cs rfl
  have h2 : m.mem.load32 (m.reg .esp + 8) = flags := h.stack.words 2 flags rfl
  have h3 : m.mem.load32 (m.reg .esp + 12) = esp := h.stack.words 3 esp rfl
  have h4 : m.mem.load32 (m.reg .esp + 16) = ss := h.stack.words 4 ss rfl
  refine ⟨_, fun _ => run_succ hi (h.lt hi) h.eip, ?_⟩
  simp only [Instr.exec, Machine.iretd, Machine.top, h0, h1, h2, h3, h4, h.cs, h.seg, h.dpl]
  rw [if_neg hcs]
  refine ⟨rfl, rfl, rfl, by simp [Machine.setReg], rfl, fun q hq => ?_, rfl⟩
  exact (Machine.setReg_of_ne hq).trans ((Machine.setReg_of_ne hq).trans (h.reg q hq))

end Tracked

end X86

end OwnKernel
