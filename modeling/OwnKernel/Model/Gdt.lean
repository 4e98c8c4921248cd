import OwnKernel.Model.Store

/-!
# Segment descriptors (`gdt/gdt.c`)

A segment is described to the processor by eight bytes, in which its
base and its limit are scattered. `gdt_structured` has them together.
-/

namespace OwnKernel

/-- `struct gdt_structured`. -/
structure GdtStructured where
  base : Word
  limit : Word
  type : Byte

/-- `sizeof(struct gdt)`, which is packed. -/
def sizeofGdt : ℕ := 8

/-- `encodeGdtEntry`. Of a limit beyond 65536 the lowest twelve bits are
left out. -/
def encodeGdtEntry (mem : Mem) (target : Word) (source : GdtStructured) : Except Fault Mem :=
  if 65536 < source.limit.toNat ∧ source.limit &&& 0xFFF ≠ 0xFFF then .error .panic
  else
    let mem := Function.update mem (target + 6) 0x40
    let r := if 65536 < source.limit.toNat then
      (source.limit >>> 12, Function.update mem (target + 6) 0xC0) else (source.limit, mem)
    let limit := r.1
    let mem := r.2
    let mem := Function.update mem target ((limit &&& 0xFF).setWidth 8)
    let mem := Function.update mem (target + 1) (((limit >>> 8) &&& 0xFF).setWidth 8)
    let mem := Function.update mem (target + 6)
      (mem (target + 6) ||| ((limit >>> 16) &&& 0x0F).setWidth 8)
    let mem := Function.update mem (target + 2) ((source.base &&& 0xFF).setWidth 8)
    let mem := Function.update mem (target + 3) (((source.base >>> 8) &&& 0xFF).setWidth 8)
    let mem := Function.update mem (target + 4) (((source.base >>> 16) &&& 0xFF).setWidth 8)
    let mem := Function.update mem (target + 7) (((source.base >>> 24) &&& 0xFF).setWidth 8)
    .ok (Function.update mem (target + 5) source.type)

/-- The loop of `gdt_structured_to_gdt` at index `i`, with `n` rounds
left. -/
def gdtStructuredToGdtLoop (gdt : Word) (structuredGdt : ℕ → GdtStructured) :
    ℕ → ℕ → Mem → Except Fault Mem
  | 0, _, mem => .ok mem
  | n + 1, i, mem => do
    let mem ← encodeGdtEntry mem (gdt + BitVec.ofNat 32 (sizeofGdt * i)) (structuredGdt i)
    gdtStructuredToGdtLoop gdt structuredGdt n (i + 1) mem

/-- `gdt_structured_to_gdt`. -/
def gdtStructuredToGdt (mem : Mem) (gdt : Word) (structuredGdt : ℕ → GdtStructured)
    (totalEntries : ℤ) : Except Fault Mem :=
  gdtStructuredToGdtLoop gdt structuredGdt totalEntries.toNat 0 mem

end OwnKernel
