import OwnKernel.Model.Gdt

/-!
# What the processor reads of a descriptor

`SegmentAt` decodes the eight bytes the way the processor does. It gives
back what was encoded (`encodeGdtEntry_segmentAt`), and in a table each
entry is encoded without the ones beside it being touched
(`gdt_segmentAt`).
-/

namespace OwnKernel

variable {mem mem' : Mem} {gdt target x : Word} {source : GdtStructured}

/-! ## The descriptor's layout -/

/-- The base: bytes 2, 3, 4 and 7. -/
def segmentBase (mem : Mem) (target : Word) : ℕ :=
  (mem (target + 2)).toNat + (mem (target + 3)).toNat * 2 ^ 8 +
    (mem (target + 4)).toNat * 2 ^ 16 + (mem (target + 7)).toNat * 2 ^ 24

/-- The 20 bits of the limit: bytes 0 and 1, and the low half of byte 6. -/
def segmentLimit20 (mem : Mem) (target : Word) : ℕ :=
  (mem target).toNat + (mem (target + 1)).toNat * 2 ^ 8 +
    (mem (target + 6)).toNat % 2 ^ 4 * 2 ^ 16

/-- The limit in bytes. With the G bit set it counts pages. -/
def segmentLimit (mem : Mem) (target : Word) : ℕ :=
  if (mem (target + 6)).getLsbD 7 then (segmentLimit20 mem target <<< 12) ||| 0xFFF
  else segmentLimit20 mem target

/-- **The descriptor at `target` is the segment `source`.** -/
structure SegmentAt (mem : Mem) (target : Word) (source : GdtStructured) : Prop where
  base : segmentBase mem target = source.base.toNat
  type : mem (target + 5) = source.type
  limit : segmentLimit mem target = source.limit.toNat

/-- **A limit that can be encoded**: one of up to 65536, or of whole
pages. -/
def GdtStructured.Encodable (source : GdtStructured) : Prop :=
  source.limit.toNat ≤ 65536 ∨ source.limit &&& 0xFFF = 0xFFF

/-! ## One descriptor -/

/-- A byte of a word. -/
theorem toNat_byte (v : Word) (n : ℕ) :
    (((v >>> n) &&& 0xFF).setWidth 8).toNat = v.toNat / 2 ^ n % 2 ^ 8 := by
  rw [BitVec.toNat_setWidth, BitVec.toNat_and, BitVec.toNat_ushiftRight, Nat.shiftRight_eq_div_pow]
  have hmask : v.toNat / 2 ^ n &&& 0xFF = v.toNat / 2 ^ n % 2 ^ 8 :=
    Nat.and_two_pow_sub_one_eq_mod _ 8
  rw [show (0xFF : Word).toNat = 0xFF from rfl, hmask, Nat.mod_mod]

/-- Half a byte of a word. -/
theorem toNat_nibble (v : Word) (n : ℕ) :
    (((v >>> n) &&& 0x0F).setWidth 8).toNat = v.toNat / 2 ^ n % 2 ^ 4 := by
  rw [BitVec.toNat_setWidth, BitVec.toNat_and, BitVec.toNat_ushiftRight, Nat.shiftRight_eq_div_pow]
  have hmask : v.toNat / 2 ^ n &&& 0x0F = v.toNat / 2 ^ n % 2 ^ 4 :=
    Nat.and_two_pow_sub_one_eq_mod _ 4
  rw [show (0x0F : Word).toNat = 0x0F from rfl, hmask]
  omega

/-- The eight bytes as they are written, for the limit's 20 bits and the
flags beside its highest ones. -/
structure DescriptorBytes (mem : Mem) (target : Word) (limit : ℕ) (flags : Byte)
    (source : GdtStructured) : Prop where
  limit0 : (mem target).toNat = limit % 2 ^ 8
  limit1 : (mem (target + 1)).toNat = limit / 2 ^ 8 % 2 ^ 8
  limit2 : ∃ nibble : Byte, mem (target + 6) = flags ||| nibble ∧ nibble.toNat = limit / 2 ^ 16 % 2 ^ 4
  base0 : (mem (target + 2)).toNat = source.base.toNat % 2 ^ 8
  base1 : (mem (target + 3)).toNat = source.base.toNat / 2 ^ 8 % 2 ^ 8
  base2 : (mem (target + 4)).toNat = source.base.toNat / 2 ^ 16 % 2 ^ 8
  base3 : (mem (target + 7)).toNat = source.base.toNat / 2 ^ 24 % 2 ^ 8
  type : mem (target + 5) = source.type

/-- The stores of `encodeGdtEntry`, from the limit on. -/
def gdtStores (mem : Mem) (target limit : Word) (source : GdtStructured) : Mem :=
  let mem := Function.update mem target ((limit &&& 0xFF).setWidth 8)
  let mem := Function.update mem (target + 1) (((limit >>> 8) &&& 0xFF).setWidth 8)
  let mem := Function.update mem (target + 6)
    (mem (target + 6) ||| ((limit >>> 16) &&& 0x0F).setWidth 8)
  let mem := Function.update mem (target + 2) ((source.base &&& 0xFF).setWidth 8)
  let mem := Function.update mem (target + 3) (((source.base >>> 8) &&& 0xFF).setWidth 8)
  let mem := Function.update mem (target + 4) (((source.base >>> 16) &&& 0xFF).setWidth 8)
  let mem := Function.update mem (target + 7) (((source.base >>> 24) &&& 0xFF).setWidth 8)
  Function.update mem (target + 5) source.type

theorem descriptorBytes_gdtStores (mem : Mem) (target limit : Word) (source : GdtStructured) :
    DescriptorBytes (gdtStores mem target limit source) target limit.toNat (mem (target + 6))
      source := by
  have hlow : ∀ v : Word, ((v &&& 0xFF).setWidth 8).toNat = v.toNat % 2 ^ 8 := by
    intro v
    have hbyte := toNat_byte v 0
    rwa [BitVec.ushiftRight_zero, pow_zero, Nat.div_one] at hbyte
  unfold gdtStores
  refine ⟨?_, ?_, ⟨((limit >>> 16) &&& 0x0F).setWidth 8, ?_, toNat_nibble limit 16⟩, ?_, ?_, ?_, ?_, ?_⟩
  · rw [← hlow limit]
    simp
  · rw [← toNat_byte limit 8]
    simp
  · simp
  · rw [← hlow source.base]
    simp
  · rw [← toNat_byte source.base 8]
    simp
  · rw [← toNat_byte source.base 16]
    simp
  · rw [← toNat_byte source.base 24]
    simp
  · simp

/-- A byte outside the descriptor is none of its bytes. -/
theorem ne_add_of_not_inRange (h : ¬ InRange target 8 x) {k : ℕ} (hk : k < 8) :
    x ≠ target + BitVec.ofNat 32 k := by
  rintro rfl
  exact h ((inRange_add (by omega)).2 hk)

theorem gdtStores_of_not_mem {limit : Word} (h : ¬ InRange target 8 x) :
    gdtStores mem target limit source x = mem x := by
  have h0 : x ≠ target := by
    have := ne_add_of_not_inRange h (show 0 < 8 by decide)
    rwa [show target + BitVec.ofNat 32 0 = target from BitVec.add_zero target] at this
  have h1 : x ≠ target + 1 := ne_add_of_not_inRange h (show 1 < 8 by decide)
  have h2 : x ≠ target + 2 := ne_add_of_not_inRange h (show 2 < 8 by decide)
  have h3 : x ≠ target + 3 := ne_add_of_not_inRange h (show 3 < 8 by decide)
  have h4 : x ≠ target + 4 := ne_add_of_not_inRange h (show 4 < 8 by decide)
  have h5 : x ≠ target + 5 := ne_add_of_not_inRange h (show 5 < 8 by decide)
  have h6 : x ≠ target + 6 := ne_add_of_not_inRange h (show 6 < 8 by decide)
  have h7 : x ≠ target + 7 := ne_add_of_not_inRange h (show 7 < 8 by decide)
  unfold gdtStores
  simp only [Function.update_of_ne h0, Function.update_of_ne h1, Function.update_of_ne h2,
    Function.update_of_ne h3, Function.update_of_ne h4, Function.update_of_ne h5,
    Function.update_of_ne h6, Function.update_of_ne h7]

/-- The flags are read beside the limit's highest bits. -/
theorem or_nibble {flags nibble : Byte} (hflags : flags.toNat % 2 ^ 4 = 0)
    (hnibble : nibble.toNat < 2 ^ 4) :
    (flags ||| nibble).toNat % 2 ^ 4 = nibble.toNat ∧
      (flags ||| nibble).getLsbD 7 = flags.getLsbD 7 := by
  constructor
  · rw [BitVec.toNat_or, Nat.or_mod_two_pow, hflags, Nat.zero_or, Nat.mod_eq_of_lt hnibble]
  · have hbit : nibble.getLsbD 7 = false :=
      Nat.testBit_lt_two_pow (lt_of_lt_of_le hnibble (by decide))
    rw [BitVec.getLsbD_or, hbit, Bool.or_false]

namespace DescriptorBytes

variable {limit : ℕ} {flags : Byte}

theorem segmentBase_eq (h : DescriptorBytes mem target limit flags source) :
    segmentBase mem target = source.base.toNat := by
  have hlt := source.base.isLt
  unfold segmentBase
  rw [h.base0, h.base1, h.base2, h.base3]
  omega

/-- The limit's 20 bits and the flags. -/
theorem segmentLimit_eq (h : DescriptorBytes mem target limit flags source) (hlt : limit < 2 ^ 20)
    (hflags : flags.toNat % 2 ^ 4 = 0) :
    segmentLimit mem target = if flags.getLsbD 7 then (limit <<< 12) ||| 0xFFF else limit := by
  obtain ⟨nibble, hbyte, hnibble⟩ := h.limit2
  obtain ⟨hlow, hbit⟩ := or_nibble hflags (by omega : nibble.toNat < 2 ^ 4)
  have hbits : segmentLimit20 mem target = limit := by
    unfold segmentLimit20
    rw [hbyte, hlow, hnibble, h.limit0, h.limit1]
    omega
  unfold segmentLimit
  rw [hbits, hbyte, hbit]

end DescriptorBytes

/-- What is stored is the limit, or the number of whole pages in it. -/
theorem encodeGdtEntry_eq (h : source.Encodable) : encodeGdtEntry mem target source =
    if 65536 < source.limit.toNat then
      .ok (gdtStores (Function.update (Function.update mem (target + 6) 0x40) (target + 6) 0xC0)
        target (source.limit >>> 12) source)
    else .ok (gdtStores (Function.update mem (target + 6) 0x40) target source.limit source) := by
  have haccept : ¬ (65536 < source.limit.toNat ∧ source.limit &&& 0xFFF ≠ 0xFFF) := by
    rintro ⟨hlarge, hmask⟩
    exact h.elim (fun hsmall => absurd hsmall (by omega)) hmask
  unfold encodeGdtEntry
  rw [if_neg haccept]
  by_cases hlarge : 65536 < source.limit.toNat
  · simp only [if_pos hlarge]
    rfl
  · simp only [if_neg hlarge]
    rfl

/-- Whole pages are given back by their number. -/
theorem pages_eq {limit : Word} (h : limit &&& 0xFFF = 0xFFF) :
    ((limit >>> 12).toNat <<< 12) ||| 0xFFF = limit.toNat := by
  have hmask : limit.toNat % 2 ^ 12 = 0xFFF := by
    have hand := congrArg BitVec.toNat h
    rwa [BitVec.toNat_and, show (0xFFF : Word).toNat = 0xFFF from rfl,
      show (0xFFF : ℕ) = 2 ^ 12 - 1 from rfl, Nat.and_two_pow_sub_one_eq_mod] at hand
  rw [BitVec.toNat_ushiftRight, Nat.shiftRight_eq_div_pow,
    ← Nat.shiftLeft_add_eq_or_of_lt (by decide), Nat.shiftLeft_eq]
  omega

/-- **One descriptor**: the segment is given back, and no byte beside it is
written. -/
theorem encodeGdtEntry_segmentAt (mem : Mem) (target : Word) (h : source.Encodable) :
    ∃ mem', encodeGdtEntry mem target source = .ok mem' ∧ SegmentAt mem' target source ∧
      ∀ x, ¬ InRange target sizeofGdt x → mem' x = mem x := by
  rw [encodeGdtEntry_eq h]
  by_cases hlarge : 65536 < source.limit.toNat
  · rw [if_pos hlarge]
    have hbytes := descriptorBytes_gdtStores
      (Function.update (Function.update mem (target + 6) 0x40) (target + 6) 0xC0) target
      (source.limit >>> 12) source
    rw [Function.update_self] at hbytes
    have hlt : (source.limit >>> 12).toNat < 2 ^ 20 := by
      have := source.limit.isLt
      rw [BitVec.toNat_ushiftRight, Nat.shiftRight_eq_div_pow]
      omega
    refine ⟨_, rfl, ⟨hbytes.segmentBase_eq, hbytes.type, ?_⟩, fun x hx => ?_⟩
    · rw [hbytes.segmentLimit_eq hlt (by decide), if_pos (by decide)]
      exact pages_eq (h.resolve_left (by omega))
    · have h6 : x ≠ target + 6 := ne_add_of_not_inRange hx (show 6 < 8 by decide)
      rw [gdtStores_of_not_mem hx, Function.update_of_ne h6, Function.update_of_ne h6]
  · rw [if_neg hlarge]
    have hbytes := descriptorBytes_gdtStores (Function.update mem (target + 6) 0x40) target
      source.limit source
    rw [Function.update_self] at hbytes
    refine ⟨_, rfl, ⟨hbytes.segmentBase_eq, hbytes.type, ?_⟩, fun x hx => ?_⟩
    · rw [hbytes.segmentLimit_eq (by omega) (by decide), if_neg (by decide)]
    · have h6 : x ≠ target + 6 := ne_add_of_not_inRange hx (show 6 < 8 by decide)
      rw [gdtStores_of_not_mem hx, Function.update_of_ne h6]

/-! ## A table of descriptors -/

/-- A descriptor is read from its own bytes. -/
theorem SegmentAt.congr (h : SegmentAt mem target source)
    (hsame : ∀ x, InRange target sizeofGdt x → mem' x = mem x) : SegmentAt mem' target source := by
  have hbyte : ∀ k < 8, mem' (target + BitVec.ofNat 32 k) = mem (target + BitVec.ofNat 32 k) :=
    fun k hk => hsame _ ((inRange_add (by omega)).2 hk)
  have h0 : mem' target = mem target := by
    have := hbyte 0 (by decide)
    rwa [show target + BitVec.ofNat 32 0 = target from BitVec.add_zero target] at this
  have h1 : mem' (target + 1) = mem (target + 1) := hbyte 1 (by decide)
  have h2 : mem' (target + 2) = mem (target + 2) := hbyte 2 (by decide)
  have h3 : mem' (target + 3) = mem (target + 3) := hbyte 3 (by decide)
  have h4 : mem' (target + 4) = mem (target + 4) := hbyte 4 (by decide)
  have h5 : mem' (target + 5) = mem (target + 5) := hbyte 5 (by decide)
  have h6 : mem' (target + 6) = mem (target + 6) := hbyte 6 (by decide)
  have h7 : mem' (target + 7) = mem (target + 7) := hbyte 7 (by decide)
  refine ⟨?_, h5.trans h.type, ?_⟩
  · rw [← h.base]
    unfold segmentBase
    rw [h2, h3, h4, h7]
  · rw [← h.limit]
    unfold segmentLimit segmentLimit20
    rw [h0, h1, h6]

/-- The bytes of entry `i`, from the table's start on. -/
theorem inRange_entry {i : ℕ} (hi : sizeofGdt * (i + 1) ≤ 2 ^ 32) :
    InRange (gdt + BitVec.ofNat 32 (sizeofGdt * i)) sizeofGdt x ↔
      sizeofGdt * i ≤ (x - gdt).toNat ∧ (x - gdt).toNat < sizeofGdt * (i + 1) := by
  have hlt := (x - gdt).isLt
  have hoffset : (BitVec.ofNat 32 (sizeofGdt * i)).toNat = sizeofGdt * i := by
    rw [BitVec.toNat_ofNat, Nat.mod_eq_of_lt]
    unfold sizeofGdt at hi ⊢
    omega
  have hsub : x - (gdt + BitVec.ofNat 32 (sizeofGdt * i)) =
      (x - gdt) - BitVec.ofNat 32 (sizeofGdt * i) := by
    bv_omega
  unfold InRange
  rw [hsub, BitVec.toNat_sub, hoffset]
  unfold sizeofGdt at hi ⊢
  omega

/-- **The loop over the entries** from `i` on. -/
theorem gdtStructuredToGdtLoop_segmentAt {structuredGdt : ℕ → GdtStructured} (n i : ℕ) (mem : Mem)
    (hsize : sizeofGdt * (i + n) ≤ 2 ^ 32) (h : ∀ j, i ≤ j → j < i + n → (structuredGdt j).Encodable) :
    ∃ mem', gdtStructuredToGdtLoop gdt structuredGdt n i mem = .ok mem' ∧
      (∀ j, i ≤ j → j < i + n →
        SegmentAt mem' (gdt + BitVec.ofNat 32 (sizeofGdt * j)) (structuredGdt j)) ∧
      ∀ x, ¬ (sizeofGdt * i ≤ (x - gdt).toNat ∧ (x - gdt).toNat < sizeofGdt * (i + n)) →
        mem' x = mem x := by
  unfold sizeofGdt at hsize
  induction n generalizing i mem with
  | zero =>
    exact ⟨mem, rfl, fun j hlo hhi => absurd hhi (by omega), fun x _ => rfl⟩
  | succ n ih =>
    obtain ⟨mem₁, hentry, hsegment, hframe⟩ := encodeGdtEntry_segmentAt mem
      (gdt + BitVec.ofNat 32 (sizeofGdt * i)) (h i le_rfl (by omega))
    obtain ⟨mem', hloop, hrest, hframe'⟩ := ih (i + 1) mem₁ (by omega)
      fun j hlo hhi => h j (by omega) (by omega)
    have hrange : ∀ x, InRange (gdt + BitVec.ofNat 32 (sizeofGdt * i)) sizeofGdt x ↔
        sizeofGdt * i ≤ (x - gdt).toNat ∧ (x - gdt).toNat < sizeofGdt * (i + 1) :=
      fun x => inRange_entry (by unfold sizeofGdt; omega)
    unfold sizeofGdt at hrange hframe'
    refine ⟨mem', ?_, fun j hlo hhi => ?_, fun x hx => ?_⟩
    · unfold gdtStructuredToGdtLoop
      rw [hentry]
      exact hloop
    · rcases eq_or_lt_of_le hlo with rfl | hlt
      · -- the entries behind it leave this one alone
        refine hsegment.congr fun x hx => hframe' x ?_
        have hin := (hrange x).1 hx
        omega
      · exact hrest j hlt (by omega)
    · unfold sizeofGdt at hx hframe
      rw [hframe' x (by omega), hframe x fun hin => absurd ((hrange x).1 hin) (by omega)]

/-- **Descriptors are decoded as they were encoded.** A segment that can be
encoded is given back by its eight bytes, and a table of them of any
length that memory has room for entry by entry, with no byte beside it
written. -/
theorem gdt_segmentAt (mem : Mem) :
    (∀ target source, source.Encodable → ∃ mem', encodeGdtEntry mem target source = .ok mem' ∧
      SegmentAt mem' target source ∧ ∀ x, ¬ InRange target sizeofGdt x → mem' x = mem x) ∧
    ∀ gdt structuredGdt (totalEntries : ℤ), sizeofGdt * totalEntries ≤ 2 ^ 32 →
      (∀ i : ℕ, i < totalEntries → (structuredGdt i).Encodable) →
      ∃ mem', gdtStructuredToGdt mem gdt structuredGdt totalEntries = .ok mem' ∧
        (∀ i : ℕ, i < totalEntries →
          SegmentAt mem' (gdt + BitVec.ofNat 32 (sizeofGdt * i)) (structuredGdt i)) ∧
        ∀ x, ¬ InRange gdt (sizeofGdt * totalEntries.toNat) x → mem' x = mem x := by
  refine ⟨fun target source h => encodeGdtEntry_segmentAt mem target h,
    fun gdt structuredGdt totalEntries hsize h => ?_⟩
  unfold sizeofGdt at hsize
  obtain ⟨mem', hloop, hsegment, hframe⟩ := @gdtStructuredToGdtLoop_segmentAt gdt structuredGdt
    totalEntries.toNat 0 mem (by unfold sizeofGdt; omega) fun j _ hj => h j (by omega)
  refine ⟨mem', hloop, fun i hi => hsegment i (Nat.zero_le i) (by omega), fun x hx => hframe x ?_⟩
  unfold InRange at hx
  rw [Nat.zero_add]
  exact fun hin => hx hin.2

/-- The kernel's code segment, alone and in a table behind the null
segment. -/
theorem gdt_segmentAt_kernel_code :
    (∃ mem', encodeGdtEntry (fun _ => 0) 0x1000 ⟨0, 0xFFFFFFFF, 0x9A⟩ = .ok mem' ∧
      SegmentAt mem' 0x1000 ⟨0, 0xFFFFFFFF, 0x9A⟩) ∧
    ∃ mem', gdtStructuredToGdt (fun _ => 0) 0x1000
        (fun i => if i = 0 then ⟨0, 0, 0⟩ else ⟨0, 0xFFFFFFFF, 0x9A⟩) 2 = .ok mem' ∧
      SegmentAt mem' (0x1000 + BitVec.ofNat 32 (sizeofGdt * 1)) ⟨0, 0xFFFFFFFF, 0x9A⟩ := by
  have hcode : (⟨0, 0xFFFFFFFF, 0x9A⟩ : GdtStructured).Encodable := Or.inr (by decide)
  have hnull : (⟨0, 0, 0⟩ : GdtStructured).Encodable := Or.inl (by decide)
  obtain ⟨mem', hentry, hsegment, -⟩ := (gdt_segmentAt fun _ => 0).1 0x1000 _ hcode
  obtain ⟨mem'', htable, hentries, -⟩ := (gdt_segmentAt fun _ => 0).2 0x1000
    (fun i => if i = 0 then ⟨0, 0, 0⟩ else ⟨0, 0xFFFFFFFF, 0x9A⟩) 2 (by unfold sizeofGdt; omega)
    fun i _ => by
      by_cases hi : i = 0
      · rw [if_pos hi]
        exact hnull
      · rw [if_neg hi]
        exact hcode
  exact ⟨⟨mem', hentry, hsegment⟩, mem'', htable, hentries 1 (by omega)⟩

end OwnKernel
