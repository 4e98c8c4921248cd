import OwnKernel.Lib.Align
import OwnKernel.Model.Paging

/-!
# Entries of directories and tables

The words of a page of entries: where entry `i` lies, that different
entries do not overlap, and what an entry's address part is. An address
on a page boundary and flags below 4096 come apart again under
`pagingAddressMask`.
-/

namespace OwnKernel

variable {base p q v x f : Word} {i j : ℕ} {m : Mem}

/-! ## Words of a page -/

/-- The address of an entry does not wrap. -/
theorem toNat_entryAddress (hb : base.toNat % 4096 = 0) (hi : i < 1024) :
    (entryAddress base i).toNat = base.toNat + 4 * i := by
  have := base.isLt
  unfold entryAddress
  rw [BitVec.toNat_add, BitVec.toNat_ofNat]
  omega

/-- An entry's bytes are in its page. -/
theorem inRange_of_entry (hb : base.toNat % 4096 = 0) (hi : i < 1024)
    (hx : InRange (entryAddress base i) 4 x) : InRange base 4096 x := by
  have h1 := toNat_entryAddress hb hi
  have h2 := base.isLt
  unfold InRange at hx ⊢
  bv_omega

/-- **Writing an entry leaves the page's other entries alone.** -/
theorem load32_entry_store_of_ne (hb : base.toNat % 4096 = 0) (hi : i < 1024) (hj : j < 1024)
    (hne : i ≠ j) :
    (m.store32 (entryAddress base i) v).load32 (entryAddress base j) =
      m.load32 (entryAddress base j) := by
  have h1 := toNat_entryAddress hb hi
  have h2 := toNat_entryAddress hb hj
  have h3 := base.isLt
  apply Mem.load32_store32_of_ne <;> bv_omega

/-- An entry of a page is read from the page's bytes. -/
theorem load32_entry_congr {m' : Mem} (hb : base.toNat % 4096 = 0) (hi : i < 1024)
    (h : ∀ x, InRange base 4096 x → m x = m' x) :
    m.load32 (entryAddress base i) = m'.load32 (entryAddress base i) :=
  Mem.load32_congr fun x hx => h x (inRange_of_entry hb hi hx)

/-! ## Address and flags -/

/-- The address part of an entry, rounded down. -/
theorem toNat_and_addressMask (x : Word) :
    (x &&& pagingAddressMask).toNat = x.toNat / 4096 * 4096 := by
  rw [BitVec.toNat_and]
  exact land_highMask (k := 12) (w := 32) (by decide) x.isLt

/-- An aligned address under flags. -/
theorem toNat_or_flags (hp : p.toNat % 4096 = 0) (hf : f.toNat < 4096) :
    (p ||| f).toNat = p.toNat + f.toNat := by
  rw [BitVec.toNat_or]
  exact lor_of_aligned (k := 12) (Nat.dvd_of_mod_eq_zero hp) hf

/-- **Flags come off again.** -/
theorem or_flags_and_addressMask (hp : p.toNat % 4096 = 0) (hf : f.toNat < 4096) :
    (p ||| f) &&& pagingAddressMask = p := by
  apply BitVec.eq_of_toNat_eq
  rw [toNat_and_addressMask, toNat_or_flags hp hf]
  omega

/-- The flags an eight-bit argument makes, with the writeable bit. -/
theorem toNat_flags_lt (f : Byte) : (f.setWidth 32 ||| pagingIsWriteable).toNat < 4096 := by
  have h1 : (f.setWidth 32).toNat < 2 ^ 12 := by
    rw [BitVec.toNat_setWidth]
    have := f.isLt
    omega
  rw [BitVec.toNat_or]
  exact Nat.or_lt_two_pow h1 (by decide)

/-! ## Filling a table -/

/-- The table after the inner loop of `paging_new_4gb`: the entries from
`j` on are written, nothing outside the table is. -/
theorem pagingFillTable_spec {entry : Word} (offset : Word) (flags : Byte)
    (he : entry.toNat % 4096 = 0) :
    ∀ {n j : ℕ} {m : Mem}, j + n ≤ 1024 →
      (∀ i, j ≤ i → i < j + n →
        (pagingFillTable entry offset flags n j m).load32 (entryAddress entry i) =
          (offset + BitVec.ofNat 32 (i * heapBlockSize)) ||| flags.setWidth 32) ∧
      (∀ i, i < j →
        (pagingFillTable entry offset flags n j m).load32 (entryAddress entry i) =
          m.load32 (entryAddress entry i)) ∧
      ∀ x, ¬ InRange entry 4096 x → pagingFillTable entry offset flags n j m x = m x := by
  intro n
  induction n with
  | zero => intro j m _; exact ⟨fun i h1 h2 => by omega, fun _ _ => rfl, fun _ _ => rfl⟩
  | succ n ih =>
    intro j m hle
    obtain ⟨hin, hlow, hout⟩ := ih (j := j + 1)
      (m := m.store32 (entryAddress entry j)
        ((offset + BitVec.ofNat 32 (j * heapBlockSize)) ||| flags.setWidth 32)) (by omega)
    refine ⟨fun i h1 h2 => ?_, fun i hi => ?_, fun x hx => ?_⟩
    · rcases Nat.eq_or_lt_of_le h1 with rfl | hlt
      · rw [pagingFillTable, hlow _ (by omega), Mem.load32_store32_self]
      · exact hin i hlt (by omega)
    · rw [pagingFillTable, hlow i (by omega),
        load32_entry_store_of_ne he (by omega) (by omega) (by omega)]
    · rw [pagingFillTable, hout x hx,
        Mem.store32_of_not_mem fun h => hx (inRange_of_entry he (by omega) h)]

end OwnKernel
