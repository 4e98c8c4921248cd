import OwnKernel.Elf.Bounds
import OwnKernel.Lib.Overlay
import OwnKernel.Paging.Ranges
import OwnKernel.Process.Mapping

/-!
# The headers, one after the other

`process_map_elf` maps the ranges of the program headers over each other,
in their order, up to the first one that is rejected. A header is read
when its turn comes, and if the table lies where page tables are, that is
after those before it have been mapped: `headerMem` is the memory then.
`HasDirectory.processMapElf_layers` says what the directory is left with.
-/

namespace OwnKernel

variable {k : Kernel} {c : ChunkView} {process : Word} {p : Process} {file : ElfFile} {f : PageMap}
  {mem : Mem} {chunk : Word} {page i : ℕ}

/-- The memory when header `i` is read. -/
def headerMem (mem : Mem) (chunk : Word) (file : ElfFile) : ℕ → Mem
  | 0 => mem
  | i + 1 => mapPhdrMem (headerMem mem chunk file i) chunk file (elfPhdrAddress mem file.elfMemory i)

/-- Header `i` has a range that is carried out. -/
def HeaderMaps (mem : Mem) (chunk : Word) (file : ElfFile) (i : ℕ) : Prop :=
  PhdrValid (headerMem mem chunk file i) file (elfPhdrAddress mem file.elfMemory i)

instance : Decidable (HeaderMaps mem chunk file i) := inferInstanceAs (Decidable (PhdrValid ..))

/-- What the header at `phdr` asks for. -/
def phdrRange (mem : Mem) (file : ElfFile) (phdr : Word) (page : ℕ) : Option Word :=
  rangeEntry (pagingAlignToLowerPage (mem.load32 (phdr + phdrVaddrOffset)))
    (pagingAlignToLowerPage (elfPhdrPhysAddress mem file phdr))
    (pagingAlignAddress (elfPhdrPhysAddress mem file phdr + mem.load32 (phdr + phdrMemszOffset)))
    (phdrPageFlags mem phdr) page

/-- **What header `i` maps**, where the loop gets that far. -/
def headerEntry (mem : Mem) (chunk : Word) (file : ElfFile) (i page : ℕ) : Option Word :=
  if ∀ j ≤ i, HeaderMaps mem chunk file j then
    phdrRange (headerMem mem chunk file i) file (elfPhdrAddress mem file.elfMemory i) page
  else none

theorem mapPhdr_eq_getD (phdr : Word) (hp : page < 2 ^ 20) :
    f.mapPhdr mem file phdr page = (phdrRange mem file phdr page).getD (f page) :=
  mapTo_eq_getD _ _ _ _ _ hp

/-- A header whose range is not valid maps nothing. -/
theorem mapPhdr_of_not_valid {q : Word} (h : ¬ PhdrValid mem file q) :
    f.mapPhdr mem file q = f := if_neg h

/-- The number of headers is read from outside the tables. -/
def PhnumApart (c : ChunkView) (base : Word) : Prop :=
  ∀ x, InRange (base + elfPhnumOffset) 2 x → ¬ c.InTables x

/-- An allocation's bytes are none of the tables'. -/
theorem not_inTables_of_owns {base x : Word} {n : ℕ} (r : k.store.heap.Ready) (hat : c.At k.store)
    (o : k.store.heap.Owns base n) (hbase : ¬ c.Has base) (hx : InRange base (4096 * n) x) :
    ¬ c.InTables x := by
  rintro ⟨i, hi, hin⟩
  have hne : base ≠ c.table i := fun he => hbase (he ▸ c.has_table hi)
  exact o.disjoint (hat.owns _ (c.has_table hi)) r hne hx hin

/-- A file in its own block has it there. -/
theorem phnumApart_of_owns {base : Word} {n : ℕ} (r : k.store.heap.Ready) (hat : c.At k.store)
    (o : k.store.heap.Owns base n) (hbase : ¬ c.Has base) : PhnumApart c base := by
  intro x hx
  refine not_inTables_of_owns r hat o hbase ?_
  have hpos := o.pos
  have hoff : elfPhnumOffset = 44 := rfl
  unfold InRange at hx ⊢
  rw [hoff] at hx
  bv_omega

/-- **The loop overlays the directory with what the headers map.** `k₁`
is the kernel at header `i`. -/
theorem HasDirectory.processMapElfLoop_layers (phdrs : Word) (hap : PhnumApart c file.elfMemory)
    (hphdrs : ∀ i, phdrs + BitVec.ofNat 32 i * sizeofElf32Phdr =
      elfPhdrAddress k.store.mem file.elfMemory i) :
    ∀ (fuel : ℕ) {i : ℕ} {k₁ : Kernel} {res : ℤ}, HasDirectory k₁ p.task c → TablesOnly c k k₁ →
      i ≤ elfPhnum k.store.mem file.elfMemory → 2 ^ 16 ≤ fuel + i → res = 0 →
      (∀ j < i, HeaderMaps k.store.mem c.chunk file j) →
      k₁.store.mem = headerMem k.store.mem c.chunk file i →
      (∀ page, page < 2 ^ 20 → c.entry k₁.store.mem page =
        overlays f (headerEntry k.store.mem c.chunk file) i page) →
      ∃ res' k', processMapElfLoop p file phdrs fuel i res k₁ = .ok (res', k') ∧
        TablesOnly c k k' ∧ HasDirectory k' p.task c ∧
        res' = (if ∀ j < elfPhnum k.store.mem file.elfMemory,
          HeaderMaps k.store.mem c.chunk file j then 0 else -invalidArgumentError) ∧
        ∀ page, page < 2 ^ 20 → c.entry k'.store.mem page =
          overlays f (headerEntry k.store.mem c.chunk file)
            (elfPhnum k.store.mem file.elfMemory) page := by
  intro fuel
  have hlt16 := (k.store.mem.load16 (file.elfMemory + elfPhnumOffset)).isLt
  have hnum : elfPhnum k.store.mem file.elfMemory < 2 ^ 16 := hlt16
  induction fuel with
  | zero => exact fun _ _ hi hfuel => absurd hfuel (by omega)
  | succ fuel ih =>
    intro i k₁ res h hout hi hfuel hres hvalid hmem hentries
    have hphnum : (k₁.store.mem.load16 (file.elfMemory + elfPhnumOffset)).toNat =
        elfPhnum k.store.mem file.elfMemory :=
      congrArg BitVec.toNat (Mem.load16_congr fun x hx => hout.out x (hap x hx))
    rcases Nat.eq_or_lt_of_le hi with rfl | hlt
    · exact ⟨res, k₁, processMapElfLoop_end (Nat.le_of_eq hphnum), hout, h,
        by rw [if_pos hvalid]; exact hres, hentries⟩
    · obtain ⟨k₂, hround, hout₂, h₂, hmem₂, hentry⟩ := h.processMapElfLoop_round fuel res
        (by rw [hphnum]; exact hlt) (hphdrs i) hentries
      rw [hround]
      rw [hmem] at hentry hmem₂ ⊢
      by_cases hcur : HeaderMaps k.store.mem c.chunk file i
      · have hcur' := hcur
        unfold HeaderMaps at hcur'
        rw [if_pos hcur']
        have hall : ∀ j ≤ i, HeaderMaps k.store.mem c.chunk file j := by
          intro j hj
          rcases Nat.eq_or_lt_of_le hj with rfl | hlt'
          · exact hcur
          · exact hvalid j hlt'
        refine ih h₂ (hout.trans hout₂) hlt (by omega) rfl
          (fun j hj => hall j (Nat.le_of_lt_succ hj)) hmem₂ fun page hp => ?_
        rw [hentry page hp, mapPhdr_eq_getD _ hp, overlays_succ, headerEntry, if_pos hall]
      · have hcur' := hcur
        unfold HeaderMaps at hcur'
        rw [if_neg hcur']
        refine ⟨_, k₂, rfl, hout.trans hout₂, h₂, (if_neg fun hall => hcur (hall i hlt)).symm,
          fun page hp => ?_⟩
        -- no header from here on is mapped
        have hnone : ∀ j, i ≤ j → headerEntry k.store.mem c.chunk file j page = none := by
          intro j hj
          rw [headerEntry, if_neg fun hall => hcur (hall i hj)]
        obtain ⟨m, hm⟩ := Nat.exists_eq_add_of_le hi
        rw [hentry page hp, hm, overlays_of_none hnone, mapPhdr_of_not_valid hcur']

/-- **`process_map_elf`**: its result, and what it leaves in the
directory. -/
theorem HasDirectory.processMapElf_layers (h : HasDirectory k p.task c) (h0 : process ≠ 0)
    (hp : k.processes process = some p) (hptr : p.ptr ≠ 0) (hfile : k.elfFiles p.ptr = some file)
    (hphoff : elfPhoff k.store.mem file.elfMemory ≠ 0) (hap : PhnumApart c file.elfMemory)
    (hf : ∀ page, page < 2 ^ 20 → c.entry k.store.mem page = f page) :
    ∃ res k', processMapElf process k = .ok (res, k') ∧ TablesOnly c k k' ∧
      HasDirectory k' p.task c ∧
      res = (if ∀ j < elfPhnum k.store.mem file.elfMemory,
        HeaderMaps k.store.mem c.chunk file j then 0 else -invalidArgumentError) ∧
      ∀ page, page < 2 ^ 20 → c.entry k'.store.mem page =
        overlays f (headerEntry k.store.mem c.chunk file)
          (elfPhnum k.store.mem file.elfMemory) page := by
  have hpheader : ((elfPheader k.store.mem file.elfMemory).run []).1 =
      file.elfMemory + elfPhoff k.store.mem file.elfMemory := by
    have hlogs : Logs (elfPheader k.store.mem file.elfMemory)
        (file.elfMemory + elfPhoff k.store.mem file.elfMemory) _ :=
      readWord_logs.bind (by
        rw [if_neg (show k.store.mem.load32 (file.elfMemory + elfPhoffOffset) ≠ 0 from hphoff)]
        exact .pure _)
    rw [hlogs.run_nil]
  obtain ⟨res, k', hloop, hout, h', hvalid, hentry⟩ := HasDirectory.processMapElfLoop_layers
    (file.elfMemory + elfPhoff k.store.mem file.elfMemory) (f := f) hap (fun _ => rfl) (2 ^ 16)
    (i := 0) h (.refl c k) (Nat.zero_le _) (by decide) rfl
    (fun j hj => absurd hj (Nat.not_lt_zero j)) rfl hf
  refine ⟨res, k', Fallible.run_bind.2 ⟨p, k, run_readProcess.2 ⟨h0, hp, rfl⟩,
    Fallible.run_bind.2 ⟨file, k, run_readElfFile.2 ⟨hptr, hfile, rfl⟩, ?_⟩⟩, hout, h', hvalid,
    hentry⟩
  rw [Fallible.run_get_bind, hpheader]
  exact hloop

/-! ## Headers apart from the tables -/

/-- Mapping headers writes the tables only. -/
theorem headerMem_out (hat : c.At k.store) (r : k.store.heap.Ready) (file : ElfFile) (i : ℕ) :
    c.At { k.store with mem := headerMem k.store.mem c.chunk file i } ∧
      ∀ x, ¬ c.InTables x → headerMem k.store.mem c.chunk file i x = k.store.mem x := by
  induction i with
  | zero => exact ⟨hat, fun _ _ => rfl⟩
  | succ i ih =>
    obtain ⟨hat', hout⟩ := ih
    obtain ⟨m', hmap, hat'', -, hout'⟩ := hat'.pagingMapTo_spec r (f := c.entry _)
      (pagingAlignToLowerPage (Mem.load32 _ (elfPhdrAddress k.store.mem file.elfMemory i +
        phdrVaddrOffset)))
      (pagingAlignToLowerPage (elfPhdrPhysAddress _ file
        (elfPhdrAddress k.store.mem file.elfMemory i)))
      (pagingAlignAddress (elfPhdrPhysAddress _ file
        (elfPhdrAddress k.store.mem file.elfMemory i) +
          Mem.load32 _ (elfPhdrAddress k.store.mem file.elfMemory i + phdrMemszOffset)))
      (phdrPageFlags (headerMem k.store.mem c.chunk file i)
        (elfPhdrAddress k.store.mem file.elfMemory i)) fun _ _ => rfl
    have hm : headerMem k.store.mem c.chunk file (i + 1) = m' := pagingMapToMem_of_eq hmap
    rw [hm]
    exact ⟨hat'', fun x hx => (hout' x hx).trans (hout x hx)⟩

end OwnKernel
