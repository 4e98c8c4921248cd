import OwnKernel.File.Cursor
import OwnKernel.File.Owned
import OwnKernel.File.PathParser

/-!
# Opening a file that is there

What `fopen` needs to open a file of the root directory: room in the heap
for the parts of the path, and for the item, its record and the two
descriptors. The file is then open at its start (`exists_fopen`). The
blocks of the path are never given back, so each call takes some of the
room.
-/

namespace OwnKernel

open Fallible (Spends)

variable {image : Sectors} {s s' : FsState} {path text : Cstring} {p size : Word} {n : ℕ}
variable {fat : FatPrivate} {item : FatDirectoryItem}

/-! ## Room spent -/

/-- The kernel's heap, with the table free from entry `n` on. -/
def FsState.KernelRoom (n : ℕ) (s : FsState) : Prop :=
  kernelHeapInit.SamePlace s.store.heap ∧ s.store.heap.Room n

namespace FsState.KernelRoom

theorem ready (h : s.KernelRoom n) : s.store.heap.Ready := h.1.ready ready_kernelHeapInit

theorem total (h : s.KernelRoom n) : s.store.heap.total = 25600 := h.1.total.trans (by decide)

theorem mono {m : ℕ} (hle : n ≤ m) (h : s.KernelRoom n) : s.KernelRoom m :=
  ⟨h.1, fun i hi => h.2 i (hle.trans hi)⟩

end FsState.KernelRoom

/-- A block spent. -/
theorem spends_kernelZalloc (hpos : 0 < size.toNat) (hsize : size.toNat ≤ 4096) :
    Spends FsState.KernelRoom 1 (inStore (kernelZalloc size)) := by
  intro n s p t h hrun
  by_cases hn : n < s.store.heap.total
  · obtain ⟨q, st, hz, -, hext, -, -, hroom⟩ := inStore_kernelZalloc_of_room size h.ready h.2 hpos
      hsize hn
    obtain ⟨-, rfl⟩ := Prod.mk.inj (Except.ok.inj (hz.symm.trans hrun))
    exact ⟨n + 1, le_rfl, h.1.trans hext.place, hroom⟩
  · -- nothing was left to spend
    obtain ⟨st, hz, rfl⟩ := run_inStore.1 hrun
    have hplace := (kernelZalloc_extends h.ready hz).place
    refine ⟨n + 1, le_rfl, h.1.trans hplace, fun i hi hlt => absurd hlt ?_⟩
    rw [hplace.total]
    omega

/-- Freeing spends nothing. -/
theorem spends_kernelFree : Spends FsState.KernelRoom 0 (inStore (kernelFree p)) := by
  intro n s u t h hrun
  rw [run_kernelFree.1 hrun]
  exact ⟨n, le_rfl, h.1.trans (Heap.samePlace_write _ _),
    fun i hi hlt => (h.2 i hi hlt).heapFree p⟩

theorem spends_writeObject {o : FsObject} :
    Spends FsState.KernelRoom 0 (writeObject p o) := by
  intro n s u t h hrun
  rw [(run_writeObject.1 hrun).2]
  exact ⟨n, le_rfl, h⟩

theorem spends_readObject {β : Type} {view : FsObject → Option β} :
    Spends FsState.KernelRoom 0 (readObject view p) := by
  intro n s x t h hrun
  rw [(run_readObject.1 hrun).2.2]
  exact ⟨n, le_rfl, h⟩

/-! ## The parts of a path -/

theorem spends_pathparserCreateRoot {driveNumber : ℤ} :
    Spends FsState.KernelRoom 1 (pathparserCreateRoot driveNumber) := by
  refine .bind (j := 1) (k := 0) (spends_kernelZalloc (by decide) (by decide)) fun root => ?_
  exact spends_writeObject.bind_zero fun _ => .pure _

theorem spends_pathparserExtractPathPart :
    Spends FsState.KernelRoom 1 (pathparserExtractPathPart path) := by
  refine .bind (j := 1) (k := 0) (spends_kernelZalloc (by decide) (by decide)) fun part => ?_
  refine .ite ?_ (.ite .throw (.ite .throw (.pure _)))
  exact spends_kernelFree.bind_zero fun _ => .pure _

/-- A part takes a block, and its string another one. -/
theorem spends_pathparserParsePathPart :
    Spends FsState.KernelRoom 2 (pathparserParsePathPart p path) := by
  refine .bind (j := 1) (k := 1) spends_pathparserExtractPathPart fun r => .ite (.pure _) ?_
  refine .bind (j := 1) (k := 0) (spends_kernelZalloc (by decide) (by decide)) fun part => ?_
  refine spends_writeObject.bind_zero fun _ => .ite (.pure _) ?_
  exact spends_readObject.bind_zero fun _ => spends_writeObject.bind_zero fun _ => .pure _

theorem spends_pathparserParseLoop (fuel : ℕ) :
    Spends FsState.KernelRoom (2 * fuel) (pathparserParseLoop p fuel path) := by
  induction fuel generalizing path with
  | zero => exact .throw
  | succ fuel ih =>
    rw [Nat.mul_succ, Nat.add_comm]
    exact .bind spends_pathparserParsePathPart fun r => .ite (.pure _) ih

/-- **What parsing a path spends.** -/
theorem spends_pathparserParse :
    Spends FsState.KernelRoom (2 * path.length + 5) (pathparserParse path) := by
  refine .ite (.pure _) (.ite (.pure _) (.mono (j := 1 + (2 + 2 * (path.length + 1))) ?_ (by omega)))
  refine .bind spends_pathparserCreateRoot fun root => .bind spends_pathparserParsePathPart fun r =>
    .ite (.pure _) ?_
  exact spends_readObject.bind_zero fun x => spends_writeObject.bind_zero fun _ =>
    .bind (k := 0) (spends_pathparserParseLoop _) fun _ => .pure _

/-! ## The file -/

/-- With room, a block is taken. -/
theorem FsState.KernelRoom.exists_kernelZalloc (size : Word) (h : s.KernelRoom n) (hn : n < 25600)
    (hpos : 0 < size.toNat) (hsize : size.toNat ≤ 4096) : ∃ p st,
      inStore (kernelZalloc size) s = .ok (p, { s with store := st }) ∧ p ≠ 0 ∧
        s.store.Extends st ∧ st.heap.Owns p 1 ∧ s.store.heap.Fresh p ∧
        ({ s with store := st } : FsState).KernelRoom (n + 1) := by
  obtain ⟨p, st, hz, h0, hext, hown, hfresh, hroom⟩ := inStore_kernelZalloc_of_room size h.ready h.2
    hpos hsize (by rw [h.total]; exact hn)
  exact ⟨p, st, hz, h0, hext, hown, hfresh, h.1.trans hext.place, hroom⟩

/-- **An item of a file** is made of two blocks. -/
theorem fat16NewFatItem_of_zalloc {p q : Word} {st st' : Store}
    (hfile : item.attributes &&& fatFileSubdirectory = 0)
    (hz : kernelZalloc sizeofFatItem s.store = .ok (p, st)) (hp : p ≠ 0)
    (hz' : kernelZalloc (BitVec.ofNat 32 sizeofFatDirectoryItem) st = .ok (q, st')) (hq : q ≠ 0) :
    fat16NewFatItemForDirectoryItem image item s = .ok (p, (({ s with store := st' } :
      FsState).setObject q (some (.fatDirectoryItem item))).setObject p
        (some (.fatItem ⟨q, fatItemTypeFile⟩))) := by
  have hclone : fat16CloneDirectoryItem item { s with store := st } =
      .ok (q, ({ s with store := st' } : FsState).setObject q (some (.fatDirectoryItem item))) :=
    run_fat16CloneDirectoryItem.2 ⟨st', hz', by rw [if_neg hq]⟩
  unfold fat16NewFatItemForDirectoryItem
  rw [Fallible.bind_ok (run_inStore.2 ⟨st, hz, rfl⟩), if_neg hp, if_pos hfile]
  refine Fallible.run_seq.2 ⟨_, Fallible.run_pure.2 ⟨rfl, rfl⟩, ?_⟩
  refine Fallible.run_bind.2 ⟨q, _, hclone, ?_⟩
  exact Fallible.run_seq.2 ⟨_, run_writeObject.2 ⟨hp, rfl⟩, Fallible.run_pure.2 ⟨rfl, rfl⟩⟩

/-- An item of a file and its record are made. -/
theorem exists_fat16NewFatItem (h : s.KernelRoom n) (hn : n + 1 < 25600)
    (hfile : item.attributes &&& fatFileSubdirectory = 0) : ∃ p q s',
      fat16NewFatItemForDirectoryItem image item s = .ok (p, s') ∧ p ≠ 0 ∧ q ≠ 0 ∧
        s'.objects p = some (.fatItem ⟨q, fatItemTypeFile⟩) ∧
        s'.objects q = some (.fatDirectoryItem item) ∧ s'.KernelRoom (n + 2) := by
  obtain ⟨p, st, hz, h0, -, hown, -, hroom⟩ := h.exists_kernelZalloc sizeofFatItem (by omega)
    (by decide) (by decide)
  obtain ⟨q, st', hz', hq, -, -, hfresh, hroom'⟩ := hroom.exists_kernelZalloc
    (BitVec.ofNat 32 sizeofFatDirectoryItem) hn (by decide) (by decide)
  obtain ⟨t, hitem, ht⟩ := run_inStore.1 hz
  obtain rfl : st = t := congrArg FsState.store ht
  obtain ⟨t', hrecord, ht'⟩ := run_inStore.1 hz'
  obtain rfl : st' = t' := congrArg FsState.store ht'
  have hne : q ≠ p := fun he => hfresh 1 (he ▸ hown)
  refine ⟨p, q, _, fat16NewFatItem_of_zalloc hfile hitem h0 hrecord hq, h0, hq,
    setObject_objects_self, ?_, hroom'⟩
  rw [setObject_objects_of_ne hne, setObject_objects_self]

/-- A heap address is not an error. -/
theorem isErr_of_owns {k : ℕ} (h : s.KernelRoom n) (o : s.store.heap.Owns p k) :
    isErr p = false := by
  obtain ⟨b, -, hb, hle, c⟩ := o.exists_block h.ready
  have hpos := c.pos
  have htotal := h.total
  have hstart : s.store.heap.startAddress.toNat = 0x1000000 := by
    rw [h.1.start]
    rfl
  unfold isErr
  rw [decide_eq_false_iff_not, BitVec.toInt_eq_toNat_cond]
  split <;> omega

/-- The one part of a path is looked for in the root directory. -/
theorem fat16GetDirectoryEntry_of_find {part : PathPart} {path : Word}
    (hfat : s.disk.fsPrivate = some fat) (hpart : s.objects path = some (.pathPart part))
    (hpath : path ≠ 0) (hnext : part.next = 0)
    (hfind : fat16FindItemInDirectory image fat.rootDirectory part.text s = .ok (p, s'))
    (hp : p ≠ 0) : fat16GetDirectoryEntry image path s = .ok (p, s') := by
  refine Fallible.run_bind.2 ⟨fat, _, run_diskFsPrivate.2 ⟨hfat, rfl⟩, ?_⟩
  refine Fallible.run_bind.2 ⟨part, _, run_readObject.2 ⟨hpath, by rw [hpart]; rfl, rfl⟩, ?_⟩
  refine Fallible.run_bind.2 ⟨p, s', hfind, ?_⟩
  rw [if_neg hp, hnext]
  rfl

/-- **A descriptor's private data** leads to the record `item`, at the
start of its file. -/
def FileStart (s : FsState) (privateData : Word) (item : FatDirectoryItem) : Prop :=
  ∃ fatItem record, privateData ≠ 0 ∧
    s.objects privateData = some (.fatFileDescriptor ⟨fatItem, 0⟩) ∧ fatItem ≠ 0 ∧
    s.objects fatItem = some (.fatItem ⟨record, fatItemTypeFile⟩) ∧ record ≠ 0 ∧
    s.objects record = some (.fatDirectoryItem item)

/-- **The file found in the root directory is opened.** -/
theorem exists_fat16Open {part : PathPart} {path : Word} (o : FsOwned s) (h : s.KernelRoom n)
    (hn : n + 2 < 25600)
    (hfat : s.disk.fsPrivate = some fat) (hpart : s.objects path = some (.pathPart part))
    (hpath : path ≠ 0) (hnext : part.next = 0)
    (hfind : fat16FindItemInDirectory image fat.rootDirectory part.text =
      fat16NewFatItemForDirectoryItem image item)
    (hfile : item.attributes &&& fatFileSubdirectory = 0) : ∃ p s',
      fat16Open image path .read s = .ok (p, s') ∧ isErr p = false ∧ FileStart s' p item ∧
        s'.KernelRoom (n + 3) := by
  obtain ⟨p, st, hz, h0, hext, hown, hfresh, hroom⟩ := h.exists_kernelZalloc sizeofFatFileDescriptor
    (by omega) (by decide) (by decide)
  obtain ⟨q, r, t, hnew, hq, hr, hitem, hrecord, hroom'⟩ :=
    @exists_fat16NewFatItem image _ _ item hroom hn hfile
  have hentry : fat16GetDirectoryEntry image path { s with store := st } = .ok (q, t) :=
    fat16GetDirectoryEntry_of_find hfat hpart hpath hnext (by rw [hfind]; exact hnew) hq
  -- the descriptor's block is no object yet
  have hpending := (FsPending.of_zalloc o hz h0 (by decide)).step
    (fat16NewFatItemForDirectoryItem_step (FsStep.of_zalloc o hz).owned hnew)
  have hother : ∀ {x : Word} {y : FsObject}, t.objects x = some y →
      (t.setObject p (some (.fatFileDescriptor ⟨q, 0⟩))).objects x = some y := by
    intro x y hx
    rw [setObject_objects_of_ne, hx]
    rintro rfl
    rw [hpending.objects] at hx
    cases hx
  refine ⟨p, t.setObject p (some (.fatFileDescriptor ⟨q, 0⟩)), ?_, isErr_of_owns hroom hown,
    ⟨q, r, h0, setObject_objects_self, hq, hother hitem, hr, hother hrecord⟩, hroom'⟩
  unfold fat16Open
  rw [if_neg (not_not.2 rfl), Fallible.bind_ok hz, if_neg h0, Fallible.bind_ok hentry]
  refine Fallible.run_seq.2 ⟨_, run_writeObject.2 ⟨h0, rfl⟩, ?_⟩
  rw [if_neg hq]
  exact Fallible.run_pure.2 ⟨rfl, rfl⟩

/-- **A descriptor is taken** from the first free slot. -/
theorem exists_fileNewDescriptor {i : ℕ} (o : FsOwned s) (h : s.KernelRoom n) (hn : n < 25600)
    (hslot : s.freeSlot = some i) : ∃ d st, fileNewDescriptor s = .ok ((0, d),
        { ({ s with store := st } : FsState).setObject d
            (some (.fileDescriptor ⟨i + 1, none, 0⟩)) with
          fileDescriptors := Function.update s.fileDescriptors i d }) ∧ d ≠ 0 ∧
      s.objects d = none ∧ ({ s with store := st } : FsState).KernelRoom (n + 1) := by
  obtain ⟨d, st, hz, h0, -, -, hfresh, hroom⟩ := h.exists_kernelZalloc sizeofFileDescriptor hn
    (by decide) (by decide)
  refine ⟨d, st, ?_, h0, o.objects_of_fresh hfresh, hroom⟩
  unfold FsState.freeSlot at hslot
  unfold fileNewDescriptor
  rw [Fallible.run_get_bind, hslot]
  refine Fallible.run_bind.2 ⟨d, _, hz, Fallible.run_seq.2 ⟨_, run_writeObject.2 ⟨h0, rfl⟩, ?_⟩⟩
  exact Fallible.run_seq.2 ⟨_, Fallible.run_modify.2 rfl, Fallible.run_pure.2 ⟨rfl, rfl⟩⟩

/-- A list of no part. -/
theorem PartsFrom.eq_zero (h : PartsFrom s p []) : p = 0 := by
  cases h
  rfl

/-- A list of one part. -/
theorem PartsFrom.single {c : Cstring} (h : PartsFrom s p [c]) :
    ∃ part, p ≠ 0 ∧ s.objects p = some (.pathPart part) ∧ part.text = c ∧ part.next = 0 := by
  cases h with
  | @cons _ part _ h0 hpart rest => exact ⟨part, h0, hpart, rfl, rest.eq_zero⟩

/-- The one part of a path in the root directory. -/
theorem pathparserParse_component {c : Cstring} (h : s.KernelRoom n)
    (hn : n + 2 < 25600) (hc : IsComponent c) (hlen : c.length + 3 < osMaxPath) :
    ∃ root first b t, pathparserParse (0x30 :: colon :: slash :: c) s = .ok (root, t) ∧ root ≠ 0 ∧
      t.objects root = some (.pathRoot ⟨0, first⟩) ∧ first ≠ 0 ∧
      t.objects first = some (.pathPart ⟨b, c, 0⟩) := by
  have hzero : (0 : Byte) ∉ 0x30 :: colon :: slash :: c := by
    intro hmem
    simp only [List.mem_cons] at hmem
    rcases hmem with hmem | hmem | hmem | hmem
    · exact absurd hmem (by decide)
    · exact absurd hmem (by decide)
    · exact absurd hmem (by decide)
    · exact absurd (hc.2 0 hmem) (by decide)
  have hpath : ComponentPath (0x30 :: colon :: slash :: c) 0x30 [c] :=
    ⟨by decide, fun x hx => by rwa [List.mem_singleton.1 hx], false, by
      rw [joinPath, if_neg Bool.false_ne_true, List.append_nil]⟩
  have hfree := h.2.le_freeBlocks
  rw [h.total] at hfree
  obtain ⟨root, first, t, hrun, hroot, hobj, hparts⟩ := pathparserParse_of_accepted
    (0x30 :: colon :: slash :: c) h.ready
    (by rw [hpath.pathParts_eq]; change 2 < s.store.heap.freeBlocks; omega) hzero
    ⟨by simp only [List.length_cons]; omega, 0x30, c, rfl, by decide⟩
  rw [hpath.pathParts_eq] at hparts
  obtain ⟨part, h0, hpart, htext, hnext⟩ := hparts.single
  refine ⟨root, first, part.part, t, hrun, hroot, hobj, h0, ?_⟩
  rw [hpart, ← htext, ← hnext]

/-- **A file of the root directory is opened**, with room for the path, its
item and the descriptors. -/
theorem exists_fopen {c modeStr : Cstring} {i : ℕ} (o : FsOwned s) (h : s.KernelRoom n)
    (hn : n + (2 * c.length + 15) ≤ 25600) (hc : IsComponent c) (hlen : c.length + 3 < osMaxPath)
    (hdisk : s.disk = ⟨some .fat16, some fat⟩) (hmode : fileGetModeByString modeStr = .read)
    (hfind : fat16FindItemInDirectory image fat.rootDirectory c =
      fat16NewFatItemForDirectoryItem image item)
    (hfile : item.attributes &&& fatFileSubdirectory = 0) (hslot : s.freeSlot = some i) :
    ∃ s' m, fopen image (0x30 :: colon :: slash :: c) modeStr s = .ok (i + 1, s') ∧
      m ≤ n + (2 * c.length + 15) ∧ s'.KernelRoom m ∧
      (i + 1 < osMaxFileDescriptors → OpenFile s' (i + 1) fat item 0) := by
  obtain ⟨root, first, b, t₁, hparse, hroot, hobj, hfirst, hpart⟩ :=
    pathparserParse_component h (by omega) hc hlen
  have a₁ := pathparserParse_step o hparse
  obtain ⟨m, hm, hroom₁⟩ := spends_pathparserParse n s root t₁ h hparse
  simp only [List.length_cons] at hm
  have hdisk₁ := a₁.keeps.disk.trans hdisk
  obtain ⟨p, t₂, hopen, herr, hstart, hroom₂⟩ := exists_fat16Open a₁.owned hroom₁ (by omega)
    (congrArg Disk.fsPrivate hdisk₁) hpart hfirst rfl hfind hfile
  have a₂ := a₁.trans (fat16Open_step a₁.owned hopen)
  have hslot₂ : t₂.freeSlot = some i := by
    unfold FsState.freeSlot at hslot ⊢
    rw [a₂.table]
    exact hslot
  obtain ⟨d, st, hnew, hd, hfree, hroom₃⟩ :=
    exists_fileNewDescriptor a₂.owned hroom₂ (by omega) hslot₂
  obtain ⟨t₃, ht₃⟩ : ∃ t, t = ({ ({ t₂ with store := st } : FsState).setObject d
      (some (.fileDescriptor ⟨i + 1, none, 0⟩)) with
    fileDescriptors := Function.update t₂.fileDescriptors i d } : FsState) := ⟨_, rfl⟩
  rw [← ht₃] at hnew
  have hobj₃ : t₃.objects d = some (.fileDescriptor ⟨i + 1, none, 0⟩) := by
    rw [ht₃]
    exact setObject_objects_self
  refine ⟨t₃.setObject d (some (.fileDescriptor ⟨i + 1, some .fat16, p⟩)), m + 3 + 1, ?_, by omega,
    by rw [ht₃]; exact hroom₃, fun hi => ?_⟩
  · refine Fallible.run_bind.2 ⟨root, t₁, hparse, ?_⟩
    rw [if_neg hroot]
    refine Fallible.run_bind.2 ⟨⟨0, first⟩, t₁, run_readObject.2 ⟨hroot, by rw [hobj]; rfl, rfl⟩, ?_⟩
    rw [if_neg hfirst, if_neg (not_not.2 rfl), Fallible.run_get_bind, hdisk₁, hmode]
    refine Fallible.run_bind.2 ⟨p, t₂, hopen, ?_⟩
    rw [herr]
    refine Fallible.run_bind.2 ⟨(0, d), t₃, hnew, ?_⟩
    refine Fallible.run_bind.2 ⟨⟨i + 1, none, 0⟩, t₃, run_readObject.2 ⟨hd, by rw [hobj₃]; rfl, rfl⟩, ?_⟩
    exact Fallible.run_seq.2 ⟨_, run_writeObject.2 ⟨hd, rfl⟩, Fallible.run_pure.2 ⟨rfl, rfl⟩⟩
  · -- the descriptor's block is none of the file's
    obtain ⟨q, r, hp0, hp, hq0, hq, hr0, hr⟩ := hstart
    have hother : ∀ {x : Word} {y : FsObject}, t₂.objects x = some y →
        (t₃.setObject d (some (.fileDescriptor ⟨i + 1, some .fat16, p⟩))).objects x = some y := by
      intro x y hx
      have hne : x ≠ d := by
        rintro rfl
        rw [hfree] at hx
        cases hx
      rw [setObject_objects_of_ne hne, ht₃]
      exact (setObject_objects_of_ne hne).trans hx
    have htable : (t₃.setObject d (some (.fileDescriptor ⟨i + 1, some .fat16, p⟩))).fileDescriptors
        ((i + 1 : ℤ) - 1).toNat = d := by
      rw [ht₃, show ((i + 1 : ℤ) - 1).toNat = i by omega]
      exact Function.update_self ..
    refine ⟨?_, ⟨by omega, by omega⟩, i + 1, p, q, r, ?_⟩
    · rw [ht₃]
      exact congrArg Disk.fsPrivate (a₂.keeps.disk.trans hdisk)
    · rw [htable]
      exact ⟨hd, setObject_objects_self, hp0, hother hp, hq0, hother hq, hr0, hother hr⟩

/-! ## Before the first file -/

/-- The file layer before the first file, with the first `n` entries of
the heap's table used up. -/
def FsState.Untouched (n : ℕ) (s : FsState) : Prop :=
  s.KernelRoom n ∧ (∀ p, s.objects p = none) ∧ ∀ i, s.fileDescriptors i = 0

theorem untouched_bootFs : bootFs.Untouched 0 :=
  ⟨⟨.refl _, room_kernelHeapInit⟩, fun _ => rfl, fun _ => rfl⟩

theorem FsState.Untouched.fsOwned (h : s.Untouched n) : FsOwned s where
  ready := h.1.ready
  owns q hq := absurd (h.2.1 q) hq
  items q x hx := by
    rw [h.2.1 q] at hx
    cases hx
  single q q' x x' hx := by
    rw [h.2.1 q] at hx
    cases hx

end OwnKernel
