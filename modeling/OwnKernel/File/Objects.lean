import OwnKernel.Model.Fat16Files
import OwnKernel.Store.Room

/-!
# Objects of the file layer, step by step

What it means for the primitives of `FsM` to finish, and what making an
object does: the pointer is not null, no live allocation started there,
and the heap has one block less of room (`inStore_kernelZalloc_of_room`).
-/

namespace OwnKernel

variable {s s' : FsState} {p q : Word} {o : Option FsObject} {u : PUnit} {n : ℕ}

/-- A program of the memory layer changes the store only. -/
theorem run_inStore {α : Type} {x : StoreM α} {a : α} :
    inStore x s = .ok (a, s') ↔ ∃ t, x s.store = .ok (a, t) ∧ s' = { s with store := t } := by
  unfold inStore
  cases hx : x s.store with
  | error e => simp
  | ok r =>
    obtain ⟨b, t⟩ := r
    constructor
    · intro h
      cases h
      exact ⟨t, rfl, rfl⟩
    · rintro ⟨t', h, rfl⟩
      cases h
      rfl

/-- A pointer that is read is not null and refers to an object of the
type wanted. -/
theorem run_readObject {β : Type} {view : FsObject → Option β} {x : β} :
    readObject view p s = .ok (x, s') ↔ p ≠ 0 ∧ (s.objects p).bind view = some x ∧ s' = s := by
  unfold readObject
  rw [Fallible.run_get_bind]
  cases ho : (s.objects p).bind view with
  | none => exact ⟨fun h => absurd h Fallible.run_throw, fun h => absurd h.2.1 (by simp)⟩
  | some y =>
    by_cases h0 : p = 0
    · simp only [if_pos h0]
      exact ⟨fun h => absurd h Fallible.run_throw, fun h => absurd h0 h.1⟩
    · simp only [if_neg h0, Fallible.run_pure, Option.some.injEq]
      exact ⟨fun ⟨hx, hs⟩ => ⟨h0, hx.symm, hs⟩, fun ⟨_, hx, hs⟩ => ⟨hx.symm, hs⟩⟩

/-- Only the structures of its type are found. -/
theorem FsObject.asType_eq_some_iff {t : FsType} {o : FsObject} {x : t.Struct} :
    o.asType t = some x ↔ o = t.object x := by
  constructor
  · intro h
    cases t <;> cases o <;> cases h <;> rfl
  · rintro rfl
    cases t <;> rfl

/-- An object that was read is of its view's type. -/
theorem read_object {t : FsType} {x : t.Struct}
    (h : readObject (FsObject.asType t) p s = .ok (x, s')) :
    p ≠ 0 ∧ s.objects p = some (t.object x) ∧ s' = s := by
  obtain ⟨h0, hx, hs⟩ := run_readObject.1 h
  obtain ⟨o, ho, hview⟩ := Option.bind_eq_some_iff.1 hx
  exact ⟨h0, by rw [ho, FsObject.asType_eq_some_iff.1 hview], hs⟩

/-- A structure is written through a pointer that is not null. -/
theorem run_writeObject {x : FsObject} :
    writeObject p x s = .ok (u, s') ↔ p ≠ 0 ∧ s' = s.setObject p (some x) := by
  unfold writeObject
  by_cases h0 : p = 0
  · rw [if_pos h0]
    exact ⟨fun h => absurd h Fallible.run_throw, fun h => absurd h0 h.1⟩
  · rw [if_neg h0, Fallible.run_modify]
    exact ⟨fun h => ⟨h0, h⟩, fun h => h.2⟩

/-- A read of the disk leaves the state alone. -/
theorem run_readDisk {α : Type} {x : Except Fault α} {a : α} :
    readDisk x s = .ok (a, s') ↔ x = .ok a ∧ s' = s := by
  unfold readDisk
  cases x with
  | error e => exact ⟨fun h => (nomatch h), fun h => (nomatch h.1)⟩
  | ok b =>
    constructor
    · intro h
      cases h
      exact ⟨rfl, rfl⟩
    · rintro ⟨h, rfl⟩
      cases h
      rfl

/-- The driver's data is read when there is a disk. -/
theorem run_diskFsPrivate {fat : FatPrivate} :
    diskFsPrivate s = .ok (fat, s') ↔ s.disk.fsPrivate = some fat ∧ s' = s := by
  unfold diskFsPrivate
  rw [Fallible.run_get_bind]
  cases s.disk.fsPrivate with
  | none => exact ⟨fun h => absurd h Fallible.run_throw, fun h => (nomatch h.1)⟩
  | some x =>
    simp only [Fallible.run_pure, Option.some.injEq]
    exact ⟨fun ⟨hx, hs⟩ => ⟨hx.symm, hs⟩, fun ⟨hx, hs⟩ => ⟨hx.symm, hs⟩⟩

/-- `kernel_free`, in the file layer. -/
theorem run_kernelFree : inStore (kernelFree p) s = .ok (u, s') ↔ s' = { s with store :=
    { s.store with heap := s.store.heap.write (heapFree s.store.heap p) } } := by
  constructor
  · intro h
    cases h
    rfl
  · rintro rfl
    rfl

/-- Freeing an object frees its block and forgets it. -/
theorem freeObject_eq : freeObject p s = .ok (⟨⟩, ({ s with store := { s.store with
    heap := s.store.heap.write (heapFree s.store.heap p) } } : FsState).setObject p none) := rfl

@[simp] theorem setObject_objects_self : (s.setObject p o).objects p = o := Function.update_self ..

theorem setObject_objects_of_ne (h : q ≠ p) : (s.setObject p o).objects q = s.objects q :=
  Function.update_of_ne h ..

@[simp] theorem setObject_store : (s.setObject p o).store = s.store := rfl

@[simp] theorem setObject_disk : (s.setObject p o).disk = s.disk := rfl

@[simp] theorem setObject_fileDescriptors :
    (s.setObject p o).fileDescriptors = s.fileDescriptors := rfl

/-- Of two writes to a structure the second stays. -/
theorem setObject_setObject {o' : Option FsObject} :
    (s.setObject p o).setObject p o' = s.setObject p o' := by
  unfold FsState.setObject
  rw [Function.update_idem]

/-- The same with another structure written between them. -/
theorem setObject_overwrite {o' o'' : Option FsObject} :
    ((s.setObject p o).setObject q o').setObject p o'' =
      (s.setObject q o').setObject p o'' := by
  by_cases h : q = p
  · rw [h, setObject_setObject, setObject_setObject, setObject_setObject]
  · unfold FsState.setObject
    congr 1
    change Function.update (Function.update (Function.update s.objects p o) q o') p o'' = _
    rw [Function.update_comm h, Function.update_idem, Function.update_comm (Ne.symm h)]

/-- **An allocation of up to a block, with room.** -/
theorem inStore_kernelZalloc_of_room (size : Word) (r : s.store.heap.Ready)
    (hr : s.store.heap.Room n) (hpos : 0 < size.toNat) (hsize : size.toNat ≤ 4096)
    (hn : n < s.store.heap.total) :
    ∃ p t, inStore (kernelZalloc size) s = .ok (p, { s with store := t }) ∧ p ≠ 0 ∧
      s.store.Extends t ∧ t.heap.Owns p 1 ∧ s.store.heap.Fresh p ∧ t.heap.Room (n + 1) := by
  have hblocks : blocksFor size.toNat = 1 := by
    unfold blocksFor
    omega
  obtain ⟨p, t, hz, h0, -, hroom⟩ := kernelZalloc_of_room size r hr hpos (by omega)
    (by rw [hblocks]; exact hn)
  obtain ⟨hext, hown, hfresh, -⟩ := kernelZalloc_spec r hpos (by omega) hz h0
  rw [hblocks] at hown hroom
  exact ⟨p, t, run_inStore.2 ⟨t, hz, rfl⟩, h0, hext, hown, hfresh, hroom⟩

/-- **The same with a free block**, which is one less then. -/
theorem inStore_kernelZalloc_of_free (size : Word) (r : s.store.heap.Ready) (hpos : 0 < size.toNat)
    (hsize : size.toNat ≤ 4096) (hfree : 0 < s.store.heap.freeBlocks) :
    ∃ p t, inStore (kernelZalloc size) s = .ok (p, { s with store := t }) ∧ p ≠ 0 ∧
      s.store.Extends t ∧ t.heap.Owns p 1 ∧ s.store.heap.Fresh p ∧
      t.heap.freeBlocks + 1 = s.store.heap.freeBlocks := by
  have hblocks : blocksFor size.toNat = 1 := by
    unfold blocksFor
    omega
  obtain ⟨hnone, -⟩ | ⟨p, t, hz, h0, -, hcount⟩ := kernelZalloc_single size r hpos hsize
  · omega
  · obtain ⟨hext, hown, hfresh, -⟩ := kernelZalloc_spec r hpos (by omega) hz h0
    exact ⟨p, t, run_inStore.2 ⟨t, hz, rfl⟩, h0, hext, hblocks ▸ hown, hfresh, hcount⟩

/-- With or without one it returns. -/
theorem exists_inStore_kernelZalloc (size : Word) (r : s.store.heap.Ready) (hpos : 0 < size.toNat)
    (hsize : size.toNat ≤ 4096) :
    ∃ p t, inStore (kernelZalloc size) s = .ok (p, { s with store := t }) := by
  obtain ⟨-, hz⟩ | ⟨p, t, hz, -⟩ := kernelZalloc_single size r hpos hsize
  · exact ⟨0, _, run_inStore.2 ⟨_, hz, rfl⟩⟩
  · exact ⟨p, t, run_inStore.2 ⟨t, hz, rfl⟩⟩

end OwnKernel
