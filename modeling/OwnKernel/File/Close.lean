import OwnKernel.File.Leak

/-!
# Stat and close

The two calls a loader makes on an open file besides `fread`: `fstat`
tells the size of its record and changes nothing, and `fclose` finishes
and takes no room in the heap.
-/

namespace OwnKernel

open Fallible (Spends)

variable {fat : FatPrivate} {item : FatDirectoryItem} {s s' : FsState} {fd : ℤ} {pos : Word}

/-! ## Any handle -/

/-- `fstat` changes nothing, and answers 0 or an error. -/
theorem fstat_frame {stat : FileStat} {r : ℤ × FileStat}
    (h : fstat fd stat s = .ok (r, s')) : s' = s ∧ r.1 ≤ 0 := by
  have herror : -invalidArgumentError ≤ 0 := by decide
  obtain ⟨descriptor, t₁, hget, h₁⟩ := Fallible.run_bind.1 h
  obtain ⟨-, rfl⟩ := Fallible.run_pure.1 hget
  split at h₁
  · obtain ⟨rfl, rfl⟩ := Fallible.run_pure.1 h₁
    exact ⟨rfl, herror⟩
  obtain ⟨privateData, t₂, hprivate, h₂⟩ := Fallible.run_bind.1 h₁
  obtain ⟨x, t₃, hx, hname⟩ := Fallible.run_bind.1 hprivate
  obtain ⟨-, -, rfl⟩ := run_readObject.1 hx
  obtain rfl : t₂ = t₃ := by
    cases hfs : x.filesystem with
    | none =>
      rw [hfs] at hname
      exact absurd hname Fallible.run_throw
    | some name =>
      rw [hfs] at hname
      exact (Fallible.run_pure.1 hname).2
  obtain ⟨d, t₄, hd, h₃⟩ := Fallible.run_bind.1 h₂
  obtain ⟨item, t₅, hitem, h₄⟩ := Fallible.run_bind.1 h₃
  obtain ⟨-, -, rfl⟩ := run_readObject.1 hd
  obtain ⟨-, -, rfl⟩ := run_readObject.1 hitem
  split at h₄
  · obtain ⟨rfl, rfl⟩ := Fallible.run_pure.1 h₄
    exact ⟨rfl, herror⟩
  obtain ⟨record, t₆, hrecord, h₅⟩ := Fallible.run_bind.1 h₄
  obtain ⟨-, -, rfl⟩ := run_readObject.1 hrecord
  obtain ⟨rfl, rfl⟩ := Fallible.run_pure.1 h₅
  exact ⟨rfl, le_refl 0⟩

/-- Closing a file spends nothing. -/
theorem spends_fclose : Spends FsState.KernelRoom 0 (fclose fd) := by
  have hfree : ∀ p, Spends FsState.KernelRoom 0 (freeObject p) := fun p =>
    spends_kernelFree.bind_zero fun _ =>
      .modify (g := fun s : FsState => s.setObject p none) fun _ _ h => h
  have hitem : ∀ p, Spends FsState.KernelRoom 0 (fat16FatItemFree p) := by
    refine fun p => spends_readObject.bind_zero fun x => .bind (j := 0) (k := 0) ?_ fun _ => hfree p
    refine .ite (.ite (.pure _) (spends_readObject.bind_zero fun d => ?_)) (.ite (hfree _) (.pure _))
    exact .bind (j := 0) (k := 0) (.ite (.pure _) spends_kernelFree) fun _ => hfree _
  have hprivate : ∀ p, Spends FsState.KernelRoom 0 (descriptorPrivate p) := by
    refine fun p => spends_readObject.bind_zero fun d => ?_
    cases d.filesystem with
    | none => exact .throw
    | some name => exact .pure _
  have hget : Spends FsState.KernelRoom 0 (fileGetDescriptor fd) := by
    intro n s d t h hrun
    rw [(Fallible.run_pure.1 hrun).2]
    exact ⟨n, le_rfl, h⟩
  refine hget.bind_zero fun d => .ite (.pure _) ?_
  refine (hprivate d).bind_zero fun q => .bind (j := 0) (k := 0) ?_ fun res => ?_
  · exact spends_readObject.bind_zero fun x => (hitem _).bind_zero fun _ =>
      (hfree _).bind_zero fun _ => .pure _
  · refine .ite (.bind (j := 0) (k := 0) ?_ fun _ => .pure _) (.pure _)
    exact spends_readObject.bind_zero fun x => .bind (j := 0) (k := 0)
      (.modify fun _ _ h => h) fun _ => hfree _

/-! ## An open file -/

/-- Freeing an object forgets it. -/
theorem exists_freeObject (s : FsState) (p : Word) : ∃ t, freeObject p s = .ok (⟨⟩, t) ∧
    t.objects = Function.update s.objects p none := ⟨_, freeObject_eq, rfl⟩

namespace OpenFile

/-- **`fstat` on an open file** tells the record's size. -/
theorem fstat_eq (f : OpenFile s fd fat item pos) (stat : FileStat) : ∃ flags,
    fstat fd stat s = .ok ((0, ⟨flags, item.filesize⟩), s) := by
  obtain ⟨index, privateData, fatItem, record, hd0, hd, hp0, hp, hi0, hi, hr0, hr⟩ := f.descriptors
  refine ⟨if item.attributes &&& fatFileReadOnly = 0 then 0 else fileStatReadOnly, ?_⟩
  unfold fstat
  rw [Fallible.bind_ok f.fileGetDescriptor_eq, if_neg hd0,
    Fallible.bind_ok (descriptorPrivate_eq hd0 hd)]
  unfold fat16Stat
  rw [Fallible.bind_ok (run_readObject.2 ⟨hp0, by rw [hp]; rfl, rfl⟩),
    Fallible.bind_ok (run_readObject.2 ⟨hi0, by rw [hi]; rfl, rfl⟩), if_neg (not_not.2 rfl),
    Fallible.bind_ok (run_readObject.2 ⟨hr0, by rw [hr]; rfl, rfl⟩)]
  rfl

/-- **`fclose` on an open file** finishes. -/
theorem exists_fclose (f : OpenFile s fd fat item pos) : ∃ s', fclose fd s = .ok (allOk, s') := by
  obtain ⟨index, privateData, fatItem, record, hd0, hd, hp0, hp, hi0, hi, hr0, hr⟩ := f.descriptors
  -- the record, the item and the private data are freed
  obtain ⟨t₁, hrecord, h₁⟩ := exists_freeObject s record
  obtain ⟨t₂, hitem, h₂⟩ := exists_freeObject t₁ fatItem
  obtain ⟨t₃, hprivate, h₃⟩ := exists_freeObject t₂ privateData
  have hfree : fat16FatItemFree fatItem s = .ok (⟨⟩, t₂) := by
    refine Fallible.run_bind.2 ⟨_, s, run_readObject.2 ⟨hi0, by rw [hi]; rfl, rfl⟩, ?_⟩
    rw [if_neg (show ¬ fatItemTypeFile = fatItemTypeDirectory by decide), if_pos rfl]
    exact Fallible.run_seq.2 ⟨t₁, hrecord, hitem⟩
  have hclose : fat16Close privateData s = .ok (allOk, t₃) :=
    Fallible.run_bind.2 ⟨_, s, run_readObject.2 ⟨hp0, by rw [hp]; rfl, rfl⟩,
      Fallible.run_seq.2 ⟨t₂, hfree, Fallible.run_seq.2 ⟨t₃, hprivate, rfl⟩⟩⟩
  -- and the descriptor is there still
  have hkept : t₃.objects (s.fileDescriptors (fd - 1).toNat) =
      some (.fileDescriptor ⟨index, some .fat16, privateData⟩) := by
    have hview : (FsObject.asFileDescriptor
      (.fileDescriptor ⟨index, some .fat16, privateData⟩)).isSome := rfl
    rw [h₃, Function.update_of_ne (ne_of_view hd hp hview rfl), h₂,
      Function.update_of_ne (ne_of_view hd hi hview rfl), h₁,
      Function.update_of_ne (ne_of_view hd hr hview rfl), hd]
  unfold fclose
  rw [Fallible.bind_ok f.fileGetDescriptor_eq, if_neg hd0,
    Fallible.bind_ok (descriptorPrivate_eq hd0 hd), Fallible.bind_ok hclose, if_pos rfl]
  exact ⟨_, Fallible.run_seq.2 ⟨_, Fallible.run_bind.2 ⟨⟨index, some .fat16, privateData⟩, t₃,
    run_readObject.2 ⟨hd0, by rw [hkept]; rfl, rfl⟩, Fallible.run_seq.2
      ⟨_, Fallible.run_modify.2 rfl, freeObject_eq⟩⟩, rfl⟩⟩

end OpenFile

end OwnKernel
