import OwnKernel.Fat16.Divide
import OwnKernel.File.Cursor

/-!
# How much a read stores

A read of one item stores at most as many bytes as the item has, from the
caller's pointer on, and nothing else (`fread_writes`). So a file read
into a block that was allocated by its size stays in the block.
-/

namespace OwnKernel

variable {image : Sectors} {fat : FatPrivate}

/-- A sequence that succeeds, in two parts. -/
theorem ok_of_bind {α β : Type} {x : Except Fault α} {f : α → Except Fault β} {b : β}
    (h : (x >>= f) = .ok b) : ∃ a, x = .ok a ∧ f a = .ok b := by
  cases x with
  | error e => cases h
  | ok a => exact ⟨a, rfl, h⟩

theorem length_readBuffer_le {buffer : ℕ → Byte} {offset count : ℤ} {bytes : List Byte}
    (h : readBuffer buffer offset count = .ok bytes) : bytes.length ≤ count.toNat := by
  unfold readBuffer at h
  split at h
  · cases h
    simp
  · split at h
    · cases h
    · cases h
      simp

/-- A stream delivers no more than it is asked for. -/
theorem length_diskStreamRead_le (stream : DiskStream) (total : ℤ) {r : List Byte × DiskStream}
    (h : diskStreamRead image stream total = .ok r) : r.1.length ≤ total.toNat := by
  induction stream, total using diskStreamRead.induct generalizing r with
  | case1 stream total offset hover totalToRead =>
    rename_i ih
    rw [diskStreamRead] at h
    simp only at h
    rw [if_pos hover] at h
    obtain ⟨bytes, hbytes, h⟩ := ok_of_bind h
    obtain ⟨rest, hrest, h⟩ := ok_of_bind h
    cases h
    have hfirst : bytes.length ≤ totalToRead.toNat := length_readBuffer_le hbytes
    have hsecond : rest.1.length ≤ (total - totalToRead).toNat := ih hrest
    have hoffset : stream.position.tmod 512 < 512 := Int.tmod_lt_of_pos _ (by decide)
    have hread : totalToRead = total - (stream.position.tmod 512 + total - 512) := rfl
    change (512 : ℤ) < stream.position.tmod 512 + total at hover
    rw [List.length_append]
    omega
  | case2 stream total offset =>
    rename_i hover
    rw [diskStreamRead] at h
    simp only at h
    rw [if_neg hover] at h
    obtain ⟨bytes, hbytes, h⟩ := ok_of_bind h
    cases h
    exact length_readBuffer_le hbytes

/-- Nor does a walk over clusters. -/
theorem length_fat16ReadInternal_le {cluster : ℤ} (n : ℕ) : ∀ {offset total : ℤ}
    {r : ℤ × List Byte}, total.toNat = n →
      fat16ReadInternal image fat cluster offset total = .ok r → r.2.length ≤ n := by
  induction n using Nat.strong_induction_on with
  | _ n ih =>
    intro offset total r htotal h
    rw [fat16ReadInternal_seeks] at h
    split at h
    · cases h
    obtain ⟨clusterToUse, -, h⟩ := ok_of_bind h
    by_cases hneg : clusterToUse < 0
    · rw [if_pos hneg] at h
      cases h
      exact Nat.zero_le n
    rw [if_neg hneg] at h
    -- the rest is shorter
    obtain ⟨m, hm⟩ : ∃ m, (if total > sizeOfClusterBytes fat.header then
      (sizeOfClusterBytes fat.header : ℤ) else total) = m := ⟨_, rfl⟩
    have hle : m.toNat ≤ n := by split at hm <;> omega
    have hless : total - m > 0 → (total - m).toNat < n ∧ m.toNat + (total - m).toNat ≤ n := by
      split at hm <;> omega
    rw [hm] at h
    obtain ⟨piece, hpiece, h⟩ := ok_of_bind h
    have hfirst := length_diskStreamRead_le _ _ hpiece
    by_cases hmore : total - m > 0
    · rw [if_pos hmore] at h
      obtain ⟨rest, hrest, h⟩ := ok_of_bind h
      cases h
      have hsecond := ih _ (hless hmore).1 rfl hrest
      have hsum := (hless hmore).2
      rw [List.length_append]
      omega
    · rw [if_neg hmore] at h
      cases h
      exact hfirst.trans hle

/-- A read of one item delivers at most its size. -/
theorem length_fat16ReadRecord_le {item : FatDirectoryItem} {pos size : Word} {r : ℤ × List Byte}
    (h : fat16ReadRecord image fat item pos size 1 = .ok r) : r.2.length ≤ size.toNat := by
  have hitem : ∀ {r : ℤ × List Byte}, fat16ReadLoop image fat (fat16GetFirstCluster item) size
      (1 : Word).toNat (int32 pos.toNat) = .ok r → r.2.length ≤ size.toNat := by
    intro r h
    have hone : (1 : Word).toNat = 1 := by decide
    simp only [hone, fat16ReadLoop] at h
    obtain ⟨x, hx, h⟩ := ok_of_bind h
    have hlen := length_fat16ReadInternal_le _ rfl hx
    have hsize : (int32 size.toNat).toNat ≤ size.toNat := by
      have hlt := size.isLt
      unfold int32
      omega
    split at h
    · cases h
      exact hlen.trans hsize
    · obtain ⟨rest, hrest, h⟩ := ok_of_bind h
      cases h
      cases hrest
      rw [List.append_nil]
      exact hlen.trans hsize
  unfold fat16ReadRecord at h
  obtain ⟨x, hx, hpure⟩ := ok_of_bind h
  have hlen := hitem hx
  split at hpure
  · rw [← Except.ok.inj hpure]
    exact hlen
  · rw [← Except.ok.inj hpure]
    exact hlen

/-- So does `fat16_read`. -/
theorem length_fat16Read_le {s s' : FsState} {descriptor size : Word} {r : ℤ × List Byte}
    (h : fat16Read image descriptor size 1 s = .ok (r, s')) : r.2.length ≤ size.toNat := by
  unfold fat16Read at h
  obtain ⟨f, u₁, -, h⟩ := Fallible.run_bind.1 h
  obtain ⟨y, u₂, -, h⟩ := Fallible.run_bind.1 h
  obtain ⟨z, u₃, -, h⟩ := Fallible.run_bind.1 h
  obtain ⟨w, u₄, -, h⟩ := Fallible.run_bind.1 h
  exact length_fat16ReadRecord_le (run_readDisk.1 h).1

/-- **What `fread` of one item stores**: nothing, or at most `size` bytes at
a pointer that is not null. -/
theorem fread_writes {s s' : FsState} {ptr size : Word} {fd r : ℤ}
    (h : fread image ptr size 1 fd s = .ok (r, s')) :
    s' = s ∨ (ptr ≠ 0 ∧ 0 < size.toNat ∧ ∃ bytes : List Byte, bytes.length ≤ size.toNat ∧
      s' = { s with store := { s.store with mem := s.store.mem.store ptr bytes } }) := by
  unfold fread at h
  split at h
  · exact Or.inl (Fallible.run_pure.1 h).2
  rename_i hargs
  have hsize : 0 < size.toNat := by
    refine Nat.pos_of_ne_zero fun h0 => hargs (Or.inl ?_)
    exact BitVec.eq_of_toNat_eq h0
  obtain ⟨descriptor, t₁, h₁, hrest⟩ := Fallible.run_bind.1 h
  rw [(Fallible.run_pure.1 h₁).2] at hrest
  split at hrest
  · exact Or.inl (Fallible.run_pure.1 hrest).2
  obtain ⟨privateData, t₂, h₂, hread⟩ := Fallible.run_bind.1 hrest
  obtain ⟨d, t₀, h₀, h₂⟩ := Fallible.run_bind.1 h₂
  have e₂ : t₂ = s := by
    have e₀ := (run_readObject.1 h₀).2.2
    cases hname : d.filesystem with
    | none =>
      rw [hname] at h₂
      exact absurd h₂ Fallible.run_throw
    | some name =>
      rw [hname] at h₂
      exact (Fallible.run_pure.1 h₂).2.trans e₀
  rw [e₂] at hread
  obtain ⟨x, t₃, h₃, hstored⟩ := Fallible.run_bind.1 hread
  rw [fat16Read_frame h₃] at hstored
  have hlen := length_fat16Read_le h₃
  obtain ⟨t₄, hstore, hpure⟩ := Fallible.run_seq.1 hstored
  rw [(Fallible.run_pure.1 hpure).2]
  unfold storeBytes at hstore
  split at hstore
  · exact Or.inl (Fallible.run_pure.1 hstore).2
  split at hstore
  · exact absurd hstore Fallible.run_throw
  · rename_i hptr
    exact Or.inr ⟨hptr, hsize, x.2, hlen, Fallible.run_modify.1 hstore⟩

/-- A read that is no error is of some bytes. -/
theorem fread_size_pos {s s' : FsState} {ptr size : Word} {fd r : ℤ}
    (h : fread image ptr size 1 fd s = .ok (r, s')) (hr : 0 ≤ r) : 0 < size.toNat := by
  refine Nat.pos_of_ne_zero fun h0 => ?_
  have hzero : size = 0 := BitVec.eq_of_toNat_eq h0
  unfold fread at h
  rw [if_pos (Or.inl hzero)] at h
  obtain ⟨rfl, -⟩ := Fallible.run_pure.1 h
  exact absurd hr (by decide)

end OwnKernel
