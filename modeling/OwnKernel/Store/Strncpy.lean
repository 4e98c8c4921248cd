import OwnKernel.Model.CopyString
import OwnKernel.Store.Owned

/-!
# `strncpy` between address spaces

A copy into bytes that are mapped to themselves writes those bytes and no
others (`strncpyLoop_frame`), and leaves there the string it reads, cut
and terminated (`strncpyLoop_holds`). What it reads is given as a function
of the index, so a source whose pages are far apart is one too; reads
after the terminator are not made and nothing is asked of them.
-/

namespace OwnKernel

variable {space : AddressSpace} {dest src ptr a b : Word} {s s' : Store} {m m' m'' : Mem}
  {g g' : ℕ → Byte} {c : Byte} {N n i : ℕ} {u : PUnit}

/-- A byte of the string `g` that is read: no byte before it ends the
string. -/
def Reached (g : ℕ → Byte) (i : ℕ) : Prop := ∀ j < i, g j ≠ 0

/-- **The C string at `a`** is the bytes of `g` up to the first NUL or to
`N` of them, and a NUL. -/
def HoldsString (m : Mem) (a : Word) (g : ℕ → Byte) (N : ℕ) : Prop :=
  ∃ len ≤ N, (∀ j < len, m (a + BitVec.ofNat 32 j) = g j) ∧ Reached g len ∧
    m (a + BitVec.ofNat 32 len) = 0 ∧ (len < N → g len = 0)

/-- Its first byte is the string's. -/
theorem HoldsString.first {m : Mem} {a : Word} {g : ℕ → Byte} {N : ℕ} (h : HoldsString m a g N)
    (hN : 0 < N) : m a = g 0 := by
  obtain ⟨len, -, hbytes, -, hend, hstop⟩ := h
  rcases Nat.eq_zero_or_pos len with rfl | hpos
  · have h0 := hend
    rw [BitVec.add_zero] at h0
    rw [h0, hstop hN]
  · have h0 := hbytes 0 hpos
    rwa [BitVec.add_zero] at h0

/-- Two memories are the same outside the `n` bytes at `a`. -/
def SameOutside (a : Word) (n : ℕ) (m m' : Mem) : Prop := ∀ x, ¬ InRange a n x → m' x = m x

/-- **The `N + 1` bytes at `dest` are mapped to themselves**, and stay so
while they are written. -/
def WritesItself (space : AddressSpace) (m : Mem) (dest : Word) (N : ℕ) : Prop :=
  ∀ m', SameOutside dest (N + 1) m m' → ∀ i ≤ N, ∀ x,
    space m' (dest + BitVec.ofNat 32 i) = some x → x = dest + BitVec.ofNat 32 i

/-- **The bytes read from `src` are those of `g`**, whatever has been
written to `dest` by then. -/
def ReadsString (space : AddressSpace) (m : Mem) (dest src : Word) (g : ℕ → Byte) (N : ℕ) : Prop :=
  ∀ m', SameOutside dest (N + 1) m m' → ∀ i < N, Reached g i → ∀ x,
    space m' (src + BitVec.ofNat 32 i) = some x → m' x = g i

theorem SameOutside.refl (a : Word) (n : ℕ) (m : Mem) : SameOutside a n m m := fun _ _ => rfl

theorem SameOutside.update (h : SameOutside a n m m') (hb : InRange a n b) :
    SameOutside a n m (Function.update m' b c) := by
  intro x hx
  have hne : x ≠ b := fun heq => hx (heq ▸ hb)
  rw [Function.update_of_ne hne]
  exact h x hx

/-- Clearing a block's bytes changes no others. -/
theorem kernelZalloc_sameOutside {size p : Word} (hz : kernelZalloc size s = .ok (p, s'))
    (hsize : size.toNat ≤ 4096) : SameOutside p 4096 s.mem s'.mem := by
  intro x hx
  obtain ⟨-, -, -, ⟨-, heq⟩ | ⟨-, -, heq⟩⟩ := kernelZalloc_run hz
  · rw [heq]
  · rw [heq]
    exact Mem.fill_of_not_mem fun hin => hx (by unfold InRange at hin ⊢; omega)

/-- Different bytes of a range. -/
theorem add_ne_add {j : ℕ} (hi : i < 2 ^ 32) (hj : j < 2 ^ 32) (hne : i ≠ j) :
    a + BitVec.ofNat 32 i ≠ a + BitVec.ofNat 32 j := by
  intro heq
  bv_omega

/-! ## Bytes -/

theorem run_loadByte :
    loadByte space ptr s = .ok (c, s') ↔ ∃ x, space s.mem ptr = some x ∧ c = s.mem x ∧ s' = s := by
  unfold loadByte
  rw [Fallible.run_get_bind]
  cases space s.mem ptr with
  | none => exact ⟨fun h => absurd h Fallible.run_throw, fun ⟨_, h, _⟩ => nomatch h⟩
  | some x =>
    refine Fallible.run_pure.trans ⟨fun ⟨h1, h2⟩ => ⟨x, rfl, h1, h2⟩, ?_⟩
    rintro ⟨y, hy, h1, h2⟩
    cases hy
    exact ⟨h1, h2⟩

theorem run_storeByte :
    storeByte space ptr c s = .ok (u, s') ↔
      ∃ x, space s.mem ptr = some x ∧ s' = { s with mem := Function.update s.mem x c } := by
  unfold storeByte
  rw [Fallible.run_get_bind]
  cases space s.mem ptr with
  | none => exact ⟨fun h => absurd h Fallible.run_throw, fun ⟨_, h, _⟩ => nomatch h⟩
  | some x =>
    refine Fallible.run_set.trans ⟨fun h => ⟨x, rfl, h⟩, ?_⟩
    rintro ⟨y, hy, h⟩
    cases hy
    exact h

/-! ## The loop -/

/-- A byte written to `dest` is where it is meant to be. -/
theorem WritesItself.write (hw : WritesItself space m dest N) (hN : N < 2 ^ 32) (hi : i ≤ N)
    (hm : SameOutside dest (N + 1) m s.mem)
    (h : storeByte space (dest + BitVec.ofNat 32 i) c s = .ok (u, s')) :
    s' = { s with mem := Function.update s.mem (dest + BitVec.ofNat 32 i) c } ∧
      SameOutside dest (N + 1) m s'.mem := by
  obtain ⟨x, hx, rfl⟩ := run_storeByte.1 h
  obtain rfl := hw _ hm i hi x hx
  exact ⟨rfl, hm.update ((inRange_add (by omega)).2 (by omega))⟩

/-- **`strncpy` writes its destination only.** -/
theorem strncpyLoop_frame (hw : WritesItself space m dest N) (hN : N < 2 ^ 32) :
    ∀ {n i : ℕ} {s : Store}, i + n ≤ N → SameOutside dest (N + 1) m s.mem →
      strncpyLoop space dest src n i s = .ok (u, s') →
        s'.heap = s.heap ∧ SameOutside dest (N + 1) m s'.mem := by
  intro n
  induction n with
  | zero =>
    intro i s hi hm h
    obtain ⟨rfl, hm'⟩ := hw.write hN hi hm h
    exact ⟨rfl, hm'⟩
  | succ n ih =>
    intro i s hi hm hrun
    obtain ⟨c, s₁, hread, h⟩ := Fallible.run_bind.1 hrun
    obtain ⟨x, -, -, rfl⟩ := run_loadByte.1 hread
    by_cases hc : c = 0
    · rw [if_pos hc] at h
      obtain ⟨rfl, hm'⟩ := hw.write hN (by omega) hm h
      exact ⟨rfl, hm'⟩
    · rw [if_neg hc] at h
      obtain ⟨s₂, hwrite, hrest⟩ := Fallible.run_seq.1 h
      obtain ⟨rfl, hm'⟩ := hw.write hN (by omega) hm hwrite
      have hrest' := ih (by omega) hm' hrest
      exact hrest'

/-- **`strncpy` leaves the string it reads.** At index `i` the bytes
before it are copied, and none of them ends the string. -/
theorem strncpyLoop_holds (hw : WritesItself space m dest N) (hr : ReadsString space m dest src g N)
    (hN : N < 2 ^ 32) :
    ∀ {n i : ℕ} {s : Store}, i + n = N → SameOutside dest (N + 1) m s.mem →
      (∀ j < i, s.mem (dest + BitVec.ofNat 32 j) = g j) → Reached g i →
        strncpyLoop space dest src n i s = .ok (u, s') → HoldsString s'.mem dest g N := by
  -- the terminator goes after what is copied
  have hend : ∀ {i : ℕ} {s : Store}, i ≤ N → SameOutside dest (N + 1) m s.mem →
      (∀ j < i, s.mem (dest + BitVec.ofNat 32 j) = g j) → Reached g i → (i < N → g i = 0) →
        storeByte space (dest + BitVec.ofNat 32 i) 0 s = .ok (u, s') →
          HoldsString s'.mem dest g N := by
    intro i s hi hm hcopied hreached hnul h
    obtain ⟨rfl, -⟩ := hw.write hN hi hm h
    refine ⟨i, hi, fun j hj => ?_, hreached, Function.update_self _ _ _, hnul⟩
    rw [← hcopied j hj]
    exact Function.update_of_ne (add_ne_add (by omega) (by omega) (by omega)) _ _
  intro n
  induction n with
  | zero =>
    intro i s hi hm hcopied hreached h
    exact hend (by omega) hm hcopied hreached (fun hlt => absurd hi (by omega)) h
  | succ n ih =>
    intro i s hi hm hcopied hreached hrun
    obtain ⟨c, s₁, hread, h⟩ := Fallible.run_bind.1 hrun
    obtain ⟨x, hx, hval, rfl⟩ := run_loadByte.1 hread
    have hc : c = g i := hval.trans (hr _ hm i (by omega) hreached x hx)
    by_cases h0 : c = 0
    · rw [if_pos h0] at h
      exact hend (by omega) hm hcopied hreached (fun _ => hc ▸ h0) h
    · rw [if_neg h0] at h
      obtain ⟨s₂, hwrite, hrest⟩ := Fallible.run_seq.1 h
      obtain ⟨rfl, hm'⟩ := hw.write hN (by omega) hm hwrite
      refine ih (by omega) hm' (fun j hj => ?_) (fun j hj => ?_) hrest
      · change Function.update s₁.mem _ c _ = g j
        by_cases hji : j = i
        · rw [hji, Function.update_self, hc]
        · rw [Function.update_of_ne (add_ne_add (by omega) (by omega) hji)]
          exact hcopied j (by omega)
      · by_cases hji : j = i
        · rw [hji, ← hc]
          exact h0
        · exact hreached j (by omega)

/-- **`strncpy` finishes** where every address is mapped. -/
theorem strncpyLoop_total (src : Word) (hw : WritesItself space m dest N)
    (hall : ∀ m', SameOutside dest (N + 1) m m' → ∀ x, ∃ y, space m' x = some y)
    (hN : N < 2 ^ 32) : ∀ {n i : ℕ} {s : Store}, i + n ≤ N → SameOutside dest (N + 1) m s.mem →
      ∃ s', strncpyLoop space dest src n i s = .ok (⟨⟩, s') := by
  have hwrite : ∀ (i : ℕ) (c : Byte) {s : Store}, i ≤ N → SameOutside dest (N + 1) m s.mem →
      ∃ s', storeByte space (dest + BitVec.ofNat 32 i) c s = .ok (⟨⟩, s') ∧
        SameOutside dest (N + 1) m s'.mem := by
    intro i c s hi hm
    obtain ⟨y, hy⟩ := hall _ hm (dest + BitVec.ofNat 32 i)
    have hrun : storeByte space (dest + BitVec.ofNat 32 i) c s = .ok (⟨⟩, _) :=
      run_storeByte.2 ⟨y, hy, rfl⟩
    exact ⟨_, hrun, (hw.write hN hi hm hrun).2⟩
  intro n
  induction n with
  | zero =>
    intro i s hi hm
    obtain ⟨s', hrun, -⟩ := hwrite i 0 hi hm
    exact ⟨s', hrun⟩
  | succ n ih =>
    intro i s hi hm
    obtain ⟨y, hy⟩ := hall _ hm (src + BitVec.ofNat 32 i)
    have hread : loadByte space (src + BitVec.ofNat 32 i) s = .ok (s.mem y, s) :=
      run_loadByte.2 ⟨y, hy, rfl, rfl⟩
    by_cases h0 : s.mem y = 0
    · obtain ⟨s', hrun, -⟩ := hwrite i 0 (by omega) hm
      exact ⟨s', Fallible.run_bind.2 ⟨_, s, hread, by rw [if_pos h0]; exact hrun⟩⟩
    · obtain ⟨s₁, hrun, hm'⟩ := hwrite i (s.mem y) (by omega) hm
      obtain ⟨s', hrest⟩ := ih (i := i + 1) (by omega) hm'
      exact ⟨s', Fallible.run_bind.2 ⟨_, s, hread, by
        rw [if_neg h0]
        exact Fallible.run_seq.2 ⟨s₁, hrun, hrest⟩⟩⟩

/-- The kernel's directory maps every byte to itself. -/
theorem writesItself_kernelSpace (m : Mem) (dest : Word) (N : ℕ) :
    WritesItself kernelSpace m dest N :=
  fun _ _ _ _ _ hx => (Option.some.inj hx).symm

/-! ## A copy of a copy -/

/-- A string is in its bytes. -/
theorem HoldsString.congr (h : HoldsString m a g N)
    (hm : ∀ i ≤ N, m' (a + BitVec.ofNat 32 i) = m (a + BitVec.ofNat 32 i)) :
    HoldsString m' a g N := by
  obtain ⟨len, hle, hcopied, hreached, hnul, hshort⟩ := h
  exact ⟨len, hle, fun j hj => (hm j (by omega)).trans (hcopied j hj), hreached,
    (hm len hle).trans hnul, hshort⟩

/-- Only the first `N` bytes of the string matter. -/
theorem HoldsString.congr_string (h : HoldsString m a g N) (hg : ∀ j < N, g' j = g j) :
    HoldsString m a g' N := by
  obtain ⟨len, hle, hcopied, hreached, hnul, hshort⟩ := h
  exact ⟨len, hle, fun j hj => (hcopied j hj).trans (hg j (by omega)).symm,
    fun j hj => hg j (by omega) ▸ hreached j hj, hnul, fun hlt => (hg len hlt).trans (hshort hlt)⟩

/-- **A string copied twice** is the string. -/
theorem HoldsString.trans (h : HoldsString m a g N)
    (h' : HoldsString m' b (fun j => m (a + BitVec.ofNat 32 j)) N) : HoldsString m' b g N := by
  obtain ⟨len, hle, hcopied, hreached, hnul, hshort⟩ := h
  obtain ⟨len', hle', hcopied', hreached', hnul', hshort'⟩ := h'
  -- both stop at the first NUL of the copy
  have hlen : len' = len := by
    rcases Nat.lt_trichotomy len' len with hlt | heq | hgt
    · have hz : m (a + BitVec.ofNat 32 len') = 0 := hshort' (by omega)
      rw [hcopied len' hlt] at hz
      exact absurd hz (hreached len' hlt)
    · exact heq
    · exact absurd hnul (hreached' len hgt)
  rw [hlen] at hcopied' hnul'
  exact ⟨len, hle, fun j hj => (hcopied' j hj).trans (hcopied j hj), hreached, hnul', hshort⟩

end OwnKernel
