import OwnKernel.Model.Commands
import OwnKernel.Store.Strncpy

/-!
# The path of a command

Commands 6 and 7 put `"0:/"` before the program's name in an array of
`OS_MAX_PATH` characters, and bound the name by the length of the whole
array. `commandPath_built_iff` says for which names nothing is written
behind it.
-/

namespace OwnKernel

variable {size dest n i : ℕ} {src array array' : CharArray} {c : Byte} {m : Mem}

/-! ## Copying into an array -/

theorem writeChar_ok : writeChar size array i c = .ok array' ↔
    i < size ∧ array' = Function.update array i c := by
  unfold writeChar
  by_cases h : i < size
  · rw [if_pos h]
    constructor
    · exact fun he => ⟨h, (Except.ok.inj he).symm⟩
    · rintro ⟨-, rfl⟩
      rfl
  · rw [if_neg h]
    constructor
    · intro he
      cases he
    · exact fun he => absurd he.1 h

/-- One round of the loop that copies a character. -/
theorem copyCharsLoop_succ (hc : src i ≠ 0) (hi : dest + i < size) (n : ℕ) (array : CharArray) :
    copyCharsLoop size dest src (n + 1) i array =
      copyCharsLoop size dest src n (i + 1) (Function.update array (dest + i) (src i)) := by
  rw [copyCharsLoop, if_neg hc, writeChar, if_pos hi]
  rfl

/-- **When a copy stays in the array**: it ends at a NUL, or after `n`
characters, where there is room for the terminator. -/
theorem copyCharsLoop_ok_iff (n : ℕ) : ∀ (i : ℕ) (array : CharArray),
    (∃ array', copyCharsLoop size dest src n i array = .ok array') ↔
      (∃ j, i ≤ j ∧ j < i + n ∧ src j = 0 ∧ dest + j < size) ∨ dest + (i + n) < size := by
  induction n with
  | zero =>
    intro i array
    rw [copyCharsLoop]
    simp only [writeChar_ok]
    constructor
    · rintro ⟨_, hi, -⟩
      exact Or.inr hi
    · rintro (⟨j, h1, h2, -⟩ | hi)
      · exact absurd h1 (Nat.not_le.2 h2)
      · exact ⟨_, hi, rfl⟩
  | succ n ih =>
    intro i array
    by_cases hc : src i = 0
    · rw [copyCharsLoop, if_pos hc]
      simp only [writeChar_ok]
      constructor
      · rintro ⟨_, hi, -⟩
        exact Or.inl ⟨i, le_rfl, by omega, hc, hi⟩
      · rintro (⟨j, h1, -, -, hj⟩ | hi)
        · exact ⟨_, by omega, rfl⟩
        · exact ⟨_, by omega, rfl⟩
    · by_cases hi : dest + i < size
      · rw [copyCharsLoop_succ hc hi, ih]
        constructor
        · rintro (⟨j, h1, h2, h3, h4⟩ | hend)
          · exact Or.inl ⟨j, by omega, by omega, h3, h4⟩
          · exact Or.inr (by omega)
        · rintro (⟨j, h1, h2, h3, h4⟩ | hend)
          · -- the NUL is not here
            have hne : j ≠ i := fun he => hc (he ▸ h3)
            exact Or.inl ⟨j, by omega, by omega, h3, h4⟩
          · exact Or.inr (by omega)
      · have herror : copyCharsLoop size dest src (n + 1) i array = .error .outOfBounds := by
          rw [copyCharsLoop, if_neg hc, writeChar, if_neg hi]
          rfl
        rw [herror]
        constructor
        · rintro ⟨_, h⟩
          cases h
        · rintro (⟨j, h1, -, -, hj⟩ | hend)
          · exact absurd hj (by omega)
          · exact absurd hend (by omega)

/-- **What a copy comes to**, for a name that ends after `d` characters. -/
theorem copyCharsLoop_eq (size dest : ℕ) (src : CharArray) : ∀ (d n i : ℕ) (array : CharArray),
    (∀ j < d, src (i + j) ≠ 0) → src (i + d) = 0 → d ≤ n → dest + (i + d) < size →
      ∃ array', copyCharsLoop size dest src n i array = .ok array' ∧
        ∀ x, array' x = if dest + i ≤ x ∧ x ≤ dest + (i + d) then src (x - dest) else array x := by
  intro d
  induction d with
  | zero =>
    intro n i array _ h0 _ hsize
    rw [Nat.add_zero] at h0
    have hend : writeChar size array (dest + i) 0 =
        .ok (Function.update array (dest + i) 0) := if_pos hsize
    refine ⟨Function.update array (dest + i) 0, ?_, fun x => ?_⟩
    · cases n with
      | zero => exact hend
      | succ n => rw [copyCharsLoop, if_pos h0, hend]
    · by_cases hx : x = dest + i
      · rw [hx, Function.update_self, if_pos ⟨le_rfl, le_rfl⟩, Nat.add_sub_cancel_left]
        exact h0.symm
      · rw [Function.update_of_ne hx, if_neg (by omega)]
  | succ d ih =>
    intro n i array hne h0 hn hsize
    obtain ⟨n, rfl⟩ : ∃ m, n = m + 1 := ⟨n - 1, by omega⟩
    have hc : src i ≠ 0 := hne 0 (Nat.succ_pos d)
    obtain ⟨array', hrun, hx⟩ := ih n (i + 1) (Function.update array (dest + i) (src i))
      (fun j hj => by rw [Nat.add_right_comm]; exact hne (j + 1) (by omega))
      (by rw [show i + 1 + d = i + (d + 1) by omega]; exact h0) (by omega) (by omega)
    refine ⟨array', by rw [copyCharsLoop_succ hc (by omega), hrun], fun x => ?_⟩
    rw [hx x]
    by_cases hxi : x = dest + i
    · rw [hxi, if_neg (by omega), Function.update_self, if_pos (by omega), Nat.add_sub_cancel_left]
    · rw [Function.update_of_ne hxi]
      by_cases hin : dest + (i + 1) ≤ x ∧ x ≤ dest + (i + 1 + d)
      · rw [if_pos hin, if_pos (by omega)]
      · rw [if_neg hin, if_neg (by omega)]

/-- The array that is left has a terminator. -/
theorem copyCharsLoop_terminates (n : ℕ) : ∀ (i : ℕ) (array : CharArray),
    copyCharsLoop size dest src n i array = .ok array' → ∃ j < size, array' j = 0 := by
  have hend : ∀ {i : ℕ} {array : CharArray},
      writeChar size array (dest + i) 0 = .ok array' → ∃ j < size, array' j = 0 := by
    intro i array h
    obtain ⟨hi, rfl⟩ := writeChar_ok.1 h
    exact ⟨dest + i, hi, Function.update_self ..⟩
  induction n with
  | zero => exact fun i array h => hend h
  | succ n ih =>
    intro i array h
    by_cases hc : src i = 0
    · rw [copyCharsLoop, if_pos hc] at h
      exact hend h
    · by_cases hi : dest + i < size
      · rw [copyCharsLoop_succ hc hi] at h
        exact ih _ _ h
      · rw [copyCharsLoop, if_neg hc, writeChar, if_neg hi] at h
        cases h

/-! ## The path -/

/-- **The path is built in its array**: nothing is written outside, and a
terminator is left in it. -/
def PathBuilt (r : Except Fault CharArray) : Prop :=
  ∃ path, r = .ok path ∧ ∃ i < osMaxPath, path i = 0

/-- The root goes into the array. -/
theorem strcpyArray_driveRoot (path : CharArray) :
    ∃ path', strcpyArray osMaxPath path 0 driveRoot = .ok path' :=
  (copyCharsLoop_ok_iff osMaxPath 0 path).2 (Or.inl ⟨3, by decide, by decide, rfl, by decide⟩)

/-- What follows the root decides. -/
theorem pathBuilt_iff {f : CharArray → Except Fault CharArray} (path : CharArray)
    (hf : ∀ path, ∃ n, f path = copyCharsLoop osMaxPath 3 src n 0 path ∧ osMaxPath ≤ 3 + n) :
    PathBuilt (do
        let path ← strcpyArray osMaxPath path 0 driveRoot
        f path) ↔ ∃ i ≤ 104, src i = 0 := by
  obtain ⟨path', hroot⟩ := strcpyArray_driveRoot path
  obtain ⟨n, hcopy, hn⟩ := hf path'
  have hrun : (do
      let path ← strcpyArray osMaxPath path 0 driveRoot
      f path) = copyCharsLoop osMaxPath 3 src n 0 path' := by
    rw [hroot]
    exact hcopy
  have h108 : osMaxPath = 108 := rfl
  rw [hrun]
  constructor
  · rintro ⟨path'', h, -⟩
    rcases (copyCharsLoop_ok_iff n 0 path').1 ⟨_, h⟩ with ⟨j, -, -, h0, hj⟩ | hend
    · exact ⟨j, by omega, h0⟩
    · exact absurd hend (by omega)
  · rintro ⟨i, hi, h0⟩
    have hlt : i < 0 + n := by omega
    have hsize : 3 + i < osMaxPath := by omega
    obtain ⟨path'', h⟩ := (copyCharsLoop_ok_iff n 0 path').2
      (Or.inl ⟨i, Nat.zero_le i, hlt, h0, hsize⟩)
    exact ⟨path'', h, copyCharsLoop_terminates _ _ _ h⟩

/-- A name and its copy end within the same bounds. -/
theorem HoldsString.exists_nul_iff {a : Word} {g : ℕ → Byte} {N b : ℕ} (h : HoldsString m a g N)
    (hb : b < N) : (∃ i ≤ b, m (a + BitVec.ofNat 32 i) = 0) ↔ ∃ i ≤ b, g i = 0 := by
  obtain ⟨len, hle, hcopied, hreached, hnul, hshort⟩ := h
  constructor
  · rintro ⟨i, hi, h0⟩
    have hlen : len ≤ i := by
      by_contra hlt
      rw [hcopied i (by omega)] at h0
      exact hreached i (by omega) h0
    exact ⟨len, by omega, hshort (by omega)⟩
  · rintro ⟨i, hi, h0⟩
    have hlen : len ≤ i := by
      by_contra hlt
      exact hreached i (by omega) h0
    exact ⟨len, by omega, hnul⟩

/-- **For which names the paths are built in their arrays**: those of at
most 104 characters. `g` is the name in the caller's memory; command 6
has it from `filename`, which holds the copy `copy_string_from_task`
makes, and command 7 reads it where it is. -/
theorem commandPath_built_iff (path : CharArray) (g : CharArray) (m : Mem) (filename : Word)
    (hcopy : HoldsString m filename g (osMaxPath - 1)) :
    (PathBuilt (loadStartPath path fun i => m (filename + BitVec.ofNat 32 i)) ↔
        ∃ i ≤ 104, g i = 0) ∧
      (PathBuilt (invokeSystemCommandPath path g) ↔ ∃ i ≤ 104, g i = 0) := by
  constructor
  · rw [← hcopy.exists_nul_iff (by decide)]
    exact pathBuilt_iff path fun path => ⟨osMaxPath, rfl, by decide⟩
  · exact pathBuilt_iff path fun path => ⟨osMaxPath - 1, rfl, by decide⟩

/-! ## Two names -/

/-- A name of `n` times the letter a. -/
def repeatedName (n : ℕ) : CharArray := fun i => if i < n then 0x61 else 0

/-- A memory that has a name. -/
theorem holdsString_name {g : CharArray} {n : ℕ} (hn : n < osMaxPath) (hreached : Reached g n)
    (hnul : g n = 0) : HoldsString (fun x => g x.toNat) 0 g (osMaxPath - 1) := by
  have h108 : osMaxPath = 108 := rfl
  have hat : ∀ j ≤ n, g (0 + BitVec.ofNat 32 j : Word).toNat = g j := by
    intro j hj
    congr 1
    bv_omega
  exact ⟨n, by omega, fun j hj => hat j (by omega), hreached, (hat n le_rfl).trans hnul,
    fun _ => hnul⟩

/-- The longest name that fits. -/
theorem commandPath_built_longest :
    (PathBuilt (loadStartPath (fun _ => 0) fun i =>
          repeatedName 104 (0 + BitVec.ofNat 32 i : Word).toNat) ↔
        ∃ i ≤ 104, repeatedName 104 i = 0) ∧
      (PathBuilt (invokeSystemCommandPath (fun _ => 0) (repeatedName 104)) ↔
        ∃ i ≤ 104, repeatedName 104 i = 0) :=
  commandPath_built_iff (fun _ => 0) (repeatedName 104) (fun x => repeatedName 104 x.toNat) 0
    (holdsString_name (show 104 < osMaxPath by decide) (fun j hj h0 => by
      rw [repeatedName, if_pos hj] at h0
      exact absurd h0 (by decide)) rfl)

/-- **A name of 105 characters** has its terminator written behind the
array. -/
theorem commandPath_not_built :
    ¬ ∀ (path g : CharArray) (m : Mem) (filename : Word),
      HoldsString m filename g (osMaxPath - 1) →
        PathBuilt (loadStartPath path fun i => m (filename + BitVec.ofNat 32 i)) ∧
          PathBuilt (invokeSystemCommandPath path g) := by
  intro h
  have hreached : Reached (repeatedName 105) 105 := by
    intro j hj h0
    rw [repeatedName, if_pos hj] at h0
    exact absurd h0 (by decide)
  have hbuilt := (h (fun _ => 0) (repeatedName 105) _ 0
    (holdsString_name (show 105 < osMaxPath by decide) hreached rfl)).2
  obtain ⟨i, hi, h0⟩ := (pathBuilt_iff (fun _ => 0) fun path =>
    ⟨osMaxPath - 1, rfl, by decide⟩).1 hbuilt
  exact hreached i (by omega) h0

end OwnKernel
