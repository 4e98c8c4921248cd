import OwnKernel.Disk.Stream
import OwnKernel.File.Objects
import OwnKernel.Model.File
import OwnKernel.Model.PathParser

/-!
# The file layer and the kernel's other blocks

`FsOwned` says that each object of the file layer has a block of its own,
and `FsStep` what any function of the layer does to the kernel's other
blocks: they stay as they are. Each function has one lemma, which is
read off its steps. `fat16_new_fat_item_for_directory_item` sets the type
of every item to FILE, so no directory is ever freed through an item.
-/

namespace OwnKernel

/-! ## Blocks of the layer -/

/-- **Each object of the file layer has its block**, and an item holds a
record of its own. -/
structure FsOwned (s : FsState) : Prop where
  ready : s.store.heap.Ready
  owns : ∀ q, s.objects q ≠ none → s.store.heap.Owns q 1
  items : ∀ q x, s.objects q = some (.fatItem x) → x.type = fatItemTypeFile ∧
    (x.ptr ≠ 0 → ∃ record, s.objects x.ptr = some (.fatDirectoryItem record))
  single : ∀ q q' x x', s.objects q = some (.fatItem x) → s.objects q' = some (.fatItem x') →
    x.ptr ≠ 0 → x.ptr = x'.ptr → q = q'

/-- **The blocks that are not the layer's stay as they are.** -/
structure FsKeeps (s s' : FsState) : Prop where
  place : s.store.heap.SamePlace s'.store.heap
  disk : s'.disk = s.disk
  owns : ∀ q k, s.store.heap.Owns q k → s.objects q = none → s'.store.heap.Owns q k
  objects : ∀ q k, s.store.heap.Owns q k → s.objects q = none → s'.objects q = none
  mem : ∀ q k, s.store.heap.Owns q k → s.objects q = none →
    ∀ x, InRange q (4096 * k) x → s'.store.mem x = s.store.mem x

/-- A pointer to a block the layer may write: its own, or a new one. -/
def FsState.Ours (s : FsState) (p : Word) : Prop := s.objects p ≠ none ∨ s.store.heap.Fresh p

namespace FsKeeps

variable {s t u : FsState} {p : Word} {k : ℕ} {o : Option FsObject}

theorem refl (s : FsState) : FsKeeps s s :=
  ⟨.refl _, rfl, fun _ _ h _ => h, fun _ _ _ h => h, fun _ _ _ _ _ _ => rfl⟩

theorem trans (a : FsKeeps s t) (b : FsKeeps t u) : FsKeeps s u where
  place := a.place.trans b.place
  disk := b.disk.trans a.disk
  owns q k h h0 := b.owns q k (a.owns q k h h0) (a.objects q k h h0)
  objects q k h h0 := b.objects q k (a.owns q k h h0) (a.objects q k h h0)
  mem q k h h0 x hx :=
    (b.mem q k (a.owns q k h h0) (a.objects q k h h0) x hx).trans (a.mem q k h h0 x hx)

/-- A block that is kept is not one the layer may write. -/
theorem ne_of_ours (h : s.Ours p) {q : Word} (hq : s.store.heap.Owns q k)
    (h0 : s.objects q = none) : q ≠ p := by
  rintro rfl
  exact h.elim (fun hne => hne h0) fun hfresh => hfresh k hq

/-- Writing an object. -/
theorem setObject (a : FsKeeps s t) (h : s.Ours p) : FsKeeps s (t.setObject p o) where
  place := a.place
  disk := a.disk
  owns := a.owns
  objects q k hq h0 := by
    rw [setObject_objects_of_ne (ne_of_ours h hq h0)]
    exact a.objects q k hq h0
  mem := a.mem

/-- What was fresh is the layer's to write. -/
theorem ours_of_fresh (a : FsKeeps s t) (h : t.store.heap.Fresh p) : s.Ours p := by
  by_cases h0 : s.objects p = none
  · exact Or.inr fun j hj => h j (a.owns p j hj h0)
  · exact Or.inl h0

/-- Writing a block that is the layer's. -/
theorem store (a : FsKeeps s t) (r : s.store.heap.Ready) (h : s.Ours p) {j : ℕ}
    (hown : t.store.heap.Owns p j) {bytes : List Byte} (hlen : bytes.length ≤ 4096 * j) :
    FsKeeps s { t with store := { t.store with mem := t.store.mem.store p bytes } } where
  place := a.place
  disk := a.disk
  owns := a.owns
  objects := a.objects
  mem q i hq h0 x hx := by
    have hout := (a.owns q i hq h0).disjoint hown (a.place.ready r) (ne_of_ours h hq h0) hx
    refine (Mem.store_of_not_mem fun hin => hout ?_).trans (a.mem q i hq h0 x hx)
    unfold InRange at hin ⊢
    omega

/-- Changing the table of descriptors. -/
theorem setTable (a : FsKeeps s t) (table : ℕ → Word) :
    FsKeeps s { t with fileDescriptors := table } :=
  ⟨a.place, a.disk, a.owns, a.objects, a.mem⟩

/-- Taking a block. -/
theorem extends_ (a : FsKeeps s t) {st : Store} (e : t.store.Extends st) :
    FsKeeps s { t with store := st } where
  place := a.place.trans e.place
  disk := a.disk
  owns q k hq h0 := e.owns q k (a.owns q k hq h0)
  objects := a.objects
  mem q k hq h0 x hx := (e.mem q k (a.owns q k hq h0) x hx).trans (a.mem q k hq h0 x hx)

/-- Freeing a block. -/
theorem free (a : FsKeeps s t) (r : s.store.heap.Ready) (h : s.Ours p)
    (hown : t.store.heap.Owns p k) : FsKeeps s { t with store := { t.store with
      heap := t.store.heap.write (heapFree t.store.heap p) } } where
  place := ⟨a.place.total, a.place.start⟩
  disk := a.disk
  owns q j hq h0 :=
    Heap.owns_heapFree (a.place.ready r) hown (a.owns q j hq h0) (ne_of_ours h hq h0)
  objects := a.objects
  mem := a.mem

end FsKeeps

namespace FsOwned

variable {s t : FsState} {p : Word} {k : ℕ}

/-- What is not owned is no object. -/
theorem objects_of_fresh (o : FsOwned s) (h : s.store.heap.Fresh p) : s.objects p = none :=
  not_not.1 fun hne => h 1 (o.owns p hne)

/-- Taking a block. -/
theorem extends_ (o : FsOwned s) {st : Store} (e : s.store.Extends st) :
    FsOwned { s with store := st } :=
  ⟨e.ready o.ready, fun q hq => e.owns q 1 (o.owns q hq), o.items, o.single⟩

/-- Changing the table of descriptors. -/
theorem setTable (o : FsOwned s) (table : ℕ → Word) :
    FsOwned { s with fileDescriptors := table } :=
  ⟨o.ready, o.owns, o.items, o.single⟩

/-- Freeing a block that is no object's. -/
theorem free (o : FsOwned s) (hown : s.store.heap.Owns p k) (h0 : s.objects p = none) :
    FsOwned { s with store := { s.store with
      heap := s.store.heap.write (heapFree s.store.heap p) } } where
  ready := (s.store.heap.samePlace_write _).ready o.ready
  owns q hq := Heap.owns_heapFree o.ready hown (o.owns q hq) fun he => hq (he ▸ h0)
  items := o.items
  single := o.single

/-- Freeing an object that is not a record. -/
theorem freeObject (o : FsOwned s) {x : FsObject} (hp : s.objects p = some x)
    (hrec : x.asFatDirectoryItem = none) : FsOwned (({ s with store := { s.store with
      heap := s.store.heap.write (heapFree s.store.heap p) } } : FsState).setObject p none) where
  ready := (s.store.heap.samePlace_write _).ready o.ready
  owns q hq := by
    have hne : q ≠ p := by
      rintro rfl
      exact hq setObject_objects_self
    rw [setObject_objects_of_ne hne] at hq
    exact Heap.owns_heapFree o.ready (o.owns p (by rw [hp]; nofun)) (o.owns q hq) hne
  items q y hy := by
    have hne : q ≠ p := by
      rintro rfl
      rw [setObject_objects_self] at hy
      cases hy
    rw [setObject_objects_of_ne hne] at hy
    obtain ⟨htype, hrecord⟩ := o.items q y hy
    refine ⟨htype, fun h0 => ?_⟩
    obtain ⟨record, hr⟩ := hrecord h0
    refine ⟨record, ?_⟩
    rw [setObject_objects_of_ne]
    · exact hr
    · intro he
      rw [he, hp] at hr
      cases hr
      cases hrec
  single q q' y y' hy hy' := by
    have hother : ∀ {q : Word} {y : FatItem}, (s.setObject p none).objects q =
        some (.fatItem y) → s.objects q = some (.fatItem y) := by
      intro q y hy
      by_cases he : q = p
      · rw [he, setObject_objects_self] at hy
        cases hy
      · rwa [setObject_objects_of_ne he] at hy
    exact o.single q q' y y' (hother hy) (hother hy')

/-- Writing an object that is not an item, where no record was. -/
theorem setObject (o : FsOwned s) (hown : s.store.heap.Owns p 1)
    (hold : (s.objects p).bind FsObject.asFatDirectoryItem = none) {x : FsObject}
    (hnew : x.asFatItem = none) : FsOwned (s.setObject p (some x)) where
  ready := o.ready
  owns q hq := by
    by_cases he : q = p
    · exact he ▸ hown
    · rw [setObject_objects_of_ne he] at hq
      exact o.owns q hq
  items q y hy := by
    by_cases he : q = p
    · rw [he, setObject_objects_self] at hy
      cases hy
      cases hnew
    · rw [setObject_objects_of_ne he] at hy
      obtain ⟨htype, hrecord⟩ := o.items q y hy
      refine ⟨htype, fun h0 => ?_⟩
      obtain ⟨record, hr⟩ := hrecord h0
      refine ⟨record, ?_⟩
      rw [setObject_objects_of_ne, hr]
      intro hp
      rw [hp] at hr
      rw [hr] at hold
      cases hold
  single q q' y y' hy hy' := by
    have hother : ∀ {q : Word} {y : FatItem}, (s.setObject p (some x)).objects q =
        some (.fatItem y) → s.objects q = some (.fatItem y) := by
      intro q y hy
      by_cases he : q = p
      · rw [he, setObject_objects_self] at hy
        cases hy
        cases hnew
      · rwa [setObject_objects_of_ne he] at hy
    exact o.single q q' y y' (hother hy) (hother hy')

end FsOwned

/-! ## Steps of the layer -/

/-- **A step of the file layer below the descriptors**, which it keeps. -/
structure FsStep (s s' : FsState) : Prop where
  owned : FsOwned s'
  keeps : FsKeeps s s'
  table : s'.fileDescriptors = s.fileDescriptors
  descriptors : ∀ q d, s.objects q = some (.fileDescriptor d) →
    s'.objects q = some (.fileDescriptor d)

/-- Blocks taken since `s` that are no object yet. -/
structure FsPending (s t : FsState) (p : Word) (k : ℕ) : Prop where
  ours : s.Ours p
  owns : t.store.heap.Owns p k
  objects : t.objects p = none

namespace FsStep

variable {s t u : FsState} {p size : Word} {k : ℕ}

theorem refl (o : FsOwned s) : FsStep s s := ⟨o, .refl s, rfl, fun _ _ h => h⟩

theorem trans (a : FsStep s t) (b : FsStep t u) : FsStep s u where
  owned := b.owned
  keeps := a.keeps.trans b.keeps
  table := b.table.trans a.table
  descriptors q d h := b.descriptors q d (a.descriptors q d h)

/-- Writing an object that is not an item to a new block. -/
theorem write (a : FsStep s t) (h : FsPending s t p 1) {x : FsObject} (hnew : x.asFatItem = none) :
    FsStep s (t.setObject p (some x)) where
  owned := a.owned.setObject h.owns (by rw [h.objects]; rfl) hnew
  keeps := a.keeps.setObject h.ours
  table := a.table
  descriptors q d hq := by
    have hq' := a.descriptors q d hq
    rwa [setObject_objects_of_ne]
    rintro rfl
    rw [h.objects] at hq'
    cases hq'

/-- Writing an object again. -/
theorem rewrite (o : FsOwned s) {x y : FsObject} (hp : s.objects p = some x)
    (hold : x.asFatDirectoryItem = none) (hdesc : x.asFileDescriptor = none)
    (hnew : y.asFatItem = none) : FsStep s (s.setObject p (some y)) where
  owned := o.setObject (o.owns p (by rw [hp]; nofun)) (by rw [hp]; exact hold) hnew
  keeps := (FsKeeps.refl s).setObject (Or.inl (by rw [hp]; nofun))
  table := rfl
  descriptors q d hq := by
    rwa [setObject_objects_of_ne]
    rintro rfl
    rw [hp] at hq
    cases hq
    cases hdesc

/-- Taking a block. -/
theorem of_zalloc (o : FsOwned s) (h : inStore (kernelZalloc size) s = .ok (p, t)) :
    FsStep s t := by
  obtain ⟨st, hz, rfl⟩ := run_inStore.1 h
  have e := kernelZalloc_extends o.ready hz
  exact ⟨o.extends_ e, (FsKeeps.refl s).extends_ e, rfl, fun _ _ hq => hq⟩

/-- Freeing blocks that are no object. -/
theorem free (a : FsStep s t) (r : s.store.heap.Ready) (h : FsPending s t p k) :
    FsStep s { t with store := { t.store with
      heap := t.store.heap.write (heapFree t.store.heap p) } } where
  owned := a.owned.free h.owns h.objects
  keeps := a.keeps.free r h.ours h.owns
  table := a.table
  descriptors := a.descriptors

end FsStep

namespace FsPending

variable {s t u : FsState} {p size : Word} {k : ℕ}

/-- Blocks taken are not an object. -/
theorem of_zalloc (o : FsOwned s) (h : inStore (kernelZalloc size) s = .ok (p, t))
    (hp : p ≠ 0) (hpos : 0 < size.toNat) : FsPending s t p (blocksFor size.toNat) := by
  obtain ⟨st, hz, rfl⟩ := run_inStore.1 h
  obtain ⟨h0, -⟩ | ⟨-, hsize⟩ := kernelZalloc_of_pos o.ready hpos hz
  · exact absurd h0 hp
  · obtain ⟨-, hown, hfresh, -⟩ := kernelZalloc_spec o.ready hpos hsize hz hp
    exact ⟨Or.inr hfresh, hown, o.objects_of_fresh hfresh⟩

/-- What is pending stays so. -/
theorem step (h : FsPending s t p k) (a : FsStep t u) : FsPending s u p k :=
  ⟨h.ours, a.keeps.owns p k h.owns h.objects, a.keeps.objects p k h.owns h.objects⟩

/-- What is pending after a step was so before it. -/
theorem of_step (h : FsPending t u p k) (a : FsStep s t) : FsPending s u p k := by
  refine ⟨?_, h.owns, h.objects⟩
  by_cases h0 : s.objects p = none
  · refine Or.inr fun j hj => ?_
    exact FsKeeps.ne_of_ours h.ours (a.keeps.owns p j hj h0) (a.keeps.objects p j hj h0) rfl
  · exact Or.inl h0

end FsPending

/-! ## Paths -/

section
variable {s s' : FsState} {p : Word} {path : Cstring}

/-- `pathparser_create_root` takes a block for the root. -/
theorem pathparserCreateRoot_cases {driveNumber : ℤ} (o : FsOwned s)
    (h : pathparserCreateRoot driveNumber s = .ok (p, s')) :
    FsStep s s' ∧ p ≠ 0 ∧ s.store.heap.Fresh p ∧ s.store.Extends s'.store ∧
      s'.objects p = some (.pathRoot ⟨driveNumber, 0⟩) := by
  obtain ⟨root, t, hz, h⟩ := Fallible.run_bind.1 h
  obtain ⟨t₁, hw, h⟩ := Fallible.run_seq.1 h
  obtain ⟨h0, rfl⟩ := run_writeObject.1 hw
  obtain ⟨rfl, rfl⟩ := Fallible.run_pure.1 h
  obtain ⟨st, hz', rfl⟩ := run_inStore.1 hz
  obtain ⟨hext, -, hfresh, -⟩ := kernelZalloc_spec o.ready (by decide) (by decide) hz' h0
  exact ⟨(FsStep.of_zalloc o hz).write (.of_zalloc o hz h0 (by decide)) rfl, h0, hfresh, hext,
    setObject_objects_self⟩

/-- `pathparser_extract_path_part`. The string it returns is a new
block. -/
theorem pathparserExtractPathPart_step {r : Word × Cstring × Cstring} (o : FsOwned s)
    (h : pathparserExtractPathPart path s = .ok (r, s')) : FsStep s s' := by
  obtain ⟨part, t, hz, h⟩ := Fallible.run_bind.1 h
  have a := FsStep.of_zalloc o hz
  split at h
  · -- an empty part's string is freed
    obtain ⟨t₁, hfree, h⟩ := Fallible.run_seq.1 h
    obtain ⟨-, rfl⟩ := Fallible.run_pure.1 h
    obtain rfl := run_kernelFree.1 hfree
    by_cases h0 : part = 0
    · rw [h0, heapFree_null a.owned.ready]
      exact a
    · exact a.free o.ready (.of_zalloc o hz h0 (by decide))
  · split at h
    · exact absurd h Fallible.run_throw
    · split at h
      · exact absurd h Fallible.run_throw
      · obtain ⟨-, rfl⟩ := Fallible.run_pure.1 h
        exact a

/-- `pathparser_parse_path_part` makes the part's string, and then steps of
the layer. -/
theorem pathparserParsePathPart_cases {lastPart : Word} {r : Word × Cstring} (o : FsOwned s)
    (h : pathparserParsePathPart lastPart path s = .ok (r, s')) :
    ∃ x t, pathparserExtractPathPart path s = .ok (x, t) ∧
      ((x.1 = 0 ∧ r.1 = 0 ∧ s' = t) ∨ (x.1 ≠ 0 ∧ r.1 ≠ 0 ∧ FsStep t s')) := by
  obtain ⟨x, t, hx, h⟩ := Fallible.run_bind.1 h
  have o₁ := (pathparserExtractPathPart_step o hx).owned
  refine ⟨x, t, hx, ?_⟩
  split at h
  · rename_i hx0
    obtain ⟨rfl, rfl⟩ := Fallible.run_pure.1 h
    exact Or.inl ⟨hx0, rfl, rfl⟩
  rename_i hx0
  obtain ⟨part, t₁, hz, h⟩ := Fallible.run_bind.1 h
  obtain ⟨t₂, hw, h⟩ := Fallible.run_seq.1 h
  obtain ⟨h0, rfl⟩ := run_writeObject.1 hw
  have a := (FsStep.of_zalloc o₁ hz).write (x := .pathPart ⟨x.1, x.2.1, 0⟩)
    (.of_zalloc o₁ hz h0 (by decide)) rfl
  split at h
  · obtain ⟨rfl, rfl⟩ := Fallible.run_pure.1 h
    exact Or.inr ⟨hx0, h0, a⟩
  obtain ⟨last, t₃, hr, h⟩ := Fallible.run_bind.1 h
  obtain ⟨t₄, hw', h⟩ := Fallible.run_seq.1 h
  obtain ⟨-, hlast, rfl⟩ := read_object (t := .pathPart) hr
  obtain ⟨-, rfl⟩ := run_writeObject.1 hw'
  obtain ⟨rfl, rfl⟩ := Fallible.run_pure.1 h
  exact Or.inr ⟨hx0, h0, a.trans (.rewrite a.owned hlast rfl rfl rfl)⟩

/-- `pathparser_parse_path_part`. -/
theorem pathparserParsePathPart_step {lastPart : Word} {r : Word × Cstring} (o : FsOwned s)
    (h : pathparserParsePathPart lastPart path s = .ok (r, s')) : FsStep s s' := by
  obtain ⟨x, t, hx, ⟨-, -, rfl⟩ | ⟨-, -, a⟩⟩ := pathparserParsePathPart_cases o h
  · exact pathparserExtractPathPart_step o hx
  · exact (pathparserExtractPathPart_step o hx).trans a

/-- The loop of `pathparser_parse`. -/
theorem pathparserParseLoop_step {firstPart : Word} {u : PUnit} {fuel : ℕ} (o : FsOwned s)
    (h : pathparserParseLoop firstPart fuel path s = .ok (u, s')) : FsStep s s' := by
  induction fuel generalizing s path with
  | zero => exact absurd h Fallible.run_throw
  | succ fuel ih =>
    obtain ⟨r, t, hpart, h⟩ := Fallible.run_bind.1 h
    have a := pathparserParsePathPart_step o hpart
    split at h
    · obtain ⟨-, rfl⟩ := Fallible.run_pure.1 h
      exact a
    · exact a.trans (ih a.owned h)

/-- **`pathparser_parse`** refuses the path, or makes the root and the
first part, and then, when there is one, the others. -/
theorem pathparserParse_cases (o : FsOwned s) (h : pathparserParse path s = .ok (p, s')) :
    (p = 0 ∧ s' = s) ∨ ∃ driveNumber rest t₁ t₂, ∃ r : Word × Cstring,
      pathparserCreateRoot driveNumber s = .ok (p, t₁) ∧
      pathparserParsePathPart 0 rest t₁ = .ok (r, t₂) ∧
      ((r.1 = 0 ∧ s' = t₂) ∨ (r.1 ≠ 0 ∧ FsStep t₂ s')) := by
  unfold pathparserParse at h
  simp only at h
  split at h
  · obtain ⟨rfl, rfl⟩ := Fallible.run_pure.1 h
    exact Or.inl ⟨rfl, rfl⟩
  split at h
  · obtain ⟨rfl, rfl⟩ := Fallible.run_pure.1 h
    exact Or.inl ⟨rfl, rfl⟩
  obtain ⟨root, t₁, hroot, h⟩ := Fallible.run_bind.1 h
  obtain ⟨r, t₂, hpart, h⟩ := Fallible.run_bind.1 h
  obtain ⟨a₁, -⟩ := pathparserCreateRoot_cases o hroot
  have o₂ := (pathparserParsePathPart_step a₁.owned hpart).owned
  split at h
  · rename_i h0
    obtain ⟨rfl, rfl⟩ := Fallible.run_pure.1 h
    exact Or.inr ⟨_, _, t₁, _, r, hroot, hpart, Or.inl ⟨h0, rfl⟩⟩
  rename_i h0
  obtain ⟨x, t₃, hr, h⟩ := Fallible.run_bind.1 h
  obtain ⟨t₄, hw, h⟩ := Fallible.run_seq.1 h
  obtain ⟨t₅, hloop, hrest⟩ := Fallible.run_seq.1 h
  obtain ⟨-, hold, rfl⟩ := read_object (t := .pathRoot) hr
  obtain ⟨-, rfl⟩ := run_writeObject.1 hw
  obtain ⟨rfl, rfl⟩ := Fallible.run_pure.1 hrest
  have a₃ := FsStep.rewrite (y := .pathRoot { x with first := r.1 }) o₂ hold rfl rfl rfl
  exact Or.inr ⟨_, _, t₁, t₃, r, hroot, hpart,
    Or.inr ⟨h0, a₃.trans (pathparserParseLoop_step a₃.owned hloop)⟩⟩

/-- `pathparser_parse`. -/
theorem pathparserParse_step (o : FsOwned s) (h : pathparserParse path s = .ok (p, s')) :
    FsStep s s' := by
  obtain ⟨-, rfl⟩ | ⟨_, _, t₁, t₂, r, hroot, hpart, hrest⟩ := pathparserParse_cases o h
  · exact .refl o
  · obtain ⟨a₁, -⟩ := pathparserCreateRoot_cases o hroot
    have a₂ := a₁.trans (pathparserParsePathPart_step a₁.owned hpart)
    obtain ⟨-, rfl⟩ | ⟨-, a⟩ := hrest
    · exact a₂
    · exact a₂.trans a

end

/-! ## Directories -/

section
variable {image : Sectors} {s s' t : FsState} {p : Word} {u : PUnit}

/-- A directory that could not be read is freed, with the blocks of its
records. -/
theorem fat16FreeDirectory_step {d : FatDirectory} (o : FsOwned s) (a : FsStep s t)
    (ho : s.Ours p) (hp : t.objects p = some (.fatDirectory d))
    (hitem : d.item ≠ 0 → ∃ k, FsPending s t d.item k)
    (h : fat16FreeDirectory p t = .ok (u, s')) : FsStep s s' := by
  unfold fat16FreeDirectory at h
  split at h
  · obtain ⟨-, rfl⟩ := Fallible.run_pure.1 h
    exact a
  obtain ⟨d', t₁, hr, h⟩ := Fallible.run_bind.1 h
  obtain ⟨-, hd', rfl⟩ := read_object (t := .fatDirectory) hr
  obtain rfl : d = d' := by
    rw [hp] at hd'
    cases hd'
    rfl
  obtain ⟨t₂, hitems, hdir⟩ := Fallible.run_seq.1 h
  have hsame : t₂.objects = t₁.objects := by
    split at hitems
    · rw [(Fallible.run_pure.1 hitems).2]
    · rw [run_kernelFree.1 hitems]
  have a₂ : FsStep s t₂ := by
    split at hitems
    · obtain ⟨-, rfl⟩ := Fallible.run_pure.1 hitems
      exact a
    · rename_i h0
      obtain ⟨k, hpend⟩ := hitem h0
      obtain rfl := run_kernelFree.1 hitems
      exact a.free o.ready hpend
  rw [freeObject_eq] at hdir
  cases hdir
  rw [← hsame] at hp
  have hown := a₂.owned.owns p (by rw [hp]; nofun)
  refine ⟨?_, (a₂.keeps.free o.ready ho hown).setObject ho, a₂.table, fun q x hq => ?_⟩
  · exact a₂.owned.freeObject hp rfl
  · have hq' := a₂.descriptors q x hq
    rw [setObject_objects_of_ne]
    · exact hq'
    · rintro rfl
      rw [hp] at hq'
      cases hq'

/-- Reading nothing succeeds. -/
theorem fat16ReadInternal_zero {fat : FatPrivate} {cluster : ℤ} (hc : 0 ≤ cluster)
    {r : ℤ × List Byte} (h : fat16ReadInternal image fat cluster 0 0 = .ok r) : r.1 = allOk := by
  rw [fat16ReadInternal] at h
  simp only at h
  split at h
  · cases h
  rename_i hsize
  have hcluster : fat16GetClusterForOffset image fat cluster 0 = .ok cluster := by
    unfold fat16GetClusterForOffset
    rw [if_neg hsize, Int.zero_tdiv]
    rfl
  rw [hcluster] at h
  simp only [bind, Except.bind] at h
  rw [if_neg (by omega), if_neg (by omega)] at h
  cases hread : diskStreamRead image (diskStreamSeek ⟨0⟩ (int32 (fat16ClusterToSector fat cluster *
      sectorSize + (0 : ℤ).tmod (sizeOfClusterBytes fat.header)))) 0 with
  | error e =>
    rw [hread] at h
    cases h
  | ok x =>
    rw [hread] at h
    simp only at h
    rw [if_neg (by omega)] at h
    cases h
    rfl

/-- `fat16_load_fat_directory`. -/
theorem fat16LoadFatDirectory_step {item : FatDirectoryItem} (o : FsOwned s)
    (h : fat16LoadFatDirectory image item s = .ok (p, s')) : FsStep s s' := by
  unfold fat16LoadFatDirectory at h
  split at h
  · obtain ⟨-, rfl⟩ := Fallible.run_pure.1 h
    exact .refl o
  obtain ⟨directory, t₁, hz, h⟩ := Fallible.run_bind.1 h
  have a₁ := FsStep.of_zalloc o hz
  split at h
  · obtain ⟨-, rfl⟩ := Fallible.run_pure.1 h
    exact a₁
  rename_i h0
  have hdir : FsPending s t₁ directory 1 := .of_zalloc o hz h0 (by decide)
  obtain ⟨fat, t₂, hfat, h₂⟩ := Fallible.run_bind.1 h
  obtain ⟨totalItems, t₃, htotal, h₃⟩ := Fallible.run_bind.1 h₂
  obtain ⟨items, t₄, hz', h₄⟩ := Fallible.run_bind.1 h₃
  obtain ⟨t₅, hw, h₅⟩ := Fallible.run_seq.1 h₄
  obtain ⟨-, rfl⟩ := run_diskFsPrivate.1 hfat
  obtain ⟨-, rfl⟩ := run_readDisk.1 htotal
  obtain ⟨-, rfl⟩ := run_writeObject.1 hw
  have a₂ := a₁.trans (.of_zalloc a₁.owned hz')
  have hdir₂ := hdir.step (.of_zalloc a₁.owned hz')
  have a₃ := a₂.write (x := .fatDirectory ⟨items, [], totalItems, 0, 0⟩) hdir₂ rfl
  split at h₅
  · -- no memory for the records
    rename_i hnull
    obtain ⟨t₆, hfree, h₆⟩ := Fallible.run_seq.1 h₅
    obtain ⟨-, rfl⟩ := Fallible.run_pure.1 h₆
    exact fat16FreeDirectory_step o a₃ hdir.ours setObject_objects_self
      (fun hne => absurd hnull hne) hfree
  rename_i hitems
  obtain ⟨r, t₆, hread, h₆⟩ := Fallible.run_bind.1 h₅
  obtain ⟨t₇, hw', h₇⟩ := Fallible.run_seq.1 h₆
  obtain ⟨hr, rfl⟩ := run_readDisk.1 hread
  obtain ⟨-, rfl⟩ := run_writeObject.1 hw'
  have a₄ := a₃.trans (.rewrite (y := .fatDirectory ⟨items, r.2, totalItems, 0, 0⟩) a₃.owned
    setObject_objects_self rfl rfl rfl)
  split at h₇
  · -- the records could not be read: there are some, so they have blocks
    rename_i hres
    have hpos : 0 < (BitVec.ofInt 32 (int32 (totalItems * sizeofFatDirectoryItem))).toNat := by
      rw [Nat.pos_iff_ne_zero]
      intro hzero
      have hsize : int32 (totalItems * sizeofFatDirectoryItem) = 0 := by
        rw [BitVec.toNat_ofInt] at hzero
        have := int32_lo (totalItems * sizeofFatDirectoryItem)
        have := int32_hi (totalItems * sizeofFatDirectoryItem)
        omega
      rw [hsize] at hr
      refine hres (fat16ReadInternal_zero ?_ hr)
      have hlt := (item.high16BitsFirstCluster ||| item.low16BitsFirstCluster).isLt
      unfold fat16GetFirstCluster
      rw [int32_of_range (by omega) (by omega)]
      omega
    have hpend : FsPending s t₄ items _ := (FsPending.of_zalloc a₁.owned hz' hitems hpos).of_step a₁
    have hne : items ≠ directory := by
      rintro rfl
      exact (FsPending.of_zalloc a₁.owned hz' hitems hpos).ours.elim
        (fun hne => hne hdir.objects) fun hfresh => hfresh 1 hdir.owns
    obtain ⟨t₈, hfree, h₈⟩ := Fallible.run_seq.1 h₇
    obtain ⟨-, rfl⟩ := Fallible.run_pure.1 h₈
    refine fat16FreeDirectory_step o a₄ hdir.ours setObject_objects_self
      (fun _ => ⟨_, hpend.ours, hpend.owns, ?_⟩) hfree
    rw [setObject_objects_of_ne hne, setObject_objects_of_ne hne]
    exact hpend.objects
  · obtain ⟨-, rfl⟩ := Fallible.run_pure.1 h₇
    exact a₄

/-! ## Items -/

/-- `fat16_clone_directory_item`. -/
theorem run_fat16CloneDirectoryItem {item : FatDirectoryItem} :
    fat16CloneDirectoryItem item s = .ok (p, s') ↔
      ∃ st, kernelZalloc (BitVec.ofNat 32 sizeofFatDirectoryItem) s.store = .ok (p, st) ∧
        s' = if p = 0 then { s with store := st }
          else ({ s with store := st } : FsState).setObject p (some (.fatDirectoryItem item)) := by
  constructor
  · intro h
    obtain ⟨copy, t₁, hz, h⟩ := Fallible.run_bind.1 h
    obtain ⟨st, hz', rfl⟩ := run_inStore.1 hz
    split at h
    · obtain ⟨rfl, rfl⟩ := Fallible.run_pure.1 h
      exact ⟨st, by simp_all, by rw [if_pos rfl]⟩
    · rename_i h0
      obtain ⟨t₂, hw, hrest⟩ := Fallible.run_seq.1 h
      obtain ⟨-, rfl⟩ := run_writeObject.1 hw
      obtain ⟨rfl, rfl⟩ := Fallible.run_pure.1 hrest
      exact ⟨st, hz', by rw [if_neg h0]⟩
  · rintro ⟨st, hz, rfl⟩
    unfold fat16CloneDirectoryItem
    rw [Fallible.bind_ok (run_inStore.2 ⟨st, hz, rfl⟩)]
    by_cases h0 : p = 0
    · rw [if_pos h0, if_pos h0, h0]
      rfl
    · rw [if_neg h0, if_neg h0]
      exact Fallible.run_seq.2 ⟨_, run_writeObject.2 ⟨h0, rfl⟩, rfl⟩

/-- A copy is a new block with the record. -/
theorem fat16CloneDirectoryItem_step {item : FatDirectoryItem} (o : FsOwned s)
    (h : fat16CloneDirectoryItem item s = .ok (p, s')) :
    FsStep s s' ∧ (p ≠ 0 → (∃ record, s'.objects p = some (.fatDirectoryItem record)) ∧
      ∀ q x, s'.objects q = some (.fatItem x) → x.ptr ≠ p) := by
  obtain ⟨st, hz, rfl⟩ := run_fat16CloneDirectoryItem.1 h
  have hz' : inStore (kernelZalloc (BitVec.ofNat 32 sizeofFatDirectoryItem)) s =
      .ok (p, { s with store := st }) := run_inStore.2 ⟨st, hz, rfl⟩
  have a := FsStep.of_zalloc o hz'
  by_cases h0 : p = 0
  · rw [if_pos h0]
    exact ⟨a, fun hne => absurd h0 hne⟩
  rw [if_neg h0]
  have hpend : FsPending s { s with store := st } p 1 := .of_zalloc o hz' h0 (by decide)
  refine ⟨a.write hpend rfl, fun _ => ⟨⟨item, setObject_objects_self⟩, fun q x hq hx => ?_⟩⟩
  have hqp : q ≠ p := by
    rintro rfl
    rw [setObject_objects_self] at hq
    cases hq
  rw [setObject_objects_of_ne hqp] at hq
  obtain ⟨record, hr⟩ := (o.items q x hq).2 (hx ▸ h0)
  -- the item's record is an object, and the copy's block was none
  rw [hx] at hr
  exact absurd hr (by rw [hpend.objects]; nofun)

/-- **An item with a copy of its own** in a new block. -/
theorem FsStep.writeItem (a : FsStep s t) {fItem copy : Word} (h : FsPending s t fItem 1)
    (hcopy : copy ≠ 0 → (∃ record, t.objects copy = some (.fatDirectoryItem record)) ∧
      ∀ q x, t.objects q = some (.fatItem x) → x.ptr ≠ copy) :
    FsStep s (t.setObject fItem (some (.fatItem ⟨copy, fatItemTypeFile⟩))) := by
  have hother : ∀ {q : Word} {y : FatItem}, q ≠ fItem →
      (t.setObject fItem (some (.fatItem ⟨copy, fatItemTypeFile⟩))).objects q = some (.fatItem y) →
      t.objects q = some (.fatItem y) := by
    intro q y hne hy
    rwa [setObject_objects_of_ne hne] at hy
  have hrecord : ∀ {q : Word} {record : FatDirectoryItem},
      t.objects q = some (.fatDirectoryItem record) →
      (t.setObject fItem (some (.fatItem ⟨copy, fatItemTypeFile⟩))).objects q =
        some (.fatDirectoryItem record) := by
    intro q record hq
    rwa [setObject_objects_of_ne]
    rintro rfl
    rw [h.objects] at hq
    cases hq
  refine ⟨⟨a.owned.ready, fun q hq => ?_, fun q x hx => ?_, fun q q' x x' hx hx' h0 he => ?_⟩,
    a.keeps.setObject h.ours, a.table, fun q d hq => ?_⟩
  · by_cases hq' : q = fItem
    · exact hq' ▸ h.owns
    · rw [setObject_objects_of_ne hq'] at hq
      exact a.owned.owns q hq
  · by_cases hq' : q = fItem
    · rw [hq', setObject_objects_self] at hx
      cases hx
      exact ⟨rfl, fun hc => (hcopy hc).1.imp fun _ hr => hrecord hr⟩
    · obtain ⟨htype, hptr⟩ := a.owned.items q x (hother hq' hx)
      exact ⟨htype, fun hc => (hptr hc).imp fun _ hr => hrecord hr⟩
  · by_cases hq : q = fItem
    · by_cases hq' : q' = fItem
      · rw [hq, hq']
      · rw [hq, setObject_objects_self] at hx
        cases hx
        exact absurd he.symm ((hcopy h0).2 q' x' (hother hq' hx'))
    · by_cases hq' : q' = fItem
      · rw [hq', setObject_objects_self] at hx'
        cases hx'
        exact absurd he ((hcopy fun hc => h0 (he.trans hc)).2 q x (hother hq hx))
      · exact a.owned.single q q' x x' (hother hq hx) (hother hq' hx') h0 he
  · have hq' := a.descriptors q d hq
    rwa [setObject_objects_of_ne]
    rintro rfl
    rw [h.objects] at hq'
    cases hq'

/-- **`fat16_new_fat_item_for_directory_item`.** -/
theorem fat16NewFatItemForDirectoryItem_step {item : FatDirectoryItem} (o : FsOwned s)
    (h : fat16NewFatItemForDirectoryItem image item s = .ok (p, s')) : FsStep s s' := by
  obtain ⟨fItem, t₁, hz, h₁⟩ := Fallible.run_bind.1 h
  have a₁ := FsStep.of_zalloc o hz
  split at h₁
  · obtain ⟨-, rfl⟩ := Fallible.run_pure.1 h₁
    exact a₁
  rename_i h0
  have hpend : FsPending s t₁ fItem 1 := .of_zalloc o hz h0 (by decide)
  obtain ⟨t₂, hdir, h₂⟩ := Fallible.run_seq.1 h₁
  obtain ⟨copy, t₃, hclone, h₃⟩ := Fallible.run_bind.1 h₂
  obtain ⟨t₄, hw, h₄⟩ := Fallible.run_seq.1 h₃
  obtain ⟨-, rfl⟩ := run_writeObject.1 hw
  obtain ⟨-, rfl⟩ := Fallible.run_pure.1 h₄
  split at hdir
  · obtain ⟨-, rfl⟩ := Fallible.run_pure.1 hdir
    obtain ⟨a₃, hcopy⟩ := fat16CloneDirectoryItem_step a₁.owned hclone
    exact (a₁.trans a₃).writeItem (hpend.step a₃) hcopy
  · -- what is written for a directory is written over
    obtain ⟨directory, u, hload, hwdir⟩ := Fallible.run_bind.1 hdir
    obtain ⟨-, rfl⟩ := run_writeObject.1 hwdir
    have a₂ := fat16LoadFatDirectory_step a₁.owned hload
    obtain ⟨st, hz', rfl⟩ := run_fat16CloneDirectoryItem.1 hclone
    have hrun : fat16CloneDirectoryItem item u = .ok (copy, _) :=
      run_fat16CloneDirectoryItem.2 ⟨st, hz', rfl⟩
    obtain ⟨a₃, hcopy⟩ := fat16CloneDirectoryItem_step a₂.owned hrun
    have a := ((a₁.trans a₂).trans a₃).writeItem ((hpend.step a₂).step a₃) hcopy
    split at a
    · rename_i hc
      rw [if_pos hc]
      change FsStep s ((({ u with store := st } : FsState).setObject fItem
        (some (.fatItem ⟨directory, fatItemTypeDirectory⟩))).setObject fItem _)
      rw [setObject_setObject]
      exact a
    · rename_i hc
      rw [if_neg hc]
      change FsStep s (((({ u with store := st } : FsState).setObject fItem
        (some (.fatItem ⟨directory, fatItemTypeDirectory⟩))).setObject copy _).setObject fItem _)
      rw [setObject_overwrite]
      exact a

/-! ## Looking a path up -/

/-- The loop of `fat16_find_item_in_directory`. -/
theorem fat16FindItemLoop_step {directory : FatDirectory} {name : Cstring} {n i : ℕ}
    {fItem : Word} (o : FsOwned s)
    (h : fat16FindItemLoop image directory name n i fItem s = .ok (p, s')) : FsStep s s' := by
  induction n generalizing i fItem s with
  | zero =>
    obtain ⟨-, rfl⟩ := Fallible.run_pure.1 h
    exact .refl o
  | succ n ih =>
    obtain ⟨name', t₁, hname, h₁⟩ := Fallible.run_bind.1 h
    obtain ⟨-, rfl⟩ := run_readDisk.1 hname
    split at h₁
    · obtain ⟨item, t₂, hitem, h₂⟩ := Fallible.run_bind.1 h₁
      obtain ⟨x, t₃, hnew, h₃⟩ := Fallible.run_bind.1 h₂
      obtain ⟨-, rfl⟩ := run_readDisk.1 hitem
      have a := fat16NewFatItemForDirectoryItem_step o hnew
      exact a.trans (ih a.owned h₃)
    · exact ih o h₁

/-- `fat16_get_directory_entry`. No item is a directory, so the walk ends
at the first part. -/
theorem fat16GetDirectoryEntry_step {path : Word} (o : FsOwned s)
    (h : fat16GetDirectoryEntry image path s = .ok (p, s')) : FsStep s s' := by
  obtain ⟨fat, t₁, hfat, h₁⟩ := Fallible.run_bind.1 h
  obtain ⟨part, t₂, hpart, h₂⟩ := Fallible.run_bind.1 h₁
  obtain ⟨root, t₃, hroot, h₃⟩ := Fallible.run_bind.1 h₂
  obtain ⟨-, rfl⟩ := run_diskFsPrivate.1 hfat
  obtain ⟨-, -, rfl⟩ := run_readObject.1 hpart
  have a := fat16FindItemLoop_step o hroot
  split at h₃
  · obtain ⟨-, rfl⟩ := Fallible.run_pure.1 h₃
    exact a
  rw [show osMaxPath = 107 + 1 from rfl, fat16GetDirectoryEntryLoop] at h₃
  split at h₃
  · obtain ⟨-, rfl⟩ := Fallible.run_pure.1 h₃
    exact a
  obtain ⟨current, t₄, hcurrent, h₄⟩ := Fallible.run_bind.1 h₃
  obtain ⟨-, hobj, rfl⟩ := read_object (t := .fatItem) hcurrent
  have htype := (a.owned.items _ _ hobj).1
  rw [if_pos (by rw [htype]; decide)] at h₄
  obtain ⟨-, rfl⟩ := Fallible.run_pure.1 h₄
  exact a

/-- `fat16_open`. -/
theorem fat16Open_step {path : Word} {mode : FileMode} (o : FsOwned s)
    (h : fat16Open image path mode s = .ok (p, s')) : FsStep s s' := by
  unfold fat16Open at h
  split at h
  · obtain ⟨-, rfl⟩ := Fallible.run_pure.1 h
    exact .refl o
  obtain ⟨descriptor, t₁, hz, h₁⟩ := Fallible.run_bind.1 h
  have a₁ := FsStep.of_zalloc o hz
  split at h₁
  · obtain ⟨-, rfl⟩ := Fallible.run_pure.1 h₁
    exact a₁
  rename_i h0
  obtain ⟨item, t₂, hentry, h₂⟩ := Fallible.run_bind.1 h₁
  obtain ⟨t₃, hw, h₃⟩ := Fallible.run_seq.1 h₂
  obtain ⟨-, rfl⟩ := run_writeObject.1 hw
  have a₂ := fat16GetDirectoryEntry_step a₁.owned hentry
  have hpend : FsPending s t₁ descriptor 1 := .of_zalloc o hz h0 (by decide)
  have a := (a₁.trans a₂).write (x := .fatFileDescriptor ⟨item, 0⟩) (hpend.step a₂) rfl
  split at h₃
  · obtain ⟨-, rfl⟩ := Fallible.run_pure.1 h₃
    exact a
  · obtain ⟨-, rfl⟩ := Fallible.run_pure.1 h₃
    exact a

end

/-! ## Opening a file -/

section
variable {image : Sectors} {s s' : FsState} {p : Word} {fd : ℤ} {u : PUnit}

/-- The first slot of the table that is free. -/
def FsState.freeSlot (s : FsState) : Option ℕ :=
  (List.range osMaxFileDescriptors).find? fun i => s.fileDescriptors i = 0

/-- **A file is opened** in slot `i`, with the descriptor `d`. -/
structure FsOpens (s s' : FsState) (i : ℕ) (d : Word) : Prop where
  owned : FsOwned s'
  keeps : FsKeeps s s'
  slot : s.freeSlot = some i
  ne_zero : d ≠ 0
  table : s'.fileDescriptors = Function.update s.fileDescriptors i d
  object : ∃ privateData, s'.objects d = some (.fileDescriptor ⟨i + 1, some .fat16, privateData⟩)
  descriptors : ∀ q x, s.objects q = some (.fileDescriptor x) →
    q ≠ d ∧ s'.objects q = some (.fileDescriptor x)

/-- `file_new_descriptor`: the table is full, or the first free slot gets
a new descriptor. -/
theorem fileNewDescriptor_cases {r : ℤ × Word} (o : FsOwned s)
    (h : fileNewDescriptor s = .ok (r, s')) :
    (r.1 = -noMemoryError ∧ s.freeSlot = none ∧ s' = s) ∨
      ∃ i st, r.1 = 0 ∧ s.freeSlot = some i ∧ FsPending s { s with store := st } r.2 1 ∧
        FsStep s { s with store := st } ∧ r.2 ≠ 0 ∧
        s' = { ({ s with store := st } : FsState).setObject r.2
            (some (.fileDescriptor ⟨i + 1, none, 0⟩)) with
          fileDescriptors := Function.update s.fileDescriptors i r.2 } := by
  unfold fileNewDescriptor at h
  rw [Fallible.run_get_bind] at h
  unfold FsState.freeSlot
  cases hslot : (List.range osMaxFileDescriptors).find? fun i => s.fileDescriptors i = 0 with
  | none =>
    rw [hslot] at h
    obtain ⟨rfl, rfl⟩ := Fallible.run_pure.1 h
    exact Or.inl ⟨rfl, rfl, rfl⟩
  | some i =>
    rw [hslot] at h
    obtain ⟨descriptor, t₁, hz, h₁⟩ := Fallible.run_bind.1 h
    obtain ⟨t₂, hw, h₂⟩ := Fallible.run_seq.1 h₁
    obtain ⟨t₃, htable, h₃⟩ := Fallible.run_seq.1 h₂
    obtain ⟨h0, rfl⟩ := run_writeObject.1 hw
    obtain rfl := Fallible.run_modify.1 htable
    obtain ⟨rfl, rfl⟩ := Fallible.run_pure.1 h₃
    obtain ⟨st, hz', rfl⟩ := run_inStore.1 hz
    exact Or.inr ⟨i, st, rfl, rfl, .of_zalloc o hz h0 (by decide), .of_zalloc o hz, h0, rfl⟩

/-- What is opened after a step is opened from before it. -/
theorem FsOpens.of_step {t : FsState} {i : ℕ} (a : FsStep s t) (b : FsOpens t s' i p) :
    FsOpens s s' i p where
  owned := b.owned
  keeps := a.keeps.trans b.keeps
  slot := by
    have hslot := b.slot
    unfold FsState.freeSlot at hslot ⊢
    rwa [a.table] at hslot
  ne_zero := b.ne_zero
  table := by rw [b.table, a.table]
  object := b.object
  descriptors q x h := b.descriptors q x (a.descriptors q x h)

/-- **`fopen` with the path parsed**: the path is refused or has no part,
and nothing more is done; or steps of the layer follow, after which
nothing is opened, or the table is full, or the first free slot has the
file. -/
theorem fopen_parsed {filename modeStr : Cstring} (o : FsOwned s)
    (h : fopen image filename modeStr s = .ok (fd, s')) :
    ∃ rootPath t, pathparserParse filename s = .ok (rootPath, t) ∧
      ((fd = 0 ∧ s' = t ∧ (rootPath = 0 ∨ ∃ driveNumber,
          t.objects rootPath = some (.pathRoot ⟨driveNumber, 0⟩))) ∨
        ∃ root, t.objects rootPath = some (.pathRoot root) ∧ root.first ≠ 0 ∧
          ((fd = 0 ∧ FsStep t s') ∨ (fd = -noMemoryError ∧ t.freeSlot = none ∧ FsStep t s') ∨
            ∃ (i : ℕ) (d : Word), fd = i + 1 ∧ FsOpens t s' i d)) := by
  obtain ⟨rootPath, t₁, hparse, h₁⟩ := Fallible.run_bind.1 h
  have o₁ := (pathparserParse_step o hparse).owned
  refine ⟨rootPath, t₁, hparse, ?_⟩
  split at h₁
  · rename_i h0
    obtain ⟨rfl, rfl⟩ := Fallible.run_pure.1 h₁
    exact Or.inl ⟨rfl, rfl, Or.inl h0⟩
  obtain ⟨root, t₂, hroot, h₂⟩ := Fallible.run_bind.1 h₁
  obtain ⟨-, hobj, rfl⟩ := read_object (t := .pathRoot) hroot
  split at h₂
  · rename_i hfirst
    obtain ⟨rfl, rfl⟩ := Fallible.run_pure.1 h₂
    exact Or.inl ⟨rfl, rfl, Or.inr ⟨root.driveNumber, by rw [hobj, ← hfirst]⟩⟩
  rename_i hfirst
  refine Or.inr ⟨root, hobj, hfirst, ?_⟩
  split at h₂
  · obtain ⟨rfl, rfl⟩ := Fallible.run_pure.1 h₂
    exact Or.inl ⟨rfl, .refl o₁⟩
  rw [Fallible.run_get_bind] at h₂
  cases hfs : t₂.disk.filesystem with
  | none =>
    rw [hfs] at h₂
    obtain ⟨rfl, rfl⟩ := Fallible.run_pure.1 h₂
    exact Or.inl ⟨rfl, .refl o₁⟩
  | some name =>
    cases name
    rw [hfs] at h₂
    simp only at h₂
    split at h₂
    · obtain ⟨rfl, rfl⟩ := Fallible.run_pure.1 h₂
      exact Or.inl ⟨rfl, .refl o₁⟩
    obtain ⟨privateData, t₃, hopen, h₃⟩ := Fallible.run_bind.1 h₂
    have a₂ := fat16Open_step o₁ hopen
    split at h₃
    · obtain ⟨rfl, rfl⟩ := Fallible.run_pure.1 h₃
      exact Or.inl ⟨rfl, a₂⟩
    obtain ⟨r, t₄, hnew, h₄⟩ := Fallible.run_bind.1 h₃
    have hslots : t₃.freeSlot = t₂.freeSlot := by
      unfold FsState.freeSlot
      rw [a₂.table]
    obtain ⟨hr, hnone, rfl⟩ | ⟨i, st, hr, hslot, hpend, a₃, h0, rfl⟩ :=
      fileNewDescriptor_cases a₂.owned hnew
    · rw [hr, if_pos (by decide)] at h₄
      obtain ⟨rfl, rfl⟩ := Fallible.run_pure.1 h₄
      exact Or.inr (Or.inl ⟨rfl, hslots ▸ hnone, a₂⟩)
    · rw [hr, if_neg (by decide)] at h₄
      obtain ⟨d, t₅, hd, h₅⟩ := Fallible.run_bind.1 h₄
      obtain ⟨t₆, hw, h₆⟩ := Fallible.run_seq.1 h₅
      obtain ⟨-, hobj', rfl⟩ := read_object (t := .fileDescriptor) hd
      obtain ⟨-, rfl⟩ := run_writeObject.1 hw
      obtain ⟨rfl, rfl⟩ := Fallible.run_pure.1 h₆
      obtain rfl : d = ⟨i + 1, none, 0⟩ := by
        have hself := hobj'.symm.trans setObject_objects_self
        cases hself
        rfl
      refine Or.inr (Or.inr ⟨i, r.2, rfl, ?_⟩)
      have hpend' := hpend.of_step a₂
      have a := (a₂.trans a₃).write (x := .fileDescriptor ⟨i + 1, none, 0⟩) hpend' rfl
      refine ⟨(a.owned.setTable _).setObject hpend.owns ?_ rfl,
        (a.keeps.setTable _).setObject hpend'.ours, hslots ▸ hslot, h0, by rw [← a₂.table]; rfl,
        ⟨privateData, setObject_objects_self⟩, fun q x hq => ?_⟩
      · change (Function.update t₃.objects r.2 _ r.2).bind _ = none
        rw [Function.update_self]
        rfl
      · have hq' := (a₂.trans a₃).descriptors q x hq
        have hne : q ≠ r.2 := by
          rintro rfl
          rw [hpend.objects] at hq'
          cases hq'
        refine ⟨hne, ?_⟩
        rw [setObject_objects_of_ne hne]
        exact a.descriptors q x hq

/-- **`fopen`**: nothing is opened, or the table is full, or the first
free slot has the file. -/
theorem fopen_cases {filename modeStr : Cstring} (o : FsOwned s)
    (h : fopen image filename modeStr s = .ok (fd, s')) :
    (fd = 0 ∧ FsStep s s') ∨ (fd = -noMemoryError ∧ s.freeSlot = none ∧ FsStep s s') ∨
      ∃ (i : ℕ) (d : Word), fd = i + 1 ∧ FsOpens s s' i d := by
  obtain ⟨rootPath, t, hparse, hrest⟩ := fopen_parsed o h
  have a := pathparserParse_step o hparse
  obtain ⟨rfl, rfl, -⟩ | ⟨root, -, -, ⟨rfl, b⟩ | ⟨rfl, hnone, b⟩ | ⟨i, d, rfl, b⟩⟩ := hrest
  · exact Or.inl ⟨rfl, a⟩
  · exact Or.inl ⟨rfl, a.trans b⟩
  · refine Or.inr (Or.inl ⟨rfl, ?_, a.trans b⟩)
    unfold FsState.freeSlot at hnone ⊢
    rwa [a.table] at hnone
  · exact Or.inr (Or.inr ⟨i, d, rfl, .of_step a b⟩)

/-! ## Closing a file -/

/-- Freeing an object that is not a record, below the descriptors. -/
theorem FsStep.freeObject (o : FsOwned s) {x : FsObject} (hp : s.objects p = some x)
    (hrec : x.asFatDirectoryItem = none) (hdesc : x.asFileDescriptor = none)
    (h : freeObject p s = .ok (u, s')) : FsStep s s' := by
  rw [freeObject_eq] at h
  cases h
  have hne : s.objects p ≠ none := by
    rw [hp]
    nofun
  refine ⟨o.freeObject hp hrec, ((FsKeeps.refl s).free o.ready (Or.inl hne) (o.owns p hne)).setObject
    (Or.inl hne), rfl, fun q d hq => ?_⟩
  rw [setObject_objects_of_ne]
  · exact hq
  · rintro rfl
    rw [hp] at hq
    cases hq
    cases hdesc

/-- **`fat16_fat_item_free`** frees the item and its record, and no other
object. -/
theorem fat16FatItemFree_step (o : FsOwned s) (h : fat16FatItemFree p s = .ok (u, s')) :
    FsStep s s' ∧ ∀ q x, s.objects q = some x → x.asFatItem = none →
      x.asFatDirectoryItem = none → s'.objects q = some x := by
  obtain ⟨item, t₁, hitem, h₁⟩ := Fallible.run_bind.1 h
  obtain ⟨t₂, hrecord, h₂⟩ := Fallible.run_seq.1 h₁
  obtain ⟨-, hobj, rfl⟩ := read_object (t := .fatItem) hitem
  obtain ⟨htype, hptr⟩ := o.items p item hobj
  rw [htype, if_neg (by decide), if_pos rfl, freeObject_eq] at hrecord
  cases hrecord
  rw [freeObject_eq] at h₂
  cases h₂
  -- the record's block and the item's are two, and the only ones freed
  have hp : t₁.store.heap.Owns p 1 := o.owns p (by rw [hobj]; nofun)
  have hne : p ≠ item.ptr := by
    intro he
    obtain ⟨record, hr⟩ := hptr (he ▸ hp.ne_zero o.ready)
    rw [← he, hobj] at hr
    cases hr
  have hfirst : ∀ {q k}, t₁.store.heap.Owns q k → q ≠ item.ptr →
      (t₁.store.heap.write (heapFree t₁.store.heap item.ptr)).Owns q k := by
    intro q k hq hqp
    by_cases h0 : item.ptr = 0
    · rw [h0, heapFree_null o.ready]
      exact hq
    · obtain ⟨record, hr⟩ := hptr h0
      exact Heap.owns_heapFree o.ready (o.owns _ (by rw [hr]; nofun)) hq hqp
  have r₁ := (t₁.store.heap.samePlace_write (heapFree t₁.store.heap item.ptr)).ready o.ready
  have howns : ∀ {q k}, t₁.store.heap.Owns q k → q ≠ item.ptr → q ≠ p → _ :=
    fun hq h1 h2 => Heap.owns_heapFree r₁ (hfirst hp hne) (hfirst hq h1) h2
  have hptr_of : ∀ {q k}, t₁.store.heap.Owns q k → (∀ record,
      t₁.objects q ≠ some (.fatDirectoryItem record)) → q ≠ item.ptr := by
    rintro q k hq hrec rfl
    obtain ⟨record, hr⟩ := hptr (hq.ne_zero o.ready)
    exact hrec record hr
  have hobjects : ∀ q, Function.update (Function.update t₁.objects item.ptr none) p none q =
      if q = p ∨ q = item.ptr then none else t₁.objects q := by
    intro q
    by_cases h1 : q = p
    · rw [if_pos (Or.inl h1), h1, Function.update_self]
    · rw [Function.update_of_ne h1]
      by_cases h2 : q = item.ptr
      · rw [if_pos (Or.inr h2), h2, Function.update_self]
      · rw [if_neg (not_or.2 ⟨h1, h2⟩), Function.update_of_ne h2]
  have hrest : ∀ q x, t₁.objects q = some x → x.asFatItem = none → x.asFatDirectoryItem = none →
      Function.update (Function.update t₁.objects item.ptr none) p none q = some x := by
    intro q x hq hx hx'
    rw [hobjects, if_neg, hq]
    rintro (rfl | hq')
    · rw [hobj] at hq
      cases hq
      cases hx
    · refine hptr_of (o.owns q (by rw [hq]; nofun)) (fun record hr => ?_) hq'
      rw [hq] at hr
      cases hr
      cases hx'
  have hitems : ∀ {q y}, Function.update (Function.update t₁.objects item.ptr none) p none q =
      some (.fatItem y) → q ≠ p ∧ t₁.objects q = some (.fatItem y) := by
    intro q y hq
    rw [hobjects] at hq
    split at hq
    · cases hq
    · rename_i hq'
      exact ⟨(not_or.1 hq').1, hq⟩
  refine ⟨⟨⟨?_, fun q hq => ?_, fun q y hy => ?_, fun q q' y y' hy hy' => ?_⟩,
    ⟨⟨rfl, rfl⟩, rfl, fun q k hq h0 => ?_, fun q k hq h0 => ?_, fun _ _ _ _ _ _ => rfl⟩, rfl,
    fun q d hq => hrest q _ hq rfl rfl⟩, hrest⟩
  · exact (Heap.samePlace_write _ _).ready r₁
  · change Function.update (Function.update t₁.objects item.ptr none) p none q ≠ none at hq
    rw [hobjects] at hq
    split at hq
    · exact absurd rfl hq
    · rename_i hq'
      rw [not_or] at hq'
      exact howns (o.owns q hq) hq'.2 hq'.1
  · obtain ⟨hqp, hq⟩ := hitems hy
    obtain ⟨hy1, hy2⟩ := o.items q y hq
    refine ⟨hy1, fun h0 => ?_⟩
    obtain ⟨record, hr⟩ := hy2 h0
    refine ⟨record, ?_⟩
    change Function.update (Function.update t₁.objects item.ptr none) p none y.ptr = _
    rw [hobjects, if_neg, hr]
    rintro (he | he)
    · rw [he, hobj] at hr
      cases hr
    · exact hqp (o.single q p y item hq hobj h0 he)
  · exact o.single q q' y y' (hitems hy).2 (hitems hy').2
  · refine howns hq (hptr_of hq fun record hr => ?_) ?_
    · rw [h0] at hr
      cases hr
    · rintro rfl
      rw [hobj] at h0
      cases h0
  · change Function.update (Function.update t₁.objects item.ptr none) p none q = none
    rw [hobjects]
    split
    · rfl
    · exact h0

/-- `fat16_close`. -/
theorem fat16Close_step {r : ℤ} (o : FsOwned s) (h : fat16Close p s = .ok (r, s')) :
    r = allOk ∧ FsStep s s' := by
  obtain ⟨d, t₁, hd, h₁⟩ := Fallible.run_bind.1 h
  obtain ⟨t₂, hitem, h₂⟩ := Fallible.run_seq.1 h₁
  obtain ⟨t₃, hfree, h₃⟩ := Fallible.run_seq.1 h₂
  obtain ⟨-, hobj, rfl⟩ := read_object (t := .fatFileDescriptor) hd
  obtain ⟨rfl, rfl⟩ := Fallible.run_pure.1 h₃
  obtain ⟨a, hrest⟩ := fat16FatItemFree_step o hitem
  exact ⟨rfl, a.trans (.freeObject a.owned (hrest p _ hobj rfl rfl) rfl rfl hfree)⟩

/-- **A file is closed**: its slot is free, and no other's descriptor is
touched. -/
structure FsCloses (s s' : FsState) (d : Word) (x : FileDescriptor) : Prop where
  owned : FsOwned s'
  keeps : FsKeeps s s'
  object : s.objects d = some (.fileDescriptor x)
  table : s'.fileDescriptors = Function.update s.fileDescriptors (x.index - 1).toNat 0
  descriptors : ∀ q y, q ≠ d → s.objects q = some (.fileDescriptor y) →
    s'.objects q = some (.fileDescriptor y)

/-- **`fclose`**: the handle is refused, or its file is closed. -/
theorem fclose_cases {r : ℤ} (o : FsOwned s) (h : fclose fd s = .ok (r, s')) :
    (s.fileGetDescriptor fd = 0 ∧ r = -invalidArgumentError ∧ s' = s) ∨
      (s.fileGetDescriptor fd ≠ 0 ∧ r = allOk ∧
        ∃ x, FsCloses s s' (s.fileGetDescriptor fd) x) := by
  obtain ⟨descriptor, t₁, hget, h₁⟩ := Fallible.run_bind.1 h
  obtain ⟨rfl, rfl⟩ : descriptor = s.fileGetDescriptor fd ∧ s = t₁ := by
    obtain ⟨rfl, rfl⟩ := Fallible.run_pure.1 hget
    exact ⟨rfl, rfl⟩
  split at h₁
  · rename_i h0
    obtain ⟨rfl, rfl⟩ := Fallible.run_pure.1 h₁
    exact Or.inl ⟨h0, rfl, rfl⟩
  rename_i h0
  obtain ⟨privateData, t₂, hprivate, h₂⟩ := Fallible.run_bind.1 h₁
  obtain ⟨res, t₃, hclose, h₃⟩ := Fallible.run_bind.1 h₂
  obtain ⟨x, t₄, hx, hname⟩ := Fallible.run_bind.1 hprivate
  obtain ⟨-, hobj, rfl⟩ := read_object (t := .fileDescriptor) hx
  obtain rfl : t₂ = t₄ := by
    cases hfs : x.filesystem with
    | none =>
      rw [hfs] at hname
      exact absurd hname Fallible.run_throw
    | some name =>
      rw [hfs] at hname
      exact (Fallible.run_pure.1 hname).2
  obtain ⟨rfl, a⟩ := fat16Close_step o hclose
  rw [if_pos rfl] at h₃
  obtain ⟨t₅, hfree, h₄⟩ := Fallible.run_seq.1 h₃
  obtain ⟨rfl, rfl⟩ := Fallible.run_pure.1 h₄
  refine Or.inr ⟨h0, rfl, x, ?_⟩
  -- the descriptor is as it was when its slot is cleared and it is freed
  obtain ⟨y, t₆, hy, h₆⟩ := Fallible.run_bind.1 hfree
  obtain ⟨t₇, htable, h₇⟩ := Fallible.run_seq.1 h₆
  obtain ⟨-, hobj', rfl⟩ := read_object (t := .fileDescriptor) hy
  obtain rfl := Fallible.run_modify.1 htable
  obtain rfl : y = x := by
    have hsame := hobj'.symm.trans (a.descriptors _ x hobj)
    cases hsame
    rfl
  rw [freeObject_eq] at h₇
  cases h₇
  have hne : t₂.objects (t₂.fileGetDescriptor fd) ≠ none := by
    rw [hobj]
    nofun
  have hkeeps := a.keeps.setTable (Function.update t₆.fileDescriptors (y.index - 1).toNat 0)
  refine ⟨(a.owned.setTable _).freeObject hobj' rfl, (hkeeps.free o.ready (Or.inl hne)
    (a.owned.owns _ (by rw [hobj']; nofun))).setObject (Or.inl hne), hobj, ?_, fun q z hq hz => ?_⟩
  · rw [← a.table]
    rfl
  · rw [setObject_objects_of_ne hq]
    exact a.descriptors q z hz

end

end OwnKernel
