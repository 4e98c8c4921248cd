import OwnKernel.File.Objects
import OwnKernel.Model.PathParser
import OwnKernel.Strings.Length

/-!
# What the path parser builds

`components` is how the parser cuts a path; `PartsFrom` follows a part
list through `next`. A path is accepted exactly when it is short enough
and begins with a drive (`AcceptedPath`). The parser links every part
after the first to the first, so what it builds from the components
`c :: cs` is `c` and the last of `cs` (`pathparserParse_of_accepted`), which
is the path's own list only for one or two components.
-/

namespace OwnKernel

variable {s s' : FsState} {path text : Cstring} {p q first last : Word} {fuel : ℕ}
variable {cs : List Cstring}

/-- **A path the parser accepts**: fewer than 108 characters, a digit, a
colon and a slash first. -/
def AcceptedPath (path : Cstring) : Prop :=
  path.length < osMaxPath ∧ ∃ d rest, path = d :: colon :: slash :: rest ∧ isDigit d = true

/-- What `pathparser_path_valid_format` checks, for a string. -/
theorem pathparserPathValidFormat_iff (h0 : 0 ∉ path) (hlen : path.length < osMaxPath) :
    pathparserPathValidFormat path = true ↔
      ∃ d rest, path = d :: colon :: slash :: rest ∧ isDigit d = true := by
  unfold pathparserPathValidFormat
  rw [strnlen_eq h0 (Nat.le_of_lt hlen), decide_eq_true_iff]
  constructor
  · rintro ⟨-, hdigit, hcolon, hslash⟩
    match path with
    | [] => exact absurd hdigit (by decide)
    | [d] => exact absurd (show (0 : Byte) = colon from hcolon) (by decide)
    | [d, c] => exact absurd (show (0 : Byte) = slash from hslash) (by decide)
    | d :: c :: c' :: rest => exact ⟨d, rest, by rw [← hcolon, ← hslash]; rfl, hdigit⟩
  · rintro ⟨d, rest, rfl, hdigit⟩
    exact ⟨by simp only [List.length_cons]; omega, hdigit, rfl, rfl⟩

/-! ## Cutting a path -/

/-- The rest of a path behind its first part and the slash after it. -/
def afterPart (path : Cstring) : Cstring :=
  let rest := path.dropWhile isPartChar
  if rest.headD 0 = slash then rest.drop 1 else rest

/-- The parts the parser finds, up to the first empty one. -/
def components : ℕ → Cstring → List Cstring
  | 0, _ => []
  | fuel + 1, path =>
    if path.takeWhile isPartChar = [] then []
    else path.takeWhile isPartChar :: components fuel (afterPart path)

/-- Components separated by single slashes, with a slash at the end when
`trailing` is set. -/
def joinPath (trailing : Bool) : List Cstring → Cstring
  | [] => if trailing then [slash] else []
  | [c] => c ++ if trailing then [slash] else []
  | c :: cs => c ++ slash :: joinPath trailing cs

/-- A component of a path: not empty, and without slashes. -/
def IsComponent (c : Cstring) : Prop := c ≠ [] ∧ ∀ x ∈ c, isPartChar x = true

theorem length_afterPart_lt (h : path.takeWhile isPartChar ≠ []) :
    (afterPart path).length < path.length := by
  have hsplit := congrArg List.length (List.takeWhile_append_dropWhile (p := isPartChar) (l := path))
  have hpos := List.length_pos_iff.2 h
  rw [List.length_append] at hsplit
  unfold afterPart
  simp only
  split
  · rw [List.length_drop]
    omega
  · omega

/-- The first component is cut off. -/
theorem cut_component {c : Cstring} (rest : Cstring) (hc : IsComponent c)
    (hrest : rest = [] ∨ rest.headD 0 = slash) :
    (c ++ rest).takeWhile isPartChar = c ∧ afterPart (c ++ rest) = rest.drop 1 := by
  have htake : rest.takeWhile isPartChar = [] := by
    rcases hrest with rfl | h
    · rfl
    · cases rest with
      | nil => rfl
      | cons x xs =>
        have hx : x = slash := h
        rw [List.takeWhile_cons_of_neg (by rw [hx]; decide)]
  have hdrop : rest.dropWhile isPartChar = rest := by
    have := List.takeWhile_append_dropWhile (p := isPartChar) (l := rest)
    rwa [htake, List.nil_append] at this
  refine ⟨?_, ?_⟩
  · rw [List.takeWhile_append_of_pos hc.2, htake, List.append_nil]
  · unfold afterPart
    rw [List.dropWhile_append_of_pos hc.2, hdrop]
    rcases hrest with rfl | h
    · rfl
    · simp only [if_pos h]

/-- **The components of a joined path are those joined.** -/
theorem components_joinPath : ∀ (cs : List Cstring) (trailing : Bool) (fuel : ℕ),
    (∀ c ∈ cs, IsComponent c) → cs.length < fuel → components fuel (joinPath trailing cs) = cs
  | [], trailing, fuel + 1, _, _ => by
    have htake : (joinPath trailing []).takeWhile isPartChar = [] := by
      cases trailing <;> rfl
    rw [components, if_pos htake]
  | [c], trailing, fuel + 1, h, hlt => by
    obtain ⟨htake, hafter⟩ := cut_component (if trailing then [slash] else [])
      (h c (List.mem_singleton_self c)) (by cases trailing <;> simp [slash])
    have hend : (if trailing then [slash] else ([] : Cstring)).drop 1 = joinPath false [] := by
      cases trailing <;> rfl
    rw [joinPath, components, htake, if_neg (h c (List.mem_singleton_self c)).1, hafter, hend,
      components_joinPath [] false fuel (fun _ hc => absurd hc List.not_mem_nil)
        (Nat.lt_of_succ_lt_succ hlt)]
  | c :: c' :: cs, trailing, fuel + 1, h, hlt => by
    obtain ⟨htake, hafter⟩ := cut_component
      (slash :: joinPath trailing (c' :: cs)) (h c (List.mem_cons_self ..)) (Or.inr rfl)
    rw [joinPath, components, htake, if_neg (h c (List.mem_cons_self ..)).1, hafter, List.drop_one,
      List.tail_cons, components_joinPath (c' :: cs) trailing fuel
        (fun d hd => h d (List.mem_cons_of_mem _ hd)) (Nat.lt_of_succ_lt_succ hlt)]
    · exact List.cons_ne_nil _ _

/-! ## One part -/

/-- A part that is in the heap. -/
structure HasPart (s : FsState) (p : Word) (part : PathPart) : Prop where
  ne_zero : p ≠ 0
  object : s.objects p = some (.pathPart part)
  owns : s.store.heap.Owns p 1

variable {b : Word} {t : Store}

/-- The end of a path: the string is freed again. -/
theorem pathparserExtractPathPart_nil
    (hz : inStore (kernelZalloc (BitVec.ofNat 32 osMaxPath)) s = .ok (b, s'))
    (h : path.takeWhile isPartChar = []) :
    pathparserExtractPathPart path s = .ok ((0, [], afterPart path), { s' with store :=
      { s'.store with heap := s'.store.heap.write (heapFree s'.store.heap b) } }) := by
  refine Fallible.run_bind.2 ⟨b, s', hz, ?_⟩
  rw [h]
  rfl

/-- A part's string is made. -/
theorem pathparserExtractPathPart_cons
    (hz : inStore (kernelZalloc (BitVec.ofNat 32 osMaxPath)) s = .ok (b, s')) (h0 : b ≠ 0)
    (h : path.takeWhile isPartChar ≠ []) (hlen : path.length ≤ osMaxPath) :
    pathparserExtractPathPart path s =
      .ok ((b, path.takeWhile isPartChar, afterPart path), s') := by
  have hle : (path.takeWhile isPartChar).length ≤ path.length := (List.takeWhile_prefix _).length_le
  refine Fallible.run_bind.2 ⟨b, s', hz, ?_⟩
  rw [if_neg h, if_neg h0, if_neg (by omega)]
  rfl

/-- **The end of a path**: nothing is built. -/
theorem pathparserParsePathPart_nil (last : Word) (r : s.store.heap.Ready)
    (h : path.takeWhile isPartChar = []) :
    ∃ rest t, pathparserParsePathPart last path s = .ok ((0, rest), { s with store := t }) := by
  obtain ⟨b, t, hz⟩ := exists_inStore_kernelZalloc (BitVec.ofNat 32 osMaxPath) r (by decide)
    (by decide)
  exact ⟨_, _, Fallible.run_bind.2 ⟨_, _, pathparserExtractPathPart_nil hz h, rfl⟩⟩

/-- **A part is built, and the last one linked to it.** -/
theorem pathparserParsePathPart_cons (r : s.store.heap.Ready)
    (hfree : 2 ≤ s.store.heap.freeBlocks) (h : path.takeWhile isPartChar ≠ [])
    (hlen : path.length ≤ osMaxPath) :
    ∃ p b t, p ≠ 0 ∧ s.store.Extends t ∧ t.heap.Owns p 1 ∧ s.store.heap.Fresh p ∧
      t.heap.freeBlocks + 2 = s.store.heap.freeBlocks ∧
      ∀ s₁ : FsState, s₁ = ({ s with store := t } : FsState).setObject p
        (some (.pathPart ⟨b, path.takeWhile isPartChar, 0⟩)) →
      pathparserParsePathPart 0 path s = .ok ((p, afterPart path), s₁) ∧
      ∀ last part, HasPart s last part → pathparserParsePathPart last path s =
        .ok ((p, afterPart path), s₁.setObject last (some (.pathPart { part with next := p }))) := by
  obtain ⟨b, t₁, hz₁, hb, hext₁, -, -, hcount₁⟩ := inStore_kernelZalloc_of_free
    (BitVec.ofNat 32 osMaxPath) r (by decide) (by decide) (by omega)
  obtain ⟨p, t₂, hz₂, hp, hext₂, hown₂, hfresh₂, hcount₂⟩ := inStore_kernelZalloc_of_free
    (s := { s with store := t₁ }) sizeofPathPart (hext₁.ready r) (by decide) (by decide)
    (by change 0 < t₁.heap.freeBlocks; omega)
  refine ⟨p, b, t₂, hp, hext₁.trans hext₂, hown₂, hext₁.fresh hfresh₂, ?_, ?_⟩
  · change t₂.heap.freeBlocks + 1 = t₁.heap.freeBlocks at hcount₂
    omega
  rintro s₁ rfl
  have hextract := pathparserExtractPathPart_cons hz₁ hb h hlen
  refine ⟨?_, fun last part hlast => ?_⟩
  · refine Fallible.run_bind.2 ⟨_, _, hextract, ?_⟩
    simp only [if_neg hb]
    refine Fallible.run_bind.2 ⟨p, _, hz₂, ?_⟩
    exact Fallible.run_seq.2 ⟨_, run_writeObject.2 ⟨hp, rfl⟩, rfl⟩
  · have hne : last ≠ p := fun he => hext₁.fresh hfresh₂ 1 (he ▸ hlast.owns)
    refine Fallible.run_bind.2 ⟨_, _, hextract, ?_⟩
    simp only [if_neg hb]
    refine Fallible.run_bind.2 ⟨p, _, hz₂, ?_⟩
    refine Fallible.run_seq.2 ⟨_, run_writeObject.2 ⟨hp, rfl⟩, ?_⟩
    rw [if_neg hlast.ne_zero]
    refine Fallible.run_bind.2 ⟨part, _, run_readObject.2 ⟨hlast.ne_zero, ?_, rfl⟩, ?_⟩
    · rw [setObject_objects_of_ne hne]
      change (s.objects last).bind _ = _
      rw [hlast.object]
      rfl
    · exact Fallible.run_seq.2 ⟨_, run_writeObject.2 ⟨hlast.ne_zero, rfl⟩, rfl⟩

/-! ## The loop -/

/-- **The loop links each part to the first**, so the last one stays
linked. -/
theorem pathparserParseLoop_spec : ∀ (fuel : ℕ) (path : Cstring) {s : FsState} {part : PathPart},
    s.store.heap.Ready → 2 * (components fuel path).length ≤ s.store.heap.freeBlocks →
    path.length < fuel → path.length ≤ osMaxPath → HasPart s first part →
    ∃ s' next, pathparserParseLoop first fuel path s = .ok (⟨⟩, s') ∧
      s'.objects first = some (.pathPart { part with next := next }) ∧
      (∀ q, q ≠ first → ¬ s.store.heap.Fresh q → s'.objects q = s.objects q) ∧
      ((components fuel path = [] ∧ next = part.next) ∨
        ∃ b text, (components fuel path).getLast? = some text ∧ next ≠ 0 ∧ next ≠ first ∧
          s'.objects next = some (.pathPart ⟨b, text, 0⟩))
  | 0, path, _, _, _, _, hlt, _, _ => absurd hlt (Nat.not_lt_zero _)
  | fuel + 1, path, s, part, r, hfree, hlt, hlen, hfirst => by
    by_cases h : path.takeWhile isPartChar = []
    · obtain ⟨rest, t, hrun⟩ := pathparserParsePathPart_nil first r h
      refine ⟨_, part.next, Fallible.run_bind.2 ⟨_, _, hrun, rfl⟩, hfirst.object,
        fun _ _ _ => rfl, Or.inl ⟨?_, rfl⟩⟩
      rw [components, if_pos h]
    · have hcut := length_afterPart_lt h
      rw [components, if_neg h, List.length_cons] at hfree
      obtain ⟨p, b, t, hp, hext, hown, hfresh, hcount, hrun⟩ :=
        pathparserParsePathPart_cons r (by omega) h hlen
      have hne : first ≠ p := fun he => hfresh 1 (he ▸ hfirst.owns)
      obtain ⟨-, hrun⟩ := hrun _ rfl
      have hrun := hrun first part hfirst
      obtain ⟨s', next, hloop, hobject, hframe, hnext⟩ := pathparserParseLoop_spec fuel
        (afterPart path) (s := (({ s with store := t } : FsState).setObject p
          (some (.pathPart ⟨b, path.takeWhile isPartChar, 0⟩))).setObject first
            (some (.pathPart { part with next := p })))
        (hext.ready r) (by change _ ≤ t.heap.freeBlocks; omega) (by omega) (by omega)
        ⟨hfirst.ne_zero, setObject_objects_self, hext.owns _ _ hfirst.owns⟩
      refine ⟨s', next, Fallible.run_bind.2 ⟨_, _, hrun, ?_⟩, hobject, fun q hq hlive => ?_, ?_⟩
      · simp only [if_neg hp]
        exact hloop
      · have hqp : q ≠ p := fun he => hlive (he ▸ hfresh)
        rw [hframe q hq fun hf => hlive (hext.fresh hf), setObject_objects_of_ne hq,
          setObject_objects_of_ne hqp]
      · rw [components, if_neg h]
        rcases hnext with ⟨hnil, hnext⟩ | ⟨b', text, hlast, h0, hself, hobj⟩
        · have hnp : next = p := hnext
          rw [hnp]
          refine Or.inr ⟨b, path.takeWhile isPartChar, by rw [hnil]; rfl, hp, hne.symm, ?_⟩
          rw [hframe p hne.symm fun hf => hf 1 hown, setObject_objects_of_ne hne.symm,
            setObject_objects_self]
        · refine Or.inr ⟨b', text, ?_, h0, hself, hobj⟩
          rw [List.getLast?_cons, hlast]
          rfl

/-- The part list from `p` on, through `next`. -/
inductive PartsFrom (s : FsState) : Word → List Cstring → Prop
  | nil : PartsFrom s 0 []
  | cons {p : Word} {part : PathPart} {cs : List Cstring} (h0 : p ≠ 0)
      (hp : s.objects p = some (.pathPart part)) (rest : PartsFrom s part.next cs) :
      PartsFrom s p (part.text :: cs)

/-- A pointer heads one list. -/
theorem PartsFrom.unique {cs' : List Cstring} (h : PartsFrom s p cs) (h' : PartsFrom s p cs') :
    cs = cs' := by
  induction h generalizing cs' with
  | nil =>
    cases h' with
    | nil => rfl
    | cons h0 => exact absurd rfl h0
  | cons h0 hp rest ih =>
    cases h' with
    | nil => exact absurd rfl h0
    | cons _ hp' rest' =>
      rw [hp] at hp'
      cases hp'
      rw [ih rest']

/-- The list the parser builds from the components found: the first and
the last. -/
def linkedParts : List Cstring → List Cstring
  | [] => []
  | c :: cs => c :: cs.getLast?.toList

/-- Only up to two components make the list of the components. -/
theorem linkedParts_eq_iff : linkedParts cs = cs ↔ cs.length ≤ 2 := by
  match cs with
  | [] => simp [linkedParts]
  | [c] => simp [linkedParts]
  | [c, c'] => simp [linkedParts]
  | c :: c' :: c'' :: cs =>
    refine ⟨fun h => ?_, fun h => absurd h (by simp only [List.length_cons]; omega)⟩
    have hlen := congrArg List.length h
    simp [linkedParts, List.getLast?_cons] at hlen

/-! ## The parser -/

/-- The parts the parser finds in a path. -/
def pathParts (path : Cstring) : List Cstring := components (path.length + 2) (path.drop 3)

/-- A path that is not of the form is not accepted. -/
theorem pathparserParse_of_not_accepted (h0 : 0 ∉ path) (h : ¬ AcceptedPath path) :
    pathparserParse path s = .ok (0, s) := by
  unfold pathparserParse
  rw [strlen_eq h0]
  by_cases hlen : path.length < osMaxPath
  · have hformat : ¬ pathparserPathValidFormat path = true := fun hf =>
      h ⟨hlen, (pathparserPathValidFormat_iff h0 hlen).1 hf⟩
    rw [if_neg (by omega)]
    unfold pathparserExtractDriveByPath
    rw [if_neg hformat]
    rfl
  · rw [if_pos (by omega)]
    rfl

/-- A digit's number is not an error code. -/
theorem toNumericDigit_nonneg {d : Byte} (h : isDigit d = true) : 0 ≤ toNumericDigit d := by
  have := (of_decide_eq_true h).1
  unfold toNumericDigit
  omega

/-- **What the parser builds from an accepted path**: the drive, and the
first and the last of the components. -/
theorem pathparserParse_of_accepted (path : Cstring) (r : s.store.heap.Ready)
    (hfree : 2 * (pathParts path).length < s.store.heap.freeBlocks) (h0 : 0 ∉ path)
    (h : AcceptedPath path) :
    ∃ root first s', pathparserParse path s = .ok (root, s') ∧ root ≠ 0 ∧
      s'.objects root = some (.pathRoot ⟨toNumericDigit (path.headD 0), first⟩) ∧
      PartsFrom s' first (linkedParts (pathParts path)) := by
  obtain ⟨hlen, hform⟩ := h
  unfold pathParts at hfree ⊢
  have hvalid := (pathparserPathValidFormat_iff h0 hlen).2 hform
  have hdigit : isDigit (path.headD 0) = true := by
    obtain ⟨d, rest, rfl, hd⟩ := hform
    exact hd
  have hnonneg := toNumericDigit_nonneg hdigit
  have hdrop : (path.drop 3).length ≤ path.length := by
    rw [List.length_drop]
    omega
  obtain ⟨root, t, hz, hroot, hext, hown, hfresh, hcount⟩ := inStore_kernelZalloc_of_free
    sizeofPathRoot r (by decide) (by decide) (by omega)
  -- the state with the root made
  obtain ⟨s₁, hs₁⟩ : ∃ s₁ : FsState, s₁ = ({ s with store := t } : FsState).setObject root
    (some (.pathRoot ⟨toNumericDigit (path.headD 0), 0⟩)) := ⟨_, rfl⟩
  have hcreate : pathparserCreateRoot (toNumericDigit (path.headD 0)) s = .ok (root, s₁) :=
    Fallible.run_bind.2 ⟨root, _, hz, Fallible.run_seq.2 ⟨_, run_writeObject.2 ⟨hroot, hs₁⟩, rfl⟩⟩
  have hobject : s₁.objects root = some (.pathRoot ⟨toNumericDigit (path.headD 0), 0⟩) := by
    rw [hs₁, setObject_objects_self]
  have hstore : s₁.store = t := by rw [hs₁]; rfl
  have hown₁ : s₁.store.heap.Owns root 1 := by rw [hstore]; exact hown
  rw [← hstore] at hcount
  have hready : s₁.store.heap.Ready := by rw [hstore]; exact hext.ready r
  -- what is left to run
  have hrun : ∀ {a : Word} {s' : FsState}, (do
      let r ← pathparserParsePathPart 0 (path.drop 3)
      if r.1 = 0 then pure root
      else do
        let x ← readObject FsObject.asPathRoot root
        writeObject root (.pathRoot { x with first := r.1 })
        pathparserParseLoop r.1 (path.length + 1) r.2
        pure root : FsM Word) s₁ = .ok (a, s') → pathparserParse path s = .ok (a, s') := by
    intro a s' hrest
    unfold pathparserParse pathparserExtractDriveByPath
    rw [strlen_eq h0, if_neg (by omega), if_pos hvalid]
    simp only
    rw [if_neg (by omega)]
    exact Fallible.run_bind.2 ⟨root, s₁, hcreate, hrest⟩
  by_cases hend : (path.drop 3).takeWhile isPartChar = []
  · obtain ⟨rest, t', hpart⟩ := pathparserParsePathPart_nil 0 hready hend
    refine ⟨root, 0, _, hrun (Fallible.run_bind.2 ⟨_, _, hpart, rfl⟩), hroot, hobject, ?_⟩
    rw [components, if_pos hend]
    exact .nil
  · have hcut := length_afterPart_lt hend
    rw [components, if_neg hend, List.length_cons] at hfree
    obtain ⟨p, b, t', hp, hext', hown', hfresh', hcount', hpart⟩ :=
      pathparserParsePathPart_cons hready (by omega) hend (by omega)
    obtain ⟨hpart, -⟩ := hpart _ rfl
    have hne : root ≠ p := fun he => hfresh' 1 (he ▸ hown₁)
    -- the state with the first part made and the root linked to it
    obtain ⟨s₂, hs₂⟩ : ∃ s₂ : FsState, s₂ = (({ s₁ with store := t' } : FsState).setObject p
      (some (.pathPart ⟨b, (path.drop 3).takeWhile isPartChar, 0⟩))).setObject root
        (some (.pathRoot ⟨toNumericDigit (path.headD 0), p⟩)) := ⟨_, rfl⟩
    have hstore₂ : s₂.store = t' := by rw [hs₂]; rfl
    have hfirst : HasPart s₂ p ⟨b, (path.drop 3).takeWhile isPartChar, 0⟩ :=
      ⟨hp, by rw [hs₂, setObject_objects_of_ne hne.symm, setObject_objects_self],
        by rw [hstore₂]; exact hown'⟩
    obtain ⟨s', next, hloop, hfirst', hframe, hnext⟩ := pathparserParseLoop_spec
      (path.length + 1) (afterPart (path.drop 3)) (by rw [hstore₂]; exact hext'.ready hready)
      (by rw [hstore₂]; omega) (by omega) (by omega) hfirst
    refine ⟨root, p, s', hrun (Fallible.run_bind.2 ⟨_, _, hpart, ?_⟩), hroot, ?_, ?_⟩
    · simp only [if_neg hp]
      refine Fallible.run_bind.2 ⟨⟨toNumericDigit (path.headD 0), 0⟩, _,
        run_readObject.2 ⟨hroot, ?_, rfl⟩, ?_⟩
      · rw [setObject_objects_of_ne hne]
        change (s₁.objects root).bind _ = _
        rw [hobject]
        rfl
      · refine Fallible.run_seq.2 ⟨s₂, run_writeObject.2 ⟨hroot, hs₂⟩, ?_⟩
        exact Fallible.run_seq.2 ⟨s', hloop, rfl⟩
    · have hlive : ¬ s₂.store.heap.Fresh root := fun hf =>
        hf 1 (by rw [hstore₂]; exact hext'.owns _ _ hown₁)
      rw [hframe root hne hlive, hs₂, setObject_objects_self]
    · rw [components, if_neg hend, linkedParts]
      refine .cons hp hfirst' ?_
      rcases hnext with ⟨hnil, hzero⟩ | ⟨b', text, hlast, hnext, -, hobj⟩
      · rw [hnil, hzero]
        exact .nil
      · rw [hlast]
        exact .cons hnext hobj .nil

/-- A path of components on a drive. -/
structure ComponentPath (path : Cstring) (d : Byte) (cs : List Cstring) : Prop where
  digit : isDigit d = true
  components : ∀ c ∈ cs, IsComponent c
  eq : ∃ trailing, path = d :: colon :: slash :: joinPath trailing cs

/-- The parser's result says what the path does: its drive and its
components in order. -/
def ParsedAs (s : FsState) (root : Word) (d : Byte) (cs : List Cstring) : Prop :=
  ∃ first, s.objects root = some (.pathRoot ⟨toNumericDigit d, first⟩) ∧ PartsFrom s first cs

theorem length_le_joinPath : ∀ (cs : List Cstring) (trailing : Bool),
    (∀ c ∈ cs, IsComponent c) → cs.length ≤ (joinPath trailing cs).length
  | [], _, _ => Nat.zero_le _
  | [c], trailing, h => by
    have := List.length_pos_iff.2 (h c (List.mem_singleton_self c)).1
    simp only [joinPath, List.length_append, List.length_cons, List.length_nil]
    omega
  | c :: c' :: cs, trailing, h => by
    have := length_le_joinPath (c' :: cs) trailing fun d hd => h d (List.mem_cons_of_mem _ hd)
    simp only [joinPath, List.length_append, List.length_cons] at this ⊢
    omega

/-- The parser finds the components of a path. -/
theorem ComponentPath.pathParts_eq {d : Byte} (h : ComponentPath path d cs) : pathParts path = cs := by
  obtain ⟨-, hcs, trailing, rfl⟩ := h
  have hlt : cs.length < (d :: colon :: slash :: joinPath trailing cs).length + 2 := by
    have := length_le_joinPath cs trailing hcs
    simp only [List.length_cons]
    omega
  exact components_joinPath cs trailing _ hcs hlt

/-- **What the path parser gets right.** With a free block for the root and
two for each part, a path is accepted exactly when it has fewer than 108
characters and begins with a digit, a colon and a slash; and an accepted
path of components is parsed as these components exactly when there are at
most two. -/
theorem pathparserParse_iff (r : s.store.heap.Ready) (h0 : 0 ∉ path)
    (hfree : AcceptedPath path → 2 * (pathParts path).length < s.store.heap.freeBlocks) :
    ∃ root s', pathparserParse path s = .ok (root, s') ∧ (root ≠ 0 ↔ AcceptedPath path) ∧
      ∀ d cs, ComponentPath path d cs → path.length < osMaxPath →
        (ParsedAs s' root d cs ↔ cs.length ≤ 2) := by
  by_cases h : AcceptedPath path
  · obtain ⟨root, first, s', hrun, hroot, hobject, hparts⟩ := pathparserParse_of_accepted path r
      (hfree h) h0 h
    refine ⟨root, s', hrun, ⟨fun _ => h, fun _ => hroot⟩, ?_⟩
    rintro d cs hpath -
    have hheadD : path.headD 0 = d := by
      obtain ⟨-, -, trailing, rfl⟩ := hpath
      rfl
    rw [hheadD] at hobject
    rw [hpath.pathParts_eq] at hparts
    rw [← linkedParts_eq_iff]
    constructor
    · rintro ⟨first', hobject', hparts'⟩
      rw [hobject] at hobject'
      cases hobject'
      exact hparts.unique hparts'
    · intro heq
      exact ⟨first, hobject, heq ▸ hparts⟩
  · refine ⟨0, s, pathparserParse_of_not_accepted h0 h,
      ⟨fun hne => absurd rfl hne, fun ha => absurd ha h⟩, ?_⟩
    rintro d cs ⟨hd, -, trailing, rfl⟩ hlen
    exact absurd ⟨hlen, d, _, rfl, hd⟩ h

/-! ## At the start -/

/-- The file layer as it is at the start: an empty heap and no object. -/
def bootFs : FsState where
  store := ⟨kernelHeapInit, fun _ => 0⟩
  objects _ := none
  disk := ⟨none, none⟩
  fileDescriptors _ := 0

/-- `"0:/a/b"`, parsed as its two components. -/
theorem pathparserParse_iff_two_components : ∃ root s',
    pathparserParse [0x30, 0x3A, 0x2F, 0x61, 0x2F, 0x62] bootFs = .ok (root, s') ∧
      (root ≠ 0 ↔ AcceptedPath [0x30, 0x3A, 0x2F, 0x61, 0x2F, 0x62]) ∧
      ∀ d cs, ComponentPath [0x30, 0x3A, 0x2F, 0x61, 0x2F, 0x62] d cs →
        [0x30, 0x3A, 0x2F, 0x61, 0x2F, 0x62].length < osMaxPath →
          (ParsedAs s' root d cs ↔ cs.length ≤ 2) :=
  pathparserParse_iff ready_kernelHeapInit (by decide) fun _ => by
    change 4 < kernelHeapInit.freeBlocks
    rw [freeBlocks_kernelHeapInit]
    decide

/-- **A path that is parsed wrong**: of `"0:/a/b/c"` the parser keeps `a`
and `c`. -/
theorem pathparserParse_drops_component : ¬ ∀ (s : FsState) (path : Cstring),
    s.store.heap.Ready → 0 ∉ path →
      (AcceptedPath path → 2 * (pathParts path).length < s.store.heap.freeBlocks) →
      ∃ root s', pathparserParse path s = .ok (root, s') ∧ (root ≠ 0 ↔ AcceptedPath path) ∧
        ∀ d cs, ComponentPath path d cs → path.length < osMaxPath → ParsedAs s' root d cs := by
  intro h
  have hcs : ∀ c ∈ [[(0x61 : Byte)], [0x62], [0x63]], IsComponent c := by
    unfold IsComponent
    decide
  have hpath : (0x30 :: colon :: slash :: joinPath false [[0x61], [0x62], [0x63]] : Cstring) =
      [0x30, 0x3A, 0x2F, 0x61, 0x2F, 0x62, 0x2F, 0x63] := rfl
  have haccepted : AcceptedPath [0x30, 0x3A, 0x2F, 0x61, 0x2F, 0x62, 0x2F, 0x63] :=
    ⟨by decide, 0x30, _, rfl, by decide⟩
  have hfree : 2 * (pathParts [0x30, 0x3A, 0x2F, 0x61, 0x2F, 0x62, 0x2F, 0x63]).length <
      bootFs.store.heap.freeBlocks := by
    change 6 < kernelHeapInit.freeBlocks
    rw [freeBlocks_kernelHeapInit]
    decide
  obtain ⟨root, s', hrun, -, hparsed⟩ := h bootFs [0x30, 0x3A, 0x2F, 0x61, 0x2F, 0x62, 0x2F, 0x63]
    ready_kernelHeapInit (by decide) fun _ => hfree
  obtain ⟨first', hobject', hparts'⟩ :=
    hparsed 0x30 [[0x61], [0x62], [0x63]] ⟨by decide, hcs, false, hpath.symm⟩ (by decide)
  obtain ⟨root₁, first, s₁, hrun₁, -, hobject, hparts⟩ := pathparserParse_of_accepted
    (s := bootFs) [0x30, 0x3A, 0x2F, 0x61, 0x2F, 0x62, 0x2F, 0x63] ready_kernelHeapInit hfree
    (by decide) haccepted
  rw [hrun] at hrun₁
  cases hrun₁
  rw [hobject] at hobject'
  cases hobject'
  exact absurd (hparts.unique hparts') (by decide)

end OwnKernel
