import Mathlib.Data.List.TakeWhile
import OwnKernel.Model.Fat16Files

/-!
# The names of records

A record begins with eight bytes of name and three of extension, each
padded with blanks (`ShortName`). `fat16_to_proper_string` copies up to
the first blank or terminator, wherever that is: a field without padding
is copied together with what is behind it.
`fat16GetFullRelativeFilename_iff` says when the name comes out, and when
it is read off the eleven bytes alone.
-/

namespace OwnKernel

variable {bytes rest chars : List Byte} {room maxLen : ℕ} {c attributes : Byte}

/-! ## Copying up to a blank -/

/-- The characters that are copied of what memory holds. -/
abbrev nameChars (bytes : List Byte) : Cstring := bytes.takeWhile isNameChar

/-- A byte the copy stops at is among `bytes`. -/
def Stops (bytes : List Byte) : Prop := ∃ c ∈ bytes, isNameChar c = false

theorem isNameChar_iff : isNameChar c = true ↔ c ≠ 0x00 ∧ c ≠ 0x20 := by
  unfold isNameChar
  exact decide_eq_true_iff

/-- Characters with a stop behind them are what is copied. -/
theorem nameChars_append (h : ∀ b ∈ chars, isNameChar b = true) (hc : isNameChar c = false) :
    nameChars (chars ++ c :: rest) = chars := by
  unfold nameChars
  rw [List.takeWhile_append_of_pos h, List.takeWhile_cons_of_neg (by simp [hc]), List.append_nil]

/-- What is copied behind characters. -/
theorem nameChars_append_of_chars (h : ∀ b ∈ chars, isNameChar b = true) :
    nameChars (chars ++ rest) = chars ++ nameChars rest :=
  List.takeWhile_append_of_pos h

/-- A stop hides what is behind it. -/
theorem nameChars_append_of_stops (h : Stops bytes) : nameChars (bytes ++ rest) = nameChars bytes := by
  unfold nameChars
  rw [List.takeWhile_append, if_neg]
  intro hall
  obtain ⟨c, hmem, hc⟩ := h
  rw [(List.takeWhile_prefix isNameChar).eq_of_length hall |>.symm] at hmem
  exact absurd (List.mem_takeWhile_imp hmem) (by simp [hc])

theorem length_nameChars_le (bytes : List Byte) : (nameChars bytes).length ≤ bytes.length :=
  (List.takeWhile_prefix isNameChar).length_le

/-- What is copied of a stretch is copied of a longer one. -/
theorem length_nameChars_le_append (bytes rest : List Byte) :
    (nameChars bytes).length ≤ (nameChars (bytes ++ rest)).length := by
  unfold nameChars
  rw [List.takeWhile_append]
  split
  · rename_i hall
    rw [hall, List.length_append]
    exact Nat.le_add_right _ _
  · exact le_rfl

/-- A terminator behind a stretch adds nothing to it. -/
theorem nameChars_append_zero : nameChars (bytes ++ [0x00]) = nameChars bytes := by
  unfold nameChars
  rw [List.takeWhile_append]
  split
  · rename_i hall
    rw [List.takeWhile_cons_of_neg (by decide), List.append_nil,
      (List.takeWhile_prefix isNameChar).eq_of_length hall]
  · rfl

theorem Stops.append (h : Stops bytes) : Stops (bytes ++ rest) := by
  obtain ⟨c, hmem, hc⟩ := h
  exact ⟨c, List.mem_append_left _ hmem, hc⟩

/-- What is copied has no terminator in it. -/
theorem zero_notMem_nameChars : (0x00 : Byte) ∉ nameChars bytes := fun h =>
  absurd (List.mem_takeWhile_imp h) (by decide)

/-- A string that was copied is the characters up to a stop. -/
theorem eq_nameChars_of_fat16ToProperString (h : fat16ToProperString room bytes = .ok chars) :
    chars = nameChars bytes := by
  unfold fat16ToProperString at h
  simp only at h
  split at h
  · cases h
  · split at h
    · cases h
    · exact (Except.ok.inj h).symm

/-- **`fat16_to_proper_string` with room.** -/
theorem fat16ToProperString_eq (h : Stops bytes) (hroom : (nameChars bytes).length < room) :
    fat16ToProperString room bytes = .ok (nameChars bytes) := by
  unfold fat16ToProperString
  simp only
  split
  · rename_i hnil
    obtain ⟨c, hmem, hc⟩ := h
    exact absurd (List.dropWhile_eq_nil_iff.1 hnil c hmem) (by simp [hc])
  · have hlt : (bytes.takeWhile isNameChar).length < room := hroom
    rw [if_neg (by omega)]

/-! ## The name of a record -/

/-- **`fat16_get_full_relative_filename` with room.** -/
theorem fat16GetFullRelativeFilename_eq (h : Stops (bytes.drop 8))
    (hroom : (nameChars bytes).length + (nameChars (bytes.drop 8)).length + 1 < maxLen) :
    fat16GetFullRelativeFilename bytes maxLen =
      .ok (if isNameChar ((bytes.drop 8).headD 0) then
        nameChars bytes ++ 0x2E :: nameChars (bytes.drop 8) else nameChars bytes) := by
  have hstops : Stops bytes := by
    obtain ⟨c, hmem, hc⟩ := h
    exact ⟨c, List.mem_of_mem_drop hmem, hc⟩
  unfold fat16GetFullRelativeFilename
  rw [fat16ToProperString_eq hstops (by omega)]
  simp only [bind, Except.bind]
  by_cases hext : isNameChar ((bytes.drop 8).headD 0) = true
  · rw [if_pos (isNameChar_iff.1 hext), if_neg (by omega), fat16ToProperString_eq h (by omega),
      if_pos hext]
    rfl
  · rw [if_neg (mt isNameChar_iff.2 hext), if_neg hext]
    rfl

/-- A name that came out is made of what the two copies copied. -/
theorem of_fat16GetFullRelativeFilename (h : fat16GetFullRelativeFilename bytes maxLen = .ok chars) :
    chars = if isNameChar ((bytes.drop 8).headD 0) then
      nameChars bytes ++ 0x2E :: nameChars (bytes.drop 8) else nameChars bytes := by
  unfold fat16GetFullRelativeFilename at h
  cases hname : fat16ToProperString maxLen bytes with
  | error e =>
    rw [hname] at h
    cases h
  | ok name =>
    rw [hname] at h
    simp only [bind, Except.bind] at h
    rw [← eq_nameChars_of_fat16ToProperString hname]
    by_cases hext : isNameChar ((bytes.drop 8).headD 0) = true
    · rw [if_pos (isNameChar_iff.1 hext)] at h
      rw [if_pos hext]
      split at h
      · cases h
      · cases he : fat16ToProperString (maxLen - (name.length + 1)) (bytes.drop 8) with
        | error e =>
          rw [he] at h
          cases h
        | ok ext =>
          rw [he] at h
          rw [← eq_nameChars_of_fat16ToProperString he]
          exact (Except.ok.inj h).symm
    · rw [if_neg (mt isNameChar_iff.2 hext)] at h
      rw [if_neg hext]
      exact (Except.ok.inj h).symm

/-! ## Short names -/

/-- **The name of a record**: up to eight bytes and an extension of up to
three, without blanks. -/
structure ShortName where
  name : List Byte
  ext : List Byte
  name_ne_nil : name ≠ []
  name_le : name.length ≤ 8
  ext_le : ext.length ≤ 3
  name_blank : 0x20 ∉ name
  ext_blank : 0x20 ∉ ext

namespace ShortName

variable (s : ShortName)

/-- The three bytes of the extension. -/
def extField : List Byte := s.ext ++ List.replicate (3 - s.ext.length) 0x20

/-- The eleven bytes a record begins with. -/
def field : List Byte := s.name ++ (List.replicate (8 - s.name.length) 0x20 ++ s.extField)

/-- The name as it is written. -/
def text : Cstring := if s.ext = [] then s.name else s.name ++ 0x2E :: s.ext

theorem length_extField : s.extField.length = 3 := by
  have hle := s.ext_le
  unfold extField
  rw [List.length_append, List.length_replicate]
  omega

theorem length_field : s.field.length = 11 := by
  have hle := s.name_le
  unfold field
  rw [List.length_append, List.length_append, List.length_replicate, s.length_extField]
  omega

theorem drop_field (rest : List Byte) : (s.field ++ rest).drop 8 = s.extField ++ rest := by
  have hle := s.name_le
  unfold field
  rw [← List.append_assoc, List.append_assoc, List.drop_left' (by simp; omega)]

/-- Without a terminator in them, the bytes are characters. -/
theorem name_chars (h : 0x00 ∉ s.name) : ∀ b ∈ s.name, isNameChar b = true := fun _ hb =>
  isNameChar_iff.2 ⟨fun h0 => h (h0 ▸ hb), fun hblank => s.name_blank (hblank ▸ hb)⟩

theorem ext_chars (h : 0x00 ∉ s.ext) : ∀ b ∈ s.ext, isNameChar b = true := fun _ hb =>
  isNameChar_iff.2 ⟨fun h0 => h (h0 ▸ hb), fun hblank => s.ext_blank (hblank ▸ hb)⟩

/-- A blank of padding stops the copy. -/
theorem stops_extField (h : s.ext.length < 3 ∨ 0x00 ∈ s.ext) : Stops s.extField := by
  rcases h with hlt | hmem
  · exact ⟨0x20, List.mem_append_right _ (List.mem_replicate.2 ⟨by omega, rfl⟩), by decide⟩
  · exact ⟨0x00, List.mem_append_left _ hmem, by decide⟩

/-- What is copied from the extension's field on. -/
theorem nameChars_extField (h : 0x00 ∉ s.ext) (hstop : s.ext.length < 3 ∨ isNameChar attributes = false)
    (rest : List Byte) : nameChars (s.extField ++ attributes :: rest) = s.ext := by
  have hle := s.ext_le
  unfold extField
  by_cases hlt : s.ext.length < 3
  · obtain ⟨k, hk⟩ : ∃ k, 3 - s.ext.length = k + 1 := ⟨2 - s.ext.length, by omega⟩
    rw [hk, List.replicate_succ, List.append_assoc, List.cons_append,
      nameChars_append (s.ext_chars h) (by decide)]
  · rw [show 3 - s.ext.length = 0 by omega, List.replicate_zero, List.append_nil,
      nameChars_append (s.ext_chars h) (hstop.resolve_left hlt)]

/-- What is copied from the name's field on, when its padding or that of
an empty extension follows. -/
theorem nameChars_field (h : 0x00 ∉ s.name) (hfull : s.name.length = 8 → s.ext = [])
    (rest : List Byte) : nameChars (s.field ++ rest) = s.name := by
  have hle := s.name_le
  unfold field
  by_cases hlt : s.name.length < 8
  · obtain ⟨k, hk⟩ : ∃ k, 8 - s.name.length = k + 1 := ⟨7 - s.name.length, by omega⟩
    rw [hk, List.replicate_succ, List.append_assoc, List.cons_append, List.cons_append,
      nameChars_append (s.name_chars h) (by decide)]
  · have hext : s.extField = [0x20, 0x20, 0x20] := by
      unfold extField
      rw [hfull (by omega)]
      rfl
    rw [show 8 - s.name.length = 0 by omega, List.replicate_zero, List.nil_append, hext,
      List.append_assoc, List.cons_append, nameChars_append (s.name_chars h) (by decide)]

/-- **The name's fields end where they should**: no terminator is in them,
a full name has no extension behind it, and a full extension has a byte
behind it that stops the copy. -/
structure Ends (s : ShortName) (attributes : Byte) : Prop where
  name : 0x00 ∉ s.name
  ext : 0x00 ∉ s.ext
  full_name : s.name.length = 8 → s.ext = []
  full_ext : s.ext.length = 3 → attributes = 0x00 ∨ attributes = 0x20

variable {s : ShortName}

theorem not_isNameChar_iff : isNameChar c = false ↔ c = 0x00 ∨ c = 0x20 := by
  rw [← Bool.not_eq_true, isNameChar_iff, not_and_or, not_not, not_not]

/-- The first byte of the extension. -/
theorem headD_extField (h : s.ext ≠ []) (rest : List Byte) :
    (s.extField ++ rest).headD 0 ∈ s.ext := by
  unfold extField
  cases hext : s.ext with
  | nil => exact absurd hext h
  | cons e es => exact List.mem_cons_self

/-- The first byte of an empty extension. -/
theorem headD_extField_nil (h : s.ext = []) (rest : List Byte) :
    (s.extField ++ rest).headD 0 = 0x20 := by
  unfold extField
  rw [h]
  rfl

/-- **Where the fields end as they should, the name comes out.** -/
theorem Ends.fat16GetFullRelativeFilename_eq (h : s.Ends attributes) (rest : List Byte) :
    fat16GetFullRelativeFilename (s.field ++ attributes :: rest) osMaxPath = .ok s.text := by
  have hstop : s.ext.length < 3 ∨ isNameChar attributes = false := by
    rcases Nat.lt_or_ge s.ext.length 3 with hlt | hge
    · exact Or.inl hlt
    · exact Or.inr (not_isNameChar_iff.2 (h.full_ext (le_antisymm s.ext_le hge)))
  have hname := s.nameChars_field h.name h.full_name (attributes :: rest)
  have hext := s.nameChars_extField h.ext hstop rest
  have hstops : Stops (s.extField ++ attributes :: rest) := by
    rcases hstop with hlt | hc
    · exact (s.stops_extField (Or.inl hlt)).append
    · exact ⟨attributes, by simp, hc⟩
  have hlen := s.name_le
  have hlen' := s.ext_le
  rw [← s.drop_field] at hext hstops
  rw [OwnKernel.fat16GetFullRelativeFilename_eq hstops (by rw [hname, hext]; unfold osMaxPath; omega),
    hname, hext, s.drop_field]
  unfold text
  by_cases hnil : s.ext = []
  · rw [headD_extField_nil hnil, if_neg (by decide), if_pos hnil]
  · rw [if_pos (s.ext_chars h.ext _ (headD_extField hnil _)), if_neg hnil]

/-- **A name of the right length** is one whose fields end as they
should. -/
theorem ends_of_length (hname : 0x00 ∉ s.name) (hext : 0x00 ∉ s.ext) {chars : Cstring}
    (h : fat16GetFullRelativeFilename (s.field ++ attributes :: rest) maxLen = .ok chars)
    (hlen : chars.length = s.text.length) : s.Ends attributes := by
  have hchars := of_fat16GetFullRelativeFilename h
  rw [s.drop_field] at hchars
  unfold text at hlen
  by_cases hnil : s.ext = []
  · refine ⟨hname, hext, fun _ => hnil, ?_⟩
    rw [hnil]
    intro hfull
    cases hfull
  -- the two copies begin with the two fields, and nothing follows
  have hcopy : nameChars (s.field ++ attributes :: rest) = s.name ++
      nameChars (List.replicate (8 - s.name.length) 0x20 ++ s.extField ++ attributes :: rest) := by
    unfold field
    rw [List.append_assoc, nameChars_append_of_chars (s.name_chars hname)]
  have hcopy' : nameChars (s.extField ++ attributes :: rest) = s.ext ++
      nameChars (List.replicate (3 - s.ext.length) 0x20 ++ attributes :: rest) := by
    unfold extField
    rw [List.append_assoc, nameChars_append_of_chars (s.ext_chars hext)]
  rw [if_pos (s.ext_chars hext _ (headD_extField hnil _)), hcopy, hcopy'] at hchars
  rw [if_neg hnil, hchars] at hlen
  simp only [List.length_append, List.length_cons] at hlen
  refine ⟨hname, hext, fun hfull => ?_, fun hfull => ?_⟩
  · have hrun : nameChars (List.replicate (8 - s.name.length) 0x20 ++ s.extField ++
        attributes :: rest) = s.ext ++
          nameChars (List.replicate (3 - s.ext.length) 0x20 ++ attributes :: rest) := by
      rw [hfull]
      exact hcopy'
    rw [hrun, List.length_append] at hlen
    exact List.length_eq_zero_iff.1 (by omega)
  · rw [← not_isNameChar_iff, ← Bool.not_eq_true]
    intro hc
    have hrun : nameChars (List.replicate (3 - s.ext.length) 0x20 ++ attributes :: rest) =
        attributes :: nameChars rest := by
      rw [hfull]
      exact List.takeWhile_cons_of_pos hc
    rw [hrun, List.length_cons] at hlen
    omega

/-- No terminator is in a name that comes out. -/
theorem zero_notMem_of_fat16GetFullRelativeFilename {chars : Cstring}
    (h : fat16GetFullRelativeFilename bytes maxLen = .ok chars) : 0x00 ∉ chars := by
  rw [of_fat16GetFullRelativeFilename h]
  intro hmem
  split at hmem
  · rcases List.mem_append.1 hmem with hmem | hmem
    · exact zero_notMem_nameChars hmem
    · rcases List.mem_cons.1 hmem with hdot | hmem
      · exact absurd hdot (by decide)
      · exact zero_notMem_nameChars hmem
  · exact zero_notMem_nameChars hmem

/-- Nothing but the fields is in the name. -/
theorem zero_notMem_text (hname : 0x00 ∉ s.name) (hext : 0x00 ∉ s.ext) : 0x00 ∉ s.text := by
  unfold text
  split
  · exact hname
  · intro hmem
    rcases List.mem_append.1 hmem with hmem | hmem
    · exact hname hmem
    · rcases List.mem_cons.1 hmem with hdot | hmem
      · exact absurd hdot (by decide)
      · exact hext hmem

/-- The fields are in the name. -/
theorem zero_notMem_of_text (h : 0x00 ∉ s.text) : 0x00 ∉ s.name ∧ 0x00 ∉ s.ext := by
  unfold text at h
  by_cases hnil : s.ext = []
  · rw [if_pos hnil] at h
    exact ⟨h, by rw [hnil]; exact List.not_mem_nil⟩
  · rw [if_neg hnil] at h
    exact ⟨fun h0 => h (List.mem_append_left _ h0),
      fun h0 => h (List.mem_append_right _ (List.mem_cons_of_mem _ h0))⟩

/-- **A name that comes out** is one whose fields end as they should. -/
theorem ends_of_fat16GetFullRelativeFilename
    (h : fat16GetFullRelativeFilename (s.field ++ attributes :: rest) osMaxPath = .ok s.text) :
    s.Ends attributes := by
  obtain ⟨hname, hext⟩ := zero_notMem_of_text (zero_notMem_of_fat16GetFullRelativeFilename h)
  exact ends_of_length hname hext h rfl

/-! ### What the name is read off -/

/-- Of up to fifteen characters the name comes out whole. -/
theorem fat16GetFullRelativeFilename_field (hstops : Stops (s.extField ++ rest))
    (hrest : rest.length ≤ 2) : fat16GetFullRelativeFilename (s.field ++ rest) osMaxPath =
      .ok (if isNameChar ((s.extField ++ rest).headD 0) then
        nameChars (s.field ++ rest) ++ 0x2E :: nameChars (s.extField ++ rest)
          else nameChars (s.field ++ rest)) := by
  have hlen := length_nameChars_le (s.field ++ rest)
  have hlen' := length_nameChars_le (s.extField ++ rest)
  rw [List.length_append, s.length_field] at hlen
  rw [List.length_append, s.length_extField] at hlen'
  rw [← s.drop_field] at hstops hlen' ⊢
  exact OwnKernel.fat16GetFullRelativeFilename_eq hstops (by unfold osMaxPath; omega)

/-- A field with a stop in it is all that is read. -/
theorem fat16GetFullRelativeFilename_of_stops (h : Stops s.extField) (rest : List Byte) :
    fat16GetFullRelativeFilename (s.field ++ rest) osMaxPath =
      fat16GetFullRelativeFilename (s.field ++ []) osMaxPath := by
  have hfield : Stops s.field := by
    obtain ⟨c, hmem, hc⟩ := h
    exact ⟨c, List.mem_append_right _ (List.mem_append_right _ hmem), hc⟩
  have hname : nameChars (s.field ++ rest) = nameChars s.field := nameChars_append_of_stops hfield
  have hext : nameChars (s.extField ++ rest) = nameChars s.extField := nameChars_append_of_stops h
  have hhead : (s.extField ++ rest).headD 0 = s.extField.headD 0 := by
    have hlen := s.length_extField
    cases hcons : s.extField with
    | nil =>
      rw [hcons] at hlen
      cases hlen
    | cons e es => rfl
  have hlen := length_nameChars_le s.field
  have hlen' := length_nameChars_le s.extField
  rw [s.length_field] at hlen
  rw [s.length_extField] at hlen'
  rw [@fat16GetFullRelativeFilename_field [] s h.append (by decide),
    OwnKernel.fat16GetFullRelativeFilename_eq (by rw [s.drop_field]; exact h.append)
      (by rw [s.drop_field, hname, hext]; unfold osMaxPath; omega),
    s.drop_field, hname, hext, hhead, List.append_nil, List.append_nil]

/-- **A full extension is read together with the byte behind it.** -/
theorem fat16GetFullRelativeFilename_full (h0 : 0x00 ∉ s.ext) (hfull : s.ext.length = 3) :
    fat16GetFullRelativeFilename (s.field ++ [0x00]) osMaxPath ≠
      fat16GetFullRelativeFilename (s.field ++ [0x41, 0x00]) osMaxPath := by
  have hfield : s.extField = s.ext := by
    unfold extField
    rw [hfull]
    exact List.append_nil _
  have hne : s.ext ≠ [] := by
    rintro hnil
    rw [hnil] at hfull
    cases hfull
  have hname := length_nameChars_le_append s.field [0x41, 0x00]
  have hext : nameChars (s.extField ++ [0x41, 0x00]) = s.ext ++ [0x41] := by
    rw [hfield, nameChars_append_of_chars (s.ext_chars h0)]
    rfl
  rw [fat16GetFullRelativeFilename_field ⟨0x00, by simp, by decide⟩ (by decide),
    fat16GetFullRelativeFilename_field ⟨0x00, by simp, by decide⟩ (by decide),
    if_pos (s.ext_chars h0 _ (headD_extField hne _)),
    if_pos (s.ext_chars h0 _ (headD_extField hne _)), nameChars_append_zero,
    s.nameChars_extField h0 (Or.inr (by decide)), hext]
  intro h
  have hlen := congrArg List.length (Except.ok.inj h)
  simp only [List.length_append, List.length_cons, List.length_nil] at hlen
  omega

/-- **What `fat16_get_full_relative_filename` yields.** The name of a
record comes out exactly when its fields end as they should, and depends
on these alone exactly when a byte of the extension's field stops the
copy. -/
theorem fat16GetFullRelativeFilename_iff (s : ShortName) (attributes : Byte) (rest : List Byte) :
    (fat16GetFullRelativeFilename (s.field ++ attributes :: rest) osMaxPath = .ok s.text ↔
      s.Ends attributes) ∧
    ((∀ attributes' rest',
      fat16GetFullRelativeFilename (s.field ++ attributes' :: rest') osMaxPath =
        fat16GetFullRelativeFilename (s.field ++ attributes :: rest) osMaxPath) ↔
      s.ext.length < 3 ∨ 0x00 ∈ s.ext) := by
  refine ⟨⟨ends_of_fat16GetFullRelativeFilename, fun h => h.fat16GetFullRelativeFilename_eq rest⟩,
    fun h => ?_, fun h attributes' rest' => ?_⟩
  · by_contra hfull
    rw [not_or] at hfull
    exact fat16GetFullRelativeFilename_full hfull.2 (by have := s.ext_le; omega)
      ((h 0x00 []).trans (h 0x41 [0x00]).symm)
  · rw [fat16GetFullRelativeFilename_of_stops (s.stops_extField h),
      fat16GetFullRelativeFilename_of_stops (s.stops_extField h) (attributes :: rest)]

/-- A name that fills its fields, `ABCDEFGH.TXT`. -/
def abcdefghTxt : ShortName where
  name := [0x41, 0x42, 0x43, 0x44, 0x45, 0x46, 0x47, 0x48]
  ext := [0x54, 0x58, 0x54]
  name_ne_nil := by decide
  name_le := by decide
  ext_le := by decide
  name_blank := by decide
  ext_blank := by decide

/-- **It comes out as `ABCDEFGHTXT.TXT`**, where the attributes of an
archived file are taken for a blank. -/
theorem not_fat16GetFullRelativeFilename :
    ¬ ∀ (s : ShortName) (attributes : Byte) (rest : List Byte),
      fat16GetFullRelativeFilename (s.field ++ attributes :: rest) osMaxPath = .ok s.text ∧
        ∀ attributes' rest',
          fat16GetFullRelativeFilename (s.field ++ attributes' :: rest') osMaxPath =
            fat16GetFullRelativeFilename (s.field ++ attributes :: rest) osMaxPath := by
  intro h
  have hends := ends_of_fat16GetFullRelativeFilename (h abcdefghTxt 0x20 []).1
  exact absurd (hends.full_name (by decide)) (by decide)

end ShortName

end OwnKernel
