import Marginalia.Walk

/-! # Names along a path

The path of an entry is the path of its directory, a slash and a name. A name has
no slash in it and is no step to the directory itself or to the one above, so
the names along a path can be read back from it, and the last of them alone
decides whether a walk passes over the path.
-/

namespace Marginalia

namespace Path

/-- Bytes under which a directory can hold an entry. -/
structure IsName (name : Name) : Prop where
  nonempty : name ≠ []
  noSlash : slash ∉ name
  notHere : name ≠ [dot]
  notUp : name ≠ [dot, dot]

instance (name : Name) : Decidable (IsName name) :=
  decidable_of_iff (name ≠ [] ∧ slash ∉ name ∧ name ≠ [dot] ∧ name ≠ [dot, dot])
    ⟨fun ⟨h₁, h₂, h₃, h₄⟩ => ⟨h₁, h₂, h₃, h₄⟩, fun ⟨h₁, h₂, h₃, h₄⟩ => ⟨h₁, h₂, h₃, h₄⟩⟩

/-! ## Splitting and joining -/

@[simp] theorem split_nil : split [] = [[]] := rfl

theorem split_cons (byte : UInt8) (bytes : List UInt8) :
    split (byte :: bytes) =
      if byte = slash then [] :: split bytes
      else
        match split bytes with
        | [] => [[byte]]
        | piece :: rest => (byte :: piece) :: rest := rfl

@[simp] theorem split_slash (bytes : List UInt8) : split (slash :: bytes) = [] :: split bytes := by
  rw [split_cons, if_pos rfl]

theorem exists_split_eq_cons (bytes : List UInt8) : ∃ piece rest, split bytes = piece :: rest := by
  induction bytes with
  | nil => exact ⟨[], [], rfl⟩
  | cons byte bytes ih =>
      obtain ⟨piece, rest, hsplit⟩ := ih
      rw [split_cons, hsplit]
      by_cases hslash : byte = slash
      · exact ⟨[], piece :: rest, if_pos hslash⟩
      · exact ⟨byte :: piece, rest, if_neg hslash⟩

/-- Cutting at a slash and cutting the two sides is the same. -/
theorem split_append_slash (front rest : List UInt8) :
    split (front ++ slash :: rest) = split front ++ split rest := by
  induction front with
  | nil => simp
  | cons byte front ih =>
      obtain ⟨piece, more, hsplit⟩ := exists_split_eq_cons front
      rw [List.cons_append, split_cons, split_cons, ih, hsplit]
      by_cases hslash : byte = slash
      · simp [hslash]
      · simp [hslash]

theorem split_of_not_mem {name : Name} (h : slash ∉ name) : split name = [name] := by
  induction name with
  | nil => rfl
  | cons byte name ih =>
      simp only [List.mem_cons, not_or] at h
      rw [split_cons, if_neg (Ne.symm h.1), ih h.2]

@[simp] theorem join_singleton (name : Name) : join [name] = name := by
  simp [join]

@[simp] theorem join_cons_cons (name next : Name) (rest : List Name) :
    join (name :: next :: rest) = name ++ slash :: join (next :: rest) := by
  simp [join, List.intersperse]

/-- Names joined by slashes are read back. -/
theorem split_join {names : List Name} (hsome : names ≠ []) (h : ∀ name ∈ names, IsName name) :
    split (join names) = names := by
  induction names with
  | nil => exact absurd rfl hsome
  | cons name rest ih =>
      have hname := split_of_not_mem (h name List.mem_cons_self).noSlash
      cases rest with
      | nil => rw [join_singleton, hname]
      | cons next rest =>
          have hrest := ih (List.cons_ne_nil _ _) fun other hmem =>
            h other (List.mem_cons_of_mem _ hmem)
          rw [join_cons_cons, split_append_slash, hname, hrest, List.singleton_append]

/-! ## Entries of a directory -/

/-- Every entry of a directory has the path of the directory in front of it, with
one slash after that. -/
theorem child_eq (path : Path) (bytes : List UInt8) :
    path.child bytes = ⟨(path.child []).bytes ++ bytes⟩ := by
  unfold child
  split <;> simp

/-- The path of an entry ends in its name, so an entry of the entry comes after
another slash. -/
theorem child_child (path : Path) {name : Name} (hname : IsName name) (bytes : List UInt8) :
    (path.child name).child bytes = path.child (name ++ slash :: bytes) := by
  have hopen :
      ¬ ((path.child name).bytes = [] ∨ (path.child name).bytes.getLast? = some slash) := by
    rw [child_eq path name]
    rintro (hnil | hlast)
    · exact hname.nonempty (List.append_eq_nil_iff.mp hnil).2
    · rw [List.getLast?_append, List.getLast?_eq_some_getLast hname.nonempty,
        Option.some_or] at hlast
      exact hname.noSlash (Option.some.inj hlast ▸ List.getLast_mem _)
  rw [child, if_neg hopen, child_eq path name, child_eq path (name ++ slash :: bytes),
    List.append_assoc]

@[simp] theorem descend_nil (path : Path) : path.descend [] = path := rfl

@[simp] theorem descend_cons (path : Path) (name : Name) (names : List Name) :
    path.descend (name :: names) = (path.child name).descend names := rfl

/-- Going down name by name gives the path with all the names behind it. -/
theorem descend_eq_child_join (path : Path) {names : List Name} (hsome : names ≠ [])
    (h : ∀ name ∈ names, IsName name) : path.descend names = path.child (join names) := by
  induction names generalizing path with
  | nil => exact absurd rfl hsome
  | cons name rest ih =>
      cases rest with
      | nil => rw [join_singleton, descend_cons, descend_nil]
      | cons next rest =>
          have hrest := ih (path.child name) (List.cons_ne_nil _ _) fun other hmem =>
            h other (List.mem_cons_of_mem _ hmem)
          rw [descend_cons, hrest, child_child path (h name List.mem_cons_self), join_cons_cons]

/-- The names of a path behind the path of a directory. -/
def namesBelow (root path : Path) : List Name :=
  split (path.bytes.drop (root.child []).bytes.length)

theorem namesBelow_child (root : Path) (bytes : List UInt8) :
    root.namesBelow (root.child bytes) = split bytes := by
  rw [namesBelow, child_eq root bytes, List.drop_left]

theorem namesBelow_descend (root : Path) {names : List Name} (hsome : names ≠ [])
    (h : ∀ name ∈ names, IsName name) : root.namesBelow (root.descend names) = names := by
  rw [descend_eq_child_join root hsome h, namesBelow_child, split_join hsome h]

/-! ## The name of a path -/

theorem exists_split_child_eq (path : Path) {name : Name} (h : slash ∉ name) :
    ∃ front, split (path.child name).bytes = front ++ [name] := by
  rw [← split_of_not_mem h]
  unfold child
  split
  next hplain =>
    rcases hplain with hnil | hlast
    · exact ⟨[], by simp [hnil]⟩
    · obtain ⟨front, hfront⟩ := List.getLast?_eq_some_iff.mp hlast
      refine ⟨split front, ?_⟩
      rw [hfront, List.append_assoc, List.singleton_append, split_append_slash]
  next => exact ⟨split path.bytes, split_append_slash _ _⟩

theorem fileName?_child (path : Path) {name : Name} (h : IsName name) :
    (path.child name).fileName? = some name := by
  obtain ⟨front, hsplit⟩ := path.exists_split_child_eq h.noSlash
  have hstep : Step.ofPiece? name = some (.down name) := by
    simp [Step.ofPiece?, h.nonempty, h.notHere, h.notUp]
  have hlast : (path.child name).steps.getLast? = some (.down name) := by
    simp [steps, hsplit, hstep]
  rw [fileName?, hlast]

theorem fileName?_name {name : Name} (h : IsName name) : fileName? ⟨name⟩ = some name :=
  fileName?_child ⟨[]⟩ h

/-- Only the last name of a path decides whether a walk passes over it. -/
theorem isRejected_child (globs : List String) (path : Path) {name : Name} (h : IsName name) :
    (path.child name).isRejected globs = isRejected globs ⟨name⟩ := by
  rw [isRejected, isRejected, fileName?_child path h, fileName?_name h]

end Path

/-! ## Names as they are printed -/

namespace Text

/-- A character of the first half of a byte's range, the null character apart. -/
def IsNarrow (c : Char) : Prop :=
  0 < c.toNat ∧ c.toNat < 0x80

instance (c : Char) : Decidable (IsNarrow c) :=
  inferInstanceAs (Decidable (_ ∧ _))

theorem toNat_ofNat_of_lt {code : Nat} (h : code < 0x80) : (Char.ofNat code).toNat = code := by
  rw [Char.ofNat, dif_pos (.inl (by omega))]
  rfl

theorem not_isNarrow_replacement : ¬ IsNarrow replacement := by
  decide

theorem not_isNarrow_ofNat {code : Nat} (h : 0x80 ≤ code) : ¬ IsNarrow (Char.ofNat code) := by
  by_cases hvalid : code.isValidChar
  · rw [Char.ofNat, dif_pos hvalid]
    change ¬ (0 < code ∧ code < 0x80)
    omega
  · rw [Char.ofNat, dif_neg hvalid]
    decide

/-- With enough bits read, or still to come, a character is not narrow. -/
theorem not_isNarrow_readTail {more bits low high : Nat} {bytes : List UInt8}
    (h : 0x80 ≤ bits ∨ (2 ≤ bits ∧ 1 ≤ more) ∨ (2 ≤ more ∧ (1 ≤ bits ∨ 0x90 ≤ low))) :
    ¬ IsNarrow (readTail more bits low high bytes).1 := by
  fun_induction readTail more bits low high bytes with
  | case1 bits low high rest => exact not_isNarrow_ofNat (by omega)
  | case2 => exact not_isNarrow_replacement
  | case3 bits low high more byte rest hrange ih => exact ih (by omega)
  | case4 => exact not_isNarrow_replacement

theorem lead?_cases (byte : Nat) : ∀ lead ∈ lead? byte,
    (byte < 0x80 ∧ lead.bits = byte ∧ lead.more = 0) ∨
      (2 ≤ lead.bits ∧ 1 ≤ lead.more) ∨ (2 ≤ lead.more ∧ (1 ≤ lead.bits ∨ 0x90 ≤ lead.low)) := by
  fun_cases lead? byte <;> simp <;> omega

/-- A narrow character stands for the one byte that it was read from. -/
theorem readChar_of_isNarrow {byte : UInt8} {rest : List UInt8}
    (h : IsNarrow (readChar byte rest).1) :
    (readChar byte rest).1.toNat = byte.toNat ∧ (readChar byte rest).2 = rest := by
  unfold readChar at h ⊢
  cases hlead : lead? byte.toNat with
  | none =>
      rw [hlead] at h
      exact absurd h not_isNarrow_replacement
  | some lead =>
      simp only [hlead] at h ⊢
      rcases lead?_cases byte.toNat lead hlead with ⟨hbyte, hbits, hmore⟩ | hwide
      · rw [hbits, hmore, readTail]
        exact ⟨toNat_ofNat_of_lt hbyte, rfl⟩
      · exact absurd h (not_isNarrow_readTail (.inr hwide))

/-- Bytes are printed as a text of narrow characters only if they are the
characters of that text. -/
theorem map_toNat_of_decodeLossy {bytes : List UInt8}
    (h : ∀ c ∈ decodeLossy bytes, IsNarrow c) :
    bytes.map UInt8.toNat = (decodeLossy bytes).map Char.toNat := by
  fun_induction decodeLossy bytes with
  | case1 => rfl
  | case2 byte rest ih =>
      obtain ⟨hbyte, hrest⟩ := readChar_of_isNarrow (h _ List.mem_cons_self)
      have hmap := ih fun c hc => h c (List.mem_cons_of_mem _ hc)
      rw [List.map_cons, List.map_cons, hbyte, ← hmap, hrest]

end Text

namespace Path

/-- Without globs a walk passes over nothing but the metadata of a repository. -/
theorem isRejected_nil {name : Name} (h : IsName name) :
    isRejected [] ⟨name⟩ = decide (name = (ofString ".git").bytes) := by
  rw [isRejected, fileName?_name h]
  simp only [Option.getD_some, List.any_nil, Bool.or_false]
  rw [Bool.eq_iff_iff, beq_iff_eq, decide_eq_true_iff]
  constructor
  · intro hname
    have hchars : Text.decodeLossy name = ['.', 'g', 'i', 't'] := by
      simpa using congrArg String.toList hname
    have hnarrow : ∀ c ∈ Text.decodeLossy name, Text.IsNarrow c := by
      simp [hchars, Text.IsNarrow]
    have hbytes := Text.map_toNat_of_decodeLossy hnarrow
    rw [hchars] at hbytes
    exact (List.map_inj_right fun _ _ => UInt8.toNat_inj.mp).mp (hbytes.trans (by decide +kernel))
  · rintro rfl
    decide +kernel

end Path

end Marginalia
