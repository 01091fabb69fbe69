import LintSarif.Proofs.Path.Trail

/-!
# Resolved paths are in normal form

The text of a trail says its names and nothing else (`Trail.parts_toPath`), so a resolved path is in
normal form (`isNormal_absolutize`). Such a path is resolved to itself wherever joining leaves it as
it stands (`absolutize_absolutize_of_join`).
-/

namespace LintSarif.Path

variable {path : List Char}

/-! ## Parts of a path -/

/-- Only the first character of a path can be the slash of the root. -/
theorem below_append (h : path ≠ []) (rest : List Char) :
    below (path ++ rest) = below path ++ rest := by
  obtain ⟨c, path, rfl⟩ := List.exists_cons_of_ne_nil h
  have hroot : isAbsolute (c :: path ++ rest) = isAbsolute (c :: path) := rfl
  unfold below
  rw [hroot]
  split <;> rfl

/-- What stands before and behind a slash below the root are parts. -/
theorem parts_of_below {before after : List Char} (h : below path = before ++ '/' :: after) :
    parts path = before.splitOn '/' ++ after.splitOn '/' := by
  have hne : below path ≠ [] := by
    simp [h]
  rw [parts, if_neg hne, h, List.splitOn_append_cons_self]

/-- Two slashes in a row have an empty part between them or in front of them. -/
theorem nil_mem_parts_of_repeat (h : ['/', '/'] <:+: path) : [] ∈ parts path := by
  obtain ⟨before, after, hsplit⟩ := h
  cases before with
  | nil =>
      have hbelow : below path = [] ++ '/' :: after := by
        rw [← hsplit]
        rfl
      rw [parts_of_below hbelow]
      simp
  | cons c before =>
      have hbelow : below path = below (c :: before) ++ '/' :: ([] ++ '/' :: after) := by
        rw [← hsplit, List.append_assoc, below_append (List.cons_ne_nil c before)]
        rfl
      rw [parts_of_below hbelow, List.splitOn_append_cons_self]
      simp

/-- A slash at the end has an empty part behind it, unless it is the root. -/
theorem nil_mem_parts_of_ending (h : path.getLast? = some '/') (hroot : path ≠ ['/']) :
    [] ∈ parts path := by
  obtain ⟨before, hsplit⟩ := List.getLast?_eq_some_iff.1 h
  have hbefore : before ≠ [] := by
    rintro rfl
    exact hroot hsplit
  have hbelow : below path = below before ++ '/' :: [] := by
    rw [hsplit, below_append hbefore]
  rw [parts_of_below hbelow]
  simp

/-- A path whose parts are names is in normal form. -/
theorem isNormal_of_parts (h : ∀ part ∈ parts path, IsName part) : IsNormal path := by
  have hempty : [] ∉ parts path := fun hmem => (h [] hmem).ne_nil rfl
  constructor
  · exact h
  · exact mt nil_mem_parts_of_repeat hempty
  · intro hlast
    by_contra hroot
    exact hempty (nil_mem_parts_of_ending hlast hroot)

/-! ## Resolved paths -/

theorem Trail.below_toPath (t : Trail) : below t.toPath = ['/'].intercalate t.names := by
  unfold below
  rw [isAbsolute_toPath]
  cases h : t.rooted <;> simp [toPath, h]

/-- The parts of the text of a trail are its names. -/
@[simp]
theorem Trail.parts_toPath (t : Trail) : parts t.toPath = t.names := by
  unfold parts
  rw [below_toPath]
  by_cases hne : t.names = []
  · simp [hne, List.intercalate]
  · have hsplit : (['/'].intercalate t.names).splitOn '/' = t.names :=
      List.splitOn_intercalate '/' (fun name hname => (t.isName name hname).noSlash) hne
    have hfilled : ['/'].intercalate t.names ≠ [] := by
      intro hempty
      have hmem : [] ∈ t.names := by
        rw [← hsplit, hempty]
        simp
      exact (t.isName [] hmem).ne_nil rfl
    rw [if_neg hfilled, hsplit]

theorem Trail.isNormal_toPath (t : Trail) : IsNormal t.toPath :=
  isNormal_of_parts (by simpa using t.isName)

/-- A resolved path is in normal form. -/
theorem isNormal_absolutize (path base : String) : IsNormal (absolutize path base).toList := by
  rw [toList_absolutize, resolve_eq_toPath]
  exact Trail.isNormal_toPath _

/-- It is absolute when the path or the directory is. -/
theorem isAbsolute_absolutize (path base : String) :
    isAbsolute (absolutize path base).toList =
      (isAbsolute path.toList || isAbsolute base.toList) := by
  rw [toList_absolutize, resolve_eq_toPath, Trail.isAbsolute_toPath, Trail.rooted_ofPath,
    isAbsolute_join]

/-- Where a resolved path is read as it stands, it is resolved to itself. -/
theorem absolutize_absolutize_of_join {path base other : String}
    (h : join other.toList (absolutize path base).toList = (absolutize path base).toList) :
    absolutize (absolutize path base) other = absolutize path base := by
  rw [← String.toList_inj, toList_absolutize, resolve_eq_toPath, h, toList_absolutize,
    resolve_eq_toPath, Trail.ofPath_toPath]

end LintSarif.Path
