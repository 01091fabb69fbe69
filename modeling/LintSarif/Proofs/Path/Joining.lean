import LintSarif.Path
import Mathlib.Data.List.Basic

/-!
# Joining paths

A relative path is joined to what `directory` makes of its base, by writing one behind the other.
Joining is associative (`join_assoc`), and whether the result is absolute is seen from the two paths
(`isAbsolute_join`).
-/

namespace LintSarif.Path

variable {path name : List Char}

/-- `directory base` is `base` as it stands in front of a relative path: with a slash at its end,
unless it is empty. -/
def directory (base : List Char) : List Char :=
  if base.isEmpty || base.getLast? == some '/' then base else base ++ ['/']

theorem join_of_relative (h : isAbsolute path = false) (base : List Char) :
    join base path = directory base ++ path := by
  unfold join directory
  rw [if_neg (Bool.eq_false_iff.1 h)]
  split
  · rfl
  · simp

@[simp]
theorem directory_nil : directory [] = [] := rfl

@[simp]
theorem directory_concat_slash (above : List Char) :
    directory (above ++ ['/']) = above ++ ['/'] := by
  simp [directory]

/-- Only the end of a path decides whether a slash is missing. -/
theorem directory_append (above : List Char) (h : path ≠ []) :
    directory (above ++ path) = above ++ directory path := by
  have hlast : (above ++ path).getLast? = path.getLast? := List.getLast?_append_of_ne_nil _ h
  unfold directory
  rw [hlast]
  simp only [List.isEmpty_iff, Bool.or_eq_true, beq_iff_eq, List.append_eq_nil_iff, h, and_false,
    false_or]
  split
  · rfl
  · simp

theorem directory_of_noSlash (hne : name ≠ []) (h : '/' ∉ name) :
    directory name = name ++ ['/'] := by
  have hlast : name.getLast? ≠ some '/' := fun hlast => h (List.mem_of_getLast? hlast)
  simp [directory, hne, hlast]

@[simp]
theorem directory_directory (base : List Char) : directory (directory base) = directory base := by
  unfold directory
  split
  · rfl
  · simp

/-- A joined path is absolute when one of its two parts is. -/
@[simp]
theorem isAbsolute_join (base path : List Char) :
    isAbsolute (join base path) = (isAbsolute path || isAbsolute base) := by
  cases h : isAbsolute path with
  | true => rw [join_of_isAbsolute h, h, Bool.true_or]
  | false =>
      rw [join_of_relative h, Bool.false_or]
      cases base with
      | nil => exact h
      | cons c base =>
          unfold directory
          split <;> rfl

/-- Joining three paths needs no brackets. -/
theorem join_assoc (base path next : List Char) :
    join base (join path next) = join (join base path) next := by
  cases hnext : isAbsolute next with
  | true => simp [hnext]
  | false =>
      cases hpath : isAbsolute path with
      | true => simp [hpath]
      | false =>
          have hjoined : isAbsolute (join path next) = false := by
            rw [isAbsolute_join, hnext, hpath]
            rfl
          rw [join_of_relative hjoined, join_of_relative hnext, join_of_relative hpath,
            join_of_relative hnext, ← List.append_assoc]
          congr 1
          cases path with
          | nil => simp
          | cons c path => rw [directory_append _ (List.cons_ne_nil c path)]

end LintSarif.Path
