import LintSarif.Path
import LintSarif.Proofs.Text.LineBreak

/-!
# What a resolved path is made of

Resolving a path adds no character to it but slashes (`forall_mem_resolve`).
-/

namespace LintSarif.Path

variable {p : Char → Prop} {path base name : List Char}

theorem forall_mem_join (hslash : p '/') (hbase : ∀ c ∈ base, p c) (hpath : ∀ c ∈ path, p c) :
    ∀ c ∈ join base path, p c := by
  unfold join
  split
  · exact hpath
  · split
    · exact List.forall_mem_append.2 ⟨hbase, hpath⟩
    · exact List.forall_mem_append.2 ⟨hbase, List.forall_mem_cons.2 ⟨hslash, hpath⟩⟩

/-- The parent is a stretch of the path, or the root. -/
theorem forall_mem_parent (hslash : p '/') (hpath : ∀ c ∈ path, p c) :
    ∀ c ∈ parent path, p c := by
  unfold parent
  split
  · exact List.forall_mem_nil _
  · exact List.forall_mem_singleton.2 hslash
  · next above hdrop =>
      intro c hc
      have hmem : c ∈ path.reverse.dropWhile (· ≠ '/') :=
        hdrop ▸ List.mem_cons_of_mem _ (List.mem_reverse.1 hc)
      exact hpath c (List.mem_reverse.1 ((List.dropWhile_suffix _).subset hmem))

theorem forall_mem_enter (hslash : p '/') (hpath : ∀ c ∈ path, p c) (hname : ∀ c ∈ name, p c) :
    ∀ c ∈ enter path name, p c := by
  unfold enter
  split
  · exact forall_mem_parent hslash hpath
  · exact forall_mem_join hslash hpath hname

/-- What stands between two slashes belongs to the path. -/
theorem mem_of_mem_splitOn {c : Char} (hname : name ∈ path.splitOn '/') (hc : c ∈ name) :
    c ∈ path := by
  rw [List.splitOn_eq_splitOnP] at hname
  exact (Text.mem_of_mem_splitOnP hname c hc).1

/-- What holds of slashes and of the characters of a path and of the directory that it is read in
holds of the characters of the resolved path. -/
theorem forall_mem_resolve (hslash : p '/') (hpath : ∀ c ∈ path, p c) (hbase : ∀ c ∈ base, p c) :
    ∀ c ∈ resolve path base, p c := by
  have hjoined := forall_mem_join hslash hbase hpath
  have hstart : ∀ c ∈ (if isAbsolute (join base path) then ['/'] else []), p c := by
    split
    · exact List.forall_mem_singleton.2 hslash
    · exact List.forall_mem_nil _
  unfold resolve
  -- Each component is entered from a path that was resolved so far.
  refine List.foldlRecOn (motive := fun resolved => ∀ c ∈ resolved, p c) _ enter hstart
    fun resolved hresolved name hname => ?_
  have hsplit := (List.mem_filter.1 hname).1
  exact forall_mem_enter hslash hresolved fun c hc => hjoined c (mem_of_mem_splitOn hsplit hc)

end LintSarif.Path
