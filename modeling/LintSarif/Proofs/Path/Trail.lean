import LintSarif.Path.Trail
import LintSarif.Proofs.Path.Joining
import LintSarif.Proofs.Text.LineBreak
import Mathlib.Data.List.Induction

/-!
# Resolving a path on a stack of names

Resolution works on the text of the path resolved so far; a trail holds the names of that path. The
two agree at every component (`enter_toPath`), so a path is resolved to the text of the trail that
the joined path leads along. Read `absolutize_eq_toPath` first. Trails and their texts determine
each other (`Trail.ofPath_toPath`), which lets a resolved path be resolved further without loss
(`absolutize_absolutize`).
-/

namespace LintSarif.Path

variable {path base name : List Char}

/-! ## Trails -/

theorem IsName.isAbsolute_eq_false (h : IsName name) : isAbsolute name = false := by
  unfold isAbsolute
  rw [beq_eq_false_iff_ne]
  exact fun hhead => h.noSlash (List.mem_of_head? hhead)

/-- One more name stands behind a slash, unless it is the first. -/
theorem intercalate_concat {names : List (List Char)} (hne : names ≠ []) (name : List Char) :
    ['/'].intercalate (names ++ [name]) = ['/'].intercalate names ++ '/' :: name := by
  induction names with
  | nil => contradiction
  | cons first names ih =>
      cases names with
      | nil => simp [List.intercalate_cons_cons]
      | cons next names =>
          have hrest := ih (List.cons_ne_nil next names)
          simp only [List.cons_append, List.intercalate_cons_cons] at hrest ⊢
          rw [hrest]
          simp

namespace Trail

/-- Every trail is made by pushing names, one after the other. -/
@[elab_as_elim, induction_eliminator]
theorem push_induction {motive : Trail → Prop} (start : ∀ rooted, motive (start rooted))
    (push : ∀ (t : Trail) (name : List Char) (h : IsName name), motive t → motive (t.push name h))
    (t : Trail) : motive t := by
  obtain ⟨rooted, names, hnames⟩ := t
  induction names using List.reverseRecOn with
  | nil => exact start rooted
  | append_singleton names name ih =>
      obtain ⟨hbefore, hlast⟩ := List.forall_mem_append.1 hnames
      exact push ⟨rooted, names, hbefore⟩ name (List.forall_mem_singleton.1 hlast) (ih hbefore)

@[simp]
theorem toPath_start (rooted : Bool) : (start rooted).toPath = if rooted then ['/'] else [] := by
  cases rooted <;> rfl

/-- A name that is pushed on others stands behind a slash. -/
theorem toPath_push_of_ne_nil {t : Trail} (hne : t.names ≠ []) (h : IsName name) :
    (t.push name h).toPath = t.toPath ++ '/' :: name := by
  have hnames : ['/'].intercalate (t.push name h).names =
      ['/'].intercalate t.names ++ '/' :: name := intercalate_concat hne name
  rw [toPath, hnames, ← List.append_assoc]
  rfl

/-- The text of a trail ends with its last name. -/
theorem exists_toPath_push (t : Trail) (h : IsName name) :
    ∃ before, (t.push name h).toPath = before ++ name := by
  by_cases hne : t.names = []
  · exact ⟨if t.rooted then ['/'] else [], by simp [toPath, push, hne]⟩
  · exact ⟨t.toPath ++ ['/'], by simp [toPath_push_of_ne_nil hne]⟩

/-- It does not end with a slash then. -/
theorem directory_toPath_push (t : Trail) (h : IsName name) :
    directory (t.push name h).toPath = (t.push name h).toPath ++ ['/'] := by
  obtain ⟨before, hbefore⟩ := t.exists_toPath_push h
  rw [hbefore, directory_append _ h.ne_nil, directory_of_noSlash h.ne_nil h.noSlash,
    List.append_assoc]

/-- A pushed name is written behind what was there, as a path in that directory. -/
theorem toPath_push (t : Trail) (h : IsName name) :
    (t.push name h).toPath = directory t.toPath ++ name := by
  induction t with
  | start rooted => cases rooted <;> simp [toPath, push, start, List.intercalate, directory]
  | push t last hlast =>
      have hne : (t.push last hlast).names ≠ [] := by
        simp [push]
      rw [toPath_push_of_ne_nil hne, directory_toPath_push, List.append_assoc,
        List.singleton_append]

theorem join_toPath (t : Trail) (h : IsName name) : join t.toPath name = (t.push name h).toPath := by
  rw [toPath_push, join_of_relative h.isAbsolute_eq_false]

@[simp]
theorem isAbsolute_toPath (t : Trail) : isAbsolute t.toPath = t.rooted := by
  induction t with
  | start rooted => cases rooted <;> rfl
  | push t name h ih =>
      rw [← join_toPath t h, isAbsolute_join, h.isAbsolute_eq_false, ih]
      rfl

/-! ## Following paths -/

@[simp]
theorem rooted_enter (t : Trail) (part : List Char) : (t.enter part).rooted = t.rooted := by
  unfold enter
  split
  · rfl
  · split <;> rfl

@[simp]
theorem rooted_follow (t : Trail) (path : List Char) : (t.follow path).rooted = t.rooted := by
  unfold follow
  refine List.foldlRecOn (motive := fun u => u.rooted = t.rooted) _ enter rfl
    fun u hu part _ => ?_
  rw [rooted_enter, hu]

@[simp]
theorem rooted_ofPath (path : List Char) : (ofPath path).rooted = isAbsolute path := by
  rw [ofPath, rooted_follow]
  rfl

/-- A joined relative path is followed from where its base leads. -/
theorem follow_join (t : Trail) (h : isAbsolute path = false) (base : List Char) :
    t.follow (join base path) = (t.follow base).follow path := by
  rw [join_of_relative h]
  rcases List.eq_nil_or_concat' base with rfl | ⟨above, c, rfl⟩
  · simp
  · by_cases hc : c = '/'
    · subst hc
      simp
    · have hdirectory : directory (above ++ [c]) = (above ++ [c]) ++ ['/'] := by
        simp [directory, hc]
      rw [hdirectory, List.append_assoc]
      exact t.follow_append_cons (above ++ [c]) path

theorem ofPath_join (h : isAbsolute path = false) (base : List Char) :
    ofPath (join base path) = (ofPath base).follow path := by
  rw [ofPath, isAbsolute_join, h, Bool.false_or, follow_join _ h]
  rfl

/-- The text of a trail leads along that trail. -/
@[simp]
theorem ofPath_toPath (t : Trail) : ofPath t.toPath = t := by
  induction t with
  | start rooted =>
      cases rooted with
      | false => exact follow_nil _
      | true =>
          show (start true).follow ([] ++ '/' :: []) = _
          rw [follow_append_cons, follow_nil, follow_nil]
  | push t name h ih =>
      rw [← join_toPath t h, ofPath_join h.isAbsolute_eq_false, ih, follow_of_noSlash t h.noSlash,
        enter_of_isName]

end Trail

/-! ## Components -/

/-- What stands between two slashes holds none. -/
theorem noSlash_of_mem_splitOn (h : name ∈ path.splitOn '/') : '/' ∉ name := by
  rw [List.splitOn_eq_splitOnP] at h
  intro hmem
  have hcut := (Text.mem_of_mem_splitOnP h _ hmem).2
  contradiction

theorem noSlash_of_mem_components (h : name ∈ components path) : '/' ∉ name :=
  noSlash_of_mem_splitOn (List.mem_of_mem_filter h)

/-- A component is a name or two dots. -/
theorem isName_of_mem_components (h : name ∈ components path) (hdots : name ≠ ['.', '.']) :
    IsName name := by
  have hkept : name ≠ [] ∧ name ≠ ['.'] := by
    simpa using (List.mem_filter.1 h).2
  exact ⟨hkept.1, hkept.2, hdots, noSlash_of_mem_components h⟩

/-- Looking for the last slash passes over a name. -/
theorem dropWhile_reverse_append (h : '/' ∉ name) (rest : List Char) :
    (name.reverse ++ rest).dropWhile (· ≠ '/') = rest.dropWhile (· ≠ '/') := by
  refine List.dropWhile_append_of_pos fun c hc => ?_
  rw [decide_eq_true_eq]
  exact ne_of_mem_of_not_mem (List.mem_reverse.1 hc) h

/-- A single relative name has the empty parent. -/
theorem parent_of_noSlash (h : '/' ∉ name) : parent name = [] := by
  have hdrop := dropWhile_reverse_append h []
  rw [List.append_nil] at hdrop
  rw [parent, hdrop]
  rfl

/-- The parent is what stands before the last slash, or the root if nothing does. -/
theorem parent_append_cons (above : List Char) (h : '/' ∉ name) :
    parent (above ++ '/' :: name) = if above = [] then ['/'] else above := by
  have hreverse : (above ++ '/' :: name).reverse = name.reverse ++ '/' :: above.reverse := by
    simp
  rw [parent, hreverse, dropWhile_reverse_append h, List.dropWhile_cons_of_neg (by simp)]
  rcases List.eq_nil_or_concat' above with rfl | ⟨above, c, rfl⟩
  · rfl
  · simp

/-- Going up from the text of a trail takes its last name away. -/
theorem parent_toPath (t : Trail) : parent t.toPath = t.pop.toPath := by
  induction t with
  | start rooted => cases rooted <;> rfl
  | push t name h =>
      rw [Trail.pop_push, Trail.toPath_push]
      -- What stands in front of the name says which of its parents it has.
      induction t with
      | start rooted =>
          cases rooted with
          | false => exact parent_of_noSlash h.noSlash
          | true => exact parent_append_cons [] h.noSlash
      | push t last hlast =>
          have hne : (t.push last hlast).toPath ≠ [] := by
            simp [Trail.toPath_push, hlast.ne_nil]
          rw [Trail.directory_toPath_push, List.append_assoc, List.singleton_append,
            parent_append_cons _ h.noSlash, if_neg hne]

/-- Following a component of a path changes the text of a trail as it changes the trail. -/
theorem enter_toPath (t : Trail) {part : List Char} (h : part ∈ components path) :
    enter t.toPath part = (t.enter part).toPath := by
  unfold enter
  split
  · next hdots => rw [hdots, Trail.enter_dots, parent_toPath]
  · next hdots =>
      have hname := isName_of_mem_components h hdots
      rw [Trail.enter_of_isName t hname, Trail.join_toPath]

/-- Parts of a path that are no components lead nowhere else. -/
theorem foldl_enter_components (t : Trail) (path : List Char) :
    (components path).foldl Trail.enter t = t.follow path := by
  have hskip : ∀ (u : Trail) (part : List Char),
      (if (!part.isEmpty && part != ['.']) = true then u.enter part else u) = u.enter part := by
    intro u part
    split
    · rfl
    · next hdropped =>
        have hpart : part = [] ∨ part = ['.'] := by
          simpa [← or_iff_not_imp_left] using hdropped
        rcases hpart with rfl | rfl <;> simp
  simp only [components, List.foldl_filter, hskip]
  rfl

/-- Following components of a path from the text of a trail gives the text of the trail that
follows them. -/
theorem foldl_enter_toPath {names : List (List Char)} (h : ∀ part ∈ names, part ∈ components path)
    (t : Trail) : names.foldl enter t.toPath = (names.foldl Trail.enter t).toPath := by
  induction names generalizing t with
  | nil => rfl
  | cons part names ih =>
      obtain ⟨hpart, hnames⟩ := List.forall_mem_cons.1 h
      rw [List.foldl_cons, enter_toPath t hpart, ih hnames, List.foldl_cons]

@[simp]
theorem toList_absolutize (path base : String) :
    (absolutize path base).toList = resolve path.toList base.toList :=
  String.toList_ofList

/-- A path is resolved to the text of the trail along the joined path. -/
theorem resolve_eq_toPath (path base : List Char) :
    resolve path base = (Trail.ofPath (join base path)).toPath := by
  show (components _).foldl enter (if isAbsolute (join base path) then ['/'] else []) = _
  rw [← Trail.toPath_start, foldl_enter_toPath fun _ h => h, foldl_enter_components]
  rfl

/-! ## Two dots at the root -/

/-- A trail of at most `n` names is left altogether on the way `n` directories up. -/
theorem Trail.follow_upward {n : Nat} {t : Trail} (h : t.names.length ≤ n) (path : List Char) :
    t.follow (upward n path) = (start t.rooted).follow path := by
  induction n generalizing t with
  | zero =>
      have ht : t = start t.rooted := Trail.ext rfl (List.length_eq_zero_iff.1 (Nat.le_zero.1 h))
      rw [ht]
      rfl
  | succ n ih =>
      have hpop : t.pop.names.length ≤ n := by
        have hlength : t.pop.names.length = t.names.length - 1 := List.length_dropLast
        omega
      have hdots : t.follow ['.', '.'] = t.pop := by
        rw [follow_of_noSlash t (by decide), enter_dots]
      have hup : upward (n + 1) path = ['.', '.'] ++ '/' :: upward n path := rfl
      rw [hup, follow_append_cons, hdots, ih hpop, rooted_pop]

/-- In the root a path is followed from there, whether it is absolute or not. -/
theorem resolve_root (path : List Char) :
    resolve path ['/'] = ((Trail.start true).follow path).toPath := by
  rw [resolve_eq_toPath]
  cases h : isAbsolute path with
  | true => rw [join_of_isAbsolute h, Trail.ofPath, h]
  | false =>
      have hroot : Trail.ofPath ['/'] = Trail.start true := Trail.ofPath_toPath (Trail.start true)
      rw [Trail.ofPath_join h, hroot]

/-- Going up from a directory more often than it has names on the way from the root is going to the
root. -/
theorem resolve_upward {n : Nat} (hbase : isAbsolute base = true)
    (hn : (Trail.ofPath base).names.length ≤ n) (path : List Char) :
    resolve (upward n path) base = resolve path ['/'] := by
  rw [resolve_root, resolve_eq_toPath]
  cases h : isAbsolute (upward n path) with
  | true =>
      -- Nothing stands in front of an absolute path, so there was no way up.
      rw [join_of_isAbsolute h, Trail.ofPath, h, Trail.follow_upward (Nat.zero_le n)]
      rfl
  | false =>
      rw [Trail.ofPath_join h, Trail.follow_upward hn, Trail.rooted_ofPath, hbase]

/-- A path is resolved by following it on a stack of names: the result is the names that are left,
with slashes between them and with one in front exactly when the joined path is absolute. It starts
with a slash then, and so two dots do not take the root away. They do not lead above it either: from
any directory below the root, going up more often than it has names is going to the root. -/
theorem absolutize_eq_toPath (path base : String) :
    let joined := join base.toList path.toList
    absolutize path base = String.ofList (Trail.ofPath joined).toPath ∧
      isAbsolute (absolutize path base).toList = isAbsolute joined ∧
      ∀ n, isAbsolute base.toList = true → (Trail.ofPath base.toList).names.length ≤ n →
        absolutize (String.ofList (upward n path.toList)) base = absolutize path "/" := by
  intro joined
  have hresolve := resolve_eq_toPath path.toList base.toList
  refine ⟨congrArg String.ofList hresolve, ?_, fun n hbase hn => ?_⟩
  · rw [toList_absolutize, hresolve, Trail.isAbsolute_toPath, Trail.rooted_ofPath]
  · unfold absolutize
    rw [String.toList_ofList, resolve_upward hbase hn]
    rfl

/-- Three times up from a directory one name below the root is the root. -/
theorem absolutize_eq_toPath_above_root :
    let base := "/a/./b//.."
    isAbsolute base.toList = true ∧ (Trail.ofPath base.toList).names.length ≤ 3 ∧
      absolutize "../../../x/./y" base = absolutize "x/./y" "/" ∧
      absolutize "x/./y" "/" = "/x/y" := by
  have hbase : isAbsolute "/a/./b//..".toList = true := by
    decide
  have hn : (Trail.ofPath "/a/./b//..".toList).names.length ≤ 3 := by
    decide
  obtain ⟨-, -, hup⟩ := absolutize_eq_toPath "x/./y" "/a/./b//.."
  exact ⟨hbase, hn, hup 3 hbase hn, by decide +kernel⟩

/-- Resolving further from a resolved path is resolving the joined path at once. -/
theorem absolutize_absolutize (first next base : String) :
    absolutize next (absolutize first base) =
      absolutize (String.ofList (join first.toList next.toList)) base := by
  unfold absolutize
  simp only [String.toList_ofList, resolve_eq_toPath]
  cases h : isAbsolute next.toList with
  | true => simp [h]
  | false => rw [join_assoc, Trail.ofPath_join h, Trail.ofPath_join h, Trail.ofPath_toPath]

end LintSarif.Path
