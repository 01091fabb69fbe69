import LintSarif.Diagnostic.SingleScan
import LintSarif.Proofs.Diagnostic.RoundTrip

/-!
# A single scan reads a line

On a line without line feeds the reader needs none of its choices. Read `ofLine?_eq_singleScan`
first. Two facts carry it: the closing brackets of a line settle where its shortest message ends
(`LineParts.exists_body_of_lastGroup?`), and whichever header a line fits behind, what follows its
first header ends with a rule (`HeaderForm.IsFirst.exists_group`). So a line that does not fit behind
its first header fits behind no other.
-/

namespace LintSarif

/-! ## The rule at the end of a line -/

namespace LineParts

/-- `LastGroup closed lead rule ending` holds when these are the parts of a line that ends with a
rule: what is closed in front of it, the rest of the message, the rule and the blanks behind it. -/
structure LastGroup (closed lead rule ending : List Char) : Prop where
  closed : ∀ c ∈ closed.getLast?, c = ']'
  lead : '[' ∉ lead ∧ ']' ∉ lead
  rule : rule ≠ [] ∧ ']' ∉ rule
  ending : ∀ c ∈ ending, Text.isBlank c = true

variable {cs message rule ending closed lead : List Char}

/-- The message and the rule of a line with these parts are found. -/
theorem LastGroup.lastGroup?_eq (h : LastGroup closed lead rule ending) :
    lastGroup? (closed ++ lead ++ '[' :: rule ++ ']' :: ending) = some (closed ++ lead, rule) := by
  obtain ⟨hclosed, hlead, hrule, hending⟩ := h
  obtain ⟨c, tail, rfl⟩ := List.exists_cons_of_ne_nil hrule.1
  have htrim : Text.trimEnd (closed ++ lead ++ '[' :: c :: tail ++ ']' :: ending) =
      closed ++ (lead ++ '[' :: c :: tail) ++ [']'] := by
    rw [Text.trimEnd_append_cons (by decide) hending, List.append_assoc closed]
  have hunclosed : ']' ∉ lead ++ '[' :: c :: tail := by
    simpa [hlead.2] using hrule.2
  have hstretch : ∀ x ∈ lead ++ '[' :: c :: tail, (x != ']') = true :=
    fun x hx => bne_iff_ne.2 fun heq => hunclosed (heq ▸ hx)
  have hlast : ∀ x ∈ closed.getLast?, (x != ']') = false :=
    fun x hx => by simp [hclosed x hx]
  have hopen : ∀ x ∈ lead, (x != '[') = true :=
    fun x hx => bne_iff_ne.2 fun heq => hlead.1 (heq ▸ hx)
  obtain ⟨hdrop, htake⟩ := Text.rdropWhile_append hlast hstretch
  unfold LineParts.lastGroup?
  simp only [htrim, List.getLast?_concat, if_true, List.dropLast_concat, hdrop, htake,
    List.dropWhile_append_of_pos hopen, List.takeWhile_append_of_pos hopen]
  simp

/-- What is found as message and rule are parts of the line. -/
theorem exists_lastGroup (h : lastGroup? cs = some (message, rule)) :
    ∃ closed lead ending, LastGroup closed lead rule ending ∧ closed ++ lead = message ∧
      message ++ '[' :: rule ++ ']' :: ending = cs := by
  obtain ⟨ending, hending, hcs⟩ := Text.exists_trimEnd_append cs
  have hlast : (Text.trimEnd cs).getLast? = some ']' := by
    by_contra hne
    simp [lastGroup?, hne] at h
  obtain ⟨inner, hinner⟩ := List.getLast?_eq_some_iff.1 hlast
  simp only [lastGroup?, hinner, List.getLast?_concat, if_true, List.dropLast_concat] at h
  have hclosed : ∀ x ∈ (inner.rdropWhile (· != ']')).getLast?, x = ']' :=
    fun x hx => by simpa using Text.getLast?_rdropWhile hx
  have hunclosed : ']' ∉ inner.rtakeWhile (· != ']') :=
    fun hmem => by simpa using List.mem_rtakeWhile_imp hmem
  have hsplit : inner.rdropWhile (· != ']') ++ inner.rtakeWhile (· != ']') = inner :=
    List.rdropWhile_append_rtakeWhile
  generalize inner.rdropWhile (· != ']') = closed at h hclosed hsplit
  generalize inner.rtakeWhile (· != ']') = stretch at h hunclosed hsplit
  split at h
  · next c tail hopen =>
      cases h
      have hlead : '[' ∉ stretch.takeWhile (· != '[') :=
        fun hmem => by simpa using List.mem_takeWhile_imp hmem
      have hstretch : stretch.takeWhile (· != '[') ++ '[' :: c :: tail = stretch := by
        rw [← hopen, List.takeWhile_append_dropWhile]
      rw [← hstretch] at hunclosed
      simp only [List.mem_append, List.mem_cons, not_or] at hunclosed
      refine ⟨closed, _, ending, ⟨hclosed, ⟨hlead, hunclosed.1⟩, ⟨List.cons_ne_nil c tail, ?_⟩,
        hending⟩, rfl, ?_⟩
      · simpa using hunclosed.2.2
      · rw [List.append_assoc closed, hstretch, hsplit, ← hcs, hinner]
        simp
  · contradiction

/-- Whatever ends with a rule in brackets has a rule that is found. -/
theorem isSome_lastGroup? (ahead : List Char) (hrule : rule ≠ [] ∧ ']' ∉ rule)
    (hending : ∀ c ∈ ending, Text.isBlank c = true) :
    (lastGroup? (ahead ++ '[' :: (rule ++ ']' :: ending))).isSome := by
  obtain ⟨closed, stretch, rfl, hclosed, hstretch⟩ := Text.exists_append_of_last ']' ahead
  -- The rule that is found starts behind the first opening bracket and may be longer than `rule`.
  have hopen : '[' ∈ stretch ++ '[' :: rule := by
    simp
  obtain ⟨lead, inner, hsplit, hlead⟩ := List.eq_append_cons_of_mem hopen
  have hunclosed : ']' ∉ lead ++ '[' :: inner := by
    simp [← hsplit, hstretch, hrule.2]
  simp only [List.mem_append, List.mem_cons, not_or] at hunclosed
  have hinner : inner ≠ [] := by
    obtain ⟨-, rfl⟩ | ⟨between, -, rfl⟩ := Text.eq_or_exists_of_append_cons hlead hsplit
    · exact hrule.1
    · simp
  have htext : closed ++ stretch ++ '[' :: (rule ++ ']' :: ending) =
      closed ++ lead ++ '[' :: inner ++ ']' :: ending := by
    have hbody := congrArg (fun part => closed ++ part ++ ']' :: ending) hsplit
    simpa using hbody
  have hgroup : LastGroup closed lead inner ending :=
    ⟨hclosed, ⟨hlead, hunclosed.1⟩, ⟨hinner, hunclosed.2.2⟩, hending⟩
  rw [htext, hgroup.lastGroup?_eq]
  rfl

/-- Every opening bracket in front of the rule that is found has a closing bracket behind it. -/
theorem LastGroup.message_brackets (h : LastGroup closed lead rule ending)
    {before after : List Char} (hmessage : closed ++ lead = before ++ '[' :: after) :
    ']' ∈ after := by
  rcases List.append_eq_append_iff.1 hmessage with ⟨more, -, hlead⟩ | ⟨more, hclosed, hafter⟩
  · exact (h.lead.1 (by simp [hlead])).elim
  · cases more with
    | nil =>
        rw [List.nil_append] at hafter
        exact (h.lead.1 (by simp [← hafter])).elim
    | cons x more =>
        obtain ⟨rfl, rfl⟩ := List.cons.inj hafter
        have hne := List.cons_ne_nil '[' more
        have hlast : ('[' :: more).getLast hne = ']' := by
          refine h.closed _ ?_
          rw [hclosed, List.getLast?_append_of_ne_nil _ hne, List.getLast?_eq_some_getLast hne]
          exact rfl
        have hmem := List.getLast_mem hne
        rw [hlast] at hmem
        exact List.mem_append_left lead (List.mem_of_ne_of_mem (by decide) hmem)

/-- What is found as message and rule is the body of the grammar with the shortest message, when the
blanks at the end of the message are dropped. -/
theorem exists_body_of_lastGroup? (hfeed : '\n' ∉ cs) (h : lastGroup? cs = some (message, rule)) :
    ∃ b : BodyForm, b.Valid ∧ b.text = cs ∧ b.message = Text.trimEnd message ∧ b.rule = rule ∧
      ∀ b' : BodyForm, b'.Valid → b'.text = cs → b.message.length ≤ b'.message.length := by
  obtain ⟨closed, lead, ending, hgroup, hmessage, rfl⟩ := exists_lastGroup h
  obtain ⟨gap, hgap, hsplit⟩ := Text.exists_trimEnd_append message
  let b : BodyForm := ⟨Text.trimEnd message, gap, rule, ending⟩
  have htext : b.text = message ++ '[' :: rule ++ ']' :: ending := by
    simp only [b, BodyForm.text, hsplit]
  refine ⟨b, ⟨?_, hgap, hgroup.rule, hgroup.ending⟩, htext, rfl, rfl, fun b' hvalid' htext' => ?_⟩
  · intro hmem
    refine hfeed ?_
    rw [← hsplit]
    simp [show '\n' ∈ Text.trimEnd message from hmem]
  · refine BodyForm.length_message_le hvalid' (htext'.trans htext.symm) ?_ fun before after hb => ?_
    · exact fun c hc => Text.getLast?_rdropWhile hc
    · have hbrackets : closed ++ lead = before ++ '[' :: (after ++ gap) := by
        rw [hmessage, ← hsplit, show Text.trimEnd message = _ from hb]
        simp
      have hmem := hgroup.message_brackets hbrackets
      exact (List.mem_append.1 hmem).resolve_right (Text.not_mem_run hgap rfl)

end LineParts

/-! ## The first header of a line -/

namespace HeaderForm

variable {h h' : HeaderForm} {cs file file' rest rest' : List Char}

/-- No header starts at the end of a text. -/
theorem not_startsAt_nil (p : Nat) : ¬ StartsAt [] p := by
  rintro ⟨h, -, hprefix⟩
  rw [List.drop_nil, List.prefix_nil] at hprefix
  simp [text] at hprefix

/-- When no header is read at the head of a text, one that starts in it starts further on. -/
theorem StartsAt.exists_succ {c : Char} {p : Nat} (h : StartsAt (c :: cs) p)
    (hread : LineParts.header? (c :: cs) = none) : ∃ q, p = q + 1 ∧ StartsAt cs q := by
  cases p with
  | zero =>
      obtain ⟨header, hvalid, rest, hcs⟩ := h
      rw [List.drop_zero] at hcs
      rw [← hcs, header?_text_append hvalid] at hread
      contradiction
  | succ q => exact ⟨q, rfl, h⟩

/-- A header starts where it stands. -/
theorem startsAt_length (hvalid : h.Valid) (file rest : List Char) :
    StartsAt (file ++ (h.text ++ rest)) file.length := by
  refine ⟨h, hvalid, rest, ?_⟩
  rw [List.drop_left]

theorem IsFirst.startsAt (hfirst : h.IsFirst cs file rest) : StartsAt cs file.length := by
  rw [hfirst.split]
  exact startsAt_length hfirst.valid file rest

/-- The first header of a line and what stands around it are determined by the line. -/
theorem IsFirst.unique (hfirst : h.IsFirst cs file rest) (hfirst' : h'.IsFirst cs file' rest') :
    file = file' ∧ h = h' ∧ rest = rest' := by
  have hlength : file.length = file'.length := by
    by_contra hne
    rcases Nat.lt_or_gt_of_ne hne with hlt | hlt
    · exact hfirst'.least _ hlt hfirst.startsAt
    · exact hfirst.least _ hlt hfirst'.startsAt
  obtain ⟨hvalid, hcs, hstart, -⟩ := hfirst
  obtain ⟨hvalid', hcs', hstart', -⟩ := hfirst'
  obtain ⟨rfl, hrest⟩ := List.append_inj (hcs.symm.trans hcs') hlength
  obtain ⟨hline, hcolumn, hsgap, hseverity, hgap⟩ := text_append_inj hvalid hvalid' hrest
  obtain ⟨hmgap, rfl⟩ :=
    Text.run_append_inj hvalid.messageGap.2 hstart hvalid'.messageGap.2 hstart' hgap
  cases h
  cases h'
  simp_all

end HeaderForm

namespace LineParts

variable {cs file rest : List Char} {header : Header}

/-- What is found as the first header is the first header of the grammar. -/
theorem firstHeader?_sound (h : firstHeader? cs = some (file, header, rest)) :
    ∃ form : HeaderForm, form.IsFirst cs file rest ∧ form.header = header := by
  induction cs generalizing file with
  | nil => contradiction
  | cons c cs ih =>
      rw [firstHeader?] at h
      split at h
      · next hread =>
          cases h
          obtain ⟨form, hvalid, hheader, hcs, hstart⟩ := header?_sound hread
          exact ⟨form, ⟨hvalid, hcs, hstart, fun _ hp => absurd hp (Nat.not_lt_zero _)⟩, hheader⟩
      · next hread =>
          obtain ⟨⟨file, _, _⟩, hfound, heq⟩ := Option.map_eq_some_iff.1 h
          cases heq
          obtain ⟨form, hfirst, hheader⟩ := ih hfound
          refine ⟨form, ⟨hfirst.valid, congrArg (c :: ·) hfirst.split, hfirst.rest_start, ?_⟩,
            hheader⟩
          intro p hp hstarts
          obtain ⟨q, rfl, hlater⟩ := hstarts.exists_succ hread
          exact hfirst.least q (Nat.lt_of_succ_lt_succ hp) hlater

/-- Where no header is found none starts. -/
theorem not_startsAt_of_firstHeader? (h : firstHeader? cs = none) (p : Nat) :
    ¬ HeaderForm.StartsAt cs p := by
  induction cs generalizing p with
  | nil => exact HeaderForm.not_startsAt_nil p
  | cons c cs ih =>
      rw [firstHeader?] at h
      split at h
      · contradiction
      · next hread =>
          intro hstarts
          obtain ⟨q, -, hlater⟩ := hstarts.exists_succ hread
          exact ih (Option.map_eq_none_iff.1 h) q hlater

/-- A line has a first header exactly when a header starts somewhere in it. -/
theorem firstHeader?_eq_none_iff :
    firstHeader? cs = none ↔ ∀ p, ¬ HeaderForm.StartsAt cs p := by
  refine ⟨not_startsAt_of_firstHeader?, fun h => Option.eq_none_iff_forall_ne_some.2 ?_⟩
  rintro ⟨file, header, rest⟩ hfound
  obtain ⟨form, hfirst, -⟩ := firstHeader?_sound hfound
  exact h file.length hfirst.startsAt

/-- The header that is found is the first one of the grammar. -/
theorem firstHeader?_eq_some_iff :
    firstHeader? cs = some (file, header, rest) ↔
      ∃ form : HeaderForm, form.IsFirst cs file rest ∧ form.header = header := by
  refine ⟨firstHeader?_sound, ?_⟩
  rintro ⟨form, hfirst, rfl⟩
  cases hfound : firstHeader? cs with
  | none => exact absurd hfirst.startsAt (not_startsAt_of_firstHeader? hfound _)
  | some found =>
      obtain ⟨form', hfirst', hheader⟩ := firstHeader?_sound hfound
      obtain ⟨hfile, hform, hrest⟩ := hfirst.unique hfirst'
      rw [hfile, hform, hrest, hheader]

end LineParts

/-! ## The single scan -/

/-- In a diagnostic line a header starts where the file ends. -/
theorem LineForm.Valid.startsAt {f : LineForm} (hvalid : f.Valid) :
    HeaderForm.StartsAt f.text f.file.length := by
  unfold LineForm.text
  rw [List.append_assoc]
  exact HeaderForm.startsAt_length hvalid.header f.file f.toBodyForm.text

namespace HeaderForm

/-- A header holds no bracket. -/
theorem not_mem_text {h : HeaderForm} (hvalid : h.Valid) : '[' ∉ h.text := by
  have hline : '[' ∉ h.lineDigits := Text.not_mem_run hvalid.lineDigits.2 rfl
  have hcolumn : '[' ∉ h.columnDigits := Text.not_mem_run hvalid.columnDigits.2 rfl
  have hsgap : '[' ∉ h.severityGap := Text.not_mem_run hvalid.severityGap.2 rfl
  have hmgap : '[' ∉ h.messageGap := Text.not_mem_run hvalid.messageGap.2 rfl
  have hword : '[' ∉ h.severity.token.toList := by
    cases h.severity <;> decide
  simp [text, hline, hcolumn, hsgap, hmgap, hword]

/-- No header stands inside the file in front of the first one. -/
theorem IsFirst.not_occursIn {h : HeaderForm} {cs file rest : List Char}
    (hfirst : h.IsFirst cs file rest) : ¬ OccursIn file := by
  rintro ⟨inner, hvalid, -, before, after, hfile⟩
  have hlt : before.length < file.length := by
    simp only [← hfile, List.length_append, text, List.length_cons]
    omega
  refine hfirst.least before.length hlt ?_
  have hstarts := startsAt_length hvalid before (after ++ (h.text ++ rest))
  rwa [← List.append_assoc inner.text, ← List.append_assoc before, ← List.append_assoc before,
    hfile, ← hfirst.split] at hstarts

/-- In a diagnostic line, what follows the first header ends with the rule of the line. -/
theorem IsFirst.exists_group {h : HeaderForm} {file rest : List Char} {f : LineForm}
    (hfirst : h.IsFirst f.text file rest) (hvalid : f.Valid) :
    ∃ ahead, rest = ahead ++ '[' :: (f.rule ++ ']' :: f.ending) := by
  have htext : f.text = f.file ++ (f.toHeaderForm.text ++ f.toBodyForm.text) :=
    List.append_assoc _ _ _
  have hle : file.length ≤ f.file.length := by
    by_contra hlt
    exact hfirst.least f.file.length (Nat.lt_of_not_le hlt) hvalid.startsAt
  obtain ⟨more, hmore⟩ := List.prefix_of_prefix_length_le
    (hfirst.split ▸ List.prefix_append file _) (htext ▸ List.prefix_append f.file _) hle
  have hrest : more ++ f.toHeaderForm.text ++ f.message ++ f.ruleGap ++
      '[' :: (f.rule ++ ']' :: f.ending) = h.text ++ rest := by
    have hsplit := htext.symm.trans hfirst.split
    rw [← hmore, List.append_assoc] at hsplit
    rw [← List.append_cancel_left hsplit]
    simp [BodyForm.text]
  exact Text.exists_append_cons_of_not_mem (not_mem_text hfirst.valid) hrest

end HeaderForm

namespace Diagnostic

variable {cs : List Char}

/-- A line without line feeds is read from where its first header stands. -/
theorem ofLine?_of_isFirst {form : HeaderForm} {file rest : List Char} (hfeed : '\n' ∉ cs)
    (hfirst : form.IsFirst cs file rest) : ofLine? cs = ofSplit? file form.header rest := by
  unfold ofSplit?
  cases hgroup : LineParts.lastGroup? rest with
  | none =>
      refine ofLine?_eq_none fun f hvalid htext => ?_
      -- The rule of `f` stands behind the first header, whichever header `f` takes.
      subst htext
      obtain ⟨ahead, rfl⟩ := hfirst.exists_group hvalid
      have hsome := LineParts.isSome_lastGroup? ahead hvalid.body.rule hvalid.body.ending
      rw [hgroup] at hsome
      contradiction
  | some group =>
      obtain ⟨message, rule⟩ := group
      have hsplit := hfirst.split
      have hrest : '\n' ∉ rest := fun hmem => hfeed (by simp [hsplit, hmem])
      have hfile : '\n' ∉ file := fun hmem => hfeed (by simp [hsplit, hmem])
      obtain ⟨b, hvalid, hb, hmessage, rfl, hshortest⟩ :=
        LineParts.exists_body_of_lastGroup? hrest hgroup
      let f : LineForm := ⟨form, b, file⟩
      have htext : f.text = cs := by
        rw [hsplit, ← hb]
        exact List.append_assoc _ _ _
      have hreads : f.Reads f.text := by
        refine LineForm.reads_text ⟨hfile, hfirst.valid, hvalid⟩ hfirst.not_occursIn ?_ ?_
        · exact hb.symm ▸ hfirst.rest_start
        · exact fun b' hvalid' hb' => hshortest b' hvalid' (hb'.trans hb)
      rw [← htext, ofLine?_of_reads hreads]
      dsimp only [bind, Option.bind_some]
      rw [← hmessage]
      rfl

/-- What a line without line feeds states is cut around its first header. -/
theorem exists_isFirst_of_ofLine? {d : Diagnostic} (hfeed : '\n' ∉ cs) (h : ofLine? cs = some d) :
    ∃ (form : HeaderForm) (rest message : List Char), form.IsFirst cs d.file.toList rest ∧
      LineParts.lastGroup? rest = some (message, d.rule.toList) ∧
      d.line = form.header.line - 1 ∧ d.column = form.header.column - 1 := by
  obtain ⟨f, ⟨hvalid, rfl, -⟩, -, -⟩ := ofLine?_eq_some_iff.1 h
  cases hfound : LineParts.firstHeader? f.text with
  | none => exact absurd hvalid.startsAt (LineParts.not_startsAt_of_firstHeader? hfound _)
  | some found =>
      obtain ⟨file, header, rest⟩ := found
      obtain ⟨form, hfirst, rfl⟩ := LineParts.firstHeader?_sound hfound
      rw [ofLine?_of_isFirst hfeed hfirst, ofSplit?] at h
      obtain ⟨⟨message, rule⟩, hgroup, hd⟩ := Option.bind_eq_some_iff.1 h
      obtain ⟨-, hd⟩ := Option.ite_none_right_eq_some.1 hd
      cases hd
      refine ⟨form, rest, message, ?_, ?_, rfl, rfl⟩
      · rwa [String.toList_ofList]
      · rw [hgroup, String.toList_ofList]

/-- A line without line feeds is read by a single scan, which stops at the first place where a
header starts. If what follows that header does not end with a rule, or if a number in it is too
great, no other header is tried. -/
theorem ofLine?_eq_singleScan (hfeed : '\n' ∉ cs) :
    ofLine? cs = singleScan? cs ∧
      (LineParts.firstHeader? cs = none ↔ ∀ p, ¬ HeaderForm.StartsAt cs p) ∧
      ∀ file header rest, LineParts.firstHeader? cs = some (file, header, rest) ↔
        ∃ form : HeaderForm, form.IsFirst cs file rest ∧ form.header = header := by
  refine ⟨?_, LineParts.firstHeader?_eq_none_iff, fun _ _ _ => LineParts.firstHeader?_eq_some_iff⟩
  unfold singleScan?
  cases hfound : LineParts.firstHeader? cs with
  | none =>
      refine ofLine?_eq_none fun f hvalid htext => ?_
      exact LineParts.not_startsAt_of_firstHeader? hfound _ (htext ▸ hvalid.startsAt)
  | some found =>
      obtain ⟨file, header, rest⟩ := found
      obtain ⟨form, hfirst, rfl⟩ := LineParts.firstHeader?_sound hfound
      exact ofLine?_of_isFirst hfeed hfirst

/-- The rule that is taken is the last one of the line and starts at the first bracket it can start
at. The first header is taken even when its number is too great and a header behind it would do. -/
theorem ofLine?_eq_singleScan_two_headers :
    let line := "d:3:4: x.c:7:0: note: [a] b:1:1: error: [c [d] ".toList
    let great := "a:9223372036854775808:1: note: b:2:2: error: y [r]".toList
    ('\n' ∉ line ∧ '\n' ∉ great) ∧
      ofLine? line = some ⟨"d:3:4: x.c", 6, -1, .note, "[a] b:1:1: error:", "c [d"⟩ ∧
      (∃ h : HeaderForm, h.IsFirst great ['a'] "b:2:2: error: y [r]".toList ∧
        h.header = ⟨9223372036854775808, 1, .note⟩) ∧
      ofLine? great = none := by
  intro line great
  have hfeed : '\n' ∉ line ∧ '\n' ∉ great := by
    decide +kernel
  obtain ⟨hline, -⟩ := ofLine?_eq_singleScan hfeed.1
  obtain ⟨hgreat, -, hfirst⟩ := ofLine?_eq_singleScan hfeed.2
  rw [hline, hgreat]
  refine ⟨hfeed, by decide +kernel, (hfirst _ _ _).1 ?_, by decide +kernel⟩
  decide +kernel

/-- With a line feed the message behind the first header may fit the single scan only. -/
example :
    let line := "a.c:1:1: note: m\nb.c:2:2: error: y [r]".toList
    ofLine? line = none ∧ (singleScan? line).isSome := by
  decide +kernel

end Diagnostic

end LintSarif
