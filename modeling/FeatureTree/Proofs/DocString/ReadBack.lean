import FeatureTree.Node.Render
import FeatureTree.Proofs.Markup.Escape
import FeatureTree.Proofs.Source.Placed
import FeatureTree.Source.DocString

/-!
Rendered doc strings read back.

No escaped line starts with the fence, so the first line that does is the closing one. The opening
line stands as far right as the doc string was moved, and each line of content loses just that.
-/

namespace FeatureTree

open Text Fence

namespace DocString

/-- The lines between the fences as they are written. -/
def bodyLines (d : DocString) : List Text :=
  (if d.content.isEmpty then [] else d.content.cutAt '\n').map escape

/-- The line that opens a doc string. -/
def openingLine (d : DocString) : Text := quotes.mark ++ d.contentType.getD []

lemma lines_eq (d : DocString) : d.lines = d.openingLine :: (d.bodyLines ++ [quotes.mark]) := rfl

/-- A content type that can stand after a fence: trimmed, not empty, on one line. -/
def TypeFits (d : DocString) : Prop :=
  ∀ ty, d.contentType = some ty → ty ≠ [] ∧ trim ty = ty ∧ '\n' ∉ ty

/-- No line of the content ends in a carriage return. -/
def ReturnFree (d : DocString) : Prop := ∀ l ∈ d.content.cutAt '\n', l.getLast? ≠ some '\r'

variable {d : DocString}

lemma newline_not_mem_openingLine (h : d.TypeFits) : '\n' ∉ d.openingLine := by
  rw [openingLine]
  cases hd : d.contentType with
  | none => simp [mark]
  | some ty => simpa [mark] using (h ty hd).2.2

lemma openingLine_getLast? (h : d.TypeFits) : d.openingLine.getLast? ≠ some '\r' := by
  rw [openingLine]
  cases hd : d.contentType with
  | none => simp [mark]
  | some ty =>
    obtain ⟨hne, htrim, -⟩ := h ty hd
    have := getLast?_ne_return_of_trimEnd (trimEnd_eq_self_of_trim htrim)
    rw [Option.getD_some, List.getLast?_append]
    cases hl : ty.getLast? with
    | none => exact absurd (List.getLast?_eq_none_iff.mp hl) hne
    | some c => rwa [hl] at this

/-- The content type is what the opening line says after the fence. -/
lemma typeOf_openingLine (h : d.TypeFits) (k : Nat) :
    Source.typeOf quotes (indentLine k d.openingLine) = d.contentType := by
  have hstart : trimStart d.openingLine = d.openingLine := by
    rw [openingLine]; exact trimStart_cons_of_not_blank _ (by simp)
  rw [Source.typeOf, trimStart_indentLine, hstart, openingLine, List.drop_left]
  cases hd : d.contentType with
  | none => rfl
  | some ty =>
    obtain ⟨hne, htrim, -⟩ := h ty hd
    rw [Option.getD_some, trimmed?, htrim]
    cases ty with
    | nil => exact absurd rfl hne
    | cons c t => rfl

lemma opening?_openingLine (d : DocString) (k : Nat) :
    opening? (indentLine k d.openingLine) = some quotes := by
  have hstart : quotes.starts (indentLine k d.openingLine) = true := by
    rw [starts, trimStart_indentLine, openingLine]
    simp [mark]
  rw [opening?, if_pos hstart]

lemma isSkipped_openingLine (d : DocString) (k : Nat) :
    Source.isSkipped (indentLine k d.openingLine) = false := by
  rw [Source.isSkipped, trimStart_indentLine, openingLine]
  rfl

lemma exists_of_mem_bodyLines {l : Text} (h : l ∈ d.bodyLines) :
    ∃ m ∈ d.content.cutAt '\n', l = escape m := by
  rw [bodyLines, List.mem_map] at h
  obtain ⟨m, hm, rfl⟩ := h
  split at hm
  · simp at hm
  · exact ⟨m, hm, rfl⟩

lemma newline_not_mem_bodyLines {l : Text} (h : l ∈ d.bodyLines) : '\n' ∉ l := by
  obtain ⟨m, hm, rfl⟩ := exists_of_mem_bodyLines h
  exact mt newline_mem_escape_iff.mp (newline_not_mem_of_mem_cutAt hm)

/-! ### The lines in place -/

lemma newline_not_mem_lines (h : d.TypeFits) {l : Text} (hl : l ∈ d.lines) : '\n' ∉ l := by
  rw [lines_eq, List.mem_cons, List.mem_append, List.mem_singleton] at hl
  rcases hl with rfl | hl | rfl
  · exact newline_not_mem_openingLine h
  · exact newline_not_mem_bodyLines hl
  · simp [mark]

/-- No line of a doc string has a carriage return that would be lost. -/
lemma getLast?_lines (ht : d.TypeFits) (hr : d.ReturnFree) {l : Text} (hl : l ∈ d.lines) :
    l.getLast? ≠ some '\r' := by
  rw [lines_eq, List.mem_cons, List.mem_append, List.mem_singleton] at hl
  rcases hl with rfl | hl | rfl
  · exact openingLine_getLast? ht
  · obtain ⟨m, hm, rfl⟩ := exists_of_mem_bodyLines hl
    rw [getLast?_escape]
    exact hr m hm
  · simp [mark]

lemma body?_append {ls : List Text} {close : Text} (rest : List Text)
    (h : ∀ l ∈ ls, quotes.starts l = false) (hc : quotes.starts close = true) :
    Source.body? quotes (ls ++ close :: rest) = some ls := by
  induction ls with
  | nil => simp [Source.body?, hc]
  | cons l ls ih =>
    have hl : quotes.starts l = false := h l (by simp)
    have := ih fun m hm => h m (by simp [hm])
    simp [Source.body?, hl, this]

/-- The closing fence is found where it was written: no line of content starts with one. -/
lemma body?_bodyLines (d : DocString) (k : Nat) {closing : Text} (hc : quotes.starts closing = true)
    (rest : List Text) :
    Source.body? quotes (indent k d.bodyLines ++ closing :: rest) = some (indent k d.bodyLines) := by
  refine body?_append rest ?_ hc
  intro l hl
  obtain ⟨m, hm, rfl⟩ := List.mem_map.mp hl
  obtain ⟨n, -, rfl⟩ := exists_of_mem_bodyLines hm
  rw [starts_indentLine, not_starts_escape]

/-- What the lines of content say once they are read. -/
lemma map_contentLine_indent (d : DocString) (k : Nat) :
    (indent k d.bodyLines).map (Source.contentLine quotes (indentation (indentLine k d.openingLine)))
      = d.bodyLines.map unescape := by
  have hin : indentation (indentLine k d.openingLine) = 2 * k := by
    rw [openingLine]; exact indentation_indentLine k (by simp)
  rw [indent, List.map_map]
  refine List.map_congr_left fun l _ => ?_
  rw [Function.comp_apply, hin, Source.contentLine, stripIndent_indentLine]
  rfl

/-- Content is what the lines say, if nothing of its own lines is lost. -/
lemma joinLines_bodyLines (h : ∀ l ∈ d.content.cutAt '\n', unescape (escape l) = l) :
    joinLines (d.bodyLines.map unescape) = d.content := by
  rw [bodyLines]
  split
  · rename_i hn
    simp [List.isEmpty_iff.mp hn, joinLines]
  · have : ((d.content.cutAt '\n').map escape).map unescape = d.content.cutAt '\n' := by
      rw [List.map_map]
      conv_rhs => rw [← List.map_id (d.content.cutAt '\n')]
      exact List.map_congr_left h
    rw [this, joinLines_cutAt]

/-- Content without an escape of its own is what the lines say. -/
lemma joinLines_unescape (h : ¬ quotes.escaped <:+: d.content) :
    joinLines (d.bodyLines.map unescape) = d.content := by
  refine joinLines_bodyLines fun l hl => unescape_escape fun hin => h ?_
  rw [← joinLines_cutAt d.content]
  exact hin.trans (infix_joinLines hl)

/-- The lines of a doc string are the lines of their text. -/
lemma mem_indent_lines (ht : d.TypeFits) (hr : d.ReturnFree) (k : Nat) :
    ∀ l ∈ indent k d.lines, '\n' ∉ l ∧ dropReturn l = l := by
  intro l hl
  obtain ⟨m, hm, rfl⟩ := List.mem_map.mp hl
  refine ⟨newline_not_mem_indentLine k (newline_not_mem_lines ht hm), dropReturn_of_getLast? ?_⟩
  rw [getLast?_indentLine]
  exact getLast?_lines ht hr hm

lemma indent_lines (d : DocString) (k : Nat) :
    indent k d.lines = indent k (d.openingLine :: d.bodyLines) ++ [indentLine k quotes.mark] := by
  rw [lines_eq, ← List.cons_append, indent, List.map_append]
  rfl

/-- What follows the closing fence on its line does not keep it from closing. -/
lemma starts_closing (k : Nat) (u : Text) :
    quotes.starts (indentLine k quotes.mark ++ u) = true := by
  have hline : indentLine k quotes.mark ++ u = indentLine k (quotes.mark ++ u) := by
    simp [indentLine, mark]
  rw [hline, starts_indentLine, starts]
  simp [mark]

/-- Behind whole lines the lines of a doc string are found where they were placed, whatever follows
them. -/
lemma linesFrom_lines (ht : d.TypeFits) (hr : d.ReturnFree) (k : Nat) {before : Text}
    (hb : Ended before) (after : Text) :
    ∃ closing rest, quotes.starts closing = true ∧
      (Source.ofText (before ++ joinLines (indent k d.lines) ++ after)).linesFrom
          (before.count '\n' + 1)
        = Source.countFrom (before.count '\n' + 1)
          (indent k (d.openingLine :: d.bodyLines) ++ closing :: rest) := by
  have hmem := mem_indent_lines ht hr k
  rw [indent_lines] at hmem ⊢
  set above := indent k (d.openingLine :: d.bodyLines)
  set closed := indentLine k quotes.mark with hclosed
  have habove : ∀ l ∈ above, '\n' ∉ l ∧ dropReturn l = l := fun l hl => hmem l (by simp [hl])
  have hdrop : above.map dropReturn = above := map_dropReturn fun l hl => (habove l hl).2
  have hne : closed ≠ [] := by simp [hclosed, indentLine_eq_nil_iff, mark]
  have hlast : closed.getLast? ≠ some '\r' := by
    rw [hclosed, getLast?_indentLine]
    simp [mark]
  obtain ⟨u, rest, hfrom⟩ := Source.linesFrom_placed_concat hb (fun l hl => (habove l hl).1)
    (hmem closed (by simp)).1 hne after
  obtain ⟨v, hv⟩ := exists_dropReturn_append hlast u
  rw [hdrop, hv] at hfrom
  exact ⟨_, rest, starts_closing k v, hfrom⟩

/-- A doc string whose lines are the first after line `s`, whatever follows them. -/
lemma docString?_of_linesFrom {source : Source} {s k : Nat} {closing : Text} {rest : List Text}
    (ht : d.TypeFits) (hc : quotes.starts closing = true)
    (h : source.linesFrom (s + 1)
      = Source.countFrom (s + 1) (indent k (d.openingLine :: d.bodyLines) ++ closing :: rest)) :
    source.docString? s
      = some ⟨s + 1, d.contentType, joinLines (d.bodyLines.map unescape)⟩ := by
  have hlines : indent k (d.openingLine :: d.bodyLines) ++ closing :: rest
      = indentLine k d.openingLine :: (indent k d.bodyLines ++ closing :: rest) := rfl
  rw [hlines, Source.countFrom_cons] at h
  have hbody := body?_bodyLines d k hc rest
  rw [Source.docString?, h,
    List.dropWhile_cons_of_neg (by simp [isSkipped_openingLine])]
  simp only [Source.map_snd_countFrom, opening?_openingLine, hbody, Option.bind_eq_bind,
    Option.bind_some, typeOf_openingLine ht, map_contentLine_indent]
  rfl

/-- **A rendered doc string is read back.** Right after line `s` it is found on line `s + 1`, with
its content type, and the closing fence is found just where it was written, whatever the content
is and whatever follows. Content without an escaped fence of its own comes back as it was. -/
theorem docString?_lines (d : DocString) (k : Nat) (before after : Text) (ht : d.TypeFits)
    (hr : d.ReturnFree) (hb : Ended before) :
    let source := Source.ofText (before ++ joinLines (indent k d.lines) ++ after)
    let s := before.count '\n'
    let content := joinLines (d.bodyLines.map unescape)
    source.docString? s = some ⟨s + 1, d.contentType, content⟩ ∧
      Source.body? quotes ((source.linesFrom (s + 2)).map Prod.snd)
        = some (indent k d.bodyLines) ∧
      (¬ quotes.escaped <:+: d.content → content = d.content) := by
  intro source s content
  obtain ⟨closing, rest, hc, hfrom⟩ := linesFrom_lines ht hr k hb after
  refine ⟨docString?_of_linesFrom ht hc hfrom, ?_, joinLines_unescape⟩
  have htail : (source.linesFrom (s + 2)).map Prod.snd
      = indent k d.bodyLines ++ closing :: rest := by
    rw [Source.linesFrom_succ, hfrom]
    simp [indent]
  rw [htail, body?_bodyLines d k hc]

/-- Runs of quotes, a fence of the content, a backslash before a quote and blank lines. -/
theorem docString?_lines_quotes :
    let d : DocString :=
      { contentType := some "json".toList, content := "\"\"\"\"\"\n  \\\"\"\"\"\n\n   ".toList }
    let after := " \"\"\"\r\nThen y\r\n".toList
    d.TypeFits ∧ d.ReturnFree ∧ Ended "Given x\n".toList ∧
      (Source.ofText ("Given x\n".toList ++ joinLines (indent 2 d.lines) ++ after)).docString? 1
        = some ⟨2, some "json".toList, d.content⟩ := by
  intro d after
  have ht : d.TypeFits := by
    intro ty h
    obtain rfl : "json".toList = ty := Option.some.inj h
    decide +kernel
  have hr : d.ReturnFree := by
    unfold ReturnFree
    decide +kernel
  refine ⟨ht, hr, .inr rfl, ?_⟩
  obtain ⟨h1, -, h3⟩ := docString?_lines d 2 "Given x\n".toList after ht hr (.inr rfl)
  rw [h3 (by decide +kernel)] at h1
  exact h1

end DocString

end FeatureTree
