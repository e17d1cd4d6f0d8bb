import FeatureTree.Proofs.DocString.ReadBack
import FeatureTree.Proofs.Document.WellRead
import FeatureTree.Proofs.Source.Fences

/-!
Doc strings that were read are rendered without loss.

Each line of a content that was read between double quotes is unescaped, and of such a line escaping
loses nothing. So the doc string is read again from its own lines as it was, whatever its content.
-/

namespace FeatureTree

open Text Fence

namespace Source

lemma mem_of_mem_lineOfPiece {p : Text} {c : Char} (h : c ∈ lineOfPiece p) : c ∈ p := by
  have hmem := mem_of_mem_dropReturn h
  split at hmem
  · exact (List.dropLast_sublist p).mem hmem
  · exact hmem

/-- The lines of a text have no characters that the text has not. -/
lemma mem_of_mem_lines {t l : Text} {c : Char} (hl : l ∈ (ofText t).lines) (hc : c ∈ l) : c ∈ t := by
  obtain ⟨p, hp, rfl⟩ := List.mem_map.mp hl
  rw [← flatten_pieces t]
  exact List.mem_flatten.mpr ⟨p, hp, mem_of_mem_lineOfPiece hc⟩

/-- Content that was read between double quotes is made up of lines that escaping loses nothing of.
They have no characters but quotes and those of the lines of the text. -/
lemma exists_lines_of_quotes {t opening : Text} {s : Nat} {d : Located Fenced}
    (hd : (ofText t).docString? s = some d) (hopen : (ofText t).line? d.line = some opening)
    (hq : quotes.starts opening = true) :
    ∃ ls, d.value.content = joinLines ls
      ∧ ∀ l ∈ ls, unescape (escape l) = l ∧ ∀ c ∈ l, c ≠ '"' → c ∈ t ∧ c ≠ '\n' := by
  obtain ⟨f, skipped, o, body, closing, after, hdrop, -, -, hbrackets, hline, hvalue⟩ :=
    docString?_spec hd
  set lines := (ofText t).lines with hlines
  -- the doc string is located at its opening line, which tells the fence
  have hget : lines[s + skipped.length]? = some o := by
    rw [← List.getElem?_drop, hdrop, List.append_assoc, List.getElem?_append_right (by omega)]
    simp
  obtain rfl : o = opening := by
    rw [hline, line?, ← hlines, hget] at hopen
    exact Option.some.inj hopen
  obtain rfl : quotes = f := by
    have hopens := hbrackets.opens
    rw [opening?, if_pos hq] at hopens
    exact Option.some.inj hopens
  refine ⟨_, congrArg Fenced.content hvalue, fun l hl => ?_⟩
  obtain ⟨m, hm, rfl⟩ := List.mem_map.mp hl
  have hmem : m ∈ lines := by
    refine List.mem_of_mem_drop (i := s) ?_
    rw [hdrop]
    simp [hm]
  refine ⟨unescape_escape_unescape _, fun c hc hne => ?_⟩
  have hcm : c ∈ m := mem_of_mem_stripIndent (mem_of_mem_unescape hne hc)
  refine ⟨mem_of_mem_lines hmem hcm, ?_⟩
  rintro rfl
  exact newline_not_mem_lines hmem hcm

end Source

namespace DocString

/-- **A doc string that was read between double quotes is rendered without loss.** If the text it was
read from has no carriage returns, the doc string is read again with the same content and content
type from its own lines, at any indentation, behind any other lines and whatever follows. -/
theorem docString?_reread {t opening : Text} {s : Nat} {d : Located Fenced} (hreturn : '\r' ∉ t)
    (hd : (Source.ofText t).docString? s = some d)
    (hopen : (Source.ofText t).line? d.line = some opening) (hq : quotes.starts opening = true)
    (line : Option Nat) (raw : Option Json) (k : Nat) {before : Text} (hb : Ended before)
    (after : Text) :
    let doc : DocString := ⟨line, d.value.contentType, d.value.content, raw⟩
    (Source.ofText (before ++ joinLines (indent k doc.lines) ++ after)).docString?
        (before.count '\n')
      = some ⟨before.count '\n' + 1, d.value⟩ := by
  intro doc
  obtain ⟨ls, hcontent, hls⟩ := Source.exists_lines_of_quotes hd hopen hq
  have hnl : ∀ l ∈ ls, '\n' ∉ l := fun l hl hn => ((hls l hl).2 _ hn (by simp)).2 rfl
  -- the content is cut into the lines it was joined from, unless there were none
  have hline : ∀ l ∈ doc.content.cutAt '\n', l = [] ∨ l ∈ ls := by
    intro l hl
    change l ∈ d.value.content.cutAt '\n' at hl
    rw [hcontent] at hl
    by_cases hne : ls = []
    · rw [hne] at hl
      exact .inl (by simpa [joinLines, cutAt] using hl)
    · rw [cutAt_joinLines hne hnl] at hl
      exact .inr hl
  have htype : doc.TypeFits := by
    have hfits := Locate.docString_typeFits t 0 s []
    rwa [Locate.docString, hd] at hfits
  have hfree : doc.ReturnFree := by
    intro l hl hlast
    rcases hline l hl with rfl | hmem
    · simp at hlast
    · exact hreturn ((hls l hmem).2 _ (List.mem_of_getLast? hlast) (by simp)).1
  have hescape : ∀ l ∈ doc.content.cutAt '\n', unescape (escape l) = l := by
    intro l hl
    rcases hline l hl with rfl | hmem
    · exact replace_nil _ _
    · exact (hls l hmem).1
  obtain ⟨closing, rest, hc, hfrom⟩ := linesFrom_lines htype hfree k hb after
  rw [docString?_of_linesFrom htype hc hfrom, joinLines_bodyLines hescape]

/-- An escaped fence behind two escaped quotes and a backslash: the content has an escaped fence of
its own, which three quotes follow. -/
theorem docString?_reread_overlap :
    let t := "Given x\n  \"\"\"json\n  \\\"\\\"\\\\\"\\\"\\\"\n  \"\"\"\n".toList
    let d : Located Fenced := ⟨2, some "json".toList, "\\\"\\\"\\\"\"\"".toList⟩
    let doc : DocString := ⟨none, d.value.contentType, d.value.content, none⟩
    '\r' ∉ t ∧ (Source.ofText t).docString? 1 = some d ∧ quotes.escaped <:+: d.value.content
      ∧ (Source.ofText t).line? 2 = some "  \"\"\"json".toList
      ∧ quotes.starts "  \"\"\"json".toList = true ∧ Ended "When y\n".toList
      ∧ (Source.ofText ("When y\n".toList ++ joinLines (indent 3 doc.lines) ++ [])).docString? 1
        = some ⟨2, d.value⟩ := by
  intro t d doc
  have hreturn : '\r' ∉ t := by decide
  have hd : (Source.ofText t).docString? 1 = some d := by decide +kernel
  have hopen : (Source.ofText t).line? 2 = some "  \"\"\"json".toList := by decide +kernel
  have hq : quotes.starts "  \"\"\"json".toList = true := by decide
  exact ⟨hreturn, hd, by decide, hopen, hq, .inr rfl,
    docString?_reread hreturn hd hopen hq none none 3 (.inr rfl) []⟩

end DocString

end FeatureTree
