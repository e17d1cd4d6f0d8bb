import Mathlib.Data.Set.Card
import FeatureTree.Proofs.Files.ByteOrder
import FeatureTree.Proofs.Source.Range
import FeatureTree.Proofs.Text.Stretch

/-!
The lines of a text and their numbers.

An offset counts bytes and may stand inside a character. The byte of a newline occurs in the code
of no other character, so the newlines before an offset can be counted among the bytes; they give
the number of the line that the offset is on.
-/

namespace FeatureTree

open Text

/-! ### Newlines among the bytes -/

namespace Text

lemma bytes_append (s t : Text) : bytes (s ++ t) = bytes s ++ bytes t := List.flatMap_append

lemma length_bytes (t : Text) : (bytes t).length = byteLength t := by
  induction t with
  | nil => rfl
  | cons c t ih =>
    rw [bytes_cons, List.length_append, String.length_utf8EncodeChar, ih, byteLength]

/-- The byte of a newline is in no other code, since all bytes of a longer code are at least 128. -/
lemma newline_mem_encode {c : Char} (h : '\n'.toUInt8 ∈ String.utf8EncodeChar c) : c = '\n' := by
  have hbyte : '\n'.toUInt8.toNat = 10 := rfl
  suffices hval : c.val.toNat = 10 from Char.ext (UInt32.toNat_inj.mp hval)
  simp only [String.utf8EncodeChar] at h
  split_ifs at h <;>
    simp only [List.mem_cons, List.not_mem_nil, or_false, ← UInt8.toNat_inj, hbyte,
      UInt8.toNat_ofNat'] at h <;>
    omega

lemma newline_mem_bytes {t : Text} (h : '\n'.toUInt8 ∈ bytes t) : '\n' ∈ t := by
  obtain ⟨c, hc, hmem⟩ := List.mem_flatMap.mp h
  rwa [newline_mem_encode hmem] at hc

/-- Among the bytes of a text there are as many newlines as among its characters. -/
lemma count_newline_bytes (t : Text) : (bytes t).count '\n'.toUInt8 = t.count '\n' := by
  induction t with
  | nil => rfl
  | cons c t ih =>
    rw [bytes_cons, List.count_append, ih]
    by_cases hc : c = '\n'
    · subst hc
      rw [List.count_cons_self, Nat.add_comm]
      rfl
    · rw [List.count_cons_of_ne hc, List.count_eq_zero.mpr fun h => hc (newline_mem_encode h),
        Nat.zero_add]

namespace Stretch

variable {t : Text} {s : Stretch t} {o : Nat}

lemma le_of_at (h : s.At o) :
    byteLength s.before ≤ o ∧ o ≤ byteLength s.before + byteLength s.line := by
  rcases h with ⟨hle, hlt⟩ | ⟨rfl, -⟩ <;> omega

/-- The newlines before an offset are those before its line. -/
lemma count_take_bytes (h : s.At o) :
    ((bytes t).take o).count '\n'.toUInt8 = s.before.count '\n' := by
  obtain ⟨hle, hlt⟩ := le_of_at h
  have hbytes : bytes t = bytes s.before ++ (bytes s.line ++ bytes s.after) := by
    rw [← bytes_append, ← bytes_append, ← List.append_assoc, s.parts]
  have hfree : '\n'.toUInt8 ∉ (bytes s.line).take (o - byteLength s.before) :=
    fun hn => s.newline (newline_mem_bytes (List.mem_of_mem_take hn))
  rw [hbytes, List.take_append, List.take_of_length_le (by rwa [length_bytes]), length_bytes,
    List.take_append_of_le_length (by rw [length_bytes]; omega), List.count_append,
    count_newline_bytes, List.count_eq_zero.mpr hfree, Nat.add_zero]

/-! ### Lines and pieces -/

/-- A line and what follows it stand behind whole lines. -/
lemma exists_unlines_above (h : s.IsLine) :
    ∃ ls ps, s.before = unlines ls ∧ (∀ l ∈ ls, '\n' ∉ l) ∧
      t = unlines ls ++ (s.line ++ s.after) ∧ pieces (s.line ++ s.after) = s.piece :: ps := by
  obtain ⟨ls, hb, hls⟩ := (ended_before h.isMax).exists_unlines
  have ht : t = unlines ls ++ (s.line ++ s.after) := by rw [← hb, ← List.append_assoc, s.parts]
  rcases h.ended with ha | ⟨ha, hne⟩
  · obtain ⟨a, ha⟩ := List.head?_eq_some_iff.mp ha
    exact ⟨ls, pieces a, hb, hls, ht, by rw [piece, ha, pieces_line s.newline]; rfl⟩
  · refine ⟨ls, [], hb, hls, ht, ?_⟩
    rw [piece, ha, List.take_nil, List.append_nil, pieces_of_not_mem hne s.newline]

lemma lineOfPiece_piece (h : s.IsLine) : Source.lineOfPiece s.piece = dropReturn s.line := by
  rcases h.ended with ha | ⟨ha, -⟩
  · obtain ⟨a, ha⟩ := List.head?_eq_some_iff.mp ha
    rw [piece, ha]
    exact Source.lineOfPiece_newline s.line
  · rw [piece, ha, List.take_nil, List.append_nil, Source.lineOfPiece_of_not_mem s.newline]

/-- An offset on a line comes before the end of its piece. -/
lemma lt_piece_of_at (h : s.At o) : o < byteLength s.before + byteLength s.piece := by
  rw [piece, byteLength_append]
  rcases h with ⟨-, hlt⟩ | ⟨rfl, hend⟩
  · omega
  · obtain ⟨a, ha⟩ := List.head?_eq_some_iff.mp hend
    have hsize : byteLength (List.take 1 ('\n' :: a)) = 1 := rfl
    rw [ha, hsize]
    omega

/-- The lines of a text are as many as there are in a list of them from the top down. -/
lemma ncard_isLine {ss : List (Stretch t)} (hmem : ∀ s, s ∈ ss ↔ s.IsLine)
    (hsorted : ss.Pairwise fun r s => r.before.length < s.before.length) :
    {s : Stretch t | s.IsLine}.ncard = ss.length := by
  classical
  have hnodup : ss.Nodup := hsorted.imp fun hlt heq => by
    rw [heq] at hlt
    exact Nat.lt_irrefl _ hlt
  have hset : {s : Stretch t | s.IsLine} = ss.toFinset := by
    ext s
    simp [hmem]
  rw [hset, Set.ncard_coe_finset, List.toFinset_card_of_nodup hnodup]

end Stretch

end Text

namespace Source

variable {t : Text} {s : Stretch t} {o : Nat}

/-! ### Numbers of lines -/

/-- **The number of a line** is one more than the newlines before it, for every offset on it. -/
lemma lineOf_of_at (hmax : IsMax s) (h : s.At o) :
    (ofText t).lineOf o = s.before.count '\n' + 1 := by
  obtain ⟨ls, ps, hb, hls, ht, hps⟩ := Stretch.exists_unlines_above (Stretch.isLine_of_at hmax h)
  have hlt := Stretch.lt_piece_of_at h
  obtain ⟨k, rfl⟩ := Nat.exists_eq_add_of_le (Stretch.le_of_at h).1
  have hne : s.line ++ s.after ≠ [] := by
    intro hnil
    simp [hnil, pieces] at hps
  calc (ofText t).lineOf (byteLength s.before + k)
      = (ofText (unlines ls ++ (s.line ++ s.after))).lineOf (byteLength (unlines ls) + k) := by
        rw [← ht, hb]
    _ = ls.length + (ofText (s.line ++ s.after)).lineOf k := lineOf_unlines_append hls hne k
    _ = ls.length + 1 := by rw [lineOf_first_piece hps (by omega)]
    _ = s.before.count '\n' + 1 := by rw [hb, count_newline_unlines hls]

lemma line?_of_isLine (h : s.IsLine) :
    (ofText t).line? (s.before.count '\n' + 1) = some (dropReturn s.line) := by
  obtain ⟨ls, ps, hb, hls, ht, hps⟩ := Stretch.exists_unlines_above h
  have hlines : (ofText t).lines = ls.map dropReturn ++ dropReturn s.line :: ps.map lineOfPiece := by
    conv_lhs => rw [ht, lines_unlines_append hls, lines_ofText, hps, List.map_cons]
    rw [Stretch.lineOfPiece_piece h]
  rw [line?, hlines, hb, count_newline_unlines hls]
  simp

lemma line?_eq_none_iff (s : Source) (n : Nat) : s.line? n = none ↔ n = 0 ∨ s.lineCount < n := by
  cases n with
  | zero => simp [line?]
  | succ n =>
    rw [line?, List.getElem?_eq_none_iff, lineCount]
    omega

/-! ### All numbered lines -/

lemma linesFrom_one (s : Source) : s.linesFrom 1 = countFrom 1 s.lines := numbered_eq s

/-- A line is listed with its number and no other one. -/
lemma mem_linesFrom_one_iff {s : Source} {n : Nat} {l : Text} :
    (n, l) ∈ s.linesFrom 1 ↔ s.line? n = some l := by
  change (n, l) ∈ s.numbered ↔ _
  simp only [List.mem_iff_getElem?, getElem?_numbered, Option.map_eq_some_iff, Prod.mk.injEq]
  cases n with
  | zero => simp [line?]
  | succ n => simp [line?]

lemma length_linesFrom_one (s : Source) : (s.linesFrom 1).length = s.lineCount := by
  rw [linesFrom_one, length_countFrom, lineCount]

/-- **The line index of a text is exact.** An offset inside the text is on the line whose number is
one more than the newlines before it. The text of this line is the one maximal stretch without
newlines that holds the offset or ends there, less a carriage return at its end. A number has no
line exactly if it is zero or greater than the number of lines. All lines are listed once and in
order with their numbers; they are, from the top down, the maximal stretches that a newline or the
end of the text ends, and there are as many entries as such stretches. -/
theorem index_exact (t : Text) :
    (∀ o < byteLength t,
      (ofText t).lineOf o = ((bytes t).take o).count '\n'.toUInt8 + 1 ∧
      ∃ s : Stretch t, (∀ r : Stretch t, IsMax r ∧ r.At o ↔ r = s) ∧
        (ofText t).line? ((ofText t).lineOf o) = some (dropReturn s.line)) ∧
    (∀ n, (ofText t).line? n = none ↔ n = 0 ∨ (ofText t).lineCount < n) ∧
    ((ofText t).linesFrom 1).map Prod.fst = List.range' 1 (ofText t).lineCount ∧
    (∀ n l, (n, l) ∈ (ofText t).linesFrom 1 ↔ (ofText t).line? n = some l) ∧
    (∃ ss : List (Stretch t), (∀ s, s ∈ ss ↔ s.IsLine) ∧
      (ss.Pairwise fun r s => r.before.length < s.before.length) ∧
      ((ofText t).linesFrom 1).map Prod.snd = ss.map fun s => dropReturn s.line) ∧
    ((ofText t).linesFrom 1).length = {s : Stretch t | s.IsLine}.ncard := by
  obtain ⟨ss, hmem, hsorted, hpieces⟩ := Stretch.exists_pieces_eq_map t
  have hlines : (ofText t).lines = ss.map fun s => dropReturn s.line := by
    rw [lines_ofText, hpieces, List.map_map]
    exact List.map_congr_left fun s hs => Stretch.lineOfPiece_piece ((hmem s).mp hs)
  refine ⟨fun o ho => ?_, line?_eq_none_iff _, ?_, fun n l => mem_linesFrom_one_iff,
    ⟨ss, hmem, hsorted, ?_⟩, ?_⟩
  · obtain ⟨s, hmax, hat⟩ := Stretch.exists_at ho
    have hnumber := lineOf_of_at hmax hat
    refine ⟨by rw [hnumber, Stretch.count_take_bytes hat], s, fun r => ⟨?_, ?_⟩, ?_⟩
    · rintro ⟨hr, hrat⟩
      have hsame := (lineOf_of_at hr hrat).symm.trans hnumber
      exact Stretch.eq_of_count_eq hr hmax (Nat.succ.inj hsame)
    · rintro rfl
      exact ⟨hmax, hat⟩
    · rw [hnumber, line?_of_isLine (Stretch.isLine_of_at hmax hat)]
  · rw [linesFrom_one, map_fst_countFrom, lineCount]
  · rw [linesFrom_one, map_snd_countFrom, hlines]
  · rw [length_linesFrom_one, lineCount, hlines, List.length_map, Stretch.ncard_isLine hmem hsorted]

/-- Offsets inside a character, on a newline and on the last line, which no newline ends. -/
theorem index_exact_multibyte :
    let t := "é\r\n\nx".toList
    byteLength t = 6 ∧
      ((ofText t).lineOf 1 = 1 ∧ (ofText t).line? 1 = some "é".toList) ∧
      ((ofText t).lineOf 4 = 2 ∧ (ofText t).line? 2 = some []) ∧
      (ofText t).lineOf 5 = 3 ∧ (ofText t).line? 4 = none := by
  intro t
  obtain ⟨hoffset, hnone, -⟩ := index_exact t
  -- a line that is written down is the one that the theorem speaks of
  have hline : ∀ (s : Stretch t) (o n : Nat), o < byteLength t → IsMax s → s.At o →
      ((bytes t).take o).count '\n'.toUInt8 + 1 = n →
      (ofText t).lineOf o = n ∧ (ofText t).line? n = some (dropReturn s.line) := by
    intro s o n ho hmax hat hn
    obtain ⟨hnumber, r, hr, hline⟩ := hoffset o ho
    rw [hnumber, hn] at hline
    rw [(hr s).mp ⟨hmax, hat⟩]
    exact ⟨hnumber.trans hn, hline⟩
  refine ⟨by decide, ?_, ?_, (hoffset 5 (by decide)).1.trans (by decide), ?_⟩
  · exact hline ⟨[], "é\r".toList, "\n\nx".toList, rfl, by decide⟩ 1 1 (by decide)
      (Stretch.isMax_iff.mpr ⟨.inl rfl, .inr rfl⟩) (.inl ⟨by decide, by decide⟩) (by decide)
  · exact hline ⟨"é\r\n".toList, [], "\nx".toList, rfl, by decide⟩ 4 2 (by decide)
      (Stretch.isMax_iff.mpr ⟨.inr rfl, .inr rfl⟩) (.inr ⟨by decide, rfl⟩) (by decide)
  · exact (hnone 4).mpr (.inr (by decide))

end Source

end FeatureTree
