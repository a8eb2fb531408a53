/-
The indentation in front of an offset, as the line says it: the longest run of
blanks that its line starts with and that ends where the offset is, or before.
Offsets, lines and slices are those of the encoded text, as for the range to
reformat; a blank may take up to three bytes.

Everything is read off the line in front of the offset (`exists_lineUpTo`), and an
offset has one line only (`LineUpTo.eq`). The main theorem is `indentAt_exact`.
-/
import FormDesk.Proofs.Reformatting

namespace FormDesk

/-! ## Lines and blanks of the encoded text -/

/-- The line that byte `offset` is in starts at byte `start`. -/
def LineStart (text : String) (offset start : Nat) : Prop :=
  IsGreatest {n | StartsLine text n ∧ n ≤ offset} start

/-- From byte `start` to byte `stop` there are blanks. -/
def BlankSlice (text : String) (start stop : Nat) (blanks : String) : Prop :=
  Slice text start stop blanks ∧ ∀ c ∈ blanks.toList, isBlank c = true

/-- What is indentation in front of byte `offset` on the line that starts at byte `start`: blanks, and as many
of them as there are. -/
structure Indents (text : String) (start offset : Nat) (indent : String) : Prop where
  blank : BlankSlice text start (start + indent.utf8ByteSize) indent
  within : start + indent.utf8ByteSize ≤ offset
  longest : ∀ stop blanks, BlankSlice text start stop blanks → stop ≤ offset → ∃ rest, indent = blanks ++ rest

/-- From byte `start` on there are blanks up to byte `first`, and no blank there. -/
def FirstInk (text : String) (start first : Nat) (blanks : String) : Prop :=
  BlankSlice text start first blanks ∧
    ∃ c, isBlank c = false ∧ Slice text first (first + c.utf8Size) (String.singleton c)

/-- The text up to byte `offset` is lines that are over and `line`; behind it there is `rest`. -/
structure LineUpTo (text : String) (offset : Nat) (lines line rest : List Char) : Prop where
  text : text.toList = lines ++ line ++ rest
  size : byteSize (lines ++ line) = offset
  ended : lines = [] ∨ ∃ whole, lines = whole ++ ['\n']
  unbroken : '\n' ∉ line

theorem exists_lineUpTo {text : String} {offset : Nat} (hoffset : Boundary text offset) :
    ∃ lines line rest, LineUpTo text offset lines line rest ∧
      indentAt text offset = (.ofList (line.takeWhile isBlank), []) := by
  obtain ⟨before, rest, htext, hsize⟩ := boundary_iff.mp hoffset
  obtain ⟨lines, hbefore, hover⟩ := exists_line before
  have hcut : cutAt? text.toList offset = some (before, rest) := cutAt?_eq_some.mpr ⟨htext, hsize⟩
  refine ⟨lines, lastLine before, rest, ⟨?_, ?_, hover, newline_not_mem_lastLine before⟩, ?_⟩
  · rw [← hbefore, htext]
  · rw [← hbefore, hsize]
  · simp only [indentAt, indent?, hcut, Option.map_some]

/-- Nothing is indentation where the text cannot be cut. -/
theorem indentAt_of_not_boundary {text : String} {offset : Nat} (hoffset : ¬Boundary text offset) :
    indentAt text offset = ("", [.noIndentation]) := by
  have hcut : cutAt? text.toList offset = none := by
    rw [Option.eq_none_iff_forall_ne_some]
    rintro ⟨before, after⟩ hcut
    obtain ⟨htext, hsize⟩ := cutAt?_eq_some.mp hcut
    exact hoffset (boundary_iff.mpr ⟨before, after, htext, hsize⟩)
  simp only [indentAt, indent?, hcut, Option.map_none]

/-- A cut is determined by its offset. -/
theorem append_inj_of_byteSize {a b c d : List Char} (h : a ++ b = c ++ d) (hsize : byteSize a = byteSize c) :
    a = c ∧ b = d := by
  obtain ⟨t, rfl, rfl⟩ := exists_append_of_byteSize_le h hsize.le
  rw [byteSize_append] at hsize
  obtain rfl := byteSize_eq_zero.mp (show byteSize t = 0 by omega)
  simp

/-- A slice of the text is a piece of its characters. -/
theorem Slice.pieces {text region : String} {start stop : Nat} (h : Slice text start stop region) :
    ∃ before after, text.toList = before ++ (region.toList ++ after) ∧ byteSize before = start ∧
      start + byteSize region.toList = stop := by
  obtain ⟨before, after, rfl, rfl, rfl⟩ := h
  refine ⟨before.toList, after.toList, by simp, byteSize_toList before, ?_⟩
  rw [byteSize_toList, String.utf8ByteSize_append]

theorem slice_of_pieces {text : String} {before region after : List Char}
    (htext : text.toList = before ++ (region ++ after)) :
    Slice text (byteSize before) (byteSize before + byteSize region) (.ofList region) := by
  have hslice : Slice text (byteSize before) (byteSize (before ++ region)) (.ofList region) :=
    slice_of_toList (htext.trans (List.append_assoc ..).symm)
  rwa [byteSize_append] at hslice

/-! ## Longest runs -/

/-- A longer list does not start with less of a kind. -/
theorem takeWhile_prefix_append (p : Char → Bool) (a b : List Char) : a.takeWhile p <+: (a ++ b).takeWhile p := by
  rw [List.takeWhile_append]
  split
  · exact (List.takeWhile_prefix p).trans (List.prefix_append ..)
  · exact List.prefix_rfl

theorem takeWhile_eq_of_stops {p : Char → Bool} {a b : List Char} (ha : ∀ c ∈ a, p c = true)
    (hb : ∀ c, b.head? = some c → p c = false) : (a ++ b).takeWhile p = a := by
  rw [List.takeWhile_append_of_pos ha]
  cases b with
  | nil => simp
  | cons c b => simp [hb c rfl]

/-! ## The line up to an offset -/

namespace LineUpTo

variable {text : String} {offset later : Nat} {lines line rest lines' line' rest' : List Char}

theorem lineStart (h : LineUpTo text offset lines line rest) : LineStart text offset (byteSize lines) := by
  have hgreatest := startsLine_greatest h.text h.unbroken h.ended
  rwa [h.size] at hgreatest

theorem start_eq (h : LineUpTo text offset lines line rest) {start : Nat} (hstart : LineStart text offset start) :
    start = byteSize lines := hstart.unique h.lineStart

/-- Where a text is cut at the start of the line, the line is in front of what is behind it. -/
theorem tail_eq (h : LineUpTo text offset lines line rest) {before after : List Char}
    (htext : text.toList = before ++ after) (hsize : byteSize before = byteSize lines) : after = line ++ rest := by
  have hsplit : before ++ after = lines ++ (line ++ rest) := by rw [← htext, h.text, List.append_assoc]
  exact (append_inj_of_byteSize hsplit hsize).2

/-- Characters behind the start of the line that end in front of the offset are the first ones of the line. -/
theorem exists_append (h : LineUpTo text offset lines line rest) {front after : List Char}
    (hafter : front ++ after = line ++ rest) (hsize : byteSize lines + byteSize front ≤ offset) :
    ∃ t, line = front ++ t ∧ after = t ++ rest := by
  have hoffset := h.size
  rw [byteSize_append] at hoffset
  exact exists_append_of_byteSize_le hafter (by omega)

/-- The blanks that the line starts with are the indentation. -/
theorem indents (h : LineUpTo text offset lines line rest) :
    Indents text (byteSize lines) offset (.ofList (line.takeWhile isBlank)) := by
  have hline : line.takeWhile isBlank ++ line.dropWhile isBlank = line := List.takeWhile_append_dropWhile
  have htext : text.toList = lines ++ (line.takeWhile isBlank ++ (line.dropWhile isBlank ++ rest)) := by
    rw [h.text, ← List.append_assoc (line.takeWhile isBlank), hline, List.append_assoc]
  have hsize := h.size
  rw [← hline, byteSize_append, byteSize_append] at hsize
  refine ⟨⟨?_, ?_⟩, ?_, ?_⟩
  · rw [← byteSize_eq]
    exact slice_of_pieces htext
  · rw [String.toList_ofList]
    exact List.all_eq_true.mp List.all_takeWhile
  · rw [← byteSize_eq]
    omega
  · rintro stop blanks ⟨hslice, hblank⟩ hstop
    obtain ⟨before, after, hpieces, hbefore, rfl⟩ := hslice.pieces
    obtain ⟨t, ht, -⟩ := h.exists_append (h.tail_eq hpieces hbefore) hstop
    refine ⟨.ofList (t.takeWhile isBlank), ?_⟩
    rw [ht, List.takeWhile_append_of_pos hblank, String.ofList_append, String.ofList_toList]

/-- The line goes on up to a later offset on it. -/
theorem line_prefix (h : LineUpTo text offset lines line rest) (h' : LineUpTo text later lines' line' rest')
    (hsame : byteSize lines = byteSize lines') (hle : offset ≤ later) : ∃ t, line' = line ++ t := by
  have hafter : line ++ rest = line' ++ rest' := h'.tail_eq (by rw [h.text, List.append_assoc]) hsame
  have hsize := h.size
  rw [byteSize_append] at hsize
  obtain ⟨t, ht, -⟩ := h'.exists_append hafter (by omega)
  exact ⟨t, ht⟩

/-- What is in front of the first character that is no blank is all that is indentation behind it. -/
theorem takeWhile_eq (h : LineUpTo text offset lines line rest) {first : Nat} {blanks : String}
    (hink : FirstInk text (byteSize lines) first blanks) (hfirst : first ≤ offset) :
    line.takeWhile isBlank = blanks.toList := by
  obtain ⟨⟨hslice, hblank⟩, c, hc, hinked⟩ := hink
  obtain ⟨before, after, hpieces, hbefore, rfl⟩ := hslice.pieces
  obtain ⟨t, rfl, rfl⟩ := h.exists_append (h.tail_eq hpieces hbefore) hfirst
  obtain ⟨front, behind, hfront, hsize, -⟩ := hinked.pieces
  have hsplit : (before ++ blanks.toList) ++ (t ++ rest) = front ++ ((String.singleton c).toList ++ behind) := by
    rw [← hfront, hpieces, List.append_assoc]
  have hat : byteSize (before ++ blanks.toList) = byteSize front := by rw [byteSize_append, hbefore, hsize]
  have hbehind : t ++ rest = c :: behind := by simpa using (append_inj_of_byteSize hsplit hat).2
  refine takeWhile_eq_of_stops hblank fun first hhead => ?_
  cases t with
  | nil => cases hhead
  | cons _ t =>
    obtain rfl := (List.cons.inj hbehind).1
    obtain rfl := Option.some.inj hhead
    exact hc

end LineUpTo

/-! ## The indentation -/

/-- **The indentation is exact**, for every text and every offset. Where the text cannot be cut it is empty,
and that is noted. Otherwise it is the longest run of blanks that the line starts with, no further than the
offset, and nothing is noted. So it has no newline in it; further on in the line it only gets longer; and behind
the first character of the line that is no blank it is what is in front of that character. -/
theorem indentAt_exact (text : String) (offset : Nat) :
    (text.utf8ByteSize < offset ∨ ¬Boundary text offset → indentAt text offset = ("", [.noIndentation])) ∧
    (Boundary text offset → ∃ start indent, LineStart text offset start ∧ Indents text start offset indent ∧
      indentAt text offset = (indent, []) ∧ '\n' ∉ indent.toList ∧ indent.utf8ByteSize ≤ offset - start) ∧
    (∀ start later, Boundary text offset → LineStart text offset start → Boundary text later →
      LineStart text later start → offset ≤ later →
        ∃ rest, (indentAt text later).1 = (indentAt text offset).1 ++ rest) ∧
    ∀ start first blanks, Boundary text offset → LineStart text offset start →
      FirstInk text start first blanks → first ≤ offset → indentAt text offset = (blanks, []) := by
  refine ⟨fun hbad => ?_, fun hoffset => ?_, fun start later hoffset hstart hlater hstart' hle => ?_,
    fun start first blanks hoffset hstart hink hfirst => ?_⟩
  · refine indentAt_of_not_boundary ?_
    obtain hbeyond | hinside := hbad
    · exact fun hoffset => absurd hoffset.le (Nat.not_le.mpr hbeyond)
    · exact hinside
  · obtain ⟨lines, line, rest, h, hindent⟩ := exists_lineUpTo hoffset
    refine ⟨_, _, h.lineStart, h.indents, hindent, ?_, ?_⟩
    · rw [String.toList_ofList]
      exact fun hmem => h.unbroken ((List.takeWhile_prefix isBlank).subset hmem)
    · have := h.indents.within
      omega
  · obtain ⟨lines, line, rest, h, hindent⟩ := exists_lineUpTo hoffset
    obtain ⟨lines', line', rest', h', hindent'⟩ := exists_lineUpTo hlater
    obtain ⟨t, rfl⟩ := h.line_prefix h' ((h.start_eq hstart).symm.trans (h'.start_eq hstart')) hle
    obtain ⟨more, hmore⟩ := takeWhile_prefix_append isBlank line t
    refine ⟨.ofList more, ?_⟩
    rw [hindent, hindent', ← hmore, String.ofList_append]
  · obtain ⟨lines, line, rest, h, hindent⟩ := exists_lineUpTo hoffset
    obtain rfl := h.start_eq hstart
    rw [hindent, h.takeWhile_eq hink hfirst, String.ofList_toList]

/-- Behind a blank of three bytes, behind the tabulator after it, and further on; and inside that blank. -/
theorem indentAt_exact_wide :
    let text := "é\n\u3000\t<b/>"
    (¬Boundary text 4 ∧ indentAt text 4 = ("", [.noIndentation])) ∧
    (Boundary text 6 ∧ LineStart text 6 3 ∧ Boundary text 9 ∧ LineStart text 9 3 ∧
      indentAt text 6 = ("\u3000", []) ∧ ∃ rest, (indentAt text 9).1 = (indentAt text 6).1 ++ rest) ∧
    FirstInk text 3 7 "\u3000\t" ∧ indentAt text 9 = ("\u3000\t", []) := by
  intro text
  have hsix : LineUpTo text 6 ['é', '\n'] ['\u3000'] ['\t', '<', 'b', '/', '>'] :=
    ⟨by decide +kernel, by decide, .inr ⟨['é'], rfl⟩, by decide⟩
  have hnine : LineUpTo text 9 ['é', '\n'] ['\u3000', '\t', '<', 'b'] ['/', '>'] :=
    ⟨by decide +kernel, by decide, .inr ⟨['é'], rfl⟩, by decide⟩
  have hink : FirstInk text 3 7 "\u3000\t" :=
    ⟨⟨⟨"é\n", "<b/>", by decide +kernel, by decide +kernel, by decide +kernel⟩,
        List.all_eq_true.1 (by decide +kernel)⟩,
      '<', by decide, "é\n\u3000\t", "b/>", by decide +kernel, by decide +kernel, by decide +kernel⟩
  have hcut : Boundary text 6 := by decide +kernel
  have hcut' : Boundary text 9 := by decide +kernel
  have hinside : ¬Boundary text 4 := by decide +kernel
  refine ⟨⟨hinside, (indentAt_exact text 4).1 (.inr hinside)⟩, ⟨hcut, hsix.lineStart, hcut', hnine.lineStart, ?_,
    (indentAt_exact text 6).2.2.1 3 9 hcut hsix.lineStart hcut' hnine.lineStart (by decide)⟩, hink,
    (indentAt_exact text 9).2.2.2 3 7 _ hcut' hnine.lineStart hink (by decide)⟩
  decide +kernel

end FormDesk
