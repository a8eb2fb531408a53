/-
The range that is handed to a formatter, byte for byte. Offsets are meant in
the text's UTF-8 encoding, so boundaries, newlines and slices are said of the
encoded text here; `boundary_iff` and `newlineAt_iff` lead back to the
characters the range is computed from. What carries the rest is that an offset
parts the characters in one way only (`exists_append_of_byteSize_le`).

The main theorem is `reformatRange_exact`: for every text and any two
offsets it says which range it is, and what the range starts with.
-/
import Mathlib.Order.Bounds.Basic
import FormDesk.Text.Region

namespace FormDesk

/-! ## Offsets of the encoded text -/

/-- Byte `i` of the text is a newline. -/
def NewlineAt (text : String) (i : Nat) : Prop := text.toByteArray.data[i]? = some 10

/-- A character starts at byte `n`, or the text ends there. -/
def Boundary (text : String) (n : Nat) : Prop := String.Pos.Raw.IsValid text ⟨n⟩

/-- A line starts at byte `n`: it is where the text starts, or the byte before is a newline. -/
def StartsLine (text : String) (n : Nat) : Prop := n = 0 ∨ ∃ i, n = i + 1 ∧ NewlineAt text i

/-- The text from byte `start` to byte `stop` is `region`. -/
def Slice (text : String) (start stop : Nat) (region : String) : Prop :=
  ∃ before after, text = before ++ region ++ after ∧
    before.utf8ByteSize = start ∧ (before ++ region).utf8ByteSize = stop

instance (text : String) (n : Nat) : Decidable (Boundary text n) :=
  inferInstanceAs (Decidable (String.Pos.Raw.IsValid text ⟨n⟩))

/-- The walk from an offset back to a boundary, byte by byte. It finds none when it would have to step
below the first byte. -/
def walkBack (text : String) : Nat → Option Nat
  | 0 => if Boundary text 0 then some 0 else none
  | n + 1 => if Boundary text (n + 1) then some (n + 1) else walkBack text n

theorem byteSize_eq (cs : List Char) : byteSize cs = (String.ofList cs).utf8ByteSize := by
  induction cs with
  | nil => rfl
  | cons c cs ih =>
    rw [byteSize_cons, ih, ← List.singleton_append, String.ofList_append, String.utf8ByteSize_append]
    simp

theorem byteSize_toList (text : String) : byteSize text.toList = text.utf8ByteSize := by
  rw [byteSize_eq, String.ofList_toList]

theorem boundary_iff {text : String} {n : Nat} :
    Boundary text n ↔ ∃ before after, text.toList = before ++ after ∧ byteSize before = n := by
  rw [Boundary, String.Pos.Raw.isValid_iff_exists_append]
  constructor
  · rintro ⟨before, after, rfl, hn⟩
    refine ⟨before.toList, after.toList, String.toList_append, ?_⟩
    rw [byteSize_toList]
    exact (congrArg String.Pos.Raw.byteIdx hn).symm
  · rintro ⟨before, after, htext, rfl⟩
    refine ⟨.ofList before, .ofList after, ?_, ?_⟩
    · rw [← String.ofList_append, ← htext, String.ofList_toList]
    · exact String.Pos.Raw.ext (byteSize_eq before)

theorem Boundary.le {text : String} {n : Nat} (h : Boundary text n) : n ≤ text.utf8ByteSize := by
  obtain ⟨before, after, htext, rfl⟩ := boundary_iff.mp h
  rw [← byteSize_toList, htext, byteSize_append]
  exact Nat.le_add_right ..

theorem byte_le_or (x y : UInt8) : y ≤ x ||| y := by
  rw [UInt8.le_iff_toNat_le, UInt8.toNat_or]
  exact Nat.right_le_or

/-- Only the newline is encoded with the byte of a newline, and as this byte alone. -/
theorem eq_newline_of_encode {c : Char} {i : Nat} (h : (String.utf8EncodeChar c)[i]? = some 10) :
    i = 0 ∧ c = '\n' := by
  obtain ⟨hi, hbyte⟩ := List.getElem?_eq_some_iff.mp h
  have hfirst : ((String.utf8EncodeChar c)[i]).IsUTF8FirstByte := by
    rw [hbyte]
    decide
  obtain rfl := UInt8.isUTF8FirstByte_getElem_utf8EncodeChar.mp hfirst
  refine ⟨rfl, ?_⟩
  -- The first of several bytes has its two highest bits set.
  have hlarge (x y : UInt8) (hy : 10 < y) : ¬ x ||| y = 10 := by
    intro hx
    have hle := byte_le_or x y
    rw [hx] at hle
    exact absurd hy (UInt8.not_lt.mpr hle)
  obtain hsize | hsize | hsize | hsize := c.utf8Size_eq
  · rw [String.utf8EncodeChar_eq_singleton hsize] at h
    have hle : c.val.toNat ≤ 127 := UInt32.le_iff_toNat_le.mp (Char.utf8Size_eq_one_iff.mp hsize)
    have hmod : c.val.toNat % 256 = 10 := congrArg UInt8.toNat (Option.some.inj h)
    have hval : c.val.toNat = 10 := by omega
    exact Char.ext (UInt32.toNat_inj.mp hval)
  · rw [String.utf8EncodeChar_eq_cons_cons hsize] at h
    exact absurd (Option.some.inj h) (hlarge _ _ (by decide))
  · rw [String.utf8EncodeChar_eq_cons_cons_cons hsize] at h
    exact absurd (Option.some.inj h) (hlarge _ _ (by decide))
  · rw [String.utf8EncodeChar_eq_cons_cons_cons_cons hsize] at h
    exact absurd (Option.some.inj h) (hlarge _ _ (by decide))

theorem newline_byte_iff {cs : List Char} {i : Nat} :
    (cs.flatMap String.utf8EncodeChar)[i]? = some 10 ↔
      ∃ before after, cs = before ++ '\n' :: after ∧ byteSize before = i := by
  constructor
  · intro h
    induction cs generalizing i with
    | nil => simp at h
    | cons c cs ih =>
      rw [List.flatMap_cons, List.getElem?_append, String.length_utf8EncodeChar] at h
      split at h
      · obtain ⟨rfl, rfl⟩ := eq_newline_of_encode h
        exact ⟨[], cs, rfl, rfl⟩
      · obtain ⟨before, after, rfl, hsize⟩ := ih h
        exact ⟨c :: before, after, rfl, by rw [byteSize_cons]; omega⟩
  · rintro ⟨before, after, rfl, rfl⟩
    induction before with
    | nil => rfl
    | cons c before ih =>
      rw [List.cons_append, List.flatMap_cons, byteSize_cons, List.getElem?_append_right (by simp)]
      simpa using ih

theorem newlineAt_iff {text : String} {i : Nat} :
    NewlineAt text i ↔ ∃ before after, text.toList = before ++ '\n' :: after ∧ byteSize before = i := by
  rw [NewlineAt, ← String.utf8Encode_toList, List.utf8Encode, List.data_toByteArray, List.getElem?_toArray]
  exact newline_byte_iff

/-- A cut that is not later parts the front of the later one. -/
theorem exists_append_of_byteSize_le {a b c d : List Char} (h : a ++ b = c ++ d)
    (hle : byteSize a ≤ byteSize c) : ∃ t, c = a ++ t ∧ b = t ++ d := by
  obtain ⟨t, rfl, rfl⟩ | ⟨t, rfl, rfl⟩ := List.append_eq_append_iff.mp h
  · exact ⟨t, rfl, rfl⟩
  · rw [byteSize_append] at hle
    obtain rfl := byteSize_eq_zero.mp (show byteSize t = 0 by omega)
    exact ⟨[], by simp⟩

/-- A line starts where the text does and behind each newline. -/
theorem startsLine_iff {text : String} {before after : List Char} (htext : text.toList = before ++ after) :
    StartsLine text (byteSize before) ↔ before = [] ∨ ∃ line, before = line ++ ['\n'] := by
  rw [StartsLine, byteSize_eq_zero]
  refine or_congr_right ⟨?_, ?_⟩
  · rintro ⟨i, hi, hnewline⟩
    obtain ⟨front, rest, hfront, rfl⟩ := newlineAt_iff.mp hnewline
    have hsize : byteSize (front ++ ['\n']) = byteSize before := by rw [hi]; simp; rfl
    have hsplit : (front ++ ['\n']) ++ rest = before ++ after := by simp [← hfront, htext]
    obtain ⟨t, rfl, -⟩ := exists_append_of_byteSize_le hsplit hsize.le
    rw [byteSize_append _ t] at hsize
    obtain rfl := byteSize_eq_zero.mp (show byteSize t = 0 by omega)
    exact ⟨front, by simp⟩
  · rintro ⟨line, rfl⟩
    exact ⟨byteSize line, by simp; rfl, newlineAt_iff.mpr ⟨line, after, by simp [htext], rfl⟩⟩

/-- No byte of characters that are no newlines is one. -/
theorem not_newlineAt {text : String} {lines line after : List Char}
    (htext : text.toList = lines ++ line ++ after) (hline : '\n' ∉ line) {i : Nat}
    (hfirst : byteSize lines ≤ i) (hlast : i < byteSize (lines ++ line)) : ¬ NewlineAt text i := by
  intro hnewline
  obtain ⟨front, rest, hfront, rfl⟩ := newlineAt_iff.mp hnewline
  rw [hfront, List.append_assoc] at htext
  obtain ⟨t, rfl, ht⟩ := exists_append_of_byteSize_le htext.symm hfirst
  simp only [byteSize_append] at hlast
  -- What the line starts with and the newline behind it are cut off before the line's end.
  have hle : byteSize (t ++ ['\n']) ≤ byteSize line := by
    have hone : byteSize ['\n'] = 1 := rfl
    rw [byteSize_append, hone]
    omega
  have hsplit : (t ++ ['\n']) ++ rest = line ++ after := by simp [ht]
  obtain ⟨u, rfl, -⟩ := exists_append_of_byteSize_le hsplit hle
  simp at hline

/-- The last cut is the greatest boundary. -/
theorem lastCut_greatest (text : String) (n : Nat) :
    IsGreatest {m | Boundary text m ∧ m ≤ n} (lastCut text.toList n) := by
  constructor
  · obtain ⟨before, after, htext, hsize⟩ := exists_lastCut text.toList n
    exact ⟨boundary_iff.mpr ⟨before, after, htext, hsize⟩, lastCut_le ..⟩
  · rintro m ⟨hm, hle⟩
    obtain ⟨before, after, htext, rfl⟩ := boundary_iff.mp hm
    rw [htext]
    exact byteSize_le_lastCut before after hle

/-- An offset beyond the text is as good as its end. -/
theorem lastCut_min (text : String) (n : Nat) :
    lastCut text.toList (min n text.utf8ByteSize) = lastCut text.toList n := by
  obtain ⟨⟨hcut, hle⟩, hgreatest⟩ := lastCut_greatest text n
  have hsame : IsGreatest {m | Boundary text m ∧ m ≤ min n text.utf8ByteSize} (lastCut text.toList n) :=
    ⟨⟨hcut, le_min hle hcut.le⟩, fun m hm => hgreatest ⟨hm.1, hm.2.trans (min_le_left ..)⟩⟩
  exact (lastCut_greatest text _).unique hsame

/-- The walk back from an offset ends, and at the last cut. -/
theorem walkBack_eq (text : String) (n : Nat) : walkBack text n = some (lastCut text.toList n) := by
  induction n with
  | zero =>
    have hcut : lastCut text.toList 0 = 0 := Nat.le_zero.mp (lastCut_le ..)
    have hzero : Boundary text 0 := boundary_iff.mpr ⟨[], text.toList, rfl, rfl⟩
    rw [walkBack, if_pos hzero, hcut]
  | succ n ih =>
    obtain ⟨⟨hcut, hle⟩, hgreatest⟩ := lastCut_greatest text (n + 1)
    rw [walkBack]
    split
    · rename_i hhere
      exact congrArg some ((hgreatest ⟨hhere, le_rfl⟩).antisymm hle)
    · rename_i hhere
      have hne : lastCut text.toList (n + 1) ≠ n + 1 := fun heq => hhere (heq ▸ hcut)
      have hlt : lastCut text.toList (n + 1) ≤ n := by omega
      have hsame : IsGreatest {m | Boundary text m ∧ m ≤ n} (lastCut text.toList (n + 1)) :=
        ⟨⟨hcut, hlt⟩, fun m hm => hgreatest ⟨hm.1, hm.2.trans n.le_succ⟩⟩
      rw [ih, (lastCut_greatest text n).unique hsame]

/-! ## The range -/

/-- What is before the start of the change, by lines, decides where the range starts. -/
theorem reformatRange_line {text : String} {start stop : Nat} {before after : List Char}
    (htext : text.toList = before ++ after)
    (hsize : byteSize before = lastCut text.toList (min start (lastCut text.toList stop)))
    {lines : List Char} (hbefore : before = lines ++ lastLine before) :
    reformatRange text start stop =
      (if lastLine before = [] then byteSize lines - 1 else byteSize lines, lastCut text.toList stop) := by
  have hcut := cutAt?_eq_some.mpr ⟨htext, hsize⟩
  have htotal : byteSize lines + byteSize (lastLine before) = byteSize before := by
    conv_rhs => rw [hbefore, byteSize_append]
  have hline : lineOffset before = byteSize lines := by
    rw [lineOffset]
    omega
  have hcolumn : lastLine before = [] ↔ byteSize lines = byteSize before := by
    rw [← byteSize_eq_zero]
    omega
  simp only [reformatRange, hcut, hline]
  simp only [← hsize, hcolumn, ne_eq, ite_not]
  split
  · rename_i hstart
    rw [hstart]
  · rfl

/-- The text in four pieces: what is in front of the range, its part before the change, the rest of it,
and what is behind it. The part before the change is the newline before it, or the line up to it. -/
theorem reformatRange_parts (text : String) (start stop : Nat) :
    ∃ head mid body rest, text.toList = head ++ (mid ++ body) ++ rest ∧
      byteSize (head ++ mid) = lastCut text.toList (min start (lastCut text.toList stop)) ∧
      byteSize (head ++ (mid ++ body)) = lastCut text.toList stop ∧
      reformatRange text start stop = (byteSize head, lastCut text.toList stop) ∧
      (mid = ['\n'] ∨ (head = [] ∨ ∃ line, head = line ++ ['\n']) ∧ mid = lastLine (head ++ mid) ∧
        (mid = [] → head = [])) := by
  obtain ⟨before, after, htext, hsize⟩ := exists_lastCut text.toList (min start (lastCut text.toList stop))
  obtain ⟨upto, rest, hupto, hstop⟩ := exists_lastCut text.toList stop
  have hle : byteSize before ≤ byteSize upto := by
    rw [hsize, hstop]
    exact (lastCut_le ..).trans (min_le_right ..)
  obtain ⟨body, rfl, -⟩ := exists_append_of_byteSize_le (htext.symm.trans hupto) hle
  obtain ⟨lines, hbefore, hlines⟩ := exists_line before
  have hrange := reformatRange_line htext hsize hbefore
  by_cases hnewline : ∃ line, before = line ++ ['\n']
  · obtain ⟨line, rfl⟩ := hnewline
    have hlast : lastLine (line ++ ['\n']) = [] := by simp [lastLine]
    have hlines : lines = line ++ ['\n'] := by rw [hbefore, hlast, List.append_nil]
    have hone : byteSize lines - 1 = byteSize line := by
      have : byteSize ['\n'] = 1 := rfl
      rw [hlines, byteSize_append, this, Nat.add_sub_cancel]
    rw [if_pos hlast, hone] at hrange
    exact ⟨line, ['\n'], body, rest, by simp [hupto], hsize, by simpa using hstop, hrange, .inl rfl⟩
  · have hempty : lastLine before = [] → lines = [] := by
      intro hlast
      rw [hlast, List.append_nil] at hbefore
      exact hlines.resolve_right (hbefore ▸ hnewline)
    have hfirst : (if lastLine before = [] then byteSize lines - 1 else byteSize lines) = byteSize lines := by
      split
      · rename_i hlast
        rw [hempty hlast]
        rfl
      · rfl
    rw [hfirst] at hrange
    refine ⟨lines, lastLine before, body, rest, ?_, ?_, ?_, hrange, .inr ⟨hlines, ?_, hempty⟩⟩
    · rw [← List.append_assoc, ← hbefore, hupto]
    · rw [← hbefore, hsize]
    · rw [← List.append_assoc, ← hbefore, hstop]
    · rw [← hbefore]

section Pieces

variable {text : String} {head mid rest : List Char}

theorem slice_of_toList (htext : text.toList = head ++ mid ++ rest) :
    Slice text (byteSize head) (byteSize (head ++ mid)) (.ofList mid) := by
  refine ⟨.ofList head, .ofList rest, ?_, (byteSize_eq head).symm, ?_⟩
  · rw [← String.ofList_append, ← String.ofList_append, ← htext, String.ofList_toList]
  · rw [← String.ofList_append, ← byteSize_eq]

/-- A region that is not empty is what is between the two cuts. -/
theorem region?_eq (htext : text.toList = head ++ mid ++ rest) :
    region? text (byteSize head) (byteSize (head ++ mid)) =
      if byteSize head < byteSize (head ++ mid) then some (.ofList mid) else none := by
  have hstop : cutAt? text.toList (byteSize (head ++ mid)) = some (head ++ mid, rest) :=
    cutAt?_eq_some.mpr ⟨htext, rfl⟩
  have hstart : cutAt? (head ++ mid) (byteSize head) = some (head, mid) := cutAt?_eq_some.mpr ⟨rfl, rfl⟩
  simp only [region?, ← Nat.not_lt, ite_not, hstop, hstart, Option.pure_def, Option.bind_eq_bind,
    Option.bind_some]

/-- Behind a newline that is the byte before. -/
theorem newlineAt_before (htext : text.toList = head ++ ['\n'] ++ rest) :
    byteSize (head ++ ['\n']) = byteSize head + 1 ∧ NewlineAt text (byteSize head) :=
  ⟨byteSize_append .., newlineAt_iff.mpr ⟨head, rest, by simp [htext], rfl⟩⟩

/-- Within a line that has begun the byte before is no newline. -/
theorem not_newlineAt_before (htext : text.toList = head ++ mid ++ rest) (hmid : '\n' ∉ mid)
    (hempty : mid = [] → head = []) :
    ¬ (0 < byteSize (head ++ mid) ∧ NewlineAt text (byteSize (head ++ mid) - 1)) := by
  rintro ⟨hpos, hnewline⟩
  have hne : byteSize mid ≠ 0 := by
    intro hzero
    have hmid := byteSize_eq_zero.mp hzero
    simp [hmid, hempty hmid] at hpos
  refine not_newlineAt htext hmid ?_ (Nat.sub_one_lt_of_lt hpos) hnewline
  rw [byteSize_append]
  omega

/-- The line of an offset starts where the lines before it are over. -/
theorem startsLine_greatest (htext : text.toList = head ++ mid ++ rest) (hmid : '\n' ∉ mid)
    (hhead : head = [] ∨ ∃ line, head = line ++ ['\n']) :
    IsGreatest {n | StartsLine text n ∧ n ≤ byteSize (head ++ mid)} (byteSize head) := by
  constructor
  · rw [List.append_assoc] at htext
    exact ⟨(startsLine_iff htext).mpr hhead, by simp⟩
  · rintro n ⟨rfl | ⟨i, rfl, hnewline⟩, hle⟩
    · exact Nat.zero_le _
    · by_contra hbeyond
      exact not_newlineAt htext hmid (by omega) hle hnewline

/-- The indentation is what a line starts with. -/
theorem indentAt_prefix (htext : text.toList = head ++ mid ++ rest) (hmid : mid = lastLine (head ++ mid)) :
    ∃ indent after, indentAt text (byteSize (head ++ mid)) = (.ofList indent, []) ∧ mid = indent ++ after := by
  have hcut : cutAt? text.toList (byteSize (head ++ mid)) = some (head ++ mid, rest) :=
    cutAt?_eq_some.mpr ⟨htext, rfl⟩
  refine ⟨mid.takeWhile isBlank, mid.dropWhile isBlank, ?_, List.takeWhile_append_dropWhile.symm⟩
  simp only [indentAt, indent?, hcut, Option.map_some, ← hmid]

end Pieces

/-- What the range to reformat is for a change from `start` to `stop`, the change starting at `b` once it
is clamped. -/
structure Reformatted (text : String) (start stop b : Nat) (range : Nat × Nat) : Prop where
  /-- The range ends at the last boundary that is beyond neither `stop` nor the text, -/
  last : IsGreatest {n | Boundary text n ∧ n ≤ min stop text.utf8ByteSize} range.2
  /-- which the walk back from there comes to, -/
  last_walk : walkBack text (min stop text.utf8ByteSize) = some range.2
  /-- and `b` is the last boundary that is beyond neither `start` nor the range, -/
  first : IsGreatest {n | Boundary text n ∧ n ≤ min start range.2} b
  /-- which the walk back from there comes to, so that the line it is in can be looked up. -/
  first_walk : walkBack text (min start range.2) = some b ∧ (cutAt? text.toList b).isSome
  /-- When the byte before `b` is a newline, the range starts with it. -/
  behind_newline : 0 < b ∧ NewlineAt text (b - 1) → range.1 + 1 = b
  /-- Otherwise it starts where the line of `b` does. -/
  within_line : ¬ (0 < b ∧ NewlineAt text (b - 1)) → IsGreatest {n | StartsLine text n ∧ n ≤ b} range.1
  ordered : range.1 ≤ b ∧ b ≤ range.2 ∧ range.2 ≤ text.utf8ByteSize
  boundaries : Boundary text range.1 ∧ Boundary text range.2
  /-- Before `b` there is no newline in the range but the one it may start with. -/
  newlines : ∀ i, range.1 ≤ i → i < b → NewlineAt text i → i = range.1 ∧ i + 1 = b
  /-- The region of the range is what the text says there, unless that is nothing. -/
  region : ∃ region, Slice text range.1 range.2 region ∧
    region? text range.1 range.2 = if range.1 < range.2 then some region else none
  /-- It starts with the indentation in front of `start`, when the text can be cut there and not only a
  newline is before it. -/
  indented : Boundary text start → start ≤ range.2 → ¬ StartsLine text b →
    ∃ indent rest, indentAt text start = (indent, []) ∧ region? text range.1 range.2 = some (indent ++ rest)

/-- **The range to reformat is exact**, for every text and any two offsets: it ends where the change does
and starts where the change's line does, or with the newline before it; both ends are boundaries. -/
theorem reformatRange_exact (text : String) (start stop : Nat) :
    ∃ b, Reformatted text start stop b (reformatRange text start stop) := by
  obtain ⟨head, mid, body, rest, htext, hfirst, hlast, hrange, hmid⟩ := reformatRange_parts text start stop
  have hline : text.toList = head ++ mid ++ (body ++ rest) := by simp [htext]
  have hclamped := lastCut_min text stop
  have hregion := region?_eq htext
  have hslice := slice_of_toList htext
  have hle : byteSize (head ++ mid) ≤ lastCut text.toList stop := by
    rw [← hlast]
    simp
  have hhead : Boundary text (byteSize head) := boundary_iff.mpr ⟨head, _, by rw [htext, List.append_assoc], rfl⟩
  have hstop : Boundary text (lastCut text.toList stop) := (lastCut_greatest text stop).1.1
  rw [hlast] at hregion hslice
  refine ⟨byteSize (head ++ mid), ?_⟩
  rw [hrange]
  refine
    { last := hclamped ▸ lastCut_greatest text _
      last_walk := hclamped ▸ walkBack_eq text _
      first := hfirst ▸ lastCut_greatest text _
      first_walk := ⟨hfirst ▸ walkBack_eq text _, ?_⟩
      behind_newline := ?_
      within_line := ?_
      ordered := ⟨by simp, hle, hstop.le⟩
      boundaries := ⟨hhead, hstop⟩
      newlines := ?_
      region := ⟨_, hslice, hregion⟩
      indented := ?_ }
  · rw [cutAt?_eq_some.mpr ⟨hline, rfl⟩]
    rfl
  · intro hnewline
    obtain rfl | ⟨-, hmid, hempty⟩ := hmid
    · exact (newlineAt_before hline).1.symm
    · exact absurd hnewline (not_newlineAt_before hline (hmid ▸ newline_not_mem_lastLine _) hempty)
  · intro hnewline
    obtain rfl | ⟨hhead, hmid, -⟩ := hmid
    · obtain ⟨hsize, hbyte⟩ := newlineAt_before hline
      exact absurd ⟨by omega, by rwa [hsize]⟩ hnewline
    · exact startsLine_greatest hline (hmid ▸ newline_not_mem_lastLine _) hhead
  · intro i hfrom hto hnewline
    obtain rfl | ⟨-, hmid, -⟩ := hmid
    · rw [(newlineAt_before hline).1] at hto ⊢
      omega
    · exact absurd hnewline (not_newlineAt hline (hmid ▸ newline_not_mem_lastLine _) hfrom hto)
  · intro hstart hwithin hcolumn
    have hsame : byteSize (head ++ mid) = start := by
      have hmin : min start (lastCut text.toList stop) = start := min_eq_left hwithin
      rw [hfirst, hmin]
      exact le_antisymm (lastCut_le ..) ((lastCut_greatest text start).2 ⟨hstart, le_rfl⟩)
    rw [startsLine_iff hline, not_or] at hcolumn
    obtain rfl | ⟨-, hmid, hempty⟩ := hmid
    · exact absurd ⟨head, rfl⟩ hcolumn.2
    · have hne : mid ≠ [] := fun hnil => hcolumn.1 (by rw [hnil, hempty hnil]; rfl)
      have hpos : byteSize head < byteSize (head ++ mid) := by
        have := mt byteSize_eq_zero.mp hne
        rw [byteSize_append]
        omega
      obtain ⟨indent, after, hindent, hafter⟩ := indentAt_prefix hline hmid
      refine ⟨.ofList indent, .ofList (after ++ body), hsame ▸ hindent, ?_⟩
      rw [hregion, if_pos (hpos.trans_le hle), ← String.ofList_append, hafter, List.append_assoc]

end FormDesk
