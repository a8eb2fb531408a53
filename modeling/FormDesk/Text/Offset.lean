/-
Byte offsets into a text. A text is read as its list of characters, each of
which takes one to four bytes; an offset is good for cutting the text when it
falls between two characters.

`cutAt?` is the cut at an offset and fails exactly at the offsets that are
past the end or inside a character; `lastCut` is the largest good offset
not beyond a given one (`floor_char_boundary`), so it also clamps to the text.
-/
namespace FormDesk

/-- The number of bytes that characters take. -/
def byteSize : List Char → Nat
  | [] => 0
  | c :: cs => c.utf8Size + byteSize cs

/-- The characters before and after byte `n`, when a cut is possible there. -/
def cutAt? : List Char → Nat → Option (List Char × List Char)
  | cs, 0 => some ([], cs)
  | [], _ + 1 => none
  | c :: cs, n + 1 =>
    if c.utf8Size ≤ n + 1 then
      (cutAt? cs (n + 1 - c.utf8Size)).map fun (before, after) => (c :: before, after)
    else none

/-- The largest offset up to `n` at which the text can be cut. -/
def lastCut : List Char → Nat → Nat
  | [], _ => 0
  | c :: cs, n => if c.utf8Size ≤ n then c.utf8Size + lastCut cs (n - c.utf8Size) else 0

/-- The characters after the last newline. -/
def lastLine (cs : List Char) : List Char :=
  (cs.reverse.takeWhile (· != '\n')).reverse

@[simp] theorem byteSize_nil : byteSize [] = 0 := rfl

@[simp] theorem byteSize_cons (c : Char) (cs : List Char) :
    byteSize (c :: cs) = c.utf8Size + byteSize cs := rfl

@[simp] theorem byteSize_append (a b : List Char) : byteSize (a ++ b) = byteSize a + byteSize b := by
  induction a with
  | nil => simp
  | cons c a ih => simp [ih, Nat.add_assoc]

/-- Characters that take no byte are none at all. -/
theorem byteSize_eq_zero {cs : List Char} : byteSize cs = 0 ↔ cs = [] := by
  cases cs with
  | nil => simp
  | cons c cs =>
    have := c.utf8Size_pos
    simp only [byteSize_cons, reduceCtorEq, iff_false]
    omega

/-- A cut at `n` parts the characters where `n` bytes are over. -/
theorem cutAt?_eq_some {cs before after : List Char} {n : Nat} :
    cutAt? cs n = some (before, after) ↔ cs = before ++ after ∧ byteSize before = n := by
  constructor
  · intro h
    induction cs generalizing before n with
    | nil =>
      cases n with
      | zero => simp_all [cutAt?]
      | succ n => simp [cutAt?] at h
    | cons c cs ih =>
      cases n with
      | zero => simp_all [cutAt?]
      | succ n =>
        rw [cutAt?] at h
        split at h
        · obtain ⟨⟨front, rest⟩, hcut, hpair⟩ := Option.map_eq_some_iff.mp h
          obtain ⟨rfl, rfl⟩ := Prod.mk.inj hpair
          obtain ⟨rfl, hsize⟩ := ih hcut
          exact ⟨rfl, by rw [byteSize_cons]; omega⟩
        · cases h
  · rintro ⟨rfl, rfl⟩
    induction before with
    | nil => cases after <;> rfl
    | cons c before ih =>
      have hc := c.utf8Size_pos
      obtain ⟨n, hn⟩ : ∃ n, byteSize (c :: before) = n + 1 :=
        Nat.exists_eq_succ_of_ne_zero (by rw [byteSize_cons]; omega)
      have hrest : n + 1 - c.utf8Size = byteSize before := by
        rw [← hn, byteSize_cons]
        omega
      rw [byteSize_cons] at hn
      have hfit : c.utf8Size ≤ n + 1 := by omega
      rw [byteSize_cons, hn, List.cons_append, cutAt?, if_pos hfit, hrest, ih]
      rfl

/-- The last cut is a cut. -/
theorem exists_lastCut (cs : List Char) (n : Nat) :
    ∃ before after, cs = before ++ after ∧ byteSize before = lastCut cs n := by
  induction cs generalizing n with
  | nil => exact ⟨[], [], by simp [lastCut]⟩
  | cons c cs ih =>
    unfold lastCut
    split
    · obtain ⟨before, after, hcs, hsize⟩ := ih (n - c.utf8Size)
      exact ⟨c :: before, after, by simp [← hcs], by simp [hsize]⟩
    · exact ⟨[], c :: cs, by simp⟩

/-- No cut up to `n` is beyond the last one. -/
theorem byteSize_le_lastCut (before after : List Char) {n : Nat} (h : byteSize before ≤ n) :
    byteSize before ≤ lastCut (before ++ after) n := by
  induction before generalizing n with
  | nil => simp
  | cons c before ih =>
    simp only [byteSize_cons] at h
    have hrest : byteSize before ≤ n - c.utf8Size := by omega
    have hfit : c.utf8Size ≤ n := by omega
    have := ih hrest
    simp only [List.cons_append, lastCut, if_pos hfit, byteSize_cons]
    omega

/-- The characters before an offset are the lines that are over and the line the offset is in. -/
theorem exists_line (before : List Char) :
    ∃ lines, before = lines ++ lastLine before ∧ (lines = [] ∨ ∃ line, lines = line ++ ['\n']) := by
  refine ⟨(before.reverse.dropWhile (· != '\n')).reverse, ?_, ?_⟩
  · rw [lastLine, ← List.reverse_append, List.takeWhile_append_dropWhile, List.reverse_reverse]
  · cases hrest : before.reverse.dropWhile (· != '\n') with
    | nil => exact .inl rfl
    | cons c cs =>
      have hc := List.head?_dropWhile_not (· != '\n') before.reverse
      simp only [hrest, List.head?_cons, bne_eq_false_iff_eq] at hc
      exact .inr ⟨cs.reverse, by simp [hc]⟩

theorem newline_not_mem_lastLine (before : List Char) : '\n' ∉ lastLine before := by
  intro h
  have hall := List.all_takeWhile (p := (· != '\n')) (l := before.reverse)
  have := List.all_eq_true.mp hall _ (List.mem_reverse.mp h)
  simp at this

theorem lastCut_le (cs : List Char) (n : Nat) : lastCut cs n ≤ n := by
  induction cs generalizing n with
  | nil => simp [lastCut]
  | cons c cs ih =>
    unfold lastCut
    split
    · have := ih (n - c.utf8Size)
      omega
    · omega

end FormDesk
