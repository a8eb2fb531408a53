/-
Blank characters: the 25 code points that carry the Unicode property
White_Space. Indentation and the trimming of page numerals both go by this
class, which is larger than the ASCII one (`Char.isWhitespace`) and does not
hold the zero-width characters.
-/
namespace FormDesk

/-- The ranges of code points with the property White_Space, in order. -/
def blankRanges : List (Nat × Nat) :=
  [(0x09, 0x0D), (0x20, 0x20), (0x85, 0x85), (0xA0, 0xA0), (0x1680, 0x1680), (0x2000, 0x200A),
   (0x2028, 0x2029), (0x202F, 0x202F), (0x205F, 0x205F), (0x3000, 0x3000)]

/-- Whether a character is blank. -/
def isBlank (c : Char) : Bool :=
  blankRanges.any fun r => r.1 ≤ c.toNat && c.toNat ≤ r.2

/-- The characters left when blanks are dropped at both ends. -/
def trimBlanks (cs : List Char) : List Char :=
  ((cs.dropWhile isBlank).reverse.dropWhile isBlank).reverse

theorem isBlank_of_isDigit {c : Char} (h : c.isDigit = true) : isBlank c = false := by
  simp only [Char.isDigit, Bool.and_eq_true, decide_eq_true_eq, ge_iff_le, UInt32.le_iff_toNat_le] at h
  have hlow : 48 ≤ c.toNat := h.1
  have hhigh : c.toNat ≤ 57 := h.2
  simp only [isBlank, blankRanges, List.any_cons, List.any_nil, Bool.or_false, Bool.or_eq_false_iff,
    Bool.and_eq_false_iff, decide_eq_false_iff_not]
  omega

theorem dropWhile_isBlank {blanks cs : List Char} (hblanks : ∀ c ∈ blanks, isBlank c = true)
    (hcs : ∀ c ∈ cs, isBlank c = false) : (blanks ++ cs).dropWhile isBlank = cs := by
  rw [List.dropWhile_append_of_pos hblanks]
  cases cs with
  | nil => rfl
  | cons c cs => simp [hcs c List.mem_cons_self]

/-- Just the blanks at both ends are trimmed. -/
theorem trimBlanks_between {before cs after : List Char} (hbefore : ∀ c ∈ before, isBlank c = true)
    (hcs : ∀ c ∈ cs, isBlank c = false) (hafter : ∀ c ∈ after, isBlank c = true) :
    trimBlanks (before ++ cs ++ after) = cs := by
  cases cs with
  | nil =>
    have hnone := dropWhile_isBlank hafter hcs
    rw [List.append_nil] at hnone
    simp [trimBlanks, List.dropWhile_append_of_pos hbefore, hnone]
  | cons c cs =>
    have hfront : (before ++ (c :: cs) ++ after).dropWhile isBlank = c :: cs ++ after := by
      rw [List.append_assoc, List.dropWhile_append_of_pos hbefore]
      simp [hcs c List.mem_cons_self]
    have hback : (after.reverse ++ (c :: cs).reverse).dropWhile isBlank = (c :: cs).reverse :=
      dropWhile_isBlank (fun c hc => hafter c (List.mem_reverse.mp hc)) fun c hc => hcs c (List.mem_reverse.mp hc)
    rw [trimBlanks, hfront, List.reverse_append, hback, List.reverse_reverse]

/-- What is trimmed is blank. -/
theorem exists_trimBlanks (cs : List Char) : ∃ before after, cs = before ++ trimBlanks cs ++ after ∧
    (∀ c ∈ before, isBlank c = true) ∧ ∀ c ∈ after, isBlank c = true := by
  have hblank {l : List Char} : ∀ c ∈ l.takeWhile isBlank, isBlank c = true :=
    List.all_eq_true.mp List.all_takeWhile
  refine ⟨cs.takeWhile isBlank, ((cs.dropWhile isBlank).reverse.takeWhile isBlank).reverse, ?_, hblank, ?_⟩
  · rw [trimBlanks, List.append_assoc, ← List.reverse_append, List.takeWhile_append_dropWhile,
      List.reverse_reverse, List.takeWhile_append_dropWhile]
  · exact fun c hc => hblank c (List.mem_reverse.mp hc)

end FormDesk
