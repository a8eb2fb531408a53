/-
Numerals: decimal numbers below 2^64, as a page choice may hold one. Blanks
around the numeral and one plus sign before it are allowed; a minus sign,
digits of other scripts and separators are not.
-/
import FormDesk.Data.Limit
import FormDesk.Text.Blank

namespace FormDesk

/-- The number that decimal digits denote; none when a character is no digit. -/
def digits? : Nat → List Char → Option Nat
  | n, [] => some n
  | n, c :: cs => if c.isDigit then digits? (10 * n + (c.toNat - '0'.toNat)) cs else none

/-- One plus sign in front is dropped. -/
def dropPlus : List Char → List Char
  | '+' :: cs => cs
  | cs => cs

/-- The number that a text denotes as a page index; none when it is not a numeral, or is too large. -/
def numeral? (text : String) : Option Nat :=
  match dropPlus (trimBlanks text.toList) with
  | [] => none
  | c :: cs => (digits? 0 (c :: cs)).filter (· < sizeLimit)

/-! ## Texts that are numerals -/

/-- A text is a numeral for a number: decimal digits with this value, perhaps after a plus sign, with
nothing but blanks around them, and the number is not too large. -/
def IsNumeral (text : String) (n : Nat) : Prop :=
  ∃ before sign digits after, text.toList = before ++ (sign ++ digits) ++ after ∧
    (∀ c ∈ before, isBlank c = true) ∧ (∀ c ∈ after, isBlank c = true) ∧ (sign = [] ∨ sign = ['+']) ∧
    digits ≠ [] ∧ (∀ c ∈ digits, c.isDigit = true) ∧ Nat.ofDigitChars 10 digits 0 = n ∧ n < sizeLimit

theorem digits?_of_isDigit {cs : List Char} (h : ∀ c ∈ cs, c.isDigit = true) (n : Nat) :
    digits? n cs = some (Nat.ofDigitChars 10 cs n) := by
  induction cs generalizing n with
  | nil => rfl
  | cons c cs ih =>
    rw [digits?, if_pos (h c List.mem_cons_self), ih fun c hc => h c (List.mem_cons_of_mem _ hc),
      Nat.ofDigitChars_cons]

theorem isDigit_of_digits? {cs : List Char} {m n : Nat} (h : digits? m cs = some n) : ∀ c ∈ cs, c.isDigit = true := by
  induction cs generalizing m with
  | nil => nofun
  | cons c cs ih =>
    rw [digits?] at h
    split at h
    · rename_i hc
      rintro b (_ | ⟨_, hb⟩)
      · exact hc
      · exact ih h b hb
    · cases h

theorem dropPlus_of_isDigit {cs : List Char} (h : ∀ c ∈ cs, c.isDigit = true) : dropPlus cs = cs := by
  unfold dropPlus
  split
  · exact absurd (h '+' List.mem_cons_self) (by decide)
  · rfl

theorem exists_dropPlus (cs : List Char) : ∃ sign, cs = sign ++ dropPlus cs ∧ (sign = [] ∨ sign = ['+']) := by
  unfold dropPlus
  split
  · exact ⟨['+'], rfl, .inr rfl⟩
  · exact ⟨[], rfl, .inl rfl⟩

/-- **A text denotes a number just when it is a numeral for it.** -/
theorem numeral?_eq_some {text : String} {n : Nat} : numeral? text = some n ↔ IsNumeral text n := by
  constructor
  · intro h
    obtain ⟨before, after, htext, hbefore, hafter⟩ := exists_trimBlanks text.toList
    obtain ⟨sign, hsigned, hsign⟩ := exists_dropPlus (trimBlanks text.toList)
    unfold numeral? at h
    split at h
    · cases h
    · rename_i c cs hrest
      obtain ⟨hvalue, hlimit⟩ := Option.filter_eq_some_iff.mp h
      have hdigits := isDigit_of_digits? hvalue
      rw [digits?_of_isDigit hdigits] at hvalue
      rw [hrest] at hsigned
      rw [hsigned] at htext
      exact ⟨before, sign, c :: cs, after, htext, hbefore, hafter, hsign, List.cons_ne_nil _ _, hdigits,
        Option.some.inj hvalue, of_decide_eq_true hlimit⟩
  · rintro ⟨before, sign, digits, after, htext, hbefore, hafter, hsign, hsome, hdigits, hvalue, hlimit⟩
    have hfull : ∀ c ∈ sign ++ digits, isBlank c = false := by
      intro c hc
      rcases List.mem_append.mp hc with hc | hc
      · obtain rfl | rfl := hsign
        · cases hc
        · rw [List.mem_singleton.mp hc]
          decide
      · exact isBlank_of_isDigit (hdigits c hc)
    have hplus : dropPlus (sign ++ digits) = digits := by
      obtain rfl | rfl := hsign
      · exact dropPlus_of_isDigit hdigits
      · rfl
    rw [numeral?, htext, trimBlanks_between hbefore hfull hafter, hplus]
    cases digits with
    | nil => exact absurd rfl hsome
    | cons c cs =>
      simp only [digits?_of_isDigit hdigits, hvalue]
      exact Option.filter_eq_some_iff.mpr ⟨rfl, decide_eq_true hlimit⟩

/-- A number that is written out in decimal digits denotes itself, unless it is too large. -/
theorem numeral?_toString {n : Nat} (hn : n < sizeLimit) : numeral? (toString n) = some n := by
  refine numeral?_eq_some.mpr ⟨[], [], (toString n).toList, [], by simp, nofun, nofun, .inl rfl, ?_, ?_, ?_, hn⟩
  all_goals rw [Nat.toString_eq_repr, Nat.toList_repr]
  · exact Nat.toDigits_ne_nil
  · exact fun c => Nat.isDigit_of_mem_toDigits (by decide) (by decide)
  · exact Nat.ofDigitChars_toDigits (by decide) (by decide)

end FormDesk
