/-
The marks that guards on shares leave, in the order of a run: a guard takes a new
share, adopts a live one or idles around a number of no live share, and in the end
its share is taken out of it or the guard shuts. Guards nest, so the marks of a
run are brackets that match (`Mark.Bracketed`).

From the marks it can be read off which numbers are to be live afterwards
(`Mark.Remains`): those that were live and that no guard adopted, and those that
were taken out of a guard and that no guard adopted after that. No other number is
live, whatever the guards do. All of these are, provided that no two guards have
one number at a time (`Mark.Apart`): else the inner guard shuts, or hands out, what
the outer one had. One guard keeps this true of what is done under it
(`Explains.guard`, `Explains.idle`), and so does one run after another
(`Explains.trans`).
-/
import Mathlib.Data.List.Basic

namespace FormDesk

/-- What guards do with the shares that have a number. -/
inductive Mark where
  /-- A guard takes a new share. -/
  | takes (id : Nat)
  /-- A guard is set up around a live share. -/
  | adopts (id : Nat)
  /-- A guard is set up around a number that no live share has. -/
  | idles (id : Nat)
  /-- The share is taken out of its guard. -/
  | parts (id : Nat)
  /-- A guard ends in another way. -/
  | shuts (id : Nat)
  deriving DecidableEq, Repr

namespace Mark

/-- The number that a mark is about. -/
def number : Mark → Nat
  | takes id | adopts id | idles id | parts id | shuts id => id

/-- Whether a guard is set up. -/
def opens : Mark → Bool
  | takes _ | adopts _ | idles _ => true
  | parts _ | shuts _ => false

/-- How a guard on a share ends. -/
def ending (id : Nat) (out : Bool) : Mark := if out then parts id else shuts id

/-- The numbers that guards have after a mark, the innermost first. -/
def enter (guards : List Nat) (m : Mark) : List Nat :=
  if m.opens then m.number :: guards else guards.erase m.number

/-- No guard is set up around a number that another guard has. -/
def Apart : List Nat → List Mark → Prop
  | _, [] => True
  | guards, m :: w => (m.opens → m.number ∉ guards) ∧ Apart (enter guards m) w

instance decidableApart : (guards : List Nat) → (w : List Mark) → Decidable (Apart guards w)
  | _, [] => .isTrue trivial
  | guards, m :: w =>
    have := decidableApart (enter guards m) w
    inferInstanceAs (Decidable (_ ∧ _))

/-- The share with the number was taken out of a guard, and no guard adopted it after that. -/
def TakenOut (i : Nat) : List Mark → Prop
  | [] => False
  | m :: w => (m = parts i ∧ adopts i ∉ w) ∨ TakenOut i w

instance decidableTakenOut (i : Nat) : (w : List Mark) → Decidable (TakenOut i w)
  | [] => .isFalse id
  | _ :: w =>
    have := decidableTakenOut i w
    inferInstanceAs (Decidable (_ ∨ _))

/-- The number is to be live after the marks, when `l` were live before them. -/
def Remains (l : List Nat) (w : List Mark) (i : Nat) : Prop := (i ∈ l ∧ adopts i ∉ w) ∨ TakenOut i w

variable {i j : Nat} {guards l l₁ l₂ l' : List Nat} {m : Mark} {w v : List Mark}

@[simp] theorem number_ending (id : Nat) (out : Bool) : (ending id out).number = id := by
  cases out <;> rfl

@[simp] theorem opens_ending (id : Nat) (out : Bool) : (ending id out).opens = false := by
  cases out <;> rfl

theorem apart_append : Apart guards (w ++ v) ↔ Apart guards w ∧ Apart (w.foldl enter guards) v := by
  induction w generalizing guards with
  | nil => simp [Apart]
  | cons m w ih => simp only [List.cons_append, Apart, List.foldl_cons, ih, and_assoc]

theorem takenOut_append : TakenOut i (w ++ v) ↔ (TakenOut i w ∧ adopts i ∉ v) ∨ TakenOut i v := by
  induction w with
  | nil => simp [TakenOut]
  | cons m w ih =>
    simp only [List.cons_append, TakenOut, ih, List.mem_append]
    tauto

theorem TakenOut.mem (ht : TakenOut i w) : parts i ∈ w := by
  induction w with
  | nil => exact ht.elim
  | cons m w ih =>
    obtain ⟨rfl, -⟩ | ht := ht
    · exact List.mem_cons_self
    · exact List.mem_cons_of_mem m (ih ht)

/-- What remains after more marks remained before them and is not adopted by them, or they take it out. -/
theorem remains_append : Remains l (w ++ v) i ↔ (Remains l w i ∧ adopts i ∉ v) ∨ TakenOut i v := by
  simp only [Remains, takenOut_append, List.mem_append]
  tauto

/-- What is under a guard leaves its number alone: then nothing is taken out if the guard shuts. -/
theorem not_takenOut_of_shuts (hm : m.opens) (hw : ∀ x ∈ w, x.number ≠ i) :
    ¬ TakenOut i (m :: (w ++ [shuts i])) := by
  intro hout
  obtain rfl | hmem := List.mem_cons.1 hout.mem
  · cases hm
  obtain hmem | hmem := List.mem_append.1 hmem
  · exact hw _ hmem rfl
  · cases List.mem_singleton.1 hmem

/-- A guard matters to its own number only. -/
theorem remains_guard_of_ne {c : Mark} (hl : j ∈ l₁ ↔ j ∈ l) (hm : m.number ≠ j) (hc : c.number ≠ j) :
    Remains l (m :: (w ++ [c])) j ↔ Remains l₁ w j := by
  have hopening : m ≠ adopts j ∧ m ≠ parts j :=
    ⟨ne_of_apply_ne number hm, ne_of_apply_ne number hm⟩
  have hending : c ≠ adopts j ∧ c ≠ parts j :=
    ⟨ne_of_apply_ne number hc, ne_of_apply_ne number hc⟩
  simp [Remains, TakenOut, takenOut_append, hl, hopening, hending, hopening.1.symm, hending.1.symm]

/-! ## Brackets -/

/-- The marks are those of guards that have all ended: they give up the numbers that they had, and if no two
guards have one number at a time, they leave alone those that guards around them have. -/
structure Bracketed (w : List Mark) : Prop where
  closed : ∀ guards, w.foldl enter guards = guards
  untouched : ∀ {guards}, Apart guards w → ∀ m ∈ w, m.number ∉ guards

namespace Bracketed

theorem nil : Bracketed [] := ⟨fun _ => rfl, nofun⟩

theorem append (hw : Bracketed w) (hv : Bracketed v) : Bracketed (w ++ v) where
  closed guards := by rw [List.foldl_append, hw.closed, hv.closed]
  untouched {guards} hapart m hm := by
    obtain ⟨hfirst, hsecond⟩ := apart_append.1 hapart
    rw [hw.closed] at hsecond
    obtain hm | hm := List.mem_append.1 hm
    · exact hw.untouched hfirst m hm
    · exact hv.untouched hsecond m hm

/-- Under a guard, the marks are apart from it. -/
theorem apart_inside (hm : m.opens) {c : Mark} (hapart : Apart guards (m :: (w ++ [c]))) :
    m.number ∉ guards ∧ Apart (m.number :: guards) w := by
  obtain ⟨hfresh, hrest⟩ := hapart
  rw [enter, if_pos hm] at hrest
  exact ⟨hfresh hm, (apart_append.1 hrest).1⟩

theorem untouched_inside (hw : Bracketed w) (hm : m.opens) {c : Mark} (hapart : Apart guards (m :: (w ++ [c]))) :
    ∀ x ∈ w, x.number ≠ m.number := fun x hx heq =>
  hw.untouched (apart_inside hm hapart).2 x hx (heq ▸ List.mem_cons_self)

/-- One guard around marks that are brackets. -/
theorem guard (hw : Bracketed w) (hm : m.opens) {c : Mark} (hc : c.opens = false) (hnumber : c.number = m.number) :
    Bracketed (m :: (w ++ [c])) where
  closed guards := by
    rw [List.foldl_cons, List.foldl_append, hw.closed]
    simp [enter, hm, hc, hnumber]
  untouched {guards} hapart x hx := by
    obtain ⟨hfresh, hinside⟩ := apart_inside hm hapart
    obtain rfl | hx := List.mem_cons.1 hx
    · exact hfresh
    obtain hx | hx := List.mem_append.1 hx
    · exact fun hmem => hw.untouched hinside x hx (List.mem_cons_of_mem _ hmem)
    · obtain rfl := List.mem_singleton.1 hx
      rwa [hnumber]

end Bracketed

/-! ## Marks and live numbers -/

/-- The live numbers after a guard has ended: its own is not among them unless the share was taken out. -/
def afterEnding (i : Nat) (out : Bool) (l : List Nat) : List Nat := if out then l else l.filter (· != i)

theorem mem_afterEnding {out : Bool} : j ∈ afterEnding i out l ↔ j ∈ l ∧ (out = true ∨ j ≠ i) := by
  cases out <;> simp [afterEnding]

/-- The marks explain how the numbers `l'` are live after the numbers `l` were. -/
structure Explains (l : List Nat) (w : List Mark) (l' : List Nat) : Prop where
  live : ∀ i ∈ l', Remains l w i
  remains : ∀ {guards}, Apart guards w → ∀ i, Remains l w i → i ∈ l'

namespace Explains

theorem refl (l : List Nat) : Explains l [] l where
  live i hi := .inl ⟨hi, List.not_mem_nil⟩
  remains _ i hi := by
    obtain ⟨hi, -⟩ | hi := hi
    · exact hi
    · exact hi.elim

theorem trans (hw : Bracketed w) (h : Explains l w l₁) (h' : Explains l₁ v l₂) : Explains l (w ++ v) l₂ where
  live i hi := remains_append.2 ((h'.live i hi).imp_left fun hkept => ⟨h.live i hkept.1, hkept.2⟩)
  remains {guards} hapart i hi := by
    obtain ⟨hfirst, hsecond⟩ := apart_append.1 hapart
    rw [hw.closed] at hsecond
    exact h'.remains hsecond i ((remains_append.1 hi).imp_left fun hkept =>
      ⟨h.remains hfirst i hkept.1, hkept.2⟩)

/-- A guard around a live share, taken or adopted: when it ends, its share is not live any more, unless it was
taken out. -/
theorem guard (hw : Bracketed w) (h : Explains l₁ w l₂) (hm : m.opens) (hlive : m.number ∈ l₁)
    (hothers : ∀ j, j ≠ m.number → (j ∈ l₁ ↔ j ∈ l)) (hadopts : m.number ∈ l → m = adopts m.number) (out : Bool) :
    Explains l (m :: (w ++ [ending m.number out])) (afterEnding m.number out l₂) where
  live j hj := by
    obtain ⟨hj, hgone⟩ := mem_afterEnding.1 hj
    by_cases hne : j = m.number
    · obtain rfl : out = true := hgone.resolve_right (not_not_intro hne)
      subst hne
      exact .inr (.inr (takenOut_append.2 (.inr (.inl ⟨rfl, List.not_mem_nil⟩))))
    · exact (remains_guard_of_ne (hothers j hne) (Ne.symm hne) (by simpa using Ne.symm hne)).2 (h.live j hj)
  remains {guards} hapart j hj := by
    have huntouched := hw.untouched_inside hm hapart
    have hinside := (Bracketed.apart_inside hm hapart).2
    refine mem_afterEnding.2 ?_
    by_cases hne : j = m.number
    -- The guard's own number: its share was live all along, since nothing under the guard has the number.
    · subst hne
      cases out with
      | false =>
        obtain ⟨hl, hunadopted⟩ | hout := hj
        · exact absurd (hadopts hl ▸ List.mem_cons_self) hunadopted
        · exact absurd hout (not_takenOut_of_shuts hm huntouched)
      | true => exact ⟨h.remains hinside _ (.inl ⟨hlive, fun hmem => huntouched _ hmem rfl⟩), .inl rfl⟩
    · exact ⟨h.remains hinside j
        ((remains_guard_of_ne (hothers j hne) (Ne.symm hne) (by simpa using Ne.symm hne)).1 hj), .inr hne⟩

/-- A guard around a number that no live share has. -/
theorem idle (hw : Bracketed w) (h : Explains l w l₂) (hidle : i ∉ l) (out : Bool) :
    Explains l (idles i :: (w ++ [shuts i])) (afterEnding i out l₂) where
  live j hj := by
    obtain ⟨hl, hunadopted⟩ | hout := h.live j (mem_afterEnding.1 hj).1
    · exact .inl ⟨hl, by simpa using hunadopted⟩
    · exact .inr (.inr (takenOut_append.2 (.inl ⟨hout, by simp⟩)))
  remains {guards} hapart j hj := by
    have huntouched := hw.untouched_inside rfl hapart
    have hinside := (Bracketed.apart_inside rfl hapart).2
    -- The guard's own number is not live, and nothing under the guard has it.
    have hne : j ≠ i := by
      rintro rfl
      obtain ⟨hl, -⟩ | hout := hj
      · exact hidle hl
      · exact not_takenOut_of_shuts rfl huntouched hout
    exact mem_afterEnding.2
      ⟨h.remains hinside j ((remains_guard_of_ne Iff.rfl (Ne.symm hne) (Ne.symm hne)).1 hj), .inr hne⟩

end Explains

end Mark

end FormDesk
