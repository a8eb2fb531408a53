/-
The keys under which active pages are remembered. A key is the kind of an editor and a
resource with a separator between them, and nothing marks where the kind ends. So two
pairs may have one key; they do just when one of the kinds is the other one, a separator
and something more, and that with a separator is what the other resource has in front
(`Settings.memoryKey_eq_iff`).

This rests on the separator not overlapping itself (`memoryKeySeparator_unbordered`): in
a text where it stands at two places, they are side by side (`Unbordered.apart`).
-/
import FormDesk.Settings
import Mathlib.Data.List.Infix

namespace FormDesk

/-! ## Words that do not overlap themselves -/

section

variable {α : Type}

/-- Nothing that a word begins with is what it ends with, but for nothing at all and the whole word. -/
def Unbordered (s : List α) : Prop := ∀ v, v <+: s → v <:+ s → v = [] ∨ v = s

variable {s k r k' r' : List α}

/-- A word that does not overlap itself and stands at the beginning of a text and after `u`: it is the same place, or
the second one comes after the first one. -/
theorem Unbordered.apart (hs : Unbordered s) {u : List α} (h : s ++ r = u ++ (s ++ r')) :
    (u = [] ∧ r = r') ∨ ∃ w, u = s ++ w ∧ r = w ++ s ++ r' := by
  obtain ⟨w, rfl, rfl⟩ | ⟨v, hv, hr⟩ := List.append_eq_append_iff.1 h
  · exact .inr ⟨w, rfl, (List.append_assoc ..).symm⟩
  -- What the two places share is an end of the first one and a beginning of the second one.
  have hend : v <:+ s := ⟨u, hv.symm⟩
  have hbegin : v <+: s :=
    List.prefix_of_prefix_length_le ⟨r, hr.symm⟩ (List.prefix_append s r') hend.length_le
  obtain rfl | rfl := hs v hbegin hend
  · exact .inr ⟨[], by simp [hv], by simpa using hr.symm⟩
  · exact .inl ⟨List.self_eq_append_left.1 hv, (List.append_cancel_left hr).symm⟩

/-- Where such a word is put between two others, what comes of it tells the others apart, up to where the word stands in
one of them. -/
theorem Unbordered.between_eq_iff (hs : Unbordered s) : k ++ s ++ r = k' ++ s ++ r' ↔
    (k = k' ∧ r = r') ∨ (∃ w, k = k' ++ s ++ w ∧ r' = w ++ s ++ r) ∨ ∃ w, k' = k ++ s ++ w ∧ r = w ++ s ++ r' := by
  constructor
  · intro h
    rw [List.append_assoc, List.append_assoc] at h
    obtain ⟨u, rfl, hu⟩ | ⟨u, rfl, hu⟩ := List.append_eq_append_iff.1 h
    · obtain ⟨rfl, rfl⟩ | ⟨w, rfl, rfl⟩ := hs.apart hu
      · exact .inl ⟨(List.append_nil k).symm, rfl⟩
      · exact .inr (.inr ⟨w, (List.append_assoc ..).symm, rfl⟩)
    · obtain ⟨rfl, rfl⟩ | ⟨w, rfl, rfl⟩ := hs.apart hu
      · exact .inl ⟨List.append_nil k', rfl⟩
      · exact .inr (.inl ⟨w, (List.append_assoc ..).symm, rfl⟩)
  · rintro (⟨rfl, rfl⟩ | ⟨w, rfl, rfl⟩ | ⟨w, rfl, rfl⟩)
    · rfl
    · simp only [List.append_assoc]
    · simp only [List.append_assoc]

end

/-! ## Keys -/

/-- The first kind is the second one, a separator and something more; that and a separator is what the second resource
has in front of the first one. -/
def Overlaps (kind resource kind' resource' : String) : Prop :=
  ∃ w, kind = kind' ++ memoryKeySeparator ++ w ∧ resource' = w ++ memoryKeySeparator ++ resource

/-- A kind in which the separator does not stand. -/
def PlainKind (kind : String) : Prop := ¬memoryKeySeparator.toList <:+: kind.toList

instance (kind : String) : Decidable (PlainKind kind) := inferInstanceAs (Decidable (¬_))

theorem memoryKeySeparator_unbordered : Unbordered memoryKeySeparator.toList := by
  have hinits : ∀ v ∈ memoryKeySeparator.toList.inits, v <:+ memoryKeySeparator.toList →
      v = [] ∨ v = memoryKeySeparator.toList := by decide +kernel
  exact fun v hv => hinits v ((List.mem_inits ..).2 hv)

variable {s s' : Settings} {resource resource' : String}

theorem overlaps_iff {kind kind' : String} : Overlaps kind resource kind' resource' ↔
    ∃ w, kind.toList = kind'.toList ++ memoryKeySeparator.toList ++ w ∧
      resource'.toList = w ++ memoryKeySeparator.toList ++ resource.toList := by
  constructor
  · rintro ⟨w, rfl, rfl⟩
    exact ⟨w.toList, by simp, by simp⟩
  · rintro ⟨w, hkind, hresource⟩
    exact ⟨String.ofList w, String.toList_injective (by simpa using hkind),
      String.toList_injective (by simpa using hresource)⟩

theorem PlainKind.not_overlaps {kind kind' : String} (h : PlainKind kind) : ¬Overlaps kind resource kind' resource' :=
  fun hoverlaps => by
    obtain ⟨w, hkind, -⟩ := overlaps_iff.1 hoverlaps
    exact h ⟨kind'.toList, w, hkind.symm⟩

/-- Two pairs of a kind and a resource have one key just when they are the same pair or one of them overlaps the
other one. -/
theorem Settings.memoryKey_eq_iff : s.memoryKey resource = s'.memoryKey resource' ↔
    (s.kind = s'.kind ∧ resource = resource') ∨ Overlaps s.kind resource s'.kind resource' ∨
      Overlaps s'.kind resource' s.kind resource := by
  simp only [overlaps_iff, Settings.memoryKey, ← String.toList_inj, String.toList_append]
  exact memoryKeySeparator_unbordered.between_eq_iff

example : Settings.memoryKey { kind := "a_current_page@b" } "c" =
    Settings.memoryKey { kind := "a" } "b_current_page@c" := by decide +kernel

/-- Kinds in which the separator does not stand leave no doubt. -/
theorem Settings.memoryKey_inj (hs : PlainKind s.kind) (hs' : PlainKind s'.kind)
    (h : s.memoryKey resource = s'.memoryKey resource') : s.kind = s'.kind ∧ resource = resource' := by
  obtain hsame | hoverlaps | hoverlaps := Settings.memoryKey_eq_iff.1 h
  · exact hsame
  · exact absurd hoverlaps hs.not_overlaps
  · exact absurd hoverlaps hs'.not_overlaps

end FormDesk
