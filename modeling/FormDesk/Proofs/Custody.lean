/-
The custody of shares. `Custody` is the type of programs that take shares, adopt
them and take them out of their guards, nested in any way; what is done under a
guard returns or is interrupted, and interruptions may be caught. In between they
may do anything that has nothing to do with shares, such as making the model
unavailable. `Custody.act` runs such a program, and `Custody.marks` tells what its
guards do meanwhile.

What a run comes to (`Desk.Passes`) has two sides. The shares that were live and
the ones handed out are, each of them once, the ones given back and the ones that
are live now (`Desk.Tallied`); and the marks explain which these are
(`Mark.Explains`). Each kind of guard keeps both, and so do runs after each other
(`Custody.passes`). The main theorem is `Custody.shares_settle`.

A guard knows its share by the number alone, as the model does. So a number that
is given to two guards at a time is not safe with either of them
(`Custody.guards_share_number`).
-/
import FormDesk.Desk.Guard
import FormDesk.Proofs.Ledger
import FormDesk.Proofs.Marks
import FormDesk.Proofs.Refusal

namespace FormDesk

variable {σ : Type}

/-! ## Programs -/

/-- The answer of an action that returned is one with `out`. -/
def Outcome.answers {α : Type} (out : α → Bool) : Outcome α → Bool
  | returned a => out a
  | _ => false

theorem Outcome.map_ne_fatal {α β : Type} {f : α → β} {o : Outcome α} (ho : o ≠ .fatal) : o.map f ≠ .fatal := by
  cases o with
  | returned | interrupted => simp [Outcome.map]
  | fatal => exact absurd rfl ho

/-- The numbers of the live shares. -/
def Model.liveIds (m : Model) : List Nat := m.live.map (·.id)

/-- No share was handed out or given back. -/
structure Desk.Shareless (d e : Desk σ) : Prop where
  live : e.model.live = d.model.live
  nextShare : e.model.nextShare = d.model.nextShare
  taken : e.taken = d.taken
  returned : e.returned = d.returned

/-- The action comes to an end and has nothing to do with shares. -/
def Act.Shareless {α : Type} (h : Host σ) (a : Act σ α) : Prop :=
  ∀ d, (a h d).1 ≠ .fatal ∧ d.Shareless (a h d).2

/-- Programs whose shares are under guards, but for those that are taken out of them. -/
inductive Custody (h : Host σ) : Type → Type 1
  | aside {α} (a : Act σ α) (ha : a.Shareless h) : Custody h α
  | bind {α β} (p : Custody h α) (f : α → Custody h β) : Custody h β
  | attempt {α} (p : Custody h α) : Custody h (Except String α)
  /-- A share is taken and the body run with it under a guard, from which an answer with `out` takes it. -/
  | acquire {α} (access : Access) (out : α → Bool) (body : Share → Custody h α) :
      Custody h (Except ModelError α)
  /-- The body is run under a guard around a share from anywhere. -/
  | adopt {α} (share : Share) (out : α → Bool) (body : Custody h α) : Custody h α

namespace Act.Shareless

variable {h : Host σ} {α : Type}

theorem pure (a : α) : (Pure.pure a : Act σ α).Shareless h := fun _ => ⟨nofun, rfl, rfl, rfl, rfl⟩

theorem interrupt (message : String) : (Act.interrupt message : Act σ α).Shareless h :=
  fun _ => ⟨nofun, rfl, rfl, rfl, rfl⟩

theorem setAvailable (available : Bool) : (Act.setAvailable available : Act σ Unit).Shareless h := by
  intro d
  have hdeed (read : Deed → Option Nat) (hread : read (.availability available d.undoing) = none) :
      (Act.setAvailable available h d).2.history.toList.filterMap read = d.history.toList.filterMap read := by
    have hhistory : (Act.setAvailable available h d).2.history.toList =
        d.history.toList ++ [.availability available d.undoing] := d.toList_enter _
    simp [hhistory, hread]
  exact ⟨nofun, rfl, rfl, hdeed _ rfl, hdeed _ rfl⟩

end Act.Shareless

namespace Custody

variable {h : Host σ}

/-- Runs a program. -/
def act : {α : Type} → Custody h α → Act σ α
  | _, aside a _ => a
  | _, bind p f => p.act >>= fun a => (f a).act
  | _, attempt p => Act.attempt p.act
  | _, acquire access out body => Act.guarding access out fun share => (body share).act
  | _, adopt share out body => Act.guarded share out body.act

/-- What the guards do in a run from a desk. -/
def marks : {α : Type} → Custody h α → Desk σ → List Mark
  | _, aside .., _ => []
  | _, bind p f, d => p.marks d ++
    match p.act h d with
    | (.returned a, e) => (f a).marks e
    | _ => []
  | _, attempt p, d => p.marks d
  | _, acquire access out body, d =>
    match d.model.acquire access with
    | .error _ => []
    | .ok (share, m) =>
      let d := d.accepted share (.acquire access) m
      .takes share.id :: ((body share).marks d ++ [.ending share.id (((body share).act h d).1.answers out)])
  | _, adopt share out body, d =>
    if share.id ∈ d.model.liveIds then
      .adopts share.id :: (body.marks d ++ [.ending share.id ((body.act h d).1.answers out)])
    else .idles share.id :: (body.marks d ++ [.shuts share.id])

end Custody

/-! ## What is done with shares -/

namespace Model

variable {m : Model}

theorem mem_liveIds {id : Nat} : id ∈ m.liveIds ↔ ¬ m.Stale id := by
  simp [liveIds, Stale]

theorem numbered_iff : m.Numbered ↔ m.liveIds.Nodup ∧ ∀ id ∈ m.liveIds, id < m.nextShare := by
  simp only [liveIds, List.Nodup, List.pairwise_map, List.forall_mem_map]
  exact ⟨fun hm => ⟨hm.apart, hm.below⟩, fun hm => ⟨hm.2, hm.1⟩⟩

end Model

namespace Desk

variable {d e f : Desk σ}

/-- The numbers handed out from one desk to a later one. -/
def handedOut (d e : Desk σ) : List Nat := List.range' d.model.nextShare (e.model.nextShare - d.model.nextShare)

/-- The shares that were live and the ones handed out are the ones given back and the ones live now. -/
structure Tallied (d e : Desk σ) : Prop where
  next : d.model.nextShare ≤ e.model.nextShare
  taken : e.taken = d.taken ++ d.handedOut e
  returned : ∃ r, e.returned = d.returned ++ r ∧ (d.model.liveIds ++ d.handedOut e).Perm (r ++ e.model.liveIds)

theorem mem_handedOut (hnext : d.model.nextShare ≤ e.model.nextShare) {id : Nat} :
    id ∈ d.handedOut e ↔ d.model.nextShare ≤ id ∧ id < e.model.nextShare := by
  rw [handedOut, List.mem_range'_1]
  omega

/-- A number is live or handed out once. -/
theorem nodup_handedOut (hd : d.model.Numbered) (e : Desk σ) : (d.model.liveIds ++ d.handedOut e).Nodup := by
  obtain ⟨hnodup, hbelow⟩ := Model.numbered_iff.1 hd
  refine List.nodup_append.2 ⟨hnodup, List.nodup_range', fun id hlive id' hid' heq => ?_⟩
  have hlow := hbelow id hlive
  have hhigh := (List.mem_range'_1.1 hid').1
  omega

theorem Shareless.liveIds (hs : d.Shareless e) : e.model.liveIds = d.model.liveIds := by
  rw [Model.liveIds, Model.liveIds, hs.live]

theorem Shareless.handedOut (hs : d.Shareless e) : d.handedOut e = [] := by
  simp [Desk.handedOut, hs.nextShare]

theorem Shareless.tallied (hs : d.Shareless e) : d.Tallied e where
  next := Nat.le_of_eq hs.nextShare.symm
  taken := by rw [hs.taken, hs.handedOut, List.append_nil]
  returned := ⟨[], by rw [hs.returned, List.append_nil], by rw [hs.handedOut, hs.liveIds, List.append_nil]; rfl⟩

namespace Tallied

theorem trans (ht : d.Tallied e) (ht' : e.Tallied f) : d.Tallied f := by
  obtain ⟨hnext, htaken, r, hreturned, hperm⟩ := ht
  obtain ⟨hnext', htaken', r', hreturned', hperm'⟩ := ht'
  have hout : d.handedOut f = d.handedOut e ++ e.handedOut f := by
    obtain ⟨k, hk⟩ := Nat.exists_eq_add_of_le hnext
    obtain ⟨k', hk'⟩ := Nat.exists_eq_add_of_le hnext'
    simp only [handedOut, hk', hk, Nat.add_sub_cancel_left, Nat.add_assoc, Nat.add_sub_add_left,
      List.range'_append_1]
  refine ⟨Nat.le_trans hnext hnext', by rw [htaken', htaken, hout, List.append_assoc], r ++ r',
    by rw [hreturned', hreturned, List.append_assoc], ?_⟩
  calc d.model.liveIds ++ d.handedOut f
    _ = d.model.liveIds ++ d.handedOut e ++ e.handedOut f := by rw [hout, List.append_assoc]
    _ |>.Perm (r ++ e.model.liveIds ++ e.handedOut f) := hperm.append_right _
    _ |>.Perm (r ++ (r' ++ f.model.liveIds)) := by
      rw [List.append_assoc]
      exact hperm'.append_left r
    _ = r ++ r' ++ f.model.liveIds := (List.append_assoc ..).symm

/-- Of the shares that were live or handed out, no one is given back twice, and none is given back and live. -/
theorem exists_returned (ht : d.Tallied e) (hd : d.model.Numbered) :
    ∃ r, e.returned = d.returned ++ r ∧ (d.model.liveIds ++ d.handedOut e).Perm (r ++ e.model.liveIds) ∧
      r.Nodup ∧ e.model.liveIds.Nodup ∧ ∀ id ∈ r, id ∉ e.model.liveIds := by
  obtain ⟨-, -, r, hreturned, hperm⟩ := ht
  obtain ⟨hback, hlive, hdisjoint⟩ := List.nodup_append.1 (hperm.nodup (nodup_handedOut hd e))
  exact ⟨r, hreturned, hperm, hback, hlive, fun id hmem hid => hdisjoint id hmem id hid rfl⟩

/-- A live number was live before, or was handed out since. -/
theorem mem_live (ht : d.Tallied e) {id : Nat} (hid : id ∈ e.model.liveIds) :
    id ∈ d.model.liveIds ∨ (d.model.nextShare ≤ id ∧ id < e.model.nextShare) := by
  obtain ⟨hnext, -, r, -, hperm⟩ := ht
  exact (List.mem_append.1 (hperm.symm.subset (List.mem_append_right r hid))).imp_right (mem_handedOut hnext).1

theorem numbered (ht : d.Tallied e) (hd : d.model.Numbered) : e.model.Numbered := by
  obtain ⟨-, -, -, -, hnodup, -⟩ := ht.exists_returned hd
  refine Model.numbered_iff.2 ⟨hnodup, fun id hid => ?_⟩
  obtain hlive | ⟨-, hout⟩ := ht.mem_live hid
  · exact Nat.lt_of_lt_of_le ((Model.numbered_iff.1 hd).2 id hlive) ht.next
  · exact hout

/-- A share that was handed out was given back once, or it is live. -/
theorem returned_or_live (ht : d.Tallied e) (hd : d.model.Numbered) {id : Nat} (hout : id ∈ d.handedOut e) :
    (e.returned.count id = d.returned.count id + 1 ∧ id ∉ e.model.liveIds) ∨
    (e.returned.count id = d.returned.count id ∧ id ∈ e.model.liveIds ∧ id ∉ d.model.liveIds) := by
  obtain ⟨r, hreturned, hperm, hback, -, hdead⟩ := ht.exists_returned hd
  rw [hreturned, List.count_append, hback.count]
  by_cases hmem : id ∈ r
  · exact .inl ⟨by rw [if_pos hmem], hdead id hmem⟩
  · have hlive : id ∈ e.model.liveIds :=
      (List.mem_append.1 (hperm.subset (List.mem_append_right _ hout))).resolve_left hmem
    have hnew : id ∉ d.model.liveIds := fun hbefore =>
      (List.nodup_append.1 (nodup_handedOut hd e)).2.2 id hbefore id hout rfl
    exact .inr ⟨by rw [if_neg hmem, Nat.add_zero], hlive, hnew⟩

theorem count_returned_le (ht : d.Tallied e) (hd : d.model.Numbered) (id : Nat) :
    e.returned.count id ≤ d.returned.count id + 1 := by
  obtain ⟨r, hreturned, -, hback, -⟩ := ht.exists_returned hd
  rw [hreturned, List.count_append, hback.count]
  split <;> omega

end Tallied

theorem acquire_tallied {access : Access} {share : Share} {m : Model}
    (hacquire : d.model.acquire access = .ok (share, m)) :
    d.Tallied (d.accepted share (.acquire access) m) ∧ m.liveIds = share.id :: d.model.liveIds ∧
      share.id = d.model.nextShare := by
  obtain ⟨-, rfl, rfl⟩ := Model.acquire_ok hacquire
  have hout : d.handedOut (d.accepted ⟨d.model.nextShare, access⟩ (.acquire access)
      { d.model.enter (.acquire access) with
        nextShare := d.model.nextShare + 1
        live := ⟨d.model.nextShare, access⟩ :: d.model.live }) = [d.model.nextShare] := by
    simp [handedOut]
  refine ⟨⟨Nat.le_succ _, ?_, [], ?_, ?_⟩, rfl, rfl⟩
  · rw [hout, taken, toList_accepted, List.filterMap_append]
    rfl
  · rw [returned, toList_accepted, List.filterMap_append]
    rfl
  · rw [hout]
    exact List.perm_append_singleton ..

end Desk

/-! ## Guards -/

/-- The desk after a guard has ended: its share was taken out of it, or was given back. -/
def Desk.unguarded (h : Host σ) (share : Share) (out : Bool) (d : Desk σ) : Desk σ :=
  if out then d else (Act.release share h d).2

namespace Act

variable {h : Host σ} {α : Type}

theorem liveIds_release (share : Share) (d : Desk σ) :
    (release share h d).2.model.liveIds = d.model.liveIds.filter (· != share.id) := by
  cases hrelease : d.model.release? share with
  | none =>
    have hstale : d.model.Stale share.id := by
      simpa [Model.release?, Model.accessOf?_none] using hrelease
    rw [release_refused hrelease]
    refine (List.filter_eq_self.2 fun id hid => ?_).symm
    obtain ⟨s, hs, rfl⟩ := List.mem_map.1 hid
    simpa using hstale s hs
  | some back =>
    obtain ⟨access, m⟩ := back
    obtain ⟨-, rfl⟩ := Model.release?_some hrelease
    rw [release_run hrelease]
    simp only [Desk.model_accepted, Model.liveIds, List.filter_map]
    rfl

theorem release_tallied {d : Desk σ} (hd : d.model.Numbered) (share : Share) :
    d.Tallied (release share h d).2 := by
  have hlive := liveIds_release (h := h) share d
  cases hrelease : d.model.release? share with
  | none =>
    rw [release_refused hrelease]
    exact Desk.Shareless.tallied ⟨rfl, rfl, rfl, rfl⟩
  | some back =>
    obtain ⟨access, m⟩ := back
    obtain ⟨haccess, rfl⟩ := Model.release?_some hrelease
    rw [release_run hrelease] at hlive ⊢
    have hmem : share.id ∈ d.model.liveIds := by
      rw [Model.mem_liveIds, ← Model.accessOf?_none, haccess]
      simp
    have hout : d.handedOut (d.accepted share (.release access) { d.model.enter (.release access) with
        live := d.model.live.filter (·.id != share.id) }) = [] := by simp [Desk.handedOut, Model.enter]
    refine ⟨Nat.le_refl _, ?_, [share.id], ?_, ?_⟩
    · rw [hout, Desk.taken, Desk.toList_accepted, List.filterMap_append]
      rfl
    · rw [Desk.returned, Desk.toList_accepted, List.filterMap_append]
      rfl
    · rw [hlive, hout, List.append_nil, ← (Model.numbered_iff.1 hd).1.erase_eq_filter]
      exact List.perm_cons_erase hmem

/-- An action under a guard ends as it does without. -/
theorem guarded_run (share : Share) (out : α → Bool) {act : Act σ α} {d e : Desk σ} {o : Outcome α}
    (hact : act h d = (o, e)) (ho : o ≠ .fatal) :
    guarded share out act h d = (o, e.unguarded h share (o.answers out)) := by
  have hrelease := release_returned (h := h) share e
  unfold guarded
  cases o with
  | returned a =>
    rw [bind_run (onInterrupt_run hact)]
    cases hout : out a with
    | true =>
      simp only [Outcome.answers, hout]
      rfl
    | false =>
      simp only [Outcome.answers, hout]
      exact bind_run hrelease
  | interrupted message => exact bind_interrupted (onInterrupt_interrupted hact hrelease)
  | fatal => exact absurd rfl ho

theorem guarding_run {access : Access} (out : α → Bool) {f : Share → Act σ α} {d e : Desk σ} {share : Share}
    {m : Model} {o : Outcome α} (hacquire : d.model.acquire access = .ok (share, m))
    (hact : f share h (d.accepted share (.acquire access) m) = (o, e)) (ho : o ≠ .fatal) :
    guarding access out f h d = (o.map .ok, e.unguarded h share (o.answers out)) := by
  have hguarded := guarded_run share out hact ho
  unfold guarding
  rw [bind_run (acquire_run hacquire)]
  cases o with
  | returned a => exact bind_run hguarded
  | interrupted message => exact bind_interrupted hguarded
  | fatal => exact absurd rfl ho

theorem guarding_refused {access : Access} {d : Desk σ} {e : ModelError}
    (hacquire : d.model.acquire access = .error e) (out : α → Bool) (f : Share → Act σ α) :
    guarding access out f h d = (.returned (.error e), d) :=
  bind_run (acquire_refused hacquire)

/-- A guard from which the share is never taken gives it back after all. -/
theorem guarded_never (share : Share) (act : Act σ α) :
    guarded share (fun _ => false) act = ensure act (release share) := by
  funext h d
  have hrelease := release_returned (h := h) share (act h d).2
  rcases hact : act h d with ⟨o, e⟩
  rw [hact] at hrelease
  by_cases ho : o = .fatal
  · subst ho
    simp only [ensure, hact]
    exact bind_fatal (onInterrupt_fatal hact)
  · rw [guarded_run share _ hact ho, ensure_ended hact ho hrelease]
    cases o <;> rfl

theorem guarding_never (access : Access) (f : Share → Act σ α) :
    guarding access (fun _ => false) f = withShare access f := by
  refine bind_congr fun taken => ?_
  cases taken with
  | error e => rfl
  | ok share =>
    exact congrArg (fun act : Act σ α => act >>= fun a => pure (Except.ok a)) (guarded_never share (f share))

end Act

/-! ## What a run comes to -/

namespace Desk

/-- A run with these marks leads from one desk to another. -/
structure Passes (d : Desk σ) (w : List Mark) (e : Desk σ) : Prop where
  tallied : d.Tallied e
  explains : Mark.Explains d.model.liveIds w e.model.liveIds

variable {h : Host σ} {d e f : Desk σ} {w v : List Mark} {share : Share}

theorem liveIds_unguarded (share : Share) (out : Bool) (d : Desk σ) :
    (d.unguarded h share out).model.liveIds = Mark.afterEnding share.id out d.model.liveIds := by
  cases out with
  | true => rfl
  | false => exact Act.liveIds_release share d

theorem Tallied.unguarded (ht : d.Tallied e) (hd : d.model.Numbered) (share : Share) (out : Bool) :
    d.Tallied (e.unguarded h share out) := by
  cases out with
  | true => exact ht
  | false => exact ht.trans (Act.release_tallied (ht.numbered hd) share)

namespace Passes

theorem shareless (hs : d.Shareless e) : d.Passes [] e :=
  ⟨hs.tallied, hs.liveIds ▸ .refl _⟩

theorem trans (hw : Mark.Bracketed w) (hp : d.Passes w e) (hp' : e.Passes v f) : d.Passes (w ++ v) f :=
  ⟨hp.tallied.trans hp'.tallied, hp.explains.trans hw hp'.explains⟩

theorem acquired (hd : d.model.Numbered) {access : Access} {m : Model}
    (hacquire : d.model.acquire access = .ok (share, m)) (hw : Mark.Bracketed w)
    (hp : (d.accepted share (.acquire access) m).Passes w e) (out : Bool) :
    d.Passes (.takes share.id :: (w ++ [.ending share.id out])) (e.unguarded h share out) := by
  obtain ⟨htallied, hlive, hnext⟩ := acquire_tallied hacquire
  -- The number that is handed out is above all live ones.
  have hfresh : share.id ∉ d.model.liveIds := fun hmem =>
    Nat.lt_irrefl _ (hnext ▸ (Model.numbered_iff.1 hd).2 share.id hmem)
  have hexplains := hp.explains
  rw [model_accepted, hlive] at hexplains
  refine ⟨(htallied.trans hp.tallied).unguarded hd share out, ?_⟩
  rw [liveIds_unguarded]
  exact .guard (m := .takes share.id) hw hexplains rfl List.mem_cons_self
    (fun j hj => List.mem_cons.trans (or_iff_right hj)) (fun hmem => absurd hmem hfresh) out

theorem adopted (hd : d.model.Numbered) (hlive : share.id ∈ d.model.liveIds) (hw : Mark.Bracketed w)
    (hp : d.Passes w e) (out : Bool) :
    d.Passes (.adopts share.id :: (w ++ [.ending share.id out])) (e.unguarded h share out) := by
  refine ⟨hp.tallied.unguarded hd share out, ?_⟩
  rw [liveIds_unguarded]
  exact .guard (m := .adopts share.id) hw hp.explains rfl hlive (fun _ _ => Iff.rfl) (fun _ => rfl) out

theorem idle (hd : d.model.Numbered) (hidle : share.id ∉ d.model.liveIds) (hw : Mark.Bracketed w)
    (hp : d.Passes w e) (out : Bool) :
    d.Passes (.idles share.id :: (w ++ [.shuts share.id])) (e.unguarded h share out) := by
  refine ⟨hp.tallied.unguarded hd share out, ?_⟩
  rw [liveIds_unguarded]
  exact hp.explains.idle hw hidle out

end Passes

end Desk

namespace Custody

variable {h : Host σ} {α β : Type}

theorem bracketed (p : Custody h α) (d : Desk σ) : Mark.Bracketed (p.marks d) := by
  induction p generalizing d with
  | aside => exact .nil
  | bind p f ihp ihf =>
    unfold marks
    refine (ihp d).append ?_
    split
    · exact ihf _ _
    · exact .nil
  | attempt p ih => exact ih d
  | acquire access out body ih =>
    unfold marks
    split
    · exact .nil
    · exact (ih _ _).guard rfl (Mark.opens_ending ..) (Mark.number_ending ..)
  | adopt share out body ih =>
    unfold marks
    split
    · exact (ih d).guard rfl (Mark.opens_ending ..) (Mark.number_ending ..)
    · exact (ih d).guard rfl rfl rfl

theorem passes (p : Custody h α) {d : Desk σ} (hd : d.model.Numbered) :
    (p.act h d).1 ≠ .fatal ∧ d.Passes (p.marks d) (p.act h d).2 := by
  -- The tally is needed on the way: what a body starts from is numbered because what came before is tallied.
  induction p generalizing d with
  | aside a ha => exact ⟨(ha d).1, .shareless (ha d).2⟩
  | bind p f ihp ihf =>
    obtain ⟨hended, hpasses⟩ := ihp hd
    rcases hp : p.act h d with ⟨o, e⟩
    rw [hp] at hended hpasses
    simp only [act, marks, hp]
    cases o with
    | returned a =>
      obtain ⟨hended', hpasses'⟩ := ihf a (hpasses.tallied.numbered hd)
      rw [Act.bind_run hp]
      exact ⟨hended', hpasses.trans (p.bracketed d) hpasses'⟩
    | interrupted message =>
      rw [Act.bind_interrupted hp, List.append_nil]
      exact ⟨by simp, hpasses⟩
    | fatal => exact absurd rfl hended
  | attempt p ih =>
    obtain ⟨hended, hpasses⟩ := ih hd
    rcases hp : p.act h d with ⟨o, e⟩
    rw [hp] at hended hpasses
    cases o with
    | returned a | interrupted message =>
      simp only [act, marks, Act.attempt, hp]
      exact ⟨by simp, hpasses⟩
    | fatal => exact absurd rfl hended
  | acquire access out body ih =>
    cases hacquire : d.model.acquire access with
    | error x =>
      simp only [act, marks, hacquire, Act.guarding_refused hacquire]
      exact ⟨by simp, .shareless ⟨rfl, rfl, rfl, rfl⟩⟩
    | ok taken =>
      obtain ⟨share, m⟩ := taken
      have hnumbered : (d.accepted share (.acquire access) m).model.Numbered := hd.acquire hacquire
      obtain ⟨hended, hpasses⟩ := ih share hnumbered
      rcases hbody : (body share).act h (d.accepted share (.acquire access) m) with ⟨o, e⟩
      rw [hbody] at hended hpasses
      simp only [act, marks, hacquire, hbody,
        Act.guarding_run (f := fun share => (body share).act) out hacquire hbody hended]
      exact ⟨Outcome.map_ne_fatal hended, hpasses.acquired hd hacquire ((body share).bracketed _) _⟩
  | adopt share out body ih =>
    obtain ⟨hended, hpasses⟩ := ih hd
    simp only [act, marks, Act.guarded_run share out (Prod.eta _).symm hended]
    refine ⟨hended, ?_⟩
    split
    · next hlive => exact hpasses.adopted hd hlive (body.bracketed d) _
    · next hidle => exact hpasses.idle hd hidle (body.bracketed d) _

/-- A guard around a number of no live share changes nothing in the model, if the number is not handed out while
it is there. -/
theorem adopt_idle {d e : Desk σ} (hd : d.model.Numbered) {share : Share} (out : α → Bool) {body : Custody h α}
    {o : Outcome α} (hidle : share.id ∉ d.model.liveIds) (hbody : body.act h d = (o, e))
    (hunused : share.id < d.model.nextShare ∨ e.model.nextShare ≤ share.id) :
    ∃ e', (adopt share out body).act h d = (o, e') ∧ e'.model = e.model := by
  obtain ⟨hended, hpasses⟩ := body.passes hd
  rw [hbody] at hended hpasses
  have hstale : share.id ∉ e.model.liveIds := fun hlive => by
    have hfrom := hpasses.tallied.mem_live hlive
    simp only [hidle, false_or] at hfrom
    omega
  have hrefused : e.model.release? share = none := by
    simpa [Model.release?, Model.accessOf?_none, Model.mem_liveIds] using hstale
  refine ⟨_, Act.guarded_run share out hbody hended, ?_⟩
  unfold Desk.unguarded
  split
  · rfl
  · rw [Act.release_refused hrefused]

/-- What a run of a program leaves of the shares. -/
structure Settled (p : Custody h α) (d e : Desk σ) : Prop where
  /-- Shares are handed out in order. -/
  taken : e.taken = d.taken ++ d.handedOut e
  /-- No share is given back twice, -/
  once : ∀ id, e.returned.count id ≤ d.returned.count id + 1
  /-- and each one that was handed out is given back, or it is live and was taken out of its guard. -/
  returned : ∀ id ∈ d.handedOut e,
    (e.returned.count id = d.returned.count id + 1 ∧ id ∉ e.model.liveIds) ∨
    (e.returned.count id = d.returned.count id ∧ id ∈ e.model.liveIds ∧ Mark.TakenOut id (p.marks d))
  /-- No share is live but those that were and were not adopted, and those that were taken out. -/
  live : ∀ id ∈ e.model.liveIds,
    (id ∈ d.model.liveIds ∧ .adopts id ∉ p.marks d) ∨ Mark.TakenOut id (p.marks d)
  /-- If no two guards have one number at a time, the shares that were taken out are not given back, and all of
  these are live. -/
  apart : Mark.Apart [] (p.marks d) →
    (∀ id ∈ d.handedOut e,
      e.returned.count id = d.returned.count id + if Mark.TakenOut id (p.marks d) then 0 else 1) ∧
    (∀ id, id ∈ e.model.liveIds ↔
      (id ∈ d.model.liveIds ∧ .adopts id ∉ p.marks d) ∨ Mark.TakenOut id (p.marks d))

theorem settled (p : Custody h α) {d : Desk σ} (hd : d.model.Numbered) : p.Settled d (p.act h d).2 := by
  obtain ⟨-, htallied, hlive, hremains⟩ := p.passes hd
  generalize (p.act h d).2 = e at *
  have hreturned {id : Nat} (hout : id ∈ d.handedOut e) :
      (e.returned.count id = d.returned.count id + 1 ∧ id ∉ e.model.liveIds) ∨
      (e.returned.count id = d.returned.count id ∧ id ∈ e.model.liveIds ∧ Mark.TakenOut id (p.marks d)) := by
    refine (htallied.returned_or_live hd hout).imp_right fun ⟨hback, hkept, hnew⟩ => ⟨hback, hkept, ?_⟩
    exact (hlive id hkept).resolve_left fun hbefore => hnew hbefore.1
  refine ⟨htallied.taken, htallied.count_returned_le hd, fun id hout => hreturned hout, hlive, fun hapart => ?_⟩
  have hlives (id : Nat) : id ∈ e.model.liveIds ↔ Mark.Remains d.model.liveIds (p.marks d) id :=
    ⟨hlive id, hremains hapart id⟩
  refine ⟨fun id hout => ?_, hlives⟩
  obtain ⟨hback, hdead⟩ | ⟨hback, -, hparted⟩ := hreturned hout
  · rw [hback, if_neg fun hparted => hdead ((hlives id).2 (.inr hparted))]
  · rw [hback, if_pos hparted, Nat.add_zero]

/-- **Shares settle.** Let a program take shares, adopt them and take them out of their guards, nested in any
way and with any endings, while shares are handed out or not. Then it comes to an end, and each share that was
handed out is given back exactly once, or it is live and was taken out of its guard; and if no two guards have
one number at a time, the marks of the guards tell which (`Custody.Settled`). A guard around a number that is
not live changes nothing in the model, and one that keeps its share is `Act.withShare`. -/
theorem shares_settle (p : Custody h α) {d e : Desk σ} {o : Outcome α} (hd : d.model.Numbered)
    (hrun : p.act h d = (o, e)) :
    o ≠ .fatal ∧ p.Settled d e ∧
    (∀ {β : Type} (access : Access) (out : β → Bool) (body : Share → Custody h β) {x : ModelError},
      d.model.acquire access = .error x →
      (acquire access out body).act h d = (.returned (.error x), d) ∧ (acquire access out body).marks d = []) ∧
    (∀ {β : Type} (share : Share) (out : β → Bool) (body : Custody h β) {o' : Outcome β} {e' : Desk σ},
      share.id ∉ d.model.liveIds → body.act h d = (o', e') →
      share.id < d.model.nextShare ∨ e'.model.nextShare ≤ share.id →
      ∃ f, (adopt share out body).act h d = (o', f) ∧ f.model = e'.model) ∧
    (∀ {β : Type} (access : Access) (body : Share → Custody h β),
      (acquire access (fun _ => false) body).act = Act.withShare access fun share => (body share).act) := by
  have hended := (p.passes hd).1
  have hsettled := p.settled hd
  rw [hrun] at hended hsettled
  refine ⟨hended, hsettled, fun access out body x hrefused => ⟨Act.guarding_refused hrefused out _, ?_⟩,
    fun share out body o' e' hidle hbody hunused => adopt_idle hd out hidle hbody hunused,
    fun access body => Act.guarding_never access _⟩
  simp only [marks, hrefused]

/-- A share is kept and adopted later, with another one kept meanwhile; in between an interruption ends two guards,
while no shares are handed out; and in the end the first share is adopted once more. -/
theorem shares_settle_nested :
    let h : Host Unit := .silent
    let done : Custody h Unit := .aside (pure ()) (.pure ())
    let keep : Custody h (Except ModelError Share) :=
      .acquire .edit (fun _ => true) fun share => .aside (pure share) (.pure share)
    let fail : Custody h (Except String (Except ModelError (Except ModelError Unit))) :=
      .attempt <| .acquire .read (fun _ => false) fun _ => .acquire .edit (fun _ => true) fun _ =>
        .bind (.aside (Act.setAvailable false) (.setAvailable false)) fun _ =>
        .bind (.acquire .read (fun _ => true) fun _ => done) fun _ =>
        .bind (.aside (Act.setAvailable true) (.setAvailable true)) fun _ =>
        .aside (Act.interrupt "stop") (.interrupt "stop")
    let p : Custody h Unit := .bind keep fun
      | .error _ => done
      | .ok share =>
        .bind fail fun _ =>
        .bind (.adopt share (fun _ => false) (.bind keep fun _ => done)) fun _ =>
        .adopt share (fun _ => true) done
    let d : Desk Unit :=
      { model := { document := some "", live := [⟨1, .read⟩], nextShare := 2 }, client := () }
    let e := (p.act h d).2
    d.model.Numbered ∧ (p.act h d).1 ≠ .fatal ∧ p.Settled d e ∧ Mark.Apart [] (p.marks d) ∧
    p.marks d = [.takes 2, .parts 2, .takes 3, .takes 4, .shuts 4, .shuts 3, .adopts 2, .takes 5, .parts 5,
      .shuts 2, .idles 2, .shuts 2] ∧
    e.returned = [4, 3, 2] ∧ e.model.liveIds = [5, 1] := by
  intro h done keep fail p d e
  have hd : d.model.Numbered := Model.numbered_iff.2 (by decide)
  obtain ⟨hended, hsettled, -⟩ := p.shares_settle hd (Prod.eta (p.act h d)).symm
  exact ⟨hd, hended, hsettled, by decide +kernel, by decide +kernel, by decide +kernel, by decide +kernel⟩

/-- Guards that have one number at a time: a guard around a number of no live share gives back the share that is
handed out with this number and taken out of its own guard, and a share that is taken out of its guard was given
back by another one inside. And what is taken out of a guard need not be live: the guard may have adopted a
share that was given back before. -/
theorem guards_share_number :
    let h : Host Unit := .silent
    let d : Desk Unit := { model := { document := some "" }, client := () }
    let done : Custody h Unit := .aside (pure ()) (.pure ())
    let keep : Custody h (Except ModelError Share) :=
      .acquire .edit (fun _ => true) fun share => .aside (pure share) (.pure share)
    let around : Custody h (Except ModelError Share) := .adopt ⟨1, .edit⟩ (fun _ => false) keep
    let inside : Custody h (Except ModelError Unit) :=
      .acquire .edit (fun _ => true) fun share => .adopt share (fun _ => false) done
    let late : Custody h Unit :=
      .bind (.acquire .edit (fun _ => false) fun _ => done) fun _ => .adopt ⟨1, .edit⟩ (fun _ => true) done
    (1 ∉ d.model.liveIds ∧ Mark.TakenOut 1 (around.marks d) ∧ (keep.act h d).2.model.liveIds = [1] ∧
      (around.act h d).2.model.liveIds = [] ∧ (around.act h d).2.returned = [1]) ∧
    (Mark.TakenOut 1 (inside.marks d) ∧
      (inside.act h d).2.model.liveIds = [] ∧ (inside.act h d).2.returned = [1]) ∧
    (late.marks d = [.takes 1, .shuts 1, .idles 1, .shuts 1] ∧ (late.act h d).2.model.liveIds = []) := by
  decide +kernel

end Custody

end FormDesk
