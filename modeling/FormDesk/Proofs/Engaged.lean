/-
Engaged books. What the books say of sessions is what the deeds say: a
coordinator is as deep in sessions as mutations of its are running
(`Deed.running`, counted from the deeds around each mutation). Beside the
sessions that are open there are those about to open: their share has been
taken, and clients are hearing of their bracket. Books are engaged (`Engaged`)
when there is a bracket for each of both, and the deeds tell which shares are
whose. Then sessions open right before a mutation runs and are left right after
one has run (`Deed.AroundMutation`, `Deed.Closing`), and the bracket of an
outermost one closes as soon as it is left.
-/
import FormDesk.Proofs.Balance
import FormDesk.Proofs.Caller
import FormDesk.Proofs.Holding

namespace FormDesk

namespace Deed

/-! ## What deeds tell of sessions -/

/-- A deed about a session: it is about to open, opens, is entered or left, or its mutation runs. -/
def ofSession : Deed → Bool
  | starting .. | opened .. | entered .. | left _ | runs _ | ran _ => true
  | _ => false

/-- The share that was taken for a session. -/
def reserves? : Deed → Option Nat
  | starting _ i => some i
  | _ => none

/-- The share around which a session opens. -/
def adopts? : Deed → Option Nat
  | opened _ i => some i
  | _ => none

/-- How many mutations of the coordinator `c` are running, counted on by one deed. -/
def pace (c : CoordinatorId) (k : Nat) : Deed → Nat
  | runs c' => if c' = c then k + 1 else k
  | ran c' => if c' = c then k - 1 else k
  | _ => k

/-- A session of the coordinator `c` opens or is entered. -/
def Admits (c : CoordinatorId) (x : Deed) : Prop := (∃ i, x = opened c i) ∨ ∃ k, x = entered c k

/-- The shares that were taken for sessions. -/
def reserved (w : List Deed) : List Nat := w.filterMap reserves?

/-- The shares around which sessions have opened. -/
def adopted (w : List Deed) : List Nat := w.filterMap adopts?

/-- The share was taken for a session that has not opened. -/
def Awaits (w : List Deed) (i : Nat) : Prop := i ∈ reserved w ∧ i ∉ adopted w

instance (w : List Deed) (i : Nat) : Decidable (Awaits w i) := inferInstanceAs (Decidable (_ ∧ _))

/-- How many mutations of the coordinator `c` are running after the deeds `w`. -/
def running (c : CoordinatorId) (w : List Deed) : Nat := w.foldl (pace c) 0

/-- An outermost session is begun only where no mutation of its coordinator is running, a mutation runs as soon as
its session has been opened or entered, and a session is left as soon as one has run. -/
def AroundMutation (w : List Deed) : Deed → Prop
  | starting c _ | opened c _ => running c w = 0
  | runs c => ∃ u x, w = u ++ [x] ∧ Admits c x
  | ran c => 0 < running c w
  | left c => ∃ u, w = u ++ [ran c]
  | _ => True

/-- Wherever a mutation has run, its session is left next, and then the bracket closes if no other mutation of the
coordinator is running. -/
def Closing (w : List Deed) : Prop :=
  ∀ u c v, w = u ++ ran c :: v →
    ∃ v', v = left c :: v' ∧ (running c u = 1 → ∃ i v'', v' = call i .changed :: v'')

variable {w v : List Deed} {x : Deed} {c : CoordinatorId} {i : Nat}

/-- Deeds that do not count leave a count as it is. -/
theorem foldl_append_still {f : Nat → Deed → Nat} (hv : ∀ x ∈ v, ∀ k, f k x = k) :
    (w ++ v).foldl f 0 = w.foldl f 0 := by
  rw [List.foldl_append]
  refine List.foldlRecOn (motive := fun k => k = w.foldl f 0) v f rfl fun k hk x hx => ?_
  rw [hv x hx, hk]

@[simp] theorem running_concat (c : CoordinatorId) (w v : List Deed) :
    running c (w ++ v) = v.foldl (pace c) (running c w) := List.foldl_append

@[simp] theorem reserved_concat (w v : List Deed) : reserved (w ++ v) = reserved w ++ reserved v :=
  List.filterMap_append

@[simp] theorem reserved_nil : reserved [] = [] := rfl

@[simp] theorem reserved_cons (x : Deed) (w : List Deed) : reserved (x :: w) = x.reserves?.toList ++ reserved w := by
  cases h : x.reserves? <;> simp [reserved, h]

@[simp] theorem adopted_concat (w v : List Deed) : adopted (w ++ v) = adopted w ++ adopted v :=
  List.filterMap_append

@[simp] theorem adopted_nil : adopted [] = [] := rfl

@[simp] theorem adopted_cons (x : Deed) (w : List Deed) : adopted (x :: w) = x.adopts?.toList ++ adopted w := by
  cases h : x.adopts? <;> simp [adopted, h]

theorem Closing.nil : Closing [] := fun u c v h => by simp at h

/-- Where a mutation has run among deeds that have gone on: before that, or with one of the further deeds. -/
theorem ran_append {u v' : List Deed} (heq : w ++ v = u ++ .ran c :: v') :
    (∃ t, u = w ++ t ∧ v = t ++ .ran c :: v') ∨ ∃ t, w = u ++ .ran c :: t ∧ v' = t ++ v := by
  obtain ⟨t, hu, hv⟩ | ⟨t, hw, hv⟩ := List.append_eq_append_iff.1 heq
  · exact .inl ⟨t, hu, hv⟩
  cases t with
  | nil => exact .inl ⟨[], by simpa using hw.symm, hv.symm⟩
  | cons x t =>
    obtain ⟨rfl, hrest⟩ := List.cons.inj hv
    exact .inr ⟨t, hw, hrest⟩

theorem Closing.append (hw : Closing w) (hv : ∀ x ∈ v, ∀ c, x ≠ .ran c) : Closing (w ++ v) := by
  intro u c v' heq
  obtain ⟨t, -, rfl⟩ | ⟨t, rfl, rfl⟩ := ran_append heq
  · exact absurd rfl (hv (.ran c) (by simp) c)
  · obtain ⟨v', rfl, hchanged⟩ := hw u c t rfl
    refine ⟨v' ++ v, rfl, fun hone => ?_⟩
    obtain ⟨i, v'', rfl⟩ := hchanged hone
    exact ⟨i, v'' ++ v, rfl⟩

/-- A mutation has run and its session is left; if it was the last one, the bracket closes. -/
theorem Closing.left (hw : Closing w) (hv : ∀ x ∈ v, ∀ c, x ≠ .ran c)
    (hlast : running c w = 1 → ∃ i v', v = .call i .changed :: v') : Closing (w ++ .ran c :: .left c :: v) := by
  intro u c' v' heq
  obtain ⟨t, rfl, hrest⟩ | ⟨t, rfl, rfl⟩ := ran_append heq
  · cases t with
    | nil =>
      cases hrest
      exact ⟨v, rfl, by simpa using hlast⟩
    | cons x t =>
      have hmem : .ran c' ∈ .left c :: v := by simp [(List.cons.inj hrest).2]
      rcases List.mem_cons.1 hmem with hne | hmem
      · cases hne
      · exact absurd rfl (hv _ hmem c')
  · obtain ⟨v', rfl, hchanged⟩ := hw u c' t rfl
    refine ⟨_, rfl, fun hone => ?_⟩
    obtain ⟨i, v'', rfl⟩ := hchanged hone
    exact ⟨i, _, rfl⟩

theorem of_ofSession (hx : x.ofSession = false) :
    x.reserves? = none ∧ x.adopts? = none ∧ (∀ c k, pace c k x = k) ∧ (∀ w, AroundMutation w x) ∧ ∀ c, x ≠ .ran c := by
  cases x with
  | starting | opened | entered | left | runs | ran => cases hx
  | _ => exact ⟨rfl, rfl, fun _ _ => rfl, fun _ => trivial, nofun⟩

theorem reserved_append (hv : ∀ x ∈ v, x.ofSession = false) : reserved (w ++ v) = reserved w := by
  have hnone : reserved v = [] := List.filterMap_eq_nil_iff.2 fun x hx => (of_ofSession (hv x hx)).1
  rw [reserved, List.filterMap_append]
  exact (congrArg _ hnone).trans (List.append_nil _)

theorem adopted_append (hv : ∀ x ∈ v, x.ofSession = false) : adopted (w ++ v) = adopted w := by
  have hnone : adopted v = [] := List.filterMap_eq_nil_iff.2 fun x hx => (of_ofSession (hv x hx)).2.1
  rw [adopted, List.filterMap_append]
  exact (congrArg _ hnone).trans (List.append_nil _)

theorem running_append (hv : ∀ x ∈ v, x.ofSession = false) : running c (w ++ v) = running c w :=
  foldl_append_still fun x hx => (of_ofSession (hv x hx)).2.2.1 c

theorem adopted_mono (h : w ⊆ v) (hi : i ∈ adopted w) : i ∈ adopted v := by
  obtain ⟨x, hx, hi⟩ := List.mem_filterMap.1 hi
  exact List.mem_filterMap.2 ⟨x, h hx, hi⟩

theorem ofSession_of_offBooks (hx : x.offBooks = true) : x.ofSession = false := by
  cases x with
  | starting | opened | entered | left | runs | ran => cases hx
  | _ => rfl

end Deed

open Deed (Awaits Closing Orderly AroundMutation adopted adopts? pace reserved reserves? running)

namespace Books

/-! ## Engaged books -/

/-- How many live shares await their session. -/
def pending (b : Books) (w : List Deed) : Nat := b.live.countP fun s => decide (Awaits w s.id)

/-- The deeds `w` tell how deep each coordinator is in sessions and which shares are theirs, and but for `k`
there is a bracket for every session that is open and for every one that is about to. -/
structure Engaged (n k : Nat) (b : Books) (w : List Deed) : Prop where
  sound : b.Sound n
  depth : ∀ c, (b.session c).depth = running c w
  fresh : ∀ i ∈ reserved w, i < b.next
  adopted : ∀ i ∈ adopted w, i ∈ reserved w ∧ .call i .aboutToChange ∈ w
  held : ∀ {c inner s}, b.session c = .active inner s → s.id ∈ Deed.adopted w
  brackets : b.active + b.pending w ≤ b.changing + k
  around : Orderly AroundMutation w
  closing : Closing w

/-- Between books, no share is taken away that awaits its session, and none is passed off as such a one. -/
structure Spared (b : Books) (w : List Deed) (b' : Books) (w' : List Deed) : Prop where
  next : b.next ≤ b'.next
  awaits : ∀ s ∈ b.live, Awaits w s.id → s ∈ b'.live ∧ Awaits w' s.id
  reserved : ∀ i ∈ reserved w', i ∈ Deed.reserved w ∨ b.next ≤ i

variable {b b' b'' : Books} {w w' w'' v : List Deed} {c : CoordinatorId} {s : Share} {n k i inner : Nat}

/-! ## Shares that await their session -/

theorem countP_live (hb : b.Sound n) (hs : s ∈ b.live) (p : Share → Bool) :
    b.live.countP p = (b.live.filter (·.id != s.id)).countP p + if p s then 1 else 0 :=
  Model.countP_apart Share.id hb.distinct hs p

/-- What awaits its session is the same but for one live share. -/
theorem pending_step (hb : b.Sound n) (hs : s ∈ b.live) (hothers : ∀ i ≠ s.id, Awaits w' i ↔ Awaits w i) :
    b.pending w' + (if Awaits w s.id then 1 else 0) = b.pending w + if Awaits w' s.id then 1 else 0 := by
  have hrest : (b.live.filter (·.id != s.id)).countP (fun s => decide (Awaits w' s.id)) =
      (b.live.filter (·.id != s.id)).countP fun s => decide (Awaits w s.id) := by
    refine List.countP_congr fun t ht => ?_
    simpa using hothers t.id (by simpa using (List.mem_filter.1 ht).2)
  simp only [pending, countP_live hb hs, hrest, decide_eq_true_eq]
  omega

theorem pending_congr (h : ∀ i, Awaits w' i ↔ Awaits w i) : b.pending w' = b.pending w :=
  List.countP_congr fun s _ => by simpa using h s.id

/-- A share that is given back and awaited no session. -/
theorem pending_giveBack (hi : ¬ Awaits w i) : (b.giveBack i).pending w = b.pending w := by
  rw [pending, giveBack, List.countP_filter]
  refine List.countP_congr fun s _ => ?_
  simp only [Bool.and_eq_true, decide_eq_true_eq, bne_iff_ne, ne_eq, and_iff_left_iff_imp]
  rintro hs rfl
  exact hi hs

theorem pending_giveBack_awaits (hb : b.Sound n) (hs : s ∈ b.live) (hawaits : Awaits w s.id) :
    (b.giveBack s.id).pending w + 1 = b.pending w := by
  simp [pending, countP_live hb hs, hawaits, giveBack]

/-! ## Books and deeds that go on -/

theorem Engaged.next_not_reserved (h : Engaged n k b w) : b.next ∉ reserved w := fun hmem =>
  Nat.lt_irrefl _ (h.fresh _ hmem)

/-- A share that a session has is attached to it after it has been adopted only. -/
theorem Engaged.detached (h : Engaged n k b w) (hi : i ∉ Deed.adopted w) : b.attached i = false := by
  cases hattached : b.attached i with
  | false => rfl
  | true =>
    obtain ⟨c, inner, s, hs, rfl⟩ := attached_iff.1 hattached
    exact absurd (h.held hs) hi

/-- Deeds that have nothing to do with sessions. -/
theorem Engaged.append (h : Engaged n k b w) (hv : ∀ x ∈ v, x.ofSession = false) : Engaged n k b (w ++ v) where
  sound := h.sound
  depth c := by rw [Deed.running_append hv, h.depth]
  fresh := by
    rw [Deed.reserved_append hv]
    exact h.fresh
  adopted := by
    rw [Deed.adopted_append hv, Deed.reserved_append hv]
    exact fun i hi => ⟨(h.adopted i hi).1, List.mem_append_left _ (h.adopted i hi).2⟩
  held hs := by
    rw [Deed.adopted_append hv]
    exact h.held hs
  brackets := by
    have hawaits : ∀ i, Awaits (w ++ v) i ↔ Awaits w i := fun i => by
      rw [Awaits, Awaits, Deed.reserved_append hv, Deed.adopted_append hv]
    rw [pending_congr hawaits]
    exact h.brackets
  around := h.around.append fun x hx => (Deed.of_ofSession (hv x hx)).2.2.2.1
  closing := h.closing.append fun x hx => (Deed.of_ofSession (hv x hx)).2.2.2.2

/-- The next share is taken. -/
theorem Engaged.take (h : Engaged n k b w) (access : Access) : Engaged n k (b.take access) w where
  sound := h.sound.take access
  depth := h.depth
  fresh i hi := Nat.lt_succ_of_lt (h.fresh i hi)
  adopted := h.adopted
  held := h.held
  brackets := by
    have hnot : ¬ Awaits w b.next := fun hawaits => h.next_not_reserved hawaits.1
    have hpending : (b.take access).pending w = b.pending w := by simp [pending, Books.take, hnot]
    rw [hpending]
    exact h.brackets
  around := h.around
  closing := h.closing

/-- A live share is put aside for a session, and a bracket is wanting. -/
theorem Engaged.starting (h : Engaged n k b w) (hidle : b.session c = .idle) (hs : s ∈ b.live) :
    Engaged n (k + 1) b (w ++ [.starting c s.id]) := by
  have hreserved : reserved (w ++ [.starting c s.id]) = reserved w ++ [s.id] := by simp [reserves?]
  have hadopted : Deed.adopted (w ++ [.starting c s.id]) = Deed.adopted w := by simp [adopts?]
  have hothers : ∀ i ≠ s.id, Awaits (w ++ [.starting c s.id]) i ↔ Awaits w i := fun i hi => by
    simp [Awaits, hreserved, hadopted, hi]
  refine ⟨h.sound, fun c' => ?_, fun i hi => ?_, fun i hi => ?_,
    fun hs => hadopted ▸ h.held hs, ?_, h.around.snoc ?_, h.closing.append (by simp)⟩
  · rw [Deed.running_concat]
    exact h.depth c'
  · rw [hreserved] at hi
    rcases List.mem_append.1 hi with hi | hi
    · exact h.fresh i hi
    · rw [List.mem_singleton.1 hi]
      exact h.sound.below s hs
  · rw [hadopted] at hi
    rw [hreserved]
    exact ⟨List.mem_append_left _ (h.adopted i hi).1, List.mem_append_left _ (h.adopted i hi).2⟩
  · have hpending := pending_step h.sound hs hothers
    have hbrackets := h.brackets
    split at hpending <;> split at hpending <;> omega
  · have hdepth := h.depth c
    rw [hidle] at hdepth
    exact hdepth.symm

/-- A bracket opens. -/
theorem Engaged.bracket (h : Engaged n (k + 1) b w) : Engaged n k { b with changing := b.changing + 1 } w where
  sound := { h.sound with active_le := Nat.le_succ_of_le h.sound.active_le }
  depth := h.depth
  fresh := h.fresh
  adopted := h.adopted
  held := h.held
  brackets := by
    have hbrackets := h.brackets
    change b.active + b.pending w ≤ b.changing + 1 + k
    omega
  around := h.around
  closing := h.closing

theorem Engaged.weaken (h : Engaged n k b w) : Engaged n (k + 1) b w :=
  { h with brackets := Nat.le_succ_of_le h.brackets }

/-- A bracket closes that no session needs. -/
theorem Engaged.unbracket {m : Nat} (h : Engaged n 0 b w) (hspare : b.active + b.pending w ≤ m) :
    Engaged n 0 { b with changing := m } w :=
  { h with
    sound := { h.sound with active_le := Nat.le_trans (Nat.le_add_right _ _) hspare }
    brackets := hspare }

/-- A share goes back that no session needs. -/
theorem Engaged.giveBack (h : Engaged n k b w) (hi : b.attached i = false) (hnot : ¬ Awaits w i) :
    Engaged n k (b.giveBack i) w where
  sound := h.sound.giveBack hi
  depth := h.depth
  fresh := h.fresh
  adopted := h.adopted
  held := h.held
  brackets := by
    rw [pending_giveBack hnot]
    exact h.brackets
  around := h.around
  closing := h.closing

/-- A share goes back that was put aside for a session, which then does not want its bracket any more. -/
theorem Engaged.giveUp (h : Engaged n k b w) (hs : s ∈ b.live) (hawaits : Awaits w s.id) :
    Engaged n (k - 1) (b.giveBack s.id) w where
  sound := h.sound.giveBack (h.detached hawaits.2)
  depth := h.depth
  fresh := h.fresh
  adopted := h.adopted
  held := h.held
  brackets := by
    have hpending := pending_giveBack_awaits h.sound hs hawaits
    have hbrackets := h.brackets
    change b.active + _ ≤ b.changing + _
    omega
  around := h.around
  closing := h.closing

/-- A session opens around a share that awaits it. -/
theorem Engaged.opened (h : Engaged n 0 b w) (hc : c < n) (hidle : b.session c = .idle) (hs : s ∈ b.live)
    (hedit : s.access = .edit) (hawaits : Awaits w s.id) (hbracket : .call s.id .aboutToChange ∈ w) :
    Engaged n 0 (b.withSession c (.opened s)) (w ++ [.opened c s.id, .runs c]) := by
  have hc' : c < b.sessions.length := by rw [h.sound.size]; exact hc
  have hreserved : reserved (w ++ [.opened c s.id, .runs c]) = reserved w := by simp [reserves?]
  have hadopted : Deed.adopted (w ++ [.opened c s.id, .runs c]) = Deed.adopted w ++ [s.id] := by simp [adopts?]
  have hothers : ∀ i ≠ s.id, Awaits (w ++ [.opened c s.id, .runs c]) i ↔ Awaits w i := fun i hi => by
    simp [Awaits, hreserved, hadopted, hi]
  have hactive := active_opened (s := s) hc' hidle
  have hpending := pending_step h.sound hs hothers
  -- The bracket that the share stood for is counted with the session now.
  have hno : ¬ Awaits (w ++ [.opened c s.id, .runs c]) s.id := fun hawaits => hawaits.2 (by simp [hadopted])
  rw [if_pos hawaits, if_neg hno] at hpending
  have hbrackets := h.brackets
  have hzero : running c w = 0 := by
    rw [← h.depth, hidle]
    rfl
  have hopened : Orderly AroundMutation (w ++ [.opened c s.id]) := h.around.snoc hzero
  have haround := hopened.snoc (e := .runs c) ⟨w, _, rfl, .inl ⟨s.id, rfl⟩⟩
  refine ⟨h.sound.opened hc hidle ⟨hs, h.detached hawaits.2⟩ hedit (by omega), fun c' => ?_, ?_, fun i hi => ?_,
    fun {c' inner t} ht => ?_, ?_, by simpa using haround, h.closing.append (by simp)⟩
  · rw [Deed.running_concat]
    by_cases hcc : c' = c
    · subst hcc
      rw [session_withSession_self hc', hzero]
      simp [Sessions.opened, Sessions.depth, pace]
    · rw [session_withSession_of_ne hcc, h.depth]
      simp [pace, Ne.symm hcc]
  · rw [hreserved]
    exact h.fresh
  · rw [hadopted] at hi
    rw [hreserved]
    rcases List.mem_append.1 hi with hi | hi
    · exact ⟨(h.adopted i hi).1, List.mem_append_left _ (h.adopted i hi).2⟩
    · rw [List.mem_singleton.1 hi]
      exact ⟨hawaits.1, List.mem_append_left _ hbracket⟩
  · rw [hadopted]
    by_cases hcc : c' = c
    · subst hcc
      rw [session_withSession_self hc'] at ht
      cases ht
      simp
    · rw [session_withSession_of_ne hcc] at ht
      exact List.mem_append_left _ (h.held ht)
  · change _ + b.pending _ ≤ b.changing + 0
    omega

/-- A coordinator with an open session goes one deeper, or one less deep; then there may be one bracket less
when no session is left. -/
theorem Engaged.move {s' : Sessions} (h : Engaged n 0 b w) (hsound : b'.Sound n)
    (hlive : b'.live = b.live) (hnext : b'.next = b.next) (hself : b'.session c = s')
    (hothers : ∀ c' ≠ c, b'.session c' = b.session c')
    (hbrackets : b'.active + b.changing ≤ b.active + b'.changing) (hr : reserved v = []) (ha : Deed.adopted v = [])
    (hpace : s'.depth = running c (w ++ v)) (hpace' : ∀ c' ≠ c, running c' (w ++ v) = running c' w)
    (hshare : ∀ inner s, s' = .active inner s → ∃ inner', b.session c = .active inner' s)
    (haround : Orderly AroundMutation (w ++ v)) (hclosing : Closing (w ++ v)) : Engaged n 0 b' (w ++ v) := by
  have hreserved : reserved (w ++ v) = reserved w := by rw [Deed.reserved_concat, hr, List.append_nil]
  have hadopted : Deed.adopted (w ++ v) = Deed.adopted w := by rw [Deed.adopted_concat, ha, List.append_nil]
  have hpending : b'.pending (w ++ v) = b.pending w := by
    rw [pending, hlive]
    exact pending_congr fun i => by rw [Awaits, Awaits, hreserved, hadopted]
  have hle := h.brackets
  refine ⟨hsound, fun c' => ?_, ?_, fun i hi => ?_, fun {c' inner t} ht => ?_, by omega, haround, hclosing⟩
  · by_cases hcc : c' = c
    · subst hcc
      rw [hself, hpace]
    · rw [hothers c' hcc, hpace' c' hcc, h.depth]
  · rw [hreserved, hnext]
    exact h.fresh
  · rw [hadopted] at hi
    rw [hreserved]
    exact ⟨(h.adopted i hi).1, List.mem_append_left _ (h.adopted i hi).2⟩
  · rw [hadopted]
    by_cases hcc : c' = c
    · subst hcc
      obtain ⟨inner', ht'⟩ := hshare inner t (hself.symm.trans ht)
      exact h.held ht'
    · exact h.held ((hothers c' hcc).symm.trans ht)

theorem Engaged.running_of_session (h : Engaged n k b w) (hs : b.session c = .active inner s) :
    running c w = inner + 1 := by
  rw [← h.depth, hs]
  rfl

/-- A session is entered inside those that are open, and its mutation starts to run. -/
theorem Engaged.nested (h : Engaged n 0 b w) (hs : b.session c = .active inner s) :
    Engaged n 0 (b.withSession c (.active (inner + 1) s)) (w ++ [.entered c (inner + 2), .runs c]) := by
  have hnest := Carried.nest h.sound (inner + 1) hs
  have hchanging := hnest.changing
  have hentered : Orderly AroundMutation (w ++ [.entered c (inner + 2)]) := h.around.snoc trivial
  have haround := hentered.snoc (e := .runs c) ⟨w, _, rfl, .inr ⟨inner + 2, rfl⟩⟩
  refine h.move hnest.sound rfl rfl (session_withSession_self (lt_of_session hs))
    (fun c' hne => session_withSession_of_ne hne) (by omega) rfl rfl ?_ (fun c' hne => ?_) (fun k t heq => ?_)
    (by simpa using haround) (h.closing.append (by simp))
  · simp [Sessions.depth, pace, h.running_of_session hs]
  · simp [pace, Ne.symm hne]
  · cases heq
    exact ⟨inner, hs⟩

/-- A mutation has run, and its session is left. -/
theorem Engaged.around_left (h : Engaged n 0 b w) (hs : b.session c = .active inner s) :
    Orderly AroundMutation (w ++ [.ran c, .left c]) := by
  have hpos : 0 < running c w := by
    rw [h.running_of_session hs]
    exact Nat.succ_pos _
  have hran : Orderly AroundMutation (w ++ [.ran c]) := h.around.snoc hpos
  simpa using hran.snoc (e := .left c) ⟨w, rfl⟩

/-- A session is left, and those around it stay open. -/
theorem Engaged.left (h : Engaged n 0 b w) (hs : b.session c = .active (inner + 1) s) :
    Engaged n 0 (b.withSession c (.active inner s)) (w ++ [.ran c, .left c]) := by
  have hnest := Carried.nest h.sound inner hs
  have hchanging := hnest.changing
  have hrunning := h.running_of_session hs
  refine h.move hnest.sound rfl rfl (session_withSession_self (lt_of_session hs))
    (fun c' hne => session_withSession_of_ne hne) (by omega) rfl rfl ?_ (fun c' hne => ?_) (fun k t heq => ?_)
    (h.around_left hs) (h.closing.left nofun fun hone => ?_)
  · simp [Sessions.depth, pace, hrunning]
  · simp [pace, Ne.symm hne]
  · cases heq
    exact ⟨_, hs⟩
  · omega

/-- The outermost session is left, and its bracket closes. -/
theorem Engaged.closed (h : Engaged n 0 b w) (hs : b.session c = .active 0 s) (i : Nat) :
    Engaged n 0 (b.unbracket c) (w ++ [.ran c, .left c, .call i .changed]) := by
  have hactive := active_unbracket hs
  have hchanging := h.sound.changing_pos hs
  have hless : (b.unbracket c).changing = b.changing - 1 := rfl
  have haround : Orderly AroundMutation (w ++ [.ran c, .left c] ++ [.call i .changed]) :=
    (h.around_left hs).snoc trivial
  refine h.move (h.sound.unbracket hs) rfl rfl (session_withSession_self (lt_of_session hs))
    (fun c' hne => session_withSession_of_ne hne) (by omega) rfl rfl ?_ (fun c' hne => ?_) nofun
    (by simpa using haround) (h.closing.left (by simp) fun _ => ⟨i, [], rfl⟩)
  · simp [Sessions.depth, pace, h.running_of_session hs]
  · simp [pace, Ne.symm hne]

/-! ## What is spared -/

theorem Spared.of_same (hlive : b'.live = b.live) (hnext : b.next ≤ b'.next)
    (hr : Deed.reserved w' = Deed.reserved w) (ha : Deed.adopted w' = Deed.adopted w) : Spared b w b' w' :=
  ⟨hnext, fun s hs hawaits => ⟨hlive ▸ hs, by rwa [Awaits, hr, ha]⟩, fun i hi => .inl (hr ▸ hi)⟩

theorem Spared.refl (b : Books) (w : List Deed) : Spared b w b w := .of_same rfl (Nat.le_refl _) rfl rfl

theorem Spared.trans (h : Spared b w b' w') (h' : Spared b' w' b'' w'') : Spared b w b'' w'' where
  next := Nat.le_trans h.next h'.next
  awaits s hs hawaits :=
    have ⟨hs', hawaits'⟩ := h.awaits s hs hawaits
    h'.awaits s hs' hawaits'
  reserved i hi := by
    rcases h'.reserved i hi with hi | hi
    · exact h.reserved i hi
    · exact .inr (Nat.le_trans h.next hi)

theorem Spared.take (b : Books) (w : List Deed) (access : Access) : Spared b w (b.take access) w :=
  ⟨Nat.le_succ _, fun _ hs hawaits => ⟨List.mem_cons_of_mem _ hs, hawaits⟩, fun _ hi => .inl hi⟩

/-- The next share is taken and put aside for a session. -/
theorem Spared.starting (b : Books) (w : List Deed) (c : CoordinatorId) :
    Spared b w (b.take .edit) (w ++ [.starting c b.next]) where
  next := Nat.le_succ _
  awaits s hs hawaits := by
    refine ⟨List.mem_cons_of_mem _ hs, ?_, ?_⟩
    · simp [hawaits.1]
    · simpa [adopts?] using hawaits.2
  reserved i hi := by
    have hi : i ∈ Deed.reserved w ∨ i = b.next := by simpa [reserves?] using hi
    exact hi.imp_right fun heq => Nat.le_of_eq heq.symm

theorem Spared.giveBack (h : Spared b w b' w') (hi : ∀ s ∈ b.live, Awaits w s.id → s.id ≠ i) :
    Spared b w (b'.giveBack i) w' where
  next := h.next
  awaits s hs hawaits :=
    have ⟨hs', hawaits'⟩ := h.awaits s hs hawaits
    ⟨List.mem_filter.2 ⟨hs', by simpa using hi s hs hawaits⟩, hawaits'⟩
  reserved := h.reserved

theorem Spared.opened (h : Spared b w b' w') (hi : ∀ s ∈ b.live, Awaits w s.id → s.id ≠ i) (x : Sessions) :
    Spared b w (b'.withSession c x) (w' ++ [.opened c i, .runs c]) where
  next := h.next
  awaits s hs hawaits := by
    obtain ⟨hs', hreserved, hadopted⟩ := h.awaits s hs hawaits
    exact ⟨hs', by simp [hreserved], by simpa [adopts?] using ⟨hadopted, hi s hs hawaits⟩⟩
  reserved j hj := h.reserved j (by simpa [reserves?] using hj)

theorem Spared.append (h : Spared b w b' w') (hv : ∀ x ∈ v, x.ofSession = false) : Spared b w b' (w' ++ v) :=
  h.trans (.of_same rfl (Nat.le_refl _) (Deed.reserved_append hv) (Deed.adopted_append hv))

end Books

end FormDesk
