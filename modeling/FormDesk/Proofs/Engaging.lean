/-
Leaving sessions alone. Clients may do what they will, by hand too, as long as
they give back no share of a session and leave sessions their brackets
(`Act.LeavesSessions`). Then the books are engaged at every moment of a run, cut
off or not, and a run that is over leaves every session where it was
(`Callers.engages`).
-/
import FormDesk.Proofs.Engaged
import FormDesk.Proofs.Unwinding

namespace FormDesk

variable {σ ε α : Type}

open Deed (Awaits adopted adopts? reserved reserves?)

namespace Desk

/-! ## Between desks -/

/-- The books of a desk are engaged as its history tells. -/
def Engaged (n k : Nat) (d : Desk σ) : Prop := d.books.Engaged n k d.history.toList

/-- Between two desks, no share is taken away that awaits its session. -/
def Spared (d e : Desk σ) : Prop := d.books.Spared d.history.toList e.books e.history.toList

/-- Books are engaged in the end, with every session where it was. -/
structure Engages (n : Nat) (d e : Desk σ) : Prop where
  engaged : e.Engaged n 0
  same : ∀ c, e.books.session c = d.books.session c
  spared : d.Spared e

/-- The next share has been taken for a session, which has not opened. -/
structure Awaiting (n k : Nat) (s : Share) (d e : Desk σ) : Prop where
  engaged : e.Engaged n k
  same : ∀ c, e.books.session c = d.books.session c
  spared : d.Spared e
  next : s = ⟨d.books.next, .edit⟩
  live : s ∈ e.books.live
  awaits : Awaits e.history.toList s.id

/-- A session of the coordinator has been entered, and every other is where it was. -/
structure Inside (n : Nat) (c : CoordinatorId) (d e : Desk σ) : Prop where
  engaged : e.Engaged n 0
  entered : e.books.session c ≠ .idle
  around : (e.books.session c).leave.2 = d.books.session c
  others : ∀ c' ≠ c, e.books.session c' = d.books.session c'
  spared : d.Spared e

variable {n k : Nat} {c : CoordinatorId} {s : Share} {m m' : Model} {w : List Deed} {d e f : Desk σ}

/-- Deeds that have nothing to do with sessions, with nothing in the books. -/
theorem Engages.of_plain (hd : d.Engaged n 0) (hw : e.history.toList = d.history.toList ++ w)
    (hv : ∀ x ∈ w, x.ofSession = false) (hb : e.books = d.books) : Engages n d e where
  engaged := by
    rw [Engaged, hw, hb]
    exact Books.Engaged.append hd hv
  same c := by rw [hb]
  spared := by
    rw [Spared, hw, hb]
    exact (Books.Spared.refl ..).append hv

theorem Engages.refl (hd : d.Engaged n 0) : Engages n d d := .of_plain hd (List.append_nil _).symm (by simp) rfl

theorem Engages.trans (h : Engages n d e) (h' : Engages n e f) : Engages n d f :=
  ⟨h'.engaged, fun c => (h'.same c).trans (h.same c), Books.Spared.trans h.spared h'.spared⟩

theorem Awaiting.trans (h : Awaiting n k s d e) (h' : Engages n e f) : Awaiting n 0 s d f where
  engaged := h'.engaged
  same c := (h'.same c).trans (h.same c)
  spared := Books.Spared.trans h.spared h'.spared
  next := h.next
  live := (h'.spared.awaits s h.live h.awaits).1
  awaits := (h'.spared.awaits s h.live h.awaits).2

theorem Inside.trans (h : Inside n c d e) (h' : Engages n e f) : Inside n c d f where
  engaged := h'.engaged
  entered := by
    rw [h'.same]
    exact h.entered
  around := by
    rw [h'.same]
    exact h.around
  others c' hne := (h'.same c').trans (h.others c' hne)
  spared := Books.Spared.trans h.spared h'.spared

/-- Once its coordinator's session is the one from before it was entered, every session is. -/
theorem Inside.same_after (hf : Inside n c d f) (hself : e.books.session c = (f.books.session c).leave.2)
    (hothers : ∀ c' ≠ c, e.books.session c' = f.books.session c') (c' : CoordinatorId) :
    e.books.session c' = d.books.session c' := by
  by_cases hcc : c' = c
  · subst hcc
    rw [hself, hf.around]
  · rw [hothers c' hcc, hf.others c' hcc]

/-- `R` between desks, from engaged books and where the deeds are shallow. -/
def Shallowly (n : Nat) (R : Desk σ → Desk σ → Prop) (d e : Desk σ) : Prop :=
  Grows d e ∧ (Deed.Shallow e.history.toList → d.Engaged n 0 → R d e)

theorem Shallowly.comp {R S T : Desk σ → Desk σ → Prop} (hR : R d e → e.Engaged n 0)
    (h : R d e → S e f → T d f) (h₁ : Shallowly n R d e) (h₂ : Shallowly n S e f) : Shallowly n T d f := by
  refine ⟨h₁.1.trans h₂.1, fun hs hd => ?_⟩
  have he := h₁.2 (hs.of_subset h₂.1.subset) hd
  exact h he (h₂.2 hs (hR he))

/-- The contract that books are engaged, and that sessions are where they were when a run is over. -/
def engaging (σ : Type) (n : Nat) : Contract σ where
  ended := Shallowly n (Engages n)
  cut := Shallowly n fun _ e => e.Engaged n 0
  refl d := ⟨Grows.path.refl d, fun _ => .refl⟩
  trans := Shallowly.comp (fun h => h.engaged) fun h h' => h.trans h'
  halt d := ⟨Grows.path.refl d, fun _ => id⟩
  stop := Shallowly.comp (fun h => h.engaged) fun _ => id

/-- Going on with a run that is over. -/
theorem Shallowly.onward {R T : Desk σ → Desk σ → Prop} (h : Shallowly n R d e)
    (hran : (engaging σ n).ended e f) (hR : R d e → e.Engaged n 0) (hT : R d e → Engages n e f → T d f) :
    Shallowly n T d f := h.comp hR hT hran

/-- Going on with a run that is cut off. -/
theorem Shallowly.stopped {R : Desk σ → Desk σ → Prop} (h : Shallowly n R d e) (hcut : (engaging σ n).cut e f)
    (hR : R d e → e.Engaged n 0) : (engaging σ n).cut d f :=
  Shallowly.comp (S := fun _ e => e.Engaged n 0) (T := fun _ e => e.Engaged n 0) hR (fun _ => id) h hcut

/-- A last step in a longer run. -/
theorem Shallowly.step {R T : Desk σ → Desk σ → Prop} (h : Shallowly n R d e) (hgrows : Grows e f)
    (hT : Deed.Shallow f.history.toList → d.Engaged n 0 → R d e → T d f) : Shallowly n T d f :=
  ⟨h.1.trans hgrows, fun hs hd => hT hs hd (h.2 (hs.of_subset hgrows.subset) hd)⟩

/-- Deeds that have nothing to do with sessions, with nothing in the books. -/
theorem engaging_plain (hw : e.history.toList = d.history.toList ++ w) (hv : ∀ x ∈ w, x.ofSession = false)
    (hb : e.books = d.books) : (engaging σ n).ended d e :=
  ⟨⟨w, hw.symm⟩, fun _ hd => .of_plain hd hw hv hb⟩

theorem OffBooks.engages (h : OffBooks d e) : (engaging σ n).ended d e :=
  have ⟨_, hw, hoff⟩ := h.deeds
  engaging_plain hw (fun x hx => Deed.ofSession_of_offBooks (hoff x hx)) h.books

theorem Recorded.engages (h : Recorded d e) : (engaging σ n).ended d e := by
  have hb := h.books
  cases h with
  | beginRecording | endRecording => exact engaging_plain (d.toList_accepted ..) (by simp [Deed.ofSession]) hb
  | began | finished | edits | edited => exact engaging_plain (d.toList_enter _) (by simp [Deed.ofSession]) hb
  | depth => exact engaging_plain (List.append_nil _).symm (by simp) hb

theorem engaging_free : (engaging σ n).Free :=
  OffBooks.free (fun h => h.engages) fun hcut h =>
    Shallowly.onward (R := fun _ e => e.Engaged n 0) (T := fun _ e => e.Engaged n 0) hcut h.engages id
      fun _ he => he.engaged

/-! ## Shares -/

/-- A share is taken. -/
theorem engaging_acquire {access : Access} (hacquire : d.model.acquire access = .ok (s, m)) :
    (engaging σ n).ended d (d.accepted s (.acquire access) m) := by
  obtain ⟨-, hbooks⟩ := Act.acquire_books hacquire
  have hplain : ∀ x ∈ [Deed.call s.id (.acquire access)], x.ofSession = false := by simp [Deed.ofSession]
  refine ⟨d.grows_accepted .., fun _ hd => ⟨?_, fun c => by rw [hbooks]; rfl, ?_⟩⟩
  · rw [Engaged, hbooks, d.toList_accepted]
    exact (hd.take access).append hplain
  · rw [Spared, hbooks, d.toList_accepted]
    exact (Books.Spared.take ..).append hplain

/-- A share has been taken for a session; its bracket is wanting. -/
theorem awaiting_start (hd : d.Engaged n 0) (hidle : (d.coordinator c).session = .idle)
    (hacquire : d.model.acquire .edit = .ok (s, m)) : Awaiting n 1 s d (d.starting c s m) := by
  obtain ⟨rfl, hbooks, hdeeds⟩ := Act.starting_books (c := c) hacquire
  have hsession : (d.books.take .edit).session c = .idle := (d.session_books c).trans hidle
  have hlive : ⟨d.books.next, .edit⟩ ∈ (d.books.take .edit).live := List.mem_cons_self
  have hplain : ∀ x ∈ [Deed.call d.books.next (.acquire .edit)], x.ofSession = false := by simp [Deed.ofSession]
  have htaken : (d.books.take .edit).Engaged n 0 (d.history.toList ++ [.call d.books.next (.acquire .edit)]) :=
    (hd.take .edit).append hplain
  have hsplit := hdeeds.trans (List.append_cons ..)
  have hspared := ((Books.Spared.refl d.books d.history.toList).append hplain).trans (.starting _ _ c)
  refine ⟨?_, fun c => by rw [hbooks]; rfl, ?_, rfl, hbooks ▸ hlive, ?_⟩
  · rw [Engaged, hbooks, hsplit]
    exact htaken.starting hsession hlive
  · rw [Spared, hbooks, hsplit]
    exact hspared
  · have hnot : d.books.next ∉ adopted d.history.toList := fun hmem =>
      hd.next_not_reserved (hd.adopted _ hmem).1
    rw [hsplit]
    simp [Awaits, reserves?, adopts?, hnot]

/-- A share that awaits its session has opened the bracket for it. -/
theorem Awaiting.bracket (h : Awaiting n 1 s d e) (hopen : e.model.openBracket s = .ok m) :
    Awaiting n 0 s d (e.accepted s .aboutToChange m) := by
  obtain ⟨-, -, rfl⟩ := Model.openBracket_ok hopen
  have hplain : ∀ x ∈ [Deed.call s.id .aboutToChange], x.ofSession = false := by simp [Deed.ofSession]
  have hspared : d.books.Spared d.history.toList e.books (e.history.toList ++ [.call s.id .aboutToChange]) :=
    Books.Spared.append h.spared hplain
  refine ⟨?_, h.same, ?_, h.next, h.live, ?_⟩
  · rw [Engaged, toList_accepted]
    exact h.engaged.bracket.append hplain
  · rw [Spared, toList_accepted]
    exact ⟨hspared.next, hspared.awaits, hspared.reserved⟩
  · rw [toList_accepted]
    simpa [Awaits, reserves?, adopts?] using h.awaits

end Desk

namespace Act

open Desk (Awaiting Engages Grows Inside Shallowly engaging)

variable {n k : Nat} {h : Host σ} {c : CoordinatorId} {s : Share} {m m' : Model} {d e f : Desk σ}

theorem release_grows (s : Share) (d : Desk σ) : Grows d (release s h d).2 := (release_returns s).grows d

/-- A share goes back that, as far as it is live, no session has or awaits. -/
theorem release_engages (hd : d.Engaged n 0) (hspare : ∀ access, d.model.accessOf? s.id = some access →
    d.books.attached s.id = false ∧ ¬ Awaits d.history.toList s.id) : Engages n d (release s h d).2 := by
  cases hrelease : d.model.release? s with
  | none =>
    rw [release_refused hrelease]
    exact .of_plain hd (List.append_nil _).symm (by simp) rfl
  | some taken =>
    obtain ⟨access, m⟩ := taken
    rw [release_run hrelease]
    obtain ⟨hlive, rfl⟩ := Model.release?_some hrelease
    obtain ⟨hdetached, hnot⟩ := hspare access hlive
    have hplain : ∀ x ∈ [Deed.call s.id (.release access)], x.ofSession = false := by simp [Deed.ofSession]
    have hspared := (Books.Spared.refl d.books d.history.toList).giveBack (i := s.id) fun t _ hawaits heq =>
      hnot (heq ▸ hawaits)
    refine ⟨?_, fun c => rfl, ?_⟩
    · rw [Desk.Engaged, d.toList_accepted]
      exact (hd.giveBack hdetached hnot).append hplain
    · rw [Desk.Spared, d.toList_accepted]
      exact hspared.append hplain

/-- The share of a session that does not open goes back. -/
theorem release_awaiting (hd : d.Engaged n 0) (ha : Awaiting n k s d e) (hk : k ≤ 1) :
    Engages n d (release s h e).2 := by
  obtain ⟨hbooks, hdeeds⟩ := release_books (h := h) ha.engaged.sound ha.live
  have hplain : ∀ x ∈ [Deed.call s.id (.release s.access)], x.ofSession = false := by simp [Deed.ofSession]
  have hspared := Books.Spared.giveBack (i := s.id) ha.spared fun t ht _ heq => by
    have hlt := hd.sound.below t ht
    rw [heq, ha.next] at hlt
    exact Nat.lt_irrefl _ hlt
  refine ⟨?_, fun c => ?_, ?_⟩
  · have hgone := (ha.engaged.giveUp ha.live ha.awaits).append hplain
    rw [Nat.sub_eq_zero_of_le hk] at hgone
    rwa [Desk.Engaged, hbooks, hdeeds]
  · rw [hbooks]
    exact ha.same c
  · rw [Desk.Spared, hbooks, hdeeds]
    exact hspared.append hplain

theorem withShare_engages (access : Access) {f : Share → Act σ α} (hf : ∀ s, Keeps (engaging σ n) h (f s)) :
    Keeps (engaging σ n) h (withShare access f) := by
  refine withShare_around (fun hacquire => (engaging σ n).stop (Desk.engaging_acquire hacquire))
    (fun {d s m e} hacquire hran => ?_) hf
  have htaken := Desk.engaging_acquire (n := n) hacquire
  refine ⟨(htaken.1.trans hran.1).trans (release_grows s e), fun hshallow hd => ?_⟩
  have hbefore := htaken.2 (hshallow.of_subset (hran.1.trans (release_grows s e)).subset) hd
  have hafter := hran.2 (hshallow.of_subset (release_grows s e).subset) hbefore.engaged
  obtain ⟨rfl, hbooks⟩ := acquire_books hacquire
  have hdetached : e.books.attached d.books.next = false :=
    (Books.attached_congr (hbefore.trans hafter).same).trans hd.sound.next_detached
  refine (hbefore.trans hafter).trans (release_engages hafter.engaged fun _ _ => ⟨hdetached, fun hawaits => ?_⟩)
  rcases hafter.spared.reserved _ hawaits.1 with hi | hi
  · rw [Desk.toList_accepted, Deed.reserved_concat] at hi
    exact hd.next_not_reserved (by simpa [reserves?] using hi)
  · rw [hbooks] at hi
    exact Nat.lt_irrefl _ hi

/-! ## Sessions -/

/-- A session opens around the share that awaits it, and its mutation starts to run. -/
theorem opened_inside (hcn : c < n) (hd : d.Engaged n 0) (hidle : d.books.session c = .idle)
    (ha : Awaiting n 0 s d e) (hbracket : .call s.id .aboutToChange ∈ e.history.toList) :
    Inside n c d (e.opening c s) := by
  have hlt : c < e.books.sessions.length := by rw [ha.engaged.sound.size]; exact hcn
  have hbooks := e.books_opening c s
  have hdeeds := e.toList_opening c s
  have hedit : s.access = .edit := by rw [ha.next]
  have hsession := Books.session_withSession_self (x := .opened s) hlt
  refine ⟨?_, ?_, ?_, fun c' hne => ?_, ?_⟩
  · rw [Desk.Engaged, hbooks, hdeeds]
    exact ha.engaged.opened hcn ((ha.same c).trans hidle) ha.live hedit ha.awaits hbracket
  · rw [hbooks, hsession]
    simp [Sessions.opened]
  · rw [hbooks, hsession, hidle]
    rfl
  · rw [hbooks, Books.session_withSession_of_ne hne]
    exact ha.same c'
  · rw [Desk.Spared, hbooks, hdeeds]
    refine Books.Spared.opened ha.spared (fun t ht _ heq => ?_) _
    have hlt := hd.sound.below t ht
    rw [heq, ha.next] at hlt
    exact Nat.lt_irrefl _ hlt

theorem nested_inside {inner : Nat} (hd : d.Engaged n 0) (hs : d.books.session c = .active inner s)
    (hdeep : inner + 2 ≤ maxDepth) : Inside n c d (d.nesting c inner s) := by
  have hbooks := d.books_nesting c inner s
  rw [Nat.min_eq_left (Nat.le_sub_one_of_lt hdeep)] at hbooks
  have hdeeds := d.toList_nesting c inner s
  have hsession := Books.session_withSession_self (x := .active (inner + 1) s) (Books.lt_of_session hs)
  refine ⟨?_, ?_, ?_, fun c' hne => ?_, ?_⟩
  · rw [Desk.Engaged, hbooks, hdeeds]
    exact hd.nested hs
  · rw [hbooks, hsession]
    simp
  · rw [hbooks, hsession, hs]
    rfl
  · rw [hbooks]
    exact Books.session_withSession_of_ne hne
  · rw [Desk.Spared, hbooks, hdeeds]
    exact .of_same rfl (Nat.le_refl _) (by simp [reserves?]) (by simp [adopts?])

/-- An inner session is left. -/
theorem left_engages {inner : Nat} (hf : Inside n c d f) (hs : f.books.session c = .active (inner + 1) s) :
    Engages n d (f.leaving c (.active inner s)) := by
  have hbooks := f.books_leaving c (.active inner s)
  have hdeeds := f.toList_leaving c (.active inner s)
  refine ⟨?_, hf.same_after ?_ fun c' hne => ?_, ?_⟩
  · rw [Desk.Engaged, hbooks, hdeeds]
    exact hf.engaged.left hs
  · rw [hbooks, Books.session_withSession_self (Books.lt_of_session hs), hs]
    rfl
  · rw [hbooks]
    exact Books.session_withSession_of_ne hne
  · rw [Desk.Spared, hbooks, hdeeds]
    exact Books.Spared.trans hf.spared (.of_same rfl (Nat.le_refl _) (by simp [reserves?]) (by simp [adopts?]))

/-- The outermost session is left and its bracket closes. -/
theorem closed_engages (hf : Inside n c d f) (hs : f.books.session c = .active 0 s)
    (hclose : (f.leaving c .idle).model.closeBracket s = .ok m) :
    Engages n d ((f.leaving c .idle).accepted s .changed m) := by
  have hbooks := f.books_left c hclose
  have hdeeds : ((f.leaving c .idle).accepted s .changed m).history.toList =
      f.history.toList ++ [.ran c, .left c, .call s.id .changed] := by
    rw [Desk.toList_accepted, Desk.toList_leaving, List.append_assoc]
    rfl
  refine ⟨?_, hf.same_after ?_ fun c' hne => ?_, ?_⟩
  · rw [Desk.Engaged, hbooks, hdeeds]
    exact hf.engaged.closed hs s.id
  · rw [hbooks, hs]
    exact Books.session_withSession_self (Books.lt_of_session hs)
  · rw [hbooks]
    exact Books.session_withSession_of_ne hne
  · rw [Desk.Spared, hbooks, hdeeds]
    exact Books.Spared.trans hf.spared (.of_same rfl (Nat.le_refl _) (by simp [reserves?]) (by simp [adopts?]))

/-- The bracket of a session opens, which has not opened itself. -/
theorem opening_awaits (hidle : (d.coordinator c).session = .idle) (hacquire : d.model.acquire .edit = .ok (s, m))
    (hopen : (d.starting c s m).model.openBracket s = .ok m') :
    Shallowly n (Awaiting n 0 s) d ((d.starting c s m).accepted s .aboutToChange m') :=
  ⟨((d.grows_accepted s _ m).trans (Desk.grows_enter ..)).trans (Desk.grows_accepted ..), fun _ hd =>
    (Desk.awaiting_start hd hidle hacquire).bracket hopen⟩

theorem leaving_grows (f : Desk σ) (c : CoordinatorId) (x : Sessions) : Grows f (f.leaving c x) :=
  ⟨_, (f.toList_leaving c x).symm⟩

/-- The outermost session has been left, and its bracket closes. -/
theorem closing_engages (hin : Shallowly n (Inside n c) d f) (hs : (f.coordinator c).session = .active 0 s)
    (hclose : (f.leaving c .idle).model.closeBracket s = .ok m) :
    Shallowly n (Engages n) d ((f.leaving c .idle).accepted s .changed m) :=
  hin.step ((leaving_grows f c .idle).trans (Desk.grows_accepted ..)) fun _ _ hi =>
    closed_engages hi ((f.session_books c).trans hs) hclose

/-- The share of a session that has closed its bracket goes back, whatever was done in between. -/
theorem closed_released {g : Desk σ} (hf : f.Engaged n 0) (hs : f.books.session c = .active 0 s)
    (hclose : (f.leaving c .idle).model.closeBracket s = .ok m)
    (hg : Engages n ((f.leaving c .idle).accepted s .changed m) g)
    (hgrows : Grows ((f.leaving c .idle).accepted s .changed m) g) : Engages n g (release s h g).2 := by
  have hbooks := f.books_left c hclose
  have hdetached : g.books.attached s.id = false := by
    rw [Books.attached_congr hg.same, hbooks]
    exact hf.sound.unbracket_detached hs
  refine release_engages hg.engaged fun _ _ => ⟨hdetached, fun hawaits => hawaits.2 ?_⟩
  exact Deed.adopted_mono (((leaving_grows f c .idle).trans (Desk.grows_accepted ..)).trans hgrows).subset
    (hf.held hs)

theorem inside_onward (hin : Shallowly n (Inside n c) d e) (hran : (engaging σ n).ended e f) :
    Shallowly n (Inside n c) d f := hin.onward hran (fun hi => hi.engaged) fun hi => hi.trans

theorem awaiting_onward (ha : Shallowly n (Awaiting n 0 s) d e) (hran : (engaging σ n).ended e f) :
    Shallowly n (Awaiting n 0 s) d f := ha.onward hran (fun ha => ha.engaged) fun ha => ha.trans

theorem enclosing_engages (hcn : c < n) : Enclosing (engaging σ n) h c (Shallowly n (Inside n c)) where
  refused {d s m e} hidle hacquire _ := by
    have hgrows : Grows d (d.starting c s m) := (d.grows_accepted s _ m).trans (Desk.grows_enter ..)
    refine ⟨hgrows.trans (release_grows s _), fun _ hd => ?_⟩
    exact release_awaiting hd (Desk.awaiting_start hd hidle hacquire) (Nat.le_refl 1)
  opening hidle hacquire hopen hcut :=
    (opening_awaits hidle hacquire hopen).stopped hcut fun ha => ha.engaged
  broken {d s m m' f callback held} hidle hacquire hopen hran _ := by
    have hthrew : (engaging σ n).ended f { f.enter (.threw callback) with held } :=
      Desk.engaging_plain (f.toList_enter _) (by simp [Deed.ofSession]) rfl
    have hawaiting := awaiting_onward (opening_awaits hidle hacquire hopen) ((engaging σ n).trans hran hthrew)
    exact hawaiting.step (release_grows s _) fun _ hd ha => release_awaiting hd ha (Nat.zero_le 1)
  opened {d s m m' f} hidle hacquire hopen hran := by
    refine (awaiting_onward (opening_awaits hidle hacquire hopen) hran).step
      ⟨_, (f.toList_opening c s).symm⟩ fun _ hd ha => ?_
    exact opened_inside hcn hd ((d.session_books c).trans hidle) ha (hran.1.subset (by simp))
  nested {d inner s} hs := by
    refine ⟨⟨_, (d.toList_nesting c inner s).symm⟩, fun hshallow hd => ?_⟩
    have hentered : .entered c (inner + 2) ∈ (d.nesting c inner s).history.toList := by simp [Desk.toList_nesting]
    exact nested_inside hd ((d.session_books c).trans hs) (hshallow c _ hentered)
  inside hin hcut := hin.stopped hcut fun hi => hi.engaged
  left {d e f exit x} hin hran hleave hexit := by
    refine (inside_onward hin hran).step (leaving_grows f c x) fun _ hd hi => ?_
    obtain ⟨hs, -⟩ | ⟨inner, s, hs, rfl⟩ := Sessions.leave_inner hleave hexit
    · exact absurd ((f.session_books c).trans hs) hi.entered
    · exact left_engages hi ((f.session_books c).trans hs)
  closing hin hran hs hclose hcut :=
    (closing_engages (inside_onward hin hran) hs hclose).stopped hcut fun he => he.engaged
  closed {d e f s m g} hin hran hs hclose hran' := by
    have hinside := inside_onward hin hran
    have hclosed := closing_engages hinside hs hclose
    refine ⟨(hclosed.1.trans hran'.1).trans (release_grows s g), fun hshallow hd => ?_⟩
    have hbefore : Deed.Shallow g.history.toList := hshallow.of_subset (release_grows s g).subset
    have hshut := hclosed.2 (hbefore.of_subset hran'.1.subset) hd
    have hafter := hran'.2 hbefore hshut.engaged
    have hf := hinside.2 (hbefore.of_subset
      (((leaving_grows f c .idle).trans (Desk.grows_accepted ..)).trans hran'.1).subset) hd
    exact (hshut.trans hafter).trans
      (closed_released hf.engaged ((f.session_books c).trans hs) hclose hafter hran'.1)
  unclosed {d e f s x} hin hran hs hclose := by
    have hnoted : Grows f { f.leaving c .idle with client := h.note x f.client } := leaving_grows f c .idle
    refine (inside_onward hin hran).step (hnoted.trans (release_grows s _)) fun _ _ hi => ?_
    exact absurd hclose (session_closes hi.engaged.sound hs)

end Act

/-! ## Operations that leave sessions alone -/

namespace Desk

/-- Whether a share is a session's: it is live and was taken for one. -/
def serves (d : Desk σ) (i : Nat) : Bool :=
  (d.model.accessOf? i).isSome && decide (i ∈ reserved d.history.toList)

/-- Whether there are more brackets than sessions, those included that are about to open. -/
def spare (d : Desk σ) : Bool := decide (d.books.active + d.books.pending d.history.toList < d.model.changing)

end Desk

namespace Act

open Desk (Engages Grows Inside Shallowly engaging)

/-- Gives a share back, but for a session's. -/
def giveBackOwn (s : Share) : Act σ Unit := do
  if ← look (·.serves s.id) then pure () else release s

/-- Closes a bracket, but for those that sessions need. -/
def closeSpare (s : Share) : Act σ Unit := do
  if ← look (·.spare) then closeBracket s else pure ()

/-- All that is done with a model by hand, with the shares and the brackets of sessions left alone. -/
inductive LeavesSessions : Actions σ
  | offBooks {β} {a : Act σ β} : OffBooksOp a → LeavesSessions a
  | recordingOp {β} {a : Act σ β} : RecordingOp a → LeavesSessions a
  | acquire (access : Access) : LeavesSessions (Act.acquire access)
  | giveBack (s : Share) : LeavesSessions (giveBackOwn s)
  | openBracket (s : Share) : LeavesSessions (Act.openBracket s)
  | closeBracket (s : Share) : LeavesSessions (closeSpare s)

theorem LeavesSessions.public {n : Nat} {a : Act σ α} (ha : LeavesSessions a) : Caller n Public a := by
  have hlook {α : Type} (f : Desk σ → α) : Caller n Public (look f) := .op (.offBooks (.look f))
  cases ha with
  | offBooks ha => exact .op (.offBooks ha)
  | recordingOp ha => exact .op (.recordingOp ha)
  | acquire access => exact .op (.shareOp (.acquire access))
  | giveBack s =>
    refine .bind (hlook _) fun serves => ?_
    cases serves with
    | true => exact .pure ()
    | false => exact .op (.shareOp (.release s))
  | openBracket s => exact .op (.shareOp (.openBracket s))
  | closeBracket s =>
    refine .bind (hlook _) fun spare => ?_
    cases spare with
    | true => exact .op (.shareOp (.closeBracket s))
    | false => exact .pure ()

variable {n : Nat} {h : Host σ} (hc : ∀ c, Keeps (engaging σ n) h fun _ => h.answer c)

theorem giveBackOwn_engages (s : Share) : Keeps (engaging σ n) h (giveBackOwn s) := by
  intro d
  unfold KeepsFrom
  simp only [giveBackOwn, look_bind]
  by_cases hserves : d.serves s.id = true
  · simp only [hserves, if_true]
    exact (engaging σ n).refl d
  · simp only [hserves, if_false, Bool.false_eq_true]
    rw [release_returned]
    refine ⟨release_grows s d, fun _ hd => release_engages hd fun access hlive => ?_⟩
    have hnot : s.id ∉ reserved d.history.toList := by simpa [Desk.serves, hlive] using hserves
    exact ⟨hd.detached fun hmem => hnot (hd.adopted _ hmem).1, fun hawaits => hnot hawaits.1⟩

include hc

theorem openBracket_engages (s : Share) : Keeps (engaging σ n) h (openBracket s) := by
  intro d
  unfold KeepsFrom
  cases hopen : d.model.openBracket s with
  | error e =>
    rw [openBracket_refused hopen]
    exact (engaging σ n).refl d
  | ok m =>
    have hafter := openBracket_after (fun d => .emit Desk.engaging_free hc nofun ((engaging σ n).refl d)) hopen
    refine Desk.Contract.at_after ⟨d.grows_accepted .., fun _ hd => ?_⟩ hafter
    obtain ⟨-, -, rfl⟩ := Model.openBracket_ok hopen
    have hplain : ∀ x ∈ [Deed.call s.id .aboutToChange], x.ofSession = false := by simp [Deed.ofSession]
    refine ⟨?_, fun c => rfl, ?_⟩
    · rw [Desk.Engaged, d.toList_accepted]
      exact (Books.Engaged.bracket (Books.Engaged.weaken hd)).append hplain
    · rw [Desk.Spared, d.toList_accepted]
      exact Books.Spared.append (.of_same rfl (Nat.le_refl _) rfl rfl) hplain

theorem closeSpare_engages (s : Share) : Keeps (engaging σ n) h (closeSpare s) := by
  have hemit (d : Desk σ) : KeepsFrom (engaging σ n) h (emit (.changed d.model.document)) d d :=
    .emit Desk.engaging_free hc (fun _ heq => (Event.changed.inj heq).symm) ((engaging σ n).refl d)
  intro d
  unfold KeepsFrom
  simp only [closeSpare, look_bind]
  by_cases hspare : d.spare = true
  · simp only [hspare, if_true]
    cases hclose : d.model.closeBracket s with
    | error notice =>
      rw [closeBracket_refused hclose]
      exact Desk.engaging_free.clientStep _ _ (.client _)
    | ok m =>
      refine Desk.Contract.at_after ⟨d.grows_accepted .., fun _ hd => ?_⟩ (closeBracket_after hemit hclose)
      obtain ⟨-, k, hk, rfl⟩ := Model.closeBracket_ok hclose
      have hplain : ∀ x ∈ [Deed.call s.id .changed], x.ofSession = false := by simp [Deed.ofSession]
      have hleft : d.books.active + d.books.pending d.history.toList ≤ k := by
        have hless := of_decide_eq_true hspare
        omega
      refine ⟨?_, fun c => rfl, ?_⟩
      · rw [Desk.Engaged, d.toList_accepted]
        exact (Books.Engaged.unbracket hd hleft).append hplain
      · rw [Desk.Spared, d.toList_accepted]
        exact Books.Spared.append (.of_same rfl (Nat.le_refl _) rfl rfl) hplain
  · simp only [hspare]
    exact (engaging σ n).refl d

theorem LeavesSessions.engages {a : Act σ α} (ha : LeavesSessions a) : Keeps (engaging σ n) h a := by
  cases ha with
  | offBooks ha => exact ha.keeps Desk.engaging_free hc
  | recordingOp ha =>
    exact ha.keeps (fun _ _ => Desk.engaging_free.clientStep _ _ (.client _)) fun _ _ hrecorded => hrecorded.engages
  | acquire access =>
    intro d
    unfold KeepsFrom
    cases hacquire : d.model.acquire access with
    | error e =>
      rw [acquire_refused hacquire]
      exact (engaging σ n).refl d
    | ok taken =>
      rw [acquire_run hacquire]
      exact Desk.engaging_acquire hacquire
  | giveBack s => exact giveBackOwn_engages s
  | openBracket s => exact openBracket_engages hc s
  | closeBracket s => exact closeSpare_engages hc s

end Act

/-- Whatever callers do that leave sessions alone keeps all books engaged that it passes through. -/
theorem Host.Callers.engages {n : Nat} {h : Host σ} (hh : h.Callers n Act.LeavesSessions) {a : Act σ α}
    (ha : Act.Caller n Act.LeavesSessions a) : a.Keeps (Desk.engaging σ n) h := by
  refine hh.keeps (fun h hc => ?_) ha
  have hK := Desk.engaging_free (σ := σ) (n := n)
  have hnote (notice : Notice) : Act.Keeps (Desk.engaging σ n) h (Act.note notice) :=
    fun _ => hK.clientStep _ _ (.client _)
  have hedit {ε α : Type} {c : CoordinatorId} (hcn : c < n) {mutation : Scope → Act σ (Except ε α)}
      (hm : (mutation ⟨c⟩).Keeps (Desk.engaging σ n) h) : (Act.edit c mutation).Keeps (Desk.engaging σ n) h :=
    (Act.enclosing_engages hcn).edit_keeps hK hc hm
  exact {
    op := fun hop => hop.engages hc
    mutate := Act.Keeps.mutate hK hc fun _ _ hinHand => hinHand.offBooks.engages
    withShare := fun access _ hf => Act.withShare_engages access hf
    edit := fun hcn hm => hedit hcn hm
    undoable := fun label _ hcn hm => Act.undoableEdit_keeps (fun hf => Act.withShare_engages .edit hf) hnote
      (fun _ _ hrecorded => hrecorded.engages) _ label (hedit hcn hm) }

end FormDesk
