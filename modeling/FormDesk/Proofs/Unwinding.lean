/-
Unwinding. When a run is interrupted, what was begun is ended on the way out:
shares go back, sessions close, and brackets with them. So whatever callers do
who take shares only around what they do with them, and leave brackets to
coordinators, each session is in the end where it was, the live shares are
those of before, and no bracket is left open, but for one thing: a client that
is told of a bracket as it opens may interrupt. The bracket is open then and
its session is not, and nobody closes it. There are at most as many such
brackets as clients that interrupted so (`Callers.brackets_unwind`).
-/
import FormDesk.Proofs.Balance
import FormDesk.Proofs.Enclosing

namespace FormDesk

variable {σ ε α : Type}

open Books (Carried Settled Sound)

namespace Desk

/-! ## The books around a mutation -/

section

variable (d : Desk σ) (c : CoordinatorId)

theorem books_opening (s : Share) : (d.opening c s).books = d.books.withSession c (.opened s) := d.books_withSession c _

theorem books_nesting (inner : Nat) (s : Share) : (d.nesting c inner s).books =
    d.books.withSession c (.active (min (inner + 1) (maxDepth - 1)) s) := books_withSession ..

theorem books_leaving (x : Sessions) : (d.leaving c x).books = d.books.withSession c x := books_withSession ..

theorem books_left {s : Share} {m : Model} (hclose : (d.leaving c .idle).model.closeBracket s = .ok m) :
    ((d.leaving c .idle).accepted s .changed m).books = d.books.unbracket c :=
  books_closed (d := (d.enter (.ran c)).enter (.left c)) hclose

end

/-! ## What is left behind -/

/-- The deeds `w` lead from one desk to another and leave no more brackets open than clients broke off, and
every session but that of one coordinator settled. -/
structure Aside (n : Nat) (c : CoordinatorId) (d : Desk σ) (w : List Deed) (e : Desk σ) : Prop where
  deeds : e.history.toList = d.history.toList ++ w
  carried : ∃ k, k ≤ w.countP Deed.breaks ∧ Carried n k d.books e.books
  others : ∀ c', c' ≠ c → Settled c' d.books w e.books

/-- The deeds `w` lead from one desk to another and leave no more brackets open than clients broke off, and
every session settled. -/
structure Unwound (n : Nat) (d : Desk σ) (w : List Deed) (e : Desk σ) : Prop where
  deeds : e.history.toList = d.history.toList ++ w
  carried : ∃ k, k ≤ w.countP Deed.breaks ∧ Carried n k d.books e.books
  settled : ∀ c, Settled c d.books w e.books

variable {n : Nat} {c : CoordinatorId} {d e f g : Desk σ} {w v u : List Deed}

theorem Unwound.aside (h : Unwound n d w e) (c : CoordinatorId) : Aside n c d w e :=
  ⟨h.deeds, h.carried, fun c' _ => h.settled c'⟩

theorem Unwound.sound (h : Unwound n d w e) : e.books.Sound n :=
  have ⟨_, _, hcarried⟩ := h.carried
  hcarried.sound

theorem carried_trans (h : ∃ k, k ≤ w.countP Deed.breaks ∧ Carried n k d.books e.books)
    (h' : ∃ k, k ≤ v.countP Deed.breaks ∧ Carried n k e.books f.books) :
    ∃ k, k ≤ (w ++ v).countP Deed.breaks ∧ Carried n k d.books f.books := by
  obtain ⟨k, hk, hcarried⟩ := h
  obtain ⟨k', hk', hcarried'⟩ := h'
  refine ⟨k + k', ?_, hcarried.trans hcarried'⟩
  rw [List.countP_append]
  omega

theorem Aside.trans (h : Aside n c d w e) (h' : Aside n c e v f) : Aside n c d (w ++ v) f where
  deeds := by rw [h'.deeds, h.deeds, List.append_assoc]
  carried := carried_trans h.carried h'.carried
  others c' hne := (h.others c' hne).trans (h'.others c' hne)

theorem Unwound.trans (h : Unwound n d w e) (h' : Unwound n e v f) : Unwound n d (w ++ v) f where
  deeds := by rw [h'.deeds, h.deeds, List.append_assoc]
  carried := carried_trans h.carried h'.carried
  settled c := (h.settled c).trans (h'.settled c)

/-- Nothing in the books changes. -/
theorem Unwound.still (hd : d.books.Sound n) (hw : e.history.toList = d.history.toList ++ w)
    (hb : e.books = d.books) : Unwound n d w e :=
  ⟨hw, ⟨0, Nat.zero_le _, by rw [hb]; exact .refl hd⟩, fun _ => .of_eq (by rw [hb])⟩

/-- A session was entered, deeds have left all sessions settled, and the session is left. -/
theorem Aside.left (h : Aside n c d w e) (hin : Act.Entered c w (d.books.session c) (e.books.session c))
    (hran : Unwound n e v f) (hleft : Aside n c f u g)
    (hout : g.books.session c = (f.books.session c).leave.2) : Unwound n d (w ++ v ++ u) g := by
  have hall := (h.trans (hran.aside c)).trans hleft
  refine ⟨hall.deeds, hall.carried, fun c' => ?_⟩
  by_cases hcc : c' = c
  · subst hcc
    refine ⟨by rw [hout]; exact hin.left (hran.settled c').lower, fun hshallow => ?_⟩
    have hsame := (hran.settled c').same (hshallow.of_subset (by simp))
    rw [hout, hsame]
    exact hin.left_same (hshallow.of_subset (by simp))
  · exact hall.others c' hcc

/-- From sound books, deeds lead from one desk to the other that leave all sessions settled. -/
def Unwinds (n : Nat) (d e : Desk σ) : Prop := d.books.Sound n → ∃ w, Unwound n d w e

theorem Unwinds.still (hw : e.history.toList = d.history.toList ++ w) (hb : e.books = d.books) : Unwinds n d e :=
  fun hd => ⟨w, .still hd hw hb⟩

/-- The contract to leave all sessions settled, unless the run is cut off. -/
def unwinding (σ : Type) (n : Nat) : Contract σ where
  ended := Unwinds n
  cut _ _ := True
  refl _ := .still (List.append_nil _).symm rfl
  trans h h' hd := by
    obtain ⟨w, hw⟩ := h hd
    obtain ⟨v, hv⟩ := h' hw.sound
    exact ⟨w ++ v, hw.trans hv⟩
  halt _ := trivial
  stop _ _ := trivial

theorem OffBooks.books (h : OffBooks d e) : e.books = d.books := by
  simp only [Desk.books, h.coordinators, h.live, h.nextShare, h.changing]

theorem OffBooks.unwinds (h : OffBooks d e) : Unwinds n d e :=
  have ⟨_, hw, _⟩ := h.deeds
  .still hw h.books

theorem Recorded.books (h : Recorded d e) : e.books = d.books := by
  cases h with
  | beginRecording h =>
    obtain ⟨-, -, -, rfl⟩ := Model.beginRecording_ok h
    rfl
  | endRecording h =>
    obtain ⟨-, r, -, rfl⟩ := Model.endRecording_ok h
    unfold Model.recordingEnded
    split <;> rfl
  | began | finished | edits | edited => rfl
  | depth id f => exact d.books_undoDepth id f

theorem Recorded.unwinds (h : Recorded d e) : Unwinds n d e := by
  have hb := h.books
  cases h with
  | beginRecording | endRecording => exact .still (d.toList_accepted ..) hb
  | began | finished | edits | edited => exact .still (d.toList_enter _) hb
  | depth => exact .still (List.append_nil _).symm hb

theorem unwinding_free : (unwinding σ n).Free := OffBooks.free (fun h => h.unwinds) fun _ _ => trivial

end Desk

namespace Act

open Desk (Unwound Unwinds Aside unwinding)

variable {n : Nat} {h : Host σ} {c : CoordinatorId}

/-! ## Shares and sessions -/

/-- A live share is live no more when it has been given back. -/
theorem release_books {d : Desk σ} {s : Share} (hd : d.books.Sound n) (hs : s ∈ d.books.live) :
    (release s h d).2.books = d.books.giveBack s.id ∧
      (release s h d).2.history.toList = d.history.toList ++ [.call s.id (.release s.access)] := by
  obtain ⟨m, hrun, hbooks⟩ := release_live (h := h) hd hs
  rw [hrun]
  exact ⟨hbooks, d.toList_accepted ..⟩

theorem acquire_books {d : Desk σ} {access : Access} {s : Share} {m : Model}
    (hacquire : d.model.acquire access = .ok (s, m)) :
    s = ⟨d.books.next, access⟩ ∧ (d.accepted s (.acquire access) m).books = d.books.take access := by
  obtain ⟨-, rfl, rfl⟩ := Model.acquire_ok hacquire
  exact ⟨rfl, rfl⟩

theorem withShare_unwinds (access : Access) {f : Share → Act σ α} (hf : ∀ s, Keeps (unwinding σ n) h (f s)) :
    Keeps (unwinding σ n) h (withShare access f) := by
  refine withShare_around (fun _ _ => trivial) (fun {d s m e} hacquire hran hd => ?_) hf
  obtain ⟨rfl, hbooks⟩ := acquire_books hacquire
  obtain ⟨w, hw⟩ := hran (hbooks ▸ hd.take access)
  obtain ⟨k, hk, hcarried⟩ := hw.carried
  rw [hbooks] at hcarried
  have hlive := ((hcarried.loose _).2 (hd.loose_next access)).1
  obtain ⟨hback, hdeeds⟩ := release_books (h := h) hcarried.sound hlive
  refine ⟨.call d.books.next (.acquire access) :: (w ++ [.call d.books.next (.release access)]), ?_, ⟨k, ?_, ?_⟩,
    fun c => ?_⟩
  · rw [hdeeds, hw.deeds, Desk.toList_accepted]
    simp
  · simpa [Deed.breaks] using hk
  · rw [hback]
    exact hcarried.visit hd
  · refine (hw.settled c).wider ?_ ?_ fun e he => List.mem_cons_of_mem _ (List.mem_append_left _ he)
    · rw [hbooks]
      rfl
    · rw [hback]
      rfl

/-- The desk on which a bracket has been opened for a session. -/
theorem starting_books {d : Desk σ} {s : Share} {m : Model} (hacquire : d.model.acquire .edit = .ok (s, m)) :
    s = ⟨d.books.next, .edit⟩ ∧ (d.starting c s m).books = d.books.take .edit ∧
      (d.starting c s m).history.toList =
        d.history.toList ++ [.call d.books.next (.acquire .edit), .starting c d.books.next] := by
  obtain ⟨rfl, hbooks⟩ := acquire_books hacquire
  refine ⟨rfl, hbooks, ?_⟩
  rw [Desk.starting, Desk.toList_enter, Desk.toList_accepted, List.append_assoc]
  rfl

theorem opening_books {d : Desk σ} {s : Share} {m m' : Model} (hacquire : d.model.acquire .edit = .ok (s, m))
    (hopen : (d.starting c s m).model.openBracket s = .ok m') :
    ((d.starting c s m).accepted s .aboutToChange m').books = d.books.bracket := by
  obtain ⟨-, rfl, rfl⟩ := Model.acquire_ok hacquire
  obtain ⟨-, -, rfl⟩ := Model.openBracket_ok hopen
  rfl

/-- A session that has been left without closing it. -/
theorem leaving_aside {f : Desk σ} {exit : Leaving} {x : Sessions} (hf : f.books.Sound n)
    (hleave : (f.coordinator c).session.leave = (exit, x)) (hexit : ∀ s, exit ≠ .outermost s) :
    Aside n c f [.ran c, .left c] (f.leaving c x) ∧ (f.leaving c x).books.session c = (f.books.session c).leave.2 := by
  have hsession := f.session_books c
  have hbooks := f.books_leaving c x
  suffices Carried n 0 f.books (f.books.withSession c x) ∧
      (f.books.withSession c x).session c = (f.books.session c).leave.2 by
    refine ⟨⟨f.toList_leaving c x, ⟨0, Nat.zero_le _, hbooks ▸ this.1⟩, fun c' hne => .of_eq ?_⟩, hbooks ▸ this.2⟩
    rw [hbooks, Books.session_withSession_of_ne hne]
  obtain ⟨hs, rfl⟩ | ⟨inner, s, hs, rfl⟩ := Sessions.leave_inner hleave hexit
  · rw [hs] at hsession
    rw [Books.withSession_same hsession, hsession]
    exact ⟨.refl hf, rfl⟩
  · rw [hs] at hsession
    refine ⟨.nest hf inner hsession, ?_⟩
    rw [Books.session_withSession_self (Books.lt_of_session hsession), hsession]
    rfl

/-- A session that has been left and has closed its bracket. -/
theorem closed_aside {f g : Desk σ} {s : Share} {m : Model} {w : List Deed} (hf : f.books.Sound n)
    (hs : f.books.session c = .active 0 s) (hclose : (f.leaving c .idle).model.closeBracket s = .ok m)
    (hran : Unwound n ((f.leaving c .idle).accepted s .changed m) w g) :
    ∃ v, Aside n c f v (release s h g).2 ∧ (release s h g).2.books.session c = (f.books.session c).leave.2 := by
  have hbooks := f.books_left c hclose
  obtain ⟨k, hk, hcarried⟩ := hran.carried
  have hsettled := hran.settled
  rw [hbooks] at hcarried hsettled
  have hlive : s ∈ g.books.live := ((hcarried.loose s).2 ⟨(hf.held hs).1, hf.unbracket_detached hs⟩).1
  obtain ⟨hback, hdeeds⟩ := release_books (h := h) hcarried.sound hlive
  refine ⟨.ran c :: .left c :: .call s.id .changed :: (w ++ [.call s.id (.release s.access)]),
    ⟨?_, ⟨k, ?_, ?_⟩, fun c' hne => ?_⟩, ?_⟩
  · rw [hdeeds, hran.deeds, Desk.toList_accepted, Desk.toList_leaving]
    simp
  · simpa [Deed.breaks] using hk
  · rw [hback]
    exact hcarried.finish hf hs
  · refine (hsettled c').wider ?_ ?_ fun e he =>
      List.mem_cons_of_mem _ <| List.mem_cons_of_mem _ <| List.mem_cons_of_mem _ <| List.mem_append_left _ he
    · exact (Books.session_withSession_of_ne hne).symm
    · rw [hback]
      rfl
  · have hlower := (hsettled c).lower
    have hidle : (f.books.unbracket c).session c = .idle :=
      Books.session_withSession_self (Books.lt_of_session hs)
    rw [hidle] at hlower
    rw [hback, hs]
    exact hlower.of_idle

/-- From sound books, a session has been entered between two desks, and all others are settled. -/
def InSession (n : Nat) (c : CoordinatorId) (d e : Desk σ) : Prop :=
  d.books.Sound n → ∃ w, Aside n c d w e ∧ Entered c w (d.books.session c) (e.books.session c)

/-- The share of an open session closes its bracket. -/
theorem session_closes {f : Desk σ} {s : Share} (hf : f.books.Sound n) (hs : (f.coordinator c).session = .active 0 s)
    {notice : Notice} : (f.leaving c .idle).model.closeBracket s ≠ .error notice := by
  have hsession := (f.session_books c).trans hs
  obtain ⟨hlive, hedit⟩ := hf.held hsession
  have haccess : (f.leaving c .idle).model.accessOf? s.id = some .edit :=
    hedit ▸ (Desk.numbered_of_sound hf).accessOf? hlive
  have hok := Model.closeBracket_of_live haccess (hf.changing_pos hsession)
  rw [hok]
  exact nofun

section

variable {d f : Desk σ} {s : Share} {m m' : Model} (hd : d.books.Sound n)
  (hacquire : d.model.acquire .edit = .ok (s, m))

include hd hacquire

/-- The share goes back of a session whose bracket cannot be opened. -/
theorem refused_unwound : ∃ w, Unwound n d w (release s h (d.starting c s m)).2 := by
  obtain ⟨rfl, hbooks, hdeeds⟩ := starting_books (c := c) hacquire
  have hsound : (d.starting c ⟨d.books.next, .edit⟩ m).books.Sound n := hbooks ▸ hd.take .edit
  have hlive : ⟨d.books.next, .edit⟩ ∈ (d.starting c ⟨d.books.next, .edit⟩ m).books.live := by
    rw [hbooks]
    exact List.mem_cons_self
  obtain ⟨hback, hreleased⟩ := release_books (h := h) hsound hlive
  rw [hbooks] at hback
  refine ⟨_, by rw [hreleased, hdeeds, List.append_assoc], ⟨0, Nat.zero_le _, ?_⟩, fun c' => .of_eq ?_⟩
  · rw [hback]
    exact .visit hd (.refl (hd.take .edit))
  · rw [hback]
    rfl

variable (hopen : (d.starting c s m).model.openBracket s = .ok m')
  (hran : Unwinds n ((d.starting c s m).accepted s .aboutToChange m') f)

include hopen hran

/-- A bracket has been opened for a session and announced. -/
theorem announced_books : s = ⟨d.books.next, .edit⟩ ∧ ∃ w,
    f.history.toList = d.history.toList ++ ([.call d.books.next (.acquire .edit), .starting c d.books.next,
      .call d.books.next .aboutToChange] ++ w) ∧
    (∃ k, k ≤ w.countP Deed.breaks ∧ Carried n k d.books.bracket f.books) ∧
    ∀ c', Settled c' d.books w f.books := by
  obtain ⟨rfl, -, hdeeds⟩ := starting_books (c := c) hacquire
  have hbooks := opening_books hacquire hopen
  obtain ⟨w, hw⟩ := hran (hbooks ▸ hd.bracket)
  have hcarried := hw.carried
  have hsettled := hw.settled
  rw [hbooks] at hcarried hsettled
  refine ⟨rfl, w, ?_, hcarried, fun c' => (hsettled c').wider rfl rfl fun e he => he⟩
  rw [hw.deeds, Desk.toList_accepted, hdeeds]
  simp

/-- The share goes back of a session whose bracket was not announced to the end. -/
theorem broken_unwound {callback : Callback} (held : List Ref) (hbreaks : Deed.breaks (.threw callback) = true) :
    ∃ w, Unwound n d w (release s h { f.enter (.threw callback) with held }).2 := by
  obtain ⟨rfl, w, hdeeds, ⟨k, hk, hcarried⟩, hsettled⟩ := announced_books hd hacquire hopen hran
  have hlive := ((hcarried.loose ⟨d.books.next, .edit⟩).2 (hd.loose_next .edit)).1
  obtain ⟨hback, hreleased⟩ := release_books (h := h) (d := { f.enter (.threw callback) with held })
    hcarried.sound hlive
  refine ⟨[.call d.books.next (.acquire .edit), .starting c d.books.next,
    .call d.books.next .aboutToChange] ++ (w ++ [.threw callback, .call d.books.next (.release .edit)]),
    ?_, ⟨k + 1, ?_, ?_⟩, fun c' => ?_⟩
  · rw [hreleased]
    change (f.enter (.threw callback)).history.toList ++ _ = _
    rw [Desk.toList_enter, hdeeds]
    simp
  · rw [List.countP_append, List.countP_append, List.countP_cons_of_pos hbreaks]
    omega
  · rw [hback]
    exact hcarried.broken hd
  · refine (hsettled c').wider rfl ?_ fun e he => ?_
    · rw [hback]
      rfl
    · exact List.mem_append_right _ (List.mem_append_left _ he)

/-- The outermost session opens around its share. -/
theorem opened_aside (hcn : c < n) (hidle : d.books.session c = .idle) :
    ∃ w, Aside n c d w (f.opening c s) ∧ Entered c w (d.books.session c) ((f.opening c s).books.session c) := by
  obtain ⟨rfl, w, hdeeds, ⟨k, hk, hcarried⟩, hsettled⟩ := announced_books hd hacquire hopen hran
  have hstill : f.books.session c = .idle := by
    have hlower := (hsettled c).lower
    rw [hidle] at hlower
    exact hlower.of_idle
  have hafter := f.books_opening c ⟨d.books.next, .edit⟩
  refine ⟨[.call d.books.next (.acquire .edit), .starting c d.books.next,
    .call d.books.next .aboutToChange] ++ (w ++ [.opened c d.books.next, .runs c]),
    ⟨?_, ⟨k, ?_, ?_⟩, fun c' hne => ?_⟩, ?_⟩
  · rw [Desk.toList_opening, hdeeds]
    simp
  · rw [List.countP_append, List.countP_append]
    omega
  · rw [hafter]
    exact hcarried.start hd hcn hstill
  · refine (hsettled c').wider rfl ?_ fun e he => ?_
    · rw [hafter, Books.session_withSession_of_ne hne]
    · exact List.mem_append_right _ (List.mem_append_left _ he)
  · rw [hidle, hafter, Books.session_withSession_self (by rw [hcarried.sound.size]; exact hcn)]
    exact .outermost _

end

theorem enclosing_unwinds (hcn : c < n) : Enclosing (unwinding σ n) h c (InSession n c) where
  refused _ hacquire _ hd := refused_unwound hd hacquire
  opening _ _ _ _ := trivial
  broken {d s m m' f callback held} _ hacquire hopen hran hbreaks hd :=
    broken_unwound hd hacquire hopen hran held hbreaks
  opened {d s m m' f} hidle hacquire hopen hran hd :=
    opened_aside hd hacquire hopen hran hcn ((d.session_books c).trans hidle)
  nested {d inner s} hs hd := by
    have hsession : d.books.session c = .active inner s := (d.session_books c).trans hs
    have hbooks := d.books_nesting c inner s
    refine ⟨[.entered c (inner + 2), .runs c], ⟨d.toList_nesting c inner s, ⟨0, Nat.zero_le _, ?_⟩,
      fun c' hne => .of_eq ?_⟩, ?_⟩
    all_goals rw [hbooks]
    · exact .nest hd _ hsession
    · exact Books.session_withSession_of_ne hne
    · rw [Books.session_withSession_self (Books.lt_of_session hsession), hsession]
      exact .nested List.mem_cons_self
  inside _ _ := trivial
  left hin hran hleave hexit hd := by
    obtain ⟨w, haside, hentered⟩ := hin hd
    obtain ⟨_, _, hcarried⟩ := haside.carried
    obtain ⟨v, hv⟩ := hran hcarried.sound
    obtain ⟨hleft, hout⟩ := leaving_aside hv.sound hleave hexit
    exact ⟨_, haside.left hentered hv hleft hout⟩
  closing _ _ _ _ _ := trivial
  closed {d e f s m g} hin hran hs hclose hclosed hd := by
    obtain ⟨w, haside, hentered⟩ := hin hd
    obtain ⟨_, _, hcarried⟩ := haside.carried
    obtain ⟨v, hv⟩ := hran hcarried.sound
    have hsession : f.books.session c = .active 0 s := (f.session_books c).trans hs
    have hbooks := f.books_left c hclose
    obtain ⟨u, hu⟩ := hclosed (hbooks ▸ hv.sound.unbracket hsession)
    obtain ⟨_, hleft, hout⟩ := closed_aside (h := h) hv.sound hsession hclose hu
    exact ⟨_, haside.left hentered hv hleft hout⟩
  unclosed hin hran hs hclose hd := by
    obtain ⟨w, haside, -⟩ := hin hd
    obtain ⟨_, _, hcarried⟩ := haside.carried
    obtain ⟨v, hv⟩ := hran hcarried.sound
    exact absurd hclose (session_closes hv.sound hs)

end Act

/-! ## Whatever callers do -/

namespace Desk

variable {n : Nat} {d e : Desk σ}

/-- Two live shares with one number are the same. -/
theorem share_eq {s t : Share} (hd : d.books.Sound n) (hs : s ∈ d.model.live) (ht : t ∈ d.model.live)
    (hid : s.id = t.id) : s = t := by
  have hnumbered := numbered_of_sound hd
  have haccess : some s.access = some t.access := by
    rw [← hnumbered.accessOf? hs, hid, hnumbered.accessOf? ht]
  cases s
  cases t
  simp_all

/-- Where loose shares were loose before and sessions are what they were, live shares were live before. -/
theorem live_before (hd : d.books.Sound n) (he : e.books.Sound n)
    (hloose : ∀ s, e.books.Loose s → d.books.Loose s) (hsame : ∀ c, e.books.session c = d.books.session c)
    {s : Share} (hs : s ∈ e.model.live) : s ∈ d.model.live := by
  cases hattached : e.books.attached s.id with
  | false => exact (hloose s ⟨hs, hattached⟩).1
  | true =>
    obtain ⟨c, inner, t, ht, hid⟩ := Books.attached_iff.1 hattached
    obtain rfl := share_eq he (he.held ht).1 hs hid
    exact (hd.held ((hsame c).symm.trans ht)).1

theorem active_same (hd : d.books.Sound n) (he : e.books.Sound n)
    (hsame : ∀ c, e.books.session c = d.books.session c) : e.books.active = d.books.active := by
  have hsessions : e.books.sessions = d.books.sessions := by
    refine List.ext_getElem (he.size.trans hd.size.symm) fun c hc hc' => ?_
    have hsession := hsame c
    simpa [Books.session, hc, hc'] using hsession
  rw [Books.active, hsessions, Books.active]

end Desk

/-- Whatever callers do without shares and brackets by hand leaves all sessions settled, unless it is cut off. -/
theorem Host.Callers.unwinds {n : Nat} {h : Host σ} (hh : h.Callers n Act.NoShareOp) {a : Act σ α}
    (ha : Act.Caller n Act.NoShareOp a) : a.Keeps (Desk.unwinding σ n) h := by
  refine hh.keeps (fun h hc => ?_) ha
  have hK := Desk.unwinding_free (σ := σ) (n := n)
  have hnote (notice : Notice) : Act.Keeps (Desk.unwinding σ n) h (Act.note notice) :=
    fun _ => hK.clientStep _ _ (.client _)
  have hedit {ε α : Type} {c : CoordinatorId} (hcn : c < n) {mutation : Scope → Act σ (Except ε α)}
      (hm : (mutation ⟨c⟩).Keeps (Desk.unwinding σ n) h) : (Act.edit c mutation).Keeps (Desk.unwinding σ n) h :=
    (Act.enclosing_unwinds hcn).edit_keeps hK hc hm
  exact {
    op := fun hop => by
      cases hop with
      | offBooks ha => exact ha.keeps hK hc
      | recordingOp ha => exact ha.keeps hnote fun _ _ hrecorded => hrecorded.unwinds
    mutate := Act.Keeps.mutate hK hc fun _ _ hinHand => hinHand.offBooks.unwinds
    withShare := fun access _ hf => Act.withShare_unwinds access hf
    edit := fun hcn hm => hedit hcn hm
    undoable := fun label _ hcn hm => Act.undoableEdit_keeps (fun hf => Act.withShare_unwinds .edit hf) hnote
      (fun _ _ hrecorded => hrecorded.unwinds) _ label (hedit hcn hm) }

/-- **Brackets unwind.** Let callers take shares only around what they do with them and leave brackets to
coordinators, with any ending that is not fatal. Then as many brackets are left open as `k` says, at most one
for each client that was told of a bracket as it opened and interrupted; in all other respects sessions, live
shares and brackets are those of before, and the next brackets are announced as the open ones have it. -/
theorem Host.Callers.brackets_unwind {n : Nat} {h : Host σ} (hh : h.Callers n Act.NoShareOp) {a : Act σ α}
    (ha : Act.Caller n Act.NoShareOp a) {d : Desk σ} (hd : d.books.Sound n) (hended : (a h d).1 ≠ .fatal) :
    ∃ e w k, (a h d).2 = e ∧ e.history.toList = d.history.toList ++ w ∧ k ≤ w.countP Deed.breaks ∧
      ((∀ c, (d.coordinator c).session = .idle) ∨ Deed.Shallow w →
        (∀ c, (e.coordinator c).session = (d.coordinator c).session) ∧
        (∀ s, s ∈ e.model.live ↔ s ∈ d.model.live) ∧
        e.model.changing = d.model.changing + k ∧
        ∀ (later : Host σ) {β : Type} (b : Act σ β), later.Clients n Act.SwitchOp → Act.Client n Act.SwitchOp b →
          ∃ v, (b later e).2.history.toList = e.history.toList ++ v ∧
            Deed.Announced (d.model.changing + k) v (b later e).2.model.changing) := by
  have hunwinds : Desk.Unwinds n d (a h d).2 := (hh.unwinds ha d).ended hended
  obtain ⟨w, hw⟩ := hunwinds hd
  obtain ⟨k, hk, hcarried⟩ := hw.carried
  refine ⟨_, w, k, rfl, hw.deeds, hk, fun hwhen => ?_⟩
  have hsame : ∀ c, (a h d).2.books.session c = d.books.session c := fun c => by
    rcases hwhen with hidle | hshallow
    · have hlower := (hw.settled c).lower
      rw [(d.session_books c).trans (hidle c)] at hlower ⊢
      exact hlower.of_idle
    · exact (hw.settled c).same hshallow
  have hchanging : (a h d).2.model.changing + d.books.active =
      d.model.changing + (a h d).2.books.active + k := hcarried.changing
  rw [Desk.active_same hd hcarried.sound hsame] at hchanging
  have hcount : (a h d).2.model.changing = d.model.changing + k := by omega
  refine ⟨fun c => ?_, fun s => ⟨?_, ?_⟩, hcount, fun later β b hlater hb => ?_⟩
  · rw [← Desk.session_books, ← Desk.session_books]
    exact hsame c
  · exact Desk.live_before hd hcarried.sound (fun s => (hcarried.loose s).1) hsame
  · exact Desk.live_before hcarried.sound hd (fun s => (hcarried.loose s).2) fun c => (hsame c).symm
  · obtain ⟨v, hv, -, hannounced⟩ := hlater.announces Act.SwitchOp.announces hb (a h d).2
    exact ⟨v, hv, hcount ▸ hannounced⟩

/-- A listener that interrupts when it hears of the change: no bracket is left open. -/
theorem Host.Callers.brackets_unwind_interrupted :
    let h : Host Unit := .interfering (Act.interrupt "stop")
    let append (s : Scope) : Act Unit (Except ModelError Unit) :=
      Act.mutateIn s fun document => pure ((), document ++ "x")
    let a : Act Unit (Except String (Except ModelError (Edited Unit))) := Act.attempt (Act.edit 0 append)
    let d : Desk Unit :=
      { model := { document := some "d", subscriptions := [⟨0, .client 0⟩] }, coordinators := [{}], client := () }
    d.books.Sound 1 ∧
    ∃ e w, (a h d).2 = e ∧ e.history.toList = w ∧ .threw (.listener 0 (.changed (some "dx"))) ∈ w ∧
      (∀ c, (e.coordinator c).session = .idle) ∧ (∀ s, s ∈ e.model.live ↔ s ∈ d.model.live) ∧
      e.model.changing = 0 ∧
      ∀ (later : Host Unit) {β : Type} (b : Act Unit β), later.Clients 1 Act.SwitchOp →
        Act.Client 1 Act.SwitchOp b →
        ∃ v, (b later e).2.history.toList = e.history.toList ++ v ∧
          Deed.Announced 0 v (b later e).2.model.changing := by
  intro h append a d
  have hoffBooks {α : Type} {a : Act Unit α} (ha : Act.OffBooksOp a) : Act.Caller 1 Act.NoShareOp a :=
    .op (.offBooks ha)
  have happend (s : Scope) : Act.Caller 1 Act.NoShareOp (append s) :=
    .mutateIn (fun ha => .offBooks ha) s fun _ => .pure _
  have hh : h.Callers 1 Act.NoShareOp := .interfering (hoffBooks (.interrupt "stop"))
  have ha : Act.Caller 1 Act.NoShareOp a := .attempt (.edit (by decide) (happend _))
  have hrest : d.AtRest 1 := .of_new rfl (by simp [d]) rfl rfl
  have hidle := hrest.idle
  have hd := hrest.sound
  have hended : (a h d).1.map (fun _ => ()) = .returned () := by decide +kernel
  obtain ⟨e, w, k, rfl, hw, hk, hrest⟩ :=
    hh.brackets_unwind ha hd fun hfatal => by simp [hfatal, Outcome.map] at hended
  have hdeeds : (a h d).2.history.toList = w := hw
  have hnone : k ≤ 0 := by
    have hcount : (a h d).2.history.toList.countP Deed.breaks = 0 := by decide +kernel
    rwa [← hdeeds, hcount] at hk
  obtain rfl := Nat.le_zero.1 hnone
  obtain ⟨hsessions, hlive, hchanging, hlater⟩ := hrest (.inl hidle)
  exact ⟨hd, _, w, rfl, hdeeds, hdeeds ▸ by decide +kernel, fun c => (hsessions c).trans (hidle c), hlive, hchanging,
    hlater⟩

/-- A listener that interrupts when it is told of a bracket as it opens: the coordinator is idle and no share is
live, but the bracket stays open, and nothing of the next session is announced but that the document is not
saved. -/
theorem Host.bracket_left_open :
    let h : Host Unit := .answering (Act.interrupt "stop")
    let append (s : Scope) : Act Unit (Except ModelError Unit) :=
      Act.mutateIn s fun document => pure ((), document ++ "x")
    let d : Desk Unit :=
      { model := { document := some "d", subscriptions := [⟨0, .client 0⟩] }, coordinators := [{}], client := () }
    let e := (Act.attempt (Act.edit 0 append) h d).2
    let f := (Act.edit 0 append .silent e).2
    h.Callers 1 Act.NoShareOp ∧ Act.Caller 1 Act.NoShareOp (Act.attempt (Act.edit 0 append)) ∧ d.books.Sound 1 ∧
    (e.coordinator 0).session = .idle ∧ e.model.live = [] ∧ d.model.changing = 0 ∧ e.model.changing = 1 ∧
    e.history.toList = [.call 1 (.acquire .edit), .starting 0 1, .call 1 .aboutToChange, .emitted .aboutToChange,
      .told (.listener 0 .aboutToChange) (some "d"), .threw (.listener 0 .aboutToChange),
      .call 1 (.release .edit)] ∧
    f.history.toList = e.history.toList ++ [.call 2 (.acquire .edit), .starting 0 2, .call 2 .aboutToChange,
      .opened 0 2, .runs 0, .call 2 .mutate, .mutated true, .emitted (.dirtyChanged true),
      .told (.listener 0 (.dirtyChanged true)) (some "dx"), .ran 0, .left 0, .call 2 .changed,
      .call 2 (.release .edit)] := by
  intro h append d
  have hrest : d.AtRest 1 := .of_new rfl (by simp [d]) rfl rfl
  refine ⟨.answering (.op (.offBooks (.interrupt "stop"))), ?_, hrest.sound, rfl, rfl, rfl, rfl, by decide +kernel,
    by decide +kernel⟩
  exact .attempt (.edit (by decide) (.mutateIn (fun ha => .offBooks ha) _ fun _ => .pure _))

end FormDesk
