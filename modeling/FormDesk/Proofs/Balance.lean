/-
Balance. Whatever clients do keeps the books of the desk: when they have come
to an end the coordinators are where they were, and shares and brackets with
them, unless a client interrupts.

Sessions can be nested so deep that their count stops growing. Then the
outermost session is left early, and the sessions around find the coordinator
idle: so a session may come out lower than it went in (`Sessions.Lower`), and
comes out the same where the deeds are `Shallow`.
-/
import FormDesk.Proofs.Announcement
import FormDesk.Proofs.Books
import FormDesk.Proofs.Calm

namespace FormDesk

/-- The state of a session may come to another: no deeper around the same share, or idle. -/
inductive Sessions.Lower : Sessions → Sessions → Prop
  | idle (s) : Lower s idle
  | active {outer inner s} : inner ≤ outer → Lower (active outer s) (active inner s)

theorem Sessions.Lower.refl (s : Sessions) : Lower s s := by
  cases s with
  | idle => exact .idle _
  | active inner s => exact .active (Nat.le_refl _)

theorem Sessions.Lower.trans {s t u : Sessions} (h : Lower s t) (h' : Lower t u) : Lower s u := by
  cases h' with
  | idle => exact .idle _
  | active hle =>
    cases h with
    | active hle' => exact .active (Nat.le_trans hle hle')

theorem Sessions.Lower.of_idle {s : Sessions} (h : Lower .idle s) : s = .idle := by
  cases h
  rfl

/-- No session is entered where the count of sessions stops growing. -/
def Deed.Shallow (w : List Deed) : Prop := ∀ id depth, .entered id depth ∈ w → depth ≤ maxDepth

open Deed (Shallow)

theorem Deed.Shallow.of_subset {w v : List Deed} (h : Shallow v) (hw : w ⊆ v) : Shallow w :=
  fun id depth hmem => h id depth (hw hmem)

namespace Books

/-- The deeds leave the session of a coordinator where it was, or lower where they are not shallow. -/
structure Settled (c : CoordinatorId) (b : Books) (w : List Deed) (b' : Books) : Prop where
  lower : (b.session c).Lower (b'.session c)
  same : Shallow w → b'.session c = b.session c

variable {b b' b'' : Books} {c : CoordinatorId} {w v : List Deed} {n : Nat}

theorem Settled.of_eq (h : b'.session c = b.session c) : Settled c b w b' :=
  ⟨h ▸ .refl _, fun _ => h⟩

theorem Settled.trans (h : Settled c b w b') (h' : Settled c b' v b'') : Settled c b (w ++ v) b'' :=
  ⟨h.lower.trans h'.lower, fun hs => (h'.same (hs.of_subset (List.subset_append_right w v))).trans
    (h.same (hs.of_subset (List.subset_append_left w v)))⟩

/-- The same among more deeds, between books with the same session. -/
theorem Settled.wider {a a' : Books} (h : Settled c b w b') (ha : a.session c = b.session c)
    (ha' : a'.session c = b'.session c) (hw : w ⊆ v) : Settled c a v a' :=
  ⟨by rw [ha, ha']; exact h.lower, fun hs => by rw [ha, ha']; exact h.same (hs.of_subset hw)⟩

/-- The deeds keep the books and leave every session where it was. -/
structure Balanced (n : Nat) (b : Books) (w : List Deed) (b' : Books) : Prop extends Kept n b w b' where
  settled : ∀ c, Settled c b w b'

theorem Balanced.of_kept (h : Kept n b w b') (hs : b'.sessions = b.sessions) : Balanced n b w b' :=
  { h with settled := fun _ => .of_eq (by rw [session, hs, session]) }

theorem Balanced.trans (h : Balanced n b w b') (h' : Balanced n b' v b'') : Balanced n b (w ++ v) b'' :=
  { h.toKept.trans h'.toKept with settled := fun c => (h.settled c).trans (h'.settled c) }

end Books

variable {σ ε α : Type}

namespace Desk

/-- The books of a desk. -/
def books (d : Desk σ) : Books :=
  ⟨d.coordinators.map (·.session), d.model.live, d.model.nextShare, d.model.changing⟩

theorem session_books (d : Desk σ) (c : CoordinatorId) : d.books.session c = (d.coordinator c).session := by
  simp only [Books.session, books, coordinator, List.getElem?_map]
  cases d.coordinators[c]? <;> rfl

/-- Where all coordinators are new, so is each. -/
theorem coordinator_new {d : Desk σ} (h : ∀ x ∈ d.coordinators, x = {}) (c : CoordinatorId) :
    d.coordinator c = {} := by
  unfold coordinator
  cases hget : d.coordinators[c]? with
  | none => rfl
  | some x => exact h x (List.mem_of_getElem? hget)

@[simp] theorem books_enter (d : Desk σ) (e : Deed) : (d.enter e).books = d.books := rfl

@[simp] theorem books_withSession (d : Desk σ) (c : CoordinatorId) (s : Sessions) :
    (d.withSession c s).books = d.books.withSession c s := by
  have hset : (d.coordinators.modify c fun x => { x with session := s }).map (·.session) =
      (d.coordinators.map (·.session)).set c s := by
    refine List.ext_getElem? fun i => ?_
    simp only [List.getElem?_map, List.getElem?_modify, List.getElem?_set, List.length_map]
    by_cases hi : c = i
    · subst hi
      by_cases hlt : c < d.coordinators.length <;> simp [hlt]
    · simp [hi]
  simp only [books, withSession, withCoordinator, Books.withSession, hset]

/-- The count of undoable edits is not in the books. -/
@[simp] theorem books_undoDepth (d : Desk σ) (c : CoordinatorId) (f : Nat → Nat) :
    (d.withUndoDepth c f).books = d.books := by
  have hmap : (d.coordinators.modify c fun x => { x with undoDepth := f x.undoDepth }).map (·.session) =
      d.coordinators.map (·.session) := by
    refine List.ext_getElem? fun i => ?_
    simp only [List.getElem?_map, List.getElem?_modify]
    cases d.coordinators[i]? with
    | none => rfl
    | some x => by_cases hi : c = i <;> simp [hi]
  simp only [books, withUndoDepth, withCoordinator, hmap]

/-- The books when an idle coordinator's share has closed its bracket. -/
theorem books_closed {d : Desk σ} {c : CoordinatorId} {s : Share} {m : Model}
    (h : (d.withSession c .idle).model.closeBracket s = .ok m) :
    ((d.withSession c .idle).accepted s .changed m).books = d.books.unbracket c := by
  obtain ⟨-, k, hk, rfl⟩ := Model.closeBracket_ok h
  have hchanging : k = d.books.changing - 1 := by
    change k = d.model.changing - 1
    change d.model.changing = k + 1 at hk
    omega
  rw [Books.unbracket, ← books_withSession, ← hchanging]
  rfl

theorem numbered_of_sound {n : Nat} {d : Desk σ} (h : d.books.Sound n) : d.model.Numbered :=
  ⟨h.below, h.distinct⟩

/-- Between two desks the books are kept balanced. -/
def Balanced (n : Nat) (d e : Desk σ) : Prop :=
  d.books.Sound n → ∃ w, e.history.toList = d.history.toList ++ w ∧ Books.Balanced n d.books w e.books

theorem Balanced.path (n : Nat) : Path (Balanced (σ := σ) n) where
  refl d hd := ⟨[], by simp, .of_kept (.refl hd) rfl⟩
  trans := by
    intro d e f h h' hd
    obtain ⟨w, hw, hb⟩ := h hd
    obtain ⟨v, hv, hb'⟩ := h' hb.sound
    exact ⟨w ++ v, by rw [hv, hw, List.append_assoc], hb.trans hb'⟩

/-- A deed that has to do with no share and leaves the books alone. -/
theorem calmly_other {n : Nat} {d e : Desk σ} {deed : Deed}
    (hw : e.history.toList = d.history.toList ++ [deed]) (hb : e.books = d.books)
    (hm : ∀ i, deed.mentions i = false) : Calmly (Balanced n) d e :=
  ⟨⟨[deed], hw.symm⟩, fun _ hd => ⟨[deed], hw, by rw [hb]; exact .of_kept (.other hd hm) rfl⟩⟩

/-- No deed, and nothing in the books. -/
theorem calmly_still {n : Nat} {d e : Desk σ} (hw : e.history = d.history) (hb : e.books = d.books) :
    Calmly (Balanced n) d e :=
  ⟨by simp only [Grows, hw, List.prefix_rfl], fun _ hd =>
    ⟨[], by simp [hw], by rw [hb]; exact .of_kept (.refl hd) rfl⟩⟩

end Desk

namespace Act

open Desk (Calmly Balanced Calm Grows)

variable {n : Nat} {h : Host σ} (hc : ∀ c d, Calmly (Balanced n) d (h.answer c d).2)

include hc

/-! ## Events and mutations -/

theorem emit_balanced (event : Event) : Within (Calmly (Balanced n)) h (emit event) := by
  have hR := Calmly.path (σ := σ) (Balanced.path n)
  have hcall := call_within hR (fun d c => Desk.calmly_other (d.toList_enter _) rfl fun _ => rfl)
    (fun d c => Desk.calmly_other (d.toList_enter _) rfl fun _ => rfl) hc
  have hdeliver := deliver_within hR hcall fun _ _ => Desk.calmly_still rfl rfl
  exact fun d => emit_within hR hdeliver (Desk.calmly_other (d.toList_enter _) rfl fun _ => rfl)

/-- A mutation is made with the share of an open session. -/
theorem mutateIn_balanced (s : Scope) {f : Document → Act σ (α × Document)}
    (hf : ∀ document, Within (Calmly (Balanced n)) h (f document)) :
    Within (Calmly (Balanced n)) h (mutateIn s f) := by
  have hR := Calmly.path (σ := σ) (Balanced.path n)
  intro d
  cases hs : (d.coordinator s.coordinator).session with
  | idle =>
    obtain ⟨message, hrun⟩ := scopeShare_idle (h := h) hs
    rw [mutateIn, bind_interrupted hrun]
    exact hR.refl d
  | active inner share =>
    rw [mutateIn, bind_run (scopeShare_run hs)]
    rw [← Desk.session_books] at hs
    refine mutate_within hR (fun document m htake => ?_)
      (fun d _ => Desk.calmly_other (d.toList_enter _) rfl fun _ => rfl)
      (fun d => Desk.calmly_other (d.toList_enter _) rfl fun _ => rfl) (emit_balanced hc _) hf
    obtain ⟨-, -, -, rfl⟩ := Model.takeDocument_ok htake
    exact ⟨d.grows_accepted .., fun _ hd => ⟨_, d.toList_accepted .., .of_kept (.mutate hd hs) rfl⟩⟩

/-! ## Shares and brackets -/

omit hc in
theorem acquire_edit_cases (d : Desk σ) :
    (∃ e, acquire .edit h d = (.returned (.error e), d)) ∨
    ∃ m, acquire .edit h d = (.returned (.ok ⟨d.books.next, .edit⟩),
        d.accepted ⟨d.books.next, .edit⟩ (.acquire .edit) m) ∧
      (d.accepted ⟨d.books.next, .edit⟩ (.acquire .edit) m).books = d.books.take .edit := by
  cases heq : d.model.acquire .edit with
  | error e => exact .inl ⟨e, acquire_refused heq⟩
  | ok taken =>
    obtain ⟨s, m⟩ := taken
    have hrun := acquire_run (h := h) heq
    obtain ⟨-, rfl, rfl⟩ := Model.acquire_ok heq
    exact .inr ⟨_, hrun, rfl⟩

omit hc in
/-- A live share goes back. -/
theorem release_live {d : Desk σ} (hd : d.books.Sound n) {s : Share} (hs : s ∈ d.books.live) :
    ∃ m, release s h d = (.returned (), d.accepted s (.release s.access) m) ∧
      (d.accepted s (.release s.access) m).books = d.books.giveBack s.id := by
  have haccess := (Desk.numbered_of_sound hd).accessOf? hs
  exact ⟨_, release_run (by simp only [Model.release?, haccess, Option.map_some]; rfl), rfl⟩

/-- When a bracket opens, what follows is its announcement at most. -/
theorem openBracket_balanced {d : Desk σ} {s : Share} {m : Model} (hopen : d.model.openBracket s = .ok m) :
    Calmly (Balanced n) (d.accepted s .aboutToChange m) (openBracket s h d).2 := by
  have hR := Calmly.path (σ := σ) (Balanced.path n)
  simp only [openBracket, look_bind, hopen, accept_bind]
  by_cases hfirst : m.changing = 1
  · simp only [hfirst, if_true]
    exact Within.bind_at hR (emit_balanced hc _ _) fun _ => Within.pure hR _
  · simp only [hfirst, if_false]
    exact hR.refl _

/-- When a bracket closes, what follows is its announcement at most. -/
theorem closeBracket_balanced {d : Desk σ} {s : Share} {m : Model} (hclose : d.model.closeBracket s = .ok m) :
    Calmly (Balanced n) (d.accepted s .changed m) (closeBracket s h d).2 := by
  have hR := Calmly.path (σ := σ) (Balanced.path n)
  simp only [closeBracket, look_bind, hclose, accept_bind]
  by_cases hlast : m.changing = 0
  · simp only [hlast, if_true]
    exact emit_balanced hc _ _
  · simp only [hlast, if_false]
    exact hR.refl _

end Act

/-! ## Opening and leaving sessions -/

namespace Desk

/-- The deeds `w` lead from one desk to another and keep the books, and leave every session but that of
one coordinator settled. -/
structure Near (n : Nat) (c : CoordinatorId) (d : Desk σ) (w : List Deed) (e : Desk σ) : Prop where
  deeds : e.history.toList = d.history.toList ++ w
  kept : Books.Kept n d.books w e.books
  others : ∀ c', c' ≠ c → Books.Settled c' d.books w e.books

theorem Near.trans {n : Nat} {c : CoordinatorId} {d e f : Desk σ} {w v : List Deed} (h : Near n c d w e)
    (h' : Near n c e v f) : Near n c d (w ++ v) f where
  deeds := by rw [h'.deeds, h.deeds, List.append_assoc]
  kept := h.kept.trans h'.kept
  others c' hne := (h.others c' hne).trans (h'.others c' hne)

end Desk

namespace Act

open Desk (Calmly Balanced Calm Grows Near)

variable {n : Nat} {h : Host σ} (hc : ∀ c d, Calmly (Balanced n) d (h.answer c d).2) {c : CoordinatorId}

include hc

/-- What the opening of a session comes to: the coordinator stays idle, or is in its outermost session. -/
def Opening (c : CoordinatorId) (r : Outcome (Except SessionError Unit) × Desk σ) : Prop :=
  (∃ e, r.1 = .returned (.error e) ∧ r.2.books.session c = .idle) ∨
    (r.1 = .returned (.ok ()) ∧ ∃ s, r.2.books.session c = .active 0 s)

section

variable {d d₁ : Desk σ} (hd : d.books.Sound n) (hidle : d.books.session c = .idle)
  (hdeeds : d₁.history.toList =
    d.history.toList ++ [.call d.books.next (.acquire .edit), .starting c d.books.next])
  (hbooks : d₁.books = d.books.take .edit)

include hd hidle hdeeds hbooks

omit hc in
/-- The share goes back when its bracket does not open. -/
theorem startWith_refused_near {e : ModelError}
    (heq : d₁.model.openBracket ⟨d.books.next, .edit⟩ = .error e) :
    ∃ w, Near n c d w (startWith c ⟨d.books.next, .edit⟩ h d₁).2 ∧
      Opening c (startWith c ⟨d.books.next, .edit⟩ h d₁) := by
  have hlive : ⟨d.books.next, .edit⟩ ∈ d₁.books.live := hbooks ▸ List.mem_cons_self
  obtain ⟨m, hrelease, hafter⟩ := release_live (h := h) (hbooks ▸ hd.take .edit) hlive
  have hrun : startWith c ⟨d.books.next, .edit⟩ h d₁ = (.returned (.error (.modelUnavailable e)), _) :=
    (bind_run (onInterrupt_run (openBracket_refused heq))).trans (bind_run hrelease)
  have hkept := Books.Kept.visit hd [.starting c d.books.next] (.other rfl (.giveUp (.nil _))) fun i _ e he => by
    rw [List.mem_singleton.1 he]
    rfl
  rw [hbooks] at hafter
  rw [← hafter] at hkept
  rw [hrun]
  refine ⟨_, ⟨?_, hkept, fun c' _ => .of_eq ?_⟩, .inl ⟨_, rfl, ?_⟩⟩
  · rw [d₁.toList_accepted, hdeeds, List.append_assoc]
    rfl
  · rw [hafter]
    rfl
  · rw [hafter]
    exact hidle

/-- The coordinator takes the share over once its bracket has opened. -/
theorem startWith_opened_near (hcn : c < n) {m : Model}
    (heq : d₁.model.openBracket ⟨d.books.next, .edit⟩ = .ok m)
    (hcalm : Calm d₁ (startWith c ⟨d.books.next, .edit⟩ h d₁).2) :
    ∃ w, Near n c d w (startWith c ⟨d.books.next, .edit⟩ h d₁).2 ∧
      Opening c (startWith c ⟨d.books.next, .edit⟩ h d₁) := by
  obtain ⟨opened, d₂, hopened, hrest, hcalm₂, -⟩ :=
    ((openBracket_returns (fun c d => (hc c d).1) _).onInterrupt (release_returns _)).peel hcalm
      fun opened d₂ _ => by
        cases opened with
        | error e => exact ((release_returns _).bind fun _ => Returns.pure _).grows d₂
        | ok _ => exact d₂.grows_enter _
  have hbracket := onInterrupt_returned hopened
  obtain rfl := openBracket_answer heq hbracket
  have hrun : startWith c ⟨d.books.next, .edit⟩ h d₁ = (.returned (.ok ()), _) := hrest
  have hran := openBracket_balanced hc heq
  rw [hbracket] at hran
  have hopen : (d₁.accepted ⟨d.books.next, .edit⟩ .aboutToChange m).books = d.books.bracket := by
    obtain ⟨-, -, rfl⟩ := Model.openBracket_ok heq
    have hchanging : d₁.books.changing = d.books.changing := by rw [hbooks]; rfl
    simp only [Books.bracket, ← hbooks, ← hchanging]
    rfl
  have hsplit := hcalm₂.split (d₁.grows_accepted ⟨d.books.next, .edit⟩ .aboutToChange m) hran.1
  obtain ⟨w, hw, hbalanced⟩ := hran.2 hsplit.2 (hopen ▸ hd.bracket)
  rw [hopen] at hbalanced
  -- What clients open while they are told of the bracket they leave again.
  have hstill : d₂.books.session c = .idle := by
    have hlower := (hbalanced.settled c).lower
    change (d.books.session c).Lower _ at hlower
    rw [hidle] at hlower
    exact hlower.of_idle
  have hkept := Books.Kept.start hd hcn hbalanced.toKept hstill
  have hafter : ((d₂.withSession c (.opened ⟨d.books.next, .edit⟩)).enter (.opened c d.books.next)).books =
    d₂.books.withSession c (.opened ⟨d.books.next, .edit⟩) := d₂.books_withSession c _
  rw [← hafter] at hkept
  rw [hrun]
  refine ⟨_, ⟨?_, hkept, fun c' hne => ?_⟩, .inr ⟨rfl, ?_⟩⟩
  · rw [Desk.toList_enter]
    change d₂.history.toList ++ _ = _
    rw [hw, d₁.toList_accepted, hdeeds]
    simp
  · refine (hbalanced.settled c').wider rfl ?_ fun e he => ?_
    · rw [hafter, Books.session_withSession_of_ne hne]
    · exact List.mem_cons_of_mem _ <| List.mem_cons_of_mem _ <| List.mem_cons_of_mem _ <|
        List.mem_append_left _ he
  · refine ⟨⟨d.books.next, .edit⟩, ?_⟩
    rw [hafter, Books.session_withSession_self (by rw [hbalanced.sound.size]; exact hcn)]
    rfl

theorem startWith_near (hcn : c < n) (hcalm : Calm d₁ (startWith c ⟨d.books.next, .edit⟩ h d₁).2) :
    ∃ w, Near n c d w (startWith c ⟨d.books.next, .edit⟩ h d₁).2 ∧
      Opening c (startWith c ⟨d.books.next, .edit⟩ h d₁) := by
  cases heq : d₁.model.openBracket ⟨d.books.next, .edit⟩ with
  | error e => exact startWith_refused_near hd hidle hdeeds hbooks heq
  | ok m => exact startWith_opened_near hc hd hidle hdeeds hbooks hcn heq hcalm

end

theorem startSession_near (hcn : c < n) {d : Desk σ} (hd : d.books.Sound n)
    (hidle : d.books.session c = .idle) (hcalm : Calm d (startSession c h d).2) :
    ∃ w, Near n c d w (startSession c h d).2 ∧ Opening c (startSession c h d) := by
  rcases acquire_edit_cases (h := h) d with ⟨e, hacquire⟩ | ⟨m, hacquire, hbooks⟩
  · rw [startSession, bind_run hacquire]
    exact ⟨[], ⟨by simp, .refl hd, fun _ _ => .of_eq rfl⟩, .inl ⟨_, rfl, hidle⟩⟩
  · have hrun : startSession c h d = startWith c ⟨d.books.next, .edit⟩ h
        ((d.accepted ⟨d.books.next, .edit⟩ (.acquire .edit) m).enter (.starting c d.books.next)) :=
      bind_run hacquire
    rw [hrun] at hcalm ⊢
    have hg := (startWith_returns (fun c d => (hc c d).1) c ⟨d.books.next, .edit⟩).grows
      ((d.accepted ⟨d.books.next, .edit⟩ (.acquire .edit) m).enter (.starting c d.books.next))
    have hdeeds : ((d.accepted ⟨d.books.next, .edit⟩ (.acquire .edit) m).enter
        (.starting c d.books.next)).history.toList =
        d.history.toList ++ [.call d.books.next (.acquire .edit), .starting c d.books.next] := by
      rw [Desk.toList_enter, Desk.toList_accepted, List.append_assoc]
      rfl
    exact startWith_near hc hd hidle hdeeds hbooks hcn (hcalm.split ⟨_, hdeeds.symm⟩ hg).2

/-- The state of a coordinator's session when a session has been entered. -/
inductive Entered (c : CoordinatorId) (w : List Deed) : Sessions → Sessions → Prop
  | outermost (s) : Entered c w .idle (.active 0 s)
  | nested {inner s} : .entered c (inner + 2) ∈ w →
      Entered c w (.active inner s) (.active (min (inner + 1) (maxDepth - 1)) s)

theorem openSession_near (hcn : c < n) {d : Desk σ} (hd : d.books.Sound n)
    (hcalm : Calm d (openSession c h d).2) :
    ∃ w, Near n c d w (openSession c h d).2 ∧
      ((∃ e, (openSession c h d).1 = .returned (.error e) ∧ d.books.session c = .idle ∧
          (openSession c h d).2.books.session c = .idle) ∨
        ((openSession c h d).1 = .returned (.ok ()) ∧
          Entered c w (d.books.session c) ((openSession c h d).2.books.session c))) := by
  have hsession := d.session_books c
  cases hs : (d.coordinator c).session with
  | idle =>
    rw [hs] at hsession
    rw [openSession_idle hs] at hcalm ⊢
    obtain ⟨w, hnear, ⟨e, he, hidle⟩ | ⟨hok, s, hactive⟩⟩ := startSession_near hc hcn hd hsession hcalm
    · exact ⟨w, hnear, .inl ⟨e, he, hsession, hidle⟩⟩
    · exact ⟨w, hnear, .inr ⟨hok, by rw [hsession, hactive]; exact .outermost s⟩⟩
  | active inner s =>
    rw [hs] at hsession
    have hkept := (Books.Kept.other (e := .entered c (inner + 2)) hd fun _ => rfl).trans
      (Books.Kept.nest hd (min (inner + 1) (maxDepth - 1)) hsession)
    have hlt := Books.lt_of_session hsession
    rw [openSession_nested hs]
    refine ⟨_, ⟨d.toList_enter _, by rw [Desk.books_withSession]; exact hkept, fun c' hne => .of_eq ?_⟩,
      .inr ⟨rfl, ?_⟩⟩
    · rw [Desk.books_withSession]
      exact Books.session_withSession_of_ne hne
    · rw [Desk.books_withSession, Desk.books_enter, Books.session_withSession_self hlt, hsession]
      exact .nested (by simp)

/-- The outermost session closes: its coordinator is idle from before the bracket closes. -/
theorem closeSession_near {d : Desk σ} {s : Share} (hd : d.books.Sound n)
    (hsession : d.books.session c = .active 0 s)
    (hcalm : Calm d (ensure (closeBracket s) (release s) h (d.withSession c .idle)).2) :
    ∃ w, Near n c d w (ensure (closeBracket s) (release s) h (d.withSession c .idle)).2 ∧
      (ensure (closeBracket s) (release s) h (d.withSession c .idle)).2.books.session c = .idle := by
  have hclosed := (closeBracket_returns (fun c d => (hc c d).1) s).noFatal
  obtain ⟨hdesk, hcalm₁, -⟩ := hclosed.ensure_desk (release_returns s).grows hcalm
  rw [hdesk]
  obtain ⟨hlive, hedit⟩ := hd.held hsession
  have haccess : (d.withSession c .idle).model.accessOf? s.id = some .edit :=
    hedit ▸ (Desk.numbered_of_sound hd).accessOf? hlive
  have hclose := Model.closeBracket_of_live haccess (hd.changing_pos hsession)
  have hran := closeBracket_balanced hc hclose
  have hopened : Books.Sound n (d.books.unbracket c) := hd.unbracket hsession
  have hbooks := Desk.books_closed hclose
  generalize (closeBracket s h (d.withSession c .idle)).2 = d₂ at hran hcalm₁
  obtain ⟨w, hw, hbalanced⟩ := hran.2 (hcalm₁.split (Desk.grows_accepted ..) hran.1).2 (hbooks ▸ hopened)
  rw [hbooks] at hbalanced
  -- The share belongs to no session any more, and clients have left it alone.
  have hloose : s ∈ d₂.books.live := ((hbalanced.loose s).2 ⟨hlive, hd.unbracket_detached hsession⟩).1
  obtain ⟨m, hrelease, hafter⟩ := release_live (h := h) hbalanced.sound hloose
  have hkept := Books.Kept.finish hd hsession hbalanced.toKept
  rw [← hafter] at hkept
  rw [hrelease]
  refine ⟨_, ⟨?_, hkept, fun c' hne => ?_⟩, ?_⟩
  · rw [Desk.toList_accepted, hw, Desk.toList_accepted, hedit]
    change d.history.toList ++ _ ++ _ ++ _ = _
    simp
  · refine (hbalanced.settled c').wider ?_ ?_ fun e he => ?_
    · exact (Books.session_withSession_of_ne hne).symm
    · rw [hafter]
      rfl
    · exact List.mem_cons_of_mem _ (List.mem_append_left _ he)
  · have hlower := (hbalanced.settled c).lower
    have hidle : (d.books.unbracket c).session c = .idle :=
      Books.session_withSession_self (Books.lt_of_session hsession)
    rw [hidle] at hlower
    rw [hafter]
    exact hlower.of_idle

theorem leaveSession_near {d : Desk σ} (hd : d.books.Sound n) (hcalm : Calm d (leaveSession c h d).2) :
    ∃ w, Near n c d w (leaveSession c h d).2 ∧
      (leaveSession c h d).2.books.session c = (d.books.session c).leave.2 := by
  have hsession := d.session_books c
  have hleft : Near n c d [.left c] (d.enter (.left c)) :=
    ⟨d.toList_enter _, .other hd fun _ => rfl, fun _ _ => .of_eq rfl⟩
  cases hs : (d.coordinator c).session with
  | idle =>
    rw [hs] at hsession
    have hbooks : ((d.enter (.left c)).withSession c .idle).books = d.books := by
      rw [Desk.books_withSession, Desk.books_enter, Books.withSession_same hsession]
    rw [leaveSession_idle hs]
    refine ⟨_, ⟨hleft.deeds, by rw [hbooks]; exact hleft.kept, fun c' _ => .of_eq (by rw [hbooks])⟩, ?_⟩
    rw [hbooks, hsession]
    rfl
  | active inner s =>
    rw [hs] at hsession
    have hlt := Books.lt_of_session hsession
    cases inner with
    | succ inner =>
      rw [leaveSession_nested hs]
      refine ⟨_, ⟨hleft.deeds, ?_, fun c' hne => .of_eq ?_⟩, ?_⟩
      · rw [Desk.books_withSession]
        exact hleft.kept.trans (.nest hd inner hsession)
      · rw [Desk.books_withSession]
        exact Books.session_withSession_of_ne hne
      · rw [Desk.books_withSession, Desk.books_enter, Books.session_withSession_self hlt, hsession]
        rfl
    | zero =>
      rw [leaveSession_outermost hs] at hcalm ⊢
      have hg := ((closeBracket_returns (fun c d => (hc c d).1) s).ensure (release_returns s)).grows
        ((d.enter (.left c)).withSession c .idle)
      obtain ⟨w, hnear, hidle⟩ := closeSession_near (d := d.enter (.left c)) hc hd hsession
        (hcalm.split (d.grows_enter _) hg).2
      exact ⟨_, hleft.trans hnear, by rw [hidle, hsession]; rfl⟩

omit hc in
/-- Leaving a session comes out no deeper than entering it went in, however low the mutation came out. -/
theorem Entered.left {w : List Deed} {s s₁ s₂ : Sessions} (hs : Entered c w s s₁) (hlower : s₁.Lower s₂) :
    s.Lower s₂.leave.2 := by
  cases hs with
  | outermost t =>
    cases hlower with
    | idle => exact .idle _
    | active hle =>
      obtain rfl := Nat.le_zero.1 hle
      exact .idle _
  | @nested inner t hmem =>
    cases hlower with
    | idle => exact .idle _
    | @active _ k _ hle =>
      cases k with
      | zero => exact .idle _
      | succ k => exact .active (by omega)

omit hc in
/-- Where the count of sessions does not stop growing, leaving undoes entering. -/
theorem Entered.left_same {w : List Deed} {s s₁ : Sessions} (hs : Entered c w s s₁) (hw : Shallow w) :
    s₁.leave.2 = s := by
  cases hs with
  | outermost t => rfl
  | @nested inner t hmem =>
    have hdepth := hw c (inner + 2) hmem
    have hmin : min (inner + 1) (maxDepth - 1) = inner + 1 := by omega
    rw [hmin]
    rfl

omit hc in
/-- Entries in the history that have to do with no share make no difference. -/
theorem balanced_between {act : Act σ α} {first last : Deed} (hact : Within (Calmly (Balanced n)) h act)
    (hfirst : ∀ i, first.mentions i = false) (hlast : ∀ i, last.mentions i = false) :
    Within (Calmly (Balanced n)) h (between first last act) :=
  .between (Calmly.path (Balanced.path n)) hact
    (fun d => Desk.calmly_other (d.toList_enter _) rfl hfirst) fun d => Desk.calmly_other (d.toList_enter _) rfl hlast

theorem edit_balanced (hcn : c < n) {mutation : Scope → Act σ (Except ε α)} (hnoFatal : NoFatal h (mutation ⟨c⟩))
    (hm : Within (Calmly (Balanced n)) h (mutation ⟨c⟩)) :
    Within (Calmly (Balanced n)) h (edit c mutation) := by
  have hg := fun c d => (hc c d).1
  have hran : Within (Calmly (Balanced n)) h (between (.runs c) (.ran c) (mutation ⟨c⟩)) :=
    balanced_between hm (fun _ => rfl) fun _ => rfl
  intro d
  refine ⟨(edit_noFatal hg c hnoFatal).grows d, fun hcalm hd => ?_⟩
  obtain ⟨e, d₁, hopen, hcalm₁, hrun⟩ | ⟨d₁, hopen, hcalm₁, hcalm₂, hcalm₃, hrun⟩ := edit_parts hg hnoFatal hcalm
  all_goals
    obtain ⟨w, hnear, hentered⟩ := openSession_near hc hcn hd (by rw [hopen]; exact hcalm₁)
    rw [hopen] at hnear hentered
    rw [hrun]
  · obtain ⟨-, -, hidle, hstill⟩ | ⟨hok, -⟩ := hentered
    · refine ⟨w, hnear.deeds, { hnear.kept with settled := fun c' => ?_ }⟩
      by_cases hcc : c' = c
      · exact .of_eq (by rw [hcc]; exact hstill.trans hidle.symm)
      · exact hnear.others c' hcc
    · cases hok
  · obtain ⟨_, he, -⟩ | ⟨-, hin⟩ := hentered
    · cases he
    obtain ⟨w₂, hw₂, hbalanced⟩ := (hran d₁).2 hcalm₂ hnear.kept.sound
    obtain ⟨w₃, hleft, hout⟩ := leaveSession_near hc hbalanced.sound hcalm₃
    have hinner : Near n c d₁ w₂ _ := ⟨hw₂, hbalanced.toKept, fun c' _ => hbalanced.settled c'⟩
    have hall := (hnear.trans hinner).trans hleft
    refine ⟨_, hall.deeds, { hall.kept with settled := fun c' => ?_ }⟩
    by_cases hcc : c' = c
    · subst hcc
      refine ⟨by rw [hout]; exact hin.left (hbalanced.settled c').lower, fun hshallow => ?_⟩
      have hsame := (hbalanced.settled c').same (hshallow.of_subset (by simp))
      rw [hout, hsame]
      exact hin.left_same (hshallow.of_subset (by simp))
    · exact hall.others c' hcc

/-! ## Undoable edits -/

omit hc in
/-- What is done with a share between taking it and giving it back: nothing, or a begin or an end of a
recording. -/
theorem withShare_balanced {f : Share → Act σ α}
    (hf : ∀ s d, ∃ a mid, (f s h d).1 = .returned a ∧ (f s h d).2.books = d.books ∧
      (f s h d).2.history.toList = d.history.toList ++ mid ∧
      Course s.id .taken (mid ++ [.call s.id (.release .edit)]) .spent ∧
      ∀ i, i ≠ s.id → ∀ e ∈ mid, e.mentions i = false) :
    Within (Calmly (Balanced n)) h (withShare .edit f) := by
  have hreturns : ∀ s, Returns h (f s) := fun s =>
    ⟨fun d => have ⟨_, mid, _, _, hdeeds, _⟩ := hf s d; ⟨mid, hdeeds.symm⟩,
      fun d _ => have ⟨a, _, hreturned, _⟩ := hf s d; ⟨a, hreturned⟩⟩
  intro d
  refine ⟨(withShare_returns .edit hreturns).grows d, fun _ hd => ?_⟩
  rcases acquire_edit_cases (h := h) d with ⟨e, hacquire⟩ | ⟨m, hacquire, hbooks⟩
  · rw [withShare, bind_run hacquire]
    exact (Balanced.path n).refl d hd
  obtain ⟨a, mid, hreturned, hsame, hdeeds, hcourse, hothers⟩ :=
    hf ⟨d.books.next, .edit⟩ (d.accepted ⟨d.books.next, .edit⟩ (.acquire .edit) m)
  rcases hfun : f ⟨d.books.next, .edit⟩ h (d.accepted ⟨d.books.next, .edit⟩ (.acquire .edit) m) with ⟨o, d₂⟩
  rw [hfun] at hreturned hsame hdeeds
  simp only at hreturned hsame hdeeds
  subst hreturned
  rw [hbooks] at hsame
  have hsound : d₂.books.Sound n := hsame ▸ hd.take .edit
  obtain ⟨m', hrelease, hafter⟩ :=
    release_live (h := h) (s := ⟨d.books.next, .edit⟩) hsound (hsame ▸ List.mem_cons_self)
  have hrun : withShare .edit f h d = (.returned (.ok a), _) :=
    (bind_run hacquire).trans (bind_run (ensure_run hfun hrelease))
  rw [hsame] at hafter
  have hkept := Books.Kept.visit hd mid hcourse hothers
  rw [← hafter] at hkept
  rw [hrun]
  refine ⟨_, ?_, .of_kept hkept (by rw [hafter]; rfl)⟩
  rw [Desk.toList_accepted, hdeeds, Desk.toList_accepted]
  simp

omit hc in
theorem startRecording_balanced (label : Option String) :
    Within (Calmly (Balanced n)) h (startRecording c label) := by
  have hR := Calmly.path (σ := σ) (Balanced.path n)
  refine Within.bind hR (withShare_balanced fun s d => ?_) fun started => ?_
  · simp only [beginRecording, look_bind]
    cases heq : d.model.beginRecording s (.coordinator c) label with
    | error e => exact ⟨_, [], rfl, rfl, (List.append_nil _).symm, .giveUp (.nil _), by simp⟩
    | ok m =>
      obtain ⟨-, -, -, rfl⟩ := Model.beginRecording_ok heq
      exact ⟨_, _, rfl, rfl, d.toList_accepted .., .beginRecording (.recorded (.nil _)),
        fun i hi e he => by simpa [List.mem_singleton.1 he] using hi.symm⟩
  · cases started <;> exact Within.pure hR _

omit hc in
theorem finishRecording_balanced : Within (Calmly (Balanced n)) h (finishRecording c) := by
  have hR := Calmly.path (σ := σ) (Balanced.path n)
  have hnote (notice : Notice) : Within (Calmly (Balanced n)) h (note notice) :=
    fun _ => Desk.calmly_still rfl rfl
  refine Within.bind hR (Within.look hR _) fun available => Within.bind hR
    (fun d => Desk.calmly_other (d.toList_enter (.finished c available)) rfl fun _ => rfl) fun _ => ?_
  refine Within.bind hR (withShare_balanced fun s d => ?_) fun finished => ?_
  · simp only [endRecording, look_bind]
    cases heq : d.model.endRecording s (.coordinator c) with
    | error e => exact ⟨_, [], rfl, rfl, (List.append_nil _).symm, .giveUp (.nil _), by simp⟩
    | ok m =>
      obtain ⟨-, r, -, rfl⟩ := Model.endRecording_ok heq
      refine ⟨_, _, rfl, ?_, d.toList_accepted .., .endRecording (.recorded (.nil _)),
        fun i hi e he => by simpa [List.mem_singleton.1 he] using hi.symm⟩
      simp only [Model.recordingEnded]
      split <;> rfl
  · cases finished with
    | error e => exact hnote _
    | ok _ => exact Within.pure hR _

theorem undoableEdit_balanced (hcn : c < n) (label : Option String) {mutation : Scope → Act σ (Except ε α)}
    (hnoFatal : NoFatal h (mutation ⟨c⟩)) (hm : Within (Calmly (Balanced n)) h (mutation ⟨c⟩)) :
    Within (Calmly (Balanced n)) h (undoableEdit c label mutation) := by
  have hR := Calmly.path (σ := σ) (Balanced.path n)
  have hedit := edit_balanced hc hcn hnoFatal hm
  have hrun : Within (Calmly (Balanced n)) h (between (.edits c) (.edited c) (edit c mutation)) :=
    balanced_between hedit (fun _ => rfl) fun _ => rfl
  have hdepth (f : Nat → Nat) : Within (Calmly (Balanced n)) h (changeUndoDepth c f) :=
    fun d => Desk.calmly_still rfl (d.books_undoDepth c f)
  refine Within.bind hR (Within.look hR _) fun depth => ?_
  by_cases hdeep : depth > 0
  · simp only [hdeep, if_true]
    exact Within.bind hR (hdepth _) fun _ => Within.ensure hR hedit (hdepth _)
  · simp only [hdeep, if_false]
    refine Within.bind hR (Within.look hR _) fun before =>
      Within.bind hR (startRecording_balanced label) fun started => ?_
    cases started with
    | error source =>
      refine Within.bind hR (Within.look hR _) fun tag =>
        Within.bind hR (fun _ => ?_) fun _ => Within.pure hR _
      exact Desk.calmly_still rfl rfl
    | ok _ =>
      exact Within.bind hR (fun d => Desk.calmly_other (d.toList_enter _) rfl fun _ => rfl) fun _ =>
        Within.bind hR (hdepth _) fun _ => Within.ensure hR hrun <|
          Within.bind hR (hdepth _) fun _ => finishRecording_balanced

/-- Editing passes on that a calm run keeps the books and is not fatal. -/
theorem Passed.balanced : Passed n (fun a => NoFatal h a ∧ Within (Calmly (Balanced n)) h a) := by
  have hR := Calmly.path (σ := σ) (Balanced.path n)
  have hnoFatal := Passed.noFatal (fun c d => (hc c d).1) n
  exact {
    pure := fun a => ⟨hnoFatal.pure a, Within.pure hR a⟩
    bind := fun hx hf => ⟨hnoFatal.bind hx.1 fun a => (hf a).1, Within.bind hR hx.2 fun a => (hf a).2⟩
    attempt := fun hx => ⟨hnoFatal.attempt hx.1, Within.attempt hx.2⟩
    mutate := fun s _ hf =>
      ⟨hnoFatal.mutate s fun document => (hf document).1, mutateIn_balanced hc s fun document => (hf document).2⟩
    edit := fun hid hm => ⟨hnoFatal.edit hid hm.1, edit_balanced hc hid hm.1 hm.2⟩
    undoable := fun label _ hid hm =>
      ⟨hnoFatal.undoable label hid hm.1, undoableEdit_balanced hc hid label hm.1 hm.2⟩ }

omit hc in
theorem SwitchOp.balanced {a : Act σ α} (ha : SwitchOp a) : NoFatal h a ∧ Within (Calmly (Balanced n)) h a := by
  have hR := Calmly.path (σ := σ) (Balanced.path n)
  cases ha with
  | look f => exact ⟨(Returns.look f).noFatal, Within.look hR f⟩
  | interrupt message => exact ⟨NoFatal.interrupt message, Within.interrupt hR message⟩
  | own f => exact ⟨Returns.noFatal (Returns.change fun _ => rfl), fun _ => Desk.calmly_still rfl rfl⟩
  | setAvailable available =>
    have hturn : Returns h (change fun d : Desk σ => { d with model := { d.model with available } }) :=
      Returns.change fun _ => rfl
    refine ⟨((Returns.look _).bind fun _ => (Returns.did _).bind fun _ => hturn).noFatal, ?_⟩
    refine Within.bind hR (Within.look hR _) fun undoing => Within.bind hR (fun d => ?_) fun _ d => ?_
    · exact Desk.calmly_other (d.toList_enter _) rfl fun _ => rfl
    · exact Desk.calmly_still rfl rfl
  | setRecordable recordable =>
    exact ⟨Returns.noFatal (Returns.change fun _ => rfl), fun _ => Desk.calmly_still rfl rfl⟩

end Act

/-- Whatever clients do keeps the books, unless a client interrupts. -/
theorem Host.Clients.balanced {n : Nat} {h : Host σ} (hh : h.Clients n Act.SwitchOp) {a : Act σ α}
    (ha : Act.Client n Act.SwitchOp a) : a.NoFatal h ∧ a.Within (Desk.Calmly (Desk.Balanced n)) h :=
  (hh.passed (P := fun h _ a => a.NoFatal h ∧ a.Within (Desk.Calmly (Desk.Balanced n)) h)
    (Desk.Calmly.path (Desk.Balanced.path n)) (fun _ hc => ⟨.balanced hc, fun ha => ha.balanced⟩)
    fun _ _ _ => And.right).2 ha

/-- No session and no bracket is open, and the live shares are numbered. -/
structure Desk.AtRest (n : Nat) (d : Desk σ) : Prop where
  size : d.coordinators.length = n
  idle : ∀ c, (d.coordinator c).session = .idle
  closed : d.model.changing = 0
  numbered : d.model.Numbered

/-- A new desk is at rest. -/
theorem Desk.AtRest.of_new {n : Nat} {d : Desk σ} (hsize : d.coordinators.length = n)
    (hnew : ∀ x ∈ d.coordinators, x = {}) (hlive : d.model.live = []) (hchanging : d.model.changing = 0) :
    d.AtRest n where
  size := hsize
  idle c := by rw [Desk.coordinator_new hnew]
  closed := hchanging
  numbered := ⟨by simp [hlive], by simp [hlive]⟩

theorem Desk.AtRest.session_books {n : Nat} {d : Desk σ} (hd : d.AtRest n) (c : CoordinatorId) :
    d.books.session c = .idle := (Desk.session_books d c).trans (hd.idle c)

theorem Desk.AtRest.sound {n : Nat} {d : Desk σ} (hd : d.AtRest n) : d.books.Sound n := by
  have hlength : d.books.sessions.length = n := by
    rw [← hd.size]
    exact List.length_map _
  rw [← hlength]
  exact .of_idle hd.session_books hd.numbered.below hd.numbered.apart

/-- A desk at rest is at rest again when the books have been kept. -/
theorem Desk.AtRest.again {n : Nat} {d e : Desk σ} (hd : d.AtRest n) {w : List Deed}
    (hw : Books.Balanced n d.books w e.books) : e.AtRest n := by
  have hidle : ∀ c, e.books.session c = .idle := fun c => by
    have hlower := (hw.settled c).lower
    rw [hd.session_books c] at hlower
    exact hlower.of_idle
  have hcount : e.model.changing + d.books.active = d.model.changing + e.books.active := hw.changing
  rw [Books.active_of_idle hd.session_books, Books.active_of_idle hidle, hd.closed] at hcount
  refine ⟨?_, fun c => (Desk.session_books e c).symm.trans (hidle c), hcount, numbered_of_sound hw.sound⟩
  rw [← hw.sound.size]
  exact (List.length_map _).symm

/-- **Balance of edit sessions.** Let all coordinators be idle and no bracket be open, and let clients do what
they will with sessions, at any depth and with any ending. Unless one that is called interrupts, everything is
in the end as it was before; every session that opened an idle coordinator did with its share what is due in a
session, in this order, and nothing else; and the outermost brackets are announced, once as they open and once
as they close, and no other. -/
theorem Host.Clients.sessions_balance {n : Nat} {h : Host σ} (hh : h.Clients n Act.SwitchOp) {a : Act σ α}
    (ha : Act.Client n Act.SwitchOp a) {d : Desk σ} (hn : d.coordinators.length = n)
    (hidle : ∀ c, (d.coordinator c).session = .idle) (hchanging : d.model.changing = 0)
    (hnumbered : d.model.Numbered) :
    ∃ w, (a h d).2.history.toList = d.history.toList ++ w ∧
      (a h d).2.model.journal.toList = d.model.journal.toList ++ w.filterMap Deed.call? ∧
      ((∀ c, .threw c ∉ w) →
      (a h d).1 ≠ .fatal ∧
      (∀ c, ((a h d).2.coordinator c).session = .idle) ∧
      (a h d).2.model.changing = 0 ∧
      (∀ s, s ∈ (a h d).2.model.live ↔ s ∈ d.model.live) ∧
      (∀ id i, .opened id i ∈ w → ∃ k, w.filter (·.mentions i) = Deed.session id i k) ∧
      Deed.Announced 0 w 0) := by
  obtain ⟨w, hw, hjournal, hannounced⟩ := hh.announces Act.SwitchOp.announces ha d
  refine ⟨w, hw, hjournal, fun hcalm => ?_⟩
  have hrest : d.AtRest n := ⟨hn, hidle, hchanging, hnumbered⟩
  obtain ⟨w', hw', hkept⟩ := ((hh.balanced ha).2 d).2 ⟨w, hw, hcalm⟩ hrest.sound
  obtain rfl : w = w' := List.append_cancel_left (hw.symm.trans hw')
  have hafter := hrest.again hkept
  refine ⟨(hh.balanced ha).1.sound d ⟨w, hw, hcalm⟩, hafter.idle, hafter.closed, fun s => ?_,
    fun id i ho => ?_, ?_⟩
  · have hloose := hkept.loose s
    simp only [Books.Loose, Books.detached_of_idle hrest.session_books,
      Books.detached_of_idle hafter.session_books,
      and_true] at hloose
    exact hloose
  · exact hkept.session_deeds hrest.session_books hafter.session_books ho
  · rwa [hchanging, hafter.closed] at hannounced

/-- A session that is interrupted while a listener answers each announcement with a session of its own: it
is calm, and so it is balanced. -/
theorem Host.Clients.sessions_balance_interrupted :
    let append (s : Scope) : Act Unit (Except ModelError Unit) :=
      Act.mutateIn s fun document => pure ((), document ++ "x")
    let h : Host Unit := .answering do let _ ← Act.edit 1 append
    let a : Act Unit (Except ModelError (Edited Unit)) := Act.edit 0 fun s => do
      let _ ← append s
      Act.interrupt "stop"
    let d : Desk Unit :=
      { model := { document := some "", subscriptions := [⟨0, .client 0⟩] }, coordinators := [{}, {}],
        client := () }
    d.coordinators.length = 2 ∧ d.model.changing = 0 ∧
    ∃ w, (a h d).2.history.toList = d.history.toList ++ w ∧
      (a h d).2.model.journal.toList = d.model.journal.toList ++ w.filterMap Deed.call? ∧
      (a h d).1 ≠ .fatal ∧
      (∀ c, ((a h d).2.coordinator c).session = .idle) ∧
      (a h d).2.model.changing = 0 ∧
      (∀ s, s ∈ (a h d).2.model.live ↔ s ∈ d.model.live) ∧
      (∀ id i, .opened id i ∈ w → ∃ k, w.filter (·.mentions i) = Deed.session id i k) ∧
      Deed.Announced 0 w 0 := by
  intro append h a d
  have happend (s : Scope) : Act.Client 2 Act.SwitchOp (append s) := .mutate s fun _ => .pure _
  have hh : h.Clients 2 Act.SwitchOp := .answering (.bind (.edit (by decide) (happend _)) fun _ => .pure _)
  have ha : Act.Client 2 Act.SwitchOp a :=
    .edit (by decide) (.bind (happend _) fun _ => .op (.interrupt "stop"))
  have hidle : ∀ c, (d.coordinator c).session = .idle := fun c => by
    match c with
    | 0 | 1 | c + 2 => rfl
  have hcalm : ∀ e ∈ (a h d).2.history.toList, (match e with | .threw _ => false | _ => true) = true := by
    rw [← List.all_eq_true]
    decide +kernel
  obtain ⟨w, hw, hjournal, hrest⟩ := hh.sessions_balance ha rfl hidle rfl ⟨by simp [d], by simp [d]⟩
  refine ⟨rfl, rfl, w, hw, hjournal, hrest fun c hc => ?_⟩
  exact absurd (hcalm (.threw c) (hw ▸ List.mem_append_right _ hc)) Bool.false_ne_true

end FormDesk
