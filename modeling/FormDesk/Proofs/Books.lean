/-
The books of a desk: the sessions of the coordinators, the live shares, the
number of the next share and the count of open brackets. Balance is about
these alone.

Books are sound when an open session has a live edit share to itself and no
more sessions are open than brackets. `Carried k b b'` says what sound books `b`
may come to, and `Kept b w b'` what the deeds `w` may come to besides when no
bracket is left open. Both are passed on by going on, and around whatever is
carried or kept in between by a share that only visits (`visit`), by a session
that opens (`start`) and by one that closes (`finish`).
-/
import FormDesk.Proofs.Course
import FormDesk.Session.Depth

namespace FormDesk

/-- What balance is about. -/
structure Books where
  sessions : List Sessions
  live : List Share
  next : Nat
  changing : Nat

namespace Books

/-- The session of a coordinator. -/
def session (b : Books) (c : CoordinatorId) : Sessions := b.sessions[c]?.getD .idle

/-- The books with the session of a coordinator in another state. -/
def withSession (b : Books) (c : CoordinatorId) (s : Sessions) : Books :=
  { b with sessions := b.sessions.set c s }

/-- The books with the next share taken. -/
def take (b : Books) (access : Access) : Books :=
  { b with next := b.next + 1, live := ⟨b.next, access⟩ :: b.live }

/-- The books with a share given back. -/
def giveBack (b : Books) (i : Nat) : Books := { b with live := b.live.filter (·.id != i) }

/-- How many sessions are open, those inside others not counted. -/
def active (b : Books) : Nat := b.sessions.countP (·.isActive)

/-- Whether the share numbered `i` serves a session. -/
def attached (b : Books) (i : Nat) : Bool := b.sessions.any fun s => s.share?.any (·.id == i)

/-- How far a share has come, as far as the books tell. -/
def stage (b : Books) (i : Nat) : Stage :=
  if b.next ≤ i then .unused else if b.attached i then .running else .spent

/-- A live share that serves no session. -/
def Loose (b : Books) (s : Share) : Prop := s ∈ b.live ∧ b.attached s.id = false

/-- Every open session has a live edit share to itself and a bracket. -/
structure Sound (n : Nat) (b : Books) : Prop where
  size : b.sessions.length = n
  below : ∀ s ∈ b.live, s.id < b.next
  distinct : b.live.Pairwise fun s t => s.id ≠ t.id
  held : ∀ {c inner s}, b.session c = .active inner s → s ∈ b.live ∧ s.access = .edit
  apart : ∀ {c c' inner inner' s s'}, b.session c = .active inner s → b.session c' = .active inner' s' →
    s.id = s'.id → c = c'
  active_le : b.active ≤ b.changing

/-! ## Sessions -/

variable {b b' b'' : Books} {c c' : CoordinatorId} {s t : Share} {n i inner : Nat} {x : Sessions}
  {w v : List Deed}

theorem session_withSession_self (h : c < b.sessions.length) : (b.withSession c x).session c = x := by
  simp [session, withSession, h]

theorem session_withSession_of_ne (h : c' ≠ c) : (b.withSession c x).session c' = b.session c' := by
  simp [session, withSession, List.getElem?_set_ne h.symm]

theorem withSession_same (h : b.session c = x) : b.withSession c x = b := by
  have hset : b.sessions.set c x = b.sessions := by
    refine List.ext_getElem? fun i => ?_
    rw [List.getElem?_set]
    split
    · next hi =>
      subst hi
      split
      · next hlt =>
        rw [session, List.getElem?_eq_getElem hlt] at h
        rw [List.getElem?_eq_getElem hlt, ← h]
        rfl
      · next hge => rw [List.getElem?_eq_none (Nat.le_of_not_lt hge)]
    · rfl
  rw [withSession, hset]

theorem lt_of_session (h : b.session c = .active inner s) : c < b.sessions.length := by
  refine Nat.lt_of_not_le fun hge => ?_
  rw [session, List.getElem?_eq_none hge] at h
  cases h

theorem attached_iff : b.attached i = true ↔ ∃ c inner s, b.session c = .active inner s ∧ s.id = i := by
  simp only [attached, List.any_eq_true, session]
  constructor
  · rintro ⟨x, hx, hi⟩
    obtain ⟨c, hc⟩ := List.mem_iff_getElem?.1 hx
    cases x with
    | idle => simp [Sessions.share?] at hi
    | active inner s => exact ⟨c, inner, s, by simp [hc], by simpa [Sessions.share?] using hi⟩
  · rintro ⟨c, inner, s, hc, rfl⟩
    refine ⟨.active inner s, ?_, by simp [Sessions.share?]⟩
    cases hget : b.sessions[c]? with
    | none => simp [hget] at hc
    | some x =>
      rw [hget, Option.getD_some] at hc
      exact hc ▸ List.mem_of_getElem? hget

theorem attached_congr (h : ∀ c, b'.session c = b.session c) : b'.attached i = b.attached i := by
  rw [Bool.eq_iff_iff, attached_iff, attached_iff]
  simp only [h]

theorem attached_of_session (h : b.session c = .active inner s) : b.attached s.id = true :=
  attached_iff.2 ⟨c, inner, s, h, rfl⟩

/-- Setting the session of a coordinator that is idle attaches the share and no other. -/
theorem attached_open (hc : c < b.sessions.length) (hidle : b.session c = .idle) :
    (b.withSession c (.opened s)).attached i = true ↔ i = s.id ∨ b.attached i = true := by
  simp only [attached_iff]
  constructor
  · rintro ⟨c', inner, t, ht, rfl⟩
    by_cases hcc : c' = c
    · subst hcc
      rw [session_withSession_self hc] at ht
      cases ht
      exact .inl rfl
    · rw [session_withSession_of_ne hcc] at ht
      exact .inr ⟨c', inner, t, ht, rfl⟩
  · rintro (rfl | ⟨c', inner, t, ht, rfl⟩)
    · exact ⟨c, 0, s, session_withSession_self hc, rfl⟩
    · refine ⟨c', inner, t, ?_, rfl⟩
      rw [session_withSession_of_ne, ht]
      rintro rfl
      rw [hidle] at ht
      cases ht

/-- Closing a session detaches its share and no other. -/
theorem attached_close (hb : Sound n b) (hs : b.session c = .active inner s) :
    (b.withSession c .idle).attached i = true ↔ i ≠ s.id ∧ b.attached i = true := by
  have hc := lt_of_session hs
  simp only [attached_iff]
  constructor
  · rintro ⟨c', inner', t, ht, rfl⟩
    by_cases hcc : c' = c
    · subst hcc
      rw [session_withSession_self hc] at ht
      cases ht
    · rw [session_withSession_of_ne hcc] at ht
      exact ⟨fun heq => hcc (hb.apart ht hs heq), c', inner', t, ht, rfl⟩
  · rintro ⟨hne, c', inner', t, ht, rfl⟩
    refine ⟨c', inner', t, ?_, rfl⟩
    rw [session_withSession_of_ne, ht]
    rintro rfl
    rw [hs] at ht
    cases ht
    exact hne rfl

/-- Nesting does not change which shares are attached. -/
theorem attached_nest {inner' : Nat} (hs : b.session c = .active inner s) :
    (b.withSession c (.active inner' s)).attached i = b.attached i := by
  have hc := lt_of_session hs
  rw [Bool.eq_iff_iff, attached_iff, attached_iff]
  constructor
  · rintro ⟨c', k, t, ht, rfl⟩
    by_cases hcc : c' = c
    · subst hcc
      rw [session_withSession_self hc] at ht
      cases ht
      exact ⟨c', inner, s, hs, rfl⟩
    · rw [session_withSession_of_ne hcc] at ht
      exact ⟨c', k, t, ht, rfl⟩
  · rintro ⟨c', k, t, ht, rfl⟩
    by_cases hcc : c' = c
    · subst hcc
      rw [hs] at ht
      cases ht
      exact ⟨c', inner', s, session_withSession_self hc, rfl⟩
    · exact ⟨c', k, t, by rw [session_withSession_of_ne hcc, ht], rfl⟩

theorem active_withSession (hc : c < b.sessions.length) :
    (b.withSession c x).active + (if (b.session c).isActive then 1 else 0) =
      b.active + if x.isActive then 1 else 0 := by
  have hget : b.session c = b.sessions[c] := by simp [session, hc]
  have hle := List.boole_getElem_le_countP (p := fun s : Sessions => s.isActive) hc
  simp only [active, withSession, List.countP_set hc, hget]
  omega

theorem stage_of_next_le (h : b.next ≤ i) : b.stage i = .unused := if_pos h

theorem stage_of_attached (h : i < b.next) (ha : b.attached i = true) : b.stage i = .running := by
  rw [stage, if_neg (Nat.not_le.2 h), if_pos ha]

theorem stage_of_detached (h : i < b.next) (ha : b.attached i = false) : b.stage i = .spent := by
  rw [stage, if_neg (Nat.not_le.2 h), ha]
  rfl

theorem stage_congr (hnext : b'.next ≤ i ↔ b.next ≤ i) (hattached : b'.attached i = b.attached i) :
    b'.stage i = b.stage i := by
  simp only [stage, hnext, hattached]

theorem Sound.lt_of_attached (hb : Sound n b) (h : b.attached i = true) : i < b.next := by
  obtain ⟨c, inner, s, hs, rfl⟩ := attached_iff.1 h
  exact hb.below s (hb.held hs).1

/-- The next share serves no session yet. -/
theorem Sound.next_detached (hb : Sound n b) : b.attached b.next = false := by
  cases h : b.attached b.next with
  | false => rfl
  | true => exact absurd (hb.lt_of_attached h) (Nat.lt_irrefl _)

theorem Sound.changing_pos (hb : Sound n b) (hs : b.session c = .active inner s) : 0 < b.changing := by
  have hone := active_withSession (x := .idle) (lt_of_session hs)
  rw [hs] at hone
  have := hb.active_le
  simp only [Sessions.isActive, if_true, Bool.false_eq_true, if_false] at hone
  omega

/-! ## What books and deeds may come to -/

/-- The books are carried on to others: no loose share appears or goes, and brackets stay in step with
sessions, but for `k` brackets that are left open. -/
structure Carried (n k : Nat) (b b' : Books) : Prop where
  sound : Sound n b'
  next : b.next ≤ b'.next
  loose : ∀ s, b'.Loose s ↔ b.Loose s
  changing : b'.changing + b.active = b.changing + b'.active + k

theorem Carried.refl (hb : Sound n b) : Carried n 0 b b := ⟨hb, Nat.le_refl _, fun _ => Iff.rfl, rfl⟩

theorem Carried.trans {k k' : Nat} (h : Carried n k b b') (h' : Carried n k' b' b'') :
    Carried n (k + k') b b'' where
  sound := h'.sound
  next := Nat.le_trans h.next h'.next
  loose s := (h'.loose s).trans (h.loose s)
  changing := by
    have := h.changing
    have := h'.changing
    omega

/-- The deeds keep the books: these are carried on with no bracket left open, and every share follows its
course. -/
structure Kept (n : Nat) (b : Books) (w : List Deed) (b' : Books) : Prop extends Carried n 0 b b' where
  course : ∀ i, Course i (b.stage i) w (b'.stage i)

theorem Kept.refl (hb : Sound n b) : Kept n b [] b := ⟨.refl hb, fun _ => .nil _⟩

theorem Kept.trans (h : Kept n b w b') (h' : Kept n b' v b'') : Kept n b (w ++ v) b'' :=
  ⟨h.toCarried.trans h'.toCarried, fun i => (h.course i).append (h'.course i)⟩

/-- A deed that has to do with no share. -/
theorem Kept.other {e : Deed} (hb : Sound n b) (he : ∀ i, e.mentions i = false) : Kept n b [e] b :=
  { Kept.refl hb with course := fun i => .other (he i) (.nil _) }

/-- A mutation in a session. -/
theorem Kept.mutate (hb : Sound n b) (hs : b.session c = .active inner s) :
    Kept n b [.call s.id .mutate] b :=
  { Kept.refl hb with
    course := fun i => by
      by_cases hi : s.id = i
      · subst hi
        rw [stage_of_attached (hb.below s (hb.held hs).1) (attached_of_session hs)]
        exact .mutate (.nil _)
      · exact .other (by simpa using hi) (.nil _) }

/-- Another number of nested sessions. -/
theorem Carried.nest (hb : Sound n b) (inner' : Nat) (hs : b.session c = .active inner s) :
    Carried n 0 b (b.withSession c (.active inner' s)) := by
  have hc := lt_of_session hs
  have hactive := active_withSession (x := .active inner' s) hc
  rw [hs] at hactive
  simp only [Sessions.isActive, if_true, Nat.add_right_cancel_iff] at hactive
  have hsession : ∀ {c' k t}, (b.withSession c (.active inner' s)).session c' = .active k t →
      ∃ k', b.session c' = .active k' t := by
    intro c' k t ht
    by_cases hcc : c' = c
    · subst hcc
      rw [session_withSession_self hc] at ht
      cases ht
      exact ⟨inner, hs⟩
    · rw [session_withSession_of_ne hcc] at ht
      exact ⟨k, ht⟩
  refine ⟨⟨?_, hb.below, hb.distinct, ?_, ?_, ?_⟩, Nat.le_refl _, fun t => ?_, ?_⟩
  · simpa [withSession] using hb.size
  · intro c' k t ht
    obtain ⟨k', hk⟩ := hsession ht
    exact hb.held hk
  · intro c₁ c₂ k₁ k₂ t₁ t₂ h₁ h₂ heq
    obtain ⟨_, h₁⟩ := hsession h₁
    obtain ⟨_, h₂⟩ := hsession h₂
    exact hb.apart h₁ h₂ heq
  · exact hactive ▸ hb.active_le
  · simp only [Loose, attached_nest hs]
    rfl
  · rw [hactive]
    rfl

theorem Kept.nest (hb : Sound n b) (inner' : Nat) (hs : b.session c = .active inner s) :
    Kept n b [] (b.withSession c (.active inner' s)) where
  toCarried := .nest hb inner' hs
  course i := by
    simp only [stage, attached_nest hs]
    exact .nil _

/-! ## Shares that come and go -/

theorem Sound.take (hb : Sound n b) (access : Access) : Sound n (b.take access) := by
  refine ⟨hb.size, ?_, ?_, ?_, hb.apart, hb.active_le⟩
  · intro t ht
    rcases List.mem_cons.1 ht with rfl | ht
    · exact Nat.lt_succ_self _
    · exact Nat.lt_succ_of_lt (hb.below t ht)
  · exact List.pairwise_cons.2 ⟨fun t ht => Nat.ne_of_gt (hb.below t ht), hb.distinct⟩
  · intro c k t ht
    exact ⟨List.mem_cons_of_mem _ (hb.held ht).1, (hb.held ht).2⟩

theorem loose_take {access : Access} :
    (b.take access).Loose t ↔ (t = ⟨b.next, access⟩ ∨ t ∈ b.live) ∧ b.attached t.id = false := by
  rw [Loose, take, List.mem_cons]
  rfl

theorem loose_giveBack : (b.giveBack i).Loose t ↔ b.Loose t ∧ t.id ≠ i := by
  simp only [Loose, giveBack, List.mem_filter, bne_iff_ne, ne_eq]
  exact ⟨fun ⟨⟨h₁, h₂⟩, h₃⟩ => ⟨⟨h₁, h₃⟩, h₂⟩, fun ⟨⟨h₁, h₃⟩, h₂⟩ => ⟨⟨h₁, h₂⟩, h₃⟩⟩

/-- A share that was just taken is loose. -/
theorem Sound.loose_next (hb : Sound n b) (access : Access) : (b.take access).Loose ⟨b.next, access⟩ :=
  loose_take.2 ⟨.inl rfl, hb.next_detached⟩

/-- Of the shares that are loose after the next one was taken, all others were loose before. -/
theorem Sound.loose_before (hb : Sound n b) {access : Access} :
    (b.take access).Loose t ∧ t.id ≠ b.next ↔ b.Loose t := by
  rw [loose_take, Loose]
  constructor
  · rintro ⟨⟨rfl | ht, hdetached⟩, hne⟩
    · exact absurd rfl hne
    · exact ⟨ht, hdetached⟩
  · rintro ⟨ht, hdetached⟩
    exact ⟨⟨.inr ht, hdetached⟩, Nat.ne_of_lt (hb.below t ht)⟩

/-- Giving back a share that serves no session. -/
theorem Sound.giveBack (hb : Sound n b) (hi : b.attached i = false) : Sound n (b.giveBack i) := by
  refine ⟨hb.size, fun t ht => hb.below t (List.mem_filter.1 ht).1, hb.distinct.filter _, ?_, hb.apart,
    hb.active_le⟩
  intro c k t ht
  obtain ⟨hlive, hedit⟩ := hb.held ht
  refine ⟨List.mem_filter.2 ⟨hlive, ?_⟩, hedit⟩
  simp only [bne_iff_ne]
  rintro rfl
  have hattached : b.attached t.id = true := attached_of_session ht
  rw [hi] at hattached
  cases hattached

/-- A share is taken and given back, and whatever is carried on in between. -/
theorem Carried.visit {k : Nat} {access : Access} (hb : Sound n b) (hw : Carried n k (b.take access) b') :
    Carried n k b (b'.giveBack b.next) where
  sound := hw.sound.giveBack ((hw.loose _).2 (hb.loose_next access)).2
  next := Nat.le_of_lt hw.next
  loose t := by rw [loose_giveBack, hw.loose, hb.loose_before]
  changing := hw.changing

/-- A share that is taken and given back, with at most a recording in between. -/
theorem Kept.visit (hb : Sound n b) (mid : List Deed)
    (hmid : Course b.next .taken (mid ++ [.call b.next (.release .edit)]) .spent)
    (hothers : ∀ i, i ≠ b.next → ∀ e ∈ mid, e.mentions i = false) :
    Kept n b (.call b.next (.acquire .edit) :: (mid ++ [.call b.next (.release .edit)]))
      ((b.take .edit).giveBack b.next) := by
  have hnext : (b.take .edit).attached b.next = false := hb.next_detached
  refine ⟨.visit hb (.refl (hb.take .edit)), fun i => ?_⟩
  by_cases hi : i = b.next
  · subst hi
    have hspent : ((b.take .edit).giveBack b.next).stage b.next = .spent :=
      stage_of_detached (Nat.lt_succ_self _) hnext
    rw [stage_of_next_le (b := b) (Nat.le_refl _), hspent]
    exact .acquire hmid
  · have hiff : b.next + 1 ≤ i ↔ b.next ≤ i := by omega
    have hstage : ((b.take .edit).giveBack b.next).stage i = b.stage i := stage_congr hiff rfl
    rw [hstage]
    refine Course.of_unmentioned (fun e he => ?_) _
    rcases List.mem_cons.1 he with rfl | he
    · simpa using Ne.symm hi
    · rcases List.mem_append.1 he with he | he
      · exact hothers i hi e he
      · rw [List.mem_singleton.1 he]
        simpa using Ne.symm hi

/-! ## Sessions that open and close -/

/-- The books when the share of a new session has opened its bracket. -/
def bracket (b : Books) : Books := { b.take .edit with changing := b.changing + 1 }

theorem Sound.bracket (hb : Sound n b) : Sound n b.bracket :=
  { hb.take .edit with active_le := Nat.le_succ_of_le hb.active_le }

theorem active_opened (hc : c < b.sessions.length) (hidle : b.session c = .idle) :
    (b.withSession c (.opened s)).active = b.active + 1 := by
  have hactive := active_withSession (x := .opened s) hc
  rw [hidle] at hactive
  exact hactive

/-- A loose share may be taken over by an idle coordinator, if there is a bracket for its session. -/
theorem Sound.opened (hb : Sound n b) (hc : c < n) (hidle : b.session c = .idle) (hs : b.Loose s)
    (hedit : s.access = .edit) (hbracket : b.active < b.changing) : Sound n (b.withSession c (.opened s)) := by
  have hc' : c < b.sessions.length := by rw [hb.size]; exact hc
  have hsession : ∀ {c' k t}, (b.withSession c (.opened s)).session c' = .active k t →
      (c' = c ∧ t = s) ∨ (c' ≠ c ∧ b.session c' = .active k t) := by
    intro c' k t ht
    by_cases hcc : c' = c
    · subst hcc
      rw [session_withSession_self hc'] at ht
      cases ht
      exact .inl ⟨rfl, rfl⟩
    · rw [session_withSession_of_ne hcc] at ht
      exact .inr ⟨hcc, ht⟩
  have hfresh : ∀ {c' k t}, b.session c' = .active k t → t.id ≠ s.id := by
    intro c' k t ht heq
    have hdetached := hs.2
    rw [← heq, attached_of_session ht] at hdetached
    cases hdetached
  refine ⟨?_, hb.below, hb.distinct, ?_, ?_, ?_⟩
  · simpa [withSession] using hb.size
  · intro c' k t ht
    rcases hsession ht with ⟨rfl, rfl⟩ | ⟨-, ht⟩
    · exact ⟨hs.1, hedit⟩
    · exact hb.held ht
  · intro c₁ c₂ k₁ k₂ t₁ t₂ h₁ h₂ heq
    rcases hsession h₁ with ⟨hc₁, ht₁⟩ | ⟨-, h₁⟩ <;> rcases hsession h₂ with ⟨hc₂, ht₂⟩ | ⟨-, h₂⟩
    · rw [hc₁, hc₂]
    · exact absurd (by rw [← heq, ht₁]) (hfresh h₂)
    · exact absurd (by rw [heq, ht₂]) (hfresh h₁)
    · exact hb.apart h₁ h₂ heq
  · rw [active_opened hc' hidle]
    exact hbracket

theorem loose_opened (hc : c < b.sessions.length) (hidle : b.session c = .idle) :
    (b.withSession c (.opened s)).Loose t ↔ b.Loose t ∧ t.id ≠ s.id := by
  simp only [Loose, Bool.eq_false_iff, ne_eq, attached_open hc hidle, not_or]
  exact ⟨fun ⟨h₁, h₂, h₃⟩ => ⟨⟨h₁, h₃⟩, h₂⟩, fun ⟨⟨h₁, h₃⟩, h₂⟩ => ⟨h₁, h₂, h₃⟩⟩

/-- A session opens: its share is taken and opens the bracket; whatever is carried on may be done before the
coordinator takes the share over. -/
theorem Carried.start {k : Nat} (hb : Sound n b) (hc : c < n) (hw : Carried n k b.bracket b')
    (hidle : b'.session c = .idle) : Carried n k b (b'.withSession c (.opened ⟨b.next, .edit⟩)) := by
  have hc' : c < b'.sessions.length := by rw [hw.sound.size]; exact hc
  have hloose : b'.Loose ⟨b.next, .edit⟩ := (hw.loose _).2 (hb.loose_next .edit)
  have hactive := active_opened (s := ⟨b.next, .edit⟩) hc' hidle
  have hchanging : b'.changing + b.active = b.changing + 1 + b'.active + k := hw.changing
  have hle := hb.active_le
  refine ⟨hw.sound.opened hc hidle hloose rfl (by omega), Nat.le_of_lt hw.next, fun t => ?_, ?_⟩
  · rw [loose_opened hc' hidle, hw.loose]
    exact hb.loose_before
  · rw [hactive]
    change b'.changing + _ = _
    omega

/-- A session does not open although its share has opened a bracket: the share goes back, and the bracket is
left open. -/
theorem Carried.broken {k : Nat} (hb : Sound n b) (hw : Carried n k b.bracket b') :
    Carried n (k + 1) b (b'.giveBack b.next) where
  sound := hw.sound.giveBack ((hw.loose _).2 (hb.loose_next .edit)).2
  next := Nat.le_of_lt hw.next
  loose t := by
    rw [loose_giveBack, hw.loose]
    exact hb.loose_before
  changing := by
    have hchanging : b'.changing + b.active = b.changing + 1 + b'.active + k := hw.changing
    change b'.changing + b.active = b.changing + b'.active + (k + 1)
    omega

theorem Kept.start (hb : Sound n b) (hc : c < n) (hw : Kept n b.bracket w b') (hidle : b'.session c = .idle) :
    Kept n b (.call b.next (.acquire .edit) :: .starting c b.next :: .call b.next .aboutToChange ::
        (w ++ [.opened c b.next]))
      (b'.withSession c (.opened ⟨b.next, .edit⟩)) := by
  have hc' : c < b'.sessions.length := by rw [hw.sound.size]; exact hc
  have hattached {i} := attached_open (i := i) (s := ⟨b.next, .edit⟩) hc' hidle
  have hnext : b.next < b'.next := hw.next
  refine ⟨.start hb hc hw.toCarried hidle, fun i => ?_⟩
  by_cases hi : i = b.next
  · subst hi
    have hcourse := hw.course b.next
    have hspent : b.bracket.stage b.next = .spent :=
      stage_of_detached (Nat.lt_succ_self _) hb.next_detached
    have hrunning : (b'.withSession c (.opened ⟨b.next, .edit⟩)).stage b.next = .running :=
      stage_of_attached hnext (hattached.2 (.inl rfl))
    rw [hspent] at hcourse
    rw [stage_of_next_le (b := b) (Nat.le_refl _), hrunning]
    exact .acquire (.other rfl <| .aboutToChange ((hcourse.untouched _).append (.opened (.nil _))))
  · have hiff : b.next + 1 ≤ i ↔ b.next ≤ i := by omega
    have hbefore : b.bracket.stage i = b.stage i := stage_congr hiff rfl
    have hafter : (b'.withSession c (.opened ⟨b.next, .edit⟩)).stage i = b'.stage i := by
      refine stage_congr Iff.rfl ?_
      rw [Bool.eq_iff_iff, hattached]
      simp [hi]
    rw [hafter, ← hbefore]
    have hne : (b.next == i) = false := by simpa using Ne.symm hi
    exact .other hne (.other rfl <| .other hne ((hw.course i).append (.other hne (.nil _))))

/-- The books when a session has closed its bracket. -/
def unbracket (b : Books) (c : CoordinatorId) : Books :=
  { b.withSession c .idle with changing := b.changing - 1 }

theorem active_unbracket (hs : b.session c = .active inner s) : (b.unbracket c).active + 1 = b.active := by
  have hactive := active_withSession (x := .idle) (lt_of_session hs)
  rw [hs] at hactive
  simp only [Sessions.isActive, if_true, Bool.false_eq_true, if_false] at hactive
  exact hactive

theorem Sound.unbracket (hb : Sound n b) (hs : b.session c = .active inner s) : Sound n (b.unbracket c) := by
  have hactive := active_unbracket hs
  have hle := hb.active_le
  have hsession : ∀ {c' k t}, (b.unbracket c).session c' = .active k t → b.session c' = .active k t := by
    intro c' k t ht
    have hcc : c' ≠ c := by
      rintro rfl
      have hidle : (b.unbracket c').session c' = .idle := session_withSession_self (lt_of_session hs)
      rw [hidle] at ht
      cases ht
    exact (session_withSession_of_ne (b := b) (x := .idle) hcc).symm.trans ht
  refine ⟨?_, hb.below, hb.distinct, fun ht => hb.held (hsession ht),
    fun h₁ h₂ => hb.apart (hsession h₁) (hsession h₂), ?_⟩
  · simpa [Books.unbracket, withSession] using hb.size
  · change _ ≤ b.changing - 1
    omega

/-- The share that closes its session's bracket serves no session any more. -/
theorem Sound.unbracket_detached (hb : Sound n b) (hs : b.session c = .active inner s) :
    (b.unbracket c).attached s.id = false := by
  have hattached : (b.unbracket c).attached s.id = true ↔ _ := attached_close hb hs
  simp only [Bool.eq_false_iff, ne_eq, hattached, not_true, false_and, not_false_iff]

/-- A session closes: the coordinator is idle when its share closes the bracket; whatever is carried on may
be done before the share goes back. -/
theorem Carried.finish {k : Nat} (hb : Sound n b) (hs : b.session c = .active inner s)
    (hw : Carried n k (b.unbracket c) b') : Carried n k b (b'.giveBack s.id) := by
  have hattached {i} : (b.unbracket c).attached i = true ↔ i ≠ s.id ∧ b.attached i = true :=
    attached_close hb hs
  have hloose : b'.Loose s := (hw.loose s).2 ⟨(hb.held hs).1, hb.unbracket_detached hs⟩
  have hactive := active_unbracket hs
  have hle := hb.active_le
  have hchanging : b'.changing + (b.unbracket c).active = b.changing - 1 + b'.active + k := hw.changing
  refine ⟨hw.sound.giveBack hloose.2, hw.next, fun t => ?_, ?_⟩
  · rw [loose_giveBack, hw.loose]
    simp only [Loose, Bool.eq_false_iff, ne_eq, hattached, not_and]
    constructor
    · rintro ⟨⟨ht, hnot⟩, hne⟩
      exact ⟨ht, hnot hne⟩
    · rintro ⟨ht, hnot⟩
      refine ⟨⟨ht, fun _ => hnot⟩, fun heq => hnot ?_⟩
      rw [heq]
      exact attached_of_session hs
  · change b'.changing + _ = _ + b'.active + _
    omega

theorem Kept.finish (hb : Sound n b) (hs : b.session c = .active inner s) (hw : Kept n (b.unbracket c) w b') :
    Kept n b (.call s.id .changed :: (w ++ [.call s.id (.release .edit)])) (b'.giveBack s.id) := by
  have hdetached := hb.unbracket_detached hs
  obtain ⟨hlive, -⟩ := hb.held hs
  have hloose : b'.Loose s := (hw.loose s).2 ⟨hlive, hdetached⟩
  have hnext : s.id < b.next := hb.below s hlive
  refine ⟨.finish hb hs hw.toCarried, fun i => ?_⟩
  by_cases hi : i = s.id
  · subst hi
    have hcourse := hw.course s.id
    have hclosed : (b.unbracket c).stage s.id = .spent := stage_of_detached hnext hdetached
    have hspent : (b'.giveBack s.id).stage s.id = .spent :=
      stage_of_detached (Nat.lt_of_lt_of_le hnext hw.next) hloose.2
    rw [hclosed] at hcourse
    rw [stage_of_attached hnext (attached_of_session hs), hspent]
    exact .changed ((hcourse.untouched _).append (.release (.nil _)))
  · have hbefore : (b.unbracket c).stage i = b.stage i := by
      refine stage_congr Iff.rfl ?_
      rw [Bool.eq_iff_iff]
      have hattached : (b.unbracket c).attached i = true ↔ i ≠ s.id ∧ b.attached i = true := attached_close hb hs
      simp [hattached, hi]
    rw [← hbefore]
    have hne : (s.id == i) = false := by simpa using Ne.symm hi
    exact .other hne ((hw.course i).append (.other hne (.nil _)))

/-! ## Idle books -/

theorem detached_of_idle (h : ∀ c, b.session c = .idle) : b.attached i = false := by
  rw [Bool.eq_false_iff, ne_eq, attached_iff]
  rintro ⟨c, inner, s, hs, -⟩
  rw [h c] at hs
  cases hs

theorem active_of_idle (h : ∀ c, b.session c = .idle) : b.active = 0 := by
  rw [active, List.countP_eq_zero]
  intro s hs
  obtain ⟨c, hc⟩ := List.mem_iff_getElem?.1 hs
  have hidle := h c
  rw [session, hc, Option.getD_some] at hidle
  simp [hidle, Sessions.isActive]

/-- Where all coordinators are idle, books are sound when the shares are numbered. -/
theorem Sound.of_idle (h : ∀ c, b.session c = .idle) (hbelow : ∀ s ∈ b.live, s.id < b.next)
    (hdistinct : b.live.Pairwise fun s t => s.id ≠ t.id) : Sound b.sessions.length b := by
  refine ⟨rfl, hbelow, hdistinct, fun hs => ?_, fun hs => ?_, by simp [active_of_idle h]⟩
  all_goals
    rw [h] at hs
    cases hs

/-- Between idle books, the deeds of a share that serves a session are those of the session. -/
theorem Kept.session_deeds {id : CoordinatorId} (hw : Kept n b w b') (h : ∀ c, b.session c = .idle)
    (h' : ∀ c, b'.session c = .idle) (ho : .opened id i ∈ w) :
    ∃ k, w.filter (·.mentions i) = Deed.session id i k := by
  have hcourse := hw.course i
  have hmentions : Deed.mentions i (.opened id i) = true := by simp
  by_cases hnext : b.next ≤ i
  · rw [stage_of_next_le hnext] at hcourse
    by_cases hnext' : b'.next ≤ i
    · rw [stage_of_next_le hnext'] at hcourse
      rw [hcourse.unmentioned_of_unused.2 _ ho] at hmentions
      cases hmentions
    · rw [stage_of_detached (Nat.lt_of_not_le hnext') (detached_of_idle h')] at hcourse
      exact hcourse.filter_of_opened ho
  · rw [stage_of_detached (Nat.lt_of_not_le hnext) (detached_of_idle h)] at hcourse
    rw [hcourse.unmentioned _ ho] at hmentions
    cases hmentions

end Books

end FormDesk
