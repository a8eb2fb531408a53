/-
What follows when the model accepts a call: under which condition it did, and
the model afterwards. Every later fact about a call goes through these.

Shares are numbered: a live share has a number below the next one, and no two
live shares have the same. Every transition keeps that. The tokens of listeners
are given out in the same way.
-/
import FormDesk.Model.Basic

namespace FormDesk.Model

theorem objection?_edit_none {m : Model} {s : Share} :
    m.objection? s .edit = none ↔ m.accessOf? s.id = some .edit := by
  unfold objection?
  cases m.accessOf? s.id with
  | none => simp
  | some access => cases access <;> simp

theorem acquire_ok {m m' : Model} {access : Access} {s : Share} (h : m.acquire access = .ok (s, m')) :
    m.available = true ∧ s = ⟨m.nextShare, access⟩ ∧
      m' = { m.enter (.acquire access) with nextShare := m.nextShare + 1, live := s :: m.live } := by
  unfold acquire at h
  split at h
  · next havailable =>
    simp only [Except.ok.injEq, Prod.mk.injEq] at h
    obtain ⟨rfl, rfl⟩ := h
    exact ⟨havailable, rfl, rfl⟩
  · cases h

/-- While shares are handed out, the next one is. -/
theorem acquire_of_available {m : Model} (h : m.available = true) (access : Access) :
    m.acquire access = .ok (⟨m.nextShare, access⟩, { m.enter (.acquire access) with
      nextShare := m.nextShare + 1
      live := ⟨m.nextShare, access⟩ :: m.live }) := by
  simp [acquire, h]

theorem acquire_of_unavailable {m : Model} (h : m.available = false) (access : Access) :
    m.acquire access = .error .unavailable := by
  simp [acquire, h]

theorem release?_some {m m' : Model} {s : Share} {access : Access} (h : m.release? s = some (access, m')) :
    m.accessOf? s.id = some access ∧
      m' = { m.enter (.release access) with live := m.live.filter (·.id != s.id) } := by
  unfold release? at h
  simp only [Option.map_eq_some_iff, Prod.mk.injEq] at h
  obtain ⟨_, hlive, rfl, rfl⟩ := h
  exact ⟨hlive, rfl⟩

/-- A live share is taken back. -/
theorem release?_of_live {m : Model} {s : Share} {access : Access} (hs : m.accessOf? s.id = some access) :
    m.release? s = some (access,
      { m.enter (.release access) with live := m.live.filter (·.id != s.id) }) := by
  simp [release?, hs]

theorem openBracket_ok {m m' : Model} {s : Share} (h : m.openBracket s = .ok m') :
    m.accessOf? s.id = some .edit ∧ m.document.isSome = true ∧
      m' = { m.enter .aboutToChange with changing := m.changing + 1 } := by
  unfold openBracket at h
  split at h
  · cases h
  · next hnone =>
    split at h
    · cases h
    · next hdocument =>
      simp only [Except.ok.injEq] at h
      exact ⟨objection?_edit_none.1 hnone, by simpa [Option.isSome_iff_ne_none] using hdocument, h.symm⟩

/-- A live edit share opens a bracket when there is a document. -/
theorem openBracket_of_live {m : Model} {s : Share} (hs : m.accessOf? s.id = some .edit)
    (hdocument : m.document.isSome = true) :
    m.openBracket s = .ok { m.enter .aboutToChange with changing := m.changing + 1 } := by
  obtain ⟨document, hdocument⟩ := Option.isSome_iff_exists.1 hdocument
  simp [openBracket, objection?_edit_none.2 hs, hdocument]

theorem closeBracket_ok {m m' : Model} {s : Share} (h : m.closeBracket s = .ok m') :
    m.accessOf? s.id = some .edit ∧
      ∃ n, m.changing = n + 1 ∧ m' = { m.enter .changed with changing := n } := by
  unfold closeBracket at h
  split at h
  · cases h
  · next hnone =>
    split at h
    · cases h
    · next n hn =>
      simp only [Except.ok.injEq] at h
      exact ⟨objection?_edit_none.1 hnone, n, hn, h.symm⟩

/-- A live edit share closes a bracket when there is one. -/
theorem closeBracket_of_live {m : Model} {s : Share} (hs : m.accessOf? s.id = some .edit)
    (hm : 0 < m.changing) : m.closeBracket s = .ok { m.enter .changed with changing := m.changing - 1 } := by
  obtain ⟨n, hn⟩ := Nat.exists_eq_add_of_lt hm
  simp [closeBracket, objection?_edit_none.2 hs, hn]

theorem takeDocument_ok {m m' : Model} {s : Share} {document : Document}
    (h : m.takeDocument s = .ok (document, m')) :
    m.accessOf? s.id = some .edit ∧ 0 < m.changing ∧ m.document = some document ∧
      m' = { m.enter .mutate with document := none } := by
  unfold takeDocument at h
  split at h
  · cases h
  · next hnone =>
    split at h
    · cases h
    · next hchanging =>
      split at h
      · cases h
      · next held hheld =>
        simp only [Except.ok.injEq, Prod.mk.injEq] at h
        obtain ⟨rfl, rfl⟩ := h
        exact ⟨objection?_edit_none.1 hnone, Nat.pos_of_ne_zero hchanging, hheld, rfl⟩

/-- A live edit share takes the document in hand inside a bracket. -/
theorem takeDocument_of_live {m : Model} {s : Share} {document : Document} (hs : m.accessOf? s.id = some .edit)
    (hchanging : 0 < m.changing) (hdocument : m.document = some document) :
    m.takeDocument s = .ok (document, { m.enter .mutate with document := none }) := by
  simp [takeDocument, objection?_edit_none.2 hs, Nat.ne_of_gt hchanging, hdocument]

/-- A live share subscribes a listener under the next token. -/
theorem subscribe_of_live {m : Model} {s : Share} {access : Access} (hs : m.accessOf? s.id = some access)
    (listener : Listener) : m.subscribe s listener = .ok (m.nextToken, { m.enter .subscribe with
      nextToken := m.nextToken + 1
      subscriptions := m.subscriptions ++ [⟨m.nextToken, listener⟩] }) := by
  cases access <;> simp [subscribe, objection?, hs]

theorem subscribe_ok {m m' : Model} {s : Share} {listener : Listener} {token : Token}
    (h : m.subscribe s listener = .ok (token, m')) :
    token = m.nextToken ∧ m' = { m.enter .subscribe with
      nextToken := m.nextToken + 1
      subscriptions := m.subscriptions ++ [⟨m.nextToken, listener⟩] } := by
  unfold subscribe at h
  split at h
  · cases h
  · simp only [Except.ok.injEq, Prod.mk.injEq] at h
    exact ⟨h.1.symm, h.2.symm⟩

/-- A live share removes a subscription that there is. -/
theorem unsubscribe_of_live {m : Model} {s : Share} {access : Access} {token : Token}
    (hs : m.accessOf? s.id = some access) (htoken : m.subscriptions.any (·.token == token) = true) :
    m.unsubscribe s token = .ok (true, { m.enter .unsubscribe with
      subscriptions := m.subscriptions.filter (·.token != token) }) := by
  cases access <;> simp only [unsubscribe, objection?, hs, htoken, if_true]

/-- A live share finds no subscription that there is not. -/
theorem unsubscribe_absent {m : Model} {s : Share} {access : Access} {token : Token}
    (hs : m.accessOf? s.id = some access) (htoken : m.subscriptions.any (·.token == token) = false) :
    m.unsubscribe s token = .ok (false, m) := by
  cases access <;> simp [unsubscribe, objection?, hs, htoken]

theorem unsubscribe_ok {m m' : Model} {s : Share} {token : Token}
    (h : m.unsubscribe s token = .ok (true, m')) :
    m' = { m.enter .unsubscribe with subscriptions := m.subscriptions.filter (·.token != token) } := by
  unfold unsubscribe at h
  split at h
  · cases h
  · split at h
    · simp only [Except.ok.injEq, Prod.mk.injEq, true_and] at h
      exact h.symm
    · simp at h

theorem popUndo?_some {m m' : Model} {entry : Segment} (h : m.popUndo? = some (entry, m')) :
    ∃ rest, m.undoStack = entry :: rest ∧ m' = { m with undoStack := rest } := by
  unfold popUndo? at h
  split at h
  · cases h
  · next rest heq =>
    cases h
    exact ⟨rest, heq, rfl⟩

/-- The recording after a begin. -/
def recordingFrom (m : Model) (owner : Owner) (label : Option String) : Recording :=
  match m.recording with
  | some r => { r with inner := r.inner + 1 }
  | none => { entry := { label, owner, before := m.document } }

theorem beginRecording_ok {m m' : Model} {s : Share} {owner : Owner} {label : Option String}
    (h : m.beginRecording s owner label = .ok m') :
    m.accessOf? s.id = some .edit ∧ m.recordable = true ∧ m.document.isSome = true ∧
      m' = { m.enter (.beginRecording label) with recording := some (m.recordingFrom owner label) } := by
  unfold beginRecording at h
  split at h
  · cases h
  · next hnone =>
    split at h
    · cases h
    · next hrecordable =>
      split at h
      · cases h
      · next hdocument =>
        simp only [Except.ok.injEq] at h
        exact ⟨objection?_edit_none.1 hnone, by simpa using hrecordable,
          by simpa [Option.isSome_iff_ne_none] using hdocument, h.symm⟩

/-- A live edit share begins a recording when that is allowed and there is a document. -/
theorem beginRecording_of_live {m : Model} {s : Share} (owner : Owner) (label : Option String)
    (hs : m.accessOf? s.id = some .edit) (hrecordable : m.recordable = true) (hdocument : m.document.isSome = true) :
    m.beginRecording s owner label =
      .ok { m.enter (.beginRecording label) with recording := some (m.recordingFrom owner label) } := by
  obtain ⟨document, hdocument⟩ := Option.isSome_iff_exists.1 hdocument
  cases hrecording : m.recording <;>
    simp [beginRecording, recordingFrom, objection?_edit_none.2 hs, hrecordable, hdocument, hrecording]

/-- Why a bracket cannot be opened with a live edit share. -/
theorem openBracket_error {m : Model} {s : Share} {e : ModelError} (hs : m.accessOf? s.id = some .edit)
    (h : m.openBracket s = .error e) : m.document = none := by
  cases hdocument : m.document with
  | none => rfl
  | some document => simp [openBracket, objection?_edit_none.2 hs, hdocument] at h

/-- Why a recording cannot begin with a live edit share. -/
theorem beginRecording_error {m : Model} {s : Share} {owner : Owner} {label : Option String} {e : ModelError}
    (hs : m.accessOf? s.id = some .edit) (h : m.beginRecording s owner label = .error e) :
    m.recordable = false ∨ m.document = none := by
  cases hrecordable : m.recordable with
  | false => exact .inl rfl
  | true =>
    cases hdocument : m.document with
    | none => exact .inr rfl
    | some document => simp [beginRecording, objection?_edit_none.2 hs, hrecordable, hdocument] at h

/-- Why the document cannot be taken in hand with a live edit share inside a bracket. -/
theorem takeDocument_error {m : Model} {s : Share} {e : ModelError} (hs : m.accessOf? s.id = some .edit)
    (hchanging : 0 < m.changing) (h : m.takeDocument s = .error e) : e = .unavailable ∧ m.document = none := by
  simp only [takeDocument, objection?_edit_none.2 hs, Nat.ne_of_gt hchanging, if_false] at h
  cases hdocument : m.document with
  | none =>
    rw [hdocument] at h
    exact ⟨(Except.error.inj h).symm, rfl⟩
  | some document => simp [hdocument] at h

theorem acquire_error {m : Model} {access : Access} {e : ModelError} (h : m.acquire access = .error e) :
    m.available = false := by
  cases havailable : m.available with
  | false => rfl
  | true => simp [acquire, havailable] at h

/-- What the end of a recording leaves: the outermost one leaves a segment. -/
def recordingEnded (m : Model) (r : Recording) : Model :=
  match r.inner with
  | 0 => { m with recording := none, undoStack := r.entry :: m.undoStack }
  | n + 1 => { m with recording := some { r with inner := n } }

/-- A live edit share ends the recording there is. -/
theorem endRecording_of_live {m : Model} {s : Share} (owner : Owner) {r : Recording}
    (hs : m.accessOf? s.id = some .edit) (hr : m.recording = some r) :
    m.endRecording s owner = .ok ((m.enter .endRecording).recordingEnded r) := by
  cases hinner : r.inner <;> simp [endRecording, objection?_edit_none.2 hs, hr, recordingEnded, hinner]

theorem endRecording_ok {m m' : Model} {s : Share} {owner : Owner} (h : m.endRecording s owner = .ok m') :
    m.accessOf? s.id = some .edit ∧
      ∃ r, m.recording = some r ∧ m' = (m.enter .endRecording).recordingEnded r := by
  cases hobjection : m.objection? s .edit with
  | some e => simp [endRecording, hobjection] at h
  | none =>
    have hlive := objection?_edit_none.1 hobjection
    cases hr : m.recording with
    | none => simp [endRecording, hobjection, hr] at h
    | some r =>
      rw [endRecording_of_live owner hlive hr] at h
      exact ⟨hlive, r, rfl, (Except.ok.inj h).symm⟩

/-- Ending a recording takes its begin back, and leaves a segment if that was the outermost one. -/
theorem recordingEnded_from (m m' : Model) (owner : Owner) (label : Option String) :
    (m'.recordingEnded (m.recordingFrom owner label)).recording = m.recording ∧
    (m'.recordingEnded (m.recordingFrom owner label)).undoStack =
      (if m.recording.isSome then [] else [⟨label, owner, m.document⟩]) ++ m'.undoStack ∧
    (m'.recordingEnded (m.recordingFrom owner label)).available = m'.available := by
  cases hr : m.recording with
  | none => simp [recordingEnded, recordingFrom, hr]
  | some r => simp [recordingEnded, recordingFrom, hr]

/-! ## Numbered shares -/

/-- Of members with different numbers, one has the number of a member: itself. -/
theorem countP_apart {β : Type} (number : β → Nat) {l : List β} {s : β}
    (hl : l.Pairwise fun s t => number s ≠ number t) (hs : s ∈ l) (p : β → Bool) :
    l.countP p = (l.filter (number · != number s)).countP p + if p s then 1 else 0 := by
  induction l with
  | nil => cases hs
  | cons t l ih =>
    rw [List.pairwise_cons] at hl
    rcases List.mem_cons.1 hs with rfl | hs
    · have hrest : l.filter (number · != number s) = l :=
        List.filter_eq_self.2 fun t ht => by simpa using (hl.1 t ht).symm
      simp [List.countP_cons, hrest]
    · have hne : (number t != number s) = true := by simpa using hl.1 s hs
      rw [List.filter_cons_of_pos (by simpa using hne), List.countP_cons, List.countP_cons, ih hl.2 hs]
      omega

/-- Live shares have different numbers, all of them given out. -/
structure Numbered (m : Model) : Prop where
  below : ∀ s ∈ m.live, s.id < m.nextShare
  apart : m.live.Pairwise fun s t => s.id ≠ t.id

/-- With numbered shares, a live share's number tells what it was taken for. -/
theorem Numbered.accessOf? {m : Model} (h : m.Numbered) {s : Share} (hs : s ∈ m.live) :
    m.accessOf? s.id = some s.access := by
  unfold Model.accessOf?
  have hapart := h.apart
  generalize m.live = live at hs hapart
  induction live with
  | nil => cases hs
  | cons t live ih =>
    rw [List.pairwise_cons] at hapart
    rw [List.find?_cons]
    rcases List.mem_cons.1 hs with rfl | hs
    · simp
    · have hne : (t.id == s.id) = false := by simpa using hapart.1 s hs
      rw [hne]
      exact ih hs hapart.2

/-- The share that was just taken is live. -/
theorem accessOf?_acquire {m m' : Model} {access : Access} {s : Share}
    (h : m.acquire access = .ok (s, m')) : m'.accessOf? s.id = some access := by
  obtain ⟨-, rfl, rfl⟩ := acquire_ok h
  simp [Model.accessOf?]

theorem Numbered.acquire {m m' : Model} {access : Access} {s : Share} (hm : m.Numbered)
    (h : m.acquire access = .ok (s, m')) : m'.Numbered := by
  obtain ⟨-, rfl, rfl⟩ := acquire_ok h
  constructor
  · intro t ht
    rcases List.mem_cons.1 ht with rfl | ht
    · exact Nat.lt_succ_self _
    · exact Nat.lt_succ_of_lt (hm.below t ht)
  · refine List.pairwise_cons.2 ⟨fun t ht => ?_, hm.apart⟩
    exact Nat.ne_of_gt (hm.below t ht)

theorem Numbered.release {m m' : Model} {access : Access} {s : Share} (hm : m.Numbered)
    (h : m.release? s = some (access, m')) : m'.Numbered := by
  obtain ⟨-, rfl⟩ := release?_some h
  exact ⟨fun t ht => hm.below t (List.mem_filter.1 ht).1, hm.apart.filter _⟩

/-- The other transitions leave the shares as they are. -/
theorem Numbered.of_eq {m m' : Model} (hm : m.Numbered) (hlive : m'.live = m.live)
    (hnext : m'.nextShare = m.nextShare) : m'.Numbered :=
  ⟨by rw [hlive, hnext]; exact hm.below, by rw [hlive]; exact hm.apart⟩

/-- Giving a live share back takes one share away, the one that has its number. -/
theorem Numbered.countP_release {m m' : Model} {access : Access} {s : Share} (hm : m.Numbered)
    (h : m.release? s = some (access, m')) (kind : Access) :
    m.live.countP (·.access == kind) = m'.live.countP (·.access == kind) + (access == kind).toNat := by
  obtain ⟨haccess, rfl⟩ := release?_some h
  obtain ⟨t, hfind, rfl⟩ := Option.map_eq_some_iff.1 haccess
  have hid : t.id = s.id := by simpa using List.find?_some hfind
  have hcount := countP_apart Share.id hm.apart (List.mem_of_find?_eq_some hfind) (·.access == kind)
  rw [hid] at hcount
  rw [hcount]
  cases t.access == kind <;> rfl

/-! ## Registered listeners -/

/-- Listeners have different tokens, all of them given out. -/
structure Registered (m : Model) : Prop where
  below : ∀ s ∈ m.subscriptions, s.token < m.nextToken
  apart : m.subscriptions.Pairwise fun s t => s.token ≠ t.token

/-- What leaves the listeners as they are. -/
theorem Registered.of_eq {m m' : Model} (hm : m.Registered) (hsubscriptions : m'.subscriptions = m.subscriptions)
    (hnext : m'.nextToken = m.nextToken) : m'.Registered :=
  ⟨by rw [hsubscriptions, hnext]; exact hm.below, by rw [hsubscriptions]; exact hm.apart⟩

theorem Registered.subscribe {m m' : Model} {s : Share} {listener : Listener} {token : Token} (hm : m.Registered)
    (h : m.subscribe s listener = .ok (token, m')) : m'.Registered := by
  obtain ⟨-, rfl⟩ := subscribe_ok h
  constructor
  · intro t ht
    rcases List.mem_append.1 ht with ht | ht
    · exact Nat.lt_succ_of_lt (hm.below t ht)
    · rw [List.mem_singleton.1 ht]
      exact Nat.lt_succ_self _
  · refine List.pairwise_append.2 ⟨hm.apart, List.pairwise_singleton .., fun t ht u hu => ?_⟩
    rw [List.mem_singleton.1 hu]
    exact Nat.ne_of_lt (hm.below t ht)

theorem Registered.unsubscribe {m m' : Model} {s : Share} {token : Token} (hm : m.Registered)
    (h : m.unsubscribe s token = .ok (true, m')) : m'.Registered := by
  obtain rfl := unsubscribe_ok h
  exact ⟨fun t ht => hm.below t (List.mem_filter.1 ht).1, hm.apart.filter _⟩

/-- A listener who is sent away is one, since tokens are different. -/
theorem Registered.length_unsubscribe {m m' : Model} {s : Share} {token : Token} (hm : m.Registered)
    (h : m.unsubscribe s token = .ok (true, m')) : m.subscriptions.length = m'.subscriptions.length + 1 := by
  have hany : m.subscriptions.any (·.token == token) = true := by
    unfold Model.unsubscribe at h
    split at h
    · cases h
    · split at h
      · assumption
      · cases h
  obtain ⟨t, ht, htoken⟩ := List.any_eq_true.1 hany
  have hcount := countP_apart Subscription.token hm.apart ht fun _ => true
  rw [beq_iff_eq.1 htoken] at hcount
  obtain rfl := unsubscribe_ok h
  simpa using hcount

end FormDesk.Model
