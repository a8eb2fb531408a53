/-
The ledger. The model counts the calls that it accepts and writes them into a
journal, and what it holds is what the calls leave: shares that were taken and
not given back, brackets and recordings that were begun and not ended, listeners
who joined and did not leave. Each of these is a stock (`Stock`), which some
calls raise by one and some lower by one.

Shares and tokens are given out in order, so none is given out twice, and a
share that was given back is not live again (`Numbering`).

A ledger is right (`Desk.Audited`) when all this can be read off what happened.
Every move keeps it right, those of clients that call back from within a call
included, and so does clearing the journal; the counters go on as before then,
and only the journal falls behind.
-/
import FormDesk.Proofs.Announcement
import FormDesk.Proofs.Leftover
import FormDesk.Proofs.Deskwork

namespace FormDesk

variable {σ α : Type}

/-! ## Calls -/

/-- A call that begins a recording, or a nested part of one. -/
def Call.begins : Call → Bool
  | beginRecording _ => true
  | _ => false

/-- How many calls of each kind there are. -/
def Tally.of (calls : List Call) : Tally where
  acquiredRead := calls.count (.acquire .read)
  acquiredEdit := calls.count (.acquire .edit)
  released := calls.count (.release .read) + calls.count (.release .edit)
  aboutToChange := calls.count .aboutToChange
  changed := calls.count .changed
  beginRecording := calls.countP Call.begins
  endRecording := calls.count .endRecording
  subscribed := calls.count .subscribe
  unsubscribed := calls.count .unsubscribe
  mutations := calls.count .mutate

@[simp] theorem Tally.of_nil : Tally.of [] = {} := rfl

/-- Counting one more call. -/
theorem Tally.of_concat (calls : List Call) (c : Call) : Tally.of (calls ++ [c]) = (Tally.of calls).count c := by
  match c with
  | .acquire .read | .acquire .edit | .release .edit | .aboutToChange | .changed | .beginRecording _
  | .endRecording | .subscribe | .unsubscribe | .mutate =>
    simp [Tally.of, Tally.count, Call.begins, Nat.add_assoc]
  | .release .read =>
    simp [Tally.of, Tally.count, Call.begins]
    omega

/-- What the model has in stock. -/
inductive Stock where
  | shares (access : Access)
  | brackets
  | recordings
  | listeners

namespace Stock

/-- How much of it there is. -/
def level : Stock → Model → Nat
  | shares access, m => m.live.countP (·.access == access)
  | brackets, m => m.changing
  | recordings, m => m.recordings
  | listeners, m => m.subscriptions.length

/-- Whether a call raises the stock by one. -/
def raises : Stock → Call → Bool
  | shares access => (· == .acquire access)
  | brackets => (· == .aboutToChange)
  | recordings => Call.begins
  | listeners => (· == .subscribe)

/-- Whether a call lowers the stock by one. -/
def lowers : Stock → Call → Bool
  | shares access => (· == .release access)
  | brackets => (· == .changed)
  | recordings => (· == .endRecording)
  | listeners => (· == .unsubscribe)

end Stock

/-- The share that a call hands out. -/
def Deed.takes? : Deed → Option Nat
  | call id (.acquire _) => some id
  | _ => none

/-- The share that a call gives back. -/
def Deed.returns? : Deed → Option Nat
  | call id (.release _) => some id
  | _ => none

/-! ## What the model accepts -/

namespace Model

/-- The call is entered into the ledger, and raises and lowers what it is to. -/
structure Enters (c : Call) (m m' : Model) : Prop where
  tally : m'.tally = m.tally.count c
  journal : m'.journal = m.journal.push c
  level : ∀ k : Stock, k.level m' + (k.lowers c).toNat = k.level m + (k.raises c).toNat

variable {m m' : Model} {s : Share}

theorem acquire_enters {access : Access} (h : m.acquire access = .ok (s, m')) : Enters (.acquire access) m m' := by
  obtain ⟨-, rfl, rfl⟩ := acquire_ok h
  refine ⟨rfl, rfl, fun k => ?_⟩
  cases k with
  | shares kind =>
    simp only [Stock.level, List.countP_cons]
    cases access <;> cases kind <;> rfl
  | _ => rfl

theorem Numbered.release_enters {access : Access} (hm : m.Numbered) (h : m.release? s = some (access, m')) :
    Enters (.release access) m m' := by
  have hcount := hm.countP_release h
  obtain ⟨-, rfl⟩ := release?_some h
  refine ⟨rfl, rfl, fun k => ?_⟩
  cases k with
  | shares kind =>
    have hkind : (Stock.shares kind).lowers (.release access) = (access == kind) := by
      cases access <;> cases kind <;> rfl
    rw [hkind]
    exact (hcount kind).symm
  | _ => rfl

theorem openBracket_enters (h : m.openBracket s = .ok m') : Enters .aboutToChange m m' := by
  obtain ⟨-, -, rfl⟩ := openBracket_ok h
  exact ⟨rfl, rfl, fun k => by cases k <;> rfl⟩

theorem closeBracket_enters (h : m.closeBracket s = .ok m') : Enters .changed m m' := by
  obtain ⟨-, n, hn, rfl⟩ := closeBracket_ok h
  refine ⟨rfl, rfl, fun k => ?_⟩
  cases k with
  | brackets => exact hn.symm
  | _ => rfl

theorem takeDocument_enters {document : Document} (h : m.takeDocument s = .ok (document, m')) :
    Enters .mutate m m' := by
  obtain ⟨-, -, -, rfl⟩ := takeDocument_ok h
  exact ⟨rfl, rfl, fun k => by cases k <;> rfl⟩

theorem beginRecording_enters {owner : Owner} {label : Option String}
    (h : m.beginRecording s owner label = .ok m') : Enters (.beginRecording label) m m' := by
  obtain ⟨-, -, -, rfl⟩ := beginRecording_ok h
  refine ⟨rfl, rfl, fun k => ?_⟩
  cases k with
  | recordings =>
    simp only [Stock.level, recordings, recordingFrom]
    cases m.recording <;> rfl
  | _ => rfl

theorem endRecording_enters {owner : Owner} (h : m.endRecording s owner = .ok m') : Enters .endRecording m m' := by
  obtain ⟨-, r, hr, rfl⟩ := endRecording_ok h
  cases hinner : r.inner <;> simp only [recordingEnded, hinner]
  all_goals
    refine ⟨rfl, rfl, fun k => ?_⟩
    cases k with
    | recordings =>
      simp only [Stock.level, recordings, hr, Option.map_some, hinner]
      rfl
    | _ => rfl

theorem subscribe_enters {listener : Listener} {token : Token} (h : m.subscribe s listener = .ok (token, m')) :
    Enters .subscribe m m' := by
  obtain ⟨-, rfl⟩ := subscribe_ok h
  refine ⟨rfl, rfl, fun k => ?_⟩
  cases k with
  | listeners =>
    simp only [Stock.level, List.length_append]
    rfl
  | _ => rfl

theorem Registered.unsubscribe_enters {token : Token} (hm : m.Registered)
    (h : m.unsubscribe s token = .ok (true, m')) : Enters .unsubscribe m m' := by
  have hlength := hm.length_unsubscribe h
  obtain rfl := unsubscribe_ok h
  refine ⟨rfl, rfl, fun k => ?_⟩
  cases k with
  | listeners => exact hlength.symm
  | _ => rfl

end Model

/-! ## Ledgers that are right -/

namespace Desk

/-- The calls that the model accepted, one after another. -/
def calls (d : Desk σ) : List Call := d.history.toList.filterMap Deed.call?

/-- The numbers of the shares that were handed out, one after another. -/
def taken (d : Desk σ) : List Nat := d.history.toList.filterMap Deed.takes?

/-- The numbers of the shares that were given back, one after another. -/
def returned (d : Desk σ) : List Nat := d.history.toList.filterMap Deed.returns?

/-- Shares and tokens are given out in order, the first ones first, and what was given back is not live. -/
structure Numbering (d : Desk σ) : Prop where
  live : d.model.Numbered
  listeners : d.model.Registered
  taken : d.taken = List.range' 1 d.taken.length
  nextShare : d.model.nextShare = d.taken.length + 1
  returned : ∀ id ∈ d.returned, id < d.model.nextShare ∧ ∀ s ∈ d.model.live, s.id ≠ id
  nextToken : d.model.nextToken = d.calls.count .subscribe + 1

/-- The ledger is right. -/
structure Audited (d : Desk σ) : Prop where
  numbering : d.Numbering
  tally : d.model.tally = Tally.of d.calls
  journal : .cleared ∉ d.history.toList → d.model.journal.toList = d.calls
  level : ∀ k : Stock, d.calls.countP k.raises = d.calls.countP k.lowers + k.level d.model

/-- Nothing that a ledger is about changed. -/
structure Unaccounted (d e : Desk σ) : Prop where
  deeds : ∃ w, e.history.toList = d.history.toList ++ w ∧ ∀ x ∈ w, x.call? = none
  live : e.model.live = d.model.live
  nextShare : e.model.nextShare = d.model.nextShare
  subscriptions : e.model.subscriptions = d.model.subscriptions
  nextToken : e.model.nextToken = d.model.nextToken
  changing : e.model.changing = d.model.changing
  recording : e.model.recording = d.model.recording
  tally : e.model.tally = d.model.tally
  journal : .cleared ∉ e.history.toList → e.model.journal = d.model.journal

section

variable {d e : Desk σ} {s : Share} {c : Call} {m : Model}

@[simp] theorem calls_accepted : (d.accepted s c m).calls = d.calls ++ [c] := by simp [calls, Deed.call?]

@[simp] theorem taken_accepted : (d.accepted s c m).taken = d.taken ++ (Deed.call s.id c).takes?.toList := by
  cases c <;> simp [taken, Deed.takes?]

@[simp] theorem returned_accepted :
    (d.accepted s c m).returned = d.returned ++ (Deed.call s.id c).returns?.toList := by
  cases c <;> simp [returned, Deed.returns?]

/-! ### Steps that leave the ledger alone -/

theorem Unaccounted.still (hw : e.history = d.history) (hm : e.model = d.model) : Unaccounted d e :=
  ⟨⟨[], by simp [hw], nofun⟩, by rw [hm], by rw [hm], by rw [hm], by rw [hm], by rw [hm], by rw [hm], by rw [hm],
    fun _ => by rw [hm]⟩

/-- A model that is as it was, apart from what a ledger is not about. -/
theorem Unaccounted.model (hlive : m.live = d.model.live) (hshare : m.nextShare = d.model.nextShare)
    (hsubscriptions : m.subscriptions = d.model.subscriptions) (htoken : m.nextToken = d.model.nextToken)
    (hchanging : m.changing = d.model.changing) (hrecording : m.recording = d.model.recording)
    (htally : m.tally = d.model.tally) (hjournal : m.journal = d.model.journal) :
    Unaccounted d { d with model := m } :=
  ⟨⟨[], by simp, nofun⟩, hlive, hshare, hsubscriptions, htoken, hchanging, hrecording, htally, fun _ => hjournal⟩

theorem Unaccounted.enter (d : Desk σ) {x : Deed} (hx : x.call? = none) : Unaccounted d (d.enter x) :=
  ⟨⟨[x], d.toList_enter x, by simpa using hx⟩, rfl, rfl, rfl, rfl, rfl, rfl, rfl, fun _ => rfl⟩

/-- Deeds that are no calls hand out and give back no shares. -/
theorem filterMap_takes_of_uncalled {w : List Deed} (h : ∀ x ∈ w, x.call? = none) :
    w.filterMap Deed.takes? = [] ∧ w.filterMap Deed.returns? = [] := by
  constructor <;>
  · rw [List.filterMap_eq_nil_iff]
    intro x hx
    have hcall := h x hx
    cases x <;> first | rfl | cases hcall

theorem Unaccounted.calls (h : Unaccounted d e) :
    e.calls = d.calls ∧ e.taken = d.taken ∧ e.returned = d.returned := by
  obtain ⟨w, hw, hcalls⟩ := h.deeds
  obtain ⟨htakes, hreturns⟩ := filterMap_takes_of_uncalled hcalls
  have hcall : w.filterMap Deed.call? = [] := List.filterMap_eq_nil_iff.2 hcalls
  simp [Desk.calls, taken, returned, hw, htakes, hreturns, hcall]

theorem Audited.unaccounted (hd : d.Audited) (h : Unaccounted d e) : e.Audited := by
  obtain ⟨hcalls, htaken, hreturned⟩ := h.calls
  obtain ⟨w, hw, -⟩ := h.deeds
  refine ⟨⟨hd.numbering.live.of_eq h.live h.nextShare, hd.numbering.listeners.of_eq h.subscriptions h.nextToken,
    ?_, ?_, ?_, ?_⟩, ?_, fun hcleared => ?_, fun k => ?_⟩
  · rw [htaken]
    exact hd.numbering.taken
  · rw [htaken, h.nextShare]
    exact hd.numbering.nextShare
  · rw [hreturned, h.nextShare, h.live]
    exact hd.numbering.returned
  · rw [hcalls, h.nextToken]
    exact hd.numbering.nextToken
  · rw [hcalls, h.tally]
    exact hd.tally
  · rw [hcalls, h.journal hcleared]
    exact hd.journal fun hmem => hcleared (by simp [hw, hmem])
  · have hlevel : k.level e.model = k.level d.model := by
      cases k <;> simp only [Stock.level, Model.recordings, h.live, h.changing, h.recording, h.subscriptions]
    rw [hcalls, hlevel]
    exact hd.level k

/-! ### Calls that the model accepts -/

theorem Audited.accepted (hd : d.Audited) (hm : Model.Enters c d.model m) (hn : (d.accepted s c m).Numbering) :
    (d.accepted s c m).Audited := by
  refine ⟨hn, ?_, fun hcleared => ?_, fun k => ?_⟩
  · rw [calls_accepted, Tally.of_concat, ← hd.tally]
    exact hm.tally
  · rw [toList_accepted, List.mem_append, not_or] at hcleared
    rw [calls_accepted, ← hd.journal hcleared.1]
    exact (congrArg Array.toList hm.journal).trans (Array.toList_push ..)
  · have hlevel := hd.level k
    have hstep := hm.level k
    simp only [calls_accepted, List.countP_append, List.countP_singleton, model_accepted]
    cases hraises : k.raises c <;> cases hlowers : k.lowers c <;> simp [hraises, hlowers] at hstep ⊢ <;> omega

/-- A call that has to do neither with shares nor with listeners leaves their numbers as they are. -/
theorem Numbering.accepted (hd : d.Numbering) (htakes : (Deed.call s.id c).takes? = none)
    (hreturns : (Deed.call s.id c).returns? = none) (hc : (c == .subscribe) = false) (hlive : m.live = d.model.live)
    (hshare : m.nextShare = d.model.nextShare) (hlisteners : m.Registered)
    (htoken : m.nextToken = d.model.nextToken) : (d.accepted s c m).Numbering where
  live := hd.live.of_eq hlive hshare
  listeners := hlisteners
  taken := by simpa [htakes] using hd.taken
  nextShare := by simpa [htakes, hshare] using hd.nextShare
  returned := by simpa [hreturns, hshare, hlive] using hd.returned
  nextToken := by simpa [htoken, List.count_singleton, hc] using hd.nextToken

theorem Numbering.acquire {access : Access} (hd : d.Numbering) (h : d.model.acquire access = .ok (s, m)) :
    (d.accepted s (.acquire access) m).Numbering := by
  have hlive := hd.live.acquire h
  obtain ⟨-, rfl, rfl⟩ := Model.acquire_ok h
  refine ⟨hlive, hd.listeners.of_eq rfl rfl, ?_, ?_, fun id hid => ?_, ?_⟩
  · have hrange : List.range' 1 (d.taken.length + 1) = d.taken ++ [d.model.nextShare] := by
      rw [List.range'_concat, ← hd.taken, hd.nextShare]
      congr 2
      omega
    simpa [Deed.takes?] using hrange.symm
  · simp [Deed.takes?, hd.nextShare]
  · obtain ⟨hlt, hgone⟩ := hd.returned id (by simpa [Deed.returns?] using hid)
    refine ⟨Nat.lt_succ_of_lt hlt, fun s hs => ?_⟩
    rcases List.mem_cons.1 hs with rfl | hs
    · exact Nat.ne_of_gt hlt
    · exact hgone s hs
  · simpa [Model.enter] using hd.nextToken

theorem Numbering.release {access : Access} (hd : d.Numbering) (h : d.model.release? s = some (access, m)) :
    (d.accepted s (.release access) m).Numbering := by
  have hlive := hd.live.release h
  obtain ⟨haccess, rfl⟩ := Model.release?_some h
  refine ⟨hlive, hd.listeners.of_eq rfl rfl, ?_, ?_, fun id hid => ?_, ?_⟩
  · simpa [Deed.takes?] using hd.taken
  · simpa [Deed.takes?, Model.enter] using hd.nextShare
  · rw [returned_accepted, List.mem_append] at hid
    rcases hid with hid | hid
    · obtain ⟨hlt, hgone⟩ := hd.returned id hid
      exact ⟨hlt, fun t ht => hgone t (List.mem_filter.1 ht).1⟩
    · obtain rfl : id = s.id := by simpa [Deed.returns?] using hid
      obtain ⟨t, hfind, -⟩ := Option.map_eq_some_iff.1 haccess
      have hid : t.id = s.id := by simpa using List.find?_some hfind
      refine ⟨hid ▸ hd.live.below t (List.mem_of_find?_eq_some hfind), fun t ht => ?_⟩
      simpa using (List.mem_filter.1 ht).2
  · simpa [Model.enter] using hd.nextToken

theorem Numbering.subscribe {listener : Listener} {token : Token} (hd : d.Numbering)
    (h : d.model.subscribe s listener = .ok (token, m)) : (d.accepted s .subscribe m).Numbering := by
  have hlisteners := hd.listeners.subscribe h
  obtain ⟨-, rfl⟩ := Model.subscribe_ok h
  exact ⟨hd.live.of_eq rfl rfl, hlisteners, by simpa [Deed.takes?] using hd.taken,
    by simpa [Deed.takes?, Model.enter] using hd.nextShare, by simpa [Deed.returns?, Model.enter] using hd.returned,
    by simp [hd.nextToken]⟩

/-! ### Moves -/

theorem Visit.audited (h : Visit d e) (hd : d.Audited) : e.Audited := by
  cases h with
  | acquire h => exact hd.accepted (Model.acquire_enters h) (hd.numbering.acquire h)
  | release h => exact hd.accepted (hd.numbering.live.release_enters h) (hd.numbering.release h)
  | client s => exact hd.unaccounted (.still rfl rfl)

theorem UntoldStep.audited (h : UntoldStep d e) (hd : d.Audited) : e.Audited := by
  have hlisteners := hd.numbering.listeners
  have hstill {e : Desk σ} (hw : e.history = d.history) (hm : e.model = d.model) : e.Audited :=
    hd.unaccounted (.still hw hm)
  have henter {x : Deed} (hx : x.call? = none) : (d.enter x).Audited := hd.unaccounted (.enter d hx)
  cases h with
  | motion h =>
    cases h with
    | visit h => exact h.audited hd
    | starting | entered | left | runs | ran | opened => exact henter rfl
    | session => exact hstill rfl rfl
  | recorded h =>
    cases h with
    | beginRecording h =>
      refine hd.accepted (Model.beginRecording_enters h) ?_
      obtain ⟨-, -, -, rfl⟩ := Model.beginRecording_ok h
      exact hd.numbering.accepted rfl rfl rfl rfl rfl (hlisteners.of_eq rfl rfl) rfl
    | endRecording h =>
      refine hd.accepted (Model.endRecording_enters h) ?_
      obtain ⟨-, r, -, rfl⟩ := Model.endRecording_ok h
      unfold Model.recordingEnded
      split <;> exact hd.numbering.accepted rfl rfl rfl rfl rfl (hlisteners.of_eq rfl rfl) rfl
    | began | finished | edits | edited => exact henter rfl
    | depth => exact hstill rfl rfl
  | inHand h =>
    cases h with
    | take h =>
      refine hd.accepted (Model.takeDocument_enters h) ?_
      obtain ⟨-, -, -, rfl⟩ := Model.takeDocument_ok h
      exact hd.numbering.accepted rfl rfl rfl rfl rfl (hlisteners.of_eq rfl rfl) rfl
    | put document =>
      exact (henter rfl).unaccounted (.model rfl rfl rfl rfl rfl rfl rfl rfl)
    | lose => exact henter rfl
  | offDocument h =>
    cases h with
    | client => exact hstill rfl rfl
    | available available =>
      exact (henter rfl).unaccounted (.model rfl rfl rfl rfl rfl rfl rfl rfl)
    | recordable | saved | moved =>
      exact hd.unaccounted (.model rfl rfl rfl rfl rfl rfl rfl rfl)
    | subscribe h => exact hd.accepted (Model.subscribe_enters h) (hd.numbering.subscribe h)
  | openBracket h =>
    refine hd.accepted (Model.openBracket_enters h) ?_
    obtain ⟨-, -, rfl⟩ := Model.openBracket_ok h
    exact hd.numbering.accepted rfl rfl rfl rfl rfl (hlisteners.of_eq rfl rfl) rfl
  | closeBracket h =>
    refine hd.accepted (Model.closeBracket_enters h) ?_
    obtain ⟨-, n, -, rfl⟩ := Model.closeBracket_ok h
    exact hd.numbering.accepted rfl rfl rfl rfl rfl (hlisteners.of_eq rfl rfl) rfl
  | popped h =>
    obtain ⟨_, -, rfl⟩ := Model.popUndo?_some h
    exact hd.unaccounted (.model rfl rfl rfl rfl rfl rfl rfl rfl)
  | restored | rebuilt =>
    exact hd.unaccounted (.model rfl rfl rfl rfl rfl rfl rfl rfl)

theorem Move.audited (h : Move d e) (hd : d.Audited) : e.Audited := by
  cases h with
  | untoldStep h => exact h.audited hd
  | clientStep h =>
    cases h with
    | told | threw => exact hd.unaccounted (.enter d rfl)
    | client => exact hd.unaccounted (.still rfl rfl)
  | left h =>
    refine hd.accepted (hd.numbering.listeners.unsubscribe_enters h) ?_
    have hlisteners := hd.numbering.listeners.unsubscribe h
    obtain rfl := Model.unsubscribe_ok h
    exact hd.numbering.accepted rfl rfl rfl rfl rfl hlisteners rfl
  | emitted | unclaimed | detaching => exact hd.unaccounted (.enter d rfl)
  | held | relays => exact hd.unaccounted (.still rfl rfl)
  | offModel h => exact hd.unaccounted (.still h.history h.model)

/-- Clearing the journal is entered into the history. -/
theorem Audited.cleared (hd : d.Audited) :
    Audited { d.enter .cleared with model := { d.model with journal := #[] } } :=
  hd.unaccounted ⟨⟨_, d.toList_enter _, by simp [Deed.call?]⟩, rfl, rfl, rfl, rfl, rfl, rfl, rfl,
    fun hcleared => absurd (by simp [Desk.enter]) hcleared⟩

/-- What was taken for an access and not given back is live. -/
theorem Audited.shares (hd : d.Audited) (access : Access) : d.calls.count (.acquire access) =
    d.calls.count (.release access) + (d.model.live.filter (·.access == access)).length := by
  rw [← List.countP_eq_length_filter]
  exact hd.level (.shares access)

/-- What was begun is what was ended and what is open. -/
theorem Audited.counters (hd : d.Audited) :
    d.model.tally.acquiredRead + d.model.tally.acquiredEdit = d.model.tally.released + d.model.live.length ∧
    d.model.tally.aboutToChange = d.model.tally.changed + d.model.changing ∧
    d.model.tally.beginRecording = d.model.tally.endRecording + d.model.recordings ∧
    d.model.tally.subscribed = d.model.tally.unsubscribed + d.model.subscriptions.length := by
  rw [hd.tally]
  refine ⟨?_, hd.level .brackets, hd.level .recordings, hd.level .listeners⟩
  have hread := hd.level (.shares .read)
  have hedit := hd.level (.shares .edit)
  have hlive : d.model.live.length =
      d.model.live.countP (·.access == .read) + d.model.live.countP (·.access == .edit) := by
    rw [List.length_eq_countP_add_countP (·.access == .read)]
    congr 2
    funext s
    cases s.access <;> rfl
  simp only [Tally.of, Stock.raises, Stock.lowers, Stock.level, List.count, hlive] at hread hedit ⊢
  omega

/-- The ledger of a new model is right. -/
theorem Audited.new {document : Option Document} {location : String} (hm : d.model = { document, location })
    (hw : d.history = #[]) : d.Audited where
  numbering := by constructor <;> first | constructor <;> simp [hm] | simp [hm, hw, calls, taken, returned]
  tally := by simp [hm, hw, calls]
  journal _ := by simp [hm, hw, calls]
  level k := by cases k <;> simp [hm, hw, calls, Stock.level, Model.recordings]

end

end Desk

namespace Act

/-- All that is done with a model by hand, and clearing its journal. -/
inductive PublicOrClear : Actions σ
  | hand {β} {a : Act σ β} : Public a → PublicOrClear a
  | clearJournal : PublicOrClear Act.clearJournal

end Act

namespace Host.Callers

open Desk (Audited)

variable {n : Nat} {h : Host σ}

/-- Whatever is done at a desk, the ledger stays right. -/
theorem audited (hh : h.Callers n (Act.DeskOp Act.PublicOrClear)) {a : Act σ α}
    (ha : Act.Caller n (Act.DeskOp Act.PublicOrClear) a) : a.Within (fun d e => d.Audited → e.Audited) h := by
  have hR : Desk.Path fun d e : Desk σ => d.Audited → e.Audited := ⟨fun _ => id, fun h h' hd => h' (h hd)⟩
  have hmove : ∀ d e : Desk σ, Desk.Move d e → d.Audited → e.Audited := fun _ _ hmove => hmove.audited
  refine hh.moves hR hmove (fun k hc => ?_) ha
  intro β b hb
  cases hb with
  | hand hb => exact hb.moves hR hmove hc
  | clearJournal => exact fun d => Audited.cleared

/-- **The ledger is right.** Wherever a run on a new model ends, with any shares and tokens, made-up ones too,
the counters balance what was taken and begun with what was given back and ended and with what is live and open;
no number of a share and no token is given out twice, and no share that was given back is live again. The
counters are the numbers of calls that were accepted, and unless it was cleared, the journal has these calls. -/
theorem ledger_right (hh : h.Callers n (Act.DeskOp Act.PublicOrClear)) {a : Act σ α}
    (ha : Act.Caller n (Act.DeskOp Act.PublicOrClear) a) {document : Option Document} {location : String}
    {d e : Desk σ} (hmodel : d.model = { document, location }) (hhistory : d.history = #[]) (hrun : (a h d).2 = e) :
    (e.model.tally.acquiredRead + e.model.tally.acquiredEdit = e.model.tally.released + e.model.live.length ∧
      e.model.tally.aboutToChange = e.model.tally.changed + e.model.changing ∧
      e.model.tally.beginRecording = e.model.tally.endRecording + e.model.recordings ∧
      e.model.tally.subscribed = e.model.tally.unsubscribed + e.model.subscriptions.length) ∧
    (e.model.Numbered ∧ e.model.Registered ∧ e.taken = List.range' 1 e.taken.length ∧
      (∀ access s f, Act.acquire access h e = (.returned (.ok s), f) → f.taken = e.taken ++ [s.id]) ∧
      (∀ s listener token f, Act.subscribe s listener h e = (.returned (.ok token), f) →
        token = e.model.tally.subscribed + 1 ∧ f.model.tally.subscribed = e.model.tally.subscribed + 1) ∧
      ∀ id ∈ e.returned, ∀ s ∈ e.model.live, s.id ≠ id) ∧
    e.model.tally = Tally.of e.calls ∧
    (.cleared ∉ e.history.toList → e.model.journal.toList = e.calls ∧
      e.model.tally = Tally.of e.model.journal.toList ∧
      ∀ access, e.model.journal.toList.count (.acquire access) =
        e.model.journal.toList.count (.release access) + (e.model.live.filter (·.access == access)).length) := by
  have he : e.Audited := hrun ▸ hh.audited ha d (.new hmodel hhistory)
  refine ⟨he.counters, ⟨he.numbering.live, he.numbering.listeners, he.numbering.taken, fun access s f hf => ?_,
    fun s listener token f hf => ?_, fun id hid => (he.numbering.returned id hid).2⟩, he.tally, fun hcleared => ?_⟩
  · cases hacquire : e.model.acquire access with
    | error error =>
      rw [Act.acquire_refused hacquire] at hf
      cases hf
    | ok taken =>
      rw [Act.acquire_run hacquire] at hf
      cases hf
      simp [Deed.takes?]
  · cases hsubscribe : e.model.subscribe s listener with
    | error error =>
      rw [Act.subscribe_refused hsubscribe] at hf
      cases hf
    | ok subscribed =>
      obtain ⟨_, m⟩ := subscribed
      rw [Act.subscribe_run hsubscribe] at hf
      cases hf
      obtain ⟨rfl, rfl⟩ := Model.subscribe_ok hsubscribe
      exact ⟨by rw [he.numbering.nextToken, he.tally, Tally.of], rfl⟩
  · have hjournal := he.journal hcleared
    exact ⟨hjournal, hjournal ▸ he.tally, hjournal ▸ he.shares⟩

/-- A listener that gives back a share taken for reading as if it were one for editing when it hears of a change, and
a bracket opened with a share whose number alone is right: what was given back, and what was refused, is accounted
for. -/
theorem ledger_right_interfering :
    let append (text : String) (s : Scope) : Act Unit (Except ModelError Unit) :=
      Act.mutateIn s fun document => pure ((), document ++ text)
    let h : Host Unit := .interfering (Act.release ⟨1, .edit⟩)
    let a : Act Unit Unit := do
      let _ ← Act.acquire .read
      let _ ← Act.subscribe ⟨1, .edit⟩ (.client 0)
      let _ ← Act.edit 0 (append "1")
      let _ ← Act.acquire .edit
      let _ ← Act.openBracket ⟨3, .read⟩
      let _ ← Act.openBracket ⟨7, .edit⟩
      Act.release ⟨1, .read⟩
    let d : Desk Unit := { model := { document := some "d", location := "f" }, coordinators := [{}], client := () }
    h.Callers 1 (Act.DeskOp Act.PublicOrClear) ∧ Act.Caller 1 (Act.DeskOp Act.PublicOrClear) a ∧
      (a h d).2.taken = [1, 2, 3] ∧ (a h d).2.returned = [1, 2] ∧
      (∀ id ∈ (a h d).2.returned, ∀ s ∈ (a h d).2.model.live, s.id ≠ id) ∧
      (a h d).2.model.tally.aboutToChange = 2 ∧ (a h d).2.model.tally.changed = 1 ∧
      (a h d).2.model.changing = 1 ∧ (a h d).2.model.tally = Tally.of (a h d).2.model.journal.toList := by
  intro append h a d
  have hhand {β : Type} {b : Act Unit β} (hb : Act.Public b) : Act.Caller 1 (Act.DeskOp Act.PublicOrClear) b :=
    .op (.hand (.hand hb))
  have happend (text : String) (s : Scope) : Act.Caller 1 (Act.DeskOp Act.PublicOrClear) (append text s) :=
    .mutateIn (fun ha => .hand (.hand (.offBooks ha))) s fun _ => .pure _
  have hh : h.Callers 1 (Act.DeskOp Act.PublicOrClear) := .interfering (hhand (.shareOp (.release _)))
  have ha : Act.Caller 1 (Act.DeskOp Act.PublicOrClear) a :=
    .bind (hhand (.shareOp (.acquire _))) fun _ => .bind (hhand (.offBooks (.subscribe _ _))) fun _ =>
      .bind (.edit (by decide) (happend "1" _)) fun _ => .bind (hhand (.shareOp (.acquire _))) fun _ =>
        .bind (hhand (.shareOp (.openBracket _))) fun _ => .bind (hhand (.shareOp (.openBracket _))) fun _ =>
          hhand (.shareOp (.release _))
  have hmodel : d.model = { document := some "d", location := "f" } := rfl
  obtain ⟨-, ⟨-, -, -, -, -, hreturned⟩, -, hjournal⟩ := hh.ledger_right ha hmodel rfl rfl
  exact ⟨hh, ha, by decide +kernel, by decide +kernel, hreturned, by decide +kernel, by decide +kernel,
    by decide +kernel, (hjournal (by decide +kernel)).2.1⟩

end Host.Callers

end FormDesk
