/-
Refusals. A share is known by its number alone, so a request that is made with it
is refused when no live share has that number, or when the live share that has it
was taken for reading and the request is for editing (`Model.Unfit`). Only then
does it matter what else stands in the way: that no bracket is open, that
recordings may not start, that there is no document (`Model.Refuses`).

Each request is refused for its reasons and for no others, and then the desk is
as it was: nothing is counted, nobody is told anything, the document is where it
was. What is ignored instead of refused comes to a notice (`Act.IgnoredFor`).
-/
import FormDesk.Proofs.Ledger
import FormDesk.Proofs.Views

namespace FormDesk

variable {σ α β : Type}

/-! ## Clients that return -/

/-- The clients return, whatever they do meanwhile. -/
def Host.ClientsReturn (h : Host σ) : Prop := ∀ c d, ∃ e, h.answer c d = (.returned (), e)

theorem Host.ClientsReturn.silent : (Host.silent : Host σ).ClientsReturn := fun _ d => ⟨d, rfl⟩

namespace Act

/-- The action returns. -/
def Ends (h : Host σ) (a : Act σ α) : Prop := Settles (fun _ _ => True) h a

namespace Ends

variable {h : Host σ}

theorem anywhere : Desk.Path fun _ _ : Desk σ => True := ⟨fun _ => trivial, fun _ _ => trivial⟩

theorem pure (a : α) : Ends h (pure a : Act σ α) := Settles.pure anywhere a

theorem look (f : Desk σ → α) : Ends h (Act.look f) := Settles.look anywhere f

theorem change (f : Desk σ → Desk σ) : Ends h (Act.change f) := Settles.change fun _ => trivial

theorem bind {x : Act σ α} {f : α → Act σ β} (hx : Ends h x) (hf : ∀ a, Ends h (f a)) : Ends h (x >>= f) :=
  Settles.bind anywhere hx hf

/-- What the action comes to at a desk. -/
theorem run {a : Act σ α} (ha : Ends h a) (d : Desk σ) : ∃ x e, a h d = (.returned x, e) := by
  obtain ⟨x, e, hrun, -⟩ := ha d
  exact ⟨x, e, hrun⟩

theorem ensure {act : Act σ α} {last : Act σ Unit} (ha : Ends h act) (hl : Ends h last) :
    Ends h (ensure act last) := by
  intro d
  obtain ⟨a, d₁, hact⟩ := ha.run d
  obtain ⟨_, d₂, hlast⟩ := hl.run d₁
  exact ⟨a, d₂, ensure_run hact hlast, trivial⟩

/-- What is done only when an action is interrupted is not done after one that returns. -/
theorem onInterrupt {act : Act σ α} (ha : Ends h act) (last : Act σ Unit) : Ends h (onInterrupt act last) := by
  intro d
  obtain ⟨a, e, hact⟩ := ha.run d
  exact ⟨a, e, onInterrupt_run hact, trivial⟩

theorem each {f : β → Act σ Unit} (hf : ∀ x, Ends h (f x)) : ∀ xs : List β, Ends h (each xs f)
  | [] => .pure ()
  | x :: xs => (hf x).bind fun _ => .each hf xs

variable (hh : h.ClientsReturn)

include hh

theorem call (c : Callback) : Ends h (call c) := by
  intro d
  obtain ⟨e, he⟩ := hh c (d.enter (.told c d.model.document))
  exact ⟨(), e, by simp only [Act.call, he], trivial⟩

theorem notify (o : Observer) (event : Event) : Ends h (notify o event) := by
  cases o with
  | view id => exact .call hh _
  | tabs id =>
    cases event with
    | changed document => exact (Ends.look _).bind fun pages => .each (fun page => .call hh _) pages
    | _ => exact .pure ()

theorem notifyPresent (o : Observer) (event : Event) : Ends h (notifyPresent o event) := by
  refine (Ends.look _).bind fun here => ?_
  cases here with
  | true => exact (Ends.change _).bind fun _ => (Ends.notify hh o event).ensure (.change _)
  | false => exact .pure ()

theorem emit (event : Event) : Ends h (emit event) := by
  refine (Ends.change _).bind fun _ => (Ends.look _).bind fun subscriptions => .each (fun s => ?_) subscriptions
  cases s.listener with
  | client id => exact .call hh _
  | relay o => exact .notifyPresent hh o event

end Ends

end Act

/-! ## Why the model refuses -/

namespace Model

variable {m : Model} {s : Share} {r : ModelError}

/-- No live share has the number. -/
def Stale (m : Model) (id : Nat) : Prop := ∀ t ∈ m.live, t.id ≠ id

/-- What is wrong with a share that is to serve for editing: it is not live, or was taken for reading. What it
claims about itself does not count. -/
inductive Unfit (m : Model) (s : Share) : ModelError → Prop
  | stale : m.Stale s.id → Unfit m s (.staleShare s.id)
  | reading : ⟨s.id, .read⟩ ∈ m.live → Unfit m s (.wrongAccess .edit .read)

/-- The share with the number is live, and was taken for editing. -/
def Edits (m : Model) (id : Nat) : Prop := ⟨id, .edit⟩ ∈ m.live

/-- Why a request for editing is refused: the share does not serve, or, when it does, something else stands in the
way. -/
def Refuses (m : Model) (s : Share) (obstacle : ModelError → Prop) (r : ModelError) : Prop :=
  m.Unfit s r ∨ m.Edits s.id ∧ obstacle r

/-- What stands in the way of a bracket. -/
inductive NoBracket (m : Model) : ModelError → Prop
  | document : m.document = none → NoBracket m .unavailable

/-- What stands in the way of a mutation. -/
inductive NoMutation (m : Model) : ModelError → Prop
  | bracket : m.changing = 0 → NoMutation m .notChanging
  | document : 0 < m.changing → m.document = none → NoMutation m .unavailable

/-- What stands in the way of a recording. -/
inductive NoRecording (m : Model) : ModelError → Prop
  | disabled : m.recordable = false → NoRecording m (.notRecordable .disabled)
  | document : m.recordable = true → m.document = none → NoRecording m (.notRecordable .noDocument)

/-- Why no bracket is closed. -/
inductive Unclosed (m : Model) (s : Share) : Notice → Prop
  | unfit {r : ModelError} : m.Unfit s r → Unclosed m s (.changedIgnored r)
  | unmatched : m.Edits s.id → m.changing = 0 → Unclosed m s .changedUnmatched

/-- Why no recording is ended. -/
inductive Unended (m : Model) (s : Share) : Notice → Prop
  | unfit {r : ModelError} : m.Unfit s r → Unended m s (.endRecordingIgnored r)
  | unmatched : m.Edits s.id → m.recording = none → Unended m s .endRecordingUnmatched

theorem accessOf?_none {id : Nat} : m.accessOf? id = none ↔ m.Stale id := by
  simp [accessOf?, Stale, List.find?_eq_none]

/-- A live share is known by its number. -/
theorem Numbered.accessOf?_some (hm : m.Numbered) {id : Nat} {access : Access} :
    m.accessOf? id = some access ↔ ⟨id, access⟩ ∈ m.live := by
  refine ⟨fun h => ?_, hm.accessOf?⟩
  obtain ⟨t, hfind, rfl⟩ := Option.map_eq_some_iff.1 h
  obtain rfl : t.id = id := by simpa using List.find?_some hfind
  exact List.mem_of_find?_eq_some hfind

theorem Numbered.objection?_edit (hm : m.Numbered) : m.objection? s .edit = some r ↔ m.Unfit s r := by
  constructor
  · intro h
    cases haccess : m.accessOf? s.id with
    | none =>
      obtain rfl : ModelError.staleShare s.id = r := by simpa [objection?, haccess] using h
      exact .stale (accessOf?_none.1 haccess)
    | some access =>
      cases access with
      | read =>
        obtain rfl : ModelError.wrongAccess .edit .read = r := by simpa [objection?, haccess] using h
        exact .reading (hm.accessOf?_some.1 haccess)
      | edit => simp [objection?, haccess] at h
  · rintro (hstale | hreading)
    · simp [objection?, accessOf?_none.2 hstale]
    · simp [objection?, hm.accessOf?_some.2 hreading]

/-- To look at the document, any live share serves. -/
theorem objection?_read : m.objection? s .read = some r ↔ m.Stale s.id ∧ r = .staleShare s.id := by
  rw [← accessOf?_none]
  cases haccess : m.accessOf? s.id with
  | none => simp [objection?, haccess, eq_comm]
  | some access => cases access <;> simp [objection?, haccess]

/-- A share serves for editing, or something is wrong with it. -/
theorem Numbered.edits_or_unfit (hm : m.Numbered) (s : Share) : m.Edits s.id ∨ ∃ r, m.Unfit s r := by
  cases hobjection : m.objection? s .edit with
  | none => exact .inl (hm.accessOf?_some.1 (objection?_edit_none.1 hobjection))
  | some r => exact .inr ⟨r, hm.objection?_edit.1 hobjection⟩

/-- A request that first looks at its share. -/
theorem Numbered.refuses_iff (hm : m.Numbered) {x y : Except ModelError α} {obstacle : ModelError → Prop}
    (hunfit : ∀ r, m.objection? s .edit = some r → x = .error r) (hfit : m.objection? s .edit = none → x = y)
    (hy : ∀ r, y = .error r ↔ obstacle r) : x = .error r ↔ m.Refuses s obstacle r := by
  -- What is wrong with the share comes first; what stands in the way counts only if nothing is.
  unfold Refuses
  cases hobjection : m.objection? s .edit with
  | some r' =>
    have hnot : ¬ m.Edits s.id := fun hedits => by
      rw [objection?_edit_none.2 (hm.accessOf?_some.2 hedits)] at hobjection
      cases hobjection
    rw [← hm.objection?_edit, hobjection, hunfit r' hobjection]
    simp [hnot]
  | none =>
    have hedits : m.Edits s.id := hm.accessOf?_some.1 (objection?_edit_none.1 hobjection)
    rw [← hm.objection?_edit, hobjection, hfit hobjection, hy]
    simp [hedits]

theorem Numbered.openBracket_error_iff (hm : m.Numbered) :
    m.openBracket s = .error r ↔ m.Refuses s m.NoBracket r := by
  refine hm.refuses_iff (fun r h => by simp only [openBracket, h])
    (fun h => by simp only [openBracket, h]; rfl) fun r => ⟨fun h => ?_, ?_⟩
  · split at h
    · next hdocument =>
      cases h
      exact .document (by simpa using hdocument)
    · cases h
  · rintro ⟨hdocument⟩
    simp [hdocument]

theorem Numbered.takeDocument_error_iff (hm : m.Numbered) :
    m.takeDocument s = .error r ↔ m.Refuses s m.NoMutation r := by
  refine hm.refuses_iff (fun r h => by simp only [takeDocument, h])
    (fun h => by simp only [takeDocument, h]; rfl) fun r => ⟨fun h => ?_, ?_⟩
  · split at h
    · next hchanging =>
      cases h
      exact .bracket hchanging
    · next hchanging =>
      split at h
      · next hdocument =>
        cases h
        exact .document (Nat.pos_of_ne_zero hchanging) hdocument
      · cases h
  · rintro (hchanging | ⟨hchanging, hdocument⟩)
    · simp [hchanging]
    · simp [Nat.ne_of_gt hchanging, hdocument]

theorem Numbered.beginRecording_error_iff (hm : m.Numbered) {owner : Owner} {label : Option String} :
    m.beginRecording s owner label = .error r ↔ m.Refuses s m.NoRecording r := by
  refine hm.refuses_iff (fun r h => by simp only [beginRecording, h])
    (fun h => by simp only [beginRecording, h]; rfl) fun r => ⟨fun h => ?_, ?_⟩
  · split at h
    · next hrecordable =>
      cases h
      exact .disabled (by simpa using hrecordable)
    · next hrecordable =>
      split at h
      · next hdocument =>
        cases h
        exact .document (by simpa using hrecordable) (by simpa using hdocument)
      · cases h
  · rintro (hrecordable | ⟨hrecordable, hdocument⟩)
    · simp [hrecordable]
    · simp [hrecordable, hdocument]

theorem subscribe_error_iff {listener : Listener} :
    m.subscribe s listener = .error r ↔ m.Stale s.id ∧ r = .staleShare s.id := by
  rw [← objection?_read]
  unfold subscribe
  cases m.objection? s .read <;> simp

theorem Numbered.closeBracket_error (hm : m.Numbered) {n : Notice} (hn : m.Unclosed s n) :
    m.closeBracket s = .error n := by
  cases hn with
  | unfit hunfit => simp [closeBracket, hm.objection?_edit.2 hunfit]
  | unmatched hedits hchanging =>
    simp [closeBracket, objection?_edit_none.2 (hm.accessOf?_some.2 hedits), hchanging]

theorem Numbered.endRecording_error (hm : m.Numbered) {owner : Owner} {n : Notice} (hn : m.Unended s n) :
    m.endRecording s owner = .error n := by
  cases hn with
  | unfit hunfit => simp [endRecording, hm.objection?_edit.2 hunfit]
  | unmatched hedits hrecording =>
    simp [endRecording, objection?_edit_none.2 (hm.accessOf?_some.2 hedits), hrecording]

/-- A bracket that is not closed for no reason is closed. -/
theorem Numbered.closed (hm : m.Numbered) (h : ∀ n, ¬ m.Unclosed s n) : m.Edits s.id ∧ 0 < m.changing := by
  obtain hedits | ⟨r, hunfit⟩ := hm.edits_or_unfit s
  · exact ⟨hedits, Nat.pos_of_ne_zero fun hchanging => h _ (.unmatched hedits hchanging)⟩
  · exact absurd (.unfit hunfit) (h _)

theorem Numbered.ended (hm : m.Numbered) (h : ∀ n, ¬ m.Unended s n) :
    m.Edits s.id ∧ ∃ r, m.recording = some r := by
  obtain hedits | ⟨r, hunfit⟩ := hm.edits_or_unfit s
  · exact ⟨hedits, Option.ne_none_iff_exists'.1 fun hrecording => h _ (.unmatched hedits hrecording)⟩
  · exact absurd (.unfit hunfit) (h _)

end Model

/-! ## Requests -/

/-- The desk after a notice was written. -/
def Desk.noted (d : Desk σ) (h : Host σ) (n : Notice) : Desk σ := { d with client := h.note n d.client }

namespace Act

/-- The request fails for these reasons and no others, and then the desk is as it was. -/
def RefusedFor (reasons : ModelError → Prop) (a : Act σ (Except ModelError α)) (h : Host σ) (d : Desk σ) : Prop :=
  ∀ r e, a h d = (.returned (.error r), e) ↔ reasons r ∧ e = d

/-- The request succeeds. -/
def Granted (a : Act σ (Except ModelError α)) (h : Host σ) (d : Desk σ) : Prop :=
  ∃ x e, a h d = (.returned (.ok x), e)

/-- For these reasons the request comes to a notice. -/
def IgnoredFor (reasons : Notice → Prop) (a : Act σ Unit) (h : Host σ) (d : Desk σ) : Prop :=
  ∀ n, reasons n → a h d = (.returned (), d.noted h n)

variable {h : Host σ} {d : Desk σ} {s : Share}

/-- A request that answers a refusal when a transition is refused, and only then. -/
theorem RefusedFor.of_transition {reasons : ModelError → Prop} {a : Act σ (Except ModelError α)}
    {x : Except ModelError β} (hx : ∀ r, x = .error r ↔ reasons r)
    (hrefused : ∀ r, x = .error r → a h d = (.returned (.error r), d))
    (haccepted : ∀ b r e, x = .ok b → a h d ≠ (.returned (.error r), e)) : RefusedFor reasons a h d := by
  intro r e
  rw [← hx]
  cases x with
  | error r' =>
    rw [hrefused r' rfl]
    simp [eq_comm]
  | ok b => simp [haccepted b r e rfl]

/-- A request that returns and is not refused succeeds. -/
theorem RefusedFor.granted {reasons : ModelError → Prop} {a : Act σ (Except ModelError α)}
    (ha : RefusedFor reasons a h d) (hends : Ends h a) (hno : ∀ r, ¬ reasons r) : Granted a h d := by
  obtain ⟨answer, e, hrun⟩ := hends.run d
  cases answer with
  | error r => exact absurd ((ha r e).1 hrun).1 (hno r)
  | ok x => exact ⟨x, e, hrun⟩

section

variable (hm : d.model.Numbered)

include hm

theorem openBracket_refusals : RefusedFor (d.model.Refuses s d.model.NoBracket) (openBracket s) h d :=
  .of_transition (fun _ => hm.openBracket_error_iff) (fun _ => openBracket_refused) fun _ _ _ hopen hrun => by
    cases openBracket_answer hopen hrun

theorem mutate_refusals (f : Document → Act σ (α × Document)) :
    RefusedFor (d.model.Refuses s d.model.NoMutation) (mutate s f) h d := by
  refine .of_transition (fun _ => hm.takeDocument_error_iff) (fun _ => mutate_refused) fun taken r e htake hrun => ?_
  -- The document was taken in hand, so what is answered is what the mutation answers.
  simp only [mutate, look_bind, htake, accept_bind] at hrun
  obtain ⟨_, d₁, -, hrun⟩ := bind_answer (congrArg Prod.fst hrun)
  simp only [look_bind, change_bind] at hrun
  split at hrun
  · obtain ⟨_, _, -, hrun⟩ := bind_answer hrun
    cases hrun
  · cases hrun

theorem beginRecording_refusals (owner : Owner) (label : Option String) :
    RefusedFor (d.model.Refuses s d.model.NoRecording) (beginRecording s owner label) h d :=
  .of_transition (fun _ => hm.beginRecording_error_iff) (fun _ => beginRecording_refused) fun _ _ _ hbegin hrun => by
    rw [beginRecording_run hbegin] at hrun
    cases hrun

theorem closeBracket_ignored : IgnoredFor (d.model.Unclosed s) (closeBracket s) h d := fun _ hn =>
  closeBracket_refused (hm.closeBracket_error hn)

theorem endRecording_ignored (owner : Owner) : IgnoredFor (d.model.Unended s) (endRecording s owner) h d :=
  fun _ hn => endRecording_refused (hm.endRecording_error hn)

/-- What is not ignored closes a bracket; the outermost one is announced. -/
theorem closeBracket_accepted (hno : ∀ n, ¬ d.model.Unclosed s n) :
    closeBracket s h d = (if d.model.changing = 1 then emit (.changed d.model.document) else pure ()) h
      (d.accepted s .changed { d.model.enter .changed with changing := d.model.changing - 1 }) := by
  obtain ⟨hedits, hchanging⟩ := hm.closed hno
  simp only [closeBracket, look_bind, Model.closeBracket_of_live (hm.accessOf?_some.2 hedits) hchanging, accept_bind]
  by_cases hlast : d.model.changing = 1
  · simp only [hlast]
    rfl
  · have hopen : d.model.changing - 1 ≠ 0 := by omega
    simp only [hlast, hopen]
    rfl

/-- What is not ignored ends the recording, or the inner part of it. -/
theorem endRecording_accepted (owner : Owner) (hno : ∀ n, ¬ d.model.Unended s n) :
    ∃ r, d.model.recording = some r ∧ endRecording s owner h d =
      (.returned (), d.accepted s .endRecording ((d.model.enter .endRecording).recordingEnded r)) := by
  obtain ⟨hedits, r, hr⟩ := hm.ended hno
  exact ⟨r, hr, endRecording_run (Model.endRecording_of_live owner (hm.accessOf?_some.2 hedits) hr)⟩

end

theorem subscribe_refusals (listener : Listener) :
    RefusedFor (fun r => d.model.Stale s.id ∧ r = .staleShare s.id) (subscribe s listener) h d :=
  .of_transition (fun _ => Model.subscribe_error_iff) (fun _ => subscribe_refused) fun _ _ _ hsubscribe hrun => by
    rw [subscribe_run hsubscribe] at hrun
    cases hrun

/-- To remove a subscription succeeds, or it is answered that there was none. -/
theorem unsubscribe_ends (token : Token) : ∃ removed e, unsubscribe s token h d = (.returned removed, e) ∧
    (removed = false ↔ d.model.Stale s.id ∨ ∀ x ∈ d.model.subscriptions, x.token ≠ token) ∧
    (d.model.Stale s.id → e = d.noted h (.unsubscribeIgnored (.staleShare s.id))) ∧
    (removed = false → ¬ d.model.Stale s.id → e = d) := by
  rw [← Model.accessOf?_none]
  cases haccess : d.model.accessOf? s.id with
  | none =>
    have hobjection := Model.objection?_read.2 ⟨Model.accessOf?_none.1 haccess, rfl⟩
    refine ⟨false, _, ?_, by simp, fun _ => rfl, fun _ hlive => absurd rfl hlive⟩
    simp only [unsubscribe, look_bind, Model.unsubscribe, hobjection, note_bind]
    rfl
  | some access =>
    have hlive : some access ≠ none := Option.some_ne_none access
    cases htoken : d.model.subscriptions.any (·.token == token) with
    | false =>
      exact ⟨false, d, unsubscribe_absent (Model.unsubscribe_absent haccess htoken), by simpa using htoken,
        fun hnone => absurd hnone hlive, fun _ _ => rfl⟩
    | true =>
      exact ⟨true, _, unsubscribe_run (Model.unsubscribe_of_live haccess htoken), by simpa using htoken,
        fun hnone => absurd hnone hlive, fun hremoved => absurd hremoved (by decide)⟩

namespace Ends

variable (hh : h.ClientsReturn)

include hh

theorem openBracket (s : Share) : Ends h (openBracket s) := by
  refine (Ends.look _).bind fun m => ?_
  cases m.openBracket s with
  | error r => exact .pure _
  | ok m =>
    refine (Ends.change _).bind fun _ => ?_
    by_cases hfirst : m.changing = 1
    · simp only [hfirst, if_true]
      exact (Ends.emit hh _).bind fun _ => .pure _
    · simp only [hfirst, if_false]
      exact .pure _

theorem mutate (s : Share) {f : Document → Act σ (α × Document)} (hf : ∀ document, Ends h (f document)) :
    Ends h (mutate s f) := by
  refine (Ends.look _).bind fun m => ?_
  cases m.takeDocument s with
  | error r => exact .pure _
  | ok taken =>
    refine (Ends.change _).bind fun _ => ((hf taken.1).onInterrupt _).bind fun _ => (Ends.look _).bind fun wasDirty =>
      (Ends.change _).bind fun _ => ?_
    cases wasDirty with
    | true => exact .pure _
    | false => exact (Ends.emit hh _).bind fun _ => .pure _

end Ends

theorem beginRecording_granted (hm : d.model.Numbered) (owner : Owner) (label : Option String)
    (hno : ∀ r, ¬ d.model.Refuses s d.model.NoRecording r) : Granted (beginRecording s owner label) h d := by
  cases hbegin : d.model.beginRecording s owner label with
  | error r => exact absurd (hm.beginRecording_error_iff.1 hbegin) (hno r)
  | ok m => exact ⟨(), _, beginRecording_run hbegin⟩

theorem subscribe_granted (listener : Listener) (hlive : ¬ d.model.Stale s.id) :
    Granted (subscribe s listener) h d := by
  cases hsubscribe : d.model.subscribe s listener with
  | error r => exact absurd (Model.subscribe_error_iff.1 hsubscribe).1 hlive
  | ok subscribed => exact ⟨_, _, subscribe_run hsubscribe⟩

end Act

namespace Host.Callers

variable {n : Nat} {h : Host σ}

/-- **Shares are known by their numbers, and requests are refused for their reasons.** At every moment of
whatever is done with a new model, and for every share, be it live, given back or made up: requests are refused
for their reasons alone, and then the desk is as it was; where there is none they are granted. What ends a
bracket or a recording is ignored with a notice when the share does not serve or nothing is to be ended; a
subscription is removed exactly when the share is live and the token is listed. -/
theorem share_discipline (hh : h.Callers n (Act.DeskOp Act.PublicOrClear)) {a : Act σ α}
    (ha : Act.Caller n (Act.DeskOp Act.PublicOrClear) a) {document : Option Document} {location : String}
    {d e : Desk σ} (hmodel : d.model = { document, location }) (hhistory : d.history = #[]) (hrun : (a h d).2 = e)
    (k : Host σ) (s : Share) :
    ((Act.openBracket s).RefusedFor (e.model.Refuses s e.model.NoBracket) k e ∧
      (∀ {β : Type} (f : Document → Act σ (β × Document)),
        (Act.mutate s f).RefusedFor (e.model.Refuses s e.model.NoMutation) k e) ∧
      (∀ owner label, (Act.beginRecording s owner label).RefusedFor (e.model.Refuses s e.model.NoRecording) k e) ∧
      ∀ listener, (Act.subscribe s listener).RefusedFor
        (fun r => e.model.Stale s.id ∧ r = .staleShare s.id) k e) ∧
    (k.ClientsReturn → (∀ r, ¬ e.model.Refuses s e.model.NoBracket r) → (Act.openBracket s).Granted k e) ∧
    (k.ClientsReturn → (∀ r, ¬ e.model.Refuses s e.model.NoMutation r) → ∀ {β : Type}
      (f : Document → Act σ (β × Document)), (∀ document, (f document).Ends k) → (Act.mutate s f).Granted k e) ∧
    ((∀ r, ¬ e.model.Refuses s e.model.NoRecording r) → ∀ owner label,
      (Act.beginRecording s owner label).Granted k e) ∧
    (¬ e.model.Stale s.id → ∀ listener, (Act.subscribe s listener).Granted k e) ∧
    ((Act.closeBracket s).IgnoredFor (e.model.Unclosed s) k e ∧ ((∀ n, ¬ e.model.Unclosed s n) →
      Act.closeBracket s k e = (if e.model.changing = 1 then Act.emit (.changed e.model.document) else pure ()) k
        (e.accepted s .changed { e.model.enter .changed with changing := e.model.changing - 1 }))) ∧
    (∀ owner, (Act.endRecording s owner).IgnoredFor (e.model.Unended s) k e ∧ ((∀ n, ¬ e.model.Unended s n) →
      ∃ r, e.model.recording = some r ∧ Act.endRecording s owner k e =
        (.returned (), e.accepted s .endRecording ((e.model.enter .endRecording).recordingEnded r)))) ∧
    ∀ token, ∃ removed f, Act.unsubscribe s token k e = (.returned removed, f) ∧
      (removed = false ↔ e.model.Stale s.id ∨ ∀ x ∈ e.model.subscriptions, x.token ≠ token) ∧
      (e.model.Stale s.id → f = e.noted k (.unsubscribeIgnored (.staleShare s.id))) ∧
      (removed = false → ¬ e.model.Stale s.id → f = e) := by
  have he : e.Audited := hrun ▸ hh.audited ha d (.new hmodel hhistory)
  have hm := he.numbering.live
  refine ⟨⟨Act.openBracket_refusals hm, Act.mutate_refusals hm, Act.beginRecording_refusals hm,
    Act.subscribe_refusals⟩, fun hk hno => ?_, fun hk hno β f hf => ?_, fun hno owner label => ?_,
    fun hlive listener => ?_, ⟨Act.closeBracket_ignored hm, Act.closeBracket_accepted hm⟩, fun owner => ?_,
    Act.unsubscribe_ends⟩
  · exact (Act.openBracket_refusals hm).granted (.openBracket hk s) hno
  · exact (Act.mutate_refusals hm f).granted (.mutate hk s hf) hno
  · exact Act.beginRecording_granted hm owner label hno
  · exact Act.subscribe_granted listener hlive
  · exact ⟨Act.endRecording_ignored hm owner, Act.endRecording_accepted hm owner⟩

/-- While a mutation has the document in hand: the share that its session took serves whatever it claims, only there is
no document; a share for reading does not serve, whatever it claims, and a made-up number is no share's. -/
theorem share_discipline_midway :
    let h : Host Unit := .silent
    let a : Act Unit (Except ModelError (Edited Unit)) := do
      let _ ← Act.acquire .read
      Act.edit 0 fun s => Act.mutateIn s fun _ => Act.halt
    let d : Desk Unit := { model := { document := some "d", location := "f" }, coordinators := [{}], client := () }
    let e := (a h d).2
    e.model.live = [⟨2, .edit⟩, ⟨1, .read⟩] ∧ e.model.document = none ∧
      Act.openBracket ⟨2, .read⟩ h e = (.returned (.error .unavailable), e) ∧
      Act.mutate ⟨1, .edit⟩ (fun document => pure ((), document)) h e =
        (.returned (.error (.wrongAccess .edit .read)), e) ∧
      Act.beginRecording ⟨2, .edit⟩ (.client 0) none h e =
        (.returned (.error (.notRecordable .noDocument)), e) ∧
      Act.subscribe ⟨9, .edit⟩ (.client 0) h e = (.returned (.error (.staleShare 9)), e) ∧
      (Act.subscribe ⟨1, .edit⟩ (.client 0)).Granted h e ∧
      Act.closeBracket ⟨1, .edit⟩ h e = (.returned (), e.noted h (.changedIgnored (.wrongAccess .edit .read))) ∧
      Act.endRecording ⟨2, .edit⟩ (.client 0) h e = (.returned (), e.noted h .endRecordingUnmatched) := by
  intro h a d e
  have hh : h.Callers 1 (Act.DeskOp Act.PublicOrClear) := .silent fun _ _ => rfl
  have ha : Act.Caller 1 (Act.DeskOp Act.PublicOrClear) a :=
    .bind (.op (.hand (.hand (.shareOp (.acquire _))))) fun _ => .edit (by decide)
      (.mutateIn (fun ha => .hand (.hand (.offBooks ha))) _ fun _ => .op (.hand (.hand (.offBooks .halt))))
  have hlive : e.model.live = [⟨2, .edit⟩, ⟨1, .read⟩] := by decide +kernel
  have hdocument : e.model.document = none := by decide +kernel
  have hrecording : e.model.recording = none := by decide +kernel
  have hrecordable : e.model.recordable = true := by decide +kernel
  have hedits : e.model.Edits 2 := by simp [Model.Edits, hlive]
  have hread : ⟨1, .read⟩ ∈ e.model.live := by simp [hlive]
  have hstale : e.model.Stale 9 := by simp [Model.Stale, hlive]
  obtain ⟨⟨hopen, -⟩, -⟩ := hh.share_discipline ha (d := d) rfl rfl rfl h ⟨2, .read⟩
  obtain ⟨⟨-, hmutate, -⟩, -, -, -, hsubscribe, ⟨hclose, -⟩, -⟩ :=
    hh.share_discipline ha (d := d) rfl rfl rfl h ⟨1, .edit⟩
  obtain ⟨⟨-, -, -, hmade⟩, -⟩ := hh.share_discipline ha (d := d) rfl rfl rfl h ⟨9, .edit⟩
  obtain ⟨⟨-, -, hbegin, -⟩, -, -, -, -, -, hend, -⟩ := hh.share_discipline ha (d := d) rfl rfl rfl h ⟨2, .edit⟩
  exact ⟨hlive, hdocument, (hopen _ _).2 ⟨.inr ⟨hedits, .document hdocument⟩, rfl⟩,
    (hmutate _ _ _).2 ⟨.inl (.reading hread), rfl⟩,
    (hbegin _ _ _ _).2 ⟨.inr ⟨hedits, .document hrecordable hdocument⟩, rfl⟩, (hmade _ _ _).2 ⟨⟨hstale, rfl⟩, rfl⟩,
    hsubscribe (fun hnone => hnone _ hread rfl) _, hclose _ (.unfit (.reading hread)),
    (hend _).1 _ (.unmatched hedits hrecording)⟩

end Host.Callers

end FormDesk
