/-
What clients do. `Client n Op` is the class of actions that are put together
from the operations `Op` and from sessions of the coordinators below `n`:
mutations in a session, edits and undoable edits nested in any way, failures,
interruptions that are caught. `Clients n Op` is the class of hosts whose
clients, when they are called, act so in turn.

How deep calls of clients go is not bounded, but each of them comes to an end:
what answers a call runs under another host, chosen by the call and the desk.

What holds of the operations and is passed on by sequencing, catching and the
ways of editing (`Passed`) holds of all such actions, under all such hosts.
-/
import FormDesk.Proofs.Step

namespace FormDesk

variable {σ : Type}

namespace Act

/-- A set of actions, whatever they answer. -/
abbrev Actions (σ : Type) : Type 1 := {α : Type} → Act σ α → Prop

/-- A mutation of the document in the session of a scope. -/
def mutateIn {α : Type} (s : Scope) (f : Document → Act σ (α × Document)) : Act σ (Except ModelError α) := do
  mutate (← scopeShare s) f

/-- The operations that touch neither shares nor brackets: to look, to be interrupted, to keep a state
of one's own, to make the model unavailable or barred from recording, or to undo that. -/
inductive SwitchOp : Actions σ
  | look {α} (f : Desk σ → α) : SwitchOp (Act.look f)
  | interrupt {α} (message : String) : SwitchOp (Act.interrupt message : Act σ α)
  | own (f : σ → σ) : SwitchOp (Act.change fun d => { d with client := f d.client })
  | setAvailable (available : Bool) : SwitchOp (Act.setAvailable available)
  | setRecordable (recordable : Bool) : SwitchOp (Act.setRecordable recordable)

/-- The actions that are put together from operations and from sessions of the coordinators below `n`. -/
inductive Client (n : Nat) (Op : Actions σ) : {α : Type} → Act σ α → Prop
  | op {α} {a : Act σ α} : Op a → Client n Op a
  | pure {α} (a : α) : Client n Op (pure a : Act σ α)
  | bind {α β} {x : Act σ α} {f : α → Act σ β} :
      Client n Op x → (∀ a, Client n Op (f a)) → Client n Op (x >>= f)
  | attempt {α} {x : Act σ α} : Client n Op x → Client n Op (attempt x)
  | mutate {α} (s : Scope) {f : Document → Act σ (α × Document)} :
      (∀ document, Client n Op (f document)) → Client n Op (mutateIn s f)
  | edit {ε α id} {mutation : Scope → Act σ (Except ε α)} :
      id < n → Client n Op (mutation ⟨id⟩) → Client n Op (edit id mutation)
  | undoable {ε α id} (label : Option String) {mutation : Scope → Act σ (Except ε α)} :
      id < n → Client n Op (mutation ⟨id⟩) → Client n Op (undoableEdit id label mutation)

/-- Properties of actions that are passed on to what is put together from them. -/
structure Passed (n : Nat) (P : Actions σ) : Prop where
  pure : ∀ {α} (a : α), P (pure a : Act σ α)
  bind : ∀ {α β} {x : Act σ α} {f : α → Act σ β}, P x → (∀ a, P (f a)) → P (x >>= f)
  attempt : ∀ {α} {x : Act σ α}, P x → P (attempt x)
  mutate : ∀ {α} (s : Scope) {f : Document → Act σ (α × Document)},
    (∀ document, P (f document)) → P (mutateIn s f)
  edit : ∀ {ε α id} {mutation : Scope → Act σ (Except ε α)},
    id < n → P (mutation ⟨id⟩) → P (edit id mutation)
  undoable : ∀ {ε α id} (label : Option String) {mutation : Scope → Act σ (Except ε α)},
    id < n → P (mutation ⟨id⟩) → P (undoableEdit id label mutation)

theorem Client.passed {n : Nat} {Op P : Actions σ} (hp : Passed n P)
    (hop : ∀ {α} {a : Act σ α}, Op a → P a) {α : Type} {a : Act σ α} (ha : Client n Op a) : P a := by
  induction ha with
  | op h => exact hop h
  | pure a => exact hp.pure a
  | bind _ _ hx hf => exact hp.bind hx hf
  | attempt _ hx => exact hp.attempt hx
  | mutate s _ hf => exact hp.mutate s hf
  | edit hid _ hm => exact hp.edit hid hm
  | undoable label hid _ hm => exact hp.undoable label hid hm

end Act

/-- The hosts whose clients, when they are called, do what clients do. -/
inductive Host.Clients (n : Nat) (Op : Act.Actions σ) : Host σ → Prop
  | silent {h : Host σ} : (∀ c d, h.answer c d = (.returned (), d)) → Clients n Op h
  | react {h : Host σ} (inner : Callback → Desk σ → Host σ) (reaction : Callback → Desk σ → Act σ Unit) :
      (∀ c d, Clients n Op (inner c d)) → (∀ c d, Act.Client n Op (reaction c d)) →
      (∀ c d, h.answer c d = reaction c d (inner c d) d) → Clients n Op h

/-- A host whose clients do nothing when they are called. -/
def Host.silent : Host σ := ⟨fun _ d => (.returned (), d), fun _ s => s⟩

/-- A host whose clients answer every call with one action, during which they do nothing. -/
def Host.answering (a : Act σ Unit) : Host σ := ⟨fun _ => a .silent, fun _ s => s⟩

theorem Host.Clients.answering {n : Nat} {Op : Act.Actions σ} {a : Act σ Unit} (ha : Act.Client n Op a) :
    (Host.answering a).Clients n Op :=
  .react (fun _ _ => .silent) (fun _ _ => a) (fun _ _ => .silent fun _ _ => rfl)
    (fun _ _ => ha) fun _ _ => rfl

/-- The listeners answer every changed document with one action; the other clients do nothing. -/
def Act.onChange (a : Act σ Unit) : Callback → Act σ Unit
  | .listener _ (.changed _) => a
  | _ => pure ()

/-- A host whose listeners answer every changed document with one action, during which clients do nothing. -/
def Host.interfering (a : Act σ Unit) : Host σ := ⟨fun c => a.onChange c .silent, fun _ s => s⟩

theorem Host.Clients.interfering {n : Nat} {Op : Act.Actions σ} {a : Act σ Unit} (ha : Act.Client n Op a) :
    (Host.interfering a).Clients n Op := by
  refine .react (fun _ _ => .silent) (fun c _ => a.onChange c) (fun _ _ => .silent fun _ _ => rfl)
    (fun c _ => ?_)
    fun _ _ => rfl
  unfold Act.onChange
  split
  · exact ha
  · exact .pure ()

/-- What clients do has the property `P`, and stays within `R`, when under each host whose clients stay
within `R` the operations have `P` and editing passes it on. -/
theorem Host.Clients.passed {n : Nat} {Op : Act.Actions σ} {R : Desk σ → Desk σ → Prop}
    {P : Host σ → Act.Actions σ} (hR : Desk.Path R)
    (hp : ∀ h : Host σ, (∀ c d, R d (h.answer c d).2) →
      Act.Passed n (P h) ∧ ∀ {α} {a : Act σ α}, Op a → P h a)
    (hw : ∀ (h : Host σ) {α} {a : Act σ α}, P h a → Act.Within R h a) {h : Host σ} (hh : h.Clients n Op) :
    (∀ c d, R d (h.answer c d).2) ∧ ∀ {α} {a : Act σ α}, Act.Client n Op a → P h a := by
  have answers : ∀ c d, R d (h.answer c d).2 := by
    induction hh with
    | silent hs => exact fun c d => by rw [hs c d]; exact hR.refl d
    | react inner reaction _ hre heq ih =>
      intro c d
      rw [heq c d]
      obtain ⟨hpassed, hop⟩ := hp (inner c d) (ih c d)
      exact hw _ ((hre c d).passed hpassed hop) d
  obtain ⟨hpassed, hop⟩ := hp h answers
  exact ⟨answers, fun ha => ha.passed hpassed hop⟩

namespace Act

variable {R : Desk σ → Desk σ → Prop} {h : Host σ}

theorem scopeShare_run {s : Scope} {d : Desk σ} {inner : Nat} {share : Share}
    (hs : (d.coordinator s.coordinator).session = .active inner share) :
    scopeShare s h d = (.returned share, d) := by
  simp [scopeShare, hs, Sessions.share?]

/-- A scope whose session is over serves nobody. -/
theorem scopeShare_idle {s : Scope} {d : Desk σ} (hs : (d.coordinator s.coordinator).session = .idle) :
    ∃ message, scopeShare s h d = (.interrupted message, d) :=
  ⟨_, by simp [scopeShare, hs, Sessions.share?]; rfl⟩

theorem scopeShare_within (hR : Desk.Path R) (s : Scope) : Within R h (scopeShare s) := by
  intro d
  cases hs : (d.coordinator s.coordinator).session with
  | idle =>
    obtain ⟨message, hrun⟩ := scopeShare_idle (h := h) hs
    rw [hrun]
    exact hR.refl d
  | active inner share =>
    rw [scopeShare_run hs]
    exact hR.refl d

/-- A relation that contains every step, and that the clients stay within, is one for an event. -/
theorem deliver_within_steps (hR : Desk.Path R) (hs : ∀ d e, Desk.Step d e → R d e)
    (hheld : ∀ d l, R d { d with held := l }) (hc : ∀ c d, R d (h.answer c d).2) (event : Event)
    (l : Listener) :
    Within R h (deliver event l) :=
  deliver_within hR (call_within hR (fun _ _ => hs _ _ (.told _)) (fun _ _ => hs _ _ (.threw _)) hc)
    hheld event l

section

variable (hR : Desk.Path R) (hs : ∀ d e, Desk.Step d e → R d e) (hd : ∀ event l, Within R h (deliver event l))

include hR hs hd

theorem mutateIn_within {α : Type} (s : Scope) {f : Document → Act σ (α × Document)}
    (hf : ∀ document, Within R h (f document)) : Within R h (mutateIn s f) :=
  Within.bind hR (scopeShare_within hR s) fun _ _ =>
    mutate_within hR (fun _ _ heq => hs _ _ (.takeDocument heq)) (fun _ _ => hs _ _ (.putDocument _))
      (fun _ => hs _ _ .lost) (fun d => emit_within hR hd (hs d _ .dirtied)) hf

/-- A relation that contains every step is passed on. -/
theorem Passed.steps (hr : ∀ d e, Desk.Recorded d e → R d e) (n : Nat) :
    Passed n (fun a => Within R h a) where
  pure := Within.pure hR
  bind := Within.bind hR
  attempt := Within.attempt
  mutate := mutateIn_within hR hs hd
  edit _ hm := edit_within hR hs hd _ hm
  undoable label _ _ hm := undoableEdit_within hR hs hd hr _ label hm

end

end Act

/-- **What clients do stays within `R`** when `R` contains every step and the operations stay within it. -/
theorem Host.Clients.within {n : Nat} {Op : Act.Actions σ} {R : Desk σ → Desk σ → Prop} (hR : Desk.Path R)
    (hs : ∀ d e, Desk.Step d e → R d e) (hr : ∀ d e, Desk.Recorded d e → R d e)
    (hheld : ∀ d l, R d { d with held := l })
    (hop : ∀ (h : Host σ) {α} {a : Act σ α}, Op a → a.Within R h) {h : Host σ} (hh : h.Clients n Op) :
    (∀ c d, R d (h.answer c d).2) ∧ ∀ {α} {a : Act σ α}, Act.Client n Op a → a.Within R h :=
  hh.passed (P := fun h _ a => a.Within R h) hR
    (fun h hc => ⟨.steps hR hs (Act.deliver_within_steps hR hs hheld hc) hr n, hop h⟩) fun _ _ _ => id

end FormDesk
