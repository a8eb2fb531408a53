/-
Brackets and recordings by hand. The demands that a client makes of a model with
shares in hand may come in any order: brackets and recordings overlap, shares are
stale or were taken for reading, owners differ. All that a model makes of them is
said by a few counters (`Counters`): a demand moves them, or leaves them when its
share does not serve, and what is announced can be read off the counters before
and after (`Counters.announced`).

The model and the counters go together step by step (`demand_counted`) and so
over any list of demands (`demands_counted`), as long as the clients that are
told of events stand by.
-/
import FormDesk.Proofs.Bystander
import FormDesk.Proofs.Transition

namespace FormDesk

variable {σ : Type}

/-- A demand that is made of a model by hand. -/
inductive Demand where
  | acquire (access : Access)
  | release (s : Share)
  | openBracket (s : Share)
  | closeBracket (s : Share)
  | mutate (s : Share) (f : Document → Document)
  | beginRecording (s : Share) (owner : Owner) (label : Option String)
  | endRecording (s : Share) (owner : Owner)

namespace Act

/-- Makes a demand, and answers the share that was taken, if it was for one, or why it is refused. -/
def demand : Demand → Act σ (Except ModelError (Option Share))
  | .acquire access => return (← acquire access).map some
  | .release s => do
    release s
    return .ok none
  | .openBracket s => return (← openBracket s).map fun _ => none
  | .closeBracket s => do
    closeBracket s
    return .ok none
  | .mutate s f => return (← mutate s fun document => pure ((), f document)).map fun _ => none
  | .beginRecording s owner label => return (← beginRecording s owner label).map fun _ => none
  | .endRecording s owner => do
    endRecording s owner
    return .ok none

/-- Makes demands one after another, and answers them all. -/
def demands : List Demand → Act σ (List (Except ModelError (Option Share)))
  | [] => pure []
  | x :: rest => do
    let answer ← demand x
    return answer :: (← demands rest)

end Act

/-! ## Counters -/

/-- What there is to say of a model that has a document. -/
structure Counters where
  document : Document
  dirty : Bool := false
  /-- The number of the next share. -/
  next : Nat := 1
  /-- What the live share with a number was taken for. -/
  shares : Nat → Option Access := fun _ => none
  brackets : Nat := 0
  recordings : Nat := 0
  /-- The label, the owner and the document of the begin that found no recording open. -/
  first : Segment := default
  /-- The undo segments, the latest first. -/
  segments : List Segment := []

namespace Counters

/-- Whether a share serves for editing: its number is that of a live edit share. -/
def serves (c : Counters) (s : Share) : Bool := c.shares s.id == some .edit

/-- Why a share does not serve for editing. -/
def refusal (c : Counters) (s : Share) : ModelError :=
  match c.shares s.id with
  | none => .staleShare s.id
  | some access => .wrongAccess .edit access

/-- The counters after a demand. -/
def move (c : Counters) : Demand → Counters
  | .acquire access =>
    { c with next := c.next + 1, shares := fun id => if id = c.next then some access else c.shares id }
  | .release s => { c with shares := fun id => if id = s.id then none else c.shares id }
  | .openBracket s => if c.serves s then { c with brackets := c.brackets + 1 } else c
  | .closeBracket s => if c.serves s then { c with brackets := c.brackets - 1 } else c
  | .mutate s f => if c.serves s ∧ 0 < c.brackets then { c with document := f c.document, dirty := true } else c
  | .beginRecording s owner label =>
    if c.serves s then
      { c with
        recordings := c.recordings + 1
        first := if c.recordings = 0 then ⟨label, owner, some c.document⟩ else c.first }
    else c
  | .endRecording s _ =>
    if c.serves s then
      { c with
        recordings := c.recordings - 1
        segments := if c.recordings = 1 then c.first :: c.segments else c.segments }
    else c

/-- What is announced as the counters move: the first bracket, the last one, and that the model became dirty. -/
def announced (c c' : Counters) : List Event :=
  (if c.brackets = 0 ∧ c'.brackets = 1 then [.aboutToChange] else []) ++
  (if c.brackets = 1 ∧ c'.brackets = 0 then [.changed (some c'.document)] else []) ++
  if c.dirty = false ∧ c'.dirty = true then [.dirtyChanged true] else []

/-- The answer to a demand. -/
def answer (c : Counters) : Demand → Except ModelError (Option Share)
  | .acquire access => .ok (some ⟨c.next, access⟩)
  | .openBracket s | .beginRecording s _ _ => if c.serves s then .ok none else .error (c.refusal s)
  | .mutate s _ =>
    if c.serves s then if 0 < c.brackets then .ok none else .error .notChanging else .error (c.refusal s)
  | .release _ | .closeBracket _ | .endRecording .. => .ok none

/-- The counters after demands. -/
def after (c : Counters) (demands : List Demand) : Counters := demands.foldl move c

/-- What is announced over demands. -/
def events (c : Counters) : List Demand → List Event
  | [] => []
  | x :: rest => c.announced (c.move x) ++ (c.move x).events rest

/-- The answers to demands. -/
def answers (c : Counters) : List Demand → List (Except ModelError (Option Share))
  | [] => []
  | x :: rest => c.answer x :: (c.move x).answers rest

/-- The counters say what there is to say of a model. -/
structure Counts (c : Counters) (m : Model) : Prop where
  available : m.available = true
  recordable : m.recordable = true
  document : m.document = some c.document
  dirty : m.dirty = c.dirty
  next : m.nextShare = c.next
  shares : ∀ id, m.accessOf? id = c.shares id
  brackets : m.changing = c.brackets
  recording : m.recording = if c.recordings = 0 then none else some ⟨c.first, c.recordings - 1⟩
  segments : m.undoStack = c.segments

/-- A new model with a document is counted from the start, whoever listens. -/
theorem Counts.new (document : Document) (location : String) (nextToken : Token) (subscriptions : List Subscription) :
    Counts { document } { document := some document, location, nextToken, subscriptions } :=
  ⟨rfl, rfl, rfl, rfl, rfl, fun _ => rfl, rfl, rfl, rfl⟩

variable {c : Counters} {m m' : Model} {s : Share}

theorem announced_still {c' : Counters} (hb : c'.brackets = c.brackets) (hd : c'.dirty = c.dirty) :
    c.announced c' = [] := by
  rw [announced, if_neg (by omega), if_neg (by omega), if_neg (by simp [hd])]
  rfl

theorem announced_dirtied {c' : Counters} (hb : c'.brackets = c.brackets) (hd : c.dirty = false)
    (hd' : c'.dirty = true) : c.announced c' = [.dirtyChanged true] := by
  rw [announced, if_neg (by omega), if_neg (by omega), if_pos ⟨hd, hd'⟩]
  rfl

theorem Counts.live (hc : c.Counts m) (h : c.serves s = true) : m.accessOf? s.id = some .edit := by
  simpa [serves, hc.shares] using h

theorem Counts.objection (hc : c.Counts m) (h : c.serves s = false) :
    m.objection? s .edit = some (c.refusal s) := by
  simp only [serves, beq_eq_false_iff_ne] at h
  unfold Model.objection? refusal
  rw [hc.shares]
  cases hs : c.shares s.id with
  | none => rfl
  | some access =>
    cases access with
    | read => rfl
    | edit => exact absurd hs h

end Counters

/-! ## The model and its counters -/

namespace Desk

/-- The model moved as its counters did, and what they announce was heard. -/
structure Counted (c c' : Counters) (d e : Desk σ) : Prop where
  counts : c'.Counts e.model
  subscriptions : e.model.subscriptions = d.model.subscriptions
  emitted : e.emitted = d.emitted ++ c.announced c'
  hears : ∀ id, e.hears id = d.hears id ++ (c.announced c').flatMap (List.replicate (d.listening id))

variable {c c' : Counters} {d e f : Desk σ} {s : Share} {call : Call} {m : Model}

@[simp] theorem emitted_accepted : (d.accepted s call m).emitted = d.emitted := by
  simp [Desk.emitted, Deed.emitted?]

@[simp] theorem hears_accepted (id : ListenerId) : (d.accepted s call m).hears id = d.hears id := by
  simp [Desk.hears, Deed.hears?]

theorem Counted.silent (hc : c'.Counts e.model) (hs : e.model.subscriptions = d.model.subscriptions)
    (he : e.emitted = d.emitted) (hh : ∀ id, e.hears id = d.hears id) (hb : c'.brackets = c.brackets)
    (hd : c'.dirty = c.dirty) : Counted c c' d e := by
  have hnone := Counters.announced_still hb hd
  exact ⟨hc, hs, by simp [hnone, he], fun id => by simp [hnone, hh]⟩

/-- A demand that is refused or ignored. -/
theorem Counted.refl (hc : c.Counts d.model) (s : σ) : Counted c c d { d with client := s } :=
  .silent hc rfl rfl (fun _ => rfl) rfl rfl

/-- A call that announces one event. -/
theorem Counted.emit {h : Host σ} (hh : h.Bystander) (event : Event) (hc : c'.Counts e.model)
    (hs : e.model.subscriptions = d.model.subscriptions) (he : e.emitted = d.emitted)
    (hheard : ∀ id, e.hears id = d.hears id) (hevent : c.announced c' = [event]) :
    ∃ f, Act.emit event h e = (.returned (), f) ∧ Counted c c' d f := by
  obtain ⟨f, hrun, hmodel, hemitted, hhears⟩ := Act.emit_hears hh event e
  refine ⟨f, hrun, by rwa [hmodel], by rw [hmodel, hs], by rw [hemitted, he, hevent], fun id => ?_⟩
  rw [hhears, hheard, hevent, List.flatMap_singleton, listening, hs, listening]

end Desk

namespace Act

open Desk (Counted)

variable {h : Host σ} {c : Counters} {d : Desk σ} {s : Share}

section

variable (hd : c.Counts d.model)

include hd

theorem acquire_counted (access : Access) :
    ∃ e, demand (.acquire access) h d = (.returned (c.answer (.acquire access)), e) ∧
      Counted c (c.move (.acquire access)) d e := by
  have hacquire := Model.acquire_of_available hd.available access
  rw [hd.next] at hacquire
  refine ⟨_, (bind_run (acquire_run hacquire)).trans rfl, .silent ?_ rfl (by simp) (by simp) rfl rfl⟩
  refine { hd with next := rfl, shares := fun id => ?_ }
  by_cases hid : c.next = id
  · simp [Model.accessOf?, Counters.move, hid]
  · have hne : (c.next == id) = false := by simpa using hid
    simpa [Model.accessOf?, Counters.move, hne, Ne.symm hid] using hd.shares id

theorem release_counted (s : Share) :
    ∃ e, demand (.release s) h d = (.returned (c.answer (.release s)), e) ∧
      Counted c (c.move (.release s)) d e := by
  cases hlive : d.model.accessOf? s.id with
  | none =>
    have hrun : demand (.release s) h d = _ := bind_run (release_refused (by simp [Model.release?, hlive]))
    refine ⟨_, hrun, .silent ?_ rfl rfl (fun _ => rfl) rfl rfl⟩
    refine { hd with shares := fun id => ?_ }
    by_cases hid : id = s.id
    · simp [Counters.move, hid, hlive]
    · simpa [Counters.move, hid] using hd.shares id
  | some access =>
    have hrun : demand (.release s) h d = _ := bind_run (release_run (Model.release?_of_live hlive))
    refine ⟨_, hrun, .silent ?_ rfl (by simp) (by simp) rfl rfl⟩
    refine { hd with shares := fun id => ?_ }
    by_cases hid : id = s.id
    · simp [Counters.move, Model.accessOf?, hid]
    · have hlive : (d.model.live.filter (·.id != s.id)).find? (·.id == id) = d.model.live.find? (·.id == id) := by
        rw [List.find?_filter]
        congr 1
        funext t
        by_cases ht : t.id = id <;> simp [ht, hid]
      simp only [Desk.model_accepted, Model.accessOf?, Counters.move, hid, if_false, hlive]
      exact hd.shares id

theorem openBracket_counted (hh : h.Bystander) (s : Share) :
    ∃ e, demand (.openBracket s) h d = (.returned (c.answer (.openBracket s)), e) ∧
      Counted c (c.move (.openBracket s)) d e := by
  cases hs : c.serves s with
  | false =>
    have hopen : d.model.openBracket s = .error (c.refusal s) := by simp [Model.openBracket, hd.objection hs]
    have hrun : demand (.openBracket s) h d = (.returned (.error (c.refusal s)), d) :=
      bind_run (openBracket_refused hopen)
    simp only [Counters.answer, Counters.move, hs, Bool.false_eq_true, if_false]
    exact ⟨d, hrun, .refl hd d.client⟩
  | true =>
    have hopen := Model.openBracket_of_live (hd.live hs) (by simp [hd.document])
    rw [hd.brackets] at hopen
    obtain ⟨m, hm⟩ : ∃ m, m = { d.model.enter .aboutToChange with changing := c.brackets + 1 } := ⟨_, rfl⟩
    rw [← hm] at hopen
    have hcounts : { c with brackets := c.brackets + 1 }.Counts m := hm ▸ { hd with brackets := rfl }
    have hlisteners : m.subscriptions = d.model.subscriptions := hm ▸ rfl
    simp only [Counters.answer, Counters.move, hs, if_true]
    by_cases hfirst : c.brackets = 0
    · obtain ⟨e, hrun, hcounted⟩ := Counted.emit hh .aboutToChange (c := c) (d := d)
        (e := d.accepted s .aboutToChange m) hcounts hlisteners (by simp) (by simp)
        (by simp [Counters.announced, hfirst])
      have hchanging : m.changing = 1 := by simp [hm, hfirst]
      have hbracket : openBracket s h d = (.returned (.ok ()), e) := by
        simp only [openBracket, look_bind, hopen, accept_bind, hchanging, if_true]
        exact bind_run hrun
      exact ⟨e, bind_run hbracket, hcounted⟩
    · have hchanging : m.changing ≠ 1 := by simp [hm, hfirst]
      have hbracket : openBracket s h d = (.returned (.ok ()), d.accepted s .aboutToChange m) := by
        simp [openBracket, hopen, hchanging]
      refine ⟨_, bind_run hbracket, ⟨hcounts, hlisteners, ?_, fun id => ?_⟩⟩
      all_goals simp [Counters.announced, hfirst]

theorem closeBracket_counted (hh : h.Bystander) (s : Share) :
    ∃ e, demand (.closeBracket s) h d = (.returned (c.answer (.closeBracket s)), e) ∧
      Counted c (c.move (.closeBracket s)) d e := by
  cases hs : c.serves s with
  | false =>
    have hclose : d.model.closeBracket s = .error (.changedIgnored (c.refusal s)) := by
      simp [Model.closeBracket, hd.objection hs]
    simp only [Counters.move, hs, Bool.false_eq_true, if_false]
    exact ⟨_, bind_run (closeBracket_refused hclose), .refl hd _⟩
  | true =>
    simp only [Counters.move, hs, if_true]
    cases hbrackets : c.brackets with
    | zero =>
      have hclose : d.model.closeBracket s = .error .changedUnmatched := by
        simp [Model.closeBracket, Model.objection?_edit_none.2 (hd.live hs), hd.brackets, hbrackets]
      have hsame : { c with brackets := 0 } = c := by rw [← hbrackets]
      exact ⟨_, bind_run (closeBracket_refused hclose), hsame ▸ .refl hd _⟩
    | succ n =>
      obtain ⟨m, hm⟩ : ∃ m, m = { d.model.enter .changed with changing := n } := ⟨_, rfl⟩
      have hclose := Model.closeBracket_of_live (hd.live hs) (by simp [hd.brackets, hbrackets])
      rw [hd.brackets, hbrackets, Nat.add_one_sub_one, ← hm] at hclose
      have hcounts : { c with brackets := n }.Counts m := hm ▸ { hd with brackets := rfl }
      have hlisteners : m.subscriptions = d.model.subscriptions := hm ▸ rfl
      have hchanging : m.changing = n := by rw [hm]
      simp only [Nat.add_one_sub_one]
      cases n with
      | zero =>
        obtain ⟨e, hrun, hcounted⟩ := Counted.emit hh (.changed m.document) (c := c) (d := d)
          (e := d.accepted s .changed m) hcounts hlisteners (by simp) (by simp)
          (by simp [Counters.announced, hbrackets, hcounts.document])
        have hbracket : closeBracket s h d = (.returned (), e) := by
          simp only [closeBracket, look_bind, hclose, accept_bind, hchanging, if_true]
          exact hrun
        exact ⟨e, bind_run hbracket, hcounted⟩
      | succ n =>
        have hbracket : closeBracket s h d = (.returned (), d.accepted s .changed m) := by
          simp [closeBracket, hclose, hchanging]
        refine ⟨_, bind_run hbracket, ⟨hcounts, hlisteners, ?_, fun id => ?_⟩⟩
        all_goals simp [Counters.announced, hbrackets]

theorem mutate_counted (hh : h.Bystander) (s : Share) (f : Document → Document) :
    ∃ e, demand (.mutate s f) h d = (.returned (c.answer (.mutate s f)), e) ∧
      Counted c (c.move (.mutate s f)) d e := by
  have hrefused {e : ModelError} (he : d.model.takeDocument s = .error e) :
      demand (.mutate s f) h d = (.returned (.error e), d) := bind_run (mutate_refused he)
  cases hs : c.serves s with
  | false =>
    simp only [Counters.answer, Counters.move, hs, Bool.false_eq_true, if_false, false_and]
    exact ⟨d, hrefused (by simp [Model.takeDocument, hd.objection hs]), .refl hd d.client⟩
  | true =>
    simp only [Counters.answer, Counters.move, hs, if_true, true_and]
    by_cases hopen : 0 < c.brackets
    · simp only [hopen, if_true]
      have htake := Model.takeDocument_of_live (hd.live hs) (hd.brackets ▸ hopen) hd.document
      obtain ⟨e, he⟩ : ∃ e, e = { (d.accepted s .mutate { d.model.enter .mutate with document := none }).enter
        (.mutated true) with model := { d.model.enter .mutate with document := some (f c.document), dirty := true } } :=
        ⟨_, rfl⟩
      have hcounts : { c with document := f c.document, dirty := true }.Counts e.model :=
        he ▸ { hd with document := rfl, dirty := rfl }
      have hlisteners : e.model.subscriptions = d.model.subscriptions := he ▸ rfl
      have hemitted : e.emitted = d.emitted := by simp [he, Desk.emitted, Desk.enter, Desk.accepted, Deed.emitted?]
      have hhears (id : ListenerId) : e.hears id = d.hears id := by
        simp [he, Desk.hears, Desk.enter, Desk.accepted, Deed.hears?]
      have hput : mutate s (fun document => pure ((), f document)) h d =
          ((if !c.dirty then emit (.dirtyChanged true) >>= fun _ => pure (.ok ()) else pure (.ok ()) :
            Act σ (Except ModelError Unit)) h e) := by
        subst he
        simp only [mutate, look_bind, htake, accept_bind]
        rw [bind_run (onInterrupt_run (pure_run ..))]
        simp only [look_bind, change_bind, ← hd.dirty]
        rfl
      cases hdirty : c.dirty with
      | false =>
        obtain ⟨e', hrun, hcounted⟩ := Counted.emit hh (.dirtyChanged true) (c := c) (d := d) hcounts
          hlisteners hemitted hhears (Counters.announced_dirtied rfl hdirty rfl)
        simp only [hdirty, Bool.not_false, if_true, bind_run hrun, pure_run] at hput
        exact ⟨e', bind_run hput, hcounted⟩
      | true =>
        simp only [hdirty, Bool.not_true, Bool.false_eq_true, if_false, pure_run] at hput
        exact ⟨e, bind_run hput, .silent hcounts hlisteners hemitted hhears rfl hdirty.symm⟩
    · simp only [hopen, if_false]
      refine ⟨d, hrefused ?_, .refl hd d.client⟩
      simp [Model.takeDocument, Model.objection?_edit_none.2 (hd.live hs), hd.brackets, Nat.eq_zero_of_not_pos hopen]

theorem beginRecording_counted (s : Share) (owner : Owner) (label : Option String) :
    ∃ e, demand (.beginRecording s owner label) h d = (.returned (c.answer (.beginRecording s owner label)), e) ∧
      Counted c (c.move (.beginRecording s owner label)) d e := by
  cases hs : c.serves s with
  | false =>
    have hbegin : d.model.beginRecording s owner label = .error (c.refusal s) := by
      simp [Model.beginRecording, hd.objection hs]
    simp only [Counters.answer, Counters.move, hs, Bool.false_eq_true, if_false]
    exact ⟨d, bind_run (beginRecording_refused hbegin), .refl hd d.client⟩
  | true =>
    simp only [Counters.answer, Counters.move, hs, if_true]
    have hbegin := Model.beginRecording_of_live owner label (hd.live hs) hd.recordable
      (by simp [hd.document])
    refine ⟨_, bind_run (beginRecording_run hbegin), .silent ?_ rfl (by simp) (by simp) rfl rfl⟩
    refine { hd with recording := ?_ }
    simp only [Desk.model_accepted, Model.recordingFrom, hd.recording]
    by_cases hfirst : c.recordings = 0
    · simp [hfirst, hd.document]
    · simp only [hfirst, if_false, Nat.succ_ne_zero, Nat.add_one_sub_one]
      congr 2
      omega

theorem endRecording_counted (s : Share) (owner : Owner) :
    ∃ e, demand (.endRecording s owner) h d = (.returned (c.answer (.endRecording s owner)), e) ∧
      Counted c (c.move (.endRecording s owner)) d e := by
  cases hs : c.serves s with
  | false =>
    have hend : d.model.endRecording s owner = .error (.endRecordingIgnored (c.refusal s)) := by
      simp [Model.endRecording, hd.objection hs]
    simp only [Counters.move, hs, Bool.false_eq_true, if_false]
    exact ⟨_, bind_run (endRecording_refused hend), .refl hd _⟩
  | true =>
    simp only [Counters.move, hs, if_true]
    have hrecording := hd.recording
    cases hrecordings : c.recordings with
    | zero =>
      have hend : d.model.endRecording s owner = .error .endRecordingUnmatched := by
        rw [hrecordings, if_pos rfl] at hrecording
        simp [Model.endRecording, Model.objection?_edit_none.2 (hd.live hs), hrecording]
      have hsame : { c with recordings := 0 } = c := by rw [← hrecordings]
      exact ⟨_, bind_run (endRecording_refused hend), hsame ▸ .refl hd _⟩
    | succ n =>
      rw [hrecordings, if_neg (Nat.succ_ne_zero n)] at hrecording
      have hend := Model.endRecording_of_live owner (hd.live hs) hrecording
      refine ⟨_, bind_run (endRecording_run hend), .silent ?_ ?_ (by simp) (by simp) rfl rfl⟩
      · cases n with
        | zero => exact { hd with recording := rfl, segments := congrArg _ hd.segments }
        | succ n => exact { hd with recording := rfl, segments := hd.segments }
      · cases n <;> rfl

/-- A demand moves the model as it moves the counters. -/
theorem demand_counted (hh : h.Bystander) (x : Demand) :
    ∃ e, demand x h d = (.returned (c.answer x), e) ∧ Counted c (c.move x) d e := by
  cases x with
  | acquire access => exact acquire_counted hd access
  | release s => exact release_counted hd s
  | openBracket s => exact openBracket_counted hd hh s
  | closeBracket s => exact closeBracket_counted hd hh s
  | mutate s f => exact mutate_counted hd hh s f
  | beginRecording s owner label => exact beginRecording_counted hd s owner label
  | endRecording s owner => exact endRecording_counted hd s owner

end

end Act

namespace Host.Bystander

variable {h : Host σ}

/-- **Brackets and recordings follow their counters.** Any demands may be made of a model that the counters `c`
count, in any order and with any shares, owners and labels, while the clients that are told of events stand by.
Then it answers what the counters answer, they count it afterwards, and what goes out, and is heard by every
listener, is what is announced as the counters move. -/
theorem demands_counted (hh : h.Bystander) (demands : List Demand) {c : Counters} {d : Desk σ}
    (hd : c.Counts d.model) :
    ∃ e, Act.demands demands h d = (.returned (c.answers demands), e) ∧ (c.after demands).Counts e.model ∧
      e.emitted = d.emitted ++ c.events demands ∧
      ∀ id, e.hears id = d.hears id ++ (c.events demands).flatMap (List.replicate (d.listening id)) := by
  induction demands generalizing c d with
  | nil => exact ⟨d, rfl, hd, by simp [Counters.events], by simp [Counters.events]⟩
  | cons x rest ih =>
    obtain ⟨e, hrun, hcounted⟩ := Act.demand_counted hd hh x
    obtain ⟨f, hrest, hafter, hemitted, hhears⟩ := ih hcounted.counts
    refine ⟨f, (Act.bind_run hrun).trans (Act.bind_run hrest), hafter, ?_, fun id => ?_⟩
    · rw [hemitted, hcounted.emitted, Counters.events, List.append_assoc]
    · have hlistening : e.listening id = d.listening id := by
        rw [Desk.listening, hcounted.subscriptions, Desk.listening]
      rw [hhears, hcounted.hears, hlistening, Counters.events, List.flatMap_append, List.append_assoc]

/-- A recording that begins in one bracket and ends in another, with a nested part under another label and owner, a
mutation with a share for reading, and a bracket closed once too often. -/
theorem demands_counted_overlapping :
    let edit : Share := ⟨1, .edit⟩
    let append (text : String) (document : Document) : Document := document ++ text
    let demands : List Demand :=
      [.acquire .edit, .acquire .read, .openBracket edit, .mutate edit (append "1"),
        .beginRecording edit (.client 7) (some "outer"), .openBracket edit, .mutate ⟨2, .edit⟩ (append "2"),
        .beginRecording edit (.client 8) (some "inner"), .closeBracket edit, .mutate edit (append "3"),
        .endRecording edit (.client 9), .closeBracket edit, .closeBracket edit, .openBracket edit,
        .endRecording edit (.client 8), .release edit, .closeBracket edit]
    let c : Counters := { document := "d" }
    let d : Desk Unit :=
      { model := { document := some "d", nextToken := 3, subscriptions := [⟨1, .client 0⟩, ⟨2, .relay (.view 0)⟩] }
        client := () }
    (Host.silent : Host Unit).Bystander ∧ c.Counts d.model ∧
      ∃ e, Act.demands demands .silent d = (.returned (c.answers demands), e) ∧ (c.after demands).Counts e.model ∧
        e.emitted = [.aboutToChange, .dirtyChanged true, .changed (some "d13"), .aboutToChange] ∧
        e.hears 0 = [.aboutToChange, .dirtyChanged true, .changed (some "d13"), .aboutToChange] ∧
        e.model.undoStack = [⟨some "outer", .client 7, some "d1"⟩] ∧ e.model.changing = 1 := by
  intro edit append demands c d
  have hh : (Host.silent : Host Unit).Bystander := .silent
  have hd : c.Counts d.model := .new "d" "" _ _
  obtain ⟨e, hrun, hafter, hemitted, hhears⟩ := hh.demands_counted demands hd
  have hevents : c.events demands = [.aboutToChange, .dirtyChanged true, .changed (some "d13"), .aboutToChange] := by
    decide +kernel
  have hsegments : (c.after demands).segments = [⟨some "outer", .client 7, some "d1"⟩] := by decide +kernel
  have hbrackets : (c.after demands).brackets = 1 := by decide +kernel
  refine ⟨hh, hd, e, hrun, hafter, ?_, ?_, hafter.segments.trans hsegments, hafter.brackets.trans hbrackets⟩
  · rw [hemitted, hevents]
    rfl
  · rw [hhears, hevents]
    rfl

end Host.Bystander

end FormDesk
