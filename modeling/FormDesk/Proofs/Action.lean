/-
Runs of actions. `Within R` says that an action moves every desk within the
relation `R`, however it ends. It goes through sequencing, cleaning up and
catching, so a relation that the desk's own operations stay within is one that
everything put together from them stays within.
-/
import FormDesk.Session.Undoable

namespace FormDesk

variable {σ α β : Type}

/-- A relation between desks that a run may stay within: it takes in standing still and going on. -/
structure Desk.Path (R : Desk σ → Desk σ → Prop) : Prop where
  refl : ∀ d, R d d
  trans : ∀ {d e f}, R d e → R e f → R d f

namespace Act

variable {R : Desk σ → Desk σ → Prop} {h : Host σ}

/-! ## What combinators come to -/

@[simp] theorem pure_run (a : α) (d : Desk σ) : (pure a : Act σ α) h d = (.returned a, d) := rfl

@[simp] theorem look_run (f : Desk σ → α) (d : Desk σ) : look f h d = (.returned (f d), d) := rfl

@[simp] theorem change_run (f : Desk σ → Desk σ) (d : Desk σ) : change f h d = (.returned (), f d) := rfl

@[simp] theorem did_run (e : Deed) (d : Desk σ) : did e h d = (.returned (), d.enter e) := rfl

@[simp] theorem accept_run (s : Share) (c : Call) (m : Model) (d : Desk σ) :
    accept s c m h d = (.returned (), d.accepted s c m) := rfl

@[simp] theorem note_run (n : Notice) (d : Desk σ) :
    note n h d = (.returned (), { d with client := h.note n d.client }) := rfl

@[simp] theorem interrupt_run (message : String) (d : Desk σ) :
    (interrupt message : Act σ α) h d = (.interrupted message, d) := rfl

/-- Looking first does not change what an action comes to. -/
@[simp] theorem look_bind (f : Desk σ → α) (g : α → Act σ β) (d : Desk σ) :
    (look f >>= g) h d = g (f d) h d := rfl

@[simp] theorem change_bind (f : Desk σ → Desk σ) (g : Unit → Act σ β) (d : Desk σ) :
    (change f >>= g) h d = g () h (f d) := rfl

@[simp] theorem did_bind (e : Deed) (g : Unit → Act σ β) (d : Desk σ) :
    (did e >>= g) h d = g () h (d.enter e) := rfl

@[simp] theorem accept_bind (s : Share) (c : Call) (m : Model) (g : Unit → Act σ β) (d : Desk σ) :
    (accept s c m >>= g) h d = g () h (d.accepted s c m) := rfl

@[simp] theorem note_bind (n : Notice) (g : Unit → Act σ β) (d : Desk σ) :
    (note n >>= g) h d = g () h { d with client := h.note n d.client } := rfl

theorem bind_run {x : Act σ α} {f : α → Act σ β} {d d' : Desk σ} {a : α}
    (hx : x h d = (.returned a, d')) : (x >>= f) h d = f a h d' := by
  simp only [bind, hx]

theorem bind_interrupted {x : Act σ α} {f : α → Act σ β} {d d' : Desk σ} {message : String}
    (hx : x h d = (.interrupted message, d')) : (x >>= f) h d = (.interrupted message, d') := by
  simp only [bind, hx]

theorem bind_fatal {x : Act σ α} {f : α → Act σ β} {d d' : Desk σ} (hx : x h d = (.fatal, d')) :
    (x >>= f) h d = (.fatal, d') := by
  simp only [bind, hx]

/-- What comes after depends on what comes before only through how that ends. -/
theorem bind_congr_left {x y : Act σ α} (f : α → Act σ β) {d : Desk σ} (hxy : x h d = y h d) :
    (x >>= f) h d = (y >>= f) h d := by
  simp only [bind, hxy]

theorem ensure_run {act : Act σ α} {last : Act σ Unit} {d d₁ d₂ : Desk σ} {a : α} {u : Unit}
    (hact : act h d = (.returned a, d₁)) (hlast : last h d₁ = (.returned u, d₂)) :
    ensure act last h d = (.returned a, d₂) := by
  simp only [ensure, hact, hlast]

/-- Cleaning up that ends well does not change how the action ended. -/
theorem ensure_ended {act : Act σ α} {last : Act σ Unit} {d d₁ d₂ : Desk σ} {outcome : Outcome α}
    (hact : act h d = (outcome, d₁)) (hended : outcome ≠ .fatal) (hlast : last h d₁ = (.returned (), d₂)) :
    ensure act last h d = (outcome, d₂) := by
  cases outcome with
  | returned | interrupted => simp only [ensure, hact, hlast]
  | fatal => exact absurd rfl hended

/-- The entry after an action can be made by what is done last. -/
theorem ensure_between (first last : Deed) (act : Act σ α) (fin : Act σ Unit) (d : Desk σ) :
    ensure (between first last act) fin h d = ensure act (did last >>= fun _ => fin) h (d.enter first) := by
  rcases hact : act h (d.enter first) with ⟨outcome, e⟩
  cases outcome <;> simp only [between, did_bind, did_run, ensure, hact]

/-- What is answered after cleaning up is the answer from before it. -/
theorem ensure_answer {act : Act σ α} {last : Act σ Unit} {d : Desk σ} {a : α}
    (ho : (ensure act last h d).1 = .returned a) : (act h d).1 = .returned a := by
  rcases hact : act h d with ⟨outcome, d₁⟩
  rcases hlast : last h d₁ with ⟨ended, d₂⟩
  cases outcome <;> cases ended <;> simp only [ensure, hact, hlast] at ho
  case returned.returned => exact ho
  all_goals cases ho

theorem ensure_returned {act : Act σ α} {last : Act σ Unit} {d e : Desk σ} {a : α}
    (hrun : ensure act last h d = (.returned a, e)) : ∃ d', act h d = (.returned a, d') ∧ (last h d').2 = e := by
  have hact := ensure_answer (congrArg Prod.fst hrun)
  rcases hrest : act h d with ⟨outcome, d'⟩
  rw [hrest] at hact
  cases hact
  refine ⟨d', rfl, ?_⟩
  rcases hlast : last h d' with ⟨ended, d''⟩
  cases ended <;> simp only [ensure, hrest, hlast] at hrun <;> cases hrun
  rfl

theorem onInterrupt_run {act : Act σ α} {last : Act σ Unit} {d d' : Desk σ} {a : α}
    (ha : act h d = (.returned a, d')) : onInterrupt act last h d = (.returned a, d') := by
  simp only [onInterrupt, ha]

theorem onInterrupt_interrupted {act : Act σ α} {last : Act σ Unit} {d d₁ d₂ : Desk σ} {message : String}
    (hact : act h d = (.interrupted message, d₁)) (hlast : last h d₁ = (.returned (), d₂)) :
    onInterrupt act last h d = (.interrupted message, d₂) := by
  simp only [onInterrupt, hact, hlast]

theorem onInterrupt_fatal {act : Act σ α} {last : Act σ Unit} {d d' : Desk σ} (hact : act h d = (.fatal, d')) :
    onInterrupt act last h d = (.fatal, d') := by
  simp only [onInterrupt, hact]

theorem onInterrupt_returned {act : Act σ α} {last : Act σ Unit} {d d' : Desk σ} {a : α}
    (ho : onInterrupt act last h d = (.returned a, d')) : act h d = (.returned a, d') := by
  unfold onInterrupt at ho
  split at ho
  · next message d₁ hact => rcases hlast : last h d₁ with ⟨_ | _ | _, d₂⟩ <;> simp [hlast] at ho
  · exact ho

/-- How an action and a second one after it end. -/
theorem bind_cases (x : Act σ α) (f : α → Act σ β) (d : Desk σ) :
    (∃ a d', x h d = (.returned a, d') ∧ (x >>= f) h d = f a h d') ∨
    (∃ message d', x h d = (.interrupted message, d') ∧ (x >>= f) h d = (.interrupted message, d')) ∨
    (∃ d', x h d = (.fatal, d') ∧ (x >>= f) h d = (.fatal, d')) := by
  rcases hx : x h d with ⟨outcome, d'⟩
  cases outcome with
  | returned a => exact .inl ⟨a, d', rfl, bind_run hx⟩
  | interrupted message => exact .inr (.inl ⟨message, d', rfl, bind_interrupted hx⟩)
  | fatal => exact .inr (.inr ⟨d', rfl, bind_fatal hx⟩)

/-- What an action and a second one after it answer. -/
theorem bind_answer {x : Act σ α} {f : α → Act σ β} {d : Desk σ} {b : β}
    (hrun : ((x >>= f) h d).1 = .returned b) : ∃ a d', x h d = (.returned a, d') ∧ (f a h d').1 = .returned b := by
  rcases bind_cases (h := h) x f d with ⟨a, d', hx, hb⟩ | ⟨_, _, -, hb⟩ | ⟨_, -, hb⟩
  all_goals rw [hb] at hrun
  · exact ⟨a, d', hx, hrun⟩
  · cases hrun
  · cases hrun

/-- An action and a second one after it that answer come to a state in between. -/
theorem bind_returned {x : Act σ α} {f : α → Act σ β} {d e : Desk σ} {b : β}
    (hrun : (x >>= f) h d = (.returned b, e)) : ∃ a d', x h d = (.returned a, d') ∧ f a h d' = (.returned b, e) := by
  obtain ⟨a, d', hx, -⟩ := bind_answer (congrArg Prod.fst hrun)
  exact ⟨a, d', hx, (bind_run hx).symm.trans hrun⟩

theorem acquire_run {access : Access} {d : Desk σ} {s : Share} {m : Model}
    (ha : d.model.acquire access = .ok (s, m)) :
    acquire access h d = (.returned (.ok s), d.accepted s (.acquire access) m) := by
  simp only [acquire, look_bind, ha]
  rfl

theorem acquire_refused {access : Access} {d : Desk σ} {e : ModelError}
    (ha : d.model.acquire access = .error e) : acquire access h d = (.returned (.error e), d) := by
  simp [acquire, ha]

theorem release_run {s : Share} {d : Desk σ} {access : Access} {m : Model}
    (hr : d.model.release? s = some (access, m)) :
    release s h d = (.returned (), d.accepted s (.release access) m) := by
  simp [release, hr]

theorem release_refused {s : Share} {d : Desk σ} (hr : d.model.release? s = none) :
    release s h d = (.returned (), { d with client := h.note .unknownShareReleased d.client }) := by
  simp [release, hr]

/-- Giving a share back ends well, whether the share was live or not. -/
theorem release_returned (s : Share) (d : Desk σ) : release s h d = (.returned (), (release s h d).2) := by
  cases heq : d.model.release? s with
  | none => rw [release_refused heq]
  | some taken => rw [release_run heq]

theorem openBracket_refused {s : Share} {d : Desk σ} {e : ModelError} (ho : d.model.openBracket s = .error e) :
    openBracket s h d = (.returned (.error e), d) := by
  simp [openBracket, ho]

theorem openBracket_answer {d d' : Desk σ} {s : Share} {m : Model} {a : Except ModelError Unit}
    (hopen : d.model.openBracket s = .ok m) (hrun : openBracket s h d = (.returned a, d')) : a = .ok () := by
  simp only [openBracket, look_bind, hopen, accept_bind] at hrun
  by_cases hfirst : m.changing = 1
  · simp only [hfirst, if_true] at hrun
    rcases bind_cases (h := h) (emit .aboutToChange)
      (fun _ => (pure (.ok ()) : Act σ (Except ModelError Unit)))
      (d.accepted s .aboutToChange m) with ⟨_, _, -, hb⟩ | ⟨_, _, -, hb⟩ | ⟨_, -, hb⟩
    all_goals
      rw [hb] at hrun
      cases hrun
      try rfl
  · simp only [hfirst, if_false] at hrun
    cases hrun
    rfl

theorem closeBracket_refused {s : Share} {d : Desk σ} {n : Notice} (hc : d.model.closeBracket s = .error n) :
    closeBracket s h d = (.returned (), { d with client := h.note n d.client }) := by
  simp [closeBracket, hc]

theorem mutate_refused {s : Share} {f : Document → Act σ (α × Document)} {d : Desk σ} {e : ModelError}
    (ht : d.model.takeDocument s = .error e) : mutate s f h d = (.returned (.error e), d) := by
  simp only [mutate, look_bind, ht]
  rfl

theorem beginRecording_run {s : Share} {owner : Owner} {label : Option String} {d : Desk σ} {m : Model}
    (hb : d.model.beginRecording s owner label = .ok m) :
    beginRecording s owner label h d = (.returned (.ok ()), d.accepted s (.beginRecording label) m) := by
  simp only [beginRecording, look_bind, hb]
  rfl

theorem beginRecording_refused {s : Share} {owner : Owner} {label : Option String} {d : Desk σ} {e : ModelError}
    (hb : d.model.beginRecording s owner label = .error e) :
    beginRecording s owner label h d = (.returned (.error e), d) := by
  simp [beginRecording, hb]

theorem endRecording_refused {s : Share} {owner : Owner} {d : Desk σ} {n : Notice}
    (he : d.model.endRecording s owner = .error n) :
    endRecording s owner h d = note n h d := by
  simp [endRecording, he]

theorem endRecording_run {s : Share} {owner : Owner} {d : Desk σ} {m : Model}
    (he : d.model.endRecording s owner = .ok m) :
    endRecording s owner h d = (.returned (), d.accepted s .endRecording m) := by
  simp only [endRecording, look_bind, he]
  rfl

theorem subscribe_run {s : Share} {listener : Listener} {token : Token} {d : Desk σ} {m : Model}
    (hs : d.model.subscribe s listener = .ok (token, m)) :
    subscribe s listener h d = (.returned (.ok token), d.accepted s .subscribe m) := by
  simp only [subscribe, look_bind, hs]
  rfl

theorem subscribe_refused {s : Share} {listener : Listener} {d : Desk σ} {e : ModelError}
    (hs : d.model.subscribe s listener = .error e) :
    subscribe s listener h d = (.returned (.error e), d) := by
  simp only [subscribe, look_bind, hs]
  rfl

theorem unsubscribe_run {s : Share} {token : Token} {d : Desk σ} {m : Model}
    (hu : d.model.unsubscribe s token = .ok (true, m)) :
    unsubscribe s token h d = (.returned true, d.accepted s .unsubscribe m) := by
  simp only [unsubscribe, look_bind, hu]
  rfl

theorem unsubscribe_absent {s : Share} {token : Token} {d : Desk σ}
    (hu : d.model.unsubscribe s token = .ok (false, d.model)) : unsubscribe s token h d = (.returned false, d) := by
  simp only [unsubscribe, look_bind, hu]
  rfl

/-! ## Shares and recordings around -/

theorem withShare_refused {access : Access} {f : Share → Act σ α} {d : Desk σ} {e : ModelError}
    (ha : d.model.acquire access = .error e) : withShare access f h d = (.returned (.error e), d) :=
  bind_run (acquire_refused ha)

theorem withShare_run {access : Access} {f : Share → Act σ α} {d e : Desk σ} {s : Share} {m : Model} {a : α}
    (ha : d.model.acquire access = .ok (s, m)) (hf : f s h (d.accepted s (.acquire access) m) = (.returned a, e)) :
    withShare access f h d = (.returned (.ok a), (release s h e).2) :=
  (bind_run (acquire_run ha)).trans (bind_run (ensure_run hf (release_returned s e)))

/-- What the start of a recording comes to. -/
theorem startRecording_ends (c : CoordinatorId) (label : Option String) (d : Desk σ) :
    (∃ e, d.model.acquire .edit = .error e ∧ startRecording c label h d = (.returned (.error e), d)) ∨
    ∃ s m, d.model.acquire .edit = .ok (s, m) ∧
      ((∃ e, m.beginRecording s (.coordinator c) label = .error e ∧ startRecording c label h d =
        (.returned (.error e), (release s h (d.accepted s (.acquire .edit) m)).2)) ∨
      ∃ m', m.beginRecording s (.coordinator c) label = .ok m' ∧ startRecording c label h d = (.returned (.ok ()),
        (release s h ((d.accepted s (.acquire .edit) m).accepted s (.beginRecording label) m')).2)) := by
  cases hacquire : d.model.acquire .edit with
  | error e => exact .inl ⟨e, rfl, bind_run (withShare_refused hacquire)⟩
  | ok taken =>
    obtain ⟨s, m⟩ := taken
    refine .inr ⟨s, m, rfl, ?_⟩
    cases hbegin : m.beginRecording s (.coordinator c) label with
    | error e => exact .inl ⟨e, rfl, bind_run (withShare_run hacquire (beginRecording_refused hbegin))⟩
    | ok m' => exact .inr ⟨m', rfl, bind_run (withShare_run hacquire (beginRecording_run hbegin))⟩

/-- What the end of a recording comes to. -/
theorem finishRecording_ends (c : CoordinatorId) (d : Desk σ) :
    (∃ e, d.model.acquire .edit = .error e ∧ finishRecording c h d = (.returned (),
      { d.enter (.finished c d.model.available) with client := h.note (.recordingNotEnded e) d.client })) ∨
    ∃ s m, d.model.acquire .edit = .ok (s, m) ∧
      ((∃ n, m.endRecording s (.coordinator c) = .error n ∧ finishRecording c h d = (.returned (), (release s h
        { (d.enter (.finished c d.model.available)).accepted s (.acquire .edit) m with
          client := h.note n d.client }).2)) ∨
      ∃ m', m.endRecording s (.coordinator c) = .ok m' ∧ finishRecording c h d = (.returned (), (release s h
        (((d.enter (.finished c d.model.available)).accepted s (.acquire .edit) m).accepted s .endRecording
          m')).2)) := by
  simp only [finishRecording, look_bind, did_bind]
  cases hacquire : d.model.acquire .edit with
  | error e =>
    have hshare := withShare_refused (h := h) (f := fun share => endRecording share (.coordinator c))
      (d := d.enter (.finished c d.model.available)) hacquire
    exact .inl ⟨e, rfl, bind_run hshare⟩
  | ok taken =>
    obtain ⟨s, m⟩ := taken
    have hshare {e : Desk σ} := withShare_run (h := h) (f := fun share => endRecording share (.coordinator c))
      (d := d.enter (.finished c d.model.available)) (e := e) (a := ()) hacquire
    refine .inr ⟨s, m, rfl, ?_⟩
    cases hend : m.endRecording s (.coordinator c) with
    | error n => exact .inl ⟨n, rfl, bind_run (hshare (endRecording_refused hend))⟩
    | ok m' => exact .inr ⟨m', rfl, bind_run (hshare (endRecording_run hend))⟩

/-! ## Sessions of a coordinator -/

section

variable {c : CoordinatorId} {d : Desk σ} {s : Share} {inner : Nat}

theorem openSession_idle (hs : (d.coordinator c).session = .idle) : openSession c h d = startSession c h d := by
  simp [openSession, hs, Sessions.nest?]

theorem openSession_nested (hs : (d.coordinator c).session = .active inner s) :
    openSession c h d = (.returned (.ok ()),
      (d.enter (.entered c (inner + 2))).withSession c (.active (min (inner + 1) (maxDepth - 1)) s)) := by
  simp [openSession, hs, Sessions.nest?, Sessions.depth, setSession]
  rfl

/-- The opening of a session answers an error only when the bracket cannot be opened. -/
theorem startWith_error {d' : Desk σ} {e : SessionError} (hrun : startWith c s h d = (.returned (.error e), d')) :
    ∃ e', d.model.openBracket s = .error e' := by
  cases hopen : d.model.openBracket s with
  | error e' => exact ⟨e', rfl⟩
  | ok m =>
    rcases bind_cases (h := h) (onInterrupt (openBracket s) (release s)) _ d with
      ⟨opened, d₁, hopened, hb⟩ | ⟨_, _, -, hb⟩ | ⟨_, -, hb⟩
    all_goals
      rw [startWith, hb] at hrun
    · obtain rfl := openBracket_answer hopen (onInterrupt_returned hopened)
      cases hrun
    · cases hrun
    · cases hrun

theorem leaveSession_idle (hs : (d.coordinator c).session = .idle) :
    leaveSession c h d = (.returned (), (d.enter (.left c)).withSession c .idle) := by
  have hs' : ((d.enter (.left c)).coordinator c).session = .idle := hs
  simp [leaveSession, hs', Sessions.leave, setSession]

theorem leaveSession_nested (hs : (d.coordinator c).session = .active (inner + 1) s) :
    leaveSession c h d = (.returned (), (d.enter (.left c)).withSession c (.active inner s)) := by
  have hs' : ((d.enter (.left c)).coordinator c).session = .active (inner + 1) s := hs
  simp [leaveSession, hs', Sessions.leave, setSession]

/-- The coordinator of the outermost session is idle from before its bracket closes. -/
theorem leaveSession_outermost (hs : (d.coordinator c).session = .active 0 s) :
    leaveSession c h d =
      ensure (closeBracket s) (release s) h ((d.enter (.left c)).withSession c .idle) := by
  have hs' : ((d.enter (.left c)).coordinator c).session = .active 0 s := hs
  simp [leaveSession, hs', Sessions.leave, setSession]

end

/-! ## Staying within a relation -/

/-- Under `h` the action moves every desk within `R`. -/
def Within (R : Desk σ → Desk σ → Prop) (h : Host σ) (a : Act σ α) : Prop :=
  ∀ d, R d (a h d).2

theorem Within.pure (hR : Desk.Path R) (a : α) : Within R h (pure a : Act σ α) := fun d => hR.refl d

theorem Within.look (hR : Desk.Path R) (f : Desk σ → α) : Within R h (Act.look f) := fun d => hR.refl d

theorem Within.interrupt (hR : Desk.Path R) (message : String) :
    Within R h (Act.interrupt message : Act σ α) := fun d => hR.refl d

theorem Within.bind_at (hR : Desk.Path R) {x : Act σ α} {f : α → Act σ β} {d e : Desk σ}
    (hx : R d (x h e).2) (hf : ∀ a, Within R h (f a)) : R d ((x >>= f) h e).2 := by
  rcases bind_cases (h := h) x f e with ⟨a, e', he, hb⟩ | ⟨_, e', he, hb⟩ | ⟨e', he, hb⟩
  all_goals rw [he] at hx
  all_goals rw [hb]
  · exact hR.trans hx (hf a e')
  · exact hx
  · exact hx

theorem Within.bind (hR : Desk.Path R) {x : Act σ α} {f : α → Act σ β} (hx : Within R h x)
    (hf : ∀ a, Within R h (f a)) : Within R h (x >>= f) := fun d => Within.bind_at hR (hx d) hf

theorem Within.ensure_at (hR : Desk.Path R) {act : Act σ α} {last : Act σ Unit} {d e : Desk σ}
    (ha : R d (act h e).2) (hl : Within R h last) : R d (Act.ensure act last h e).2 := by
  rcases hact : act h e with ⟨outcome, d₁⟩
  have h2 := hl d₁
  rcases hlast : last h d₁ with ⟨ended, d₂⟩
  rw [hact] at ha
  rw [hlast] at h2
  cases outcome <;> cases ended <;> simp only [Act.ensure, hact, hlast]
  all_goals first | exact hR.trans ha h2 | exact ha

theorem Within.ensure (hR : Desk.Path R) {act : Act σ α} {last : Act σ Unit} (ha : Within R h act)
    (hl : Within R h last) : Within R h (ensure act last) := fun d => Within.ensure_at hR (ha d) hl

theorem Within.between (hR : Desk.Path R) {first last : Deed} {act : Act σ α} (ha : Within R h act)
    (hfirst : ∀ d, R d (d.enter first)) (hlast : ∀ d, R d (d.enter last)) : Within R h (between first last act) :=
  Within.bind hR hfirst fun _ => Within.ensure hR ha hlast

theorem Within.onInterrupt_at (hR : Desk.Path R) {act : Act σ α} {last : Act σ Unit} {d e : Desk σ}
    (ha : R d (act h e).2) (hl : Within R h last) : R d (Act.onInterrupt act last h e).2 := by
  rcases hact : act h e with ⟨outcome, d₁⟩
  have h2 := hl d₁
  rcases hlast : last h d₁ with ⟨ended, d₂⟩
  rw [hact] at ha
  rw [hlast] at h2
  cases outcome <;> cases ended <;> simp only [Act.onInterrupt, hact, hlast]
  all_goals first | exact hR.trans ha h2 | exact ha

theorem Within.onInterrupt (hR : Desk.Path R) {act : Act σ α} {last : Act σ Unit} (ha : Within R h act)
    (hl : Within R h last) : Within R h (onInterrupt act last) := fun d => Within.onInterrupt_at hR (ha d) hl

theorem Within.attempt {act : Act σ α} (ha : Within R h act) : Within R h (attempt act) := by
  intro d
  have h1 := ha d
  rcases hact : act h d with ⟨outcome, d₁⟩
  rw [hact] at h1
  cases outcome <;> simpa only [Act.attempt, hact] using h1

theorem Within.each (hR : Desk.Path R) {f : α → Act σ Unit} (hf : ∀ x, Within R h (f x)) :
    ∀ xs : List α, Within R h (each xs f)
  | [] => Within.pure hR ()
  | x :: xs => Within.bind hR (hf x) fun _ => Within.each hR hf xs

end Act

end FormDesk
