/-
Calm runs. A run is calm when no client that was called in it interrupted. In
a calm run announcing, opening and closing brackets and cleaning up return
(`Returns`), so editing does not end fatally (`Passed.noFatal`).
-/
import FormDesk.Proofs.Client

namespace FormDesk

variable {σ α β : Type}

/-- Whether a deed is anything but the interruption of a client. -/
def Deed.calm : Deed → Bool
  | threw _ => false
  | call .. | mutated _ | emitted _ | told .. | starting .. | opened .. | entered .. | left _ | runs _ | ran _
  | began .. | finished .. | edits _ | edited _ | detaching .. | unclaimed .. | availability .. | cleared => true

theorem Deed.not_threw {w : List Deed} (h : w.all calm) (c : Callback) : .threw c ∉ w := fun hc =>
  Bool.false_ne_true (List.all_eq_true.1 h _ hc)

namespace Desk

/-- Nothing of the history is lost. -/
def Grows (d e : Desk σ) : Prop := d.history.toList <+: e.history.toList

theorem Grows.path : Path (Grows (σ := σ)) where
  refl _ := List.prefix_rfl
  trans := List.IsPrefix.trans

/-- What was done between two desks, with no client that interrupted. -/
def Calm (d e : Desk σ) : Prop := ∃ w, e.history.toList = d.history.toList ++ w ∧ ∀ c, .threw c ∉ w

/-- The parts of a calm run are calm. -/
theorem Calm.split {d e f : Desk σ} (h : Calm d f) (h₁ : Grows d e) (h₂ : Grows e f) :
    Calm d e ∧ Calm e f := by
  obtain ⟨w, hw, hcalm⟩ := h
  obtain ⟨u, hu⟩ := h₁
  obtain ⟨v, hv⟩ := h₂
  obtain rfl : u ++ v = w := by
    rw [← hv, ← hu, List.append_assoc] at hw
    exact List.append_cancel_left hw
  exact ⟨⟨u, hu.symm, fun c hc => hcalm c (List.mem_append_left v hc)⟩,
    ⟨v, hv.symm, fun c hc => hcalm c (List.mem_append_right u hc)⟩⟩

theorem Calm.refl (d : Desk σ) : Calm d d := ⟨[], by simp, by simp⟩

theorem Calm.trans {d e f : Desk σ} (h : Calm d e) (h' : Calm e f) : Calm d f := by
  obtain ⟨w, hw, hcalm⟩ := h
  obtain ⟨v, hv, hcalm'⟩ := h'
  refine ⟨w ++ v, by rw [hv, hw, List.append_assoc], fun c hc => ?_⟩
  exact (List.mem_append.1 hc).elim (hcalm c) (hcalm' c)

theorem Calm.grows {d e : Desk σ} (h : Calm d e) : Grows d e := by
  obtain ⟨w, hw, -⟩ := h
  exact ⟨w, hw.symm⟩

theorem not_calm_threw {d e : Desk σ} (h : Grows d e) (c : Callback) : ¬ Calm d (e.enter (.threw c)) := by
  rintro ⟨w, hw, hcalm⟩
  obtain ⟨v, hv⟩ := h
  obtain rfl : v ++ [.threw c] = w := by
    simp only [enter, Array.toList_push, ← hv, List.append_assoc] at hw
    exact List.append_cancel_left hw
  exact hcalm c (by simp)

/-- `R` between desks, unless a client interrupted. -/
def Calmly (R : Desk σ → Desk σ → Prop) (d e : Desk σ) : Prop := Grows d e ∧ (Calm d e → R d e)

theorem Calmly.comp {R S T : Desk σ → Desk σ → Prop} {d e f : Desk σ} (h : R d e → S e f → T d f)
    (h₁ : Calmly R d e) (h₂ : Calmly S e f) : Calmly T d f := by
  refine ⟨h₁.1.trans h₂.1, fun hcalm => ?_⟩
  obtain ⟨hc₁, hc₂⟩ := hcalm.split h₁.1 h₂.1
  exact h (h₁.2 hc₁) (h₂.2 hc₂)

theorem Calmly.imp {R S : Desk σ → Desk σ → Prop} {d e : Desk σ} (h : Calmly R d e)
    (hRS : Calm d e → R d e → S d e) :
    Calmly S d e := ⟨h.1, fun hcalm => hRS hcalm (h.2 hcalm)⟩

theorem Calmly.path {R : Desk σ → Desk σ → Prop} (hR : Path R) : Path (Calmly R) where
  refl d := ⟨Grows.path.refl d, fun _ => hR.refl d⟩
  trans := Calmly.comp hR.trans

end Desk

namespace Act

open Desk (Grows Calm Calmly)

variable {h : Host σ}

/-- Under `h` the action returns, unless a client interrupts. -/
structure Returns (h : Host σ) (a : Act σ α) : Prop where
  grows : Within Grows h a
  returned : ∀ d, Calm d (a h d).2 → ∃ x, (a h d).1 = .returned x

/-- Under `h` the action does not end fatally, unless a client interrupts. -/
structure NoFatal (h : Host σ) (a : Act σ α) : Prop where
  grows : Within Grows h a
  sound : ∀ d, Calm d (a h d).2 → (a h d).1 ≠ .fatal

theorem Returns.look (f : Desk σ → α) : Returns h (Act.look f) :=
  ⟨Within.look Grows.path f, fun d _ => ⟨f d, rfl⟩⟩

theorem Returns.pure (a : α) : Returns h (pure a : Act σ α) :=
  ⟨Within.pure Grows.path a, fun _ _ => ⟨a, rfl⟩⟩

theorem Returns.bind {x : Act σ α} {f : α → Act σ β} (hx : Returns h x) (hf : ∀ a, Returns h (f a)) :
    Returns h (x >>= f) := by
  refine ⟨Within.bind Grows.path hx.grows fun a => (hf a).grows, fun d hcalm => ?_⟩
  have hg := hx.grows d
  have hr := hx.returned d
  rcases bind_cases (h := h) x f d with ⟨a, d', hd, hb⟩ | ⟨_, d', hd, hb⟩ | ⟨d', hd, hb⟩
  all_goals rw [hd] at hg hr
  all_goals rw [hb] at hcalm ⊢
  · exact (hf a).returned d' (hcalm.split hg ((hf a).grows d')).2
  · obtain ⟨_, hno⟩ := hr hcalm
    cases hno
  · obtain ⟨_, hno⟩ := hr hcalm
    cases hno

theorem Returns.ensure {act : Act σ α} {last : Act σ Unit} (ha : Returns h act) (hl : Returns h last) :
    Returns h (ensure act last) := by
  refine ⟨Within.ensure Grows.path ha.grows hl.grows, fun d hcalm => ?_⟩
  have hg := ha.grows d
  have hr := ha.returned d
  rcases hact : act h d with ⟨outcome, d₁⟩
  rw [hact] at hg hr
  have hg' := hl.grows d₁
  have hr' := hl.returned d₁
  rcases hlast : last h d₁ with ⟨ended, d₂⟩
  rw [hlast] at hg' hr'
  cases outcome <;> cases ended <;> simp only [Act.ensure, hact, hlast] at hcalm ⊢
  case returned.returned a _ => exact ⟨a, rfl⟩
  case returned.interrupted | returned.fatal =>
    obtain ⟨_, hno⟩ := hr' (hcalm.split hg hg').2
    cases hno
  case fatal.returned | fatal.interrupted | fatal.fatal =>
    obtain ⟨_, hno⟩ := hr hcalm
    cases hno
  all_goals
    obtain ⟨_, hno⟩ := hr (hcalm.split hg hg').1
    cases hno

theorem Returns.onInterrupt {act : Act σ α} {last : Act σ Unit} (ha : Returns h act) (hl : Returns h last) :
    Returns h (onInterrupt act last) := by
  refine ⟨Within.onInterrupt Grows.path ha.grows hl.grows, fun d hcalm => ?_⟩
  have hg := ha.grows d
  have hr := ha.returned d
  rcases hact : act h d with ⟨outcome, d₁⟩
  rw [hact] at hg hr
  have hg' := hl.grows d₁
  rcases hlast : last h d₁ with ⟨ended, d₂⟩
  rw [hlast] at hg'
  cases outcome <;> cases ended <;> simp only [Act.onInterrupt, hact, hlast] at hcalm ⊢
  case returned.returned a _ | returned.interrupted a _ | returned.fatal a => exact ⟨a, rfl⟩
  case fatal.returned | fatal.interrupted | fatal.fatal =>
    obtain ⟨_, hno⟩ := hr hcalm
    cases hno
  all_goals
    obtain ⟨_, hno⟩ := hr (hcalm.split hg hg').1
    cases hno

theorem Returns.each {f : α → Act σ Unit} (hf : ∀ x, Returns h (f x)) :
    ∀ xs : List α, Returns h (each xs f)
  | [] => Returns.pure ()
  | x :: xs => Returns.bind (hf x) fun _ => Returns.each hf xs

theorem Returns.noFatal {a : Act σ α} (ha : Returns h a) : NoFatal h a := by
  refine ⟨ha.grows, fun d hcalm => ?_⟩
  obtain ⟨x, hx⟩ := ha.returned d hcalm
  rw [hx]
  nofun

theorem NoFatal.bind {x : Act σ α} {f : α → Act σ β} (hx : NoFatal h x) (hf : ∀ a, NoFatal h (f a)) :
    NoFatal h (x >>= f) := by
  refine ⟨Within.bind Grows.path hx.grows fun a => (hf a).grows, fun d hcalm => ?_⟩
  have hg := hx.grows d
  have hr := hx.sound d
  rcases bind_cases (h := h) x f d with ⟨a, d', hd, hb⟩ | ⟨_, d', hd, hb⟩ | ⟨d', hd, hb⟩
  all_goals rw [hd] at hg hr
  all_goals rw [hb] at hcalm ⊢
  · exact (hf a).sound d' (hcalm.split hg ((hf a).grows d')).2
  · nofun
  · exact absurd rfl (hr hcalm)

/-- Cleaning up that returns does not make an interruption fatal. -/
theorem NoFatal.ensure {act : Act σ α} {last : Act σ Unit} (ha : NoFatal h act) (hl : Returns h last) :
    NoFatal h (ensure act last) := by
  refine ⟨Within.ensure Grows.path ha.grows hl.grows, fun d hcalm => ?_⟩
  have hg := ha.grows d
  have hr := ha.sound d
  rcases hact : act h d with ⟨outcome, d₁⟩
  rw [hact] at hg hr
  have hg' := hl.grows d₁
  have hr' := hl.returned d₁
  rcases hlast : last h d₁ with ⟨ended, d₂⟩
  rw [hlast] at hg' hr'
  cases outcome <;> cases ended <;> simp only [Act.ensure, hact, hlast] at hcalm ⊢
  case fatal.returned | fatal.interrupted | fatal.fatal => exact absurd rfl (hr hcalm)
  case returned.returned | interrupted.returned => simp
  all_goals
    obtain ⟨_, hno⟩ := hr' (hcalm.split hg hg').2
    cases hno

theorem NoFatal.onInterrupt {act : Act σ α} {last : Act σ Unit} (ha : NoFatal h act) (hl : Returns h last) :
    NoFatal h (onInterrupt act last) := by
  refine ⟨Within.onInterrupt Grows.path ha.grows hl.grows, fun d hcalm => ?_⟩
  have hg := ha.grows d
  have hr := ha.sound d
  rcases hact : act h d with ⟨outcome, d₁⟩
  rw [hact] at hg hr
  have hg' := hl.grows d₁
  have hr' := hl.returned d₁
  rcases hlast : last h d₁ with ⟨ended, d₂⟩
  rw [hlast] at hg' hr'
  cases outcome <;> cases ended <;> simp only [Act.onInterrupt, hact, hlast] at hcalm ⊢
  case fatal.returned | fatal.interrupted | fatal.fatal => exact absurd rfl (hr hcalm)
  case interrupted.interrupted | interrupted.fatal =>
    obtain ⟨_, hno⟩ := hr' (hcalm.split hg hg').2
    cases hno
  all_goals simp

/-- In a calm run an action that returns can be taken off what follows it. -/
theorem Returns.peel {x : Act σ α} {f : α → Act σ β} (hx : Returns h x) {d : Desk σ}
    (hcalm : Calm d ((x >>= f) h d).2) (hf : ∀ a d', x h d = (.returned a, d') → Grows d' (f a h d').2) :
    ∃ a d', x h d = (.returned a, d') ∧ (x >>= f) h d = f a h d' ∧ Calm d d' ∧ Calm d' (f a h d').2 := by
  have hg := hx.grows d
  have hr := hx.returned d
  rcases bind_cases (h := h) x f d with ⟨a, d', hd, hb⟩ | ⟨_, d', hd, hb⟩ | ⟨d', hd, hb⟩
  all_goals rw [hd] at hg hr
  all_goals rw [hb] at hcalm
  · obtain ⟨h₁, h₂⟩ := hcalm.split hg (hf a d' hd)
    exact ⟨a, d', hd, hb, h₁, h₂⟩
  · obtain ⟨_, hno⟩ := hr hcalm
    cases hno
  · obtain ⟨_, hno⟩ := hr hcalm
    cases hno

/-- In a calm run cleaning up is what an action comes to last. -/
theorem NoFatal.ensure_desk {act : Act σ α} {last : Act σ Unit} (ha : NoFatal h act) (hl : Within Grows h last)
    {d : Desk σ} (hcalm : Calm d (Act.ensure act last h d).2) :
    (Act.ensure act last h d).2 = (last h (act h d).2).2 ∧ Calm d (act h d).2 ∧
      Calm (act h d).2 (last h (act h d).2).2 := by
  have hg := ha.grows d
  have hr := ha.sound d
  have hg' := hl (act h d).2
  have heq : (Act.ensure act last h d).2 = (last h (act h d).2).2 := by
    unfold Act.ensure at hcalm ⊢
    rcases hact : act h d with ⟨outcome, d₁⟩
    rw [hact] at hr
    rcases hlast : last h d₁ with ⟨ended, d₂⟩
    cases outcome <;> cases ended <;> simp only [hact, hlast] at hcalm ⊢
    all_goals exact absurd rfl (hr hcalm)
  rw [heq] at hcalm ⊢
  exact ⟨rfl, hcalm.split hg hg'⟩

/-- What reaches one member of a list holds in the end, when the others do not undo it. -/
theorem each_calmly {R S : Desk σ → Desk σ → Prop} (hR : Desk.Path R)
    (hbefore : ∀ {d e f}, R d e → S e f → S d f) (hafter : ∀ {d e f}, S d e → R e f → S d f)
    {f : α → Act σ Unit} (hreturns : ∀ x, Returns h (f x)) (hf : ∀ x, Within (Calmly R) h (f x)) {x : α}
    (hs : Within (Calmly S) h (f x)) {xs : List α} (hx : x ∈ xs) : Within (Calmly S) h (each xs f) := by
  intro d
  refine ⟨(Returns.each hreturns xs).grows d, fun hcalm => ?_⟩
  induction xs generalizing d with
  | nil => cases hx
  | cons y xs ih =>
    obtain ⟨_, d', hrun, hrest, hcalm₁, hcalm₂⟩ :=
      (hreturns y).peel hcalm fun _ d' _ => (Returns.each hreturns xs).grows d'
    have hy := (hf y d).2
    change S d ((f y >>= fun _ => each xs f) h d).2
    rw [hrest]
    rcases List.mem_cons.1 hx with rfl | hx
    · have hreached := (hs d).2
      rw [hrun] at hreached
      exact hafter (hreached hcalm₁) ((Within.each (Calmly.path hR) hf xs d').2 hcalm₂)
    · rw [hrun] at hy
      exact hbefore (hy hcalm₁) (ih hx d' hcalm₂)

/-- A thing that is held meanwhile is given up in the end. -/
theorem holding_calmly {R : Desk σ → Desk σ → Prop} {r : Ref} {act : Act σ Unit} (hnoFatal : NoFatal h act)
    (hact : Within (Calmly R) h act)
    (hheld : ∀ d e, R { d with held := r :: d.held } e → R d { e with held := e.held.erase r }) :
    Within (Calmly R) h (do hold r; ensure act (unhold r)) := by
  intro d
  have hlast : Within Grows h (unhold r) := fun e => Grows.path.refl e
  refine ⟨Within.ensure Grows.path hnoFatal.grows hlast { d with held := r :: d.held }, fun hcalm => ?_⟩
  obtain ⟨hdesk, hcalm₁, -⟩ := hnoFatal.ensure_desk (d := { d with held := r :: d.held }) hlast hcalm
  have hrun := (hact { d with held := r :: d.held }).2 hcalm₁
  change R d (ensure act (unhold r) h { d with held := r :: d.held }).2
  rw [hdesk]
  exact hheld d _ hrun

/-- Looking at an answer leaves the desk as it is. -/
theorem bind_desk {x : Act σ α} {f : α → Act σ β} (hf : ∀ a d, (f a h d).2 = d) (d : Desk σ) :
    ((x >>= f) h d).2 = (x h d).2 := by
  rcases bind_cases (h := h) x f d with ⟨a, d', hd, hb⟩ | ⟨_, d', hd, hb⟩ | ⟨d', hd, hb⟩
  · rw [hb, hd, hf]
  · rw [hb, hd]
  · rw [hb, hd]

theorem NoFatal.attempt {act : Act σ α} (ha : NoFatal h act) : NoFatal h (attempt act) := by
  refine ⟨Within.attempt ha.grows, fun d hcalm => ?_⟩
  have hr := ha.sound d
  rcases hact : act h d with ⟨outcome, d₁⟩
  rw [hact] at hr
  cases outcome <;> simp only [Act.attempt, hact] at hcalm ⊢
  case fatal => exact absurd rfl (hr hcalm)
  all_goals simp

end Act

/-! ## Steps -/

namespace Desk

theorem grows_enter (d : Desk σ) (e : Deed) : Grows d (d.enter e) := ⟨[e], by simp⟩

theorem grows_accepted (d : Desk σ) (s : Share) (c : Call) (m : Model) : Grows d (d.accepted s c m) :=
  ⟨[.call s.id c], by simp⟩

theorem Step.grows {d e : Desk σ} (h : Step d e) : Grows d e := by
  cases h with
  | acquire | release | takeDocument => exact grows_accepted ..
  | openBracket | closeBracket => exact ⟨_, by rw [toList_announced, toList_accepted, List.append_assoc]⟩
  | client | session => exact Grows.path.refl d
  | putDocument | lost | dirtied | told | threw | starting | entered | left | runs | ran | opened =>
    exact grows_enter ..

theorem Recorded.grows {d e : Desk σ} (h : Recorded d e) : Grows d e := by
  cases h with
  | beginRecording | endRecording => exact grows_accepted ..
  | began | finished | edits | edited => exact grows_enter ..
  | depth => exact Grows.path.refl d

end Desk

/-! ## What returns in a calm run -/

namespace Act

open Desk (Grows)

variable {h : Host σ} {ε : Type}

theorem Returns.accept (s : Share) (c : Call) (m : Model) : Returns h (Act.accept s c m) :=
  ⟨fun d => d.grows_accepted s c m, fun _ _ => ⟨(), rfl⟩⟩

theorem Returns.did (e : Deed) : Returns h (Act.did e) := ⟨fun d => d.grows_enter e, fun _ _ => ⟨(), rfl⟩⟩

theorem NoFatal.between {first last : Deed} {act : Act σ α} (ha : NoFatal h act) :
    NoFatal h (between first last act) :=
  (Returns.did first).noFatal.bind fun _ => ha.ensure (Returns.did last)

/-- A change of the desk that leaves the history alone. -/
theorem Returns.change {f : Desk σ → Desk σ} (hf : ∀ d, (f d).history = d.history) :
    Returns h (Act.change f) :=
  ⟨fun d => by simp [Grows, hf d], fun _ _ => ⟨(), rfl⟩⟩

theorem Returns.note (n : Notice) : Returns h (Act.note n) :=
  ⟨fun d => Grows.path.refl d, fun _ _ => ⟨(), rfl⟩⟩

variable (hg : ∀ c d, Grows d (h.answer c d).2)

include hg

theorem call_returns (c : Callback) : Returns h (call c) := by
  refine ⟨call_within Grows.path (fun d _ => d.grows_enter _) (fun d _ => d.grows_enter _) hg c,
    fun d hcalm => ?_⟩
  have hgrows := (d.grows_enter (.told c d.model.document)).trans (hg c _)
  unfold call at hcalm ⊢
  rcases hans : h.answer c (d.enter (.told c d.model.document)) with ⟨outcome, e⟩
  rw [hans] at hgrows
  simp only [hans] at hcalm
  cases outcome with
  | returned _ => exact ⟨(), rfl⟩
  | interrupted _ => exact absurd hcalm (Desk.not_calm_threw hgrows c)
  | fatal => exact absurd hcalm (Desk.not_calm_threw hgrows c)

/-- In a calm run a call comes to what the client's answer comes to. -/
theorem call_desk {c : Callback} {d : Desk σ} (hcalm : Desk.Calm d (call c h d).2) :
    (call c h d).2 = (h.answer c (d.enter (.told c d.model.document))).2 := by
  have hgrows := (d.grows_enter (.told c d.model.document)).trans (hg c _)
  unfold call at hcalm ⊢
  rcases hans : h.answer c (d.enter (.told c d.model.document)) with ⟨outcome, e⟩
  rw [hans] at hgrows
  simp only [hans] at hcalm ⊢
  cases outcome with
  | returned _ => rfl
  | interrupted _ => exact absurd hcalm (Desk.not_calm_threw hgrows c)
  | fatal => exact absurd hcalm (Desk.not_calm_threw hgrows c)

theorem notify_returns (o : Observer) (event : Event) : Returns h (notify o event) := by
  cases o with
  | view id => exact call_returns hg _
  | tabs id =>
    cases event with
    | changed document => exact (Returns.look _).bind fun _ => Returns.each (fun _ => call_returns hg _) _
    | _ => exact Returns.pure ()

theorem deliver_returns (event : Event) (l : Listener) : Returns h (deliver event l) := by
  cases l with
  | client id => exact call_returns hg _
  | relay o =>
    refine (Returns.look _).bind fun here => ?_
    cases here with
    | false => exact Returns.pure ()
    | true =>
      have hhold : Returns h (hold o.ref) := Returns.change fun _ => rfl
      have hunhold : Returns h (unhold o.ref) := Returns.change fun _ => rfl
      exact hhold.bind fun _ => (notify_returns hg o event).ensure hunhold

theorem emit_returns (event : Event) : Returns h (emit event) :=
  (Returns.did _).bind fun _ => (Returns.look _).bind fun _ =>
    Returns.each (fun _ => deliver_returns hg event _) _

omit hg in
theorem acquire_returns (access : Access) : Returns h (acquire access) := by
  refine (Returns.look _).bind fun m => ?_
  cases m.acquire access with
  | error e => exact Returns.pure _
  | ok taken => exact (Returns.accept ..).bind fun _ => Returns.pure _

omit hg in
theorem release_returns (s : Share) : Returns h (release s) := by
  refine (Returns.look _).bind fun m => ?_
  cases m.release? s with
  | none => exact Returns.note _
  | some taken => exact Returns.accept ..

theorem openBracket_returns (s : Share) : Returns h (openBracket s) := by
  refine (Returns.look _).bind fun m => ?_
  cases m.openBracket s with
  | error e => exact Returns.pure _
  | ok m =>
    refine (Returns.accept ..).bind fun _ => ?_
    by_cases hfirst : m.changing = 1
    · simp only [hfirst, if_true]
      exact (emit_returns hg _).bind fun _ => Returns.pure _
    · simp only [hfirst, if_false]
      exact Returns.pure _

theorem closeBracket_returns (s : Share) : Returns h (closeBracket s) := by
  refine (Returns.look _).bind fun m => ?_
  cases m.closeBracket s with
  | error n => exact Returns.note _
  | ok m =>
    refine (Returns.accept ..).bind fun _ => ?_
    by_cases hlast : m.changing = 0
    · simp only [hlast, if_true]
      exact emit_returns hg _
    · simp only [hlast, if_false]
      exact Returns.pure _

theorem leaveSession_returns (id : CoordinatorId) : Returns h (leaveSession id) := by
  refine (Returns.did _).bind fun _ => (Returns.look _).bind fun s => ?_
  rcases s.leave with ⟨exit, after⟩
  have hset : Returns h (setSession id after) := Returns.change fun _ => rfl
  refine hset.bind fun _ => ?_
  cases exit with
  | outermost share => exact (closeBracket_returns hg share).ensure (release_returns share)
  | nested depth => exact Returns.pure ()
  | underflow => exact Returns.pure ()

omit hg in
theorem withShare_returns (access : Access) {f : Share → Act σ α} (hf : ∀ s, Returns h (f s)) :
    Returns h (withShare access f) := by
  refine (acquire_returns access).bind fun taken => ?_
  cases taken with
  | error e => exact Returns.pure _
  | ok share => exact ((hf share).ensure (release_returns share)).bind fun _ => Returns.pure _

omit hg in
theorem startRecording_returns (id : CoordinatorId) (label : Option String) :
    Returns h (startRecording id label) := by
  refine (withShare_returns .edit fun share => (Returns.look _).bind fun m => ?_).bind fun started => ?_
  · cases m.beginRecording share (.coordinator id) label with
    | error e => exact Returns.pure _
    | ok m => exact (Returns.accept ..).bind fun _ => Returns.pure _
  · cases started <;> exact Returns.pure _

omit hg in
theorem finishRecording_returns (id : CoordinatorId) : Returns h (finishRecording id) := by
  refine (Returns.look _).bind fun available => (Returns.did _).bind fun _ => ?_
  refine (withShare_returns .edit fun share => (Returns.look _).bind fun m => ?_).bind fun finished => ?_
  · cases m.endRecording share (.coordinator id) with
    | error n => exact Returns.note _
    | ok m => exact Returns.accept ..
  · cases finished with
    | error e => exact Returns.note _
    | ok _ => exact Returns.pure _

theorem undo_returns : Returns h undo := by
  refine (Returns.look _).bind fun m => ?_
  by_cases hbarred : m.undoBarred = true
  · simp only [hbarred, if_true]
    exact (Returns.note _).bind fun _ => Returns.pure _
  · simp only [hbarred, Bool.false_eq_true, if_false]
    cases m.popUndo? with
    | none => exact Returns.pure _
    | some popped =>
      have hset (m : Model) : Returns h (setModel m) := Returns.change fun _ => rfl
      exact (hset _).bind fun _ => (emit_returns hg _).bind fun _ => (Returns.look _).bind fun m =>
        (hset _).bind fun _ => (emit_returns hg _).bind fun _ => Returns.pure _

/-! ## What is not fatal in a calm run -/

omit hg in
theorem NoFatal.interrupt (message : String) : NoFatal h (Act.interrupt message : Act σ α) :=
  ⟨Within.interrupt Grows.path message, fun _ _ => nofun⟩

omit hg in
theorem scopeShare_noFatal (s : Scope) : NoFatal h (scopeShare s) := by
  refine (Returns.look _).noFatal.bind fun session => ?_
  cases session.share? with
  | none => exact NoFatal.interrupt _
  | some share => exact (Returns.pure _).noFatal

theorem mutate_noFatal (s : Share) {f : Document → Act σ (α × Document)} (hf : ∀ document, NoFatal h (f document)) :
    NoFatal h (mutate s f) := by
  refine (Returns.look _).noFatal.bind fun m => ?_
  cases m.takeDocument s with
  | error e => exact (Returns.pure _).noFatal
  | ok taken =>
    refine (Returns.accept ..).noFatal.bind fun _ =>
      ((hf taken.1).onInterrupt (Returns.did _)).bind fun result => ?_
    refine ((Returns.look _).bind fun wasDirty => ?_).noFatal
    have hput : Returns h (change fun d : Desk σ =>
        { d.enter (.mutated true) with model := d.model.putDocument result.2 }) :=
      ⟨fun d => d.grows_enter _, fun _ _ => ⟨(), rfl⟩⟩
    refine hput.bind fun _ => ?_
    cases wasDirty with
    | true => exact Returns.pure _
    | false => exact (emit_returns hg _).bind fun _ => Returns.pure _

theorem startWith_returns (id : CoordinatorId) (share : Share) : Returns h (startWith id share) := by
  refine ((openBracket_returns hg share).onInterrupt (release_returns share)).bind fun opened => ?_
  cases opened with
  | error e => exact (release_returns share).bind fun _ => Returns.pure _
  | ok _ =>
    have hset : Returns h (setSession id (.opened share)) := Returns.change fun _ => rfl
    exact hset.bind fun _ => (Returns.did _).bind fun _ => Returns.pure _

theorem startSession_returns (id : CoordinatorId) : Returns h (startSession id) := by
  refine (acquire_returns .edit).bind fun taken => ?_
  cases taken with
  | error e => exact Returns.pure _
  | ok share => exact (Returns.did _).bind fun _ => startWith_returns hg id share

theorem openSession_returns (id : CoordinatorId) : Returns h (openSession id) := by
  refine (Returns.look _).bind fun session => ?_
  cases session.nest? with
  | none => exact startSession_returns hg id
  | some deeper =>
    have hset : Returns h (setSession id deeper) := Returns.change fun _ => rfl
    exact (Returns.look _).bind fun _ => (Returns.did _).bind fun _ => hset.bind fun _ => Returns.pure _

theorem edit_noFatal (id : CoordinatorId) {mutation : Scope → Act σ (Except ε α)} (hm : NoFatal h (mutation ⟨id⟩)) :
    NoFatal h (edit id mutation) := by
  refine (openSession_returns hg id).noFatal.bind fun entered => ?_
  cases entered with
  | error e => exact ((Returns.note _).bind fun _ => Returns.pure _).noFatal
  | ok _ =>
    refine (hm.between.ensure (leaveSession_returns hg id)).bind fun ended => ?_
    cases ended <;> exact (Returns.pure _).noFatal

/-- What a calm edit comes to: the session cannot be opened, or the mutation runs between opening and
leaving it. -/
theorem edit_parts {id : CoordinatorId} {mutation : Scope → Act σ (Except ε α)} (hm : NoFatal h (mutation ⟨id⟩))
    {d : Desk σ} (hcalm : Desk.Calm d (edit id mutation h d).2) :
    (∃ e d₁, openSession id h d = (.returned (.error e), d₁) ∧ Desk.Calm d d₁ ∧
      (edit id mutation h d).2 = { d₁ with client := h.note (.editAborted e) d₁.client }) ∨
    (∃ d₁, openSession id h d = (.returned (.ok ()), d₁) ∧ Desk.Calm d d₁ ∧
      Desk.Calm d₁ (between (.runs id) (.ran id) (mutation ⟨id⟩) h d₁).2 ∧
      Desk.Calm (between (.runs id) (.ran id) (mutation ⟨id⟩) h d₁).2
        (leaveSession id h (between (.runs id) (.ran id) (mutation ⟨id⟩) h d₁).2).2 ∧
      (edit id mutation h d).2 = (leaveSession id h (between (.runs id) (.ran id) (mutation ⟨id⟩) h d₁).2).2) := by
  have hlast := leaveSession_returns hg id
  have hrun : NoFatal h (between (.runs id) (.ran id) (mutation ⟨id⟩)) := hm.between
  obtain ⟨entered, d₁, hopen, hrest, hcalm₁, hcalm₂⟩ :=
    (openSession_returns hg id).peel hcalm fun entered d₁ _ => by
      cases entered with
      | error e => exact ((Returns.note _).bind fun _ => Returns.pure _).grows d₁
      | ok _ =>
        refine ((hrun.ensure hlast).bind fun ended => ?_).grows d₁
        cases ended <;> exact (Returns.pure _).noFatal
  cases entered with
  | error e => exact .inl ⟨e, d₁, hopen, hcalm₁, congrArg Prod.snd hrest⟩
  | ok _ =>
    have hensured : (edit id mutation h d).2 =
        (ensure (between (.runs id) (.ran id) (mutation ⟨id⟩)) (leaveSession id) h d₁).2 :=
      (congrArg Prod.snd hrest).trans (bind_desk (fun ended e => by cases ended <;> rfl) d₁)
    have hcalm₃ : Desk.Calm d₁ (ensure (between (.runs id) (.ran id) (mutation ⟨id⟩)) (leaveSession id) h d₁).2 :=
      hensured ▸ (congrArg Prod.snd hrest).symm ▸ hcalm₂
    obtain ⟨hdesk, hmutated, hleft⟩ := hrun.ensure_desk hlast.grows hcalm₃
    exact .inr ⟨d₁, hopen, hcalm₁, hmutated, hleft, hensured.trans hdesk⟩

theorem undoableEdit_noFatal (id : CoordinatorId) (label : Option String)
    {mutation : Scope → Act σ (Except ε α)} (hm : NoFatal h (mutation ⟨id⟩)) :
    NoFatal h (undoableEdit id label mutation) := by
  have hedit := edit_noFatal hg id hm
  have hdepth (f : Nat → Nat) : Returns h (changeUndoDepth id f) := Returns.change fun _ => rfl
  refine (Returns.look _).noFatal.bind fun depth => ?_
  by_cases hdeep : depth > 0
  · simp only [hdeep, if_true]
    exact (hdepth _).noFatal.bind fun _ => hedit.ensure (hdepth _)
  · simp only [hdeep, if_false]
    refine (Returns.look _).noFatal.bind fun before =>
      (startRecording_returns id label).noFatal.bind fun started => ?_
    cases started with
    | error source =>
      exact ((Returns.look _).bind fun _ => (Returns.note _).bind fun _ => Returns.pure _).noFatal
    | ok _ =>
      exact (Returns.did _).noFatal.bind fun _ => (hdepth _).noFatal.bind fun _ =>
        hedit.between.ensure ((hdepth _).bind fun _ => finishRecording_returns id)

theorem Passed.noFatal (n : Nat) : Passed n (fun a => NoFatal h a) where
  pure a := (Returns.pure a).noFatal
  bind := NoFatal.bind
  attempt := NoFatal.attempt
  mutate s _ hf := (scopeShare_noFatal s).bind fun share => mutate_noFatal hg share hf
  edit _ hm := edit_noFatal hg _ hm
  undoable label _ _ hm := undoableEdit_noFatal hg _ label hm

end Act

end FormDesk
