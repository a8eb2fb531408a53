/-
Rounds. An event that goes out makes one round: it reaches each subscription
that there is when it goes out, in order, once. Whoever subscribes during the
round is not in it, and whoever leaves is. What a client that is told does may
make rounds of its own, which are over before the next one is told. `Rounds`
says so of what was done between two desks, `Served` of one round, and `Reached`
of what a subscription comes to: a client is told, and so is a view through its
relay; tabs pass a changed document on to each page that they have when it
reaches them, in order, and nothing else.

Whatever callers do with the model, with relays, pages and editors comes in
rounds (`events_delivered`). This is shown along the way that events take, from
the clients' answers (`call_told`) to the whole emission (`emit_rounds`).
Whenever an event goes out, and whenever somebody is told something, a relay that
was detached while shares were handed out has no subscription that a round could
reach (`DetachedEnded`).
-/
import FormDesk.Proofs.Deskwork
import FormDesk.Proofs.Views

namespace FormDesk

variable {σ α β : Type}

/-- Whether somebody is told something, or interrupts who was told. -/
def Deed.tells : Deed → Bool
  | emitted _ | told .. | threw _ => true
  | _ => false

theorem Deed.tells_of_unheard {x : Deed} (h : x.unheard = true) : x.tells = false := by
  cases x <;> first | rfl | cases h

/-- Without a subscription under the token, none is removed. -/
theorem Subscription.filter_of_absent {l : List Subscription} {token : Token}
    (h : l.any (·.token == token) = false) : l.filter (·.token != token) = l := by
  rw [List.any_eq_false] at h
  exact List.filter_eq_self.2 fun s hs => by simpa using h s hs

namespace Desk

/-! ## Tokens -/

/-- What was handed out is not handed out again: new subscriptions have new tokens, and relays keep their
tokens or let go of them. -/
structure TokensLast (d e : Desk σ) : Prop where
  tokens : d.model.nextToken ≤ e.model.nextToken
  subscriptions : ∀ s ∈ e.model.subscriptions, s ∈ d.model.subscriptions ∨ d.model.nextToken ≤ s.token
  relays : d.relays.length ≤ e.relays.length
  relay : ∀ id < d.relays.length, (e.relay id).subscription = (d.relay id).subscription ∨
    (e.relay id).subscription = none
  issued : ∀ id token, (e.relay id).subscription = some token →
    (d.relay id).subscription = some token ∨ token < e.model.nextToken

/-- Relays have tokens that were handed out. Those that were detached have none, and if shares were handed out
at that time, nobody is subscribed under the token that they had. -/
structure DetachedEnded (d : Desk σ) : Prop where
  issued : ∀ id token, (d.relay id).subscription = some token → token < d.model.nextToken
  detached : ∀ id token available, .detaching id token available ∈ d.history.toList →
    id < d.relays.length ∧ (d.relay id).subscription = none
  removed : ∀ id token, .detaching id token true ∈ d.history.toList →
    token < d.model.nextToken ∧ ∀ s ∈ d.model.subscriptions, s.token ≠ token

/-- A relay was detached. If a share could be had for it, its subscription was ended. -/
structure Detached (id : RelayId) (token : Token) (available : Bool) (d e : Desk σ) : Prop where
  relay : (d.relay id).subscription = some token
  relays : e.relays = (d.withSubscription id none).relays
  tokens : e.model.nextToken = d.model.nextToken
  subscriptions : e.model.subscriptions =
    if available then d.model.subscriptions.filter (·.token != token) else d.model.subscriptions
  deeds : ∃ w, e.history.toList = d.history.toList ++ .detaching id token available :: w ∧
    w = if available then .call d.model.nextShare (.acquire .read) ::
      ((if d.model.subscriptions.any (·.token == token) then [.call d.model.nextShare .unsubscribe] else []) ++
        [.call d.model.nextShare (.release .read)]) else []

section

variable {d e f : Desk σ}

theorem TokensLast.path : Path (TokensLast (σ := σ)) where
  refl _ := ⟨Nat.le_refl _, fun _ => .inl, Nat.le_refl _, fun _ _ => .inl rfl, fun _ _ => .inl⟩
  trans := by
    intro d e f h h'
    refine ⟨Nat.le_trans h.tokens h'.tokens, fun s hs => ?_, Nat.le_trans h.relays h'.relays, fun id hid => ?_,
      fun id token hf => ?_⟩
    · rcases h'.subscriptions s hs with he | hnew
      · exact h.subscriptions s he
      · exact .inr (Nat.le_trans h.tokens hnew)
    · rcases h'.relay id (Nat.lt_of_lt_of_le hid h.relays) with heq | hnone
      · rw [heq]
        exact h.relay id hid
      · exact .inr hnone
    · rcases h'.issued id token hf with he | hlt
      · exact (h.issued id token he).imp_right fun hlt => Nat.lt_of_lt_of_le hlt h'.tokens
      · exact .inr hlt

/-- Whoever leaves the relays alone may hand out tokens and end subscriptions. -/
theorem TokensLast.of_relays (hr : e.relays = d.relays) (ht : d.model.nextToken ≤ e.model.nextToken)
    (hs : ∀ s ∈ e.model.subscriptions, s ∈ d.model.subscriptions ∨ d.model.nextToken ≤ s.token) :
    TokensLast d e := by
  have hrelay (id : RelayId) : e.relay id = d.relay id := by rw [Desk.relay, hr, Desk.relay]
  exact ⟨ht, hs, Nat.le_of_eq (by rw [hr]), fun id _ => .inl (by rw [hrelay]),
    fun id token htoken => .inl (by rwa [hrelay] at htoken)⟩

/-- Whatever leaves the relays and their subscriptions alone. -/
theorem TokensLast.of_same (hr : e.relays = d.relays) (hm : e.model = d.model) : TokensLast d e :=
  .of_relays hr (Nat.le_of_eq (by rw [hm])) fun s hs => .inl (hm ▸ hs)

theorem TokensLast.enter (d : Desk σ) (x : Deed) : TokensLast d (d.enter x) := .of_same rfl rfl

theorem Unheard.tokensLast (h : Unheard d e) : TokensLast d e := by
  rcases h.subscriptions with ⟨hs, ht⟩ | ⟨listener, hs, ht⟩
  · exact .of_relays h.relays (Nat.le_of_eq ht.symm) fun s hmem => .inl (hs ▸ hmem)
  · refine .of_relays h.relays (by rw [ht]; exact Nat.le_succ _) fun s hmem => ?_
    rw [hs, List.mem_append, List.mem_singleton] at hmem
    rcases hmem with hmem | rfl
    · exact .inl hmem
    · exact .inr (Nat.le_refl _)

/-- That stays so until another relay is detached. -/
theorem DetachedEnded.later (h : d.DetachedEnded) (hl : TokensLast d e) (hdeeds : ∀ id token available,
    .detaching id token available ∈ e.history.toList → .detaching id token available ∈ d.history.toList) :
    e.DetachedEnded := by
  refine ⟨fun id token htoken => ?_, fun id token available hdeed => ?_, fun id token hdeed => ?_⟩
  · rcases hl.issued id token htoken with hold | hlt
    · exact Nat.lt_of_lt_of_le (h.issued id token hold) hl.tokens
    · exact hlt
  · obtain ⟨hid, hnone⟩ := h.detached id token available (hdeeds id token available hdeed)
    refine ⟨Nat.lt_of_lt_of_le hid hl.relays, ?_⟩
    rcases hl.relay id hid with hsame | hnone'
    · rw [hsame, hnone]
    · exact hnone'
  · obtain ⟨hlt, habsent⟩ := h.removed id token (hdeeds id token true hdeed)
    refine ⟨Nat.lt_of_lt_of_le hlt hl.tokens, fun s hs => ?_⟩
    rcases hl.subscriptions s hs with hold | hnew
    · exact habsent s hold
    · exact Nat.ne_of_gt (Nat.lt_of_lt_of_le hlt hnew)

theorem DetachedEnded.entered (h : d.DetachedEnded) {x : Deed}
    (hx : ∀ id token available, x ≠ .detaching id token available) :
    (d.enter x).DetachedEnded := by
  refine h.later (.enter d x) fun id token available hdeed => ?_
  rw [toList_enter, List.mem_append, List.mem_singleton] at hdeed
  exact hdeed.resolve_right fun heq => hx id token available heq.symm

/-- What things are in use does not matter. -/
theorem DetachedEnded.held (h : d.DetachedEnded) (l : List Ref) : DetachedEnded { d with held := l } :=
  h.later (.of_same rfl rfl) fun _ _ _ => id

theorem relay_withSubscription (d : Desk σ) (id i : RelayId) :
    ((d.withSubscription id none).relay i).subscription = if id = i then none else (d.relay i).subscription := by
  simp only [Desk.relay, withSubscription, List.getElem?_modify]
  by_cases hi : id = i
  · cases d.relays[i]? <;> simp [hi]
  · simp [hi]

section

variable {id : RelayId} {token : Token} {available : Bool} (h : Detached id token available d e)

include h

theorem Detached.relay_eq (i : RelayId) :
    (e.relay i).subscription = if id = i then none else (d.relay i).subscription := by
  rw [← relay_withSubscription, Desk.relay, h.relays, Desk.relay]

theorem Detached.length_eq : e.relays.length = d.relays.length := by simp [h.relays, withSubscription]

theorem Detached.mem_subscriptions {s : Subscription} (hs : s ∈ e.model.subscriptions) :
    s ∈ d.model.subscriptions ∧ (available = true → s.token ≠ token) := by
  rw [h.subscriptions] at hs
  cases available with
  | false => exact ⟨hs, nofun⟩
  | true => simpa using hs

theorem Detached.mem_deeds {x : Deed} (hx : x ∈ e.history.toList) :
    x ∈ d.history.toList ∨ x = .detaching id token available ∨ (∃ s c, x = .call s c) := by
  obtain ⟨w, hw, rfl⟩ := h.deeds
  rw [hw, List.mem_append, List.mem_cons] at hx
  refine hx.imp_right fun hx => hx.imp_right fun hx => ?_
  cases available with
  | false => cases hx
  | true =>
    simp only [if_true, List.mem_cons, List.mem_append, List.not_mem_nil, or_false] at hx
    rcases hx with rfl | hx | rfl
    · exact ⟨_, _, rfl⟩
    · split at hx
      · exact ⟨_, _, List.mem_singleton.1 hx⟩
      · cases hx
    · exact ⟨_, _, rfl⟩

theorem Detached.tokensLast : TokensLast d e := by
  refine ⟨Nat.le_of_eq h.tokens.symm, fun s hs => .inl (h.mem_subscriptions hs).1, Nat.le_of_eq h.length_eq.symm,
    fun i _ => ?_, fun i token' htoken => ?_⟩
  · rw [h.relay_eq]
    by_cases hi : id = i
    · exact .inr (if_pos hi)
    · exact .inl (if_neg hi)
  · rw [h.relay_eq] at htoken
    by_cases hi : id = i
    · simp [hi] at htoken
    · exact .inl (by rwa [if_neg hi] at htoken)

theorem Detached.within : id < d.relays.length := by
  refine Nat.lt_of_not_le fun hle => ?_
  have hrelay := h.relay
  rw [Desk.relay, List.getElem?_eq_none hle] at hrelay
  cases hrelay

theorem Detached.detachedEnded (hd : d.DetachedEnded) : e.DetachedEnded := by
  have hdeeds {i : RelayId} {t : Token} {b : Bool} (hdeed : .detaching i t b ∈ e.history.toList) :
      .detaching i t b ∈ d.history.toList ∨ (i = id ∧ t = token ∧ b = available) := by
    rcases h.mem_deeds hdeed with hold | heq | ⟨s, c, heq⟩
    · exact .inl hold
    · cases heq
      exact .inr ⟨rfl, rfl, rfl⟩
    · cases heq
  refine ⟨fun i t htoken => ?_, fun i t b hdeed => ?_, fun i t hdeed => ?_⟩
  · rw [h.relay_eq] at htoken
    rw [h.tokens]
    by_cases hi : id = i
    · simp [hi] at htoken
    · exact hd.issued i t (by rwa [if_neg hi] at htoken)
  · rw [h.length_eq, h.relay_eq]
    rcases hdeeds hdeed with hold | ⟨rfl, -, -⟩
    · obtain ⟨hi, hnone⟩ := hd.detached i t b hold
      exact ⟨hi, by rw [hnone, ite_self]⟩
    · exact ⟨h.within, if_pos rfl⟩
  · rw [h.tokens]
    rcases hdeeds hdeed with hold | ⟨rfl, rfl, havailable⟩
    · obtain ⟨hlt, habsent⟩ := hd.removed i t hold
      exact ⟨hlt, fun s hs => habsent s (h.mem_subscriptions hs).1⟩
    · exact ⟨hd.issued _ _ h.relay, fun s hs => (h.mem_subscriptions hs).2 havailable.symm⟩

end

end

/-! ## Rounds -/

/-- Nobody was told anything: there were calls of the model, listeners joined or left, and what else is on the
desk may have changed. -/
inductive NobodyTold : Desk σ → Desk σ → Prop
  | untoldStep {d e} : UntoldStep d e → NobodyTold d e
  | left {d s token m} : d.model.unsubscribe s token = .ok (true, m) → NobodyTold d (d.accepted s .unsubscribe m)
  | detached {d e id token available} : Detached id token available d e → NobodyTold d e
  | arranged {d e} : e.model = d.model → e.history = d.history → TokensLast d e → NobodyTold d e
  | trans {d e f} : NobodyTold d e → NobodyTold e f → NobodyTold d f

mutual

/-- What was done between two desks: events made their rounds, and apart from that clients were only told of the
document as their relays were attached, and pages asked to do something. -/
inductive Rounds : Desk σ → Desk σ → Prop
  | nobodyTold {d e} : NobodyTold d e → Rounds d e
  | emitted {d e h event} : d.DetachedEnded →
      Served h event d.model.subscriptions (d.enter (.emitted event)) e → Rounds d e
  /-- A relay has been subscribed, and its observer is shown the document. -/
  | joined {d e h s o token m} : d.model.subscribe s (.relay o) = .ok (token, m) →
      Reached h (.changed d.model.document) (.relay o) (d.accepted s .subscribe m) e → Rounds d e
  | asked {d e c} : Act.Asks c → Told c d e → Rounds d e
  | trans {d e f} : Rounds d e → Rounds e f → Rounds d f

/-- A client is told, and does what it does. -/
inductive Told : Callback → Desk σ → Desk σ → Prop
  | told {c d e} : d.DetachedEnded → Rounds (d.enter (.told c d.model.document)) e → Told c d e

/-- The event reaches the subscriptions, one after another. -/
inductive Served : Host σ → Event → List Subscription → Desk σ → Desk σ → Prop
  | done {h event d} : Served h event [] d d
  | next {h event s rest d e f} : (Act.deliver event s.listener h d).2 = e →
      Reached h event s.listener d e → Served h event rest e f → Served h event (s :: rest) d f

/-- The event reaches a listener. -/
inductive Reached : Host σ → Event → Listener → Desk σ → Desk σ → Prop
  | client {h event id d e} : Told (.listener id event) d e → Reached h event (.client id) d e
  /-- The observer of a relay is not there any more. -/
  | absent {h event o d} : d.present o = false → Reached h event (.relay o) d d
  | view {h event id d e} : d.present (.view id) = true →
      Told (.view id event) { d with held := .view id :: d.held } e →
      Reached h event (.relay (.view id)) d { e with held := e.held.erase (.view id) }
  | tabs {h document id d e} : d.present (.tabs id) = true →
      Shown h document (d.tabsOf id).pages { d with held := .tabs id :: d.held } e →
      Reached h (.changed document) (.relay (.tabs id)) d { e with held := e.held.erase (.tabs id) }
  /-- Tabs care for nothing but the document. -/
  | careless {h event id d} : (∀ document, event ≠ .changed document) → Reached h event (.relay (.tabs id)) d d

/-- The document is shown to pages, one after another. -/
inductive Shown : Host σ → Option Document → List PageId → Desk σ → Desk σ → Prop
  | done {h document d} : Shown h document [] d d
  | next {h document page rest d e f} : (Act.call (.pageChanged page document) h d).2 = e →
      Told (.pageChanged page document) d e → Shown h document rest e f → Shown h document (page :: rest) d f

end

/-! ## Stretches in which nobody was told anything -/

section

variable {d e f : Desk σ}

theorem NobodyTold.refl (d : Desk σ) : NobodyTold d d := .arranged rfl rfl (TokensLast.path.refl d)

theorem NobodyTold.path : Path (NobodyTold (σ := σ)) where
  refl := .refl
  trans := .trans

theorem NobodyTold.tokensLast (h : NobodyTold d e) : TokensLast d e := by
  induction h with
  | untoldStep h => exact h.unheard.tokensLast
  | left h =>
    obtain rfl := Model.unsubscribe_ok h
    exact .of_relays rfl (Nat.le_refl _) fun s hs => .inl (List.mem_filter.1 hs).1
  | detached h => exact h.tokensLast
  | arranged _ _ h => exact h
  | trans _ _ h h' => exact TokensLast.path.trans h h'

/-- In such a stretch nobody is told anything. -/
theorem NobodyTold.untold (h : NobodyTold d e) :
    ∃ w, e.history.toList = d.history.toList ++ w ∧ ∀ x ∈ w, x.tells = false := by
  induction h with
  | untoldStep h =>
    obtain ⟨w, hw, hunheard⟩ := h.unheard.deeds
    exact ⟨w, hw, fun x hx => Deed.tells_of_unheard (hunheard x hx)⟩
  | left => exact ⟨_, toList_accepted .., by simp [Deed.tells]⟩
  | @detached d _ _ token available h =>
    obtain ⟨w, hw, rfl⟩ := h.deeds
    refine ⟨_, hw, ?_⟩
    cases available <;> cases d.model.subscriptions.any (·.token == token) <;> simp [Deed.tells]
  | arranged _ h => exact ⟨[], by rw [h, List.append_nil], by simp⟩
  | trans _ _ h h' =>
    obtain ⟨w, hw, htold⟩ := h
    obtain ⟨v, hv, htold'⟩ := h'
    exact ⟨w ++ v, by rw [hv, hw, List.append_assoc],
      fun x hx => (List.mem_append.1 hx).elim (htold x) (htold' x)⟩

theorem NobodyTold.grows (h : NobodyTold d e) : Grows d e := by
  obtain ⟨w, hw, -⟩ := h.untold
  exact ⟨w, hw.symm⟩

theorem NobodyTold.detachedEnded (h : NobodyTold d e) (hd : d.DetachedEnded) : e.DetachedEnded := by
  induction h with
  | untoldStep h =>
    obtain ⟨w, hw, hunheard⟩ := h.unheard.deeds
    refine hd.later h.unheard.tokensLast fun id token available hdeed => ?_
    rw [hw] at hdeed
    exact (List.mem_append.1 hdeed).resolve_right fun hmem => absurd (hunheard _ hmem) nofun
  | @left d s token m h =>
    refine hd.later (NobodyTold.left h).tokensLast fun id token available hdeed => ?_
    rw [toList_accepted, List.mem_append, List.mem_singleton] at hdeed
    exact hdeed.resolve_right nofun
  | detached h => exact h.detachedEnded hd
  | arranged _ hw h => exact hd.later h fun _ _ _ hdeed => hw ▸ hdeed
  | trans _ _ h h' => exact h' (h hd)

/-- What was handed out is not handed out again, and where detached relays have no subscription, they go on
having none and `R` holds. -/
def Orderly (R : Desk σ → Desk σ → Prop) (d e : Desk σ) : Prop :=
  TokensLast d e ∧ (d.DetachedEnded → e.DetachedEnded ∧ R d e)

theorem Orderly.comp {R S T : Desk σ → Desk σ → Prop} (hT : R d e → S e f → T d f)
    (h : Orderly R d e) (h' : Orderly S e f) : Orderly T d f := by
  refine ⟨TokensLast.path.trans h.1 h'.1, fun hd => ?_⟩
  obtain ⟨he, hR⟩ := h.2 hd
  obtain ⟨hf, hS⟩ := h'.2 he
  exact ⟨hf, hT hR hS⟩

theorem Orderly.path : Path (Orderly (Rounds (σ := σ))) where
  refl d := ⟨TokensLast.path.refl d, fun hd => ⟨hd, .nobodyTold (.refl d)⟩⟩
  trans := .comp .trans

theorem NobodyTold.orderly (h : NobodyTold d e) : Orderly Rounds d e :=
  ⟨h.tokensLast, fun hd => ⟨h.detachedEnded hd, .nobodyTold h⟩⟩

theorem NobodyTold.calmly (h : NobodyTold d e) : Calmly (Orderly Rounds) d e := ⟨h.grows, fun _ => h.orderly⟩

/-- Putting one more relay on the desk changes no other. -/
theorem relay_added (d : Desk σ) (r : Relay) (id : RelayId) :
    relay { d with relays := d.relays ++ [r] } id = if id = d.relays.length then r else d.relay id := by
  simp only [relay, List.getElem?_append]
  by_cases hid : id < d.relays.length
  · simp only [hid, if_true, Nat.ne_of_lt hid, if_false]
  · simp only [hid, if_false]
    by_cases heq : id = d.relays.length
    · simp [heq]
    · have hlt : d.relays.length < id := Nat.lt_of_le_of_ne (Nat.le_of_not_lt hid) (Ne.symm heq)
      rw [if_neg heq, List.getElem?_eq_none (Nat.le_of_lt hlt), List.getElem?_eq_none]
      exact Nat.le_sub_of_add_le (Nat.add_comm .. ▸ hlt)

/-- A relay with a token that has been handed out. -/
theorem relay_added_tokensLast {token : Token} (h : token < d.model.nextToken) :
    TokensLast d { d with relays := d.relays ++ [⟨some token⟩] } := by
  refine ⟨Nat.le_refl _, fun _ => .inl, by simp, fun id hid => .inl ?_, fun id token' htoken => ?_⟩
  · rw [relay_added, if_neg (Nat.ne_of_lt hid)]
  · rw [relay_added] at htoken
    by_cases hid : id = d.relays.length
    · rw [if_pos hid] at htoken
      cases htoken
      exact .inr h
    · rw [if_neg hid] at htoken
      exact .inl htoken

end

end Desk

/-- A live share shows the document there is. -/
theorem Model.documentFor_of_live {m : Model} {s : Share} {access : Access} (hs : m.accessOf? s.id = some access) :
    m.documentFor s = m.document := by
  cases access <;> simp [documentFor, objection?, hs]

namespace Act

open Desk

variable {h : Host σ}

/-- What members of a list come to one after another. -/
theorem each_orderly {f : α → Act σ Unit} {R : α → Desk σ → Desk σ → Prop}
    {S : List α → Desk σ → Desk σ → Prop}
    (hreturns : ∀ x, Returns h (f x)) (hf : ∀ x d, Calmly (Orderly (R x)) d (f x h d).2) (hdone : ∀ d, S [] d d)
    (hnext : ∀ {x rest d e g}, (f x h d).2 = e → R x d e → S rest e g → S (x :: rest) d g) :
    ∀ (xs : List α) (d : Desk σ), Calmly (Orderly (S xs)) d (each xs f h d).2
  | [], d => ⟨Grows.path.refl d, fun _ => ⟨TokensLast.path.refl d, fun hd => ⟨hd, hdone d⟩⟩⟩
  | x :: rest, d => by
    have hrest := each_orderly hreturns hf hdone hnext rest
    refine ⟨(Returns.each hreturns (x :: rest)).grows d, fun hcalm => ?_⟩
    obtain ⟨_, e, hrun, hgo, hcalm₁, hcalm₂⟩ := (hreturns x).peel hcalm fun _ e _ => (hrest e).1
    have hfirst := (hf x d).2 (by rw [hrun]; exact hcalm₁)
    rw [hrun] at hfirst
    change Orderly (S (x :: rest)) d ((f x >>= fun _ => each rest f) h d).2
    rw [hgo]
    exact hfirst.comp (hnext (congrArg Prod.snd hrun)) ((hrest e).2 hcalm₂)

section

variable (hc : ∀ c, Within (Calmly (Orderly Rounds)) h fun _ => h.answer c)

include hc

/-- A client is told, and does what it does. -/
theorem call_told (c : Callback) (d : Desk σ) : Calmly (Orderly (Told c)) d (call c h d).2 := by
  have hg : ∀ c d, Grows d (h.answer c d).2 := fun c d => (hc c d).1
  refine ⟨(call_returns hg c).grows d, fun hcalm => ?_⟩
  have hdesk := call_desk hg hcalm
  rw [hdesk] at hcalm ⊢
  have hentered := d.grows_enter (.told c d.model.document)
  have hanswer := hc c (d.enter (.told c d.model.document))
  obtain ⟨htokensLast, hrounds⟩ := hanswer.2 (hcalm.split hentered hanswer.1).2
  refine ⟨TokensLast.path.trans (.enter d _) htokensLast, fun hd => ?_⟩
  obtain ⟨hrelays, hrounds⟩ := hrounds (hd.entered nofun)
  exact ⟨hrelays, .told hd hrounds⟩

/-- An event reaches the observer of a relay that is there. -/
theorem observer_reached (o : Observer) (event : Event) {d : Desk σ} (hpresent : d.present o = true) :
    Calmly (Orderly (Reached h event (.relay o))) d (deliver event (.relay o) h d).2 := by
  have hg : ∀ c d, Grows d (h.answer c d).2 := fun c d => (hc c d).1
  refine ⟨(deliver_returns hg event _).grows d, fun hcalm => ?_⟩
  simp only [deliver, notifyPresent, look_bind, hpresent, if_true, hold, change_bind] at hcalm ⊢
  have hunhold : Within Grows h (unhold o.ref) := fun d => Grows.path.refl d
  obtain ⟨hdesk, hcalm₁, -⟩ := (notify_returns hg o event).noFatal.ensure_desk hunhold
    (d := { d with held := o.ref :: d.held }) hcalm
  rw [hdesk]
  have hheld : TokensLast d { d with held := o.ref :: d.held } := .of_same rfl rfl
  -- the observer is kept in use while it is told
  have hkept {S : Desk σ → Desk σ → Prop} {R : Desk σ → Desk σ → Prop} {e : Desk σ}
      (hS : Orderly S { d with held := o.ref :: d.held } e)
      (hR : S { d with held := o.ref :: d.held } e → R d { e with held := e.held.erase o.ref }) :
      Orderly R d { e with held := e.held.erase o.ref } := by
    refine ⟨TokensLast.path.trans hheld (TokensLast.path.trans hS.1 (.of_same rfl rfl)), fun hd => ?_⟩
    obtain ⟨he, hS⟩ := hS.2 (hd.held _)
    exact ⟨he.held _, hR hS⟩
  cases o with
  | view id => exact hkept ((call_told hc (.view id event) _).2 hcalm₁) (.view hpresent)
  | tabs id =>
    have hcareless (hevent : ∀ document, event ≠ .changed document)
        (hnothing : (notify (.tabs id) event : Act σ Unit) = pure ()) :
        Orderly (Reached h event (.relay (.tabs id))) d
          (unhold (Observer.ref (.tabs id)) h (notify (.tabs id) event h
            { d with held := Observer.ref (.tabs id) :: d.held }).2).2 := by
      rw [hnothing]
      simp only [pure_run, unhold, change_run, List.erase_cons_head]
      exact ⟨TokensLast.path.refl d, fun hd => ⟨hd, .careless hevent⟩⟩
    cases event with
    | changed document =>
      have hshown := each_orderly (S := Shown h document) (fun page => call_returns hg (.pageChanged page document))
        (fun page => call_told hc (.pageChanged page document)) (fun _ => .done) .next (d.tabsOf id).pages
        { d with held := .tabs id :: d.held }
      exact hkept (hshown.2 hcalm₁) (.tabs hpresent)
    | aboutToChange | dirtyChanged | resourceDeleted | resourceMoved | aboutToRebuild | rebuilt =>
      exact hcareless (fun _ heq => by cases heq) rfl

theorem deliver_reached (event : Event) (l : Listener) (d : Desk σ) :
    Calmly (Orderly (Reached h event l)) d (deliver event l h d).2 := by
  cases l with
  | client id =>
    exact (call_told hc _ d).imp fun _ htold => ⟨htold.1, fun hd => (htold.2 hd).imp_right .client⟩
  | relay o =>
    cases hpresent : d.present o with
    | true => exact observer_reached hc o event hpresent
    | false =>
      simp only [deliver, notifyPresent, look_bind, hpresent, Bool.false_eq_true, if_false, pure_run]
      exact ⟨Grows.path.refl d, fun _ => ⟨TokensLast.path.refl d, fun hd => ⟨hd, .absent hpresent⟩⟩⟩

/-- An event makes its round through the subscriptions that there are when it goes out. -/
theorem emit_served (event : Event) (d : Desk σ) :
    Calmly (Orderly (Served h event d.model.subscriptions)) (d.enter (.emitted event)) (emit event h d).2 := by
  have hg : ∀ c d, Grows d (h.answer c d).2 := fun c d => (hc c d).1
  exact each_orderly (fun s : Subscription => deliver_returns hg event s.listener)
    (fun s d => deliver_reached hc event s.listener d) (S := Served h event) (fun _ => .done) .next
    d.model.subscriptions (d.enter (.emitted event))

theorem emit_rounds (event : Event) : Within (Calmly (Orderly Rounds)) h (emit event) := by
  intro d
  have hserved := emit_served hc event d
  refine ⟨(d.grows_enter _).trans hserved.1, fun hcalm => ?_⟩
  obtain ⟨htokensLast, hserved⟩ := hserved.2 (hcalm.split (d.grows_enter _) hserved.1).2
  refine ⟨TokensLast.path.trans (.enter d _) htokensLast, fun hd => ?_⟩
  exact (hserved (hd.entered nofun)).imp_right (.emitted hd)

/-! ## Relays -/

/-- A calm attachment, unless no share can be had, subscribes the observer, shows it the document there is, and
tells nobody else anything. -/
theorem attach_joins {o : Observer} {d : Desk σ} (hcalm : Calm d (attach o h d).2) :
    (d.model.available = false ∧ ∃ e, attach o h d = (.returned (.error (.modelUnavailable e)), d)) ∨
    ∃ s m token m' e id, d.model.acquire .read = .ok (s, m) ∧ m.subscribe s (.relay o) = .ok (token, m') ∧
      Orderly (Reached h (.changed d.model.document) (.relay o))
        ((d.accepted s (.acquire .read) m).accepted s .subscribe m') e ∧
      NobodyTold e (attach o h d).2 ∧ (attach o h d).1 = .returned (.ok id) := by
  obtain hrefused | ⟨s, m, d₁, d₂, hacquire, hd₁, hnotify, hcalm₁, -, hrun⟩ :=
    attach_parts (fun c d => (hc c d).1) hcalm
  · exact .inl hrefused
  have hlive := Model.accessOf?_acquire hacquire
  have hsubscribe := Model.subscribe_of_live hlive (.relay o)
  have hdocument : d₁.model.documentFor s = d.model.document := by
    obtain ⟨-, -, rfl⟩ := Model.acquire_ok hacquire
    rw [← hd₁]
    exact Model.documentFor_of_live hlive
  have hshown := deliver_reached hc (.changed (d₁.model.documentFor s)) (.relay o) d₁
  have hdelivered : deliver (.changed (d₁.model.documentFor s)) (.relay o) h d₁ = (.returned (), d₂) := hnotify
  rw [hdelivered, hdocument] at hshown
  have hreached := hshown.2 hcalm₁
  have hback : NobodyTold d₂ (release s h d₂).2 :=
    release_within NobodyTold.path (fun _ _ hvisit => .untoldStep (.visit hvisit)) s d₂
  have htoken : m.nextToken < (release s h d₂).2.model.nextToken := by
    refine Nat.lt_of_lt_of_le ?_ (Nat.le_trans hreached.1.tokens hback.tokensLast.tokens)
    rw [← hd₁]
    exact Nat.lt_succ_self _
  refine .inr ⟨s, m, m.nextToken, _, d₂, _, hacquire, hsubscribe, ?_, ?_, by rw [hrun]⟩
  · rw [← hd₁] at hreached
    exact hreached
  · rw [hrun]
    exact .trans hback (.arranged rfl rfl (relay_added_tokensLast htoken))

theorem attach_rounds (o : Observer) : Within (Calmly (Orderly Rounds)) h (attach o) := by
  have hR := Orderly.path (σ := σ)
  refine fun d => ⟨(attach_returns (fun c d => (hc c d).1) o).grows d, fun hcalm => ?_⟩
  obtain ⟨-, e, hrun⟩ | ⟨s, m, token, m', e, id, hacquire, hsubscribe, hreached, hlast, -⟩ := attach_joins hc hcalm
  · rw [hrun]
    exact hR.refl d
  · have hfirst : NobodyTold d (d.accepted s (.acquire .read) m) := .untoldStep (.visit (.acquire hacquire))
    have hsubscribed : NobodyTold (d.accepted s (.acquire .read) m) _ :=
      .untoldStep (.offDocument (.subscribe hsubscribe))
    have hjoined : Orderly Rounds (d.accepted s (.acquire .read) m) e := by
      refine ⟨TokensLast.path.trans hsubscribed.tokensLast hreached.1, fun hd => ?_⟩
      have hdocument : m.document = d.model.document := by
        obtain ⟨-, -, rfl⟩ := Model.acquire_ok hacquire
        rfl
      rw [← hdocument] at hreached
      exact (hreached.2 (hsubscribed.detachedEnded hd)).imp_right (.joined hsubscribe)
    exact hR.trans hfirst.orderly (hR.trans hjoined hlast.orderly)

end

/-- While shares are handed out a share can be had to end a subscription. -/
theorem withShare_removes (token : Token) {d : Desk σ} (havailable : d.model.available = true) :
    ∃ removed e, withShare .read (fun s => unsubscribe s token) h d = (.returned (.ok removed), e) ∧
      e.relays = d.relays ∧ e.model.nextToken = d.model.nextToken ∧
      e.model.subscriptions = d.model.subscriptions.filter (·.token != token) ∧
      e.history.toList = d.history.toList ++ .call d.model.nextShare (.acquire .read) ::
        ((if d.model.subscriptions.any (·.token == token) then [.call d.model.nextShare .unsubscribe] else []) ++
          [.call d.model.nextShare (.release .read)]) := by
  have hacquire := Model.acquire_of_available havailable .read
  have hlive := Model.accessOf?_acquire hacquire
  have hrelease {e : Desk σ} (he : e.model.accessOf? d.model.nextShare = some .read) :=
    release_run (h := h) (s := ⟨d.model.nextShare, .read⟩) (Model.release?_of_live he)
  cases hlisted : d.model.subscriptions.any (·.token == token) with
  | true =>
    have hunsubscribe := Model.unsubscribe_of_live hlive hlisted
    rw [withShare_run hacquire (unsubscribe_run hunsubscribe), hrelease hlive]
    exact ⟨true, _, rfl, rfl, rfl, rfl, by simp⟩
  | false =>
    have hnothing := @Model.unsubscribe_absent _ _ _ token hlive hlisted
    rw [withShare_run hacquire (unsubscribe_absent hnothing), hrelease hlive]
    exact ⟨false, _, rfl, rfl, rfl, (Subscription.filter_of_absent hlisted).symm, by simp⟩

/-- Detaching a relay that is attached takes its token from it. Its subscription is ended while shares are handed
out. -/
theorem detach_attached {id : RelayId} {token : Token} {d : Desk σ}
    (htoken : (d.relay id).subscription = some token) :
    ∃ e, detach id h d = (.returned (), e) ∧ Detached id token d.model.available d e := by
  simp only [detach, look_bind, htoken, did_bind, change_bind]
  cases havailable : d.model.available with
  | true =>
    obtain ⟨removed, e, hrun, hrelays, htokens, hsubscriptions, hdeeds⟩ := withShare_removes (h := h) token
      (d := (d.enter (.detaching id token true)).withSubscription id none) havailable
    have hdetached : Detached id token true d e := by
      refine ⟨htoken, hrelays, htokens, hsubscriptions, _, ?_, rfl⟩
      rw [hdeeds]
      change (d.enter _).history.toList ++ _ = _
      rw [toList_enter, List.append_assoc]
      rfl
    rw [bind_run hrun]
    cases removed with
    | true => exact ⟨e, rfl, hdetached⟩
    | false =>
      exact ⟨_, note_run .nothingToUnsubscribe e, htoken, hdetached.relays, hdetached.tokens,
        hdetached.subscriptions, hdetached.deeds⟩
  | false =>
    have hrefused : ((d.enter (.detaching id token false)).withSubscription id none).model.acquire .read =
        .error .unavailable := by
      change d.model.acquire .read = _
      simp [Model.acquire, havailable]
    rw [bind_run (withShare_refused hrefused)]
    exact ⟨_, note_run (.unsubscribeFailed .unavailable) _, htoken, rfl, rfl, rfl, [],
      toList_enter .., rfl⟩

/-- Detaching a relay that is not attached does nothing. -/
theorem detach_detached {id : RelayId} {d : Desk σ} (hnone : (d.relay id).subscription = none) :
    detach id h d = (.returned (), d) := by
  simp only [detach, look_bind, hnone, pure_run]

/-- Detaching a relay tells nobody anything. -/
theorem detach_nobodyTold (id : RelayId) : Within NobodyTold h (detach id) := by
  intro d
  cases hrelay : (d.relay id).subscription with
  | none =>
    rw [detach_detached hrelay]
    exact .refl d
  | some token =>
    obtain ⟨e, hrun, hdetached⟩ := detach_attached (h := h) hrelay
    rw [hrun]
    exact .detached hdetached

/-- Disposing of an editor that does not follow the model has to do with the editor alone. -/
theorem disposeEditor_detached {id : EditorId} {d : Desk σ} (hfollowing : d.isFollowing id = false) :
    ∃ e, disposeEditor id h d = (.returned (), e) ∧ OffModel d e := by
  cases hrelay : (d.editor id).relay with
  | none =>
    refine ⟨d, ?_, rfl, rfl, rfl⟩
    simp only [disposeEditor, look_bind, hrelay, pure_run]
  | some relay =>
    have hnone : ((d.withEditor id fun e => { e with relay := none }).relay relay).subscription = none := by
      simp only [isFollowing, hrelay, Option.isSome_eq_false_iff, Option.isNone_iff_eq_none] at hfollowing
      exact hfollowing
    refine ⟨d.withEditor id fun e => { e with relay := none }, ?_, rfl, rfl, rfl⟩
    simp only [disposeEditor, look_bind, hrelay, change_bind, detach_detached hnone]

/-- So does dropping it. -/
theorem letGo_detached {id : EditorId} {d : Desk σ} (hfollowing : d.isFollowing id = false) :
    ∃ e, letGo (.editor id) h d = (.returned (), e) ∧ OffModel d e := by
  by_cases hheld : (d.held.erase (.editor id)).contains (.editor id) = true
  · refine ⟨{ d with held := d.held.erase (.editor id) }, ?_, rfl, rfl, rfl⟩
    simp only [letGo, unhold, change_bind, look_bind, hheld, Bool.not_true, Bool.false_eq_true, if_false, pure_run]
  · let d' : Desk σ := { d with held := (d.held.erase (.editor id)).erase (.tabs (d.editor id).tabs) }
    have hfollowing' : d'.isFollowing id = false := hfollowing
    obtain ⟨e, hrun, hoffModel⟩ := disposeEditor_detached (h := h) hfollowing'
    refine ⟨e, ?_, hoffModel.model, hoffModel.relays, hoffModel.history⟩
    rw [Bool.not_eq_true] at hheld
    simp only [letGo, unhold, change_bind, look_bind, hheld, Bool.not_false, if_true]
    exact hrun

end Act

namespace Desk

/-- The contract that everything comes in rounds, unless a client interrupts. -/
def rounding (σ : Type) : Contract σ := (Calmly.path (Orderly.path (σ := σ))).contract

end Desk

namespace Act

open Desk

variable {h : Host σ}

theorem DeskPart.rounds (hc : ∀ c, Within (Calmly (Orderly Rounds)) h fun _ => h.answer c) {a : Act σ α}
    (ha : DeskPart Public a) : Keeps (rounding σ) h a := by
  have hs : ∀ d e : Desk σ, UntoldStep d e → (rounding σ).ended d e := fun _ _ huntold =>
    (NobodyTold.untoldStep huntold).calmly
  have hemit (event : Event) : Keeps (rounding σ) h (emit event) := keeps_contract.2 (emit_rounds hc event)
  cases ha with
  | hand ha => exact ha.untoldStep hs hemit fun _ _ _ _ hleft => (NobodyTold.left hleft).calmly
  | look f => exact .look f
  | note n => exact fun _ => hs _ _ (.client _ _)
  | arrange hf =>
    exact .change fun d => (NobodyTold.arranged (hf d).model (hf d).history
      (.of_same (hf d).relays (hf d).model)).calmly
  | attach o => exact keeps_contract.2 (attach_rounds hc o)
  | detach id => exact keeps_contract.2 fun d => (detach_nobodyTold id d).calmly
  | @ask c hasks =>
    exact keeps_contract.2 fun d => (call_told hc c d).imp fun _ htold =>
      ⟨htold.1, fun hd => (htold.2 hd).imp_right (.asked hasks)⟩

end Act

namespace Host.Callers

variable {n : Nat} {h : Host σ}

theorem rounding_trusts (h : Host σ) (hc : ∀ c, Act.Keeps (Desk.rounding σ) h fun _ => h.answer c) :
    Act.Trusts n (Act.DeskPart Act.Public) (Desk.rounding σ) h := by
  have hwithin (c : Callback) := Act.keeps_contract.1 (hc c)
  exact .untoldSteps (fun _ _ hunjoined => (Desk.NobodyTold.untoldStep hunjoined.untoldStep).calmly)
    (fun event => Act.keeps_contract.2 (Act.emit_rounds hwithin event)) n fun hop => hop.rounds hwithin

/-- The clients that are called do what they do in rounds. -/
theorem answers_rounds (hh : h.Callers n (Act.DeskOp Act.Public)) (c : Callback) :
    Act.Within (Desk.Calmly (Desk.Orderly Desk.Rounds)) h fun _ => h.answer c :=
  Act.keeps_contract.1 ((hh.mono Act.DeskOp.deskParts).answers rounding_trusts c)

/-- Whatever is done at a desk comes in rounds. -/
theorem rounds (hh : h.Callers n (Act.DeskOp Act.Public)) {a : Act σ α}
    (ha : Act.Caller n (Act.DeskOp Act.Public) a) : a.Within (Desk.Calmly (Desk.Orderly Desk.Rounds)) h :=
  Act.keeps_contract.1 ((hh.mono Act.DeskOp.deskParts).keeps rounding_trusts (ha.mono Act.DeskOp.deskParts))

/-- **Everything comes in rounds.** Unless a client interrupts, every event is served to the subscriptions that
there are when it goes out, whatever clients do when they are told, and to none whose relay was detached while
shares were handed out; attaching shows the observer the document there is, once, and tells nobody else
anything. Detaching always ends, and while shares are handed out it ends the subscription; to do it again, or to
dispose of the editor after it, has nothing to do with the model. -/
theorem events_delivered (hh : h.Callers n (Act.DeskOp Act.Public)) :
    (∀ {α : Type} {a : Act σ α} {d : Desk σ}, Act.Caller n (Act.DeskOp Act.Public) a → d.DetachedEnded →
      d.Calm (a h d).2 → (a h d).2.DetachedEnded ∧ Desk.Rounds d (a h d).2) ∧
    (∀ (event : Event) {d : Desk σ}, d.DetachedEnded → d.Calm (Act.emit event h d).2 →
      Desk.Served h event d.model.subscriptions (d.enter (.emitted event)) (Act.emit event h d).2) ∧
    (∀ (o : Observer) {d : Desk σ}, d.DetachedEnded → d.Calm (Act.attach o h d).2 →
      (d.model.available = false ∧ (Act.attach o h d).2 = d) ∨
      ∃ e f id, Desk.NobodyTold d e ∧ Desk.Reached h (.changed d.model.document) (.relay o) e f ∧
        Desk.NobodyTold f (Act.attach o h d).2 ∧ (Act.attach o h d).1 = .returned (.ok id)) ∧
    (∀ {id : RelayId} {token : Token} {d : Desk σ}, (d.relay id).subscription = some token →
      ∃ e, Act.detach id h d = (.returned (), e) ∧ Desk.Detached id token d.model.available d e) ∧
    ∀ {id : RelayId} {token : Token} {available : Bool} {d : Desk σ}, d.DetachedEnded →
      .detaching id token available ∈ d.history.toList →
      Act.detach id h d = (.returned (), d) ∧
      ∀ i, (d.editor i).relay = some id ∨ (d.editor i).relay = none →
        (∃ e, Act.disposeEditor i h d = (.returned (), e) ∧ Desk.OffModel d e) ∧
        ∃ e, Act.letGo (.editor i) h d = (.returned (), e) ∧ Desk.OffModel d e := by
  have hc := hh.answers_rounds
  refine ⟨fun ha hd hcalm => ((hh.rounds ha _).2 hcalm).2 hd, fun event d hd hcalm => ?_, fun o d hd hcalm => ?_,
    fun htoken => Act.detach_attached htoken, fun {id _ _ d} hd hdeed => ?_⟩
  · have hserved := Act.emit_served hc event d
    exact ((hserved.2 (hcalm.split (d.grows_enter _) hserved.1).2).2 (hd.entered nofun)).2
  · obtain ⟨havailable, e, hrun⟩ | ⟨s, m, token, m', e, id, hacquire, hsubscribe, hreached, hlast, hanswer⟩ :=
      Act.attach_joins hc hcalm
    · exact .inl ⟨havailable, by rw [hrun]⟩
    · have hfirst : Desk.NobodyTold d (d.accepted s (.acquire .read) m) := .untoldStep (.visit (.acquire hacquire))
      have hsubscribed : Desk.NobodyTold (d.accepted s (.acquire .read) m) _ :=
        .untoldStep (.offDocument (.subscribe hsubscribe))
      have hrelays := hsubscribed.detachedEnded (hfirst.detachedEnded hd)
      exact .inr ⟨_, e, id, hfirst.trans hsubscribed, (hreached.2 hrelays).2, hlast, hanswer⟩
  · have hnone := (hd.detached _ _ _ hdeed).2
    refine ⟨Act.detach_detached hnone, fun i hi => ?_⟩
    have hfollowing : d.isFollowing i = false := by
      rcases hi with hrelay | hrelay <;> simp [Desk.isFollowing, hrelay, hnone]
    exact ⟨Act.disposeEditor_detached hfollowing, Act.letGo_detached hfollowing⟩

/-- A listener that detaches another one's relay when it hears of a change: the view, to which the event was on its
way, is shown this change and none after it. -/
theorem events_delivered_detaching :
    let append (text : String) (s : Scope) : Act Unit (Except ModelError Unit) :=
      Act.mutateIn s fun document => pure ((), document ++ text)
    let h : Host Unit := .interfering (Act.detach 1)
    let a : Act Unit Unit := do
      let id ← Act.makeEditor "ed" none {} 0
      let _ ← Act.openEditor id [0] 1
      let _ ← Act.attach (.view 0)
      let _ ← Act.edit 0 (append "1")
      let _ ← Act.edit 0 (append "2")
    let d : Desk Unit :=
      { model := { document := some "d", nextToken := 2, subscriptions := [⟨1, .client 0⟩] }
        pages := [⟨"p1", "p1", false⟩, ⟨"p2", "p2", false⟩]
        memories := [{}]
        held := [.view 0]
        client := () }
    h.Callers 1 (Act.DeskOp Act.Public) ∧ Act.Caller 1 (Act.DeskOp Act.Public) a ∧
    d.DetachedEnded ∧ d.Calm (a h d).2 ∧
      Desk.Rounds d (a h d).2 ∧ .detaching 1 3 true ∈ (a h d).2.history.toList ∧
      Act.detach 1 h (a h d).2 = (.returned (), (a h d).2) ∧
      ((a h d).2.history.toList.filter fun deed => match deed with
        | .told (.view 0 (.changed _)) _ | .told (.pageChanged 0 _) _ => true
        | _ => false) =
        [.told (.pageChanged 0 (some "d")) (some "d"), .told (.view 0 (.changed (some "d"))) (some "d"),
          .told (.pageChanged 0 (some "d1")) (some "d1"), .told (.view 0 (.changed (some "d1"))) (some "d1"),
          .told (.pageChanged 0 (some "d12")) (some "d12")] := by
  intro append h a d
  have happend (text : String) (s : Scope) : Act.Caller 1 (Act.DeskOp Act.Public) (append text s) :=
    .mutateIn (fun ha => .hand (.offBooks ha)) s fun _ => .pure _
  have hh : h.Callers 1 (Act.DeskOp Act.Public) := .interfering (.op (.detach 1))
  have ha : Act.Caller 1 (Act.DeskOp Act.Public) a :=
    .bind (.op (.makeEditor ..)) fun id => .bind (.op (.openEditor id ..)) fun _ => .bind (.op (.attach _)) fun _ =>
      .bind (.edit (by decide) (happend "1" _)) fun _ => .bind (.edit (by decide) (happend "2" _)) fun _ => .pure _
  have hd : d.DetachedEnded := ⟨fun id token htoken => by simp [d, Desk.relay] at htoken, by simp [d], by simp [d]⟩
  have hcalm : d.Calm (a h d).2 :=
    ⟨(a h d).2.history.toList, (List.nil_append _).symm, Deed.not_threw (by decide +kernel)⟩
  have hdetached : .detaching 1 3 true ∈ (a h d).2.history.toList := by decide +kernel
  obtain ⟨hrounds, -, -, -, hdone⟩ := hh.events_delivered
  obtain ⟨hrelays, hround⟩ := hrounds ha hd hcalm
  exact ⟨hh, ha, hd, hcalm, hround, hdetached, (hdone hrelays hdetached).1, by decide +kernel⟩

end Host.Callers

end FormDesk
