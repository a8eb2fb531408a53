/-
Links between relays and the model. A relay keeps the token under which its
observer is subscribed, and the model lists the subscription. The two go
together: a relay that is attached is listed, under a token of its own, and one
that was detached is not, if shares were handed out when it was detached. While
none were, the relay lets go of its token all the same: its subscription stays,
and nobody can end it any more (`subscription_forgotten`).

`Linked` says so of a desk, by way of what happened on it. It holds whatever
callers do that leave the subscriptions of relays alone (`LeavesRelays`), also
where they interrupt each other. What has to be kept on the way is a
subscription that is not yet some relay's: the observer is told of the document
in between, and may do anything (`Pending`).
-/
import FormDesk.Proofs.Rounds

namespace FormDesk

variable {σ α : Type}

/-- The relay that is being detached, its token, and whether shares are handed out. -/
def Deed.detaching? : Deed → Option (RelayId × Token × Bool)
  | detaching id token available => some (id, token, available)
  | _ => none

theorem Deed.detaching?_of_unheard {x : Deed} (h : x.unheard = true) : x.detaching? = none := by
  cases x <;> first | rfl | cases h

/-- Whether the subscription is a relay's. -/
def Subscription.relayed (s : Subscription) : Bool :=
  match s.listener with
  | .relay _ => true
  | .client _ => false

namespace Desk

/-- The relays that were detached, with their tokens, one after another. -/
def detachings (d : Desk σ) : List (RelayId × Token × Bool) := d.history.toList.filterMap Deed.detaching?

/-- The model lists a relay's subscription under the token. -/
def Listed (d : Desk σ) (token : Token) : Prop :=
  ∃ s ∈ d.model.subscriptions, s.token = token ∧ s.relayed = true

/-- The token is one of a relay's subscription that was never to end. -/
structure Current (d : Desk σ) (token : Token) : Prop where
  issued : token < d.model.nextToken
  listed : d.Listed token
  kept : ∀ x ∈ d.detachings, x.2.1 ≠ token

/-- No relay has this token yet. -/
structure Pending (d : Desk σ) (token : Token) : Prop extends Current d token where
  free : ∀ id, (d.relay id).subscription ≠ some token

/-- What is left of a relay that was detached. -/
structure Parted (d : Desk σ) (id : RelayId) (token : Token) (available : Bool) : Prop where
  relay : id < d.relays.length
  none : (d.relay id).subscription = none
  issued : token < d.model.nextToken
  removed : available = true → ∀ s ∈ d.model.subscriptions, s.token ≠ token
  forgotten : available = false → d.Listed token

/-- Relays and subscriptions know of each other. -/
structure Linked (d : Desk σ) : Prop where
  attached : ∀ id token, (d.relay id).subscription = some token → d.Current token
  own : ∀ id i token, (d.relay id).subscription = some token → (d.relay i).subscription = some token → i = id
  parted : ∀ x ∈ d.detachings, d.Parted x.1 x.2.1 x.2.2
  once : d.detachings.Pairwise fun x y => x.1 ≠ y.1 ∧ x.2.1 ≠ y.2.1
  complete : ∀ id < d.relays.length, (d.relay id).subscription = none → ∃ x ∈ d.detachings, x.1 = id

/-- Relays and subscriptions go on knowing of each other, and tokens that no relay has yet stay what they are. -/
def Links (d e : Desk σ) : Prop := d.Linked → e.Linked ∧ ∀ token, d.Pending token → e.Pending token

/-- Relays are as they were, and no subscription of theirs ended; new subscriptions have new tokens. -/
structure Steady (d e : Desk σ) : Prop where
  relays : e.relays = d.relays
  detachings : e.detachings = d.detachings
  tokens : d.model.nextToken ≤ e.model.nextToken
  stayed : ∀ s ∈ d.model.subscriptions, s.relayed = true → s ∈ e.model.subscriptions
  subscriptions : ∀ s ∈ e.model.subscriptions, s ∈ d.model.subscriptions ∨ d.model.nextToken ≤ s.token

section

variable {d e f : Desk σ}

theorem Links.path : Path (Links (σ := σ)) where
  refl _ := fun hd => ⟨hd, fun _ => id⟩
  trans := by
    intro d e f h h' hd
    obtain ⟨he, hpending⟩ := h hd
    obtain ⟨hf, hpending'⟩ := h' he
    exact ⟨hf, fun token htoken => hpending' token (hpending token htoken)⟩

theorem mem_detachings {id : RelayId} {token : Token} {available : Bool} :
    (id, token, available) ∈ d.detachings ↔ .detaching id token available ∈ d.history.toList := by
  unfold detachings
  rw [List.mem_filterMap]
  constructor
  · rintro ⟨x, hx, heq⟩
    cases x <;> cases heq
    exact hx
  · exact fun h => ⟨_, h, rfl⟩

theorem Listed.any {token : Token} (h : d.Listed token) : ∃ s ∈ d.model.subscriptions, s.token = token := by
  obtain ⟨s, hs, htoken, -⟩ := h
  exact ⟨s, hs, htoken⟩

/-! ## Steps that leave relays alone -/

theorem Steady.relay_eq (h : Steady d e) (id : RelayId) : e.relay id = d.relay id := by
  rw [relay, h.relays, relay]

theorem Steady.listed {token : Token} (h : Steady d e) (hd : d.Listed token) : e.Listed token := by
  obtain ⟨s, hs, htoken, hrelayed⟩ := hd
  exact ⟨s, h.stayed s hs hrelayed, htoken, hrelayed⟩

theorem Steady.current {token : Token} (h : Steady d e) (hd : d.Current token) : e.Current token :=
  ⟨Nat.lt_of_lt_of_le hd.issued h.tokens, h.listed hd.listed, h.detachings ▸ hd.kept⟩

theorem Steady.parted {id : RelayId} {token : Token} {available : Bool} (h : Steady d e)
    (hd : d.Parted id token available) : e.Parted id token available where
  relay := h.relays ▸ hd.relay
  none := h.relay_eq id ▸ hd.none
  issued := Nat.lt_of_lt_of_le hd.issued h.tokens
  removed havailable s hs := by
    rcases h.subscriptions s hs with hold | hnew
    · exact hd.removed havailable s hold
    · exact Nat.ne_of_gt (Nat.lt_of_lt_of_le hd.issued hnew)
  forgotten havailable := h.listed (hd.forgotten havailable)

theorem Steady.links (h : Steady d e) : Links d e := by
  refine fun hd => ⟨⟨fun id token htoken => ?_, fun id i token htoken hi => ?_, fun x hx => ?_, ?_, fun id hid => ?_⟩,
    fun token hpending => ⟨h.current hpending.toCurrent, fun id => ?_⟩⟩
  · rw [h.relay_eq] at htoken
    exact h.current (hd.attached id token htoken)
  · rw [h.relay_eq] at htoken hi
    exact hd.own id i token htoken hi
  · rw [h.detachings] at hx
    exact h.parted (hd.parted x hx)
  · rw [h.detachings]
    exact hd.once
  · rw [h.relay_eq, h.detachings]
    exact hd.complete id (h.relays ▸ hid)
  · rw [h.relay_eq]
    exact hpending.free id

theorem detachings_append {w : List Deed} (hw : e.history.toList = d.history.toList ++ w)
    (hnone : ∀ x ∈ w, x.detaching? = none) : e.detachings = d.detachings := by
  unfold detachings
  rw [hw, List.filterMap_append, List.filterMap_eq_nil_iff.2 hnone, List.append_nil]

/-- Nothing about subscriptions and relays. -/
theorem Steady.of_same (hr : e.relays = d.relays) (hm : e.model = d.model) (hw : e.detachings = d.detachings) :
    Steady d e :=
  ⟨hr, hw, Nat.le_of_eq (by rw [hm]), fun s hs _ => hm ▸ hs, fun s hs => .inl (hm ▸ hs)⟩

theorem Steady.enter (d : Desk σ) {x : Deed} (hx : x.detaching? = none) : Steady d (d.enter x) :=
  .of_same rfl rfl (detachings_append (d.toList_enter x) (by simpa using hx))

theorem Unheard.steady (h : Unheard d e) : Steady d e := by
  obtain ⟨w, hw, hunheard⟩ := h.deeds
  have hdetachings := detachings_append hw fun x hx => Deed.detaching?_of_unheard (hunheard x hx)
  refine ⟨h.relays, hdetachings, h.tokensLast.tokens, fun s hs _ => ?_, h.tokensLast.subscriptions⟩
  rcases h.subscriptions with ⟨hsame, -⟩ | ⟨listener, happended, -⟩
  · exact hsame ▸ hs
  · rw [happended]
    exact List.mem_append_left _ hs

/-- Sending away somebody else than a relay. -/
theorem unsubscribed_steady {s : Share} {token : Token} {m : Model}
    (hrelayed : ∀ s ∈ d.model.subscriptions, s.token = token → s.relayed = false)
    (h : d.model.unsubscribe s token = .ok (true, m)) : Steady d (d.accepted s .unsubscribe m) := by
  obtain rfl := Model.unsubscribe_ok h
  refine ⟨rfl, ?_, Nat.le_refl _, fun s hs hrelay => List.mem_filter.2 ⟨hs, ?_⟩,
    fun s hs => .inl (List.mem_filter.1 hs).1⟩
  · simp [detachings, Deed.detaching?]
  · refine bne_iff_ne.2 fun heq => ?_
    rw [hrelayed s hs heq] at hrelay
    cases hrelay

/-! ## Attaching -/

/-- The subscription that was just made is pending. -/
theorem Linked.subscribed {s : Share} {o : Observer} {token : Token} {m : Model} (hd : d.Linked)
    (h : d.model.subscribe s (.relay o) = .ok (token, m)) : Pending (d.accepted s .subscribe m) token := by
  obtain ⟨rfl, rfl⟩ := Model.subscribe_ok h
  have hnew : Steady d (d.accepted s .subscribe _) := (UntoldStep.offDocument (.subscribe h)).unheard.steady
  refine ⟨⟨Nat.lt_succ_self _, ⟨⟨d.model.nextToken, .relay o⟩, by simp, rfl, rfl⟩, fun x hx => ?_⟩, fun id heq => ?_⟩
  · rw [hnew.detachings] at hx
    exact Nat.ne_of_lt (hd.parted x hx).issued
  · rw [hnew.relay_eq] at heq
    exact Nat.lt_irrefl _ (hd.attached id _ heq).issued

/-- A pending subscription becomes a relay's. -/
theorem Linked.added {token : Token} (hd : d.Linked) (hpending : d.Pending token) :
    Linked { d with relays := d.relays ++ [⟨some token⟩] } := by
  have hcurrent {t : Token} (h : d.Current t) : Current { d with relays := d.relays ++ [⟨some token⟩] } t :=
    ⟨h.issued, h.listed, h.kept⟩
  have hparted {id : RelayId} {t : Token} {b : Bool} (h : d.Parted id t b) :
      Parted { d with relays := d.relays ++ [⟨some token⟩] } id t b :=
    ⟨by simpa using Nat.lt_succ_of_lt h.relay, by rw [relay_added, if_neg (Nat.ne_of_lt h.relay), h.none],
      h.issued, h.removed, h.forgotten⟩
  refine ⟨fun id t htoken => ?_, fun id i t htoken hi => ?_, fun x hx => hparted (hd.parted x hx), hd.once,
    fun id hid hnone => ?_⟩
  · rw [relay_added] at htoken
    by_cases hlast : id = d.relays.length
    · rw [if_pos hlast] at htoken
      cases htoken
      exact hcurrent hpending.toCurrent
    · rw [if_neg hlast] at htoken
      exact hcurrent (hd.attached id t htoken)
  · rw [relay_added] at htoken hi
    -- The token was pending, so only the new relay has it.
    by_cases hlast : id = d.relays.length <;> by_cases hlast' : i = d.relays.length
    · rw [hlast, hlast']
    · rw [if_pos hlast] at htoken
      rw [if_neg hlast'] at hi
      cases htoken
      exact absurd hi (hpending.free i)
    · rw [if_neg hlast] at htoken
      rw [if_pos hlast'] at hi
      cases hi
      exact absurd htoken (hpending.free id)
    · rw [if_neg hlast] at htoken
      rw [if_neg hlast'] at hi
      exact hd.own id i t htoken hi
  · rw [relay_added] at hnone
    by_cases hlast : id = d.relays.length
    · rw [if_pos hlast] at hnone
      cases hnone
    · rw [if_neg hlast] at hnone
      rw [List.length_append, List.length_singleton] at hid
      exact hd.complete id (Nat.lt_of_le_of_ne (Nat.le_of_lt_succ hid) hlast) hnone

/-- The other pending subscriptions stay pending. -/
theorem Pending.added {token other : Token} (h : d.Pending other) (hne : other ≠ token) :
    Pending { d with relays := d.relays ++ [⟨some token⟩] } other := by
  refine ⟨⟨h.issued, h.listed, h.kept⟩, fun id htoken => ?_⟩
  rw [relay_added] at htoken
  by_cases hlast : id = d.relays.length
  · rw [if_pos hlast] at htoken
    exact hne (Option.some.inj htoken).symm
  · rw [if_neg hlast] at htoken
    exact h.free id htoken

/-! ## Detaching -/

section

variable {id : RelayId} {token : Token} {available : Bool} (h : Detached id token available d e)

include h

theorem Detached.detachings_eq : e.detachings = d.detachings ++ [(id, token, available)] := by
  obtain ⟨w, hw, rfl⟩ := h.deeds
  rw [detachings, hw, List.filterMap_append, List.filterMap_cons]
  simp only [Deed.detaching?, detachings]
  cases available <;> cases d.model.subscriptions.any (·.token == token) <;> rfl

/-- No other subscription ends. -/
theorem Detached.listed {t : Token} (hne : t ≠ token) (hd : d.Listed t) : e.Listed t := by
  obtain ⟨s, hs, rfl, hrelayed⟩ := hd
  refine ⟨s, ?_, rfl, hrelayed⟩
  rw [h.subscriptions]
  cases available with
  | false => exact hs
  | true => exact List.mem_filter.2 ⟨hs, bne_iff_ne.2 hne⟩

theorem Detached.current {t : Token} (hne : t ≠ token) (hd : d.Current t) : e.Current t := by
  refine ⟨h.tokens ▸ hd.issued, h.listed hne hd.listed, fun x hx => ?_⟩
  rw [h.detachings_eq, List.mem_append, List.mem_singleton] at hx
  rcases hx with hx | rfl
  · exact hd.kept x hx
  · exact hne.symm

/-- The relay that was detached has no token any more. -/
theorem Detached.parts (hd : d.Linked) : e.Parted id token available := by
  have hcurrent := hd.attached id token h.relay
  refine ⟨?_, ?_, h.tokens ▸ hcurrent.issued, fun havailable s hs => (h.mem_subscriptions hs).2 havailable, ?_⟩
  · rw [h.length_eq]
    exact h.within
  · rw [h.relay_eq, if_pos rfl]
  · rintro rfl
    have hsame : e.model.subscriptions = d.model.subscriptions := h.subscriptions
    rw [Listed, hsame]
    exact hcurrent.listed

/-- Those that were detached before are what they were. -/
theorem Detached.parted {i : RelayId} {t : Token} {b : Bool} (hne : t ≠ token) (hd : d.Parted i t b) :
    e.Parted i t b := by
  refine ⟨h.length_eq ▸ hd.relay, ?_, h.tokens ▸ hd.issued,
    fun hb s hs => hd.removed hb s (h.mem_subscriptions hs).1, fun hb => h.listed hne (hd.forgotten hb)⟩
  rw [h.relay_eq, hd.none, ite_self]

theorem Detached.links : Links d e := by
  intro hd
  have hcurrent := hd.attached id token h.relay
  refine ⟨⟨fun i t htoken => ?_, fun i j t hi hj => ?_, fun x hx => ?_, ?_, fun i hi hnone => ?_⟩,
    fun t hpending => ?_⟩
  · rw [h.relay_eq] at htoken
    by_cases hi : id = i
    · simp [hi] at htoken
    · rw [if_neg hi] at htoken
      exact h.current (fun heq => hi (hd.own i id t htoken (heq ▸ h.relay))) (hd.attached i t htoken)
  · rw [h.relay_eq] at hi hj
    split at hi
    · cases hi
    · split at hj
      · cases hj
      · exact hd.own i j t hi hj
  · rw [h.detachings_eq, List.mem_append, List.mem_singleton] at hx
    rcases hx with hx | rfl
    · exact h.parted (hcurrent.kept x hx) (hd.parted x hx)
    · exact h.parts hd
  · rw [h.detachings_eq, List.pairwise_append]
    -- A relay that was detached before has no token, so this one never was.
    refine ⟨hd.once, List.pairwise_singleton _ _, fun x hx y hy => ?_⟩
    obtain rfl := List.mem_singleton.1 hy
    refine ⟨fun heq => ?_, hcurrent.kept x hx⟩
    have hnone := (hd.parted x hx).none
    rw [heq, h.relay] at hnone
    cases hnone
  · rw [h.detachings_eq]
    by_cases heq : id = i
    · exact ⟨_, List.mem_append_right _ (List.mem_singleton.2 rfl), heq⟩
    · rw [h.relay_eq, if_neg heq] at hnone
      obtain ⟨x, hx, hxi⟩ := hd.complete i (h.length_eq ▸ hi) hnone
      exact ⟨x, List.mem_append_left _ hx, hxi⟩
  · have hne : t ≠ token := fun heq => hpending.free id (heq ▸ h.relay)
    refine ⟨h.current hne hpending.toCurrent, fun i htoken => ?_⟩
    rw [h.relay_eq] at htoken
    split at htoken
    · cases htoken
    · exact hpending.free i htoken

end

end

/-! ## What is linked -/

/-- The relay has this token, or it had it when it was detached. -/
def Bound (d : Desk σ) (id : RelayId) (token : Token) : Prop :=
  (d.relay id).subscription = some token ∨ ∃ available, .detaching id token available ∈ d.history.toList

/-- Without relays there is nothing to know. -/
theorem Linked.of_none {d : Desk σ} (hr : d.relays = []) (hw : d.detachings = []) : d.Linked := by
  have hnone (id : RelayId) : (d.relay id).subscription = none := by simp [relay, hr]
  refine ⟨fun id token htoken => ?_, fun id i token htoken => ?_, by simp [hw], by simp [hw], fun id hid => ?_⟩
  · rw [hnone] at htoken
    cases htoken
  · rw [hnone] at htoken
    cases htoken
  · rw [hr] at hid
    exact absurd hid (Nat.not_lt_zero id)

section

variable {d : Desk σ} (hd : d.Linked)

include hd

theorem Linked.detachedEnded : d.DetachedEnded where
  issued id token htoken := (hd.attached id token htoken).issued
  detached _ _ _ hdeed := ⟨(hd.parted _ (mem_detachings.2 hdeed)).relay, (hd.parted _ (mem_detachings.2 hdeed)).none⟩
  removed _ _ hdeed := ⟨(hd.parted _ (mem_detachings.2 hdeed)).issued,
    (hd.parted _ (mem_detachings.2 hdeed)).removed rfl⟩

/-- A relay is detached once, and so is a token. -/
theorem Linked.detached_once {id : RelayId} {token : Token} {available : Bool}
    (hdeed : .detaching id token available ∈ d.history.toList) :
    ∃ before after, d.history.toList = before ++ .detaching id token available :: after ∧
      ∀ i t b, .detaching i t b ∈ before ++ after → i ≠ id ∧ t ≠ token := by
  obtain ⟨before, after, hsplit⟩ := List.append_of_mem hdeed
  have honce := hd.once
  rw [detachings, hsplit, List.filterMap_append, List.filterMap_cons] at honce
  obtain ⟨-, hlater, hacross⟩ := List.pairwise_append.1 honce
  have hmem {i t b} {l : List Deed} (h : .detaching i t b ∈ l) : (i, t, b) ∈ l.filterMap Deed.detaching? :=
    List.mem_filterMap.2 ⟨_, h, rfl⟩
  refine ⟨before, after, hsplit, fun i t b h => ?_⟩
  rcases List.mem_append.1 h with h | h
  · exact hacross _ (hmem h) _ (List.mem_cons_self ..)
  · obtain ⟨hid, htoken⟩ := (List.pairwise_cons.1 hlater).1 _ (hmem h)
    exact ⟨hid.symm, htoken.symm⟩

/-- Those that were detached as the same relay or with the same token are the same. -/
theorem Linked.detached_same {id i : RelayId} {token t : Token} {available b : Bool}
    (hdeed : .detaching id token available ∈ d.history.toList) (hdeed' : .detaching i t b ∈ d.history.toList)
    (hsame : i = id ∨ t = token) : i = id ∧ t = token ∧ b = available := by
  obtain ⟨before, after, hsplit, hothers⟩ := hd.detached_once hdeed
  rw [hsplit, List.mem_append, List.mem_cons] at hdeed'
  have hnot (hmem : .detaching i t b ∈ before ++ after) : False := by
    obtain ⟨hid, htoken⟩ := hothers i t b hmem
    exact hsame.elim hid htoken
  rcases hdeed' with hbefore | heq | hafter
  · exact (hnot (List.mem_append_left _ hbefore)).elim
  · cases heq
    exact ⟨rfl, rfl, rfl⟩
  · exact (hnot (List.mem_append_right _ hafter)).elim

/-- Every relay has, or had, a token of its own. -/
theorem Linked.bound {id : RelayId} (hid : id < d.relays.length) :
    ∃ token, d.Bound id token ∧ ∀ i t, d.Bound i t → (i = id ↔ t = token) := by
  cases hrelay : (d.relay id).subscription with
  | some token =>
    refine ⟨token, .inl hrelay, fun i t hbound => ⟨?_, ?_⟩⟩
    · rintro rfl
      rcases hbound with htoken | ⟨b, hdeed⟩
      · exact Option.some.inj (htoken.symm.trans hrelay)
      · rw [(hd.parted _ (mem_detachings.2 hdeed)).none] at hrelay
        cases hrelay
    · rintro rfl
      rcases hbound with htoken | ⟨b, hdeed⟩
      · exact hd.own id i t hrelay htoken
      · exact absurd rfl ((hd.attached id t hrelay).kept _ (mem_detachings.2 hdeed))
  | none =>
    obtain ⟨⟨_, token, available⟩, hx, rfl⟩ := hd.complete id hid hrelay
    have hdeed := mem_detachings.1 hx
    refine ⟨token, .inr ⟨available, hdeed⟩, fun i t hbound => ⟨?_, ?_⟩⟩
    · rintro rfl
      rcases hbound with htoken | ⟨b, hdeed'⟩
      · rw [hrelay] at htoken
        cases htoken
      · exact (hd.detached_same hdeed hdeed' (.inl rfl)).2.1
    · rintro rfl
      rcases hbound with htoken | ⟨b, hdeed'⟩
      · exact absurd rfl ((hd.attached i t htoken).kept _ hx)
      · exact (hd.detached_same hdeed hdeed' (.inr rfl)).1

/-- A token is listed while its relay is attached, and after that only if its relay was detached while no shares
were handed out. -/
theorem Linked.listed_iff {id : RelayId} {token : Token} (hbound : d.Bound id token) :
    (∃ s ∈ d.model.subscriptions, s.token = token) ↔
      (d.relay id).subscription = some token ∨ .detaching id token false ∈ d.history.toList := by
  constructor
  · rintro ⟨s, hs, htoken⟩
    rcases hbound with hattached | ⟨available, hdeed⟩
    · exact .inl hattached
    · cases available with
      | false => exact .inr hdeed
      | true => exact absurd htoken ((hd.parted _ (mem_detachings.2 hdeed)).removed rfl s hs)
  · rintro (hattached | hdeed)
    · exact (hd.attached id token hattached).listed.any
    · exact ((hd.parted _ (mem_detachings.2 hdeed)).forgotten rfl).any

/-- A relay that is detached while shares are handed out has its subscription ended by one call. -/
theorem Linked.detach_ends {h : Host σ} {id : RelayId} {token : Token} (havailable : d.model.available = true)
    (hattached : (d.relay id).subscription = some token) :
    ∃ e, Act.detach id h d = (.returned (), e) ∧
      e.model.subscriptions = d.model.subscriptions.filter (·.token != token) ∧
      e.history.toList = d.history.toList ++ [.detaching id token true, .call d.model.nextShare (.acquire .read),
        .call d.model.nextShare .unsubscribe, .call d.model.nextShare (.release .read)] := by
  obtain ⟨e, hrun, hdetached⟩ := Act.detach_attached (h := h) hattached
  rw [havailable] at hdetached
  obtain ⟨w, hw, rfl⟩ := hdetached.deeds
  have hlisted : d.model.subscriptions.any (·.token == token) = true := by
    obtain ⟨s, hs, htoken⟩ := (hd.attached id token hattached).listed.any
    exact List.any_eq_true.2 ⟨s, hs, by simpa using htoken⟩
  refine ⟨e, hrun, hdetached.subscriptions, ?_⟩
  rw [hw, hlisted]
  rfl

end

end Desk

namespace Act

open Desk (Links Linked Steady Path)

/-- Sends a listener away, unless it is a relay. -/
def unsubscribeClient (s : Share) (token : Token) : Act σ Bool := do
  if ← look fun d => d.model.subscriptions.any fun s => s.token == token && s.relayed then return false
  else unsubscribe s token

/-- All that is done with a model by hand, with the subscriptions of relays left alone. -/
inductive LeavesRelays : Actions σ
  | noUnsubscribe {β} {a : Act σ β} : NoUnsubscribe a → LeavesRelays a
  | unsubscribe (s : Share) (token : Token) : LeavesRelays (unsubscribeClient s token)

theorem NoUnsubscribe.public {a : Act σ α} (ha : NoUnsubscribe a) : Public a := by
  cases ha with
  | offDocument ha => exact .offBooks ha.offBooks
  | undo => exact .offBooks .undo
  | rebuild document => exact .offBooks (.rebuild document)
  | recordingOp ha => exact .recordingOp ha
  | acquire access => exact .shareOp (.acquire access)
  | release s => exact .shareOp (.release s)
  | openBracket s => exact .shareOp (.openBracket s)
  | closeBracket s => exact .shareOp (.closeBracket s)

theorem LeavesRelays.public {n : Nat} {a : Act σ α} (ha : LeavesRelays a) : Caller n Public a := by
  cases ha with
  | noUnsubscribe ha => exact .op ha.public
  | unsubscribe s token =>
    refine .bind (.op (.offBooks (.look _))) fun relayed => ?_
    cases relayed with
    | true => exact .pure false
    | false => exact .op (.offBooks (.unsubscribe s token))

theorem DeskOp.mono {n : Nat} {Hand Hand' : Actions σ} (hhand : ∀ {α} {a : Act σ α}, Hand a → Caller n Hand' a)
    {a : Act σ α} (ha : DeskOp Hand a) : Caller n (DeskOp Hand') a := by
  cases ha with
  | hand ha => exact (hhand ha).mono fun ha => .op (.hand ha)
  | arrange hf => exact .op (.arrange hf)
  | attach o => exact .op (.attach o)
  | detach id => exact .op (.detach id)
  | letGo r => exact .op (.letGo r)
  | makeEditor name project settings memory => exact .op (.makeEditor name project settings memory)
  | openEditor id forms text => exact .op (.openEditor id forms text)
  | dropPages id => exact .op (.dropPages id)
  | disposeEditor id => exact .op (.disposeEditor id)
  | addForm id page => exact .op (.addForm id page)
  | addText id title page => exact .op (.addText id title page)
  | activate id index => exact .op (.activate id index)
  | showIndex id index => exact .op (.showIndex id index)
  | showPage id page => exact .op (.showPage id page)
  | showInitial id page => exact .op (.showInitial id page)
  | commitForms id onSave => exact .op (.commitForms id onSave)
  | reveal id start stop => exact .op (.reveal id start stop)

section

variable {h : Host σ} (hc : ∀ c, Within Links h fun _ => h.answer c)

include hc

theorem call_links (c : Callback) : Within Links h (call c) :=
  call_within Desk.Links.path (fun d _ => (Steady.enter d rfl).links) (fun d _ => (Steady.enter d rfl).links) hc c

theorem deliver_links (event : Event) (l : Listener) : Within Links h (deliver event l) :=
  deliver_within Desk.Links.path (call_links hc) (fun d l =>
    (Steady.of_same (d := d) (e := { d with held := l }) rfl rfl rfl).links) event l

theorem emit_links (event : Event) : Within Links h (emit event) :=
  fun d => emit_within Desk.Links.path (deliver_links hc) (Steady.enter d rfl).links

/-- A relay that was attached is linked: its subscription waited for it. -/
theorem attach_links (o : Observer) : Within Links h (attach o) := by
  intro d
  have hback (s : Share) (e : Desk σ) : Links e (release s h e).2 :=
    release_within Desk.Links.path (fun _ _ hvisit => (Desk.UntoldStep.visit hvisit).unheard.steady.links) s e
  cases hacquire : d.model.acquire .read with
  | error e =>
    rw [attach_refused hacquire]
    exact Desk.Links.path.refl d
  | ok taken =>
    obtain ⟨s, m⟩ := taken
    have hsubscribe := Model.subscribe_of_live (Model.accessOf?_acquire hacquire) (.relay o)
    have hfirst : Steady d (d.accepted s (.acquire .read) m) :=
      (Desk.UntoldStep.visit (.acquire hacquire)).unheard.steady
    have hjoined : Links d ((d.accepted s (.acquire .read) m).subscribed s o) :=
      Desk.Links.path.trans hfirst.links (Desk.UntoldStep.offDocument (.subscribe hsubscribe)).unheard.steady.links
    generalize hd₁ : (d.accepted s (.acquire .read) m).subscribed s o = d₁ at hjoined
    have hshown := deliver_links hc (.changed (d₁.model.documentFor s)) (.relay o) d₁
    change Links d₁ (notifyPresent o (.changed (d₁.model.documentFor s)) h d₁).2 at hshown
    rcases hnotify : notifyPresent o (.changed (d₁.model.documentFor s)) h d₁ with ⟨outcome, d₂⟩
    rw [hnotify] at hshown
    have hthrough := Desk.Links.path.trans hjoined hshown
    cases outcome with
    | returned _ =>
      rw [attach_run hacquire hd₁ hnotify]
      intro hd
      have hpending : d₁.Pending m.nextToken := hd₁ ▸ (hfirst.links hd).1.subscribed hsubscribe
      obtain ⟨hlinked, hall⟩ := Desk.Links.path.trans hthrough (hback s d₂) hd
      have hwaited := (hback s d₂ (hshown (hjoined hd).1).1).2 _ ((hshown (hjoined hd).1).2 _ hpending)
      refine ⟨hlinked.added hwaited, fun token htoken => (hall token htoken).added ?_⟩
      exact Nat.ne_of_lt (Nat.lt_of_lt_of_le htoken.issued hfirst.tokens)
    | interrupted message =>
      rw [attach_interrupted hacquire hd₁ hnotify]
      exact Desk.Links.path.trans (Desk.Links.path.trans hthrough (Steady.enter d₂ rfl).links) (hback s _)
    | fatal =>
      rw [attach_fatal hacquire hd₁ hnotify]
      exact hthrough

end

/-- A relay that was detached is not linked any more, or forgotten. -/
theorem detach_links {h : Host σ} (id : RelayId) : Within Links h (detach id) := by
  intro d
  cases hrelay : (d.relay id).subscription with
  | none =>
    rw [detach_detached hrelay]
    exact Desk.Links.path.refl d
  | some token =>
    obtain ⟨e, hrun, hdetached⟩ := detach_attached (h := h) hrelay
    rw [hrun]
    exact hdetached.links

end Act

namespace Desk

/-- The contract that relays and subscriptions go on knowing of each other. -/
def linking (σ : Type) : Contract σ := (Links.path (σ := σ)).contract

end Desk

namespace Act

open Desk (linking Steady)

variable {h : Host σ}

theorem DeskPart.links (hc : ∀ c, Within Desk.Links h fun _ => h.answer c) {a : Act σ α}
    (ha : DeskPart LeavesRelays a) : Keeps (linking σ) h a := by
  have hs : ∀ d e : Desk σ, Desk.UntoldStep d e → (linking σ).ended d e := fun _ _ huntold =>
    huntold.unheard.steady.links
  have hemit (event : Event) : Keeps (linking σ) h (emit event) := keeps_contract.2 (emit_links hc event)
  cases ha with
  | hand ha =>
    cases ha with
    | noUnsubscribe ha => exact ha.untoldStep hs hemit
    | unsubscribe s token =>
      intro d
      unfold KeepsFrom
      simp only [unsubscribeClient, look_bind]
      cases hrelayed : d.model.subscriptions.any fun s => s.token == token && s.relayed with
      | true => exact (linking σ).refl d
      | false =>
        refine unsubscribe_keeps (fun n _ => hs _ _ (.client _ _)) fun m hm => ?_
        refine (Desk.unsubscribed_steady (fun s hmem htoken => ?_) hm).links
        simpa [htoken] using List.any_eq_false.1 hrelayed s hmem
  | look f => exact .look f
  | note n => exact fun _ => hs _ _ (.client _ _)
  | arrange hf =>
    refine .change fun d => (Steady.of_same (hf d).relays (hf d).model ?_).links
    rw [Desk.detachings, (hf d).history, Desk.detachings]
  | attach o => exact keeps_contract.2 (attach_links hc o)
  | detach id => exact keeps_contract.2 (detach_links id)
  | ask => exact keeps_contract.2 (call_links hc _)

end Act

namespace Host.Callers

variable {n : Nat} {h : Host σ}

theorem linking_trusts (h : Host σ) (hc : ∀ c, Act.Keeps (Desk.linking σ) h fun _ => h.answer c) :
    Act.Trusts n (Act.DeskPart Act.LeavesRelays) (Desk.linking σ) h := by
  have hwithin (c : Callback) := Act.keeps_contract.1 (hc c)
  exact .untoldSteps (fun _ _ hunjoined => hunjoined.untoldStep.unheard.steady.links)
    (fun event => Act.keeps_contract.2 (Act.emit_links hwithin event)) n fun hop => hop.links hwithin

/-- **A relay is attached exactly when it is subscribed**, but for relays that were detached while no shares
were handed out: their tokens stay listed. Wherever a run ends, or is cut off or interrupted, every relay has or
had a token of its own and is detached at most once; while shares are handed out, that ends its subscription by
one call. And unless a client interrupts, no event that goes out after such a detachment reaches the observer
through the relay. -/
theorem relays_linked (hh : h.Callers n (Act.DeskOp Act.LeavesRelays)) {a : Act σ α}
    (ha : Act.Caller n (Act.DeskOp Act.LeavesRelays) a) {d e : Desk σ} (hd : d.Linked) (hrun : (a h d).2 = e) :
    (∀ id < e.relays.length, ∃ token, e.Bound id token ∧ ∀ i t, e.Bound i t → (i = id ↔ t = token)) ∧
    (∀ id token, e.Bound id token → ((∃ s ∈ e.model.subscriptions, s.token = token) ↔
      (e.relay id).subscription = some token ∨ .detaching id token false ∈ e.history.toList)) ∧
    (∀ id token available, .detaching id token available ∈ e.history.toList →
      ∃ before after, e.history.toList = before ++ .detaching id token available :: after ∧
        ∀ i t b, .detaching i t b ∈ before ++ after → i ≠ id ∧ t ≠ token) ∧
    (∀ id token, (e.relay id).subscription = some token → e.model.available = true →
      ∃ f, Act.detach id h e = (.returned (), f) ∧
        f.model.subscriptions = e.model.subscriptions.filter (·.token != token) ∧
        f.history.toList = e.history.toList ++ [.detaching id token true,
          .call e.model.nextShare (.acquire .read), .call e.model.nextShare .unsubscribe,
          .call e.model.nextShare (.release .read)]) ∧
    (d.Calm e → e.DetachedEnded ∧ Desk.Rounds d e) := by
  subst hrun
  have hlinks := Act.keeps_contract.1
    ((hh.mono Act.DeskOp.deskParts).keeps linking_trusts (ha.mono Act.DeskOp.deskParts)) d
  have he := (hlinks hd).1
  refine ⟨fun _ hid => he.bound hid, fun _ _ hbound => he.listed_iff hbound, fun _ _ _ hdeed => he.detached_once hdeed,
    fun _ _ hattached havailable => he.detach_ends havailable hattached, fun hcalm => ?_⟩
  have hpublic {β : Type} {b : Act σ β} (hb : Act.DeskOp Act.LeavesRelays b) :
      Act.Caller n (Act.DeskOp Act.Public) b :=
    hb.mono Act.LeavesRelays.public
  exact (((hh.mono hpublic).rounds (ha.mono hpublic) d).2 hcalm).2 hd.detachedEnded

/-- A listener that attaches another relay whenever it hears of a change, and the first relay detached after an
edit: the second one is attached and listed, and the first is neither. -/
theorem relays_linked_attaching :
    let append (text : String) (s : Scope) : Act Unit (Except ModelError Unit) :=
      Act.mutateIn s fun document => pure ((), document ++ text)
    let h : Host Unit := .interfering do let _ ← Act.attach (.view 1)
    let a : Act Unit Unit := do
      let _ ← Act.attach (.view 0)
      let _ ← Act.edit 0 (append "1")
      Act.detach 0
    let d : Desk Unit :=
      { model := { document := some "d", nextToken := 2, subscriptions := [⟨1, .client 0⟩] }
        coordinators := [{}]
        held := [.view 0, .view 1]
        client := () }
    h.Callers 1 (Act.DeskOp Act.LeavesRelays) ∧ Act.Caller 1 (Act.DeskOp Act.LeavesRelays) a ∧ d.Linked ∧
      d.Calm (a h d).2 ∧ Desk.Rounds d (a h d).2 ∧
      ((a h d).2.relay 0).subscription = none ∧ (¬ ∃ s ∈ (a h d).2.model.subscriptions, s.token = 2) ∧
      ((a h d).2.relay 1).subscription = some 3 ∧ ∃ s ∈ (a h d).2.model.subscriptions, s.token = 3 := by
  intro append h a d
  have happend (text : String) (s : Scope) : Act.Caller 1 (Act.DeskOp Act.LeavesRelays) (append text s) :=
    .bind (.op (.hand (.noUnsubscribe (.offDocument (.scopeShare s))))) fun share => .mutate share fun _ => .pure _
  have hh : h.Callers 1 (Act.DeskOp Act.LeavesRelays) := .interfering (.bind (.op (.attach _)) fun _ => .pure _)
  have ha : Act.Caller 1 (Act.DeskOp Act.LeavesRelays) a :=
    .bind (.op (.attach _)) fun _ => .bind (.edit (by decide) (happend "1" _)) fun _ => .op (.detach 0)
  have hd : d.Linked := .of_none rfl rfl
  have hcalm : d.Calm (a h d).2 :=
    ⟨(a h d).2.history.toList, (List.nil_append _).symm, Deed.not_threw (by decide +kernel)⟩
  have hdetached : .detaching 0 2 true ∈ (a h d).2.history.toList := by decide +kernel
  have hkept : .detaching 0 2 false ∉ (a h d).2.history.toList := by decide +kernel
  have hnone : ((a h d).2.relay 0).subscription = none := by decide +kernel
  have hattached : ((a h d).2.relay 1).subscription = some 3 := by decide +kernel
  obtain ⟨-, hlisted, -, -, hrounds⟩ := hh.relays_linked ha hd rfl
  refine ⟨hh, ha, hd, hcalm, (hrounds hcalm).2, hnone, fun h => ?_, hattached, ?_⟩
  · rcases (hlisted 0 2 (.inr ⟨true, hdetached⟩)).1 h with htoken | hforgotten
    · rw [hnone] at htoken
      cases htoken
    · exact hkept hforgotten
  · exact (hlisted 1 3 (.inl hattached)).2 (.inl hattached)

end Host.Callers

/-- A relay that is detached while no shares are handed out: its subscription stays, detaching it again does
nothing, and its observer goes on being told of changes. -/
theorem Host.subscription_forgotten :
    let append (text : String) (s : Scope) : Act Unit (Except ModelError Unit) :=
      Act.mutateIn s fun document => pure ((), document ++ text)
    let h : Host Unit := .silent
    let a : Act Unit Unit := do
      let _ ← Act.attach (.view 0)
      Act.setAvailable false
      Act.detach 0
      Act.setAvailable true
    let d : Desk Unit :=
      { model := { document := some "d" }, coordinators := [{}], held := [.view 0], client := () }
    (a h d).2.model.available = true ∧ ((a h d).2.relay 0).subscription = none ∧
      (a h d).2.model.subscriptions = [⟨1, .relay (.view 0)⟩] ∧
      (Act.detach 0 h (a h d).2).2.history.toList = (a h d).2.history.toList ∧
      .told (.view 0 (.changed (some "d1"))) (some "d1") ∈
        ((do Act.detach 0; let _ ← Act.edit 0 (append "1")) h (a h d).2).2.history.toList := by
  intro append h a d
  exact ⟨by decide +kernel, by decide +kernel, by decide +kernel, by decide +kernel, by decide +kernel⟩

end FormDesk
