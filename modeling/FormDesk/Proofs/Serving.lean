/-
Subscriptions that serve the pages of editors. The tabs of an editor are
subscribed when the editor is opened, and its relay has the token from then on;
disposing of the editor ends the subscription. But the tabs are shown the
document before there is a relay. If a page interrupts then, nobody gets the
token: the subscription is unclaimed (`Deed.unclaimed`), and stays.

So the subscriptions that serve tabs are those that some editor's relay has, those
that went unclaimed, and those that are being attached (`Desk.Covered`). Tokens
that are being attached may be any, so clients that call back meanwhile, and
attach and dispose in turn, make no difference to them (`Desk.Keeping`).

It follows that an editor has one subscription while it follows the model, and
none otherwise, as long as none went unclaimed (`editors_served`). If one did,
there may be two (`page_served_twice`).
-/
import FormDesk.Proofs.Bystander
import FormDesk.Proofs.Linking
import Mathlib.Data.List.Basic

namespace FormDesk

variable {σ α : Type}

/-- Whether an observer is a set of tabs. -/
def Observer.isTabs : Observer → Bool
  | tabs _ => true
  | view _ => false

/-- The tabs that a subscription serves, with the token. -/
def Subscription.serves? (s : Subscription) : Option (Observer × Token) :=
  match s.listener with
  | .relay (.tabs id) => some (.tabs id, s.token)
  | _ => none

theorem Subscription.serves?_of_client {s : Subscription} (h : s.relayed = false) : s.serves? = none := by
  unfold relayed at h
  unfold serves?
  split at h
  · cases h
  · next heq => rw [heq]

/-- The observer that was left with a subscription that is nobody's, with the token. -/
def Deed.unclaimed? : Deed → Option (Observer × Token)
  | unclaimed o token => some (o, token)
  | _ => none

namespace Desk

/-- The subscriptions that serve tabs. -/
def serving (d : Desk σ) : List (Observer × Token) := d.model.subscriptions.filterMap Subscription.serves?

/-- The subscriptions that went unclaimed. -/
def unclaimed (d : Desk σ) : List (Observer × Token) := d.history.toList.filterMap Deed.unclaimed?

/-- The tabs and the relays of the editors. -/
def posts (d : Desk σ) : List (TabsId × Option RelayId) := d.editors.map Editor.post

/-- The tabs of the editors. -/
def rows (d : Desk σ) : List TabsId := d.posts.map (·.1)

/-- What an editor with these tabs and this relay is subscribed by. -/
def follows? (d : Desk σ) (p : TabsId × Option RelayId) : Option (Observer × Token) :=
  (p.2.bind fun r => (d.relay r).subscription).map (.tabs p.1, ·)

/-- What editors are subscribed by. -/
def followed (d : Desk σ) : List (Observer × Token) := d.posts.filterMap d.follows?

/-- There are the editors below `k`, and each editor has tabs of its own, and a relay that there is if any. -/
structure Posted (k : Nat) (d : Desk σ) : Prop where
  size : k ≤ d.editors.length
  apart : d.rows.Nodup
  tabs : ∀ t ∈ d.rows, t < d.tabs.length
  relay : ∀ p ∈ d.posts, ∀ r, p.2 = some r → r < d.relays.length

/-- Shares are handed out, and the subscriptions that serve tabs are what editors are subscribed by, some others
(`extra`), those that went unclaimed and those that are `pending`. -/
structure Covered (k : Nat) (d : Desk σ) (extra pending : List (Observer × Token)) : Prop where
  linked : d.Linked
  available : d.model.available = true
  posted : d.Posted k
  serving : d.serving.Perm (d.followed ++ (extra ++ (d.unclaimed ++ pending).filter (·.1.isTabs)))
  free : ∀ x ∈ d.unclaimed ++ pending, d.Pending x.2
  apart : (d.unclaimed ++ pending).Pairwise fun x y => x.2 ≠ y.2

/-- Whatever is pending, the subscriptions that serve tabs go on being covered. -/
structure Keeping (k : Nat) (d e : Desk σ) : Prop where
  links : Links d e
  rows : d.rows <+: e.rows
  covered : ∀ pending, d.Covered k [] pending → e.Covered k [] pending

/-- A step that has to do neither with who serves tabs nor with what editors have. -/
structure OffServing (d e : Desk σ) : Prop where
  steady : Steady d e
  available : e.model.available = d.model.available
  serving : e.serving = d.serving
  unclaimed : e.unclaimed = d.unclaimed
  posts : e.posts = d.posts
  tabs : d.tabs.length ≤ e.tabs.length

section

variable {k : Nat} {d e f : Desk σ} {extra pending : List (Observer × Token)}

theorem Keeping.path : Path (Keeping (σ := σ) k) where
  refl d := ⟨Links.path.refl d, List.prefix_refl _, fun _ => id⟩
  trans h h' := ⟨Links.path.trans h.links h'.links, h.rows.trans h'.rows,
    fun pending hd => h'.covered pending (h.covered pending hd)⟩

theorem rows_of_posts (h : e.posts = d.posts) : e.rows = d.rows := by rw [rows, h, rows]

theorem follows?_of_relays (h : e.relays = d.relays) : e.follows? = d.follows? := by
  funext p
  simp only [follows?, relay, h]

/-- More tabs and more relays make no difference to the editors. -/
theorem Posted.of_posts (hd : d.Posted k) (hp : e.posts = d.posts) (ht : d.tabs.length ≤ e.tabs.length)
    (hr : d.relays.length ≤ e.relays.length) : e.Posted k := by
  have hrows := rows_of_posts hp
  refine ⟨?_, hrows ▸ hd.apart, fun t htabs => ?_, fun p hpost r hrelay => ?_⟩
  · have hlength : e.editors.length = d.editors.length := by simpa [posts] using congrArg List.length hp
    rw [hlength]
    exact hd.size
  · exact Nat.lt_of_lt_of_le (hd.tabs t (hrows ▸ htabs)) ht
  · exact Nat.lt_of_lt_of_le (hd.relay p (hp ▸ hpost) r hrelay) hr

theorem getElem?_rows (d : Desk σ) (i : Nat) : d.rows[i]? = d.editors[i]?.map (·.tabs) := by
  simp only [rows, posts, List.getElem?_map, Option.map_map]
  rfl

/-- The editors that there were are there, with the same tabs. -/
theorem editor_of_rows (h : d.rows <+: e.rows) {id : EditorId} (hid : id < d.editors.length) :
    id < e.editors.length ∧ (e.editor id).tabs = (d.editor id).tabs := by
  have hlength : id < d.rows.length := by simpa [rows, posts] using hid
  have hrow := List.prefix_iff_getElem?.1 h id hlength
  rw [← List.getElem?_eq_getElem hlength, getElem?_rows, getElem?_rows, List.getElem?_eq_getElem hid] at hrow
  obtain ⟨editor, heditor, htabs⟩ := Option.map_eq_some_iff.1 hrow
  refine ⟨(List.getElem?_eq_some_iff.1 heditor).1, ?_⟩
  simp [Desk.editor, heditor, hid, htabs]

/-- Before any relay was attached, and as long as clients alone have subscribed, nothing serves tabs. -/
theorem Covered.new (havailable : d.model.available = true) (hclients : ∀ s ∈ d.model.subscriptions, s.relayed = false)
    (hr : d.relays = []) (hw : d.history = #[]) (hd : d.Posted k) : d.Covered k [] [] := by
  have hunclaimed : d.unclaimed = [] := by simp [unclaimed, hw]
  have hserving : d.serving = [] :=
    List.filterMap_eq_nil_iff.2 fun s hs => Subscription.serves?_of_client (hclients s hs)
  have hfollowed : d.followed = [] := List.filterMap_eq_nil_iff.2 fun p _ => by
    unfold follows?
    cases p.2 <;> simp [relay, hr]
  refine ⟨.of_none hr (by simp [detachings, hw]), havailable, hd, ?_, ?_, ?_⟩
  · rw [hserving, hfollowed, hunclaimed]
    exact .nil
  · simp [hunclaimed]
  · simp [hunclaimed]

/-! ## Steps that leave serving alone -/

theorem unclaimed_of_history (hw : e.history = d.history) : e.unclaimed = d.unclaimed := by
  rw [unclaimed, hw, unclaimed]

@[simp] theorem unclaimed_enter (d : Desk σ) (x : Deed) :
    (d.enter x).unclaimed = d.unclaimed ++ x.unclaimed?.toList := by
  cases x <;> simp [unclaimed, Deed.unclaimed?]

@[simp] theorem unclaimed_accepted (d : Desk σ) (s : Share) (c : Call) (m : Model) :
    (d.accepted s c m).unclaimed = d.unclaimed := by
  simp [unclaimed, Deed.unclaimed?]

theorem serving_of_eq (hs : e.model.subscriptions = d.model.subscriptions) : e.serving = d.serving := by
  rw [serving, hs, serving]

theorem OffServing.followed (h : OffServing d e) : e.followed = d.followed := by
  rw [Desk.followed, h.posts, follows?_of_relays h.steady.relays, Desk.followed]

theorem OffServing.covered (h : OffServing d e) (hd : d.Covered k extra pending) : e.Covered k extra pending where
  linked := (h.steady.links hd.linked).1
  available := h.available.trans hd.available
  posted := hd.posted.of_posts h.posts h.tabs (Nat.le_of_eq (congrArg List.length h.steady.relays.symm))
  serving := by
    rw [h.serving, h.followed, h.unclaimed]
    exact hd.serving
  free x hx := (h.steady.links hd.linked).2 _ (hd.free x (h.unclaimed ▸ hx))
  apart := h.unclaimed ▸ hd.apart

theorem OffServing.keeping (h : OffServing d e) : Keeping k d e :=
  ⟨h.steady.links, rows_of_posts h.posts ▸ List.prefix_refl _, fun _ => h.covered⟩

theorem OffServing.enter (d : Desk σ) {x : Deed} (hd : x.detaching? = none) (hu : x.unclaimed? = none) :
    OffServing d (d.enter x) :=
  ⟨.enter d hd, rfl, rfl, by simp [hu], rfl, Nat.le_refl _⟩

/-- Nothing about the model's listeners, relays and editors. -/
theorem OffServing.of_same (hm : e.model = d.model) (hr : e.relays = d.relays) (hw : e.history = d.history)
    (hp : e.posts = d.posts) (ht : d.tabs.length ≤ e.tabs.length) : OffServing d e :=
  ⟨.of_same hr hm (by rw [detachings, hw, detachings]), by rw [hm], serving_of_eq (by rw [hm]),
    unclaimed_of_history hw, hp, ht⟩

theorem KeepsPosts.offServing (h : KeepsPosts d e) : OffServing d e :=
  .of_same h.model h.relays h.history h.posts h.tabs

theorem Visit.offServing (h : Visit d e) : OffServing d e := by
  have hsteady := (UntoldStep.visit h).unheard.steady
  cases h with
  | acquire h =>
    obtain ⟨-, rfl, rfl⟩ := Model.acquire_ok h
    exact ⟨hsteady, rfl, rfl, unclaimed_accepted .., rfl, Nat.le_refl _⟩
  | release h =>
    obtain ⟨-, rfl⟩ := Model.release?_some h
    exact ⟨hsteady, rfl, rfl, unclaimed_accepted .., rfl, Nat.le_refl _⟩
  | client s => exact ⟨hsteady, rfl, rfl, rfl, rfl, Nat.le_refl _⟩

theorem UnjoinedStep.offServing (h : UnjoinedStep d e) : OffServing d e := by
  have hsteady := h.untoldStep.unheard.steady
  have haccepted {s : Share} {c : Call} {m : Model} (hm : Steady d (d.accepted s c m))
      (ha : m.available = d.model.available) (hs : m.subscriptions = d.model.subscriptions) :
      OffServing d (d.accepted s c m) :=
    ⟨hm, ha, serving_of_eq hs, unclaimed_accepted .., rfl, Nat.le_refl _⟩
  cases h with
  | motion h =>
    cases h with
    | visit h => exact h.offServing
    | starting | entered | left | runs | ran | opened => exact .enter d rfl rfl
    | session => exact .of_same rfl rfl rfl rfl (Nat.le_refl _)
  | recorded h =>
    cases h with
    | beginRecording h =>
      obtain ⟨-, -, -, rfl⟩ := Model.beginRecording_ok h
      exact haccepted hsteady rfl rfl
    | endRecording h =>
      obtain ⟨-, r, -, rfl⟩ := Model.endRecording_ok h
      refine haccepted hsteady ?_ ?_ <;>
      · unfold Model.recordingEnded
        split <;> rfl
    | began | finished | edits | edited => exact .enter d rfl rfl
    | depth => exact .of_same rfl rfl rfl rfl (Nat.le_refl _)
  | inHand h =>
    cases h with
    | take h =>
      obtain ⟨-, -, -, rfl⟩ := Model.takeDocument_ok h
      exact haccepted hsteady rfl rfl
    | put document =>
      exact ⟨hsteady, rfl, rfl, (unclaimed_enter d (.mutated true)).trans (List.append_nil _), rfl, Nat.le_refl _⟩
    | lose => exact .enter d rfl rfl
  | openBracket h =>
    obtain ⟨-, -, rfl⟩ := Model.openBracket_ok h
    exact haccepted hsteady rfl rfl
  | closeBracket h =>
    obtain ⟨-, n, -, rfl⟩ := Model.closeBracket_ok h
    exact haccepted hsteady rfl rfl
  | popped h =>
    obtain ⟨_, -, rfl⟩ := Model.popUndo?_some h
    exact ⟨hsteady, rfl, rfl, rfl, rfl, Nat.le_refl _⟩
  | restored | rebuilt | recordable | saved | moved => exact ⟨hsteady, rfl, rfl, rfl, rfl, Nat.le_refl _⟩

/-- A client who subscribes serves no tabs. -/
theorem subscribed_offServing {s : Share} {id : ListenerId} {token : Token} {m : Model}
    (h : d.model.subscribe s (.client id) = .ok (token, m)) : OffServing d (d.accepted s .subscribe m) := by
  have hsteady := (UntoldStep.offDocument (.subscribe h)).unheard.steady
  obtain ⟨rfl, rfl⟩ := Model.subscribe_ok h
  exact ⟨hsteady, rfl, by simp [Desk.serving, Subscription.serves?], unclaimed_accepted .., rfl, Nat.le_refl _⟩

/-- Nor does a client who is sent away. -/
theorem unsubscribed_offServing {s : Share} {token : Token} {m : Model}
    (hrelayed : ∀ s ∈ d.model.subscriptions, s.token = token → s.relayed = false)
    (h : d.model.unsubscribe s token = .ok (true, m)) : OffServing d (d.accepted s .unsubscribe m) := by
  have hsteady := unsubscribed_steady hrelayed h
  obtain rfl := Model.unsubscribe_ok h
  refine ⟨hsteady, rfl, ?_, unclaimed_accepted .., rfl, Nat.le_refl _⟩
  refine List.filterMap_filter.trans (List.filterMap_congr fun t ht => ?_)
  by_cases htoken : t.token = token
  · rw [Subscription.serves?_of_client (hrelayed t ht htoken), ite_self]
  · rw [if_pos (by simpa using htoken)]

/-- An editor that is made with new tabs has nothing that serves them. -/
theorem made_keeping (hm : e.model = d.model) (hr : e.relays = d.relays) (hw : e.history = d.history)
    (hp : e.posts = d.posts ++ [(d.tabs.length, none)]) (ht : e.tabs.length = d.tabs.length + 1) : Keeping k d e := by
  have hsteady : Steady d e := .of_same hr hm (by rw [detachings, hw, detachings])
  have hrows : e.rows = d.rows ++ [d.tabs.length] := by simp [rows, hp]
  refine ⟨hsteady.links, hrows ▸ List.prefix_append .., fun pending hd => ?_⟩
  obtain ⟨hlinked, hstay⟩ := hsteady.links hd.linked
  have hunclaimed := unclaimed_of_history hw
  have hfollowed : e.followed = d.followed := by
    rw [followed, hp, follows?_of_relays hr, List.filterMap_append, followed]
    simp [follows?]
  refine ⟨hlinked, by rw [hm, hd.available], ⟨?_, ?_, fun t htabs => ?_, fun p hpost r hrelay => ?_⟩, ?_,
    fun x hx => ?_, hunclaimed ▸ hd.apart⟩
  · have hlength := congrArg List.length hp
    simp only [posts, List.length_map, List.length_append, List.length_singleton] at hlength
    exact Nat.le_trans hd.posted.size (by omega)
  · rw [hrows, List.nodup_append]
    refine ⟨hd.posted.apart, List.pairwise_singleton .., fun t htabs t' ht' => ?_⟩
    rw [List.mem_singleton.1 ht']
    exact Nat.ne_of_lt (hd.posted.tabs t htabs)
  · rw [ht]
    rw [hrows, List.mem_append, List.mem_singleton] at htabs
    rcases htabs with htabs | rfl
    · exact Nat.lt_succ_of_lt (hd.posted.tabs t htabs)
    · exact Nat.lt_succ_self _
  · rw [hr]
    rw [hp, List.mem_append, List.mem_singleton] at hpost
    rcases hpost with hpost | rfl
    · exact hd.posted.relay p hpost r hrelay
    · cases hrelay
  · have hserving : e.serving = d.serving := serving_of_eq (by rw [hm])
    rw [hserving, hfollowed, hunclaimed]
    exact hd.serving
  · exact hstay _ (hd.free x (hunclaimed ▸ hx))

/-! ## Attaching -/

/-- A relay's subscription that was just made is pending. -/
theorem Covered.subscribed {s : Share} {o : Observer} {token : Token} {m : Model} (hd : d.Covered k [] pending)
    (h : d.model.subscribe s (.relay o) = .ok (token, m)) :
    (d.accepted s .subscribe m).Covered k [] ((o, token) :: pending) := by
  have hsteady := (UntoldStep.offDocument (.subscribe h)).unheard.steady
  have hpending := hd.linked.subscribed h
  obtain ⟨hlinked, hstay⟩ := hsteady.links hd.linked
  obtain ⟨rfl, hm⟩ := Model.subscribe_ok h
  have hserving : (d.accepted s .subscribe m).serving = d.serving ++ [(o, d.model.nextToken)].filter (·.1.isTabs) := by
    cases o <;> simp [Desk.serving, hm, Subscription.serves?, Observer.isTabs]
  have hfollowed : (d.accepted s .subscribe m).followed = d.followed := rfl
  have hmove : ((d.unclaimed ++ pending) ++ [(o, d.model.nextToken)]).Perm
      (d.unclaimed ++ (o, d.model.nextToken) :: pending) := by
    rw [List.append_assoc]
    exact (List.perm_append_singleton _ _).append_left _
  refine ⟨hlinked, by rw [Desk.model_accepted, hm]; exact hd.available,
    hd.posted.of_posts rfl (Nat.le_refl _) (Nat.le_refl _), ?_, fun x hx => ?_, ?_⟩
  · rw [hserving, hfollowed, unclaimed_accepted]
    refine (hd.serving.append_right _).trans ?_
    rw [List.append_assoc, List.append_assoc, ← List.filter_append]
    exact ((hmove.filter _).append_left _).append_left _
  · rw [unclaimed_accepted] at hx
    rcases List.mem_append.1 (hmove.mem_iff.2 hx) with hx | hx
    · exact hstay _ (hd.free x hx)
    · rw [List.mem_singleton.1 hx]
      exact hpending
  · rw [unclaimed_accepted]
    refine (hmove.pairwise_iff fun hne => hne.symm).1 (List.pairwise_append.2
      ⟨hd.apart, List.pairwise_singleton .., fun x hx y hy => ?_⟩)
    rw [List.mem_singleton.1 hy]
    exact Nat.ne_of_lt (hd.free x hx).issued

/-- A pending subscription that nobody gets is unclaimed. -/
theorem Covered.unclaim {o : Observer} {token : Token} (hd : d.Covered k [] ((o, token) :: pending)) :
    (d.enter (.unclaimed o token)).Covered k [] pending := by
  have hsteady : Steady d (d.enter (.unclaimed o token)) := .enter d rfl
  have hmoved : (d.enter (.unclaimed o token)).unclaimed ++ pending = d.unclaimed ++ (o, token) :: pending := by
    simp [Deed.unclaimed?]
  exact ⟨(hsteady.links hd.linked).1, hd.available,
    hd.posted.of_posts rfl (Nat.le_refl _) (Nat.le_refl _), hmoved ▸ hd.serving,
    fun x hx => (hsteady.links hd.linked).2 _ (hd.free x (hmoved ▸ hx)), hmoved ▸ hd.apart⟩

/-- A pending subscription that a relay gets serves no editor yet. -/
theorem Covered.added {o : Observer} {token : Token} (hd : d.Covered k [] ((o, token) :: pending)) :
    Covered k { d with relays := d.relays ++ [⟨some token⟩] } ([(o, token)].filter (·.1.isTabs)) pending := by
  have hmove : (d.unclaimed ++ (o, token) :: pending).Perm ((o, token) :: (d.unclaimed ++ pending)) :=
    List.perm_middle
  have htoken : d.Pending token := hd.free (o, token) (by simp)
  obtain ⟨hne, hapart⟩ := List.pairwise_cons.1 ((hmove.pairwise_iff fun hne => hne.symm).1 hd.apart)
  have hfollowed : Desk.followed { d with relays := d.relays ++ [⟨some token⟩] } = d.followed := by
    refine List.filterMap_congr fun p hp => ?_
    unfold follows?
    cases hr : p.2 with
    | none => rfl
    | some r => simp only [Option.bind_some, relay_added, if_neg (Nat.ne_of_lt (hd.posted.relay p hp r hr))]
  refine ⟨hd.linked.added htoken, hd.available, hd.posted.of_posts rfl (Nat.le_refl _) (by simp), ?_, fun x hx => ?_,
    hapart⟩
  · rw [hfollowed]
    refine hd.serving.trans (List.Perm.append_left _ ?_)
    rw [← List.filter_append]
    exact hmove.filter _
  · exact (hd.free x (hmove.mem_iff.2 (List.mem_cons_of_mem _ hx))).added (hne x hx).symm

/-! ## Detaching -/

/-- Editors and tabs are as they were, and shares are handed out as before. -/
structure SameTabs (d e : Desk σ) : Prop where
  editors : e.editors = d.editors
  tabs : e.tabs = d.tabs
  available : e.model.available = d.model.available

theorem SameTabs.path : Path (SameTabs (σ := σ)) where
  refl _ := ⟨rfl, rfl, rfl⟩
  trans h h' := ⟨h'.editors.trans h.editors, h'.tabs.trans h.tabs, h'.available.trans h.available⟩

theorem SameTabs.posts (h : SameTabs d e) : e.posts = d.posts := by rw [Desk.posts, h.editors, Desk.posts]

theorem Detached.unclaimed_eq {id : RelayId} {token : Token} {available : Bool} (h : Detached id token available d e) :
    e.unclaimed = d.unclaimed := by
  obtain ⟨w, hw, rfl⟩ := h.deeds
  rw [unclaimed, hw, List.filterMap_append, List.filterMap_cons]
  cases available <;> cases d.model.subscriptions.any (·.token == token) <;> simp [unclaimed, Deed.unclaimed?]

theorem Detached.serving_eq {id : RelayId} {token : Token} (h : Detached id token true d e) :
    e.serving = d.serving.filter (·.2 != token) := by
  have hsubscriptions : e.model.subscriptions = d.model.subscriptions.filter (·.token != token) := h.subscriptions
  rw [serving, hsubscriptions, List.filterMap_filter, serving, List.filter_filterMap]
  congr 1
  funext s
  obtain ⟨t, listener⟩ := s
  cases listener with
  | client _ => simp [Subscription.serves?]
  | relay o => cases o <;> by_cases ht : t = token <;> simp [Subscription.serves?, Option.filter_some, ht]

/-- The relay's token is what no other editor is subscribed by. -/
theorem Detached.followed_eq {id : RelayId} {token : Token} (h : Detached id token true d e) (hd : d.Linked)
    (hposts : e.posts = d.posts) : e.followed = d.followed.filter (·.2 != token) := by
  rw [followed, hposts, followed, List.filter_filterMap]
  congr 1
  funext p
  cases hr : p.2 with
  | none => simp [follows?, hr]
  | some r =>
    simp only [follows?, hr, Option.bind_some, h.relay_eq]
    by_cases hid : id = r
    · rw [if_pos hid, ← hid, h.relay]
      simp [Option.filter_some]
    · rw [if_neg hid]
      cases hrelay : (d.relay r).subscription with
      | none => rfl
      | some t =>
        have hne : t ≠ token := fun heq => hid (hd.own id r token h.relay (heq ▸ hrelay)).symm
        simp [Option.filter_some, hne]

/-- A relay that is detached serves nobody any more. -/
theorem Covered.detached {id : RelayId} {token : Token} (hd : d.Covered k extra pending)
    (h : Detached id token true d e) (halong : SameTabs d e) :
    e.Covered k (extra.filter (·.2 != token)) pending := by
  obtain ⟨hlinked, hstay⟩ := h.links hd.linked
  have hkept : ((d.unclaimed ++ pending).filter (·.1.isTabs)).filter (·.2 != token) =
      (d.unclaimed ++ pending).filter (·.1.isTabs) := by
    refine List.filter_eq_self.2 fun x hx => ?_
    have hfree := (hd.free x (List.mem_filter.1 hx).1).free id
    rw [h.relay] at hfree
    exact bne_iff_ne.2 fun heq => hfree (congrArg some heq.symm)
  refine ⟨hlinked, halong.available.trans hd.available, hd.posted.of_posts halong.posts
    (Nat.le_of_eq (congrArg List.length halong.tabs.symm)) (Nat.le_of_eq h.length_eq.symm), ?_, fun x hx => ?_,
    h.unclaimed_eq ▸ hd.apart⟩
  · rw [h.serving_eq, h.followed_eq hd.linked halong.posts, h.unclaimed_eq]
    refine (hd.serving.filter _).trans ?_
    rw [List.filter_append, List.filter_append, hkept]
  · exact hstay _ (hd.free x (h.unclaimed_eq ▸ hx))

/-! ## Editors that exchange their relays -/

/-- Changing an editor changes its post alone. -/
theorem posts_withEditor {id : EditorId} (hid : id < d.editors.length) : ∃ before after,
    d.posts = before ++ (d.editor id).post :: after ∧
    ∀ f, (d.withEditor id f).posts = before ++ (f (d.editor id)).post :: after := by
  have heditor : d.editor id = d.editors[id] := by simp [editor, hid]
  refine ⟨(d.editors.take id).map Editor.post, (d.editors.drop (id + 1)).map Editor.post, ?_, fun f => ?_⟩
  · have hsplit : d.editors = d.editors.take id ++ d.editors[id] :: d.editors.drop (id + 1) := by simp
    rw [heditor, ← List.map_cons, ← List.map_append]
    exact congrArg (List.map Editor.post) hsplit
  · simp only [posts, withEditor, List.modify_eq_take_cons_drop hid, List.map_append, List.map_cons, heditor]

/-- An editor that is changed keeps its tabs. -/
theorem rows_withEditor (d : Desk σ) (id : EditorId) {f : Editor → Editor} (hf : ∀ e, (f e).tabs = e.tabs) :
    (d.withEditor id f).rows = d.rows := by
  refine List.ext_getElem? fun i => ?_
  simp only [rows, posts, withEditor, List.getElem?_map, List.getElem?_modify]
  split
  · cases d.editors[i]? with
    | none => rfl
    | some e => exact congrArg some (hf e)
  · cases d.editors[i]? <;> rfl

/-- What an editor with another relay is subscribed by is exchanged for what it was subscribed by. -/
theorem Covered.repost {id : EditorId} (hid : id < d.editors.length) {relay : Option RelayId}
    {extra' : List (Observer × Token)} (hd : d.Covered k extra pending)
    (hrelay : ∀ r, relay = some r → r < d.relays.length)
    (hextra : ((d.follows? (d.editor id).post).toList ++ extra).Perm
      ((d.follows? ((d.editor id).tabs, relay)).toList ++ extra')) :
    (d.withEditor id fun e => { e with relay }).Covered k extra' pending := by
  obtain ⟨before, after, hposts, hposts'⟩ := d.posts_withEditor hid
  have hpost := hposts' fun e => { e with relay }
  have hsteady : Steady d (d.withEditor id fun e => { e with relay }) := .of_same rfl rfl rfl
  obtain ⟨hlinked, hstay⟩ := hsteady.links hd.linked
  have hrows := d.rows_withEditor id (f := fun e => { e with relay }) fun _ => rfl
  refine ⟨hlinked, hd.available, ⟨?_, hrows ▸ hd.posted.apart, hrows ▸ hd.posted.tabs, fun p hp r hr => ?_⟩, ?_,
    fun x hx => hstay _ (hd.free x hx), hd.apart⟩
  · simpa [withEditor] using hd.posted.size
  · rw [hpost] at hp
    have hold := hd.posted.relay p
    rw [hposts] at hold
    rcases List.mem_append.1 hp with hp | hp
    · exact hold (List.mem_append_left _ hp) r hr
    · rcases List.mem_cons.1 hp with rfl | hp
      · exact hrelay r hr
      · exact hold (List.mem_append_right _ (List.mem_cons_of_mem _ hp)) r hr
  · have hone (p : TabsId × Option RelayId) : (before ++ p :: after).filterMap d.follows? =
        before.filterMap d.follows? ++ ((d.follows? p).toList ++ after.filterMap d.follows?) := by
      rw [List.filterMap_append, List.filterMap_cons]
      cases d.follows? p <;> rfl
    have hfollowed : d.followed = _ := (congrArg (List.filterMap d.follows?) hposts).trans (hone _)
    have hfollowed' : (d.withEditor id fun e => { e with relay }).followed = _ :=
      (congrArg (List.filterMap d.follows?) hpost).trans (hone _)
    have hserving := hd.serving
    rw [hfollowed] at hserving
    rw [hfollowed']
    change d.serving.Perm (before.filterMap d.follows? ++ ((d.follows? ((d.editor id).tabs, relay)).toList ++
      after.filterMap d.follows?) ++ (extra' ++ (d.unclaimed ++ pending).filter (·.1.isTabs)))
    -- The two lists differ in one place only, and there as the hypothesis says: it is enough to count.
    refine List.perm_iff_count.2 fun x => ?_
    have hcount := List.perm_iff_count.1 hserving x
    have hcount' := List.perm_iff_count.1 hextra x
    simp only [List.count_append] at hcount hcount' ⊢
    omega

end

end Desk

end FormDesk
