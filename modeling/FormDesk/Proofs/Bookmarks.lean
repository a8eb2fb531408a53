/-
Bookmarks: what memories hold of the pages that editors showed. An editor keeps one in a
memory, under a key that its kind and its resource make up (`Desk.bookmark`).

Whatever is done with editors, and whatever their clients do meanwhile, a run comes to a
list of indices that were stored, each one by an editor under its own bookmark; nothing
else that goes on changes what memories hold, nor under which bookmark an editor stores
(`Desk.StoredBetween`). Two bookmarks with kinds in which the separator does not stand have two
keys (`Bookmark.key_inj`). So what such a bookmark says after the run is what was stored
last under this very bookmark, whatever was stored under others and in whichever order
(`StoredBetween.marked`); and every page that is shown is stored so (`Act.showIndex_marks`).

The main theorem is `bookmarks_apart`.
-/
import FormDesk.Proofs.Keys
import FormDesk.Proofs.Owning
import FormDesk.Proofs.Selecting

namespace FormDesk

variable {σ α : Type}

/-- Where an editor remembers its active page. -/
@[ext]
structure Bookmark where
  memory : MemoryId
  kind : String
  resource : String
  deriving DecidableEq, Repr

/-- The key under which a memory keeps a bookmark. -/
def Bookmark.key (b : Bookmark) : String := Settings.memoryKey { kind := b.kind } b.resource

theorem Bookmark.key_inj {b b' : Bookmark} (hb : PlainKind b.kind) (hb' : PlainKind b'.kind)
    (hmemory : b.memory = b'.memory) (hkey : b.key = b'.key) : b = b' := by
  obtain ⟨hkind, hresource⟩ := Settings.memoryKey_inj hb hb' hkey
  exact Bookmark.ext hmemory hkind hresource

namespace Desk

/-- The bookmark of an editor. -/
def bookmark (d : Desk σ) (id : EditorId) : Bookmark :=
  ⟨(d.editor id).memory, (d.editor id).settings.kind, (d.editor id).name⟩

/-- What a bookmark says. -/
def marked (d : Desk σ) (b : Bookmark) : Option String := (d.memory b.memory).load b.key

/-! ## Runs -/

/-- Memories hold what they held, and editors have the bookmarks that they had; there may be more editors. -/
structure SameBookmarks (d e : Desk σ) : Prop where
  loads : ∀ m key, (e.memory m).load key = (d.memory m).load key
  editors : ∀ id < d.editors.length, id < e.editors.length ∧ e.bookmark id = d.bookmark id

/-- Between the two desks these indices were stored, each under the bookmark of an editor, the latest first. -/
inductive StoredBetween : List (Bookmark × Nat) → Desk σ → Desk σ → Prop
  | sameBookmarks {d e} : SameBookmarks d e → StoredBetween [] d e
  | stored {d} (id : EditorId) (index : Nat) {kept : TabMemory} : d.Stores id →
      (d.editor id).memory < d.memories.length →
      (d.memory (d.editor id).memory).store (d.memoryKey id) (toString index) = .ok kept →
      StoredBetween [(d.bookmark id, index)] d { d with memories := d.memories.set (d.editor id).memory kept }
  | append {w v d e f} : StoredBetween w d e → StoredBetween v e f → StoredBetween (v ++ w) d f

/-- What was stored is some such list. -/
def StoresSome (d e : Desk σ) : Prop := ∃ w, StoredBetween w d e

/-- No editor that stores in a memory is of a kind in which the separator stands. -/
def PlainIn (d : Desk σ) (m : MemoryId) : Prop :=
  ∀ id < d.editors.length, (d.editor id).memory = m → PlainKind (d.editor id).settings.kind

section

variable {d e f : Desk σ} {w : List (Bookmark × Nat)}

theorem SameBookmarks.of_same (heditors : e.editors = d.editors) (hmemories : e.memories = d.memories) :
    SameBookmarks d e where
  loads m key := by rw [memory, hmemories, memory]
  editors id hid := ⟨heditors ▸ hid, by rw [bookmark, editor, heditors, bookmark, editor]⟩

/-- Editors keep their bookmarks through what is changed about them otherwise. -/
theorem SameBookmarks.withEditor {g : Editor → Editor}
    (hg : ∀ x, (g x).memory = x.memory ∧ (g x).settings = x.settings ∧ (g x).name = x.name) (d : Desk σ)
    (id : EditorId) : SameBookmarks d (d.withEditor id g) where
  loads _ _ := rfl
  editors i hi := by
    refine ⟨by simpa [Desk.withEditor] using hi, ?_⟩
    have heditor : (d.withEditor id g).editor i = if id = i then g (d.editor i) else d.editor i := by
      simp only [editor, Desk.withEditor, List.getElem?_modify, List.getElem?_eq_getElem hi]
      split <;> rfl
    rw [bookmark, heditor, bookmark]
    split
    · obtain ⟨hmemory, hsettings, hname⟩ := hg (d.editor i)
      rw [hmemory, hsettings, hname]
    · rfl

/-- Editors keep their bookmarks when more of them are made. -/
theorem SameBookmarks.made {es : List Editor} (heditors : e.editors = d.editors ++ es)
    (hmemories : e.memories = d.memories) :
    SameBookmarks d e where
  loads m key := by rw [memory, hmemories, memory]
  editors id hid := by
    refine ⟨?_, ?_⟩
    · rw [heditors, List.length_append]
      exact Nat.lt_add_right _ hid
    · rw [bookmark, editor, heditors, List.getElem?_append_left hid]
      rfl

theorem StoresSome.of_same (heditors : e.editors = d.editors) (hmemories : e.memories = d.memories) :
    StoresSome d e :=
  ⟨[], .sameBookmarks (.of_same heditors hmemories)⟩

theorem StoresSome.path : Path (StoresSome (σ := σ)) where
  refl _ := .of_same rfl rfl
  trans := by
    rintro d e f ⟨w, hw⟩ ⟨v, hv⟩
    exact ⟨v ++ w, hw.append hv⟩

theorem StoredBetween.editors (h : StoredBetween w d e) {id : EditorId} (hid : id < d.editors.length) :
    id < e.editors.length ∧ e.bookmark id = d.bookmark id := by
  induction h with
  | sameBookmarks h => exact h.editors id hid
  | stored => exact ⟨hid, rfl⟩
  | append _ _ ih ih' =>
    obtain ⟨hid', hsame⟩ := ih hid
    obtain ⟨hid'', hsame'⟩ := ih' hid'
    exact ⟨hid'', hsame'.trans hsame⟩

/-- Whatever was stored in a memory was stored by an editor that is there in the end. -/
theorem StoredBetween.plain (h : StoredBetween w d e) {m : MemoryId} (he : e.PlainIn m) :
    d.PlainIn m ∧ ∀ x ∈ w, x.1.memory = m → PlainKind x.1.kind := by
  have hbefore {d e : Desk σ} (hsame : ∀ id < d.editors.length, id < e.editors.length ∧ e.bookmark id = d.bookmark id)
      (he : e.PlainIn m) : d.PlainIn m := by
    intro id hid hm
    obtain ⟨hid', hbookmark⟩ := hsame id hid
    have hmemory : (e.editor id).memory = (d.editor id).memory := congrArg Bookmark.memory hbookmark
    have hkind : (e.editor id).settings.kind = (d.editor id).settings.kind := congrArg Bookmark.kind hbookmark
    exact hkind ▸ he id hid' (hmemory.trans hm)
  induction h with
  | sameBookmarks h => exact ⟨hbefore h.editors he, nofun⟩
  | @stored d id index =>
    refine ⟨he, fun x hx hm => ?_⟩
    obtain rfl := List.mem_singleton.1 hx
    by_cases hid : id < d.editors.length
    · exact he id hid hm
    · -- Who is not there stores as an editor of the kind that is usual.
      have hkind : (d.bookmark id).kind = ({} : Settings).kind := by
        rw [bookmark, editor, List.getElem?_eq_none (Nat.le_of_not_lt hid)]
        rfl
      rw [hkind]
      decide +kernel
  | append _ _ ih ih' =>
    obtain ⟨hmid, hlate⟩ := ih' he
    obtain ⟨hd, hearly⟩ := ih hmid
    exact ⟨hd, fun x hx => (List.mem_append.1 hx).elim (hlate x) (hearly x)⟩

/-- What is stored under a bookmark is what it says, and no bookmark with another key says anything else. -/
theorem marked_stored {id : EditorId} {index : Nat} {kept : TabMemory} (hm : (d.editor id).memory < d.memories.length)
    (hstore : (d.memory (d.editor id).memory).store (d.memoryKey id) (toString index) = .ok kept) {b : Bookmark}
    (hb : (d.bookmark id).memory = b.memory → (d.bookmark id).key = b.key → d.bookmark id = b) :
    marked { d with memories := d.memories.set (d.editor id).memory kept } b =
      if b = d.bookmark id then some (toString index) else d.marked b := by
  by_cases hmemory : b.memory = (d.editor id).memory
  · have hkept : marked { d with memories := d.memories.set (d.editor id).memory kept } b = kept.load b.key := by
      simp [marked, memory, hmemory, hm]
    rw [hkept]
    split
    · next hsame =>
      subst hsame
      exact (TabMemory.load_store hstore).1
    · next hother =>
      have hkey : b.key ≠ d.memoryKey id := fun hkey => hother (hb hmemory.symm hkey.symm).symm
      rw [TabMemory.load_store_other hstore hkey, marked, hmemory]
  · have hother : b ≠ d.bookmark id := fun hsame => hmemory (congrArg Bookmark.memory hsame)
    rw [if_neg hother, marked, memory, List.getElem?_set_ne (Ne.symm hmemory), marked, memory]

/-- What a bookmark says after a run: what was stored last under it, if anything, provided that no other one with its
key was stored under. -/
theorem StoredBetween.marked (h : StoredBetween w d e) {b : Bookmark}
    (hw : ∀ x ∈ w, x.1.memory = b.memory → x.1.key = b.key → x.1 = b) :
    e.marked b = ((w.lookup b).map toString).or (d.marked b) := by
  induction h with
  | sameBookmarks h => exact h.loads b.memory b.key
  | @stored d id index _ _ hm hstore =>
    rw [marked_stored hm hstore (hw _ List.mem_cons_self), List.lookup_cons]
    by_cases hsame : b = d.bookmark id
    · simp [hsame]
    · rw [if_neg hsame, beq_false_of_ne hsame]
      rfl
  | append _ _ ih ih' =>
    rw [ih' fun x hx => hw x (List.mem_append_left _ hx), ih fun x hx => hw x (List.mem_append_right _ hx),
      List.lookup_append, Option.map_or, Option.or_assoc]

theorem UnjoinedStep.memories (h : UnjoinedStep d e) : e.memories = d.memories := by
  cases h with
  | motion h =>
    cases h with
    | visit h => cases h <;> rfl
    | _ => rfl
  | recorded h => cases h <;> rfl
  | inHand h => cases h <;> rfl
  | _ => rfl

theorem UntoldStep.memories (h : UntoldStep d e) : e.memories = d.memories := by
  cases h with
  | motion h => exact (UnjoinedStep.motion h).memories
  | recorded h => exact (UnjoinedStep.recorded h).memories
  | inHand h => exact (UnjoinedStep.inHand h).memories
  | offDocument h => cases h <;> rfl
  | _ => rfl

theorem UntoldStep.storesSome (h : UntoldStep d e) : StoresSome d e := .of_same h.sameEditors.editors h.memories

end

end Desk

/-! ## Whatever is done with editors -/

namespace Act

open Desk (SameBookmarks StoresSome)

/-- All that editors offer, all that is done with a model by hand, and relays. Whoever makes pages and the like may
change whatever is not about what memories hold and under which bookmarks editors store. -/
inductive LeavesBookmarks : Actions σ
  | hand {β} {a : Act σ β} : Public a → LeavesBookmarks a
  | arrange {f : Desk σ → Desk σ} : (∀ d, SameBookmarks d (f d)) → LeavesBookmarks (Act.change f)
  | attach (o : Observer) : LeavesBookmarks (Act.attach o)
  | detach (id : RelayId) : LeavesBookmarks (Act.detach id)
  | letGo (r : Ref) : LeavesBookmarks (Act.letGo r)
  | makeEditor (name : String) (project : Option String) (settings : Settings) (memory : MemoryId) :
      LeavesBookmarks (Act.makeEditor name project settings memory)
  | openEditor (id : EditorId) (forms : List PageId) (text : PageId) :
      LeavesBookmarks (Act.openEditor id forms text)
  | dropPages (id : EditorId) : LeavesBookmarks (Act.dropPages id)
  | disposeEditor (id : EditorId) : LeavesBookmarks (Act.disposeEditor id)
  | addForm (id : TabsId) (page : PageId) : LeavesBookmarks (Act.addForm id page)
  | addText (id : TabsId) (title : String) (page : PageId) : LeavesBookmarks (Act.addText id title page)
  | activate (id : TabsId) (index : Nat) : LeavesBookmarks (Act.activate id index)
  | showIndex (id : EditorId) (index : Nat) : LeavesBookmarks (Act.showIndex id index)
  | showPage (id : EditorId) (page : String) : LeavesBookmarks (Act.showPage id page)
  | showInitial (id : EditorId) (page : Option String) : LeavesBookmarks (Act.showInitial id page)
  | commitForms (id : EditorId) (onSave : Bool) : LeavesBookmarks (Act.commitForms id onSave)
  | reveal (id : EditorId) (start stop : Nat) : LeavesBookmarks (Act.reveal id start stop)

section

variable {h : Host σ}

/-- A page is remembered under the bookmark of its editor, or nothing is stored. -/
theorem rememberPage_storesSome (id : EditorId) (index : Nat) : Within StoresSome h (rememberPage id index) := by
  intro d
  by_cases hstores : d.Stores id
  · rw [rememberPage_of_stores hstores]
    cases hstore : (d.memory (d.editor id).memory).store (d.memoryKey id) (toString index) with
    | error cause => exact .of_same rfl rfl
    | ok kept =>
      by_cases hm : (d.editor id).memory < d.memories.length
      · exact ⟨_, .stored id index hstores hm hstore⟩
      · exact .of_same rfl (List.set_eq_of_length_le (Nat.le_of_not_lt hm))
  · rw [rememberPage_skips hstores]
    exact StoresSome.path.refl d

/-- An editor that shows a page stores under its own bookmark, and no other editor's bookmark says anything else
then. -/
theorem showIndex_marks {d : Desk σ} {id : EditorId} {index : Nat}
    (hd : d.RemembersUnder id (d.editor id).memory (d.memoryKey id)) (hplain : d.PlainIn (d.editor id).memory)
    (hindex : index < (d.editorTabs id).count) : ∃ e, showIndex id index h d = (.returned (.ok ()), e) ∧
      e.marked (d.bookmark id) = some (toString index) ∧
      ∀ i < d.editors.length, d.bookmark i ≠ d.bookmark id → e.marked (d.bookmark i) = d.marked (d.bookmark i) := by
  obtain ⟨e, hshow, hshows⟩ := showIndex_shows h hd.kept hindex
  cases hshows.stored with
  | skipped hskip _ _ => exact absurd ⟨hd.remembers, hd.created⟩ hskip
  | refused _ hreadOnly _ _ =>
    rw [hd.writable] at hreadOnly
    cases hreadOnly
  | stored _ _ hload hothers _ =>
    refine ⟨e, hshow, hload, fun i hi hother => hothers _ _ ?_⟩
    by_cases hmemory : (d.bookmark i).memory = (d.bookmark id).memory
    · exact .inr fun hkey =>
        hother (Bookmark.key_inj (hplain i hi hmemory) (hplain id hd.present rfl) hmemory hkey)
    · exact .inl hmemory

variable (hc : ∀ c, Within StoresSome h fun _ => h.answer c)

include hc

theorem call_storesSome (c : Callback) : Within StoresSome h (call c) :=
  call_within StoresSome.path (fun _ _ => .of_same rfl rfl) (fun _ _ => .of_same rfl rfl) hc c

theorem emit_storesSome (event : Event) : Keeps StoresSome.path.contract h (emit event) :=
  keeps_contract.2 fun _ => emit_within StoresSome.path
    (deliver_within StoresSome.path (call_storesSome hc) fun _ _ => .of_same rfl rfl) (.of_same rfl rfl)

theorem PageOp.storesSome {a : Act σ α} (ha : PageOp a) : Within StoresSome h a := by
  cases ha with
  | look f => exact .look StoresSome.path f
  | note n => exact fun _ => .of_same rfl rfl
  | update id =>
    exact (updateTabs_settles StoresSome.path id fun _ _ _ _ => StoresSome.of_same rfl rfl).within
  | clear id => exact fun _ => .of_same rfl rfl
  | remember id index => exact rememberPage_storesSome id index
  | ask => exact call_storesSome hc _

theorem pageOp_trusts (n : Nat) {Op : Actions σ}
    (hop : ∀ {β} {b : Act σ β}, Op b → Keeps StoresSome.path.contract h b) :
    Trusts n Op StoresSome.path.contract h :=
  .untoldSteps (fun _ _ hunjoined => hunjoined.untoldStep.storesSome) (emit_storesSome hc) n hop

theorem LeavesBookmarks.keeps {a : Act σ α} (ha : LeavesBookmarks a) : Keeps StoresSome.path.contract h a := by
  have hsame : ∀ d e : Desk σ, e.editors = d.editors → e.tabs = d.tabs → e.memories = d.memories → StoresSome d e :=
    fun _ _ heditors _ hmemories => .of_same heditors hmemories
  have hrelay (id : EditorId) (d : Desk σ) (relay : Option RelayId) :
      StoresSome d (d.withEditor id fun e => { e with relay }) :=
    ⟨[], .sameBookmarks (.withEditor (g := fun e => { e with relay }) (fun _ => ⟨rfl, rfl, rfl⟩) d id)⟩
  have hop : Trusts 0 (fun b => Keeps StoresSome.path.contract h b) StoresSome.path.contract h :=
    pageOp_trusts hc 0 fun hb => hb
  have hpageOp {β : Type} {b : Act σ β} (hb : PageOp b) : Keeps StoresSome.path.contract h b :=
    keeps_contract.2 (hb.storesSome hc)
  have hpage {β : Type} {b : Act σ β} (hb : Caller 0 PageOp b) : Keeps StoresSome.path.contract h b :=
    (hb.mono fun hb => .op (hpageOp hb)).keeps hop
  cases ha with
  | hand ha =>
    exact ha.untoldStep (fun _ _ huntold => huntold.storesSome) (emit_storesSome hc)
      fun _ _ _ _ _ => .of_same rfl rfl
  | arrange hf => exact .change fun d => ⟨[], .sameBookmarks (hf d)⟩
  | attach o => exact keeps_contract.2 (attach_aside StoresSome.path hsame (call_storesSome hc) o)
  | detach id => exact keeps_contract.2 (detach_aside StoresSome.path hsame id)
  | letGo r => exact keeps_contract.2 (letGo_aside StoresSome.path hsame hrelay r)
  | makeEditor name project settings memory => exact fun d => ⟨[], .sameBookmarks (.made rfl rfl)⟩
  | openEditor id forms text =>
    have hcreating (creating : Bool) : Keeps StoresSome.path.contract h (setCreating id creating) :=
      .change fun d =>
        ⟨[], .sameBookmarks (.withEditor (g := fun e => { e with creating }) (fun _ => ⟨rfl, rfl, rfl⟩) d id)⟩
    have hfollow := followModel_aside id StoresSome.path hsame (call_storesSome hc) (hrelay id)
    exact (PageOp.openEditor (fun hb => .op (hpageOp hb)) (fun creating => .op (hcreating creating))
      (.op (keeps_contract.2 hfollow)) forms text).keeps hop
  | dropPages id => exact hpage (PageOp.dropPages id)
  | disposeEditor id => exact keeps_contract.2 (disposeEditor_aside id StoresSome.path hsame (hrelay id))
  | addForm id page => exact hpage (PageOp.addForm id page)
  | addText id title page => exact hpage (PageOp.addText id title page)
  | activate id index => exact hpage (PageOp.activate id index)
  | showIndex id index => exact hpage (PageOp.showIndex id index)
  | showPage id page => exact hpage (PageOp.showPage id page)
  | showInitial id page => exact hpage (PageOp.showInitial id page)
  | commitForms id onSave => exact hpage (PageOp.commitForms id onSave)
  | reveal id start stop => exact hpage (PageOp.reveal id start stop)

end

end Act

namespace Host.Callers

variable {n : Nat} {h : Host σ} {a : Act σ α}

/-- Whatever is done with editors, what is stored meanwhile is stored under their bookmarks. -/
theorem storesSome (hh : h.Callers n Act.LeavesBookmarks) (ha : Act.Caller n Act.LeavesBookmarks a) (d : Desk σ) :
    d.StoresSome (a h d).2 :=
  Act.keeps_contract.1 (hh.keeps (fun _ hk => Act.pageOp_trusts (fun c => Act.keeps_contract.1 (hk c)) n
    fun hop => hop.keeps fun c => Act.keeps_contract.1 (hk c)) ha) d

end Host.Callers

/-- **Two pairs of a kind and a resource have one key just when they are the same pair or one overlaps the
other.** So editors of kinds in which the separator does not stand do not get into each other's way: when one of
them shows a page, its bookmark says so and no other one changes; and whatever is done with editors, what such a
bookmark says in the end is what was stored last under this very bookmark, or what it said before. -/
theorem bookmarks_apart :
    (∀ (s s' : Settings) (resource resource' : String), s.memoryKey resource = s'.memoryKey resource' ↔
      (s.kind = s'.kind ∧ resource = resource') ∨ Overlaps s.kind resource s'.kind resource' ∨
        Overlaps s'.kind resource' s.kind resource) ∧
    (∀ (h : Host σ) (d : Desk σ) (id : EditorId) (index : Nat),
      d.RemembersUnder id (d.editor id).memory (d.memoryKey id) →
      d.PlainIn (d.editor id).memory → index < (d.editorTabs id).count →
        ∃ e, Act.showIndex id index h d = (.returned (.ok ()), e) ∧
          e.marked (d.bookmark id) = some (toString index) ∧
          ∀ i < d.editors.length, d.bookmark i ≠ d.bookmark id → e.marked (d.bookmark i) = d.marked (d.bookmark i)) ∧
    ∀ {n : Nat} {h : Host σ} {a : Act σ α} (d : Desk σ),
      h.Callers n Act.LeavesBookmarks → Act.Caller n Act.LeavesBookmarks a →
      ∃ w, d.StoredBetween w (a h d).2 ∧ (∀ id < d.editors.length, (a h d).2.bookmark id = d.bookmark id) ∧
        ∀ b : Bookmark, PlainKind b.kind → (a h d).2.PlainIn b.memory →
          (a h d).2.marked b = ((w.lookup b).map toString).or (d.marked b) ∧
          ∀ id, (a h d).2.bookmark id = b → ∀ page,
            let e := (a h d).2.editor id
            Act.initialChoice id page h (a h d).2 = (.returned (page <|>
              (if e.settings.remembers then ((w.lookup b).map toString).or (d.marked b) else none) <|>
                e.settings.defaultPage), (a h d).2) := by
  refine ⟨fun _ _ _ _ => Settings.memoryKey_eq_iff,
    fun h d id index hd hplain hindex => Act.showIndex_marks hd hplain hindex, fun {n h a} d hh ha => ?_⟩
  obtain ⟨w, hw⟩ := hh.storesSome ha d
  refine ⟨w, hw, fun id hid => (hw.editors hid).2, fun b hb hplain => ?_⟩
  have hstored := (hw.plain hplain).2
  have hmarked := hw.marked fun x hx hmemory => Bookmark.key_inj (hstored x hx hmemory) hb hmemory
  refine ⟨hmarked, fun id hid page => ?_⟩
  rw [← hmarked, ← hid]
  rfl

/-- Three editors share a memory. While one of them shows its text, its page turns a page of another one. -/
theorem bookmarks_apart_shared :
    let pages : Tabs := { entries := [⟨"a", "A", .form, 0⟩, ⟨textTabId, "Source", .text, 1⟩], active := some 0 }
    let d : Desk Unit :=
      { model := { document := some "d", location := "l" }
        tabs := [pages, pages, pages]
        memories := [{}]
        editors := [{ name := "f", settings := { kind := "A" }, coordinator := 0, tabs := 0, memory := 0 },
          { name := "f", settings := { kind := "B" }, coordinator := 0, tabs := 1, memory := 0 },
          { name := "g", settings := { kind := "A" }, coordinator := 0, tabs := 2, memory := 0 }]
        client := () }
    let h : Host Unit := .answering do let _ ← Act.showIndex 1 0
    let a : Act Unit Bool := do
      let _ ← Act.showIndex 0 1
      let _ ← Act.showIndex 1 1
      Act.reveal 2 0 1
    (d.RemembersUnder 1 0 (d.memoryKey 1) ∧ d.PlainIn 0 ∧ 1 < (d.editorTabs 1).count ∧
      ∃ e, Act.showIndex 1 1 h d = (.returned (.ok ()), e) ∧ e.marked ⟨0, "B", "f"⟩ = some "1" ∧
        e.marked ⟨0, "A", "f"⟩ = none) ∧
    h.Callers 0 Act.LeavesBookmarks ∧ Act.Caller 0 Act.LeavesBookmarks a ∧ (a h d).2.PlainIn 0 ∧
      (∃ w, d.StoredBetween w (a h d).2 ∧ ∀ b ∈ [⟨0, "A", "f"⟩, ⟨0, "B", "f"⟩, ⟨0, "A", "g"⟩],
        (a h d).2.marked b = ((w.lookup b).map toString).or (d.marked b)) ∧
      (a h d).2.marked ⟨0, "A", "f"⟩ = some "1" ∧ (a h d).2.marked ⟨0, "B", "f"⟩ = some "0" ∧
      (a h d).2.marked ⟨0, "A", "g"⟩ = some "1" := by
  intro pages d h a
  have hh : h.Callers 0 Act.LeavesBookmarks := .answering (.bind (.op (.showIndex 1 0)) fun _ => .pure ())
  have ha : Act.Caller 0 Act.LeavesBookmarks a :=
    .bind (.op (.showIndex 0 1)) fun _ => .bind (.op (.showIndex 1 1)) fun _ => .op (.reveal 2 0 1)
  have hplain : d.PlainIn 0 ∧ (a h d).2.PlainIn 0 := by
    unfold Desk.PlainIn
    decide +kernel
  have hunder : d.RemembersUnder 1 0 (d.memoryKey 1) := ⟨by decide, rfl, rfl, rfl, rfl, by decide, rfl⟩
  obtain ⟨-, hshown, hrun⟩ := bookmarks_apart (σ := Unit) (α := Bool)
  obtain ⟨e, hshow, hmarked, hother⟩ := hshown h d 1 1 hunder hplain.1 (by decide)
  obtain ⟨w, hw, -, hapart⟩ := hrun d hh ha
  refine ⟨⟨hunder, hplain.1, by decide, e, hshow, hmarked, (hother 0 (by decide) (by decide)).trans (by decide)⟩,
    hh, ha, hplain.2, ⟨w, hw, fun b hb => ?_⟩, by decide +kernel, by decide +kernel, by decide +kernel⟩
  have hmemory : ∀ b ∈ [(⟨0, "A", "f"⟩ : Bookmark), ⟨0, "B", "f"⟩, ⟨0, "A", "g"⟩],
      b.memory = 0 ∧ PlainKind b.kind := by decide +kernel
  obtain ⟨hzero, hkind⟩ := hmemory b hb
  exact (hapart b hkind (hzero ▸ hplain.2)).1

end FormDesk
