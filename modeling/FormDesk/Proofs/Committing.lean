/-
Pages that commit. The form pages of an editor have their turns one after another, those
that are there at the beginning; a page commits just when it has changes as its turn comes
(`Act.HasTurn`). What a client does while its page commits decides that for the later ones,
and may change the very tabs, or let pages commit once more: who has a turn does not
depend on it.

Either every page has its turn, or one does not return from its commit and ends it
(`Act.commitEach_commits`). The main theorem is `Act.commitForms_turns`.
-/
import FormDesk.Proofs.Rows

namespace FormDesk

namespace Act

variable {σ : Type}

/-! ## Turns -/

/-- A page has its turn between the two desks: if it has changes then, it commits and returns from that, and otherwise
it is passed over. -/
inductive HasTurn (h : Host σ) (onSave : Bool) : Desk σ → PageId × Bool → Desk σ → Prop
  | commits {d e page} : (d.page page).dirty = true → call (.pageCommit page onSave) h d = (.returned (), e) →
      HasTurn h onSave d (page, true) e
  | passes {d page} : (d.page page).dirty = false → HasTurn h onSave d (page, false) d

/-- Pages have their turns between the two desks, one after another. -/
inductive Turns (h : Host σ) (onSave : Bool) : Desk σ → List (PageId × Bool) → Desk σ → Prop
  | done {d} : Turns h onSave d [] d
  | next {d e f turn turns} : HasTurn h onSave d turn e → Turns h onSave e turns f →
      Turns h onSave d (turn :: turns) f

/-- What comes of letting pages commit in turn. -/
inductive Commits (h : Host σ) (onSave : Bool) (pages : List PageId) (d : Desk σ) : Outcome Nat × Desk σ → Prop
  /-- Each has its turn, and those are counted that committed. -/
  | all {turns e} : Turns h onSave d turns e → turns.map (·.1) = pages →
      Commits h onSave pages d (.returned (turns.countP (·.2)), e)
  /-- One does not return, and those behind it have no turn. -/
  | stopped {turns e page rest ended f} : Turns h onSave d turns e → pages = turns.map (·.1) ++ page :: rest →
      (e.page page).dirty = true → call (.pageCommit page onSave) h e = (ended, f) → ended ≠ .returned () →
      Commits h onSave pages d (ended.map fun _ => 0, f)

section

variable {h : Host σ} {onSave : Bool} {d e f : Desk σ} {page : PageId} {turn turn' : PageId × Bool}

theorem HasTurn.dirty (hturn : HasTurn h onSave d turn e) : turn.2 = (d.page turn.1).dirty := by
  cases hturn with
  | commits hdirty => exact hdirty.symm
  | passes hclean => exact hclean.symm

/-- What comes of a page's turn is determined by where it begins. -/
theorem HasTurn.det (hturn : HasTurn h onSave d turn e) (hturn' : HasTurn h onSave d turn' f)
    (hpage : turn'.1 = turn.1) : turn' = turn ∧ f = e := by
  have hsame : turn' = turn := Prod.ext hpage (by rw [hturn.dirty, hturn'.dirty, hpage])
  refine ⟨hsame, ?_⟩
  subst hsame
  cases hturn with
  | commits _ hcall =>
    cases hturn' with
    | commits _ hcall' => exact congrArg Prod.snd (hcall'.symm.trans hcall)
  | passes =>
    cases hturn'
    rfl

/-- Whoever has a turn has it after those before it, and all that these came to. -/
theorem Turns.split {before turns : List (PageId × Bool)} (hturns : Turns h onSave d (before ++ turns) f) :
    ∃ e, Turns h onSave d before e ∧ Turns h onSave e turns f := by
  induction before generalizing d with
  | nil => exact ⟨d, .done, hturns⟩
  | cons turn before ih =>
    cases hturns with
    | next hturn hrest =>
      obtain ⟨e, hbefore, hlater⟩ := ih hrest
      exact ⟨e, .next hturn hbefore, hlater⟩

/-- The same pages have the same turns, and these come to the same. -/
theorem Turns.det {turns turns' : List (PageId × Bool)} (hturns : Turns h onSave d turns e)
    (hturns' : Turns h onSave d turns' f) (hpages : turns'.map (·.1) = turns.map (·.1)) : turns' = turns ∧ f = e := by
  induction hturns generalizing turns' with
  | done =>
    obtain rfl := List.map_eq_nil_iff.1 hpages
    cases hturns'
    exact ⟨rfl, rfl⟩
  | next hturn _ ih =>
    cases hturns' with
    | done => cases hpages
    | next hturn' hrest =>
      obtain ⟨hpage, hothers⟩ := List.cons.inj hpages
      obtain ⟨rfl, rfl⟩ := hturn.det hturn' hpage
      obtain ⟨rfl, rfl⟩ := ih hrest hothers
      exact ⟨rfl, rfl⟩

/-! ## Letting pages commit -/

variable {rest : List PageId}

theorem commitEach_passes (hclean : (d.page page).dirty = false) :
    commitEach onSave (page :: rest) h d = commitEach onSave rest h d := by
  simp only [commitEach, look_bind, hclean, Bool.false_eq_true, if_false]

theorem commitEach_calls (hdirty : (d.page page).dirty = true) : commitEach onSave (page :: rest) h d =
    (call (.pageCommit page onSave) >>= fun _ => commitEach onSave rest >>= fun n => pure (n + 1)) h d := by
  simp only [commitEach, look_bind, hdirty, if_true]

/-- The turn of a page goes before whatever comes of the others, and counts if the page commits. -/
theorem Commits.after {result : Outcome Nat × Desk σ} (hturn : HasTurn h onSave d turn e)
    (hrest : Commits h onSave rest e result) :
    Commits h onSave (turn.1 :: rest) d (result.1.map (· + if turn.2 then 1 else 0), result.2) := by
  cases hrest with
  | all hturns hpages =>
    have hall := Commits.all (.next hturn hturns) (congrArg (turn.1 :: ·) hpages)
    rwa [List.countP_cons] at hall
  | @stopped _ _ _ _ ended _ hturns hpages hdirty hcall hended =>
    have hstopped := Commits.stopped (.next hturn hturns) (congrArg (turn.1 :: ·) hpages) hdirty hcall hended
    cases ended with
    | returned => exact absurd rfl hended
    | interrupted | fatal => exact hstopped

/-- **Every page has its turn, as far as those before it return from their commits.** -/
theorem commitEach_commits (h : Host σ) (onSave : Bool) :
    ∀ (pages : List PageId) (d : Desk σ), Commits h onSave pages d (commitEach onSave pages h d)
  | [], d => .all .done rfl
  | page :: rest, d => by
    cases hdirty : (d.page page).dirty with
    | false =>
      have hrest := (commitEach_commits h onSave rest d).after (.passes hdirty)
      rw [commitEach_passes hdirty]
      rcases hrun : commitEach onSave rest h d with ⟨outcome, e⟩
      rw [hrun] at hrest
      cases outcome <;> exact hrest
    | true =>
      rw [commitEach_calls hdirty]
      rcases hcall : call (.pageCommit page onSave) h d with ⟨ended, e⟩
      cases ended with
      | returned =>
        have hrest := (commitEach_commits h onSave rest e).after (.commits hdirty hcall)
        rw [bind_run hcall]
        rcases hrun : commitEach onSave rest h e with ⟨outcome, f⟩
        rw [hrun] at hrest
        cases outcome with
        | returned n => rwa [bind_run hrun]
        | interrupted message => rwa [bind_interrupted hrun]
        | fatal => rwa [bind_fatal hrun]
      | interrupted message =>
        rw [bind_interrupted hcall]
        exact .stopped .done rfl hdirty hcall nofun
      | fatal =>
        rw [bind_fatal hcall]
        exact .stopped .done rfl hdirty hcall nofun

/-- Where no commit is interrupted, every form page of an editor has its turn. -/
theorem commitForms_all (hreturns : ∀ page d, ∃ e, h.answer (.pageCommit page onSave) d = (.returned (), e))
    (id : EditorId) (d : Desk σ) : ∃ turns e, commitForms id onSave h d = (.returned (turns.countP (·.2)), e) ∧
      Turns h onSave d turns e ∧ turns.map (·.1) = (d.editorTabs id).ofKind .form := by
  have hcommits : Commits h onSave ((d.editorTabs id).ofKind .form) d (commitForms id onSave h d) :=
    commitEach_commits h onSave _ d
  rcases hrun : commitForms id onSave h d with ⟨outcome, e⟩
  rw [hrun] at hcommits
  cases hcommits with
  | all hturns hpages => exact ⟨_, e, rfl, hturns, hpages⟩
  | @stopped _ e page _ ended _ _ _ _ hstop hended =>
    obtain ⟨f, hanswer⟩ := hreturns page (e.enter (.told (.pageCommit page onSave) e.model.document))
    simp only [call, hanswer, Prod.mk.injEq] at hstop
    exact absurd hstop.1.symm hended

/-- **The form pages of an editor have their turns to commit, each once and in order**, when no commit is interrupted;
the text page has none. A page commits just when it has changes as its turn comes, whatever its editor and the other
pages went through because of the commits before, and it is only these commits that are counted. Nothing but the turns
has happened in the end. -/
theorem commitForms_turns (hreturns : ∀ page d, ∃ e, h.answer (.pageCommit page onSave) d = (.returned (), e))
    (id : EditorId) (d : Desk σ) : ∃ turns texts e,
      Tabs.Parted (d.editorTabs id).entries (turns.map (·.1)) texts ∧ Turns h onSave d turns e ∧
      commitForms id onSave h d = (.returned (turns.countP (·.2)), e) ∧
      (∀ before page committed after, turns = before ++ (page, committed) :: after →
        ∃ f, Turns h onSave d before f ∧ committed = (f.page page).dirty) ∧
      ∀ turns' f, Turns h onSave d turns' f → turns'.map (·.1) = turns.map (·.1) → turns' = turns ∧ f = e := by
  obtain ⟨turns, e, hrun, hturns, hpages⟩ := commitForms_all hreturns id d
  refine ⟨turns, _, e, hpages ▸ Tabs.parted_ofKind _, hturns, hrun, fun before page committed after hsplit => ?_,
    fun _ _ hturns' hsame => hturns.det hturns' hsame⟩
  obtain ⟨f, hbefore, hlater⟩ := (hsplit ▸ hturns).split
  cases hlater with
  | next hturn => exact ⟨f, hbefore, hturn.dirty⟩

end

/-- The first page lets all pages commit once more while it commits; then it has no changes any more, nor has the second
one, but the third one has; the model is rebuilt, and all pages are removed. -/
theorem commitForms_turns_changing :
    let pages (first second third : Bool) : List Page :=
      [⟨"a", "A", first⟩, ⟨"b", "B", second⟩, ⟨"c", "C", third⟩, ⟨"t", "T", true⟩]
    let a : Act Unit Unit := do
      let _ ← commitForms 0 true
      change fun d => { d with pages := pages false false true }
      rebuild "e"
      let _ ← activate 0 3
      dropPages 0
    let h : Host Unit :=
      { answer := fun c => match c with
          | .pageCommit 0 _ => a .silent
          | c => Host.silent.answer c
        note := fun _ s => s }
    let d : Desk Unit :=
      { model := { document := some "d", location := "l" }
        tabs := [{
          entries := [⟨"a", "A", .form, 0⟩, ⟨"b", "B", .form, 1⟩, ⟨textTabId, "Source", .text, 3⟩, ⟨"c", "C", .form, 2⟩]
          active := some 0 }]
        pages := pages true true false
        editors := [{ name := "f", coordinator := 0, tabs := 0, memory := 0 }]
        client := () }
    (∀ page d, ∃ e, h.answer (.pageCommit page true) d = (.returned (), e)) ∧
    ∃ turns texts e, Tabs.Parted (d.editorTabs 0).entries (turns.map (·.1)) texts ∧ Turns h true d turns e ∧
      commitForms 0 true h d = (.returned 2, e) ∧ turns.countP (·.2) = 2 ∧ (e.editorTabs 0).count = 0 ∧
      e.history.toList.countP (· matches .told (.pageCommit ..) _) = 4 := by
  intro pages a h d
  have hcommit : Ends .silent (commitForms 0 true : Act Unit Nat) := by
    intro d
    obtain ⟨turns, e, hrun, -⟩ := commitForms_all (h := .silent) (fun _ d => ⟨d, rfl⟩) 0 d
    exact ⟨_, e, hrun, trivial⟩
  have hrebuild : Ends .silent (rebuild "e" : Act Unit Unit) :=
    .bind (.emit .silent _) fun _ => .bind (.change _) fun _ => .emit .silent _
  have hactivate : Ends .silent (activate 0 3 : Act Unit _) :=
    activate_settles Ends.anywhere (fun _ _ _ => trivial) 0 3
  have hends : Ends .silent a :=
    .bind hcommit fun _ => .bind (.change _) fun _ => .bind hrebuild fun _ => .bind hactivate fun _ =>
      .bind (.look _) fun tabs => .change _
  have hreturns : ∀ page d, ∃ e, h.answer (.pageCommit page true) d = (.returned (), e) := by
    intro page d
    cases page with
    | zero =>
      obtain ⟨_, e, hrun⟩ := hends.run d
      exact ⟨e, hrun⟩
    | succ page => exact ⟨d, rfl⟩
  have hrun : (commitForms 0 true h d).1 = .returned 2 := by decide +kernel
  have hleft : ((commitForms 0 true h d).2.editorTabs 0).count = 0 ∧
      (commitForms 0 true h d).2.history.toList.countP (· matches .told (.pageCommit ..) _) = 4 := by decide +kernel
  obtain ⟨turns, texts, e, hparted, hturns, heq, -⟩ := commitForms_turns hreturns 0 d
  rw [heq] at hrun hleft
  have hcount := Outcome.returned.inj hrun
  exact ⟨hreturns, turns, texts, e, hparted, hturns, heq.trans (by rw [hcount]), hcount, hleft⟩

end Act

end FormDesk
