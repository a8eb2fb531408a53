/-
The nesting of edit sessions: a counter of brackets with a share in its hands.
`Sessions.Worked` says what is done with it from idle on, in any order and also
in vain: sessions are opened when none is open, nested in each other and left.

Two equations hold along all of that (`Sessions.Tracked`): the sessions that
were entered are the ones still open and the ones that were left, and the shares
that were taken are the ones handed back and the one at hand. One step keeps them,
whichever it is, and so does a run (`Worked.tracked`).

The main theorem is `Sessions.Worked.hands_back`.
-/
import FormDesk.Session.Depth

namespace FormDesk

/-- Whether the answer says that a session was left. -/
def SessionAnswer.leaves : SessionAnswer → Bool
  | left .underflow => false
  | left _ => true
  | _ => false

/-- The share that the answer hands back. -/
def SessionAnswer.handedBack? : SessionAnswer → Option Share
  | left (.outermost share) => some share
  | _ => none

namespace Sessions

/-- What was done since the state was new: the shares that sessions were opened around, and all answers, in
order. -/
inductive Worked : List Share → List SessionAnswer → Sessions → Prop
  | fresh : Worked [] [] idle
  | opened {shares answers} (share : Share) : Worked shares answers idle →
      Worked (shares ++ [share]) (answers ++ [.started]) (opened share)
  | nested {shares answers s deeper} : Worked shares answers s → s.depth < maxDepth → s.nest? = some deeper →
      Worked shares (answers ++ [.nested true]) deeper
  | refused {shares answers s} : Worked shares answers s → s.nest? = none →
      Worked shares (answers ++ [.nested false]) s
  | left {shares answers s} : Worked shares answers s →
      Worked shares (answers ++ [.left s.leave.1]) s.leave.2

variable {shares : List Share} {answers : List SessionAnswer} {s deeper : Sessions}

/-! ## One step -/

theorem isActive_iff : s.isActive ↔ 0 < s.depth := by
  cases s <;> simp [isActive, depth]

theorem isSome_share? : s.share?.isSome = s.isActive := by
  cases s <;> rfl

theorem isSome_nest? : s.nest?.isSome = s.isActive := by
  cases s <;> rfl

theorem share?_nest? (hnest : s.nest? = some deeper) : deeper.share? = s.share? := by
  cases s with
  | idle => nomatch hnest
  | active inner share =>
    obtain rfl := Option.some.inj hnest
    rfl

theorem depth_nest? (hroom : s.depth < maxDepth) (hnest : s.nest? = some deeper) :
    deeper.depth = s.depth + 1 := by
  cases s with
  | idle => nomatch hnest
  | active inner share =>
    obtain rfl := Option.some.inj hnest
    have hroom : inner + 1 < maxDepth := hroom
    have hbound : inner + 1 ≤ maxDepth - 1 := by omega
    exact congrArg (· + 1) (Nat.min_eq_left hbound)

theorem leave_idle (hidle : s.depth = 0) : s.leave = (.underflow, s) := by
  cases s with
  | idle => rfl
  | active inner share => nomatch hidle

theorem leave_outermost (houtermost : s.depth = 1) :
    ∃ share, s.share? = some share ∧ s.leave = (.outermost share, idle) := by
  match s, houtermost with
  | active 0 share, _ => exact ⟨share, rfl, rfl⟩

theorem leave_nested (hnested : 1 < s.depth) :
    s.leave.1 = .nested (s.depth - 1) ∧ s.leave.2.depth = s.depth - 1 ∧ s.leave.2.share? = s.share? := by
  match s, hnested with
  | active (inner + 1) share, _ => exact ⟨rfl, rfl, rfl⟩

/-- Leaving takes one session off the open ones, if there is one. -/
theorem depth_leave (s : Sessions) :
    s.leave.2.depth + [SessionAnswer.left s.leave.1].countP (·.leaves) = s.depth := by
  match s with
  | idle => rfl
  | active 0 share => rfl
  | active (inner + 1) share => rfl

/-- The share at hand is handed back or stays at hand. -/
theorem share?_leave (s : Sessions) :
    [SessionAnswer.left s.leave.1].filterMap (·.handedBack?) ++ s.leave.2.share?.toList = s.share?.toList := by
  match s with
  | idle => rfl
  | active 0 share => rfl
  | active (inner + 1) share => rfl

/-! ## Runs -/

/-- What the state is to the answers that led to it. -/
structure Tracked (shares : List Share) (answers : List SessionAnswer) (s : Sessions) : Prop where
  /-- The sessions that were opened or nested are open still, or were left. -/
  entered : s.depth + answers.countP (·.leaves) = shares.length + answers.count (.nested true)
  /-- The shares were handed back in their order, but for the one at hand. -/
  handed : shares = answers.filterMap (·.handedBack?) ++ s.share?.toList

namespace Tracked

/-- An answer is tracked when what it enters and leaves is the change in depth, and what it takes and hands back
the change of the share at hand. -/
theorem append (ht : Tracked shares answers s) (new : List Share) {a : SessionAnswer} {s' : Sessions}
    (hdepth : s'.depth + [a].countP (·.leaves) = s.depth + new.length + [a].count (.nested true))
    (hshare : s.share?.toList ++ new = [a].filterMap (·.handedBack?) ++ s'.share?.toList) :
    Tracked (shares ++ new) (answers ++ [a]) s' := by
  obtain ⟨hentered, hhanded⟩ := ht
  constructor
  · rw [List.countP_append, List.count_append, List.length_append]
    omega
  · rw [hhanded, List.append_assoc, hshare, List.filterMap_append, List.append_assoc]

theorem opened (ht : Tracked shares answers idle) (share : Share) :
    Tracked (shares ++ [share]) (answers ++ [.started]) (opened share) :=
  ht.append [share] rfl rfl

theorem nested (ht : Tracked shares answers s) (hroom : s.depth < maxDepth) (hnest : s.nest? = some deeper) :
    Tracked shares (answers ++ [.nested true]) deeper := by
  have hshare : s.share?.toList ++ [] = deeper.share?.toList := by rw [share?_nest? hnest, List.append_nil]
  have hstep := ht.append [] (a := .nested true) (depth_nest? hroom hnest) hshare
  rwa [List.append_nil] at hstep

theorem refused (ht : Tracked shares answers s) : Tracked shares (answers ++ [.nested false]) s := by
  have hstep := ht.append [] (a := .nested false) rfl (List.append_nil _)
  rwa [List.append_nil] at hstep

theorem left (ht : Tracked shares answers s) :
    Tracked shares (answers ++ [.left s.leave.1]) s.leave.2 := by
  have hstep := ht.append [] (depth_leave s) ((List.append_nil _).trans (share?_leave s).symm)
  rwa [List.append_nil] at hstep

end Tracked

theorem Worked.tracked (hw : Worked shares answers s) : Tracked shares answers s := by
  induction hw with
  | fresh => exact ⟨rfl, rfl⟩
  | opened share _ ih => exact ih.opened share
  | nested _ hroom hnest ih => exact ih.nested hroom hnest
  | refused _ _ ih => exact ih.refused
  | left _ ih => exact ih.left

/-! ## Words of moves -/

/-- The moves that a state is meant for: a start when no session is open, and no session beyond the bound. -/
def Permits (s : Sessions) : SessionMove → Prop
  | .start => s = idle
  | .nest => s.depth < maxDepth
  | .leave => True

instance (s : Sessions) (m : SessionMove) : Decidable (s.Permits m) :=
  match m with
  | .start => inferInstanceAs (Decidable (s = idle))
  | .nest => inferInstanceAs (Decidable (s.depth < maxDepth))
  | .leave => .isTrue trivial

/-- Each of the moves is permitted where it is made. -/
def PermitsAll (next : Nat) (s : Sessions) : List SessionMove → Prop
  | [] => True
  | m :: rest => s.Permits m ∧ (s.move next m).2.2.PermitsAll (s.move next m).2.1 rest

instance decidablePermitsAll (next : Nat) (s : Sessions) :
    (moves : List SessionMove) → Decidable (s.PermitsAll next moves)
  | [] => .isTrue trivial
  | m :: rest =>
    have := decidablePermitsAll (s.move next m).2.1 (s.move next m).2.2 rest
    inferInstanceAs (Decidable (_ ∧ _))

/-- The shares that so many starts take, numbered from `next` on. -/
def sharesFrom (next starts : Nat) : List Share := (List.range' next starts).map (⟨·, .edit⟩)

theorem Worked.move (hw : Worked shares answers s) (next : Nat) {m : SessionMove} (hm : s.Permits m) :
    Worked (shares ++ sharesFrom next ([m].count .start)) (answers ++ [(s.move next m).1]) (s.move next m).2.2 ∧
    (s.move next m).2.1 = next + [m].count .start := by
  cases m with
  | start =>
    obtain rfl := hm
    exact ⟨hw.opened _, rfl⟩
  | nest =>
    have hnone : sharesFrom next ([SessionMove.nest].count .start) = [] := rfl
    rw [hnone, List.append_nil]
    cases hnest : s.nest? with
    | none =>
      simp only [Sessions.move, hnest]
      exact ⟨hw.refused hnest, rfl⟩
    | some deeper =>
      simp only [Sessions.move, hnest]
      exact ⟨hw.nested hm hnest, rfl⟩
  | leave =>
    have hnone : sharesFrom next ([SessionMove.leave].count .start) = [] := rfl
    rw [hnone, List.append_nil]
    exact ⟨hw.left, rfl⟩

/-- A word of moves that are permitted where they are made is among what can be done with a state. -/
theorem Worked.trail (hw : Worked shares answers s) {next : Nat} {moves : List SessionMove}
    (hmoves : s.PermitsAll next moves) :
    Worked (shares ++ sharesFrom next (moves.count .start)) (answers ++ (s.trail next moves).map (·.1))
      (((s.trail next moves).map (·.2)).getLastD s) := by
  induction moves generalizing shares answers s next with
  | nil => simpa [sharesFrom, Sessions.trail] using hw
  | cons m rest ih =>
    obtain ⟨hfirst, hnext⟩ := hw.move next hmoves.1
    have hrest := ih hfirst hmoves.2
    have hshares : sharesFrom next ((m :: rest).count .start) =
        sharesFrom next ([m].count .start) ++ sharesFrom (s.move next m).2.1 (rest.count .start) := by
      rw [hnext, sharesFrom, sharesFrom, sharesFrom, ← List.map_append, List.range'_append_1,
        ← List.count_append, List.singleton_append]
    have htrail : s.trail next (m :: rest) = ((s.move next m).1, (s.move next m).2.2) ::
        (s.move next m).2.2.trail (s.move next m).2.1 rest := rfl
    rw [hshares, htrail, List.map_cons, List.map_cons, List.getLastD_cons, List.append_cons, ← List.append_assoc]
    exact hrest

/-! ## What a run comes to -/

/-- The share at hand is the one of the latest session that was opened. -/
theorem Tracked.latest (ht : Tracked shares answers s) :
    s.share? = if s.isActive then shares.getLast? else none := by
  have hhanded := ht.handed
  cases s with
  | idle => rfl
  | active inner share => simp [hhanded, share?, isActive]

/-- If the shares are distinct, each one is handed back at most once, and once if it is not at hand any more. -/
theorem Tracked.count_handedBack (ht : Tracked shares answers s) (hdistinct : shares.Nodup) {share : Share}
    (htaken : share ∈ shares) :
    (answers.filterMap (·.handedBack?)).count share ≤ 1 ∧
    (s.share? ≠ some share → (answers.filterMap (·.handedBack?)).count share = 1) := by
  have hhanded := ht.handed
  have hone : shares.count share = 1 := by rw [hdistinct.count, if_pos htaken]
  rw [hhanded, List.count_append] at hone
  refine ⟨by omega, fun hreturned => ?_⟩
  have hhand : s.share?.toList.count share = 0 :=
    List.count_eq_zero.2 fun hmem => hreturned (Option.mem_toList.1 hmem)
  omega

/-- **Edit sessions nest, and hand their share back.** Let sessions be opened while none is open, nested and
left, in any order and also in vain. Then so many are open as were opened and nested and not left, and the share
at hand is the one of the session opened last. The shares are handed back in the order of their sessions, all
but the one at hand; so each one is, if they are distinct, handed back at most once, and exactly once if its
session is closed. -/
theorem Worked.hands_back (hw : Worked shares answers s) :
    (s.depth + answers.countP (·.leaves) = shares.length + answers.count (.nested true)) ∧
    (s.isActive ↔ 0 < s.depth) ∧
    (s.share?.isSome = s.isActive ∧ s.share? = if s.isActive then shares.getLast? else none) ∧
    s.nest?.isSome = s.isActive ∧
    ((s.leave.1 = .underflow ↔ ¬ s.isActive) ∧ (¬ s.isActive → s.leave.2 = s)) ∧
    (1 < s.depth → s.leave.1 = .nested (s.depth - 1) ∧
      s.leave.2.depth = s.depth - 1 ∧ s.leave.2.share? = s.share?) ∧
    (s.depth = 1 → ∃ share, s.share? = some share ∧ s.leave = (.outermost share, idle)) ∧
    shares = answers.filterMap (·.handedBack?) ++ s.share?.toList ∧
    (shares.Nodup → ∀ share ∈ shares,
      (answers.filterMap (·.handedBack?)).count share ≤ 1 ∧
      (s.share? ≠ some share → (answers.filterMap (·.handedBack?)).count share = 1)) := by
  have ht := hw.tracked
  have hidle (hclosed : ¬ s.isActive) : s.leave = (.underflow, s) :=
    leave_idle (Nat.eq_zero_of_not_pos fun hopen => hclosed (isActive_iff.2 hopen))
  have hunderflow (hanswer : s.leave.1 = .underflow) : ¬ s.isActive := fun hactive => by
    obtain houtermost | hnested := Nat.eq_or_lt_of_le (isActive_iff.1 hactive)
    · obtain ⟨share, -, hleave⟩ := leave_outermost houtermost.symm
      simp [hleave] at hanswer
    · simp [(leave_nested hnested).1] at hanswer
  exact ⟨ht.entered, isActive_iff, ⟨isSome_share?, ht.latest⟩, isSome_nest?,
    ⟨⟨hunderflow, fun hclosed => by rw [hidle hclosed]⟩, fun hclosed => by rw [hidle hclosed]⟩,
    leave_nested, leave_outermost, ht.handed, fun hdistinct _ => ht.count_handedBack hdistinct⟩

/-- Two sessions after each other, the first with one inside and left once too often. -/
theorem Worked.hands_back_twice :
    let moves : List SessionMove := [.start, .nest, .leave, .leave, .leave, .nest, .start, .nest]
    let answers := (idle.trail 1 moves).map (·.1)
    let s := ((idle.trail 1 moves).map (·.2)).getLastD idle
    Worked (sharesFrom 1 2) answers s ∧
    answers = [.started, .nested true, .left (.nested 1), .left (.outermost ⟨1, .edit⟩), .left .underflow,
      .nested false, .started, .nested true] ∧
    s = .active 1 ⟨2, .edit⟩ ∧
    s.depth + answers.countP (·.leaves) = (sharesFrom 1 2).length + answers.count (.nested true) ∧
    (s.isActive ↔ 0 < s.depth) ∧
    (s.share?.isSome = s.isActive ∧ s.share? = if s.isActive then (sharesFrom 1 2).getLast? else none) ∧
    s.nest?.isSome = s.isActive ∧
    (1 < s.depth → s.leave.1 = .nested (s.depth - 1) ∧
      s.leave.2.depth = s.depth - 1 ∧ s.leave.2.share? = s.share?) ∧
    sharesFrom 1 2 = answers.filterMap (·.handedBack?) ++ s.share?.toList ∧
    (answers.filterMap (·.handedBack?)).count ⟨1, .edit⟩ = 1 := by
  intro moves answers s
  have hpermitted : idle.PermitsAll 1 moves := by decide
  have hw : Worked (sharesFrom 1 2) answers s := Worked.fresh.trail hpermitted
  obtain ⟨hdepth, hactive, hshare, hnest, -, hnested, -, hhanded, hcounts⟩ := hw.hands_back
  have hdistinct : (sharesFrom 1 2).Nodup := by decide
  have hreturned : s.share? ≠ some ⟨1, .edit⟩ := by decide
  exact ⟨hw, by decide, by decide, hdepth, hactive, hshare, hnest, hnested, hhanded,
    (hcounts hdistinct ⟨1, .edit⟩ (by decide)).2 hreturned⟩

end Sessions

end FormDesk
