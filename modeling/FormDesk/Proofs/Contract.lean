/-
Contracts of runs. Cleaning up is done when a run returns and when it is
interrupted, but not when it is cut off: then the desk stays as it was at that
moment. So a contract asks one thing of a run that is over and another of one
that was cut off (`Desk.Contract`), and an action that keeps it (`Act.Keeps`)
does so however it ends.

A client may cut its own run off anywhere (`Act.halt`). So what holds wherever
runs of all clients end holds at every moment of a run.

Staying within a relation is keeping the contract that asks for that relation
both times (`keeps_contract`).
-/
import FormDesk.Proofs.Action

namespace FormDesk

variable {σ α β : Type}

/-- What is asked of a run between two desks: of one that is over, and of one that was cut off. -/
structure Desk.Contract (σ : Type) where
  ended : Desk σ → Desk σ → Prop
  cut : Desk σ → Desk σ → Prop
  refl : ∀ d, ended d d
  trans : ∀ {d e f}, ended d e → ended e f → ended d f
  halt : ∀ d, cut d d
  stop : ∀ {d e f}, ended d e → cut e f → cut d f

/-- The contract that asks for one relation both times. -/
def Desk.Path.contract {R : Desk σ → Desk σ → Prop} (hR : Desk.Path R) : Desk.Contract σ :=
  ⟨R, R, hR.refl, hR.trans, hR.refl, hR.trans⟩

namespace Desk.Contract

variable {K : Contract σ} {d e f : Desk σ} {o : Outcome α}

theorem sink (h : K.ended d e) : K.cut d e := K.stop h (K.halt e)

/-- What the contract asks of a run that ended so. -/
def At (K : Contract σ) : Outcome α → Desk σ → Desk σ → Prop
  | .fatal, d, e => K.cut d e
  | .returned _, d, e | .interrupted _, d, e => K.ended d e

@[simp] theorem at_returned (a : α) : K.At (.returned a) d e = K.ended d e := rfl

@[simp] theorem at_interrupted (message : String) :
    K.At (.interrupted message : Outcome α) d e = K.ended d e := rfl

@[simp] theorem at_fatal : K.At (.fatal : Outcome α) d e = K.cut d e := rfl

/-- Going on after a run that is over. -/
theorem at_after (h : K.ended d e) (h' : K.At o e f) : K.At o d f := by
  cases o with
  | returned | interrupted => exact K.trans h h'
  | fatal => exact K.stop h h'

@[simp] theorem at_contract {R : Desk σ → Desk σ → Prop} (hR : Path R) : hR.contract.At o d e = R d e := by
  cases o <;> rfl

end Desk.Contract

namespace Act

open Desk (Contract)

variable {K : Contract σ} {h : Host σ}

/-- The run is cut off here. -/
def halt : Act σ α := fun _ d => (.fatal, d)

/-- Under `h` the action, run at `e`, ends as the contract asks of a run from `d`. -/
def KeepsFrom (K : Contract σ) (h : Host σ) (a : Act σ α) (d e : Desk σ) : Prop :=
  K.At (a h e).1 d (a h e).2

/-- A run that is not cut off is over. -/
theorem KeepsFrom.ended {a : Act σ α} {d e : Desk σ} (ha : KeepsFrom K h a d e) (hfatal : (a h e).1 ≠ .fatal) :
    K.ended d (a h e).2 := by
  unfold KeepsFrom at ha
  cases ho : (a h e).1 with
  | returned | interrupted =>
    rw [ho] at ha
    exact ha
  | fatal => exact absurd ho hfatal

/-- What follows from a run that is over and from one that is cut off. -/
theorem KeepsFrom.elim {a : Act σ α} {d e : Desk σ} {P : Prop} (ha : KeepsFrom K h a d e)
    (hended : K.ended d (a h e).2 → P) (hcut : K.cut d (a h e).2 → P) : P := by
  by_cases hfatal : (a h e).1 = .fatal
  · rw [KeepsFrom, hfatal] at ha
    exact hcut ha
  · exact hended (ha.ended hfatal)

/-- Under `h` every run of the action keeps the contract. -/
def Keeps (K : Contract σ) (h : Host σ) (a : Act σ α) : Prop := ∀ d, KeepsFrom K h a d d

theorem keeps_contract {R : Desk σ → Desk σ → Prop} {hR : Desk.Path R} {a : Act σ α} :
    Keeps hR.contract h a ↔ Within R h a := by
  simp only [Keeps, KeepsFrom, Contract.at_contract, Within]

theorem Keeps.after {a : Act σ α} (ha : Keeps K h a) {d e : Desk σ} (hd : K.ended d e) : KeepsFrom K h a d e :=
  Contract.at_after hd (ha e)

theorem Keeps.pure (a : α) : Keeps K h (pure a : Act σ α) := K.refl

theorem Keeps.look (f : Desk σ → α) : Keeps K h (Act.look f) := K.refl

theorem Keeps.interrupt (message : String) : Keeps K h (Act.interrupt message : Act σ α) := K.refl

theorem Keeps.halt : Keeps K h (Act.halt : Act σ α) := K.halt

theorem Keeps.change {f : Desk σ → Desk σ} (hf : ∀ d, K.ended d (f d)) : Keeps K h (Act.change f) := hf

theorem KeepsFrom.bind {x : Act σ α} {f : α → Act σ β} {d e : Desk σ} (hx : KeepsFrom K h x d e)
    (hf : ∀ a, Keeps K h (f a)) : KeepsFrom K h (x >>= f) d e := by
  unfold KeepsFrom at hx ⊢
  rcases bind_cases (h := h) x f e with ⟨a, e', he, hb⟩ | ⟨_, e', he, hb⟩ | ⟨e', he, hb⟩
  all_goals rw [he] at hx
  all_goals rw [hb]
  · exact Contract.at_after hx (hf a e')
  · exact hx
  · exact hx

theorem Keeps.bind {x : Act σ α} {f : α → Act σ β} (hx : Keeps K h x) (hf : ∀ a, Keeps K h (f a)) :
    Keeps K h (x >>= f) := fun d => (hx d).bind hf

/-- Cleaning up ends what was begun before: `act` keeps the contract from `e`, and with what is done `last` it
is kept from `d`. Cleaning up is left out only when the run is cut off. -/
theorem Keeps.ensure_from {act : Act σ α} {last : Act σ Unit} {d e : Desk σ} (ha : Keeps K h act)
    (hcut : ∀ f, K.cut e f → K.cut d f) (hl : ∀ f, K.ended e f → KeepsFrom K h last d f) :
    KeepsFrom K h (ensure act last) d e := by
  have h1 := ha e
  unfold KeepsFrom at h1 ⊢
  rcases hact : act h e with ⟨outcome, f⟩
  rw [hact] at h1
  cases outcome with
  | fatal =>
    simp only [Act.ensure, hact]
    exact hcut f h1
  | returned | interrupted =>
    have h2 := hl f h1
    unfold KeepsFrom at h2
    rcases hlast : last h f with ⟨ended, g⟩
    rw [hlast] at h2
    cases ended <;> simp only [Act.ensure, hact, hlast]
    all_goals first | exact h2 | exact K.sink h2

theorem Keeps.ensure {act : Act σ α} {last : Act σ Unit} (ha : Keeps K h act) (hl : Keeps K h last) :
    Keeps K h (ensure act last) := fun _ => ha.ensure_from (fun _ hcut => hcut) fun _ hended => hl.after hended

theorem Keeps.between {first last : Deed} {act : Act σ α} (ha : Keeps K h act)
    (hfirst : ∀ d, K.ended d (d.enter first)) (hlast : ∀ d, K.ended d (d.enter last)) :
    Keeps K h (between first last act) :=
  (Keeps.change hfirst).bind fun _ => ha.ensure (Keeps.change hlast)

theorem Keeps.onInterrupt {act : Act σ α} {last : Act σ Unit} (ha : Keeps K h act) (hl : Keeps K h last) :
    Keeps K h (onInterrupt act last) := by
  intro d
  have h1 := ha d
  unfold KeepsFrom at h1 ⊢
  rcases hact : act h d with ⟨outcome, d₁⟩
  have h2 := hl d₁
  unfold KeepsFrom at h2
  rcases hlast : last h d₁ with ⟨ended, d₂⟩
  rw [hact] at h1
  rw [hlast] at h2
  cases outcome <;> cases ended <;> simp only [Act.onInterrupt, hact, hlast]
  case interrupted.returned => exact K.trans h1 h2
  case interrupted.fatal => exact K.stop h1 h2
  case interrupted.interrupted => exact K.sink (K.trans h1 h2)
  all_goals exact h1

theorem Keeps.attempt {act : Act σ α} (ha : Keeps K h act) : Keeps K h (attempt act) := by
  intro d
  have h1 := ha d
  unfold KeepsFrom at h1 ⊢
  rcases hact : act h d with ⟨outcome, d₁⟩
  rw [hact] at h1
  cases outcome <;> simp only [Act.attempt, hact] <;> exact h1

theorem Keeps.each {f : α → Act σ Unit} (hf : ∀ x, Keeps K h (f x)) : ∀ xs : List α, Keeps K h (each xs f)
  | [] => .pure ()
  | x :: xs => (hf x).bind fun _ => .each hf xs

end Act

end FormDesk
