import JarAtlas.Console.Say
import Mathlib.Tactic.Common

/-!
What an action gives and what it leaves of the machine, read off its parts. An action that succeeds
is taken apart into parts that all succeed, so later proofs follow the order of the steps and never
open the monad.
-/

open Except

namespace JarAtlas

theorem ok_of_bind {ε α β : Type} {first : Except ε α} {next : α → Except ε β} {b : β}
    (hall : (first >>= next) = ok b) : ∃ a, first = ok a ∧ next a = ok b := by
  rcases first with e | a
  · exact nomatch hall
  · exact ⟨a, rfl, hall⟩

theorem ok_of_toOption {α : Type} {r : Except Fault α} {x : α}
    (hx : r.toOption = some x) : r = ok x := by
  cases r with
  | error e => cases hx
  | ok y => rw [Option.some.inj hx]

namespace Action

variable {h h' h₁ : Host}

variable {α β : Type}

/-- The outcome of an action on a machine, and the machine afterwards. -/
def outcome (a : Action α) (h : Host) : Except Fault α × Host :=
  a.run.run h

@[simp] theorem outcome_pure (x : α) (h : Host) : (pure x : Action α).outcome h = (.ok x, h) :=
  rfl

@[simp] theorem outcome_throw (e : Fault) (h : Host) :
    (throw e : Action α).outcome h = (.error e, h) := rfl

@[simp] theorem outcome_modify (f : Host → Host) (h : Host) :
    (modify f : Action Unit).outcome h = (.ok (), f h) := rfl

@[simp] theorem outcome_ofExcept (r : Except Fault α) (h : Host) :
    (ofExcept r).outcome h = (r, h) := by
  cases r <;> rfl

theorem pure_ok {x y : α} (hpure : (pure x : Action α).outcome h = (.ok y, h')) :
    x = y ∧ h' = h := by
  obtain ⟨hx, hh⟩ := Prod.mk.inj hpure
  exact ⟨ok.inj hx, hh.symm⟩

theorem ofExcept_ok {r : Except Fault α} {y : α} (hr : (ofExcept r).outcome h = (.ok y, h')) :
    r = .ok y ∧ h' = h := by
  rw [outcome_ofExcept] at hr
  exact ⟨(Prod.mk.inj hr).1, (Prod.mk.inj hr).2.symm⟩

theorem outcome_bind (a : Action α) (f : α → Action β) (h : Host) :
    (a >>= f).outcome h =
      match a.outcome h with
      | (.ok x, h₁) => (f x).outcome h₁
      | (.error e, h₁) => (.error e, h₁) := by
  simp only [outcome, ExceptT.run_bind, StateT.run_bind]
  rcases (StateT.run (ExceptT.run a) h) with ⟨x | x, h₁⟩ <;> rfl

@[simp] theorem outcome_throw_bind (e : Fault) (f : α → Action β) (h : Host) :
    (throw e >>= f).outcome h = (.error e, h) := by
  rw [outcome_bind, outcome_throw]

theorem bind_of_ok {a : Action α} {f : α → Action β} {x : α}
    (ha : a.outcome h = (.ok x, h₁)) : (a >>= f).outcome h = (f x).outcome h₁ := by
  rw [outcome_bind, ha]

@[simp] theorem outcome_get_bind (f : Host → Action β) (h : Host) :
    (get >>= f).outcome h = (f h).outcome h := rfl

theorem ok_unique {a : Action α} {h₂ : Host} {x y : α} (hx : a.outcome h = (ok x, h₁))
    (hy : a.outcome h = (ok y, h₂)) : x = y := by
  rw [hx] at hy
  exact ok.inj (Prod.mk.inj hy).1

theorem bind_ok_iff {a : Action α} {f : α → Action β} {y : β} :
    (a >>= f).outcome h = (.ok y, h') ↔
      ∃ x h₁, a.outcome h = (.ok x, h₁) ∧ (f x).outcome h₁ = (.ok y, h') := by
  rw [outcome_bind]
  rcases ha : a.outcome h with ⟨x | x, h₁⟩
  · simp
  · constructor
    · intro hrest
      exact ⟨x, h₁, rfl, hrest⟩
    · rintro ⟨x', h₁', heq, hrest⟩
      cases heq
      exact hrest

@[simp] theorem outcome_attempt (a : Action α) (h : Host) :
    (attempt a).outcome h = (.ok (a.outcome h).1, (a.outcome h).2) := by
  rcases houtcome : a.outcome h with ⟨r, h₁⟩
  have hrun : a h = (r, h₁) := houtcome
  cases r <;>
    simp only [attempt, outcome, ExceptT.run, StateT.run, bind, ExceptT.bind, ExceptT.mk,
      StateT.bind, ExceptT.bindCont, tryCatch, tryCatchThe, MonadExceptOf.tryCatch,
      ExceptT.tryCatch, hrun] <;>
    rfl

theorem attempt_ok {a : Action α} {r : Except Fault α}
    (hattempt : (attempt a).outcome h = (.ok r, h')) : a.outcome h = (r, h') := by
  rw [outcome_attempt] at hattempt
  obtain ⟨hr, hh⟩ := Prod.mk.inj hattempt
  exact Prod.ext (ok.inj hr) hh

@[simp] theorem outcome_resolve (p : Path) (h : Host) :
    (resolve p).outcome h = (h.resolve p, h) := by
  rw [resolve, outcome_get_bind, outcome_ofExcept]

@[simp] theorem outcome_look (p : Path) (h : Host) :
    (look p).outcome h = (h.look p, h) := by
  rw [look, outcome_get_bind, outcome_ofExcept]

@[simp] theorem outcome_isFile (p : Path) (h : Host) :
    (isFile p).outcome h = (h.isFile p, h) := by
  rw [isFile, outcome_get_bind, outcome_ofExcept]

@[simp] theorem outcome_isDir (p : Path) (h : Host) :
    (isDir p).outcome h = (h.isDir p, h) := by
  rw [isDir, outcome_get_bind, outcome_ofExcept]

@[simp] theorem outcome_isThere (p : Path) (h : Host) :
    (isThere p).outcome h = (h.isThere p, h) := by
  rw [isThere, outcome_get_bind, outcome_ofExcept]

theorem outcome_always {a : Action α} {last : Action Unit} {h₂ : Host} {r : Except Fault α}
    (ha : a.outcome h = (r, h₁)) (hlast : last.outcome h₁ = (.ok (), h₂)) :
    (always a last).outcome h = (r, h₂) := by
  rw [always, bind_of_ok (outcome_attempt a h), ha, bind_of_ok hlast,
    outcome_ofExcept]

/-- The action asks the machine and changes nothing. -/
def Reads (a : Action α) : Prop :=
  ∀ h, (a.outcome h).2 = h

theorem Reads.host_eq {a : Action α} (ha : a.Reads) {r : Except Fault α}
    (houtcome : a.outcome h = (r, h')) : h' = h := by
  have hkept := ha h
  rw [houtcome] at hkept
  exact hkept

theorem Reads.bind_ok {a : Action α} (ha : a.Reads) {f : α → Action β} {y : β}
    (hall : (a >>= f).outcome h = (.ok y, h')) :
    ∃ x, a.outcome h = (.ok x, h) ∧ (f x).outcome h = (.ok y, h') := by
  obtain ⟨x, h₁, hfirst, hrest⟩ := bind_ok_iff.mp hall
  obtain rfl := ha.host_eq hfirst
  exact ⟨x, hfirst, hrest⟩

theorem reads_pure (x : α) : (pure x : Action α).Reads :=
  fun _ => rfl

theorem reads_throw (e : Fault) : (throw e : Action α).Reads :=
  fun _ => rfl

theorem reads_throw_bind (e : Fault) (f : α → Action β) : (throw e >>= f : Action β).Reads := by
  intro h
  rw [outcome_throw_bind]

theorem reads_get : (get : Action Host).Reads :=
  fun _ => rfl

theorem reads_ofExcept (r : Except Fault α) : (ofExcept r).Reads := by
  intro h
  rw [outcome_ofExcept]

theorem Reads.bind {a : Action α} {f : α → Action β} (ha : a.Reads) (hf : ∀ x, (f x).Reads) :
    (a >>= f).Reads := by
  intro h
  rw [outcome_bind]
  rcases hfirst : a.outcome h with ⟨x | x, h₁⟩
  · exact ha.host_eq hfirst
  · exact (hf x h₁).trans (ha.host_eq hfirst)

theorem Reads.bind_pure {a : Action α} {f : α → β} (ha : a.Reads) :
    (a >>= fun x => pure (f x)).Reads :=
  ha.bind fun x => reads_pure (f x)

theorem reads_look (p : Path) : (look p).Reads :=
  reads_get.bind fun _ => reads_ofExcept _

theorem reads_isDir (p : Path) : (isDir p).Reads :=
  reads_get.bind fun _ => reads_ofExcept _

theorem reads_isFile (p : Path) : (isFile p).Reads :=
  reads_get.bind fun _ => reads_ofExcept _

theorem reads_resolve (p : Path) : (resolve p).Reads :=
  reads_get.bind fun _ => reads_ofExcept _

end Action

end JarAtlas
