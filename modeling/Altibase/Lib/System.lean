/-
  Altibase.Lib.System
  ───────────────────
  **LABELLED TRANSITION SYSTEMS WITH A PARTIAL STEP FUNCTION.**

  A `System` is an initial state and an executable step `σ → α → Option σ`:
  `none` says that the action is not enabled.  `Path` is a finite run whose
  every step satisfies a side condition `ok`, so one induction serves both
  the unrestricted runs (`ok` always true) and the runs that keep out of some
  kind of step.

  Main results:
    * `Path.invariant` — what every allowed step preserves, every run preserves;
    * `path_of_run` — an executed list of actions is a run, so a concrete
      trace can be evaluated;
    * `Reachable.refine` — what a refinement reaches stands for something
      reachable.
-/
import Mathlib.Logic.Basic

namespace Altibase.Lib

/-- A transition system: where it starts and what one action does, if it is
    enabled. -/
structure System (σ α : Type) where
  init : σ
  step : σ → α → Option σ

variable {σ α : Type}

namespace System

/-- A run from `s` to `s'` whose every step `a` at a state `u` satisfies `ok u a`. -/
inductive Path (S : System σ α) (ok : σ → α → Prop) (s : σ) : σ → Prop
  | refl : Path S ok s s
  | tail {u v : σ} {a : α} : Path S ok s u → ok u a → S.step u a = some v → Path S ok s v

/-- Every state that some run reaches. -/
def Reachable (S : System σ α) : σ → Prop :=
  Path S (fun _ _ => True) S.init

/-- Every state that a run reaches whose steps all satisfy `ok`. -/
def ReachableBy (S : System σ α) (ok : σ → α → Prop) : σ → Prop :=
  Path S ok S.init

/-- Execute a list of actions; `none` as soon as one is not enabled. -/
def run (S : System σ α) : σ → List α → Option σ
  | s, [] => some s
  | s, a :: as => match S.step s a with
    | none => none
    | some s' => run S s' as

variable {S : System σ α} {ok ok' : σ → α → Prop} {s u v : σ}

/-- **The invariant rule.**  What every allowed step preserves holds at the end
    of every run that starts with it. -/
theorem Path.invariant {I : σ → Prop} (p : Path S ok s u)
    (hstep : ∀ s a s', I s → ok s a → S.step s a = some s' → I s') (hs : I s) : I u := by
  induction p with
  | refl => exact hs
  | tail _ hok hst ih => exact hstep _ _ _ ih hok hst

theorem Path.mono (p : Path S ok s u) (h : ∀ s a, ok s a → ok' s a) : Path S ok' s u := by
  induction p with
  | refl => exact .refl
  | tail _ hok hst ih => exact .tail ih (h _ _ hok) hst

theorem Path.trans (p : Path S ok s u) (q : Path S ok u v) : Path S ok s v := by
  induction q with
  | refl => exact p
  | tail _ hok hst ih => exact .tail ih hok hst

theorem Path.head {a : α} (hok : ok s a) (hst : S.step s a = some u) (q : Path S ok u v) :
    Path S ok s v :=
  Path.trans (.tail .refl hok hst) q

/-- A run is over, or it has a first step. -/
theorem Path.eq_or_head (p : Path S ok s u) :
    s = u ∨ ∃ a v, ok s a ∧ S.step s a = some v ∧ Path S ok v u := by
  induction p with
  | refl => exact Or.inl rfl
  | @tail v w a q hok hst ih =>
      rcases ih with rfl | ⟨b, v', hok', hst', q'⟩
      · exact Or.inr ⟨a, w, hok, hst, .refl⟩
      · exact Or.inr ⟨b, v', hok', hst', .tail q' hok hst⟩

theorem ReachableBy.reachable (h : ReachableBy S ok s) : Reachable S s :=
  Path.mono h (fun _ _ _ => trivial)

/-- An executed trace is a run. -/
theorem path_of_run : ∀ (as : List α) (s : σ), run S s as = some u →
    Path S (fun _ _ => True) s u
  | [], s, h => by
      cases h
      exact .refl
  | a :: as, s, h => by
      rw [run] at h
      cases hst : S.step s a with
      | none => rw [hst] at h; cases h
      | some s' =>
          rw [hst] at h
          exact Path.head trivial hst (path_of_run as s' h)

/-- The system that only takes the steps a test allows. -/
def restrict (S : System σ α) (p : σ → α → Bool) : System σ α where
  init := S.init
  step s a := if p s a then S.step s a else none

/-- An executed trace whose steps all pass a test is a run of such steps. -/
theorem path_of_restrict {p : σ → α → Bool} (as : List α) (h : (S.restrict p).run s as = some u) :
    Path S (fun s a => p s a = true) s u := by
  have hpath := path_of_run as s h
  clear h
  induction hpath with
  | refl => exact .refl
  | @tail u v a _ _ hst ih =>
      have hpa : p u a = true ∧ S.step u a = some v := by
        simpa [restrict] using hst
      exact .tail ih hpa.1 hpa.2

/-- **Refinement.**  A system whose every step keeps an invariant and is matched by
    a run of another system, between the states that an abstraction function
    assigns, only reaches states that stand for reachable ones. -/
theorem Reachable.refine {τ β : Type} {T : System τ β} {f : τ → σ} {I : τ → Prop} {w : τ}
    (h : T.Reachable w) (hinit : f T.init = S.init) (hI : I T.init)
    (hstep : ∀ w b w', I w → S.Reachable (f w) → T.step w b = some w' →
      I w' ∧ S.Reachable (f w')) : I w ∧ S.Reachable (f w) :=
  h.invariant (fun _ _ _ hi _ hst => hstep _ _ _ hi.1 hi.2 hst) ⟨hI, hinit ▸ .refl⟩

/-- The state after a trace that can be executed from the start. -/
def after (S : System σ α) (as : List α) (h : (S.run S.init as).isSome = true) : σ :=
  (S.run S.init as).get h

theorem reachable_after (S : System σ α) (as : List α) (h : (S.run S.init as).isSome = true) :
    S.Reachable (S.after as h) :=
  path_of_run as S.init (Option.some_get h).symm

end System

end Altibase.Lib
