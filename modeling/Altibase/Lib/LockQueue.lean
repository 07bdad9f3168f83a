/-
  Altibase.Lib.LockQueue
  ──────────────────────
  **GROUP-MODE LOCKING WITH A FAIR QUEUE, OVER ANY LATTICE OF LOCK MODES.**

  Lock modes form a join semilattice whose bottom means "holds nothing"; a
  symmetric compatibility relation distributes over joins (`Compat`).  A
  resource is what each party holds and the queue of waiting requests.  A
  request can be granted when its mode is compatible with everything held, or
  when it converts the only holder's mode (`Grantable`); `wake` grants from the
  head of the queue until it meets a request that cannot be granted.

  Main results:
    * `safe_grant`, `safe_mono` — pairwise compatibility of the holders is kept
      by a grant and by any lowering of modes;
    * `settled_wake`, `wake_of_settled` — after `wake` the head cannot be
      granted, and then waking again changes nothing;
    * `not_grantable_mono`, `le_grant` — a grant only raises what is held, and
      raising what is held unblocks no request of another party.
-/
import Mathlib.Order.Lattice
import Mathlib.Order.BoundedOrder.Basic
import Mathlib.Logic.Function.Basic
import Mathlib.Data.List.Basic

namespace Altibase.Lib

/-! ## §1. Compatibility over a lattice of modes. -/

/-- Compatibility of lock modes: symmetric, trivial at the bottom, and tested
    part by part on a join. -/
class Compat (M : Type) [SemilatticeSup M] [OrderBot M] where
  compat : M → M → Prop
  compat_symm : ∀ a b, compat a b → compat b a
  compat_bot : ∀ a, compat a ⊥
  compat_sup : ∀ a b c, compat a (b ⊔ c) ↔ compat a b ∧ compat a c

open Compat

section Modes

variable {M : Type} [SemilatticeSup M] [OrderBot M] [Compat M]

/-- Compatibility is symmetric. -/
theorem compat_comm {a b : M} : compat a b ↔ compat b a :=
  ⟨compat_symm a b, compat_symm b a⟩

/-- No lock is compatible with every mode. -/
theorem bot_compat (a : M) : compat ⊥ a :=
  compat_symm _ _ (compat_bot a)

/-- A weaker mode is compatible with what a stronger one is, -/
theorem compat_of_le_right {a b b' : M} (h : compat a b) (hb : b' ≤ b) : compat a b' := by
  rw [← sup_eq_right.2 hb, compat_sup] at h
  exact h.1

/-- on both sides. -/
theorem compat_of_le {a a' b b' : M} (h : compat a b) (ha : a' ≤ a) (hb : b' ≤ b) :
    compat a' b' :=
  compat_symm _ _ (compat_of_le_right (compat_symm _ _ (compat_of_le_right h hb)) ha)

/-- **The group mode is a faithful summary**: a mode is compatible with the join
    of a list of modes exactly when it is compatible with each of them. -/
theorem compat_foldr_sup {a : M} : ∀ (l : List M),
    compat a (l.foldr (· ⊔ ·) ⊥) ↔ ∀ m ∈ l, compat a m
  | [] => by simp [compat_bot]
  | m :: l => by
      rw [List.foldr_cons, compat_sup, compat_foldr_sup l]
      simp

omit [Compat M] in
/-- A mode lies below the join of its list. -/
theorem le_foldr_sup : ∀ {l : List M} {m : M}, m ∈ l → m ≤ l.foldr (· ⊔ ·) ⊥
  | a :: l, m, h => by
      rcases List.mem_cons.1 h with rfl | h
      · exact le_sup_left
      · exact le_trans (le_foldr_sup h) le_sup_right

omit [Compat M] in
/-- The join is the least bound. -/
theorem foldr_sup_le_iff {b : M} : ∀ {l : List M},
    l.foldr (· ⊔ ·) ⊥ ≤ b ↔ ∀ m ∈ l, m ≤ b
  | [] => by simp
  | a :: l => by simp [foldr_sup_le_iff (l := l)]

end Modes

/-! ## §2. Holders, waiters and the wake-up. -/

/-- A waiting request: who asks and for which mode. -/
structure Request (T M : Type) where
  owner : T
  mode : M

/-- A lockable resource: what each party holds (`⊥` for nothing) and the
    requests that wait, first come first. -/
@[ext]
structure LockQueue (T M : Type) where
  held : T → M
  waiting : List (Request T M)

section Queue

variable {T M : Type} [DecidableEq T] [SemilatticeSup M] [OrderBot M] [Compat M]

/-- A request can be granted: its mode is compatible with all that is held, or it
    converts the mode of the only holder. -/
def Grantable (held : T → M) (r : Request T M) : Prop :=
  (∀ t, compat (held t) r.mode) ∨ (held r.owner ≠ ⊥ ∧ ∀ t, t ≠ r.owner → held t = ⊥)

/-- Granting joins the requested mode to what the owner holds. -/
def grant (held : T → M) (r : Request T M) : T → M :=
  Function.update held r.owner (held r.owner ⊔ r.mode)

open Classical in
/-- Grant from the head of the queue until a request cannot be granted. -/
noncomputable def wakeList : (T → M) → List (Request T M) → LockQueue T M
  | held, [] => ⟨held, []⟩
  | held, r :: rest =>
      if Grantable held r then wakeList (grant held r) rest else ⟨held, r :: rest⟩

/-- The queue after everyone is woken who can be granted. -/
noncomputable def LockQueue.wake (q : LockQueue T M) : LockQueue T M :=
  wakeList q.held q.waiting

/-- Party `t` gives up its waiting requests and keeps `m` of what it holds. -/
def LockQueue.withdraw (t : T) (m : M) (q : LockQueue T M) : LockQueue T M where
  held := Function.update q.held t m
  waiting := q.waiting.filter (fun r => r.owner ≠ t)

/-- Two distinct holders hold compatible modes. -/
def Safe (held : T → M) : Prop :=
  ∀ t u, t ≠ u → compat (held t) (held u)

/-- The head of the queue cannot be granted: no wake-up is owed. -/
def LockQueue.Settled (q : LockQueue T M) : Prop :=
  ∀ r ∈ q.waiting.head?, ¬ Grantable q.held r

/-! ## §3. Safety. -/

omit [DecidableEq T] in
/-- Weaker modes are safe where stronger ones are. -/
theorem safe_mono {held held' : T → M} (h : Safe held) (hle : ∀ t, held' t ≤ held t) :
    Safe held' :=
  fun t u htu => compat_of_le (h t u htu) (hle t) (hle u)

/-- **A grant of a grantable request is safe.** -/
theorem safe_grant {held : T → M} {r : Request T M} (h : Safe held) (hg : Grantable held r) :
    Safe (grant held r) := by
  have key : ∀ u, u ≠ r.owner → compat (held r.owner ⊔ r.mode) (held u) := by
    intro u hu
    rcases hg with hall | ⟨_, hsole⟩
    · rw [compat_comm, compat_sup]
      exact ⟨h u r.owner hu, hall u⟩
    · rw [hsole u hu]
      exact compat_bot _
  intro t u htu
  unfold grant
  by_cases ht : t = r.owner
  · subst ht
    rw [Function.update_self, Function.update_of_ne (Ne.symm htu)]
    exact key u (Ne.symm htu)
  · rw [Function.update_of_ne ht]
    by_cases hu : u = r.owner
    · subst hu
      rw [Function.update_self, compat_comm]
      exact key t ht
    · rw [Function.update_of_ne hu]
      exact h t u htu

/-- Waking a list of requests is safe. -/
theorem safe_wakeList : ∀ (rs : List (Request T M)) (held : T → M), Safe held →
    Safe (wakeList held rs).held
  | [], _, h => h
  | r :: rest, held, h => by
      rw [wakeList]
      split
      next hg => exact safe_wakeList rest _ (safe_grant h hg)
      next => exact h

/-! ## §4. After a wake-up the head is blocked. -/

/-- After waking, the first waiter cannot be granted, -/
theorem settled_wakeList : ∀ (rs : List (Request T M)) (held : T → M),
    (wakeList held rs).Settled
  | [], _ => by simp [wakeList, LockQueue.Settled]
  | r :: rest, held => by
      rw [wakeList]
      split
      next => exact settled_wakeList rest _
      next hg =>
          intro r' hr'
          simp only [List.head?_cons, Option.mem_def, Option.some.injEq] at hr'
          exact hr' ▸ hg

/-- so a wakeup leaves the queue settled, -/
theorem settled_wake (q : LockQueue T M) : q.wake.Settled :=
  settled_wakeList _ _

/-- and does nothing in a settled one. -/
theorem wake_of_settled {q : LockQueue T M} (h : q.Settled) : q.wake = q := by
  obtain ⟨held, waiting⟩ := q
  cases waiting with
  | nil => rfl
  | cons r rest =>
      have hr : ¬ Grantable held r := h r (by simp)
      show wakeList held (r :: rest) = _
      rw [wakeList, if_neg hr]

omit [DecidableEq T] in
/-- Raising what is held cannot make a blocked request grantable, unless it
    turns its owner into the only holder. -/
theorem not_grantable_mono {held held' : T → M} {r : Request T M}
    (h : ¬ Grantable held r) (hle : ∀ t, held t ≤ held' t)
    (howner : held' r.owner ≠ ⊥ → held r.owner ≠ ⊥) : ¬ Grantable held' r := by
  intro hg
  apply h
  rcases hg with hall | ⟨hne, hsole⟩
  · exact Or.inl (fun t => compat_of_le (hall t) (hle t) le_rfl)
  · refine Or.inr ⟨howner hne, fun t ht => ?_⟩
    exact le_bot_iff.1 (hsole t ht ▸ hle t)

omit [OrderBot M] [Compat M] in
/-- A grant weakens nobody. -/
theorem le_grant {held : T → M} (r : Request T M) (t : T) : held t ≤ grant held r t := by
  unfold grant
  by_cases h : t = r.owner
  · subst h; rw [Function.update_self]; exact le_sup_left
  · rw [Function.update_of_ne h]

end Queue

end Altibase.Lib
