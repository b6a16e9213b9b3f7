import Mathlib.Algebra.BigOperators.Group.List.Basic
import Mathlib.Algebra.GroupWithZero.Nat
import Mathlib.Data.List.Infix
import Mathlib.Logic.Function.Basic

/-!
# Labelled transition systems

A program whose actors take steps in any order is a set of initial states and
a partial step function: `step s a` is the state after the action `a`, or
`none` when the actor of `a` cannot move in `s`. Nondeterminism (which actor
moves, which case of a `select` is picked, what a client sends) is in the
choice of the action.

* `Reach S C s`: the state `s` ends a run whose steps all meet the guard `C`.
  `Reachable S` is the case of no guard.
* `Reach.invariant`: what holds initially and is kept by every guarded step
  holds in every state of every guarded run.
* `run`, `Reach.of_run`, `Reachable.of_run`: a concrete run, to be evaluated.
* `guardedRun`, `Reach.of_guardedRun`: the same with a guard that is decidable.
* `Each P history`: each entry of a history, newest first, stands in `P` to what
  came before it.
* `run_amortized`: when each step is paid for from a potential, so is each run.
-/

namespace Transition

universe u v

variable {σ : Type u} {α : Type v}

/-- A labelled transition system. -/
structure System (σ : Type u) (α : Type v) where
  init : σ → Prop
  step : σ → α → Option σ

/-- `Reach S C s`: some run from an initial state ends in `s`, and each of its
steps `a`, taken in the state `s'`, meets the guard `C s' a`. -/
inductive Reach (S : System σ α) (C : σ → α → Prop) : σ → Prop
  | init {s : σ} : S.init s → Reach S C s
  | step {s t : σ} (a : α) : Reach S C s → C s a → S.step s a = some t → Reach S C t

/-- Every step is allowed. -/
def NoGuard : σ → α → Prop := fun _ _ => True

/-- The states of all runs. -/
abbrev Reachable (S : System σ α) : σ → Prop := Reach S NoGuard

/-- A run under a guard is a run. -/
theorem Reach.reachable {S : System σ α} {C : σ → α → Prop} {s : σ} (h : Reach S C s) :
    Reachable S s := by
  induction h with
  | init h => exact .init h
  | step a _ _ hs ih => exact .step a ih trivial hs

/-- The invariant rule. A step may use that its source is reached and satisfies
the invariant. -/
theorem Reach.invariant {S : System σ α} {C : σ → α → Prop} {I : σ → Prop}
    (hinit : ∀ s, S.init s → I s)
    (hstep : ∀ s a t, Reach S C s → I s → C s a → S.step s a = some t → I t)
    {s : σ} (h : Reach S C s) : I s := by
  induction h with
  | init h => exact hinit _ h
  | step a hr hc hs ih => exact hstep _ a _ hr ih hc hs

/-- Runs the actions in order. -/
def run (S : System σ α) : σ → List α → Option σ
  | s, [] => some s
  | s, a :: as => (S.step s a).bind fun t => run S t as

theorem run_append (S : System σ α) (s : σ) (as bs : List α) :
    run S s (as ++ bs) = (run S s as).bind fun t => run S t bs := by
  induction as generalizing s with
  | nil => rfl
  | cons a as ih =>
    simp only [List.cons_append, run, Option.bind_assoc]
    exact congrArg _ (funext ih)

/-- Actions that the guard always allows extend a guarded run. -/
theorem Reach.run {S : System σ α} {C : σ → α → Prop} :
    ∀ {as : List α} {s t : σ}, Reach S C s → (∀ a ∈ as, ∀ s, C s a) →
      Transition.run S s as = some t → Reach S C t
  | [], s, t, h, _, hr => by
    simp only [Transition.run, Option.some.injEq] at hr
    exact hr ▸ h
  | a :: as, s, t, h, hC, hr => by
    simp only [Transition.run] at hr
    cases hs : S.step s a with
    | none => simp [hs] at hr
    | some s' =>
      rw [hs, Option.bind_some] at hr
      have h' : Reach S C s' := .step a h (hC a List.mem_cons_self s) hs
      exact Reach.run h' (fun b hb => hC b (List.mem_cons_of_mem a hb)) hr

/-- What each action of a run keeps. -/
theorem run_keeps {S : System σ α} {ok : α → Prop} {I : σ → Prop}
    (hstep : ∀ s a t, ok a → I s → S.step s a = some t → I t) :
    ∀ {as : List α} {s t : σ}, (∀ a ∈ as, ok a) → I s → run S s as = some t → I t
  | [], s, t, _, h, hr => by
    obtain rfl : s = t := Option.some.inj hr
    exact h
  | a :: as, s, t, hok, h, hr => by
    obtain ⟨s', hs, hr⟩ := Option.bind_eq_some_iff.mp hr
    obtain ⟨ha, has⟩ := List.forall_mem_cons.mp hok
    exact run_keeps hstep has (hstep s a s' ha h hs) hr

/-- A run that can be evaluated reaches a state that passes the test `p`. -/
theorem Reach.of_run {S : System σ α} {C : σ → α → Prop} {s₀ : σ} {p : σ → Bool} (as : List α)
    (h₀ : Reach S C s₀) (hC : ∀ a ∈ as, ∀ s, C s a)
    (h : (Transition.run S s₀ as).map p = some true) : ∃ s, Reach S C s ∧ p s = true := by
  cases hr : Transition.run S s₀ as with
  | none => simp [hr] at h
  | some s =>
    rw [hr, Option.map_some, Option.some.injEq] at h
    exact ⟨s, h₀.run hC hr, h⟩

/-- The same when the guard of one action in the run has to be shown where the
action comes. -/
theorem Reach.of_run_step {S : System σ α} {C : σ → α → Prop} {s₀ : σ} {p : σ → Bool} {a : α}
    (as bs : List α) (h₀ : Reach S C s₀) (has : ∀ b ∈ as, ∀ s, C s b)
    (ha : ∀ s, Transition.run S s₀ as = some s → C s a) (hbs : ∀ b ∈ bs, ∀ s, C s b)
    (h : (Transition.run S s₀ (as ++ a :: bs)).map p = some true) :
    ∃ s, Reach S C s ∧ p s = true := by
  rw [run_append] at h
  cases hr : Transition.run S s₀ as with
  | none => simp [hr] at h
  | some s =>
    rw [hr, Option.bind_some, Transition.run] at h
    cases hs : S.step s a with
    | none => simp [hs] at h
    | some t =>
      rw [hs, Option.bind_some] at h
      exact Reach.of_run bs (.step a (h₀.run has hr) (ha s hr) hs) hbs h

/-- The case of no guard. -/
theorem Reachable.of_run {S : System σ α} {s₀ : σ} {p : σ → Bool} (as : List α)
    (h₀ : S.init s₀) (h : (Transition.run S s₀ as).map p = some true) :
    ∃ s, Reachable S s ∧ p s = true :=
  Reach.of_run as (.init h₀) (fun _ _ _ => trivial) h

/-- Runs the actions in order, as long as the guard allows them. -/
def guardedRun (S : System σ α) (C : σ → α → Prop) [∀ s a, Decidable (C s a)] :
    σ → List α → Option σ
  | s, [] => some s
  | s, a :: as => if C s a then (S.step s a).bind fun t => guardedRun S C t as else none

theorem Reach.guardedRun {S : System σ α} {C : σ → α → Prop} [∀ s a, Decidable (C s a)] :
    ∀ {as : List α} {s t : σ}, Reach S C s → Transition.guardedRun S C s as = some t →
      Reach S C t
  | [], s, t, h, hr => by
    simp only [Transition.guardedRun, Option.some.injEq] at hr
    exact hr ▸ h
  | a :: as, s, t, h, hr => by
    simp only [Transition.guardedRun] at hr
    split at hr
    · next hC =>
      obtain ⟨s', hs, hr⟩ := Option.bind_eq_some_iff.mp hr
      exact Reach.guardedRun (.step a h hC hs) hr
    · cases hr

/-- A guarded run that can be evaluated, guard included. -/
theorem Reach.of_guardedRun {S : System σ α} {C : σ → α → Prop} [∀ s a, Decidable (C s a)]
    {s₀ : σ} {p : σ → Bool} (as : List α) (h₀ : S.init s₀)
    (h : (Transition.guardedRun S C s₀ as).map p = some true) : ∃ s, Reach S C s ∧ p s = true := by
  obtain ⟨s, hr, hp⟩ := Option.map_eq_some_iff.mp h
  exact ⟨s, Reach.guardedRun (.init h₀) hr, hp⟩

/-! ## Histories -/

variable {ε : Type u}

/-- `P e before` holds of each entry `e` of the history, `before` being the
entries older than `e`. The newest entry is the head. -/
def Each (P : ε → List ε → Prop) : List ε → Prop
  | [] => True
  | e :: before => P e before ∧ Each P before

instance Each.decidable (P : ε → List ε → Prop) [∀ e l, Decidable (P e l)] :
    ∀ l, Decidable (Each P l)
  | [] => .isTrue trivial
  | e :: before =>
    have : Decidable (Each P before) := Each.decidable P before
    inferInstanceAs (Decidable (P e before ∧ Each P before))

theorem Each.of_suffix {P : ε → List ε → Prop} {e : ε} {before : List ε} :
    ∀ {l : List ε}, Each P l → (e :: before) <:+ l → P e before
  | [], _, h => absurd (List.eq_nil_of_suffix_nil h) (List.cons_ne_nil e before)
  | _ :: _, hP, h => by
    rcases List.suffix_cons_iff.mp h with heq | h
    · cases heq
      exact hP.1
    · exact hP.2.of_suffix h

/-- Entry by entry, with `P` of everything older at hand. -/
theorem Each.imp {P Q R : ε → List ε → Prop}
    (h : ∀ e before, Each P before → P e before → Q e before → R e before) :
    ∀ {l : List ε}, Each P l → Each Q l → Each R l
  | [], _, _ => trivial
  | e :: before, hP, hQ => ⟨h e before hP.2 hP.1 hQ.1, Each.imp h hP.2 hQ.2⟩

/-! ## Potentials -/

variable {S : System σ α} {P : σ → Nat → Prop}

/-- `P s n`: the state `s` has the potential `n`. When each step pays its cost
from it and from the credit that its action brings, so does each run. -/
theorem run_amortized {ok : α → Prop} {cost credit : α → Nat}
    (hstep : ∀ s a t n, ok a → P s n → S.step s a = some t →
      ∃ m, P t m ∧ m + cost a ≤ n + credit a) :
    ∀ {as : List α} {s t : σ} {n : Nat}, (∀ a ∈ as, ok a) → P s n → run S s as = some t →
      ∃ m, P t m ∧ m + (as.map cost).sum ≤ n + (as.map credit).sum
  | [], s, t, n, _, h, hr => by
    obtain rfl : s = t := Option.some.inj hr
    exact ⟨n, h, Nat.le_refl _⟩
  | a :: as, s, t, n, hok, h, hr => by
    obtain ⟨s', hs, hr⟩ := Option.bind_eq_some_iff.mp hr
    obtain ⟨ha, has⟩ := List.forall_mem_cons.mp hok
    obtain ⟨k, hk, hle⟩ := hstep s a s' n ha h hs
    obtain ⟨m, hm, hsum⟩ := run_amortized hstep has hk hr
    refine ⟨m, hm, ?_⟩
    simp only [List.map_cons, List.sum_cons]
    omega

/-- The cost of a run in which the actions of one kind cost 1. -/
theorem sum_cost (p : α → Bool) (as : List α) :
    (as.map fun a => if p a then 1 else 0).sum = as.countP p := by
  induction as with
  | nil => rfl
  | cons a as ih => rw [List.map_cons, List.sum_cons, ih, List.countP_cons, Nat.add_comm]

end Transition
