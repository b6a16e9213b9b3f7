import Mathlib.Data.List.Perm.Basic

/-!
# Linearizability

Calls of an object overlap: each begins at some time, takes effect in one step
later, and returns after that. They are linearizable if an object that serves one
call at a time can give all of them the answers that they got, in an order in
which no call stands behind one that began after it had taken effect.

* `Linearization`: such an order of the calls.
* `Linearization.snoc`: a call that takes effect now goes to the end.
* `Linearization.insert`: a call that works on what another one has thrown away
  goes in front of that one, if it began before. What is said of the other places
  in the order (`Cut`) stays true.
-/

namespace Linearizability

universe u v w

/-- A call with its answer, the time when it began and the time when it took
effect. No two calls take effect at one time. -/
structure Call (Op : Type u) (Ans : Type v) where
  op : Op
  answer : Ans
  called : Nat
  done : Nat
  deriving DecidableEq

variable {Op : Type u} {Ans : Type v} {St : Type w} {apply : St → Op → Ans × St}

/-- The object gets from one state to the other, and answers each of the calls
as it was answered. -/
def Serves (apply : St → Op → Ans × St) : St → List (Call Op Ans) → St → Prop
  | s, [], t => s = t
  | s, c :: cs, t => ∃ u, apply s c.op = (c.answer, u) ∧ Serves apply u cs t

structure Linearization (apply : St → Op → Ans × St) (s : St) (calls order : List (Call Op Ans))
    (t : St) : Prop where
  perm : order.Perm calls
  serves : Serves apply s order t
  realTime : order.Pairwise fun c d => c.called ≤ d.done

/-- In the order, `d` finds the object in the state `t`, and what stands behind
it took effect later. -/
def Cut (apply : St → Op → Ans × St) (s : St) (order : List (Call Op Ans)) (d : Call Op Ans)
    (t : St) : Prop :=
  ∃ front back, order = front ++ d :: back ∧ Serves apply s front t ∧ ∀ e ∈ back, d.done ≤ e.done

theorem serves_append {s t : St} {cs ds : List (Call Op Ans)} :
    Serves apply s (cs ++ ds) t ↔ ∃ u, Serves apply s cs u ∧ Serves apply u ds t := by
  induction cs generalizing s with
  | nil => simp [Serves]
  | cons c cs ih =>
    constructor
    · rintro ⟨v, hv, h⟩
      obtain ⟨u, hcs, hds⟩ := ih.mp h
      exact ⟨u, ⟨v, hv, hcs⟩, hds⟩
    · rintro ⟨u, ⟨v, hv, hcs⟩, hds⟩
      exact ⟨v, hv, ih.mpr ⟨u, hcs, hds⟩⟩

theorem Serves.unique {s t u : St} {cs : List (Call Op Ans)} (h : Serves apply s cs t)
    (h' : Serves apply s cs u) : t = u := by
  induction cs generalizing s with
  | nil => exact h.symm.trans h'
  | cons c cs ih =>
    obtain ⟨v, hv, h⟩ := h
    obtain ⟨v', hv', h'⟩ := h'
    obtain rfl : v = v' := (Prod.mk.inj (hv.symm.trans hv')).2
    exact ih h h'

/-- What is forgotten need not have happened. -/
theorem serves_insert {s t u v : St} {c d : Call Op Ans} {front back : List (Call Op Ans)}
    (hfront : Serves apply s front u) (hc : apply u c.op = (c.answer, v))
    (hforget : apply v d.op = apply u d.op) (h : Serves apply s (front ++ d :: back) t) :
    Serves apply s (front ++ c :: d :: back) t := by
  obtain ⟨u', hfront', w, hd, hback⟩ := serves_append.mp h
  obtain rfl := hfront.unique hfront'
  exact serves_append.mpr ⟨u, hfront, v, hc, w, hforget.trans hd, hback⟩

theorem Linearization.nil (s : St) : Linearization apply s [] [] s :=
  ⟨.refl _, rfl, .nil⟩

namespace Linearization

variable {s t u v : St} {calls order : List (Call Op Ans)} {c d : Call Op Ans}

theorem snoc (h : Linearization apply s calls order t) (hc : apply t c.op = (c.answer, u))
    (hlate : ∀ e ∈ calls, e.called ≤ c.done) :
    Linearization apply s (c :: calls) (order ++ [c]) u := by
  refine ⟨(List.perm_append_singleton c order).trans (h.perm.cons c),
    serves_append.mpr ⟨t, h.serves, u, hc, rfl⟩, ?_⟩
  refine List.pairwise_append.mpr ⟨h.realTime, List.pairwise_singleton _ _, fun e he c' hc' => ?_⟩
  rw [List.mem_singleton.mp hc']
  exact hlate e (h.perm.subset he)

/-- The call at the end finds what those in front of it have left. -/
theorem cut_snoc (h : Linearization apply s calls order t) :
    Cut apply s (order ++ [c]) c t :=
  ⟨order, [], rfl, h.serves, fun _ he => absurd he List.not_mem_nil⟩

end Linearization

namespace Cut

variable {s t u v w : St} {order : List (Call Op Ans)} {c d d' : Call Op Ans}

theorem snoc (h : Cut apply s order d t) (hlate : d.done ≤ c.done) :
    Cut apply s (order ++ [c]) d t := by
  obtain ⟨front, back, rfl, hfront, hback⟩ := h
  refine ⟨front, back ++ [c], by simp, hfront, fun e he => ?_⟩
  rcases List.mem_append.mp he with he | he
  · exact hback e he
  · rwa [List.mem_singleton.mp he]

/-- A call is put in front of `d`, and `d'` finds the object as before. -/
theorem insert {front back : List (Call Op Ans)} (hfront : Serves apply s front u)
    (hc : apply u c.op = (c.answer, v)) (hforget : apply v d.op = apply u d.op)
    (h : Cut apply s (front ++ d :: back) d' w) (hne : d'.done ≠ d.done)
    (hlate : d'.done ≤ c.done) : Cut apply s (front ++ c :: d :: back) d' w := by
  obtain ⟨front', back', horder, hfront', hback'⟩ := h
  rcases List.append_eq_append_iff.mp horder with ⟨mid, rfl, hmid⟩ | ⟨mid, rfl, hmid⟩
  · -- `d'` is `d` or stands behind it
    cases mid with
    | nil =>
      obtain ⟨rfl, -⟩ := List.cons.inj hmid
      exact absurd rfl hne
    | cons e mid =>
      obtain ⟨rfl, rfl⟩ := List.cons.inj hmid
      exact ⟨front ++ c :: d :: mid, back', by simp, serves_insert hfront hc hforget hfront',
        hback'⟩
  · cases mid with
    | nil =>
      obtain ⟨rfl, -⟩ := List.cons.inj hmid
      exact absurd rfl hne
    | cons e mid =>
      obtain ⟨rfl, rfl⟩ := List.cons.inj hmid
      refine ⟨front', mid ++ c :: d :: back, by simp, hfront', fun e he => ?_⟩
      rcases List.mem_append.mp he with he | he
      · exact hback' e (List.mem_append_left _ he)
      · rcases List.mem_cons.mp he with rfl | he
        · exact hlate
        · exact hback' e (List.mem_append_right _ he)

end Cut

/-- The call begins before `d` takes effect and works on what `d` has found. -/
theorem Linearization.insert {s t u v : St} {calls order : List (Call Op Ans)}
    {c d : Call Op Ans} (h : Linearization apply s calls order t)
    (hcut : Cut apply s order d u) (hc : apply u c.op = (c.answer, v))
    (hforget : apply v d.op = apply u d.op) (hcalled : c.called ≤ d.done)
    (hlate : ∀ e ∈ calls, e.called ≤ c.done) :
    ∃ order', Linearization apply s (c :: calls) order' t ∧ Cut apply s order' d v ∧
      ∀ d' w, d'.done ≠ d.done → d'.done ≤ c.done → Cut apply s order d' w →
        Cut apply s order' d' w := by
  obtain ⟨front, back, rfl, hfront, hback⟩ := hcut
  have hbehind : ∀ e ∈ d :: back, c.called ≤ e.done := by
    intro e he
    rcases List.mem_cons.mp he with rfl | he
    · exact hcalled
    · exact Nat.le_trans hcalled (hback e he)
  refine ⟨front ++ c :: d :: back, ⟨List.perm_middle.trans (h.perm.cons c),
    serves_insert hfront hc hforget h.serves, ?_⟩,
    ⟨front ++ [c], back, by simp, serves_append.mpr ⟨u, hfront, v, hc, rfl⟩, hback⟩,
    fun d' w hne hd' hcut' => hcut'.insert hfront hc hforget hne hd'⟩
  obtain ⟨hfrontTime, hbackTime, hacross⟩ := List.pairwise_append.mp h.realTime
  refine List.pairwise_append.mpr ⟨hfrontTime, List.pairwise_cons.mpr ⟨hbehind, hbackTime⟩,
    fun e he e' he' => ?_⟩
  rcases List.mem_cons.mp he' with rfl | he'
  · exact hlate e (h.perm.subset (List.mem_append_left _ he))
  · exact hacross e he e' he'

end Linearizability
