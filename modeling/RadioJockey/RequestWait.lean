import Mathlib.Order.Interval.Finset.Nat
import RadioJockey.Quiescence
import RadioJockey.Ready

/-!
# The end of a `CreateSession` request

An RPC that has sent its created event waits for its stream. The event may stand
behind others in the channel, and the stream connects before it sends.

1. `server_reachable`: without the channels and the answers, the runs are runs of
   `Streams`.
2. `wait_ends`: from every reachable state the server and the streams can take
   boundedly many steps, and when none is due any more, every RPC that still waits
   can receive its answer, or the loop has returned. No RPC waits for another
   station to stop playing.
-/

namespace RadioJockey.Ready

open Channel Transition Streams ReadyLemmas

/-- The channels and the answers add nothing to what the server does. -/
theorem server_reachable {maxSessions : Int} {s : State}
    (h : Reachable (readySystem maxSessions) s) :
    Reachable (sessionSystem maxSessions) s.server := by
  refine h.invariant (I := fun s => Reachable (sessionSystem maxSessions) s.server) ?_ ?_
  · rintro _ rfl
    exact .init rfl
  · rintro s a t - hr - hs
    cases a with
    | server a =>
      obtain ⟨server, requests, hserver, rfl, -⟩ := State.serverStep_eq_some hs
      exact .step a hr trivial hserver
    | connect g v =>
      obtain ⟨st, n, ch, -, -, -, -, -, rfl⟩ := State.connect_eq_some hs
      exact hr
    | await n id =>
      obtain ⟨v, ch, -, -, rfl⟩ := State.await_eq_some hs
      exact hr
    | giveUp n id =>
      obtain ⟨-, rfl⟩ := State.giveUp_eq_some hs
      exact hr

/-- The steps that answer an RPC: those of the server and the outcomes of the
connections. -/
def Action.own : Action → Bool
  | .server a => a.internal
  | .connect .. => true
  | .await .. | .giveUp .. => false

/-- Of these, all but the end of a stream that nobody has cancelled. -/
def State.Due (s : State) : Action → Prop
  | .server a => s.server.Due a
  | .connect .. => True
  | .await .. | .giveUp .. => False

def Action.cost (a : Action) : Nat := if a.own then 1 else 0

def Action.credit : Action → Nat
  | .server a => 2 * a.credit
  | _ => 0

/-- The streams that have yet to send. -/
def connecting (s : State) : Finset Nat :=
  (Finset.range s.server.streams.length).filter fun g => s.bodies g = .connecting

/-- A stream costs the server two steps at least until it is started, and one is
left for its send. -/
def Potential (s : State) (k : Nat) : Prop :=
  WorkInv s.server ∧ ∃ n, Streams.Potential s.server n ∧ k = 2 * n + (connecting s).card

/-- A stream is starting only while the loop is starting it. -/
def StartInv (s : Streams.State) : Prop :=
  ∀ (g : Nat) st, s.streams[g]? = some st → st.phase = .starting → s.loop = .starting g

namespace WaitLemmas

theorem startInv_step {s t : Streams.State} {a : Streams.Action} (hinv : StartInv s)
    (h : s.step a = some t) : StartInv t := by
  cases a with
  | createSession n id archiveID =>
    obtain ⟨-, ⟨err, -, rfl⟩ | ⟨-, -, rfl⟩⟩ := Streams.State.createSession_eq_some h
    · exact hinv
    · exact hinv
  | deleteSession n id =>
    obtain ⟨-, rfl⟩ := Streams.State.deleteSession_eq_some h
    exact hinv
  | endSession g =>
    obtain ⟨st, -, -, -, rfl⟩ := Streams.State.endSession_eq_some h
    exact hinv
  | abandon c =>
    obtain ⟨e, -, -, rfl⟩ := Streams.State.abandon_eq_some h
    exact hinv
  | send c =>
    obtain ⟨e, m, -, -, rfl⟩ := Streams.State.send_eq_some h
    exact hinv
  | cancelCall c | shutdown | closeEvents =>
    cases h
    exact hinv
  | receive =>
    obtain ⟨hl, ⟨e, m, -, rfl⟩ | ⟨-, -, rfl⟩⟩ := Streams.State.receive_eq_some h
    all_goals
      intro g st hst hp
      cases hl.symm.trans (hinv g st hst hp)
  | loopDone =>
    obtain ⟨hl, -, rfl⟩ := Streams.State.loopDone_eq_some h
    intro g st hst hp
    cases hl.symm.trans (hinv g st hst hp)
  | getQueue =>
    obtain ⟨e, hl, -, ⟨-, rfl⟩ | ⟨q, -, rfl⟩⟩ := Streams.State.getQueue_eq_some h
    · intro g st hst hp
      cases hl.symm.trans (hinv g st hst hp)
    · intro g st hst hp
      dsimp only at hst ⊢
      rw [List.getElem?_append] at hst
      split at hst
      · cases hl.symm.trans (hinv g st hst hp)
      · next hlen =>
        have hzero : g - s.streams.length = 0 :=
          Nat.lt_one_iff.mp (List.getElem?_eq_some_iff.mp hst).1
        rw [show g = s.streams.length by omega]
  | start =>
    obtain ⟨g₀, st₀, hl, hst₀, rfl⟩ := Streams.State.start_eq_some h
    intro g st hst hp
    rcases CancelsLemmas.stream_of_set hst with ⟨-, rfl⟩ | ⟨hne, hst⟩
    · cases hp
    · cases hl.symm.trans (hinv g st hst hp)
      exact absurd rfl hne
  | cancelStream =>
    obtain ⟨e, hl, -, ⟨-, rfl⟩ | ⟨g₀, st₀, -, hst₀, rfl⟩⟩ := Streams.State.cancelStream_eq_some h
    · intro g st hst hp
      cases hl.symm.trans (hinv g st hst hp)
    · intro g st hst hp
      rcases CancelsLemmas.stream_of_set hst with ⟨-, rfl⟩ | ⟨-, hst⟩
      · cases hl.symm.trans (hinv g₀ st₀ hst₀ hp)
      · cases hl.symm.trans (hinv g st hst hp)
  | endStream g₀ =>
    obtain ⟨st₀, -, -, rfl⟩ := Streams.State.endStream_eq_some h
    intro g st hst hp
    rcases CancelsLemmas.stream_of_set hst with ⟨-, rfl⟩ | ⟨-, hst⟩
    · cases hp
    · exact hinv g st hst hp

theorem startInv_reach {maxSessions : Int} {s : Streams.State}
    (h : Reachable (sessionSystem maxSessions) s) : StartInv s := by
  refine h.invariant ?_ ?_
  · rintro _ rfl g st hst
    cases hst
  · exact fun s a t _ hi _ hs => startInv_step hi hs

theorem potential_step {s t : State} {a : Action} {k : Nat} (hk : Potential s k)
    (h : s.step a = some t) : ∃ m, Potential t m ∧ m + a.cost ≤ k + a.credit := by
  obtain ⟨hwork, n, hn, rfl⟩ := hk
  cases a with
  | server a =>
    obtain ⟨server, requests, hs, rfl, -⟩ := State.serverStep_eq_some h
    obtain ⟨m, hm, hle⟩ := QuiescenceLemmas.potential_action hwork hn hs
    have hlen := (streams_step hs).length
    refine ⟨_, ⟨QuiescenceLemmas.workInv_step hwork hs, m, hm, rfl⟩, ?_⟩
    -- at most one stream is new
    have hcard : (connecting { s with server := server, requests := requests }).card ≤
        (connecting s).card + a.cost := by
      have hsub : connecting { s with server := server, requests := requests } ⊆
          connecting s ∪ Finset.Ico s.server.streams.length server.streams.length := by
        intro g hg
        obtain ⟨hlt, hb⟩ := Finset.mem_filter.mp hg
        rcases Nat.lt_or_ge g s.server.streams.length with h | h
        · exact Finset.mem_union_left _ (Finset.mem_filter.mpr ⟨Finset.mem_range.mpr h, hb⟩)
        · exact Finset.mem_union_right _ (Finset.mem_Ico.mpr ⟨h, Finset.mem_range.mp hlt⟩)
      have hunion := (Finset.card_le_card hsub).trans (Finset.card_union_le _ _)
      rw [Nat.card_Ico] at hunion
      omega
    have hcost : (Action.server a).cost = a.cost := rfl
    have hcredit : (Action.server a).credit = 2 * a.credit := rfl
    omega
  | connect g v =>
    obtain ⟨st, n', ch, hst, -, -, hb, -, rfl⟩ := State.connect_eq_some h
    refine ⟨_, ⟨hwork, n, hn, rfl⟩, ?_⟩
    have hmem : g ∈ connecting s :=
      Finset.mem_filter.mpr
        ⟨Finset.mem_range.mpr (List.getElem?_eq_some_iff.mp hst).1, hb⟩
    have hsub : connecting { s with
        ready := Function.update s.ready n' ch
        bodies := Function.update s.bodies g (.signalled v)
        signals := (n', g, v) :: s.signals } ⊆ (connecting s).erase g := by
      intro g' hg'
      obtain ⟨hlt, hb'⟩ := Finset.mem_filter.mp hg'
      dsimp only at hlt hb'
      have hne : g' ≠ g := by
        rintro rfl
        rw [Function.update_self] at hb'
        cases hb'
      rw [Function.update_of_ne hne] at hb'
      exact Finset.mem_erase.mpr ⟨hne, Finset.mem_filter.mpr ⟨hlt, hb'⟩⟩
    have hcard := Finset.card_le_card hsub
    rw [Finset.card_erase_of_mem hmem] at hcard
    have hpos := Finset.card_pos.mpr ⟨g, hmem⟩
    have hcost : (Action.connect g v).cost = 1 := rfl
    omega
  | await n' id =>
    obtain ⟨v, ch, -, -, rfl⟩ := State.await_eq_some h
    exact ⟨_, ⟨hwork, n, hn, rfl⟩, Nat.le_refl _⟩
  | giveUp n' id =>
    obtain ⟨-, rfl⟩ := State.giveUp_eq_some h
    exact ⟨_, ⟨hwork, n, hn, rfl⟩, Nat.le_refl _⟩

theorem closed_of_own {s t : State} {a : Action} (ha : a.own = true) (h : s.step a = some t) :
    t.server.closed = s.server.closed := by
  cases a with
  | server a =>
    obtain ⟨server, requests, hs, rfl, -⟩ := State.serverStep_eq_some h
    exact QuiescenceLemmas.closed_of_internal ha hs
  | connect g v =>
    obtain ⟨st, n, ch, -, -, -, -, -, rfl⟩ := State.connect_eq_some h
    rfl
  | await n id | giveUp n id => cases ha

theorem credit_of_own {a : Action} (h : a.own = true) : a.credit = 0 := by
  cases a with
  | server a => cases a <;> first | rfl | cases h
  | connect g v => rfl
  | await n id | giveUp n id => cases h

theorem sum_own {as : List Action} (h : ∀ a ∈ as, a.own = true) :
    (as.map Action.cost).sum = as.length ∧ (as.map Action.credit).sum = 0 := by
  have hcost : (as.map Action.cost).sum = as.countP Action.own := sum_cost Action.own as
  refine ⟨hcost.trans (List.countP_eq_length.mpr h), List.sum_eq_zero fun n hn => ?_⟩
  obtain ⟨a, ha, rfl⟩ := List.mem_map.mp hn
  exact credit_of_own (h a ha)

/-- When nothing is due, the streams have sent, and so has the stream of any RPC
that still waits. -/
theorem await_of_stuck {s : State} (hevent : EventInv s) (hsignal : SignalInv s)
    (hstart : StartInv s.server) (hwork : WorkInv s.server) (hopen : s.server.closed = false)
    (hl : s.server.loop ≠ .returned) (hstuck : ∀ a, s.Due a → s.step a = none)
    {n : Nat} {id : SessionID} (hw : s.Waits n id) : ∃ t, s.await n id = some t := by
  have hsent : ∀ (g : Nat) st, s.server.streams[g]? = some st → st.phase = .running →
      s.bodies g ≠ .connecting := by
    intro g st hst hp hb
    obtain ⟨t, ht⟩ := connect_of_connecting hevent hsignal hst hp hb .connected
    cases (hstuck (.connect g .connected) trivial).symm.trans ht
  have hserver : ∀ a, s.server.Due a → s.server.step a = none := by
    intro a ha
    have hnone := hstuck (.server a) ha
    by_contra hsome
    obtain ⟨server, hs⟩ := Option.ne_none_iff_exists'.mp hsome
    have hstep : ∃ t, s.serverStep a = some t := by
      cases a with
      | createSession n id archiveID => cases ha
      | endStream g =>
        -- the only step of the server that waits for the body of a stream
        obtain ⟨st, hst, hp, -⟩ := Streams.State.endStream_eq_some hs
        have hs' : s.server.endStream g = some server := hs
        have hstep' : s.server.step (.endStream g) = some server := hs
        simp only [State.serverStep, if_neg (hsent g st hst hp), hstep', Option.map_some]
        exact ⟨_, rfl⟩
      | _ =>
        simp only [State.serverStep, hs, Option.map_some]
        exact ⟨_, rfl⟩
    obtain ⟨t, ht⟩ := hstep
    cases hnone.symm.trans ht
  -- the server is at rest, so the RPC's event has been made a stream
  have hrest := QuiescenceLemmas.atRest_of_stuck hwork hopen hl hserver
  obtain ⟨hreq, hret, ha⟩ := hw
  obtain ⟨e, he, hn⟩ := (hevent.waiting n id hreq hret).resolve_right hl
  have hinbox : s.server.inbox = [] := by
    rw [State.inbox_idle hrest.loop, hrest.events]
  rw [delivered, hinbox, List.filter_nil, List.append_nil, given, List.map_map] at he
  obtain ⟨st, hmem, rfl⟩ := List.mem_map.mp he
  obtain ⟨g, hst⟩ := List.mem_iff_getElem?.mp hmem
  have hb : s.bodies g ≠ .connecting := by
    cases hp : st.phase with
    | starting => cases hrest.loop.symm.trans (hstart g st hst hp)
    | running => exact hsent g st hst hp
    | ended => exact hsignal.ended g st hst hp
  obtain ⟨v, hv⟩ : ∃ v, s.bodies g = .signalled v := by
    cases hbody : s.bodies g with
    | connecting => exact absurd hbody hb
    | signalled v => exact ⟨v, rfl⟩
  obtain ⟨n', hsignals⟩ := (hsignal.body g v).mp hv
  obtain ⟨st', hst', hc'⟩ := hsignal.stream n' g v hsignals
  cases hst.symm.trans hst'
  cases hn.symm.trans hc'
  have hbuf := hsignal.unanswered n g v hsignals ha
  have hrecv : (s.ready n).recv? = some (v, .make) := Chan.recv?_eq_some.mpr hbuf
  have hw : s.Waits n id := ⟨hreq, hret, ha⟩
  simp only [State.await, if_pos hw, hrecv, Option.map_some]
  exact ⟨_, rfl⟩

end WaitLemmas

open WaitLemmas

/-- From every reachable state, as long as nobody closes `Events`: the server
and the streams can take boundedly many steps, and when none is due any more,
every RPC that still waits can receive its answer, or the loop has returned. -/
theorem wait_ends {maxSessions : Int} {s : State} (h : Reachable (readySystem maxSessions) s)
    (hopen : s.server.closed = false) :
    ∃ bound, ∀ as t, (∀ a ∈ as, a.own = true) → run (readySystem maxSessions) s as = some t →
      as.length ≤ bound ∧ ((∀ a, t.Due a → t.step a = none) →
        (∀ n id, t.Waits n id → ∃ u, t.await n id = some u) ∨ t.server.loop = .returned) := by
  have hserver := server_reachable h
  obtain ⟨hwork, n, hn⟩ := QuiescenceLemmas.work_reachable hserver
  refine ⟨2 * n + (connecting s).card, fun as t has hr => ⟨?_, fun hstuck => ?_⟩⟩
  · have hstep : ∀ s a t k, a.own = true → Potential s k →
        (readySystem maxSessions).step s a = some t →
          ∃ m, Potential t m ∧ m + a.cost ≤ k + a.credit :=
      fun _ _ _ _ _ hk hs => potential_step hk hs
    obtain ⟨m, -, hle⟩ := run_amortized hstep has ⟨hwork, n, hn, rfl⟩ hr
    obtain ⟨hcost, hcredit⟩ := sum_own has
    omega
  · have ht : Reachable (readySystem maxSessions) t := h.run (fun _ _ _ => trivial) hr
    obtain ⟨hevent, hsignal⟩ := invs_reach ht
    have hstart := startInv_reach (server_reachable ht)
    have hwork' := (QuiescenceLemmas.work_reachable (server_reachable ht)).1
    have hopen' : t.server.closed = false :=
      run_keeps (I := fun s => s.server.closed = false)
        (fun _ _ _ ha hi hs => (closed_of_own ha hs).trans hi) has hopen hr
    by_cases hl : t.server.loop = .returned
    · exact .inr hl
    · exact .inl fun n id hw => await_of_stuck hevent hsignal hstart hwork' hopen' hl hstuck hw

/-- The stream of a waiting RPC is connecting, while another station plays. -/
theorem wait_ends_connecting : ∃ s : State, s.Waits 1 "lounge" ∧ s.bodies 1 = .connecting ∧
    s.server.streams.map Stream.phase = [.running, .running] ∧
      ∃ bound, ∀ as t, (∀ a ∈ as, a.own = true) → run (readySystem 50) s as = some t →
        as.length ≤ bound ∧ ((∀ a, t.Due a → t.step a = none) →
          (∀ n id, t.Waits n id → ∃ u, t.await n id = some u) ∨ t.server.loop = .returned) := by
  obtain ⟨s, hs, hp⟩ := Reachable.of_run (S := readySystem 50)
    (p := fun s => decide (s.Waits 1 "lounge" ∧ s.bodies 1 = .connecting ∧
      s.server.streams.map Stream.phase = [.running, .running] ∧ s.server.closed = false))
    [.server (.createSession 0 "station" none), .server (.send (.rpc 0)), .server .receive,
      .server .getQueue, .server .start, .connect 0 .connected, .await 0 "station",
      .server (.createSession 1 "lounge" none), .server (.send (.rpc 1)), .server .receive,
      .server .getQueue, .server .start]
    rfl (by decide)
  obtain ⟨hw, hb, hphases, hopen⟩ := of_decide_eq_true hp
  exact ⟨s, hw, hb, hphases, wait_ends hs hopen⟩

end RadioJockey.Ready
