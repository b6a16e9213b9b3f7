import RadioJockey.Streams

/-!
# What the end of a stream tears down

The deferred `endSession` deletes by id. The id may have been freed and taken
again while the stream was still ending, so the entry that it removes need not
be its own.

1. `tears_down_other`: the late end of an old stream removes the entry of a
   newer session, and its deleted event cancels the newer stream.
2. `tears_down_own`: in every run in which an id is registered again only after
   the old streams of that id have torn down, a stream removes at most the
   queue it played, and its deleted event cancels no stream of a later queue.
-/

namespace RadioJockey.Streams

open Transition

/-- The goroutine `g` plays the queue `q` for the session `id`. -/
def Plays (s : State) (g : Nat) (id : SessionID) (q : QueueRef) : Prop :=
  ∃ st, s.streams[g]? = some st ∧ st.sessionID = id ∧ st.queue = q

theorem Plays.unique {s : State} {g : Nat} {id id' : SessionID} {q q' : QueueRef}
    (h : Plays s g id q) (h' : Plays s g id' q') : id = id' ∧ q = q' := by
  obtain ⟨st, hst, rfl, rfl⟩ := h
  obtain ⟨st', hst', rfl, rfl⟩ := h'
  rw [hst] at hst'
  cases hst'
  exact ⟨rfl, rfl⟩

/-- The `DeleteSession` call of `g` has yet to be made, or to return. -/
def Unfinished (s : State) (g : Nat) : Prop :=
  ∀ err, s.calls (.stream g) ≠ .returned err

/-- The effect tears down nothing that belongs to a later session: a stream
erases the queue it plays or nothing, and cancels only streams of that queue or
of an older one. -/
def Effect.Own (s : State) : Effect → Prop
  | .erased (.stream g) id (some q) => Plays s g id q
  | .cancelled (.stream g) g' => ∃ id q q', Plays s g id q ∧ Plays s g' id q' ∧ q' ≤ q
  | _ => True

def OwnTeardown (s : State) : Prop := ∀ eff ∈ s.history, eff.Own s

/-- `e` is a created and `d` a deleted event of a stream, for the same id. -/
def CreatedBefore (e d : SessionManagerEvent) : Prop :=
  e.type = .sessionCreated ∧ d.type = .sessionDeleted ∧ e.sessionID = d.sessionID ∧
    ∃ g, d.caller = .stream g

/-- Nothing is left of the streams of `id`: their calls have returned, and the
deleted event of none of them waits behind a created event for `id`. -/
def TornDown (s : State) (id : SessionID) : Prop :=
  (∀ g q, Plays s g id q → ¬ Unfinished s g) ∧
  s.inbox.Pairwise fun e d => CreatedBefore e d → d.sessionID ≠ id

/-- The guard of `tears_down_own`: an id is registered (it is free, and there is
room for it) only when nothing is left of its streams. -/
def ReuseAfterTeardown (s : State) : Action → Prop
  | .createSession _ id _ => s.manager.sessions.lookup id = none →
    (s.manager.sessions.entries.length : Int) < s.manager.maxSessions → TornDown s id
  | _ => True

/-- A session is deleted and created again while its stream is still ending.
The old stream's `endSession` removes the new session's entry, and its deleted
event cancels the new stream. -/
theorem tears_down_other :
    ∃ s, Reachable (sessionSystem 50) s ∧ Plays s 0 "station" 0 ∧ Plays s 1 "station" 1 ∧
      .erased (.stream 0) "station" (some 1) ∈ s.history ∧
      .cancelled (.stream 0) 1 ∈ s.history ∧ ¬ OwnTeardown s := by
  obtain ⟨s, hs, hp⟩ := Reachable.of_run (S := sessionSystem 50)
    (p := fun s => decide (
      s.streams.map (fun st => (st.sessionID, st.queue)) = [("station", 0), ("station", 1)] ∧
      .erased (.stream 0) "station" (some 1) ∈ s.history ∧
      .cancelled (.stream 0) 1 ∈ s.history))
    [.createSession 0 "station" none, .send (.rpc 0), .receive, .getQueue, .start,
      .deleteSession 1 "station", .send (.rpc 1), .receive, .cancelStream,
      .createSession 2 "station" none, .send (.rpc 2), .receive, .getQueue, .start,
      .endStream 0, .endSession 0, .send (.stream 0), .receive, .cancelStream]
    rfl (by decide)
  obtain ⟨hst, he, hc⟩ := of_decide_eq_true hp
  have plays : ∀ g q, (s.streams.map fun st => (st.sessionID, st.queue))[g]? =
      some ("station", q) → Plays s g "station" q := by
    intro g q h
    rw [List.getElem?_map, Option.map_eq_some_iff] at h
    obtain ⟨st, hget, heq⟩ := h
    exact ⟨st, hget, congrArg Prod.fst heq, congrArg Prod.snd heq⟩
  have hplays : Plays s 0 "station" 0 := plays 0 0 (by rw [hst]; rfl)
  refine ⟨s, hs, hplays, plays 1 1 (by rw [hst]; rfl), he, hc, fun hown => ?_⟩
  -- stream 0 plays queue 0 only, and erased queue 1
  cases (hplays.unique (hown _ he)).2

/-- The invariant behind `tears_down_own`. Queues are numbered in the order of
their registration, so `q' ≤ q` says that `q'` is not of a later session. -/
structure TeardownInv (s : State) : Prop where
  own : OwnTeardown s
  allocated : ∀ g id q, Plays s g id q → q < s.manager.queues.length
  newest : ∀ id q, s.manager.sessions.lookup id = some q → ∀ g q', Plays s g id q' → q' ≤ q
  /-- While a stream is unfinished, its id is not registered anew. -/
  latest : ∀ g id q, Plays s g id q → Unfinished s g →
    (∀ q', s.manager.sessions.lookup id = some q' → q' = q) ∧ ∀ g' q', Plays s g' id q' → q' ≤ q
  caller : ∀ c e, s.calls c = .sending e → e.caller = c
  /-- While a stream sends its deleted event, its id is free. -/
  pending : ∀ g e, s.calls (.stream g) = .sending e →
    e.type = .sessionDeleted ∧ s.manager.sessions.lookup e.sessionID = none ∧
      ∃ q, Plays s g e.sessionID q
  /-- While a deleted event is on its way, no stream of a later queue starts. -/
  sent : ∀ d ∈ s.inbox, d.type = .sessionDeleted → ∀ g, d.caller = .stream g →
    ∃ q, Plays s g d.sessionID q ∧ ∀ g' q', Plays s g' d.sessionID q' → q' ≤ q
  order : s.inbox.Pairwise fun e d => CreatedBefore e d → ∀ g, d.caller = .stream g →
    ∀ q, Plays s g d.sessionID q → ∀ q', s.manager.sessions.lookup d.sessionID = some q' → q' ≤ q
  cancels : ∀ id g, s.cancels.lookup id = some g → ∃ q, Plays s g id q

namespace TeardownLemmas

/-- Changing the phase or the cancelled flag of a stream changes nothing about
what it plays. -/
theorem plays_set {s t : State} {g₀ : Nat} {st : Stream} (st' : Stream)
    (hst : s.streams[g₀]? = some st)
    (ht : t.streams = s.streams.set g₀ st') (he : st'.event = st.event)
    (hq : st'.queue = st.queue) {g : Nat} {id : SessionID} {q : QueueRef} :
    Plays t g id q ↔ Plays s g id q := by
  unfold Plays
  rw [ht]
  by_cases hg : g₀ = g
  · subst hg
    have hlt : g₀ < s.streams.length := (List.getElem?_eq_some_iff.mp hst).1
    rw [List.getElem?_set_self hlt, hst]
    simp only [Option.some.injEq, exists_eq_left', Stream.sessionID, he, hq]
  · rw [List.getElem?_set_ne hg]

/-- The stream that is started has the number `s.streams.length`. -/
theorem plays_append {s t : State} (st : Stream) (ht : t.streams = s.streams ++ [st]) {g : Nat}
    {id : SessionID} {q : QueueRef} :
    Plays t g id q ↔
      Plays s g id q ∨ g = s.streams.length ∧ id = st.sessionID ∧ q = st.queue := by
  unfold Plays
  rw [ht, List.getElem?_append]
  split
  · next hlt =>
    refine ⟨.inl, ?_⟩
    rintro (h | ⟨rfl, -⟩)
    · exact h
    · exact absurd hlt (Nat.lt_irrefl _)
  · next hge =>
    constructor
    · rintro ⟨st', hst, rfl, rfl⟩
      obtain ⟨hlen, rfl⟩ := List.getElem?_eq_some_iff.mp hst
      have hg : g = s.streams.length := by
        rw [List.length_singleton] at hlen
        omega
      subst hg
      refine .inr ⟨rfl, ?_, ?_⟩ <;> simp
    · rintro (⟨st', hst, -⟩ | ⟨rfl, rfl, rfl⟩)
      · exact absurd (List.getElem?_eq_some_iff.mp hst).1 hge
      · exact ⟨st, by simp, rfl, rfl⟩

theorem own_mono {s t : State} (hplays : ∀ g id q, Plays s g id q → Plays t g id q)
    {eff : Effect} (h : eff.Own s) : eff.Own t := by
  cases eff with
  | registered c id q => trivial
  | erased c id old =>
    cases c with
    | rpc n => trivial
    | stream g => cases old with
      | none => trivial
      | some q => exact hplays g id q h
  | sent e => trivial
  | cancelled c g' =>
    cases c with
    | rpc n => trivial
    | stream g =>
      obtain ⟨id, q, q', hg, hg', hle⟩ := h
      exact ⟨id, q, q', hplays _ _ _ hg, hplays _ _ _ hg', hle⟩

theorem order_sublist {s t : State} (hinv : TeardownInv s)
    (hplays : ∀ g id q, Plays t g id q ↔ Plays s g id q)
    (hlookup : ∀ id q, t.manager.sessions.lookup id = some q →
      s.manager.sessions.lookup id = some q)
    {l : List SessionManagerEvent} (hl : l.Sublist s.inbox) :
    l.Pairwise fun e d => CreatedBefore e d → ∀ g, d.caller = .stream g →
      ∀ q, Plays t g d.sessionID q → ∀ q', t.manager.sessions.lookup d.sessionID = some q' →
        q' ≤ q := by
  refine (hinv.order.sublist hl).imp ?_
  intro e d h hb g hg q hq q' hq'
  exact h hb g hg q ((hplays _ _ _).mp hq) q' (hlookup _ _ hq')

/-- A step that starts no stream, registers nothing and sends nothing. -/
theorem teardownInv_frame {s t : State} (hinv : TeardownInv s)
    (hplays : ∀ g id q, Plays t g id q ↔ Plays s g id q)
    (hlookup : ∀ id q, t.manager.sessions.lookup id = some q →
      s.manager.sessions.lookup id = some q)
    (hqueues : t.manager.queues = s.manager.queues)
    (hsending : ∀ c e, t.calls c = .sending e →
      s.calls c = .sending e ∨ e.caller = c ∧ ∀ g, c = .stream g → e.type = .sessionDeleted ∧
        t.manager.sessions.lookup e.sessionID = none ∧ ∃ q, Plays s g e.sessionID q)
    (hreturned : ∀ c err, s.calls c = .returned err → t.calls c = .returned err)
    (hinbox : t.inbox.Sublist s.inbox)
    (hcancels : ∀ id g, t.cancels.lookup id = some g → ∃ q, Plays s g id q)
    (hown : ∀ eff ∈ t.history, eff ∈ s.history ∨ eff.Own s) : TeardownInv t where
  own := by
    intro eff heff
    refine own_mono (fun g id q => (hplays g id q).mpr) ?_
    rcases hown eff heff with h | h
    · exact hinv.own eff h
    · exact h
  allocated := by
    intro g id q h
    rw [hqueues]
    exact hinv.allocated g id q ((hplays g id q).mp h)
  newest := by
    intro id q hq g q' h
    exact hinv.newest id q (hlookup id q hq) g q' ((hplays _ _ _).mp h)
  latest := by
    intro g id q h hu
    have hu' : Unfinished s g := fun err he => hu err (hreturned _ _ he)
    obtain ⟨hreg, hmax⟩ := hinv.latest g id q ((hplays _ _ _).mp h) hu'
    exact ⟨fun q' hq' => hreg q' (hlookup _ _ hq'),
      fun g' q' h' => hmax g' q' ((hplays _ _ _).mp h')⟩
  caller := by
    intro c e h
    rcases hsending c e h with h | ⟨h, -⟩
    · exact hinv.caller c e h
    · exact h
  pending := by
    intro g e h
    rcases hsending _ e h with h | ⟨-, h⟩
    · obtain ⟨ht, hfree, q, hq⟩ := hinv.pending g e h
      refine ⟨ht, ?_, q, (hplays _ _ _).mpr hq⟩
      cases hl : t.manager.sessions.lookup e.sessionID with
      | none => rfl
      | some q' => rw [hlookup _ _ hl] at hfree; cases hfree
    · obtain ⟨ht, hfree, q, hq⟩ := h g rfl
      exact ⟨ht, hfree, q, (hplays _ _ _).mpr hq⟩
  sent := by
    intro d hd ht g hg
    obtain ⟨q, hq, hmax⟩ := hinv.sent d (hinbox.subset hd) ht g hg
    exact ⟨q, (hplays _ _ _).mpr hq, fun g' q' h' => hmax g' q' ((hplays _ _ _).mp h')⟩
  order := order_sublist hinv hplays hlookup hinbox
  cancels := by
    intro id g h
    obtain ⟨q, hq⟩ := hcancels id g h
    exact ⟨q, (hplays _ _ _).mpr hq⟩

/-- A call that returns an error. -/
theorem teardownInv_fail {s : State} {c : Caller} (hinv : TeardownInv s) (err : SessionError)
    (hc : ∀ err, s.calls c ≠ .returned err) :
    TeardownInv { s with calls := Function.update s.calls c (.returned (some err)) } := by
  exact teardownInv_frame hinv (fun _ _ _ => Iff.rfl) (fun _ _ h => h) rfl
    (fun _ _ h => .inl (State.sending_of_returned h)) (State.returned_update _ hc)
    (List.Sublist.refl _) hinv.cancels fun _ h => .inl h

theorem teardownInv_delete {s t : State} {c : Caller} {id : SessionID} (hinv : TeardownInv s)
    (hidle : s.calls c = .idle)
    (hc : ∀ g, c = .stream g → ∃ q, Plays s g id q)
    (ht : t = { s with
      manager := s.manager.deleteSession id
      calls := Function.update s.calls c (.sending ⟨.sessionDeleted, id, c⟩)
      history := .erased c id (s.manager.sessions.lookup id) :: s.history }) : TeardownInv t := by
  subst ht
  refine teardownInv_frame hinv (fun _ _ _ => Iff.rfl)
    (fun _ _ h => (SessionManager.lookup_of_deleteSession h).2) rfl ?_ ?_ (List.Sublist.refl _)
    ?_ ?_
  · intro c' e h
    rcases State.sending_of_update h with ⟨rfl, h⟩ | ⟨-, h⟩
    · cases h
      exact .inr ⟨rfl, fun g hg => ⟨rfl, SessionManager.deleteSession_lookup _ _, hc g hg⟩⟩
    · exact .inl h
  · exact State.returned_update _ (by simp [hidle])
  · exact hinv.cancels
  · intro eff heff
    rcases List.mem_cons.mp heff with rfl | heff
    · refine .inr ?_
      cases c with
      | rpc n => trivial
      | stream g => cases hl : s.manager.sessions.lookup id with
        | none => trivial
        | some old =>
          -- the stream is unfinished, so the registered queue is its own
          obtain ⟨q, hq⟩ := hc g rfl
          have hu : Unfinished s g := fun err he => by rw [hidle] at he; cases he
          have hold : old = q := (hinv.latest g id q hq hu).1 old hl
          exact hold ▸ hq
    · exact .inl heff

theorem teardownInv_register {s t : State} {n : Nat} {id : SessionID} {archiveID : Option Int}
    (hinv : TeardownInv s) (hg : TornDown s id)
    (ht : t = { s with
      manager := s.manager.register id archiveID
      calls := Function.update s.calls (.rpc n) (.sending ⟨.sessionCreated, id, .rpc n⟩)
      history := .registered (.rpc n) id s.manager.queues.length :: s.history }) :
    TeardownInv t := by
  subst ht
  have hstream : ∀ g, Function.update s.calls (.rpc n)
      (.sending ⟨.sessionCreated, id, .rpc n⟩) (.stream g) = s.calls (.stream g) := by
    intro g
    rw [Function.update_of_ne]
    nofun
  have hne : ∀ g q id', Plays s g id' q → Unfinished s g → id' ≠ id := by
    rintro g q id' h hu rfl
    exact hg.1 g q h hu
  constructor
  case own =>
    intro eff heff
    rcases List.mem_cons.mp heff with rfl | heff
    · trivial
    · exact hinv.own eff heff
  case allocated =>
    intro g id' q h
    rw [SessionManager.register_length]
    exact Nat.lt_succ_of_lt (hinv.allocated g id' q h)
  case newest =>
    intro id' q hq g q' h
    by_cases he : id' = id
    · subst he
      rw [SessionManager.register_lookup] at hq
      cases hq
      exact Nat.le_of_lt (hinv.allocated g id' q' h)
    · rw [SessionManager.register_lookup_ne _ _ he] at hq
      exact hinv.newest id' q hq g q' h
  case latest =>
    intro g id' q h hu
    have hu' : Unfinished s g := fun err he => hu err ((hstream g).trans he)
    rw [SessionManager.register_lookup_ne _ _ (hne g q id' h hu')]
    exact hinv.latest g id' q h hu'
  case caller =>
    intro c e h
    rcases State.sending_of_update h with ⟨hc, he⟩ | ⟨-, h⟩
    · cases he
      exact hc.symm
    · exact hinv.caller c e h
  case pending =>
    intro g e h
    have h' : s.calls (.stream g) = .sending e := (hstream g).symm.trans h
    obtain ⟨ht, hfree, q, hq⟩ := hinv.pending g e h'
    have hu : Unfinished s g := fun err he => by rw [h'] at he; cases he
    refine ⟨ht, ?_, q, hq⟩
    rw [SessionManager.register_lookup_ne _ _ (hne g q _ hq hu)]
    exact hfree
  case sent => exact hinv.sent
  case order =>
    refine (hinv.order.and hg.2).imp ?_
    rintro e d ⟨h, hid⟩ hb g hgd q hq q' hq'
    rw [SessionManager.register_lookup_ne _ _ (hid hb)] at hq'
    exact h hb g hgd q hq q' hq'
  case cancels => exact hinv.cancels

theorem teardownInv_send {s t : State} {c : Caller} (hinv : TeardownInv s)
    (h : s.send c = some t) : TeardownInv t := by
  obtain ⟨e, m, hc, hm, rfl⟩ := State.send_eq_some h
  obtain ⟨-, hb, hs, hq, -⟩ := SessionManager.send_eq_some hm
  have hcaller : e.caller = c := hinv.caller c e hc
  have hinbox := State.inbox_send (s := s) (Function.update s.calls c (.returned none))
    (.sent e :: s.history) hb
  have hreturned := State.returned_update (.returned none) (f := s.calls) (c := c) (by simp [hc])
  constructor
  case own =>
    intro eff heff
    rcases List.mem_cons.mp heff with rfl | heff
    · trivial
    · exact hinv.own eff heff
  case allocated => exact fun g id q h => hq ▸ hinv.allocated g id q h
  case newest => exact fun id q h => hinv.newest id q (hs ▸ h)
  case latest =>
    intro g id q h hu
    rw [hs]
    exact hinv.latest g id q h fun err he => hu err (hreturned _ _ he)
  case caller => exact fun c' e' h => hinv.caller c' e' (State.sending_of_returned h)
  case pending =>
    intro g e' h
    rw [hs]
    exact hinv.pending g e' (State.sending_of_returned h)
  case sent =>
    rw [hinbox]
    intro d hd ht g hg
    rcases List.mem_append.mp hd with hd | hd
    · exact hinv.sent d hd ht g hg
    · cases List.mem_singleton.mp hd
      -- the sender was unfinished, so no stream of a later queue has started
      obtain rfl : c = .stream g := hcaller.symm.trans hg
      obtain ⟨-, -, q, hq⟩ := hinv.pending g e hc
      have hu : Unfinished s g := fun err he => by rw [hc] at he; cases he
      exact ⟨q, hq, (hinv.latest g _ q hq hu).2⟩
  case order =>
    rw [hinbox, List.pairwise_append]
    refine ⟨?_, List.pairwise_singleton _ _, ?_⟩
    · show s.inbox.Pairwise _
      rw [hs]
      exact hinv.order
    · intro x _ d hd _ g hg q _ q' hq'
      -- the id of a deleted event is free while it is sent
      cases List.mem_singleton.mp hd
      obtain rfl : c = .stream g := hcaller.symm.trans hg
      have hfree := (hinv.pending g e hc).2.1
      change m.sessions.lookup _ = _ at hq'
      rw [hs, hfree] at hq'
      cases hq'
  case cancels => exact hinv.cancels

theorem teardownInv_getQueue {s t : State} (hinv : TeardownInv s) (h : s.getQueue = some t) :
    TeardownInv t := by
  obtain ⟨e, hl, ht, ⟨hnone, rfl⟩ | ⟨q₀, hq₀, rfl⟩⟩ := State.getQueue_eq_some h
  · exact teardownInv_frame hinv (fun _ _ _ => Iff.rfl) (fun _ _ h => h) rfl
      (fun _ _ h => .inl h) (fun _ _ h => h) (State.tail_sublist hl) hinv.cancels fun _ h => .inl h
  · have hinbox : s.inbox = e :: s.manager.events.buf := State.inbox_received hl
    have hplays : ∀ g id q, Plays { s with
        streams := s.streams ++ [⟨e, q₀, false, .starting⟩]
        loop := .starting s.streams.length } g id q ↔
        Plays s g id q ∨ g = s.streams.length ∧ id = e.sessionID ∧ q = q₀ :=
      fun _ _ _ => plays_append ⟨e, q₀, false, .starting⟩ rfl
    have hnew : ∀ g q, Plays s g e.sessionID q → q ≤ q₀ := hinv.newest _ _ hq₀
    constructor
    case own =>
      intro eff heff
      exact own_mono (fun g id q h => (hplays g id q).mpr (.inl h)) (hinv.own eff heff)
    case allocated =>
      intro g id q h
      rcases (hplays g id q).mp h with h | ⟨-, -, rfl⟩
      · exact hinv.allocated g id q h
      · exact s.manager.allocated _ _ hq₀
    case newest =>
      intro id q hq g q' h
      rcases (hplays g id q').mp h with h | ⟨-, rfl, rfl⟩
      · exact hinv.newest id q hq g q' h
      · change s.manager.sessions.lookup _ = _ at hq
        rw [hq₀] at hq
        cases hq
        exact Nat.le_refl _
    case latest =>
      intro g id q h hu
      rcases (hplays g id q).mp h with h | ⟨-, rfl, rfl⟩
      · obtain ⟨hreg, hmax⟩ := hinv.latest g id q h hu
        refine ⟨hreg, fun g' q' h' => ?_⟩
        rcases (hplays g' id q').mp h' with h' | ⟨-, rfl, rfl⟩
        · exact hmax g' q' h'
        · exact Nat.le_of_eq (hreg q' hq₀)
      · refine ⟨fun q' hq' => ?_, fun g' q' h' => ?_⟩
        · change s.manager.sessions.lookup _ = _ at hq'
          rw [hq₀] at hq'
          cases hq'
          rfl
        · rcases (hplays g' _ q').mp h' with h' | ⟨-, -, rfl⟩
          · exact hnew g' q' h'
          · exact Nat.le_refl _
    case caller => exact hinv.caller
    case pending =>
      intro g e' h
      obtain ⟨ht', hfree, q, hq⟩ := hinv.pending g e' h
      exact ⟨ht', hfree, q, (hplays _ _ _).mpr (.inl hq)⟩
    case sent =>
      intro d hd htd g hg
      have hd' : d ∈ s.manager.events.buf := hd
      obtain ⟨q, hq, hmax⟩ := hinv.sent d (hinbox ▸ List.mem_cons_of_mem e hd') htd g hg
      refine ⟨q, (hplays _ _ _).mpr (.inl hq), fun g' q' h' => ?_⟩
      rcases (hplays g' _ q').mp h' with h' | ⟨-, hid, rfl⟩
      · exact hmax g' q' h'
      · -- the event in hand is a created one before `d`
        have hp := List.rel_of_pairwise_cons (hinbox ▸ hinv.order) hd'
        exact hp ⟨ht, htd, hid.symm, g, hg⟩ g hg q hq q' (hid ▸ hq₀)
    case order =>
      have hbuf := (List.pairwise_cons.mp (hinbox ▸ hinv.order)).2
      refine hbuf.imp_of_mem ?_
      intro x d _ hd hr hb g hg q hq q' hq'
      -- `d` was sent by a stream that had already started
      obtain ⟨q₁, hq₁, -⟩ := hinv.sent d (hinbox ▸ List.mem_cons_of_mem e hd) hb.2.1 g hg
      have hqq : q₁ = q := (((hplays _ _ _).mpr (.inl hq₁)).unique hq).2
      exact hr hb g hg q (hqq ▸ hq₁) q' hq'
    case cancels =>
      intro id g h
      obtain ⟨q, hq⟩ := hinv.cancels id g h
      exact ⟨q, (hplays _ _ _).mpr (.inl hq)⟩

theorem teardownInv_start {s t : State} (hinv : TeardownInv s) (h : s.start = some t) :
    TeardownInv t := by
  have hinbox := State.inbox_start h
  obtain ⟨g, st, -, hst, rfl⟩ := State.start_eq_some h
  refine teardownInv_frame hinv
    (fun _ _ _ => plays_set { st with phase := .running } hst rfl rfl rfl) (fun _ _ h => h) rfl
    (fun _ _ h => .inl h) (fun _ _ h => h) (hinbox ▸ List.Sublist.refl _) ?_ fun _ h => .inl h
  intro id g' h'
  by_cases he : id = st.sessionID
  · subst he
    have hgg : some g = some g' := (AList.lookup_insert _).symm.trans h'
    cases hgg
    exact ⟨st.queue, st, hst, rfl, rfl⟩
  · exact hinv.cancels id g' ((AList.lookup_insert_ne he).symm.trans h')

theorem teardownInv_cancelStream {s t : State} (hinv : TeardownInv s)
    (h : s.cancelStream = some t) : TeardownInv t := by
  obtain ⟨e, hl, ht, hcase⟩ := State.cancelStream_eq_some h
  have hcancels : ∀ id g, (s.cancels.erase e.sessionID).lookup id = some g →
      ∃ q, Plays s g id q := by
    intro id g h
    by_cases he : id = e.sessionID
    · subst he
      cases (AList.lookup_erase _ _).symm.trans h
    · exact hinv.cancels id g ((AList.lookup_erase_ne he).symm.trans h)
  rcases hcase with ⟨-, rfl⟩ | ⟨g, st, hc, hst, rfl⟩
  · exact teardownInv_frame hinv (fun _ _ _ => Iff.rfl) (fun _ _ h => h) rfl
      (fun _ _ h => .inl h) (fun _ _ h => h) (State.tail_sublist hl) hcancels fun _ h => .inl h
  · refine teardownInv_frame hinv
      (fun _ _ _ => plays_set { st with cancelled := true } hst rfl rfl rfl) (fun _ _ h => h) rfl
      (fun _ _ h => .inl h) (fun _ _ h => h) (State.tail_sublist hl) hcancels ?_
    intro eff heff
    rcases List.mem_cons.mp heff with rfl | heff
    · refine .inr ?_
      cases hcaller : e.caller with
      | rpc n => trivial
      | stream g₀ =>
        have hmem : e ∈ s.inbox := State.inbox_received hl ▸ List.mem_cons_self
        obtain ⟨q, hq, hmax⟩ := hinv.sent e hmem ht g₀ hcaller
        obtain ⟨q', hq'⟩ := hinv.cancels _ g hc
        exact ⟨e.sessionID, q, q', hq, hq', hmax g q' hq'⟩
    · exact .inl heff

end TeardownLemmas

open TeardownLemmas

theorem teardownInv_step {s t : State} {a : Action} (hinv : TeardownInv s)
    (hg : ReuseAfterTeardown s a) (h : s.step a = some t) : TeardownInv t := by
  cases a with
  | createSession n id archiveID =>
    obtain ⟨hc, ⟨err, -, rfl⟩ | ⟨hl, hm, ht⟩⟩ := State.createSession_eq_some h
    · exact teardownInv_fail hinv err (by simp [hc])
    · exact teardownInv_register hinv (hg hl (SessionManager.createSession_eq_ok hm).2.1) ht
  | deleteSession n id =>
    obtain ⟨hc, ht⟩ := State.deleteSession_eq_some h
    exact teardownInv_delete hinv hc nofun ht
  | endSession g =>
    obtain ⟨st, hst, -, hc, ht⟩ := State.endSession_eq_some h
    refine teardownInv_delete hinv hc ?_ ht
    intro g' hg'
    cases hg'
    exact ⟨st.queue, st, hst, rfl, rfl⟩
  | send c => exact teardownInv_send hinv h
  | abandon c =>
    obtain ⟨e, hc, -, rfl⟩ := State.abandon_eq_some h
    exact teardownInv_fail hinv .contextError (by simp [hc])
  | receive =>
    have hinbox := State.inbox_receive h
    obtain ⟨-, ⟨e, m, hm, rfl⟩ | ⟨-, -, rfl⟩⟩ := State.receive_eq_some h
    · obtain ⟨-, hs, hq, -⟩ := SessionManager.receive_eq_some hm
      exact teardownInv_frame hinv (fun _ _ _ => Iff.rfl) (fun _ _ h => hs ▸ h) hq
        (fun _ _ h => .inl h) (fun _ _ h => h) (hinbox ▸ List.Sublist.refl _) hinv.cancels
        fun _ h => .inl h
    · exact teardownInv_frame hinv (fun _ _ _ => Iff.rfl) (fun _ _ h => h) rfl
        (fun _ _ h => .inl h) (fun _ _ h => h) (hinbox ▸ List.Sublist.refl _) hinv.cancels
        fun _ h => .inl h
  | loopDone =>
    have hinbox := State.inbox_loopDone h
    obtain ⟨-, -, rfl⟩ := State.loopDone_eq_some h
    exact teardownInv_frame hinv (fun _ _ _ => Iff.rfl) (fun _ _ h => h) rfl
      (fun _ _ h => .inl h) (fun _ _ h => h) (hinbox ▸ List.Sublist.refl _) hinv.cancels
      fun _ h => .inl h
  | getQueue => exact teardownInv_getQueue hinv h
  | start => exact teardownInv_start hinv h
  | cancelStream => exact teardownInv_cancelStream hinv h
  | endStream g =>
    obtain ⟨st, hst, -, rfl⟩ := State.endStream_eq_some h
    exact teardownInv_frame hinv
      (fun _ _ _ => plays_set { st with phase := .ended } hst rfl rfl rfl) (fun _ _ h => h) rfl
      (fun _ _ h => .inl h) (fun _ _ h => h) (List.Sublist.refl _) hinv.cancels
      fun _ h => .inl h
  | cancelCall c | shutdown | closeEvents =>
    cases h
    exact teardownInv_frame hinv (fun _ _ _ => Iff.rfl) (fun _ _ h => h) rfl
      (fun _ _ h => .inl h) (fun _ _ h => h) (List.Sublist.refl _) hinv.cancels
      fun _ h => .inl h

theorem teardownInv_initial (maxSessions : Int) : TeardownInv (.initial maxSessions) := by
  have hplays : ∀ g id q, ¬ Plays (.initial maxSessions) g id q := by
    rintro g id q ⟨st, hst, -⟩
    cases hst
  constructor
  case own => exact fun eff h => nomatch h
  case allocated => exact fun g id q h => absurd h (hplays g id q)
  case newest => exact fun id q _ g q' h => absurd h (hplays g id q')
  case latest => exact fun g id q h => absurd h (hplays g id q)
  case caller => exact fun c e h => nomatch h
  case pending => exact fun g e h => nomatch h
  case sent => exact fun d h => nomatch h
  case order => exact List.Pairwise.nil
  case cancels => exact fun id g h => nomatch h

/-- In every run in which an id is registered again only when nothing is left
of its old streams, a stream tears down only its own session. -/
theorem tears_down_own {maxSessions : Int} {s : State}
    (h : Reach (sessionSystem maxSessions) ReuseAfterTeardown s) : OwnTeardown s := by
  have hinv : TeardownInv s :=
    h.invariant (fun _ hi => hi ▸ teardownInv_initial maxSessions)
      fun _ _ _ _ hi hg hs => teardownInv_step hi hg hs
  exact hinv.own

/-- A stream that ends by itself removes its own queue, and a later one of the same
id its own. -/
theorem tears_down_own_queue :
    ∃ s, OwnTeardown s ∧ .erased (.stream 0) "station" (some 0) ∈ s.history ∧
      .erased (.stream 1) "station" (some 1) ∈ s.history := by
  have hfirst : ReuseAfterTeardown (.initial 50) (.createSession 0 "station" none) := by
    intro _ _
    refine ⟨?_, List.Pairwise.nil⟩
    rintro g q ⟨st, hst, -⟩
    cases hst
  have hagain : ∀ s, run (sessionSystem 50) (.initial 50)
      [.createSession 0 "station" none, .send (.rpc 0), .receive, .getQueue, .start,
        .endStream 0, .endSession 0, .send (.stream 0), .receive, .cancelStream] = some s →
      ReuseAfterTeardown s (.createSession 1 "station" none) := by
    intro s hrun _ _
    cases hrun
    refine ⟨fun g q hplays hunfinished => ?_, List.Pairwise.nil⟩
    obtain ⟨st, hst, -⟩ := hplays
    cases g with
    | zero => exact hunfinished none rfl
    | succ g => cases hst
  obtain ⟨s, hs, hp⟩ := Reach.of_run_step (S := sessionSystem 50) (C := ReuseAfterTeardown)
    (p := fun s => decide (.erased (.stream 0) "station" (some 0) ∈ s.history ∧
      .erased (.stream 1) "station" (some 1) ∈ s.history))
    (a := .createSession 1 "station" none)
    [.send (.rpc 0), .receive, .getQueue, .start, .endStream 0, .endSession 0,
      .send (.stream 0), .receive, .cancelStream]
    [.send (.rpc 1), .receive, .getQueue, .start, .endStream 1, .endSession 1]
    (.step (.createSession 0 "station" none) (.init rfl) hfirst rfl)
    (by simp [ReuseAfterTeardown]) hagain (by simp [ReuseAfterTeardown]) (by decide)
  obtain ⟨hfirst, hlater⟩ := of_decide_eq_true hp
  exact ⟨s, tears_down_own hs, hfirst, hlater⟩

end RadioJockey.Streams
