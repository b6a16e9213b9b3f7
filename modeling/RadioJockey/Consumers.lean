import RadioJockey.EventLoop

/-!
# The consumers of the session queues

A created event carries the id only. The loop looks the queue up when it
handles the event, and by then the id may belong to another queue.

1. `queue_shared`: a session is created, deleted and created again before the
   loop gets to the first event. Both streams are given the second queue.
2. `queue_own`: in every run in which no id is registered anew while a created
   event for it is on its way, each stream is given the queue that the sender of
   its event registered, and no queue is given to two streams.
-/

namespace RadioJockey.Streams

open Transition

/-- The streams that were started: the event that started each, and the queue
it was given. -/
def given (s : State) : List (SessionManagerEvent × QueueRef) :=
  s.streams.map fun st => (st.event, st.queue)

/-- The call `c` registered the queue `q` under `id`. -/
def Registered (s : State) (c : Caller) (id : SessionID) (q : QueueRef) : Prop :=
  .registered c id q ∈ s.history

def OwnConsumers (s : State) : Prop :=
  (∀ e q, (e, q) ∈ given s → Registered s e.caller e.sessionID q) ∧
    ((given s).map Prod.snd).Nodup

/-- The guard of `queue_own`: an id is registered (it is free, and there is room
for it) only when no created event for it is on its way. -/
def ReuseAfterHandling (s : State) : Action → Prop
  | .createSession _ id _ => s.manager.sessions.lookup id = none →
    (s.manager.sessions.entries.length : Int) < s.manager.maxSessions → ¬ CreatedInFlight s id
  | _ => True

/-- The loop is slow. It looks up the queue of the first event when the second
session is registered, and starts a consumer of that queue for each event. -/
theorem queue_shared :
    ∃ s, Reachable (sessionSystem 50) s ∧
      given s = [(⟨.sessionCreated, "station", .rpc 0⟩, 1),
        (⟨.sessionCreated, "station", .rpc 2⟩, 1)] ∧
      ¬ Registered s (.rpc 0) "station" 1 ∧ ¬ OwnConsumers s := by
  obtain ⟨s, hs, hp⟩ := Reachable.of_run (S := sessionSystem 50)
    (p := fun s => decide (given s = [(⟨.sessionCreated, "station", .rpc 0⟩, 1),
        (⟨.sessionCreated, "station", .rpc 2⟩, 1)] ∧
      .registered (.rpc 0) "station" 1 ∉ s.history))
    [.createSession 0 "station" none, .send (.rpc 0), .deleteSession 1 "station", .send (.rpc 1),
      .createSession 2 "station" none, .send (.rpc 2),
      .receive, .getQueue, .start, .receive, .cancelStream, .receive, .getQueue, .start]
    rfl (by decide)
  obtain ⟨hgiven, hother⟩ := of_decide_eq_true hp
  refine ⟨s, hs, hgiven, hother, fun h => hother (h.1 ⟨.sessionCreated, "station", .rpc 0⟩ 1 ?_)⟩
  rw [hgiven]
  exact List.mem_cons_self

/-! ## The invariant -/

/-- The created events that have left their callers: those of the streams, and
those that the loop has yet to handle. -/
def delivered (s : State) : List SessionManagerEvent :=
  (given s).map Prod.fst ++ s.inbox.filter fun e => e.type = .sessionCreated

/-- A queue is registered once, a created event is delivered once, and until it
is handled its id is not registered by anybody else. -/
structure ConsumerInv (s : State) : Prop where
  allocated : ∀ c id q, Registered s c id q → q < s.manager.queues.length
  owner : ∀ c c' id id' q, Registered s c id q → Registered s c' id' q → c = c'
  current : ∀ id q, s.manager.sessions.lookup id = some q → ∃ c, Registered s c id q
  caller : ∀ c e, s.calls c = .sending e → e.type = .sessionCreated → e.caller = c
  returned : ∀ e ∈ delivered s, ∃ err, s.calls e.caller = .returned err
  once : ((delivered s).map SessionManagerEvent.caller).Nodup
  own : ∀ e q, (e, q) ∈ given s → Registered s e.caller e.sessionID q
  /-- Until it is handled, the id of a created event is not registered anew. -/
  waiting : ∀ e, (∃ c, s.calls c = .sending e) ∨ e ∈ s.inbox → e.type = .sessionCreated →
    ∀ q, s.manager.sessions.lookup e.sessionID = some q → Registered s e.caller e.sessionID q

namespace ConsumersLemmas

theorem given_set {s t : State} {g : Nat} {st : Stream} (st' : Stream)
    (hst : s.streams[g]? = some st) (ht : t.streams = s.streams.set g st')
    (he : st'.event = st.event) (hq : st'.queue = st.queue) : given t = given s := by
  have hlt : g < s.streams.length := (List.getElem?_eq_some_iff.mp hst).1
  refine List.ext_getElem? fun i => ?_
  rw [given, given, ht, List.getElem?_map, List.getElem?_map]
  rcases eq_or_ne g i with rfl | hne
  · rw [List.getElem?_set_self hlt, hst, Option.map_some, Option.map_some, he, hq]
  · rw [List.getElem?_set_ne hne]

/-- A step that registers nothing, sends no created event and starts no
stream. -/
theorem consumerInv_frame {s t : State} (hinv : ConsumerInv s)
    (hreg : ∀ c id q, Registered t c id q ↔ Registered s c id q)
    (hqueues : t.manager.queues = s.manager.queues)
    (hlookup : ∀ id q, t.manager.sessions.lookup id = some q →
      s.manager.sessions.lookup id = some q)
    (hsending : ∀ c e, t.calls c = .sending e → e.type = .sessionCreated →
      s.calls c = .sending e)
    (hreturned : ∀ c err, s.calls c = .returned err → t.calls c = .returned err)
    (hgiven : given t = given s) (hinbox : t.inbox.Sublist s.inbox) : ConsumerInv t := by
  have hdelivered : (delivered t).Sublist (delivered s) := by
    rw [delivered, delivered, hgiven]
    exact (List.Sublist.refl _).append (hinbox.filter _)
  constructor
  case allocated =>
    intro c id q h
    rw [hqueues]
    exact hinv.allocated c id q ((hreg c id q).mp h)
  case owner =>
    intro c c' id id' q h h'
    exact hinv.owner c c' id id' q ((hreg _ _ _).mp h) ((hreg _ _ _).mp h')
  case current =>
    intro id q h
    obtain ⟨c, hc⟩ := hinv.current id q (hlookup id q h)
    exact ⟨c, (hreg _ _ _).mpr hc⟩
  case caller => exact fun c e h ht => hinv.caller c e (hsending c e h ht) ht
  case returned =>
    intro e he
    obtain ⟨err, h⟩ := hinv.returned e (hdelivered.subset he)
    exact ⟨err, hreturned _ _ h⟩
  case once => exact (hdelivered.map _).nodup hinv.once
  case own =>
    rw [hgiven]
    exact fun e q h => (hreg _ _ _).mpr (hinv.own e q h)
  case waiting =>
    intro e he ht q hq
    refine (hreg _ _ _).mpr (hinv.waiting e ?_ ht q (hlookup _ _ hq))
    rcases he with ⟨c, hc⟩ | he
    · exact .inl ⟨c, hsending c e hc ht⟩
    · exact .inr (hinbox.subset he)

theorem consumerInv_delete {s t : State} {c : Caller} {id : SessionID} (hinv : ConsumerInv s)
    (hidle : s.calls c = .idle)
    (ht : t = { s with
      manager := s.manager.deleteSession id
      calls := Function.update s.calls c (.sending ⟨.sessionDeleted, id, c⟩)
      history := .erased c id (s.manager.sessions.lookup id) :: s.history }) : ConsumerInv t := by
  subst ht
  refine consumerInv_frame hinv ?_ rfl (fun _ _ h => (SessionManager.lookup_of_deleteSession h).2)
    (EventLoopLemmas.calls_mono fun e he => by cases he; rfl)
    (State.returned_update _ (by simp [hidle])) rfl (List.Sublist.refl _)
  exact fun _ _ _ => List.mem_cons.trans (or_iff_right nofun)

theorem consumerInv_register {s t : State} {n : Nat} {id : SessionID} {archiveID : Option Int}
    (hinv : ConsumerInv s) (hidle : s.calls (.rpc n) = .idle) (hg : ¬ CreatedInFlight s id)
    (ht : t = { s with
      manager := s.manager.register id archiveID
      calls := Function.update s.calls (.rpc n) (.sending ⟨.sessionCreated, id, .rpc n⟩)
      history := .registered (.rpc n) id s.manager.queues.length :: s.history }) :
    ConsumerInv t := by
  subst ht
  have hold : ∀ c id' q, Registered s c id' q → Registered
      { s with
        manager := s.manager.register id archiveID
        calls := Function.update s.calls (.rpc n) (.sending ⟨.sessionCreated, id, .rpc n⟩)
        history := .registered (.rpc n) id s.manager.queues.length :: s.history } c id' q :=
    fun _ _ _ => List.mem_cons_of_mem _
  have hsame := State.returned_update (.sending ⟨.sessionCreated, id, .rpc n⟩) (f := s.calls)
    (c := .rpc n) (by simp [hidle])
  constructor
  case allocated =>
    intro c id' q h
    rw [SessionManager.register_length]
    rcases List.mem_cons.mp h with h | h
    · cases h
      exact Nat.lt_succ_self _
    · exact Nat.lt_succ_of_lt (hinv.allocated c id' q h)
  case owner =>
    intro c c' id₁ id₂ q h h'
    -- the number of the new queue is new
    rcases List.mem_cons.mp h with h | h <;> rcases List.mem_cons.mp h' with h' | h'
    · cases h; cases h'; rfl
    · cases h; exact absurd (hinv.allocated _ _ _ h') (Nat.lt_irrefl _)
    · cases h'; exact absurd (hinv.allocated _ _ _ h) (Nat.lt_irrefl _)
    · exact hinv.owner _ _ _ _ _ h h'
  case current =>
    intro id' q h
    rcases eq_or_ne id' id with rfl | hne
    · rw [SessionManager.register_lookup] at h
      cases h
      exact ⟨.rpc n, List.mem_cons_self⟩
    · rw [SessionManager.register_lookup_ne _ _ hne] at h
      obtain ⟨c, hc⟩ := hinv.current id' q h
      exact ⟨c, hold _ _ _ hc⟩
  case caller =>
    intro c e h ht
    rcases State.sending_of_update h with ⟨rfl, he⟩ | ⟨-, h⟩
    · cases he; rfl
    · exact hinv.caller c e h ht
  case returned =>
    intro e he
    obtain ⟨err, h⟩ := hinv.returned e he
    exact ⟨err, hsame _ _ h⟩
  case once => exact hinv.once
  case own => exact fun e q h => hold _ _ _ (hinv.own e q h)
  case waiting =>
    intro e he ht q hq
    have hother : (∃ c, s.calls c = .sending e) ∨ e ∈ s.inbox →
        Registered s e.caller e.sessionID q := by
      intro hs
      -- its id is not the new one
      have hne : e.sessionID ≠ id := by
        rintro rfl
        rcases hs with ⟨c, hc⟩ | hmem
        · exact hg (.inl ⟨c, e, hc, ht, rfl⟩)
        · exact hg (.inr ⟨e, hmem, ht, rfl⟩)
      rw [SessionManager.register_lookup_ne _ _ hne] at hq
      exact hinv.waiting e hs ht q hq
    rcases he with ⟨c, hc⟩ | he
    · rcases State.sending_of_update hc with ⟨-, he⟩ | ⟨-, hc⟩
      · cases he
        rw [SessionManager.register_lookup] at hq
        cases hq
        exact List.mem_cons_self
      · exact hold _ _ _ (hother (.inl ⟨c, hc⟩))
    · exact hold _ _ _ (hother (.inr he))

theorem consumerInv_send {s t : State} {c : Caller} (hinv : ConsumerInv s)
    (h : s.send c = some t) : ConsumerInv t := by
  obtain ⟨e, m, hc, hm, rfl⟩ := State.send_eq_some h
  obtain ⟨-, hb, hs, hq, -⟩ := SessionManager.send_eq_some hm
  have hreg : ∀ c' id q, Effect.registered c' id q ∈ Effect.sent e :: s.history ↔
      Registered s c' id q :=
    fun _ _ _ => List.mem_cons.trans (or_iff_right nofun)
  have hinbox := State.inbox_send (s := s) (Function.update s.calls c (.returned none))
    (.sent e :: s.history) hb
  have hreturned := State.returned_update (.returned none) (f := s.calls) (c := c) (by simp [hc])
  have hdelivered : delivered { s with
      manager := m
      calls := Function.update s.calls c (.returned none)
      history := .sent e :: s.history } =
      delivered s ++ [e].filter fun e => e.type = .sessionCreated := by
    rw [delivered, hinbox, List.filter_append, ← List.append_assoc]
    rfl
  constructor
  case allocated => exact fun c' id q h => hq ▸ hinv.allocated c' id q ((hreg _ _ _).mp h)
  case owner =>
    exact fun c₁ c₂ id id' q h h' => hinv.owner _ _ _ _ q ((hreg _ _ _).mp h) ((hreg _ _ _).mp h')
  case current =>
    intro id q h
    obtain ⟨c', hc'⟩ := hinv.current id q (hs ▸ h)
    exact ⟨c', (hreg _ _ _).mpr hc'⟩
  case caller => exact fun c' e' h => hinv.caller c' e' (State.sending_of_returned h)
  case returned =>
    rw [hdelivered]
    intro e' he'
    rcases List.mem_append.mp he' with he' | he'
    · obtain ⟨err, h⟩ := hinv.returned e' he'
      exact ⟨err, hreturned _ _ h⟩
    · obtain ⟨hmem, ht⟩ := List.mem_filter.mp he'
      cases List.mem_singleton.mp hmem
      refine ⟨none, ?_⟩
      show Function.update s.calls c (.returned none) e.caller = _
      rw [hinv.caller c e hc (of_decide_eq_true ht), Function.update_self]
  case once =>
    rw [hdelivered, List.map_append, List.nodup_append]
    refine ⟨hinv.once, ?_, ?_⟩
    · exact (((List.filter_sublist).map _).nodup (List.nodup_singleton e.caller))
    · intro x hx y hy
      obtain ⟨e', he', rfl⟩ := List.mem_map.mp hx
      obtain ⟨e'', he'', rfl⟩ := List.mem_map.mp hy
      obtain ⟨hmem, ht⟩ := List.mem_filter.mp he''
      cases List.mem_singleton.mp hmem
      -- the callers of what was delivered have returned, and `c` has not
      intro heq
      obtain ⟨err, hret⟩ := hinv.returned e' he'
      rw [heq, hinv.caller c e hc (of_decide_eq_true ht), hc] at hret
      cases hret
  case own => exact fun e' q h => (hreg _ _ _).mpr (hinv.own e' q h)
  case waiting =>
    intro e' he' ht q hq'
    refine (hreg _ _ _).mpr (hinv.waiting e' ?_ ht q (hs ▸ hq'))
    rw [hinbox] at he'
    rcases he' with ⟨c', hc'⟩ | he'
    · exact .inl ⟨c', State.sending_of_returned hc'⟩
    · rcases List.mem_append.mp he' with he' | he'
      · exact .inr he'
      · cases List.mem_singleton.mp he'
        exact .inl ⟨c, hc⟩

/-- The head of the inbox becomes the last stream. -/
theorem consumerInv_getQueue {s t : State} (hinv : ConsumerInv s) (h : s.getQueue = some t) :
    ConsumerInv t := by
  obtain ⟨e, hl, ht, ⟨-, rfl⟩ | ⟨q₀, hq₀, rfl⟩⟩ := State.getQueue_eq_some h
  · exact consumerInv_frame hinv (fun _ _ _ => Iff.rfl) rfl (fun _ _ h => h) (fun _ _ h _ => h)
      (fun _ _ h => h) rfl (State.tail_sublist hl)
  · have hinbox : s.inbox = e :: s.manager.events.buf := State.inbox_received hl
    have hgiven : given { s with
        streams := s.streams ++ [⟨e, q₀, false, .starting⟩]
        loop := .starting s.streams.length } = given s ++ [(e, q₀)] :=
      List.map_append
    have hdelivered : delivered { s with
        streams := s.streams ++ [⟨e, q₀, false, .starting⟩]
        loop := .starting s.streams.length } = delivered s := by
      rw [delivered, delivered, hgiven, hinbox, List.filter_cons_of_pos (by simp [ht]),
        List.map_append, List.append_assoc]
      rfl
    constructor
    case allocated => exact hinv.allocated
    case owner => exact hinv.owner
    case current => exact hinv.current
    case caller => exact hinv.caller
    case returned => rw [hdelivered]; exact hinv.returned
    case once => rw [hdelivered]; exact hinv.once
    case own =>
      rw [hgiven]
      intro e' q h
      rcases List.mem_append.mp h with h | h
      · exact hinv.own e' q h
      · cases List.mem_singleton.mp h
        exact hinv.waiting e (.inr (hinbox ▸ List.mem_cons_self)) ht q₀ hq₀
    case waiting =>
      intro e' he' ht' q hq
      refine hinv.waiting e' ?_ ht' q hq
      exact he'.imp id fun he' => hinbox ▸ List.mem_cons_of_mem e he'

end ConsumersLemmas

open ConsumersLemmas

theorem consumerInv_step {s t : State} {a : Action} (hinv : ConsumerInv s)
    (hg : ReuseAfterHandling s a) (h : s.step a = some t) : ConsumerInv t := by
  cases a with
  | createSession n id archiveID =>
    obtain ⟨hc, ⟨err, -, rfl⟩ | ⟨hl, hm, ht⟩⟩ := State.createSession_eq_some h
    · exact consumerInv_frame hinv (fun _ _ _ => Iff.rfl) rfl (fun _ _ h => h)
        (EventLoopLemmas.calls_mono nofun) (State.returned_update _ (by simp [hc])) rfl
        (List.Sublist.refl _)
    · have hroom := (SessionManager.createSession_eq_ok hm).2.1
      exact consumerInv_register hinv hc (hg hl hroom) ht
  | deleteSession n id =>
    obtain ⟨hc, ht⟩ := State.deleteSession_eq_some h
    exact consumerInv_delete hinv hc ht
  | endSession g =>
    obtain ⟨st, -, -, hc, ht⟩ := State.endSession_eq_some h
    exact consumerInv_delete hinv hc ht
  | send c => exact consumerInv_send hinv h
  | abandon c =>
    obtain ⟨e, hc, -, rfl⟩ := State.abandon_eq_some h
    exact consumerInv_frame hinv (fun _ _ _ => Iff.rfl) rfl (fun _ _ h => h)
      (EventLoopLemmas.calls_mono nofun) (State.returned_update _ (by simp [hc])) rfl
      (List.Sublist.refl _)
  | receive =>
    have hinbox := State.inbox_receive h
    obtain ⟨-, ⟨e, m, hm, rfl⟩ | ⟨-, -, rfl⟩⟩ := State.receive_eq_some h
    · obtain ⟨-, hs, hq, -⟩ := SessionManager.receive_eq_some hm
      exact consumerInv_frame hinv (fun _ _ _ => Iff.rfl) hq (fun _ _ h => hs ▸ h)
        (fun _ _ h _ => h) (fun _ _ h => h) rfl (hinbox ▸ List.Sublist.refl _)
    · exact consumerInv_frame hinv (fun _ _ _ => Iff.rfl) rfl (fun _ _ h => h)
        (fun _ _ h _ => h) (fun _ _ h => h) rfl (hinbox ▸ List.Sublist.refl _)
  | loopDone =>
    have hinbox := State.inbox_loopDone h
    obtain ⟨-, -, rfl⟩ := State.loopDone_eq_some h
    exact consumerInv_frame hinv (fun _ _ _ => Iff.rfl) rfl (fun _ _ h => h)
      (fun _ _ h _ => h) (fun _ _ h => h) rfl (hinbox ▸ List.Sublist.refl _)
  | getQueue => exact consumerInv_getQueue hinv h
  | start =>
    have hinbox := State.inbox_start h
    obtain ⟨g, st, -, hst, rfl⟩ := State.start_eq_some h
    exact consumerInv_frame hinv (fun _ _ _ => Iff.rfl) rfl (fun _ _ h => h)
      (fun _ _ h _ => h) (fun _ _ h => h)
      (given_set { st with phase := .running } hst rfl rfl rfl) (hinbox ▸ List.Sublist.refl _)
  | cancelStream =>
    obtain ⟨e, hl, -, ⟨-, rfl⟩ | ⟨g, st, -, hst, rfl⟩⟩ := State.cancelStream_eq_some h
    · exact consumerInv_frame hinv (fun _ _ _ => Iff.rfl) rfl (fun _ _ h => h)
        (fun _ _ h _ => h) (fun _ _ h => h) rfl (State.tail_sublist hl)
    · exact consumerInv_frame hinv (fun _ _ _ => List.mem_cons.trans (or_iff_right nofun)) rfl
        (fun _ _ h => h) (fun _ _ h _ => h) (fun _ _ h => h)
        (given_set { st with cancelled := true } hst rfl rfl rfl) (State.tail_sublist hl)
  | endStream g =>
    obtain ⟨st, hst, -, rfl⟩ := State.endStream_eq_some h
    exact consumerInv_frame hinv (fun _ _ _ => Iff.rfl) rfl (fun _ _ h => h)
      (fun _ _ h _ => h) (fun _ _ h => h)
      (given_set { st with phase := .ended } hst rfl rfl rfl) (List.Sublist.refl _)
  | cancelCall c | shutdown | closeEvents =>
    cases h
    exact consumerInv_frame hinv (fun _ _ _ => Iff.rfl) rfl (fun _ _ h => h)
      (fun _ _ h _ => h) (fun _ _ h => h) rfl (List.Sublist.refl _)

theorem consumerInv_initial (maxSessions : Int) : ConsumerInv (.initial maxSessions) := by
  constructor
  case allocated => exact fun c id q h => nomatch h
  case owner => exact fun c c' id id' q h => nomatch h
  case current => exact fun id q h => nomatch h
  case caller => exact fun c e h => nomatch h
  case returned => exact fun e h => nomatch h
  case once => exact List.nodup_nil
  case own => exact fun e q h => nomatch h
  case waiting =>
    rintro e (⟨c, h⟩ | h)
    · cases h
    · cases h

/-- Streams of different events have different queues, since the senders of the
events registered different ones. -/
theorem ownConsumers_of_inv {s : State} (hinv : ConsumerInv s) : OwnConsumers s := by
  refine ⟨hinv.own, ?_⟩
  have hcallers : ((given s).map fun p => p.1.caller).Nodup := by
    have h := hinv.once
    rw [delivered, List.map_append, List.map_map] at h
    exact h.of_append_left
  rw [List.Nodup, List.pairwise_map] at hcallers ⊢
  refine hcallers.imp_of_mem ?_
  rintro ⟨e, q⟩ ⟨e', q'⟩ hp hp' hne rfl
  exact hne (hinv.owner _ _ _ _ q (hinv.own e q hp) (hinv.own e' q hp'))

/-- In every run in which no id is registered anew while a created event for it
is on its way, each stream has the queue that the sender of its event
registered, and has it for itself. -/
theorem queue_own {maxSessions : Int} {s : State}
    (h : Reach (sessionSystem maxSessions) ReuseAfterHandling s) : OwnConsumers s := by
  have hinv : ConsumerInv s :=
    h.invariant (fun _ hi => hi ▸ consumerInv_initial maxSessions)
      fun _ _ _ _ hi hg hs => consumerInv_step hi hg hs
  exact ownConsumers_of_inv hinv

/-- A session is streamed and deleted, and the id is registered again. -/
theorem queue_own_streamed :
    ∃ s, OwnConsumers s ∧ given s = [(⟨.sessionCreated, "station", .rpc 0⟩, 0),
      (⟨.sessionCreated, "station", .rpc 2⟩, 1)] := by
  have hfirst : ReuseAfterHandling (.initial 50) (.createSession 0 "station" none) := by
    rintro - - (⟨c, e, h, -⟩ | ⟨e, h, -⟩)
    · cases h
    · cases h
  have hcalls : ∀ c e, (run (sessionSystem 50) (.initial 50)
      [.createSession 0 "station" none, .send (.rpc 0), .receive, .getQueue, .start,
        .deleteSession 1 "station", .send (.rpc 1), .receive, .cancelStream]).map
          (fun s => s.calls c) ≠ some (.sending e) := by
    intro c e
    by_cases h0 : c = .rpc 0
    · subst h0
      exact nofun
    · by_cases h1 : c = .rpc 1
      · subst h1
        exact nofun
      · show some (Function.update _ _ _ _) ≠ _
        simp [State.initial, h0, h1]
  obtain ⟨s, hs, hp⟩ := Reach.of_run_step (S := sessionSystem 50) (C := ReuseAfterHandling)
    (p := fun s => decide (given s = [(⟨.sessionCreated, "station", .rpc 0⟩, 0),
      (⟨.sessionCreated, "station", .rpc 2⟩, 1)]))
    (a := .createSession 2 "station" none)
    [.send (.rpc 0), .receive, .getQueue, .start, .deleteSession 1 "station", .send (.rpc 1),
      .receive, .cancelStream]
    [.send (.rpc 2), .receive, .getQueue, .start]
    (.step (.createSession 0 "station" none) (.init rfl) hfirst rfl)
    (by simp [ReuseAfterHandling])
    (fun s hrun _ _ => not_createdInFlight_of_run (.createSession 0 "station" none :: _) hrun
      hcalls rfl _)
    (by simp [ReuseAfterHandling]) (by decide)
  exact ⟨s, queue_own hs, of_decide_eq_true hp⟩

end RadioJockey.Streams
