import RadioJockey.Cancels
import RadioJockey.Consumers
import RadioJockey.Quiescence

/-!
# The answer to a `CreateSession` request (`connect/rpc.go`, `icecast.go`)

`CreateSession` makes a channel of capacity one and sends it along in the created
event. The stream that is started for the event sends its outcome on it once it
has connected to Icecast or failed to, and the RPC waits for that outcome or for
the end of its context.

Over `Streams`, this adds the channels, what the RPCs answer, and how far the
streams are with their connections.

1. `signal_ready`: the send of a stream never blocks, and no channel is sent on
   twice.
2. `created_connected`: an RPC that answers with a stream URL has a stream of its
   own that has connected.
-/

namespace RadioJockey.Ready

open Channel Transition Streams

/-- What `streamSession` sends on `ready`: nil, or the error of
`connectWithRetry`. -/
inductive Signal
  | connected
  | failed
  deriving DecidableEq

/-- How far a `streamSession` is. -/
inductive Body
  | connecting
  | signalled (v : Signal)
  deriving DecidableEq

inductive Answer
  | created
  | internal
  | deadlineExceeded
  deriving DecidableEq

/-- RPCs and streams have the numbers that they have in `Streams`. `requests` has
the session ids of the `CreateSession` RPCs, and `signals` what was sent on the
channel of an RPC, and by which stream. -/
structure State where
  server : Streams.State
  requests : Nat → Option SessionID
  ready : Nat → Chan Signal 1
  bodies : Nat → Body
  answers : Nat → Option Answer
  signals : List (Nat × Nat × Signal)

namespace State

def initial (maxSessions : Int) : State where
  server := .initial maxSessions
  requests := fun _ => none
  ready := fun _ => .make
  bodies := fun _ => .connecting
  answers := fun _ => none
  signals := []

/-- The body of `streamSession` ends after its send only. -/
def serverStep (s : State) (a : Streams.Action) : Option State :=
  match a with
  | .createSession n id archiveID =>
    (s.server.step (.createSession n id archiveID)).map fun server =>
      { s with server := server, requests := Function.update s.requests n (some id) }
  | .endStream g =>
    if s.bodies g = .connecting then none
    else (s.server.step (.endStream g)).map fun server => { s with server := server }
  | a => (s.server.step a).map fun server => { s with server := server }

/-- `connectWithRetry` returns, and its error is sent on the channel that came
with the event. -/
def connect (s : State) (g : Nat) (v : Signal) : Option State :=
  match s.server.streams[g]? with
  | some ⟨⟨_, _, .rpc n⟩, _, _, .running⟩ =>
    if s.bodies g = .connecting then
      ((s.ready n).send? v).map fun ch => { s with
        ready := Function.update s.ready n ch
        bodies := Function.update s.bodies g (.signalled v)
        signals := (n, g, v) :: s.signals }
    else none
  | _ => none

/-- The RPC is in the `select` that follows `sessionManager.CreateSession`. -/
def Waits (s : State) (n : Nat) (id : SessionID) : Prop :=
  s.requests n = some id ∧ s.server.calls (.rpc n) = .returned none ∧ s.answers n = none

instance (s : State) (n : Nat) (id : SessionID) : Decidable (s.Waits n id) :=
  inferInstanceAs (Decidable (_ ∧ _))

def answer : Signal → Answer
  | .connected => .created
  | .failed => .internal

/-- The receive case of the `select`. -/
def await (s : State) (n : Nat) (id : SessionID) : Option State :=
  if s.Waits n id then
    (s.ready n).recv?.map fun p => { s with
      ready := Function.update s.ready n p.2
      answers := Function.update s.answers n (some (answer p.1)) }
  else none

/-- The `ctx.Done()` case of the `select`. -/
def giveUp (s : State) (n : Nat) (id : SessionID) : Option State :=
  if s.Waits n id ∧ s.server.callDone (.rpc n) = true then
    some { s with answers := Function.update s.answers n (some .deadlineExceeded) }
  else none

end State

inductive Action
  | server (a : Streams.Action)
  | connect (g : Nat) (v : Signal)
  | await (n : Nat) (id : SessionID)
  | giveUp (n : Nat) (id : SessionID)
  deriving DecidableEq

def State.step (s : State) : Action → Option State
  | .server a => s.serverStep a
  | .connect g v => s.connect g v
  | .await n id => s.await n id
  | .giveUp n id => s.giveUp n id

def readySystem (maxSessions : Int) : System State Action where
  init s := s = .initial maxSessions
  step := State.step

/-! ## What each step does -/

namespace State

theorem serverStep_eq_some {s t : State} {a : Streams.Action} (h : s.serverStep a = some t) :
    ∃ server requests, s.server.step a = some server ∧
      t = { s with server := server, requests := requests } ∧
      (requests = s.requests ∧ (∀ n id archiveID, a ≠ .createSession n id archiveID) ∨
        ∃ n id archiveID, a = .createSession n id archiveID ∧
          requests = Function.update s.requests n (some id)) ∧
      ∀ g, a = .endStream g → s.bodies g ≠ .connecting := by
  unfold serverStep at h
  split at h
  · next n id archiveID =>
    obtain ⟨server, hs, rfl⟩ := Option.map_eq_some_iff.mp h
    exact ⟨server, _, hs, rfl, .inr ⟨n, id, archiveID, rfl, rfl⟩, by simp⟩
  · next g =>
    split at h
    · cases h
    · next hb =>
      obtain ⟨server, hs, rfl⟩ := Option.map_eq_some_iff.mp h
      refine ⟨server, s.requests, hs, rfl, .inl ⟨rfl, by simp⟩, fun g' hg' => ?_⟩
      cases hg'
      exact hb
  · next a' hcreate hend =>
    obtain ⟨server, hs, rfl⟩ := Option.map_eq_some_iff.mp h
    exact ⟨server, s.requests, hs, rfl, .inl ⟨rfl, hcreate⟩, fun g hg => absurd hg (hend g)⟩

theorem connect_eq_some {s t : State} {g : Nat} {v : Signal} (h : s.connect g v = some t) :
    ∃ st n ch, s.server.streams[g]? = some st ∧ st.event.caller = .rpc n ∧ st.phase = .running ∧
      s.bodies g = .connecting ∧ (s.ready n).send? v = some ch ∧ t = { s with
        ready := Function.update s.ready n ch
        bodies := Function.update s.bodies g (.signalled v)
        signals := (n, g, v) :: s.signals } := by
  unfold connect at h
  split at h
  · next type id n queue cancelled hst =>
    split at h
    · next hb =>
      obtain ⟨ch, hch, rfl⟩ := Option.map_eq_some_iff.mp h
      exact ⟨_, n, ch, hst, rfl, rfl, hb, hch, rfl⟩
    · cases h
  · cases h

theorem await_eq_some {s t : State} {n : Nat} {id : SessionID} (h : s.await n id = some t) :
    ∃ v ch, s.Waits n id ∧ (s.ready n).recv? = some (v, ch) ∧ t = { s with
      ready := Function.update s.ready n ch
      answers := Function.update s.answers n (some (answer v)) } := by
  unfold await at h
  split at h
  · next hw =>
    obtain ⟨⟨v, ch⟩, hrecv, rfl⟩ := Option.map_eq_some_iff.mp h
    exact ⟨v, ch, hw, hrecv, rfl⟩
  · cases h

theorem giveUp_eq_some {s t : State} {n : Nat} {id : SessionID} (h : s.giveUp n id = some t) :
    s.Waits n id ∧
      t = { s with answers := Function.update s.answers n (some .deadlineExceeded) } := by
  unfold giveUp at h
  split at h
  · next hw =>
    cases h
    exact ⟨hw.1, rfl⟩
  · cases h

end State

/-! ## The events of the streams -/

/-- A created event is sent by the RPC that asked for the session, and is
delivered once. -/
structure EventInv (s : State) : Prop where
  sending : ∀ c e, s.server.calls c = .sending e → e.type = .sessionCreated →
    ∃ n, c = .rpc n ∧ e.caller = .rpc n ∧ s.requests n = some e.sessionID
  delivered : ∀ e ∈ delivered s.server, ∃ n, e.caller = .rpc n ∧
    s.server.calls (.rpc n) = .returned none ∧ s.requests n = some e.sessionID
  once : ((Streams.delivered s.server).map SessionManagerEvent.caller).Nodup
  issued : ∀ n id, s.requests n = some id → s.server.calls (.rpc n) ≠ .idle ∧
    ∀ e, s.server.calls (.rpc n) = .sending e → e = ⟨.sessionCreated, id, .rpc n⟩
  /-- An event is lost only when the loop returns. -/
  waiting : ∀ n id, s.requests n = some id → s.server.calls (.rpc n) = .returned none →
    (∃ e ∈ Streams.delivered s.server, e.caller = .rpc n) ∨ s.server.loop = .returned

namespace ReadyLemmas

variable {s t : State}

/-- A step that registers nothing and delivers no created event. -/
theorem eventInv_frame (hinv : EventInv s) (hreq : t.requests = s.requests)
    (hsending : ∀ c e, t.server.calls c = .sending e → e.type = .sessionCreated →
      s.server.calls c = .sending e)
    (hreturned : ∀ c, s.server.calls c = .returned none → t.server.calls c = .returned none)
    (hissued : ∀ n id, s.requests n = some id → t.server.calls (.rpc n) ≠ .idle ∧
      (∀ e, t.server.calls (.rpc n) = .sending e → s.server.calls (.rpc n) = .sending e) ∧
      (t.server.calls (.rpc n) = .returned none → s.server.calls (.rpc n) = .returned none))
    (hdelivered : (delivered t.server).Sublist (delivered s.server))
    (hkept : delivered t.server = delivered s.server ∨ t.server.loop = .returned)
    (hloop : s.server.loop = .returned → t.server.loop = .returned) : EventInv t := by
  constructor
  case sending =>
    rw [hreq]
    exact fun c e h ht => hinv.sending c e (hsending c e h ht) ht
  case delivered =>
    rw [hreq]
    intro e he
    obtain ⟨n, hn, hret, hid⟩ := hinv.delivered e (hdelivered.subset he)
    exact ⟨n, hn, hreturned _ hret, hid⟩
  case once => exact (hdelivered.map _).nodup hinv.once
  case issued =>
    rw [hreq]
    intro n id h
    obtain ⟨hidle, hs, -⟩ := hissued n id h
    exact ⟨hidle, fun e he => (hinv.issued n id h).2 e (hs e he)⟩
  case waiting =>
    rw [hreq]
    intro n id h hret
    rcases hkept with hkept | hkept
    · rw [hkept]
      exact (hinv.waiting n id h ((hissued n id h).2.2 hret)).imp_right hloop
    · exact .inr hkept

/-- A step of the loop or of a stream. -/
theorem eventInv_quiet (hinv : EventInv s) (hreq : t.requests = s.requests)
    (hcalls : t.server.calls = s.server.calls)
    (hdelivered : (delivered t.server).Sublist (delivered s.server))
    (hkept : delivered t.server = delivered s.server ∨ t.server.loop = .returned)
    (hloop : s.server.loop = .returned → t.server.loop = .returned) : EventInv t := by
  refine eventInv_frame hinv hreq ?_ ?_ ?_ hdelivered hkept hloop
  · exact fun c e h _ => hcalls ▸ h
  · exact fun c h => hcalls ▸ h
  · intro n id h
    rw [hcalls]
    exact ⟨(hinv.issued n id h).1, fun _ he => he, fun hr => hr⟩

/-- A call that enters its `select` with a deleted event, or leaves it without
a send. -/
theorem eventInv_call {c : Caller} {x : Call} (hinv : EventInv s) (hreq : t.requests = s.requests)
    (hcalls : t.server.calls = Function.update s.server.calls c x)
    (hc : (s.server.calls c = .idle ∧ ∃ e, x = .sending e ∧ e.type = .sessionDeleted) ∨
      (∃ e, s.server.calls c = .sending e) ∧ ∃ err, x = .returned (some err))
    (hdelivered : delivered t.server = delivered s.server)
    (hloop : t.server.loop = s.server.loop) : EventInv t := by
  have hx : ∀ e, x = .sending e → e.type = .sessionDeleted := by
    rcases hc with ⟨-, e, rfl, he⟩ | ⟨-, err, rfl⟩
    · intro e' he'
      cases he'
      exact he
    · intro e he
      cases he
  have hret : ∀ err, s.server.calls c ≠ .returned err := by
    rcases hc with ⟨h, -⟩ | ⟨⟨e, h⟩, -⟩ <;> simp [h]
  refine eventInv_frame hinv hreq ?_ ?_ ?_ (hdelivered ▸ List.Sublist.refl _) (.inl hdelivered)
    (fun h => hloop.trans h)
  · rw [hcalls]
    exact EventLoopLemmas.calls_mono hx
  · rw [hcalls]
    exact fun c' => State.returned_update x hret c' none
  · intro n id h
    rw [hcalls]
    obtain ⟨hidle, hs⟩ := hinv.issued n id h
    by_cases hn : .rpc n = c
    · subst hn
      rw [Function.update_self]
      rcases hc with ⟨h, -⟩ | ⟨-, err, rfl⟩
      · exact absurd h hidle
      · simp
    · rw [Function.update_of_ne hn]
      exact ⟨hidle, fun _ he => he, fun hr => hr⟩

theorem eventInv_create {n : Nat} {id : SessionID} {x : Call} (hinv : EventInv s)
    (hidle : s.server.calls (.rpc n) = .idle)
    (hreq : t.requests = Function.update s.requests n (some id))
    (hcalls : t.server.calls = Function.update s.server.calls (.rpc n) x)
    (hx : x = .sending ⟨.sessionCreated, id, .rpc n⟩ ∨ ∃ err, x = .returned (some err))
    (hdelivered : delivered t.server = delivered s.server)
    (hloop : t.server.loop = s.server.loop) : EventInv t := by
  -- a call that is idle has made no request
  have hold : ∀ n' id', s.requests n' = some id' → n' ≠ n := by
    rintro n' id' h rfl
    exact (hinv.issued _ id' h).1 hidle
  have hreq' : ∀ n' id', s.requests n' = some id' → t.requests n' = some id' := by
    intro n' id' h
    rw [hreq, Function.update_of_ne (hold n' id' h), h]
  have hcalls' : ∀ n', n' ≠ n → t.server.calls (.rpc n') = s.server.calls (.rpc n') := by
    intro n' hne
    rw [hcalls, Function.update_of_ne (by simpa using hne)]
  constructor
  case sending =>
    intro c e h ht
    rw [hcalls] at h
    rcases State.sending_of_update h with ⟨rfl, he⟩ | ⟨-, h⟩
    · rcases hx with rfl | ⟨err, rfl⟩
      · cases he
        exact ⟨n, rfl, rfl, by rw [hreq, Function.update_self]⟩
      · cases he
    · obtain ⟨n', hc, he, hid⟩ := hinv.sending c e h ht
      exact ⟨n', hc, he, hreq' _ _ hid⟩
  case delivered =>
    rw [hdelivered]
    intro e he
    obtain ⟨n', he', hret, hid⟩ := hinv.delivered e he
    exact ⟨n', he', by rw [hcalls' n' (hold _ _ hid), hret], hreq' _ _ hid⟩
  case once => exact hdelivered ▸ hinv.once
  case issued =>
    intro n' id' h
    rw [hreq] at h
    rcases eq_or_ne n' n with rfl | hne
    · rw [Function.update_self, Option.some.injEq] at h
      subst h
      rw [hcalls, Function.update_self]
      rcases hx with rfl | ⟨err, rfl⟩
      · exact ⟨by simp, fun e he => (Call.sending.inj he).symm⟩
      · simp
    · rw [Function.update_of_ne hne] at h
      rw [hcalls' n' hne]
      exact hinv.issued n' id' h
  case waiting =>
    intro n' id' h hret
    rw [hdelivered, hloop]
    rcases eq_or_ne n' n with rfl | hne
    · rw [hcalls, Function.update_self] at hret
      rcases hx with rfl | ⟨err, rfl⟩ <;> cases hret
    · rw [hreq, Function.update_of_ne hne] at h
      exact hinv.waiting n' id' h (hcalls' n' hne ▸ hret)

theorem eventInv_send {c : Caller} {e : SessionManagerEvent} (hinv : EventInv s)
    (hc : s.server.calls c = .sending e) (hreq : t.requests = s.requests)
    (hcalls : t.server.calls = Function.update s.server.calls c (.returned none))
    (hdelivered : delivered t.server =
      delivered s.server ++ [e].filter fun e => e.type = .sessionCreated)
    (hloop : t.server.loop = s.server.loop) : EventInv t := by
  have hreturned : ∀ c', s.server.calls c' = .returned none →
      t.server.calls c' = .returned none := by
    rw [hcalls]
    exact fun c' => State.returned_update _ (by simp [hc]) c' none
  constructor
  case sending =>
    rw [hreq, hcalls]
    exact fun c' e' h => hinv.sending c' e' (State.sending_of_returned h)
  case delivered =>
    rw [hdelivered, hreq]
    intro e' he'
    rcases List.mem_append.mp he' with he' | he'
    · obtain ⟨n, hn, hret, hid⟩ := hinv.delivered e' he'
      exact ⟨n, hn, hreturned _ hret, hid⟩
    · obtain ⟨hmem, ht⟩ := List.mem_filter.mp he'
      cases List.mem_singleton.mp hmem
      obtain ⟨n, rfl, hn, hid⟩ := hinv.sending c e hc (of_decide_eq_true ht)
      exact ⟨n, hn, by rw [hcalls, Function.update_self], hid⟩
  case once =>
    rw [hdelivered, List.map_append, List.nodup_append]
    refine ⟨hinv.once, List.filter_sublist.map _ |>.nodup (List.nodup_singleton e.caller), ?_⟩
    intro x hx y hy
    obtain ⟨e', he', rfl⟩ := List.mem_map.mp hx
    obtain ⟨e'', he'', rfl⟩ := List.mem_map.mp hy
    obtain ⟨hmem, ht⟩ := List.mem_filter.mp he''
    cases List.mem_singleton.mp hmem
    -- the callers of what was delivered have returned, and `c` has not
    intro heq
    obtain ⟨n, hn, hret, -⟩ := hinv.delivered e' he'
    obtain ⟨n', rfl, hn', -⟩ := hinv.sending c e hc (of_decide_eq_true ht)
    rw [← hn, heq, hn', hc] at hret
    cases hret
  case issued =>
    rw [hreq, hcalls]
    intro n id h
    obtain ⟨hidle, hs⟩ := hinv.issued n id h
    by_cases hn : .rpc n = c
    · subst hn
      simp
    · rw [Function.update_of_ne hn]
      exact ⟨hidle, hs⟩
  case waiting =>
    rw [hreq, hdelivered, hloop]
    intro n id h hret
    rw [hcalls] at hret
    by_cases hn : .rpc n = c
    · subst hn
      cases (hinv.issued n id h).2 e hc
      exact .inl ⟨⟨.sessionCreated, id, .rpc n⟩, List.mem_append_right _ List.mem_cons_self, rfl⟩
    · rw [Function.update_of_ne hn] at hret
      refine (hinv.waiting n id h hret).imp_left ?_
      rintro ⟨e', he', hn'⟩
      exact ⟨e', List.mem_append_left _ he', hn'⟩

/-- The loop's `GetQueue` makes a stream of the event, or ends the loop. -/
theorem delivered_getQueue {s t : Streams.State} (h : s.getQueue = some t) :
    delivered t = delivered s ∨ t.loop = .returned ∧ (delivered t).Sublist (delivered s) := by
  obtain ⟨e, hl, ht, ⟨-, rfl⟩ | ⟨q, -, rfl⟩⟩ := State.getQueue_eq_some h
  · exact .inr ⟨rfl, (List.Sublist.refl _).append ((State.tail_sublist hl).filter _)⟩
  · have hgiven : given { s with
        streams := s.streams ++ [⟨e, q, false, .starting⟩]
        loop := .starting s.streams.length } = given s ++ [(e, q)] :=
      List.map_append
    refine .inl ?_
    rw [delivered, delivered, hgiven, State.inbox_received hl,
      List.filter_cons_of_pos (by simp [ht]), List.map_append, List.append_assoc]
    rfl

theorem delivered_cancelStream {s t : Streams.State} (h : s.cancelStream = some t) :
    delivered t = delivered s := by
  have hinbox : ∀ e, s.loop = .received e → e.type = .sessionDeleted →
      s.inbox.filter (fun e => e.type = .sessionCreated) =
        s.manager.events.buf.filter fun e => e.type = .sessionCreated := by
    intro e hl ht
    rw [State.inbox_received hl, List.filter_cons_of_neg (by simp [ht])]
  obtain ⟨e, hl, ht, ⟨-, rfl⟩ | ⟨g, st, -, hst, rfl⟩⟩ := State.cancelStream_eq_some h
  · rw [delivered, delivered, hinbox e hl ht]
    rfl
  · rw [delivered, delivered, hinbox e hl ht, ConsumersLemmas.given_set
      { st with cancelled := true } hst rfl rfl rfl]
    rfl

theorem delivered_inbox {s t : Streams.State} (hgiven : given t = given s)
    (hinbox : t.inbox = s.inbox) : delivered t = delivered s := by
  rw [delivered, delivered, hgiven, hinbox]

theorem delivered_receive {s t : Streams.State} (h : s.receive = some t) :
    delivered t = delivered s := by
  refine delivered_inbox ?_ (State.inbox_receive h)
  obtain ⟨-, ⟨e, m, -, rfl⟩ | ⟨-, -, rfl⟩⟩ := State.receive_eq_some h <;> rfl

theorem delivered_loopDone {s t : Streams.State} (h : s.loopDone = some t) :
    delivered t = delivered s := by
  refine delivered_inbox ?_ (State.inbox_loopDone h)
  obtain ⟨-, -, rfl⟩ := State.loopDone_eq_some h
  rfl

theorem delivered_start {s t : Streams.State} (h : s.start = some t) :
    delivered t = delivered s := by
  refine delivered_inbox ?_ (State.inbox_start h)
  obtain ⟨g, st, -, hst, rfl⟩ := State.start_eq_some h
  exact ConsumersLemmas.given_set { st with phase := .running } hst rfl rfl rfl

theorem delivered_endStream {s t : Streams.State} {g : Nat} (h : s.endStream g = some t) :
    delivered t = delivered s := by
  obtain ⟨st, hst, -, rfl⟩ := State.endStream_eq_some h
  exact delivered_inbox (ConsumersLemmas.given_set { st with phase := .ended } hst rfl rfl rfl) rfl

theorem eventInv_server {a : Streams.Action} (hinv : EventInv s)
    (h : s.serverStep a = some t) : EventInv t := by
  obtain ⟨server, requests, hs, rfl, ⟨rfl, hne⟩ | ⟨n, id, archiveID, rfl, rfl⟩, -⟩ :=
    State.serverStep_eq_some h
  case inr =>
    obtain ⟨hc, ⟨err, -, rfl⟩ | ⟨-, -, rfl⟩⟩ := Streams.State.createSession_eq_some hs
    · exact eventInv_create hinv hc rfl rfl (.inr ⟨err, rfl⟩) rfl rfl
    · exact eventInv_create hinv hc rfl rfl (.inl rfl) rfl rfl
  case inl =>
    cases a with
    | createSession n id archiveID => exact absurd rfl (hne n id archiveID)
    | deleteSession n id =>
      obtain ⟨hc, rfl⟩ := Streams.State.deleteSession_eq_some hs
      exact eventInv_call hinv rfl rfl (.inl ⟨hc, _, rfl, rfl⟩) rfl rfl
    | endSession g =>
      obtain ⟨st, -, -, hc, rfl⟩ := Streams.State.endSession_eq_some hs
      exact eventInv_call hinv rfl rfl (.inl ⟨hc, _, rfl, rfl⟩) rfl rfl
    | abandon c =>
      obtain ⟨e, hc, -, rfl⟩ := Streams.State.abandon_eq_some hs
      exact eventInv_call hinv rfl rfl (.inr ⟨⟨e, hc⟩, _, rfl⟩) rfl rfl
    | send c =>
      obtain ⟨e, m, hc, hm, rfl⟩ := Streams.State.send_eq_some hs
      obtain ⟨-, hb, -⟩ := SessionManager.send_eq_some hm
      refine eventInv_send hinv hc rfl rfl ?_ rfl
      rw [delivered, State.inbox_send _ _ hb, List.filter_append, ← List.append_assoc]
      rfl
    | receive =>
      have hd := delivered_receive hs
      obtain ⟨hl, ⟨e, m, -, rfl⟩ | ⟨-, -, rfl⟩⟩ := Streams.State.receive_eq_some hs
      · exact eventInv_quiet hinv rfl rfl (hd ▸ List.Sublist.refl _) (.inl hd) (by simp [hl])
      · exact eventInv_quiet hinv rfl rfl (hd ▸ List.Sublist.refl _) (.inl hd) (by simp [hl])
    | loopDone =>
      have hd := delivered_loopDone hs
      obtain ⟨hl, -, rfl⟩ := Streams.State.loopDone_eq_some hs
      exact eventInv_quiet hinv rfl rfl (hd ▸ List.Sublist.refl _) (.inl hd) (by simp [hl])
    | getQueue =>
      have hd := delivered_getQueue hs
      have hsub : (delivered server).Sublist (delivered s.server) := by
        rcases hd with hd | ⟨-, hd⟩
        · exact hd ▸ List.Sublist.refl _
        · exact hd
      obtain ⟨e, hl, -, ⟨-, rfl⟩ | ⟨q, -, rfl⟩⟩ := Streams.State.getQueue_eq_some hs
      · exact eventInv_quiet hinv rfl rfl hsub (hd.imp_right And.left) (by simp [hl])
      · exact eventInv_quiet hinv rfl rfl hsub (hd.imp_right And.left) (by simp [hl])
    | start =>
      have hd := delivered_start hs
      obtain ⟨g, st, hl, -, rfl⟩ := Streams.State.start_eq_some hs
      exact eventInv_quiet hinv rfl rfl (hd ▸ List.Sublist.refl _) (.inl hd) (by simp [hl])
    | cancelStream =>
      have hd := delivered_cancelStream hs
      obtain ⟨e, hl, -, ⟨-, rfl⟩ | ⟨g, st, -, -, rfl⟩⟩ := Streams.State.cancelStream_eq_some hs
      · exact eventInv_quiet hinv rfl rfl (hd ▸ List.Sublist.refl _) (.inl hd) (by simp [hl])
      · exact eventInv_quiet hinv rfl rfl (hd ▸ List.Sublist.refl _) (.inl hd) (by simp [hl])
    | endStream g =>
      have hd := delivered_endStream hs
      obtain ⟨st, -, -, rfl⟩ := Streams.State.endStream_eq_some hs
      exact eventInv_quiet hinv rfl rfl (hd ▸ List.Sublist.refl _) (.inl hd) (fun hr => hr)
    | cancelCall c | shutdown | closeEvents =>
      cases hs
      exact eventInv_quiet hinv rfl rfl (List.Sublist.refl _) (.inl rfl) (fun hr => hr)

theorem eventInv_step {a : Action} (hinv : EventInv s) (h : s.step a = some t) : EventInv t := by
  have hsame : t.server = s.server → t.requests = s.requests → EventInv t := by
    intro hserver hreq
    exact eventInv_quiet hinv hreq (by rw [hserver]) (hserver ▸ List.Sublist.refl _)
      (.inl (by rw [hserver])) (fun hr => hserver ▸ hr)
  cases a with
  | server a => exact eventInv_server hinv h
  | connect g v =>
    obtain ⟨st, n, ch, -, -, -, -, -, rfl⟩ := State.connect_eq_some h
    exact hsame rfl rfl
  | await n id =>
    obtain ⟨v, ch, -, -, rfl⟩ := State.await_eq_some h
    exact hsame rfl rfl
  | giveUp n id =>
    obtain ⟨-, rfl⟩ := State.giveUp_eq_some h
    exact hsame rfl rfl

end ReadyLemmas

theorem eventInv_initial (maxSessions : Int) : EventInv (.initial maxSessions) := by
  constructor
  case sending => exact fun c e h => nomatch h
  case delivered => exact fun e h => nomatch h
  case once => exact List.nodup_nil
  case issued => exact fun n id h => nomatch h
  case waiting => exact fun n id h => nomatch h

/-! ## The channels -/

/-- A stream sends once, on the channel that came with its event, and the RPC
takes what was sent or leaves it there. -/
structure SignalInv (s : State) : Prop where
  body : ∀ g v, s.bodies g = .signalled v ↔ ∃ n, (n, g, v) ∈ s.signals
  stream : ∀ n g v, (n, g, v) ∈ s.signals →
    ∃ st, s.server.streams[g]? = some st ∧ st.event.caller = .rpc n
  once : (s.signals.map Prod.fst).Nodup
  ended : ∀ (g : Nat) st, s.server.streams[g]? = some st → st.phase = .ended →
    s.bodies g ≠ .connecting
  buffered : ∀ n, (s.ready n).buf ≠ [] →
    ∃ g v, (n, g, v) ∈ s.signals ∧ (s.ready n).buf = [v]
  unanswered : ∀ n g v, (n, g, v) ∈ s.signals → s.answers n = none → (s.ready n).buf = [v]
  answered : ∀ n, s.answers n = some .created → ∃ g, (n, g, .connected) ∈ s.signals

namespace ReadyLemmas

variable {s t : State}

/-- The streams keep their numbers and events, end by `endStream` only, and a
step of the server starts one at most. -/
structure Keeps (a : Streams.Action) (l l' : List Stream) : Prop where
  event : ∀ (g : Nat) st, l[g]? = some st → ∃ st', l'[g]? = some st' ∧ st'.event = st.event
  ended : ∀ (g : Nat) st, l'[g]? = some st → st.phase = .ended →
    a = .endStream g ∨ ∃ st', l[g]? = some st' ∧ st'.phase = .ended
  length : l'.length ≤ l.length + a.cost

theorem keeps_refl (a : Streams.Action) (l : List Stream) : Keeps a l l :=
  ⟨fun _ st h => ⟨st, h, rfl⟩, fun _ st h hp => .inr ⟨st, h, hp⟩, Nat.le_add_right _ _⟩

theorem keeps_append {a : Streams.Action} (l : List Stream) {st : Stream}
    (ha : a.internal = true) (hp : st.phase ≠ .ended) : Keeps a l (l ++ [st]) := by
  refine ⟨fun g st' h => ⟨st', ?_, rfl⟩, fun g st' h hp' => ?_, ?_⟩
  · rw [List.getElem?_append_left (List.getElem?_eq_some_iff.mp h).1, h]
  · rw [List.getElem?_append] at h
    split at h
    · exact .inr ⟨st', h, hp'⟩
    · cases List.mem_singleton.mp (List.mem_of_getElem? h)
      exact absurd hp' hp
  · rw [List.length_append, Streams.Action.cost, if_pos ha]
    exact Nat.le_refl _

theorem keeps_set {a : Streams.Action} {l : List Stream} {g : Nat} {st st' : Stream}
    (hst : l[g]? = some st) (he : st'.event = st.event)
    (hp : st'.phase = .ended → a = .endStream g ∨ st.phase = .ended) :
    Keeps a l (l.set g st') := by
  refine ⟨fun g' x h => ?_, fun g' x h hx => ?_, ?_⟩
  · rcases eq_or_ne g g' with rfl | hne
    · cases Option.some.inj (hst.symm.trans h)
      exact ⟨st', List.getElem?_set_self (List.getElem?_eq_some_iff.mp hst).1, he⟩
    · exact ⟨x, by rw [List.getElem?_set_ne hne, h], rfl⟩
  · rcases CancelsLemmas.stream_of_set h with ⟨rfl, rfl⟩ | ⟨-, h⟩
    · exact (hp hx).imp_right fun hp => ⟨st, hst, hp⟩
    · exact .inr ⟨x, h, hx⟩
  · rw [List.length_set]
    exact Nat.le_add_right _ _

theorem streams_step {s t : Streams.State} {a : Streams.Action} (h : s.step a = some t) :
    Keeps a s.streams t.streams := by
  cases a with
  | createSession n id archiveID =>
    obtain ⟨-, ⟨err, -, rfl⟩ | ⟨-, -, rfl⟩⟩ := Streams.State.createSession_eq_some h
    · exact keeps_refl _ _
    · exact keeps_refl _ _
  | deleteSession n id =>
    obtain ⟨-, rfl⟩ := Streams.State.deleteSession_eq_some h
    exact keeps_refl _ _
  | endSession g =>
    obtain ⟨st, -, -, -, rfl⟩ := Streams.State.endSession_eq_some h
    exact keeps_refl _ _
  | abandon c =>
    obtain ⟨e, -, -, rfl⟩ := Streams.State.abandon_eq_some h
    exact keeps_refl _ _
  | send c =>
    obtain ⟨e, m, -, -, rfl⟩ := Streams.State.send_eq_some h
    exact keeps_refl _ _
  | receive =>
    obtain ⟨-, ⟨e, m, -, rfl⟩ | ⟨-, -, rfl⟩⟩ := Streams.State.receive_eq_some h
    · exact keeps_refl _ _
    · exact keeps_refl _ _
  | loopDone =>
    obtain ⟨-, -, rfl⟩ := Streams.State.loopDone_eq_some h
    exact keeps_refl _ _
  | getQueue =>
    obtain ⟨e, -, -, ⟨-, rfl⟩ | ⟨q, -, rfl⟩⟩ := Streams.State.getQueue_eq_some h
    · exact keeps_refl _ _
    · exact keeps_append _ rfl (by simp)
  | start =>
    obtain ⟨g, st, -, hst, rfl⟩ := Streams.State.start_eq_some h
    exact keeps_set hst rfl (by simp)
  | cancelStream =>
    obtain ⟨e, -, -, ⟨-, rfl⟩ | ⟨g, st, -, hst, rfl⟩⟩ := Streams.State.cancelStream_eq_some h
    · exact keeps_refl _ _
    · exact keeps_set hst rfl .inr
  | endStream g =>
    obtain ⟨st, hst, -, rfl⟩ := Streams.State.endStream_eq_some h
    exact keeps_set hst rfl fun _ => .inl rfl
  | cancelCall c | shutdown | closeEvents =>
    cases h
    exact keeps_refl _ _

/-- Every stream was started for an event that was delivered. -/
theorem event_delivered {s : Streams.State} {g : Nat} {st : Stream}
    (hst : s.streams[g]? = some st) : st.event ∈ delivered s := by
  refine List.mem_append_left _ ?_
  rw [given, List.map_map]
  exact List.mem_map_of_mem (List.mem_of_getElem? hst)

/-- The stream of an RPC's event is found by its caller. -/
theorem stream_unique (hinv : EventInv s) {g g' : Nat} {st st' : Stream} {c : Caller}
    (hst : s.server.streams[g]? = some st) (hc : st.event.caller = c)
    (hst' : s.server.streams[g']? = some st') (hc' : st'.event.caller = c) : g = g' := by
  have honce : (s.server.streams.map fun st => st.event.caller).Nodup := by
    have h := hinv.once
    rw [delivered, given, List.map_append, List.map_map, List.map_map] at h
    exact h.of_append_left
  have hg : g < (s.server.streams.map fun st => st.event.caller).length := by
    rw [List.length_map]
    exact (List.getElem?_eq_some_iff.mp hst).1
  refine (List.getElem?_inj hg honce).mp ?_
  rw [List.getElem?_map, List.getElem?_map, hst, hst', Option.map_some, Option.map_some, hc, hc']

theorem signalInv_server {a : Streams.Action} (hinv : SignalInv s)
    (h : s.serverStep a = some t) : SignalInv t := by
  obtain ⟨server, requests, hs, rfl, -, hend⟩ := State.serverStep_eq_some h
  have hkeeps := streams_step hs
  constructor
  case body => exact hinv.body
  case stream =>
    intro n g v hmem
    obtain ⟨st, hst, hc⟩ := hinv.stream n g v hmem
    obtain ⟨st', hst', he⟩ := hkeeps.event g st hst
    exact ⟨st', hst', he ▸ hc⟩
  case once => exact hinv.once
  case ended =>
    intro g st hst hp
    rcases hkeeps.ended g st hst hp with rfl | ⟨st', hst', hp'⟩
    · exact hend g rfl
    · exact hinv.ended g st' hst' hp'
  case buffered => exact hinv.buffered
  case unanswered => exact hinv.unanswered
  case answered => exact hinv.answered

/-- Nothing was sent yet on the channel of a stream that is connecting. -/
theorem unsent_of_connecting (hinv : SignalInv s) (hevent : EventInv s) {g n : Nat} {st : Stream}
    (hst : s.server.streams[g]? = some st) (hc : st.event.caller = .rpc n)
    (hb : s.bodies g = .connecting) : n ∉ s.signals.map Prod.fst := by
  intro hmem
  obtain ⟨⟨n', g', v⟩, hsent, rfl⟩ := List.mem_map.mp hmem
  obtain ⟨st', hst', hc'⟩ := hinv.stream n' g' v hsent
  cases stream_unique hevent hst hc hst' hc'
  have hv := (hinv.body g v).mpr ⟨n', hsent⟩
  rw [hb] at hv
  cases hv

theorem buf_of_connecting (hinv : SignalInv s) (hevent : EventInv s) {g n : Nat} {st : Stream}
    (hst : s.server.streams[g]? = some st) (hc : st.event.caller = .rpc n)
    (hb : s.bodies g = .connecting) : (s.ready n).buf = [] := by
  by_contra hne
  obtain ⟨g', v, hmem, -⟩ := hinv.buffered n hne
  exact unsent_of_connecting hinv hevent hst hc hb (List.mem_map_of_mem hmem)

theorem signalInv_connect {g : Nat} {v : Signal} (hinv : SignalInv s) (hevent : EventInv s)
    (h : s.connect g v = some t) : SignalInv t := by
  obtain ⟨st, n, ch, hst, hc, hp, hb, hch, rfl⟩ := State.connect_eq_some h
  have hunsent := unsent_of_connecting hinv hevent hst hc hb
  -- the channel is empty, and now holds `v` alone
  obtain ⟨-, hbuf⟩ := Chan.send?_eq_some.mp hch
  rw [buf_of_connecting hinv hevent hst hc hb, List.nil_append] at hbuf
  constructor
  case body =>
    intro g' v'
    show Function.update s.bodies g _ g' = _ ↔ ∃ n', _ ∈ _ :: _
    simp only [List.mem_cons]
    rcases eq_or_ne g' g with rfl | hne
    · rw [Function.update_self]
      constructor
      · intro hv
        cases hv
        exact ⟨n, .inl rfl⟩
      · rintro ⟨n', hmem | hmem⟩
        · cases hmem
          rfl
        · have hv := (hinv.body g' v').mpr ⟨n', hmem⟩
          rw [hb] at hv
          cases hv
    · rw [Function.update_of_ne hne, hinv.body g' v']
      constructor
      · rintro ⟨n', hmem⟩
        exact ⟨n', .inr hmem⟩
      · rintro ⟨n', hmem | hmem⟩
        · cases hmem
          exact absurd rfl hne
        · exact ⟨n', hmem⟩
  case stream =>
    intro n' g' v' hmem
    rcases List.mem_cons.mp hmem with hmem | hmem
    · cases hmem
      exact ⟨st, hst, hc⟩
    · exact hinv.stream n' g' v' hmem
  case once => exact List.nodup_cons.mpr ⟨hunsent, hinv.once⟩
  case ended =>
    intro g' st' hst' hp'
    show Function.update s.bodies g _ g' ≠ _
    rcases eq_or_ne g' g with rfl | hne
    · rw [Function.update_self]
      exact Body.noConfusion
    · rw [Function.update_of_ne hne]
      exact hinv.ended g' st' hst' hp'
  case buffered =>
    dsimp only
    intro n' hne
    rcases eq_or_ne n' n with rfl | hn
    · exact ⟨g, v, List.mem_cons_self, by rw [Function.update_self, hbuf]⟩
    · rw [Function.update_of_ne hn] at hne ⊢
      obtain ⟨g', v', hmem, hb'⟩ := hinv.buffered n' hne
      exact ⟨g', v', List.mem_cons_of_mem _ hmem, hb'⟩
  case unanswered =>
    intro n' g' v' hmem ha
    show (Function.update s.ready n ch n').buf = _
    rcases List.mem_cons.mp hmem with hnew | hold
    · cases hnew
      rw [Function.update_self, hbuf]
    · -- another stream has sent on another channel
      have hn : n' ≠ n := by
        rintro rfl
        exact hunsent (List.mem_map_of_mem hold)
      rw [Function.update_of_ne hn]
      exact hinv.unanswered n' g' v' hold ha
  case answered =>
    intro n' ha
    obtain ⟨g', hmem⟩ := hinv.answered n' ha
    exact ⟨g', List.mem_cons_of_mem _ hmem⟩

theorem signalInv_await {n : Nat} {id : SessionID} (hinv : SignalInv s)
    (h : s.await n id = some t) : SignalInv t := by
  obtain ⟨v, ch, hw, hch, rfl⟩ := State.await_eq_some h
  have hbuf := Chan.recv?_eq_some.mp hch
  obtain ⟨g, v', hmem, hv⟩ := hinv.buffered n (by rw [hbuf]; exact List.cons_ne_nil _ _)
  rw [hbuf, List.cons.injEq] at hv
  obtain ⟨rfl, hempty⟩ := hv
  constructor
  case body => exact hinv.body
  case stream => exact hinv.stream
  case once => exact hinv.once
  case ended => exact hinv.ended
  case buffered =>
    dsimp only
    intro n' hne
    rcases eq_or_ne n' n with rfl | hn
    · rw [Function.update_self] at hne
      exact absurd hempty hne
    · rw [Function.update_of_ne hn] at hne ⊢
      exact hinv.buffered n' hne
  case unanswered =>
    dsimp only
    intro n' g' v' hmem' ha
    have hn : n' ≠ n := by
      rintro rfl
      rw [Function.update_self] at ha
      cases ha
    rw [Function.update_of_ne hn] at ha ⊢
    exact hinv.unanswered n' g' v' hmem' ha
  case answered =>
    dsimp only
    intro n' ha
    rcases eq_or_ne n' n with rfl | hn
    · rw [Function.update_self] at ha
      cases v with
      | connected => exact ⟨g, hmem⟩
      | failed => cases ha
    · rw [Function.update_of_ne hn] at ha
      exact hinv.answered n' ha

theorem signalInv_giveUp {n : Nat} {id : SessionID} (hinv : SignalInv s)
    (h : s.giveUp n id = some t) : SignalInv t := by
  obtain ⟨hw, rfl⟩ := State.giveUp_eq_some h
  refine ⟨hinv.body, hinv.stream, hinv.once, hinv.ended, hinv.buffered, ?_, ?_⟩
  · dsimp only
    intro n' g' v' hmem ha
    have hn : n' ≠ n := by
      rintro rfl
      rw [Function.update_self] at ha
      cases ha
    rw [Function.update_of_ne hn] at ha
    exact hinv.unanswered n' g' v' hmem ha
  · dsimp only
    intro n' ha
    have hn : n' ≠ n := by
      rintro rfl
      rw [Function.update_self] at ha
      cases ha
    rw [Function.update_of_ne hn] at ha
    exact hinv.answered n' ha

theorem signalInv_step {a : Action} (hinv : SignalInv s) (hevent : EventInv s)
    (h : s.step a = some t) : SignalInv t := by
  cases a with
  | server a => exact signalInv_server hinv h
  | connect g v => exact signalInv_connect hinv hevent h
  | await n id => exact signalInv_await hinv h
  | giveUp n id => exact signalInv_giveUp hinv h

end ReadyLemmas

open ReadyLemmas

theorem signalInv_initial (maxSessions : Int) : SignalInv (.initial maxSessions) := by
  constructor
  case body =>
    intro g v
    constructor
    · intro h
      cases h
    · rintro ⟨n, h⟩
      cases h
  case stream => exact fun n g v h => nomatch h
  case once => exact List.nodup_nil
  case ended => exact fun g st h => nomatch h
  case buffered => exact fun n h => absurd rfl h
  case unanswered => exact fun n g v h => nomatch h
  case answered => exact fun n h => nomatch h

theorem invs_reach {maxSessions : Int} {s : State} (h : Reachable (readySystem maxSessions) s) :
    EventInv s ∧ SignalInv s := by
  refine h.invariant (I := fun s => EventInv s ∧ SignalInv s) ?_ ?_
  · rintro _ rfl
    exact ⟨eventInv_initial maxSessions, signalInv_initial maxSessions⟩
  · rintro s a t - ⟨hevent, hsignal⟩ - hs
    exact ⟨eventInv_step hevent hs, signalInv_step hsignal hevent hs⟩

namespace ReadyLemmas

theorem connect_of_connecting {s : State} (hevent : EventInv s) (hsignal : SignalInv s) {g : Nat}
    {st : Stream} (hst : s.server.streams[g]? = some st) (hp : st.phase = .running)
    (hb : s.bodies g = .connecting) (v : Signal) : ∃ t, s.connect g v = some t := by
  obtain ⟨n, hn, -⟩ := hevent.delivered _ (event_delivered hst)
  obtain ⟨⟨type, id, caller⟩, queue, cancelled, phase⟩ := st
  cases hp
  cases hn
  have hbuf := buf_of_connecting hsignal hevent hst rfl hb
  have hsend : (s.ready n).send? v = some ⟨[v], Nat.le_refl 1⟩ :=
    Chan.send?_eq_some.mpr ⟨by rw [hbuf]; exact Nat.one_pos, by rw [hbuf]; rfl⟩
  simp only [State.connect, hst, if_pos hb, hsend, Option.map_some]
  exact ⟨_, rfl⟩

end ReadyLemmas

/-- In every reachable state a stream that has made its attempts can send the
outcome, whatever it is, and on no channel was sent twice. -/
theorem signal_ready {maxSessions : Int} {s : State} {g : Nat} {st : Stream}
    (h : Reachable (readySystem maxSessions) s) (hst : s.server.streams[g]? = some st)
    (hp : st.phase = .running) (hb : s.bodies g = .connecting) :
    (∀ v, ∃ t, s.connect g v = some t) ∧ (s.signals.map Prod.fst).Nodup := by
  obtain ⟨hevent, hsignal⟩ := invs_reach h
  exact ⟨connect_of_connecting hevent hsignal hst hp hb, hsignal.once⟩

/-- The RPC of the second session has given up, and its stream sends. -/
theorem signal_ready_abandoned :
    ∃ s : State, (∀ v, ∃ t, s.connect 0 v = some t) ∧ (s.signals.map Prod.fst).Nodup ∧
      s.answers 0 = some .deadlineExceeded := by
  obtain ⟨s, hs, hp⟩ := Reachable.of_run (S := readySystem 50)
    (p := fun s => decide (s.server.streams =
        [⟨⟨.sessionCreated, "station", .rpc 0⟩, 0, false, .running⟩] ∧
      s.bodies 0 = .connecting ∧ s.answers 0 = some .deadlineExceeded))
    [.server (.createSession 0 "station" none), .server (.send (.rpc 0)),
      .server (.cancelCall (.rpc 0)), .giveUp 0 "station", .server .receive, .server .getQueue,
      .server .start]
    rfl (by decide)
  obtain ⟨hst, hb, ha⟩ := of_decide_eq_true hp
  obtain ⟨hready, honce⟩ := signal_ready (g := 0) hs (by rw [hst]; rfl) rfl hb
  exact ⟨s, hready, honce, ha⟩

/-- In every reachable state an RPC that has answered with a stream URL has a
stream of its own, started for its event, which has connected. -/
theorem created_connected {maxSessions : Int} {s : State} {n : Nat}
    (h : Reachable (readySystem maxSessions) s) (ha : s.answers n = some .created) :
    ∃ id g st, s.requests n = some id ∧ s.server.streams[g]? = some st ∧
      st.event.caller = .rpc n ∧ st.sessionID = id ∧ s.bodies g = .signalled .connected := by
  obtain ⟨hevent, hsignal⟩ := invs_reach h
  obtain ⟨g, hmem⟩ := hsignal.answered n ha
  obtain ⟨st, hst, hc⟩ := hsignal.stream n g _ hmem
  obtain ⟨n', hn', -, hid⟩ := hevent.delivered _ (event_delivered hst)
  cases hc.symm.trans hn'
  exact ⟨_, g, st, hid, hst, hc, rfl, (hsignal.body g _).mpr ⟨n, hmem⟩⟩

theorem created_connected_station : ∃ s : State, s.answers 0 = some .created ∧
    ∃ id g st, s.requests 0 = some id ∧ s.server.streams[g]? = some st ∧
      st.event.caller = .rpc 0 ∧ st.sessionID = id ∧ s.bodies g = .signalled .connected := by
  obtain ⟨s, hs, hp⟩ := Reachable.of_run (S := readySystem 50)
    (p := fun s => decide (s.answers 0 = some .created))
    [.server (.createSession 0 "station" none), .server (.send (.rpc 0)), .server .receive,
      .server .getQueue, .server .start, .connect 0 .connected, .await 0 "station"]
    rfl (by decide)
  exact ⟨s, of_decide_eq_true hp, created_connected hs (of_decide_eq_true hp)⟩

end RadioJockey.Ready
