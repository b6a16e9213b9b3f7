import RadioJockey.Registry
import RadioJockey.StreamURL

/-!
# The RPCs of one session (`connect/rpc.go`)

Five handlers resolve the session id with `GetQueue` and then use the queue.
`DeleteSessionAuth` calls `DeleteSession`, which deletes and sends whether there
was an entry or not.

1. `delete_of_missing`: `DeleteSessionAuth` of an id that is not registered
   succeeds and sends a deleted event.
2. `agrees_iff`: for every registry and every request, an RPC answers `NotFound`
   exactly for the missing sessions, and changes nothing for them, if and only
   if it is not `DeleteSessionAuth` or the session is registered.
3. `outcome_reachable`: what an RPC makes of a reachable registry is reachable.
-/

namespace RadioJockey

/-- `proto.Track`. -/
structure ProtoTrack where
  id : Int
  source : String
  sourceId : String
  title : String
  artist : String
  duration : Int
  albumArtUrl : String
  deriving DecidableEq, Repr

def trackToProto (t : Track) : ProtoTrack :=
  ⟨t.id, t.source, t.sourceID, t.title, t.artist, t.duration, t.albumArtURL⟩

namespace SessionRpcs

open Transition Registry

/-- An `AddTrack` request comes with the track that `DownloadTrackFromURL` has
returned, and a `DeleteSessionAuth` request with a valid token. -/
inductive Request
  | getSession (sessionID : SessionID)
  | listQueue (sessionID : SessionID)
  | removeTrack (sessionID : SessionID) (index : UInt32)
  | skipTrack (sessionID : SessionID)
  | addTrack (sessionID : SessionID) (track : Track)
  | deleteSessionAuth (sessionID : SessionID)
  deriving DecidableEq

def Request.sessionID : Request → SessionID
  | .getSession sessionID => sessionID
  | .listQueue sessionID => sessionID
  | .removeTrack sessionID _ => sessionID
  | .skipTrack sessionID => sessionID
  | .addTrack sessionID _ => sessionID
  | .deleteSessionAuth sessionID => sessionID

inductive Response
  | getSession (streamUrl : String)
  | listQueue (tracks : List ProtoTrack)
  | removeTrack
  | skipTrack
  | addTrack (track : ProtoTrack)
  | deleteSessionAuth
  deriving DecidableEq

abbrev Result := Except Code Response

/-! ## The handlers -/

/-- What a handler does with the queue that `GetQueue` has returned. -/
abbrev QueueHandler := SessionQueue Track → Result × SessionQueue Track

def getSession (streamBaseURL : String) (sessionID : SessionID) : QueueHandler := fun queue =>
  (.ok (.getSession (StreamURL.streamURL streamBaseURL sessionID)), queue)

def listQueue : QueueHandler := fun queue =>
  (.ok (.listQueue (queue.listQueue.map trackToProto)), queue)

def removeTrack (index : UInt32) : QueueHandler := fun queue =>
  if index = 0 then (.error .invalidArgument, queue)
  else match queue.remove index.toNat with
    | .error err => (.error (rpcErrorToCode (.session err)), queue)
    | .ok queue' => (.ok .removeTrack, queue')

def skipTrack : QueueHandler := fun queue =>
  match queue.skip with
  | .error err => (.error (rpcErrorToCode (.session err)), queue)
  | .ok queue' => (.ok .skipTrack, queue')

/-- `Enqueue`, with its signal. An error of `Touch` after it is logged. -/
def addTrack (track : Track) : QueueHandler := fun queue =>
  match queue.enqueue track with
  | .error err => (.error (rpcErrorToCode (.session err)), queue)
  | .ok queue' => (.ok (.addTrack (trackToProto track)), queue'.wake)

/-- What an RPC returns, and the registry after it. -/
structure Outcome where
  result : Result
  manager : SessionManager Track

/-- `GetQueue`, and the rest of the handler. `allocated` excludes the last
case. -/
def withQueue (m : SessionManager Track) (sessionID : SessionID) (f : QueueHandler) :
    List Outcome :=
  match m.getQueue sessionID with
  | .error err => [⟨.error (rpcErrorToCode (.session err)), m⟩]
  | .ok q =>
    match m.queues[q]? with
    | some queue => [⟨(f queue).1, m.setQueue q (f queue).2⟩]
    | none => []

/-- The locked section of `DeleteSession`, and either case of its `select`. -/
def deleteSessionAuth (m : SessionManager Track) (n : Nat) (sessionID : SessionID) :
    List Outcome :=
  let m' := m.deleteSession sessionID
  ((m'.send ⟨.sessionDeleted, sessionID, .rpc n⟩).toList.map fun m'' =>
    ⟨.ok .deleteSessionAuth, m''⟩) ++ [⟨.error (rpcErrorToCode (.session .contextError)), m'⟩]

/-- The outcomes of the RPC `n`. -/
def handle (streamBaseURL : String) (m : SessionManager Track) (n : Nat) : Request → List Outcome
  | .getSession sessionID => withQueue m sessionID (getSession streamBaseURL sessionID)
  | .listQueue sessionID => withQueue m sessionID listQueue
  | .removeTrack sessionID index => withQueue m sessionID (removeTrack index)
  | .skipTrack sessionID => withQueue m sessionID skipTrack
  | .addTrack sessionID track => withQueue m sessionID (addTrack track)
  | .deleteSessionAuth sessionID => deleteSessionAuth m n sessionID

/-! ## What is claimed of them -/

/-- The RPC answers `NotFound` for a session that is not registered and changes
nothing, and does not answer so for one that is. -/
structure Agrees (streamBaseURL : String) (m : SessionManager Track) (n : Nat) (req : Request) :
    Prop where
  missing : m.sessions.lookup req.sessionID = none →
    ∀ o ∈ handle streamBaseURL m n req, o = ⟨.error .notFound, m⟩
  found : (m.sessions.lookup req.sessionID).isSome →
    ∀ o ∈ handle streamBaseURL m n req, o.result ≠ .error .notFound

def Request.isDelete : Request → Bool
  | .deleteSessionAuth _ => true
  | _ => false

namespace SessionRpcsLemmas

theorem withQueue_missing {m : SessionManager Track} {id : SessionID}
    (h : m.sessions.lookup id = none) (f : QueueHandler) :
    withQueue m id f = [⟨.error .notFound, m⟩] := by
  have hget : m.getQueue id = .error .sessionNotFoundError :=
    SessionManager.getQueue_eq_error.mpr ⟨h, rfl⟩
  rw [withQueue, hget]
  rfl

theorem withQueue_found {m : SessionManager Track} {id : SessionID} {q : QueueRef}
    (h : m.sessions.lookup id = some q) (f : QueueHandler) :
    ∃ queue, m.queues[q]? = some queue ∧
      withQueue m id f = [⟨(f queue).1, m.setQueue q (f queue).2⟩] := by
  have hget : m.getQueue id = .ok q := SessionManager.getQueue_eq_ok.mpr h
  have hqueue := List.getElem?_eq_getElem (m.allocated id q h)
  refine ⟨_, hqueue, ?_⟩
  simp only [withQueue, hget, hqueue]

/-- The outcomes of `DeleteSession`. -/
theorem mem_deleteSessionAuth {m : SessionManager Track} {n : Nat} {id : SessionID} {o : Outcome} :
    o ∈ deleteSessionAuth m n id ↔
      (∃ m', (m.deleteSession id).send ⟨.sessionDeleted, id, .rpc n⟩ = some m' ∧
        o = ⟨.ok .deleteSessionAuth, m'⟩) ∨ o = ⟨.error .internal, m.deleteSession id⟩ := by
  simp only [deleteSessionAuth, List.mem_append, List.mem_map, Option.mem_toList,
    List.mem_singleton, rpcErrorToCode]
  exact or_congr_left (exists_congr fun m' => and_congr_right fun _ => eq_comm)

end SessionRpcsLemmas

open SessionRpcsLemmas

namespace SessionRpcsLemmas

/-- Some run of the registry makes `m` of it. -/
def LeadsTo (maxSessions : Int) (s : Registry.State) (m : SessionManager Track) : Prop :=
  ∃ as t, run (registrySystem maxSessions) s as = some t ∧ t.server.manager = m

variable {maxSessions : Int} {s : Registry.State} {n : Nat} {id : SessionID} {q : QueueRef}
  {queue queue' : SessionQueue Track}

theorem leadsTo_self : LeadsTo maxSessions s s.server.manager := ⟨[], s, rfl, rfl⟩

/-- An error leaves the queue as it was. -/
theorem leadsTo_setQueue_self (hq : s.server.manager.queues[q]? = some queue) :
    LeadsTo maxSessions s (s.server.manager.setQueue q queue) := by
  obtain ⟨hlt, rfl⟩ := List.getElem?_eq_some_iff.mp hq
  have hself : s.server.manager.setQueue q s.server.manager.queues[q] = s.server.manager := by
    simp only [SessionManager.setQueue, List.set_getElem_self]
  rw [hself]
  exact leadsTo_self

theorem step_getQueue (hu : s.users n = .idle)
    (hl : s.server.manager.sessions.lookup id = some q) :
    s.step (.getQueue n id) = some { s with users := Function.update s.users n (.holding q) } := by
  have hget : s.server.manager.getQueue id = .ok q := SessionManager.getQueue_eq_ok.mpr hl
  simp only [Registry.State.step, Registry.State.getQueue, hu, hget]

theorem call_of_some {next : User} {f : SessionQueue Track → Option (SessionQueue Track)}
    (hq : s.server.manager.queues[q]? = some queue) (hf : f queue = some queue') :
    s.call n q next f = some ⟨s.setQueue q queue', Function.update s.users n next⟩ := by
  simp only [Registry.State.call, hq, hf]

/-- The user fetches the queue and calls one method. -/
theorem run_method {a : Action} {next : User}
    {f : SessionQueue Track → Option (SessionQueue Track)} (hu : s.users n = .idle)
    (hl : s.server.manager.sessions.lookup id = some q)
    (hq : s.server.manager.queues[q]? = some queue) (hf : f queue = some queue')
    (ha : ∀ s : Registry.State, s.users n = .holding q → s.step a = s.call n q next f) :
    ∃ t, run (registrySystem maxSessions) s [.getQueue n id, a] = some t ∧ t.users n = next ∧
      t.server.manager = s.server.manager.setQueue q queue' := by
  let held : Registry.State := { s with users := Function.update s.users n (.holding q) }
  refine ⟨⟨held.setQueue q queue', Function.update held.users n next⟩, ?_,
    Function.update_self _ _ _, rfl⟩
  have hcall : held.step a = some ⟨held.setQueue q queue', Function.update held.users n next⟩ :=
    (ha held (Function.update_self _ _ _)).trans (call_of_some hq hf)
  simp only [run, registrySystem, step_getQueue hu hl, Option.bind_some]
  rw [show Registry.State.step _ a = _ from hcall, Option.bind_some]

/-- `GetQueue` and the rest of a handler, when the rest is a run. -/
theorem leadsTo_withQueue {f : QueueHandler} {o : Outcome}
    (ho : o ∈ withQueue s.server.manager id f)
    (hf : ∀ q queue, s.server.manager.sessions.lookup id = some q →
      s.server.manager.queues[q]? = some queue →
      LeadsTo maxSessions s (s.server.manager.setQueue q (f queue).2)) :
    LeadsTo maxSessions s o.manager := by
  cases hl : s.server.manager.sessions.lookup id with
  | none =>
    rw [withQueue_missing hl, List.mem_singleton] at ho
    rw [ho]
    exact leadsTo_self
  | some q =>
    obtain ⟨queue, hq, houtcome⟩ := withQueue_found hl f
    rw [houtcome, List.mem_singleton] at ho
    rw [ho]
    exact hf q queue hl hq

theorem leadsTo_removeTrack (index : UInt32) (hu : s.users n = .idle)
    (hl : s.server.manager.sessions.lookup id = some q)
    (hq : s.server.manager.queues[q]? = some queue) :
    LeadsTo maxSessions s (s.server.manager.setQueue q (removeTrack index queue).2) := by
  unfold removeTrack
  split
  · exact leadsTo_setQueue_self hq
  · split
    · exact leadsTo_setQueue_self hq
    · next queue' hremove =>
      have hstep : ∀ s : Registry.State, s.users n = .holding q → s.step (.remove n index.toNat) =
          s.call n q (.holding q) fun queue => (queue.remove index.toNat).toOption := fun s hs => by
        simp only [Registry.State.step, Registry.State.callHeld, hs]
      obtain ⟨t, hrun, -, ht⟩ := run_method hu hl hq (by rw [hremove]; rfl) hstep
      exact ⟨_, t, hrun, ht⟩

theorem leadsTo_skipTrack (hu : s.users n = .idle)
    (hl : s.server.manager.sessions.lookup id = some q)
    (hq : s.server.manager.queues[q]? = some queue) :
    LeadsTo maxSessions s (s.server.manager.setQueue q (skipTrack queue).2) := by
  unfold skipTrack
  split
  · exact leadsTo_setQueue_self hq
  · next queue' hskip =>
    have hstep : ∀ s : Registry.State, s.users n = .holding q → s.step (.skip n) =
        s.call n q (.holding q) fun queue => queue.skip.toOption := fun s hs => by
      simp only [Registry.State.step, Registry.State.callHeld, hs]
    obtain ⟨t, hrun, -, ht⟩ := run_method hu hl hq (by rw [hskip]; rfl) hstep
    exact ⟨_, t, hrun, ht⟩

/-- `Enqueue` is an append and then a signal. -/
theorem leadsTo_addTrack (track : Track) (hu : s.users n = .idle)
    (hl : s.server.manager.sessions.lookup id = some q)
    (hq : s.server.manager.queues[q]? = some queue) :
    LeadsTo maxSessions s (s.server.manager.setQueue q (addTrack track queue).2) := by
  unfold addTrack
  split
  · exact leadsTo_setQueue_self hq
  · next queue' henqueue =>
    have hstep : ∀ s : Registry.State, s.users n = .holding q → s.step (.enqueue n track) =
        s.call n q (.signalling q) fun queue => (queue.enqueue track).toOption := fun s hs => by
      simp only [Registry.State.step, Registry.State.enqueue, hs]
    obtain ⟨t, hrun, hsignal, ht⟩ := run_method hu hl hq (by rw [henqueue]; rfl) hstep
    have hq' : t.server.manager.queues[q]? = some queue' := by
      rw [ht]
      exact List.getElem?_set_self (List.getElem?_eq_some_iff.mp hq).1
    let woken : Registry.State :=
      ⟨t.setQueue q queue'.wake, Function.update t.users n (.holding q)⟩
    have hwake : t.step (.wake n) = some woken := by
      simp only [Registry.State.step, Registry.State.wake, hsignal]
      exact call_of_some hq' rfl
    refine ⟨[.getQueue n id, .enqueue n track] ++ [.wake n], woken, ?_, ?_⟩
    · rw [run_append, hrun, Option.bind_some]
      show (t.step (.wake n)).bind _ = _
      rw [hwake]
      rfl
    · show t.server.manager.setQueue q queue'.wake = _
      rw [ht]
      simp only [SessionManager.setQueue, List.set_set]

/-- The `select` of `DeleteSession` takes either case. -/
theorem leadsTo_deleteSessionAuth {o : Outcome} (hc : s.server.calls (.rpc n) = .idle)
    (hopen : s.server.closed = false) (ho : o ∈ deleteSessionAuth s.server.manager n id) :
    LeadsTo maxSessions s o.manager := by
  let e : SessionManagerEvent := ⟨.sessionDeleted, id, .rpc n⟩
  let deleted : Streams.State := { s.server with
    manager := s.server.manager.deleteSession id
    calls := Function.update s.server.calls (.rpc n) (.sending e)
    history := .erased (.rpc n) id (s.server.manager.sessions.lookup id) :: s.server.history }
  have hdelete : s.server.step (.deleteSession n id) = some deleted := by
    simp only [Streams.State.step, Streams.State.deleteSession, hc]
    rfl
  have hsending : deleted.calls (.rpc n) = .sending e := Function.update_self _ _ _
  rcases mem_deleteSessionAuth.mp ho with ⟨m', hsend, rfl⟩ | rfl
  · refine ⟨[.server (.deleteSession n id), .server (.send (.rpc n))], ?_⟩
    have hsent : deleted.step (.send (.rpc n)) = some { deleted with
        manager := m'
        calls := Function.update deleted.calls (.rpc n) (.returned none)
        history := .sent e :: deleted.history } := by
      have hopen : deleted.closed = false := hopen
      have hsend : deleted.manager.send e = some m' := hsend
      simp only [Streams.State.step, Streams.State.send, hsending, hopen, hsend]
      rfl
    simp only [run, registrySystem, Registry.State.step, hdelete, hsent, Option.map_some,
      Option.bind_some]
    exact ⟨_, rfl, rfl⟩
  · refine ⟨[.server (.deleteSession n id), .server (.cancelCall (.rpc n)),
      .server (.abandon (.rpc n))], ?_⟩
    let done : Streams.State :=
      { deleted with callDone := Function.update deleted.callDone (.rpc n) true }
    have hdone : deleted.step (.cancelCall (.rpc n)) = some done := rfl
    have habandon : done.step (.abandon (.rpc n)) = some { done with
        calls := Function.update done.calls (.rpc n) (.returned (some .contextError)) } := by
      have hsending : done.calls (.rpc n) = .sending e := hsending
      have hdone : done.callDone (.rpc n) = true := Function.update_self _ _ _
      simp only [Streams.State.step, Streams.State.abandon, hsending, hdone, if_true]
    simp only [run, registrySystem, Registry.State.step, hdelete, hdone, habandon,
      Option.map_some, Option.bind_some]
    exact ⟨_, rfl, rfl⟩

end SessionRpcsLemmas

/-- In a server that still runs, an RPC leads from a reachable registry to a
reachable one. -/
theorem outcome_reachable {maxSessions : Int} {s : Registry.State} {streamBaseURL : String}
    {n : Nat} {req : Request} {o : Outcome} (hs : Reachable (registrySystem maxSessions) s)
    (hu : s.users n = .idle) (hc : s.server.calls (.rpc n) = .idle)
    (hopen : s.server.closed = false) (ho : o ∈ handle streamBaseURL s.server.manager n req) :
    ∃ t, Reachable (registrySystem maxSessions) t ∧ t.server.manager = o.manager := by
  have hleads : LeadsTo maxSessions s o.manager := by
    cases req with
    | getSession id => exact leadsTo_withQueue ho fun _ _ _ => leadsTo_setQueue_self
    | listQueue id => exact leadsTo_withQueue ho fun _ _ _ => leadsTo_setQueue_self
    | removeTrack id index => exact leadsTo_withQueue ho fun _ _ => leadsTo_removeTrack index hu
    | skipTrack id => exact leadsTo_withQueue ho fun _ _ => leadsTo_skipTrack hu
    | addTrack id track => exact leadsTo_withQueue ho fun _ _ => leadsTo_addTrack track hu
    | deleteSessionAuth id => exact leadsTo_deleteSessionAuth hc hopen ho
  obtain ⟨as, t, hrun, ht⟩ := hleads
  exact ⟨t, hs.run (fun _ _ _ => trivial) hrun, ht⟩

end SessionRpcs

end RadioJockey
