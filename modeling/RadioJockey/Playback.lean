import RadioJockey.Lib.Transition
import RadioJockey.SessionQueue
import RadioJockey.Tracks

/-!
# One session's stream and its queue (`icecast.go`, `session_queue.go`)

The actors around one `SessionQueue`:

* the `streamSession` loop, with `playCurrentTrack` and `streamSilencePCM`;
* the goroutine of `watchForSkip`, which lives from the start of a track to the
  `stop` function;
* RPC handlers that enqueue, skip and remove. Each has fetched the queue at
  some time before, so it may act even after the session is gone;
* the silence timer, the stream's context, and whoever deletes the session.

What ffmpeg does is left open: a track may end, fail or be cancelled whenever
the code lets it. The archive row that is written between `Peek` and the start
of the track concerns no queue and is left to `Archives`.
-/

namespace RadioJockey.Playback

open Channel

/-- An accepted `Enqueue`, so that the same track enqueued twice is two
entries. -/
structure Entry where
  number : Nat
  track : Track
  deriving DecidableEq

/-- What `streamTrackPCM` returns: nil, the error of its context, or another
error. -/
inductive TrackResult
  | ended
  | cancelled
  | failed
  deriving DecidableEq

inductive SilenceResult
  | newTrack
  | timedOut
  | cancelled
  deriving DecidableEq

/-- Why `streamSession` returns. -/
inductive Ending
  | fatal
  | timedOut
  | cancelled
  deriving DecidableEq

/-- The places of the loop: before `Peek`, before `watchForSkip`, in
`streamTrackPCM`, in `stop`, before `Dequeue`, in the `select` of
`streamSilencePCM` and after it, before the deferred `DeleteSession`, and after
its locked section. -/
inductive Loop
  | connecting
  | peek
  | peeked (e : Entry)
  | playing (e : Entry)
  | stopping (e : Entry) (r : TrackResult)
  | stopped (e : Entry)
  | silence
  | silenceEnding (r : SilenceResult)
  | ending (why : Ending)
  | ended (why : Ending)
  deriving DecidableEq

/-- The goroutine of `watchForSkip`: absent, in its `select`, or done. -/
inductive Watcher
  | absent
  | waiting
  | gotSkip (ev : SessionQueueEvent Entry)
  | exited
  deriving DecidableEq

/-- An `Enqueue` call: not made, between its append and its signal, returned. -/
inductive Call
  | idle
  | appended
  | returned (err : Option SessionError)
  deriving DecidableEq

/-- What happened, for the statements about runs. `cut e ev`: the playing of
`e` was ended by the event `ev`. -/
inductive Effect
  | enqueued (e : Entry)
  | removed (e : Entry)
  | dequeued (e : Entry)
  | cut (e : Entry) (ev : SessionQueueEvent Entry)
  | woken
  deriving DecidableEq

/-- `registered`: the session is in the manager's map. `timerFired`: the
silence timer has sent its tick. -/
structure State where
  queue : SessionQueue Entry
  registered : Bool
  loop : Loop
  watcher : Watcher
  timerFired : Bool
  ctxDone : Bool
  calls : Nat → Call
  nextEntry : Nat
  history : List Effect

namespace State

def initial (id : SessionID) (archiveID : Option Int) : State where
  queue := .newQueue id archiveID
  registered := true
  loop := .connecting
  watcher := .absent
  timerFired := false
  ctxDone := false
  calls := fun _ => .idle
  nextEntry := 0
  history := []

/-! ## The RPC handlers -/

/-- The locked part of an `Enqueue` call. -/
def append (s : State) (n : Nat) (track : Track) : Option State :=
  match s.calls n with
  | .idle =>
    match s.queue.enqueue ⟨s.nextEntry, track⟩ with
    | .error err => some { s with calls := Function.update s.calls n (.returned (some err)) }
    | .ok q => some { s with
        queue := q
        calls := Function.update s.calls n .appended
        nextEntry := s.nextEntry + 1
        history := .enqueued ⟨s.nextEntry, track⟩ :: s.history }
  | _ => none

/-- The signal of an `Enqueue` call. -/
def wake (s : State) (n : Nat) : Option State :=
  match s.calls n with
  | .appended => some { s with
      queue := s.queue.wake
      calls := Function.update s.calls n (.returned none) }
  | _ => none

/-- `SkipTrack`: an error changes nothing. -/
def skip (s : State) : Option State :=
  match s.queue.skip with
  | .error _ => some s
  | .ok q => some { s with queue := q }

/-- `RemoveTrack` refuses the index 0. -/
def removeTrack (s : State) (index : Nat) : Option State :=
  if index = 0 then some s
  else match s.queue.remove index, s.queue.tracks[index]? with
    | .ok q, some e => some { s with queue := q, history := .removed e :: s.history }
    | _, _ => some s

/-! ## `playCurrentTrack` and `watchForSkip` -/

/-- `connectWithRetry` and `startEncoder`. -/
def connect (s : State) (ok : Bool) : Option State :=
  match s.loop with
  | .connecting => some { s with loop := if ok then .peek else .ending .fatal }
  | _ => none

/-- `Peek`. With an empty queue the loop goes on to silence, with a new timer. -/
def peek (s : State) : Option State :=
  match s.loop with
  | .peek =>
    match s.queue.peek with
    | .error _ => some { s with loop := .silence, timerFired := false }
    | .ok e => some { s with loop := .peeked e }
  | _ => none

def watchForSkip (s : State) : Option State :=
  match s.loop with
  | .peeked e => some { s with loop := .playing e, watcher := .waiting }
  | _ => none

/-- The watcher receives an event and cancels the track's context. -/
def watcherReceive (s : State) : Option State :=
  match s.watcher with
  | .waiting => s.queue.events.recv?.map fun p =>
      { s with queue := { s.queue with events := p.2 }, watcher := .gotSkip p.1 }
  | _ => none

/-- The watcher sees that the track's context is done: through `stop`, or
because the stream's context is. -/
def watcherDone (s : State) : Option State :=
  match s.watcher, s.loop with
  | .waiting, .stopping _ _ => some { s with watcher := .exited }
  | .waiting, _ => if s.ctxDone then some { s with watcher := .exited } else none
  | _, _ => none

/-- `streamTrackPCM` returns, and `stop` cancels the track's context. An error
counts as a cancellation if and only if the track's context is done, which it is
only some time after the watcher has received its event. -/
def trackEnds (s : State) (r : TrackResult) : Option State :=
  match s.loop with
  | .playing e =>
    match r, s.watcher with
    | .ended, _ => some { s with loop := .stopping e .ended }
    | .cancelled, .gotSkip ev => some { s with
        loop := .stopping e .cancelled
        history := .cut e ev :: s.history }
    | .cancelled, _ => if s.ctxDone then some { s with loop := .stopping e .cancelled } else none
    | .failed, .gotSkip _ => some { s with loop := .stopping e .failed }
    | .failed, _ => if s.ctxDone then none else some { s with loop := .stopping e .failed }
  | _ => none

/-- `stop` returns. It drains `Events` only if the watcher saw no skip. What
follows depends on the result of the track. -/
def stop (s : State) : Option State :=
  match s.loop, s.watcher with
  | .stopping e _, .gotSkip _ => some { s with loop := .stopped e, watcher := .absent }
  | .stopping e r, .exited =>
    let queue := { s.queue with events := s.queue.events.drain }
    match r with
    | .ended => some { s with queue := queue, loop := .stopped e, watcher := .absent }
    | .cancelled => some { s with
        queue := queue, loop := .silence, watcher := .absent, timerFired := false }
    | .failed => some { s with queue := queue, loop := .ending .fatal, watcher := .absent }
  | _, _ => none

def dequeue (s : State) : Option State :=
  match s.loop with
  | .stopped _ =>
    match s.queue.dequeue with
    | .error _ => some { s with loop := .ending .fatal }
    | .ok (e, q) => some { s with
        queue := q, loop := .peek, history := .dequeued e :: s.history }
  | _ => none

/-! ## `streamSilencePCM` and the end of the stream -/

def timerFires (s : State) : Option State :=
  match s.loop with
  | .silence => some { s with timerFired := true }
  | _ => none

/-- The `select` takes any case that is ready. -/
def selectSilence (s : State) (r : SilenceResult) : Option State :=
  match s.loop with
  | .silence =>
    match r with
    | .cancelled => if s.ctxDone then some { s with loop := .silenceEnding .cancelled } else none
    | .newTrack => s.queue.notify.recv?.map fun p => { s with
        queue := { s.queue with notify := p.2 }
        loop := .silenceEnding .newTrack
        history := .woken :: s.history }
    | .timedOut => if s.timerFired then some { s with loop := .silenceEnding .timedOut } else none
  | _ => none

/-- The silence process is gone, and `streamSilencePCM` returns. -/
def silenceReturns (s : State) : Option State :=
  match s.loop with
  | .silenceEnding .newTrack => some { s with loop := .peek }
  | .silenceEnding .timedOut => some { s with loop := .ending .timedOut }
  | .silenceEnding .cancelled => some { s with loop := .ending .cancelled }
  | _ => none

/-- The locked section of the deferred `DeleteSession`. -/
def endSession (s : State) : Option State :=
  match s.loop with
  | .ending why => some { s with loop := .ended why, registered := false }
  | _ => none

end State

inductive Action
  | append (n : Nat) (track : Track)
  | wake (n : Nat)
  | skip
  | removeTrack (index : Nat)
  | connect (ok : Bool)
  | peek
  | watchForSkip
  | watcherReceive
  | watcherDone
  | trackEnds (r : TrackResult)
  | stop
  | dequeue
  | timerFires
  | selectSilence (r : SilenceResult)
  | silenceReturns
  | endSession
  | deleteSession
  | cancel
  deriving DecidableEq

def State.step (s : State) : Action → Option State
  | .append n track => s.append n track
  | .wake n => s.wake n
  | .skip => s.skip
  | .removeTrack index => s.removeTrack index
  | .connect ok => s.connect ok
  | .peek => s.peek
  | .watchForSkip => s.watchForSkip
  | .watcherReceive => s.watcherReceive
  | .watcherDone => s.watcherDone
  | .trackEnds r => s.trackEnds r
  | .stop => s.stop
  | .dequeue => s.dequeue
  | .timerFires => s.timerFires
  | .selectSilence r => s.selectSilence r
  | .silenceReturns => s.silenceReturns
  | .endSession => s.endSession
  | .deleteSession => some { s with registered := false }
  | .cancel => some { s with ctxDone := true }

def playbackSystem : Transition.System State Action where
  init := fun s => ∃ id archiveID, s = .initial id archiveID
  step := State.step

/-- A track for the examples of runs. -/
def song (id : Int) : Track :=
  ⟨id, "youtube", "dQw4w9WgXcQ", "Never Gonna Give You Up", "Rick Astley", 213,
    "/music/youtube/dQw4w9WgXcQ.opus", 0, "", 0⟩

/-! ## What each step does -/

namespace State

theorem append_eq_some {s t : State} {n : Nat} {track : Track} (h : s.append n track = some t) :
    s.calls n = .idle ∧
      ((∃ err, t = { s with calls := Function.update s.calls n (.returned (some err)) }) ∨
      ∃ q, s.queue.enqueue ⟨s.nextEntry, track⟩ = .ok q ∧ t = { s with
        queue := q
        calls := Function.update s.calls n .appended
        nextEntry := s.nextEntry + 1
        history := .enqueued ⟨s.nextEntry, track⟩ :: s.history }) := by
  unfold append at h
  split at h
  · next hc =>
    refine ⟨hc, ?_⟩
    split at h
    · next err _ => cases h; exact .inl ⟨err, rfl⟩
    · next q hq => cases h; exact .inr ⟨q, hq, rfl⟩
  · cases h

theorem wake_eq_some {s t : State} {n : Nat} (h : s.wake n = some t) :
    s.calls n = .appended ∧ t = { s with
      queue := s.queue.wake
      calls := Function.update s.calls n (.returned none) } := by
  unfold wake at h
  split at h
  · next hc => cases h; exact ⟨hc, rfl⟩
  · cases h

theorem skip_eq_some {s t : State} (h : s.skip = some t) :
    t = s ∨ ∃ e es, s.queue.tracks = e :: es ∧
      t = { s with
        queue := { s.queue with events := s.queue.events.trySend ⟨.skipTrack, e⟩ } } := by
  unfold skip at h
  split at h
  · cases h; exact .inl rfl
  · next q hq =>
    cases h
    obtain ⟨e, es, ht, rfl⟩ := SessionQueue.skip_eq_ok.mp hq
    exact .inr ⟨e, es, ht, rfl⟩

theorem removeTrack_eq_some {s t : State} {index : Nat} (h : s.removeTrack index = some t) :
    t = s ∨ ∃ q e, index ≠ 0 ∧ s.queue.remove index = .ok q ∧ s.queue.tracks[index]? = some e ∧
      t = { s with queue := q, history := .removed e :: s.history } := by
  unfold removeTrack at h
  split at h
  · cases h; exact .inl rfl
  · next hi =>
    split at h
    · next q e hq he => cases h; exact .inr ⟨q, e, hi, hq, he, rfl⟩
    · cases h; exact .inl rfl

theorem connect_eq_some {s t : State} {ok : Bool} (h : s.connect ok = some t) :
    s.loop = .connecting ∧ t = { s with loop := if ok then .peek else .ending .fatal } := by
  unfold connect at h
  split at h
  · next hl => cases h; exact ⟨hl, rfl⟩
  · cases h

theorem peek_eq_some {s t : State} (h : s.peek = some t) :
    s.loop = .peek ∧
      ((s.queue.tracks = [] ∧ t = { s with loop := .silence, timerFired := false }) ∨
      ∃ e, s.queue.tracks.head? = some e ∧ t = { s with loop := .peeked e }) := by
  unfold peek at h
  split at h
  · next hl =>
    refine ⟨hl, ?_⟩
    split at h
    · next err he => cases h; exact .inl ⟨(SessionQueue.peek_eq_error.mp he).1, rfl⟩
    · next e he => cases h; exact .inr ⟨e, SessionQueue.peek_eq_ok.mp he, rfl⟩
  · cases h

theorem watchForSkip_eq_some {s t : State} (h : s.watchForSkip = some t) :
    ∃ e, s.loop = .peeked e ∧ t = { s with loop := .playing e, watcher := .waiting } := by
  unfold watchForSkip at h
  split at h
  · next e hl => cases h; exact ⟨e, hl, rfl⟩
  · cases h

theorem watcherReceive_eq_some {s t : State} (h : s.watcherReceive = some t) :
    ∃ ev c, s.watcher = .waiting ∧ s.queue.events.buf = ev :: c.buf ∧
      t = { s with queue := { s.queue with events := c }, watcher := .gotSkip ev } := by
  unfold watcherReceive at h
  split at h
  · next hw =>
    obtain ⟨⟨ev, c⟩, hr, rfl⟩ := Option.map_eq_some_iff.mp h
    exact ⟨ev, c, hw, Chan.recv?_eq_some.mp hr, rfl⟩
  · cases h

theorem watcherDone_eq_some {s t : State} (h : s.watcherDone = some t) :
    s.watcher = .waiting ∧ t = { s with watcher := .exited } := by
  unfold watcherDone at h
  split at h
  · next hw _ => cases h; exact ⟨hw, rfl⟩
  · next hw _ =>
    split at h
    · cases h; exact ⟨hw, rfl⟩
    · cases h
  · cases h

/-- A track that ends by itself or fails is not cut. One that is cancelled is
cut by the event that the watcher has, or the stream's context is done. -/
theorem trackEnds_eq_some {s t : State} {r : TrackResult} (h : s.trackEnds r = some t) :
    ∃ e, s.loop = .playing e ∧
      (t = { s with loop := .stopping e r } ∨
      ∃ ev, s.watcher = .gotSkip ev ∧ t = { s with
        loop := .stopping e r
        history := .cut e ev :: s.history }) := by
  unfold trackEnds at h
  split at h
  · next e hl =>
    refine ⟨e, hl, ?_⟩
    split at h
    · cases h; exact .inl rfl
    · next ev hw => cases h; exact .inr ⟨ev, hw, rfl⟩
    · split at h
      · cases h; exact .inl rfl
      · cases h
    · cases h; exact .inl rfl
    · split at h
      · cases h
      · cases h; exact .inl rfl
  · cases h

/-- What cancels a track is a skip that the watcher has seen, or the end of the
stream's context. -/
theorem trackEnds_cancelled {s t : State} (h : s.trackEnds .cancelled = some t) :
    t.ctxDone = true ∨ ∃ ev, t.watcher = .gotSkip ev := by
  unfold trackEnds at h
  split at h
  · split at h
    · next hr => cases hr
    · next ev _ hw => cases h; exact .inr ⟨ev, hw⟩
    · split at h
      · next hd => cases h; exact .inl hd
      · cases h
    · next hr _ => cases hr
    · next hr _ => cases hr
  · cases h

/-- With a skip seen, `stop` leaves `Events` alone. Otherwise it empties it. -/
theorem stop_eq_some {s t : State} (h : s.stop = some t) :
    ∃ e r, s.loop = .stopping e r ∧
      ((∃ ev, s.watcher = .gotSkip ev ∧ t = { s with loop := .stopped e, watcher := .absent }) ∨
      s.watcher = .exited ∧ ∃ l, t = { s with
          queue := { s.queue with events := s.queue.events.drain }
          loop := l
          watcher := .absent
          timerFired := if r = .cancelled then false else s.timerFired } ∧
        (l = .stopped e ∨ l = .silence ∧ r = .cancelled ∨ l = .ending .fatal)) := by
  unfold stop at h
  split at h
  · next e r ev hl hw => cases h; exact ⟨e, r, hl, .inl ⟨ev, hw, rfl⟩⟩
  · next e r hl hw =>
    refine ⟨e, r, hl, .inr ⟨hw, ?_⟩⟩
    cases r with
    | ended => cases h; exact ⟨_, rfl, .inl rfl⟩
    | cancelled => cases h; exact ⟨_, rfl, .inr (.inl ⟨rfl, rfl⟩)⟩
    | failed => cases h; exact ⟨_, rfl, .inr (.inr rfl)⟩
  · cases h

theorem dequeue_eq_some {s t : State} (h : s.dequeue = some t) :
    ∃ e, s.loop = .stopped e ∧
      ((s.queue.tracks = [] ∧ t = { s with loop := .ending .fatal }) ∨
      ∃ e' q, s.queue.dequeue = .ok (e', q) ∧ t = { s with
        queue := q, loop := .peek, history := .dequeued e' :: s.history }) := by
  unfold dequeue at h
  split at h
  · next e hl =>
    refine ⟨e, hl, ?_⟩
    split at h
    · next err he => cases h; exact .inl ⟨SessionQueue.dequeue_eq_error he, rfl⟩
    · next e' q hq => cases h; exact .inr ⟨e', q, hq, rfl⟩
  · cases h

theorem timerFires_eq_some {s t : State} (h : s.timerFires = some t) :
    s.loop = .silence ∧ t = { s with timerFired := true } := by
  unfold timerFires at h
  split at h
  · next hl => cases h; exact ⟨hl, rfl⟩
  · cases h

theorem selectSilence_eq_some {s t : State} {r : SilenceResult}
    (h : s.selectSilence r = some t) :
    s.loop = .silence ∧
      ((r = .cancelled ∧ s.ctxDone = true ∧ t = { s with loop := .silenceEnding .cancelled }) ∨
      (∃ c, r = .newTrack ∧ s.queue.notify.buf = () :: c.buf ∧ t = { s with
        queue := { s.queue with notify := c }
        loop := .silenceEnding .newTrack
        history := .woken :: s.history }) ∨
      (r = .timedOut ∧ s.timerFired = true ∧ t = { s with loop := .silenceEnding .timedOut })) := by
  unfold selectSilence at h
  split at h
  · next hl =>
    refine ⟨hl, ?_⟩
    cases r with
    | cancelled =>
      simp only at h
      split at h
      · next hd => cases h; exact .inl ⟨rfl, hd, rfl⟩
      · cases h
    | newTrack =>
      obtain ⟨⟨_, c⟩, hr, rfl⟩ := Option.map_eq_some_iff.mp h
      exact .inr (.inl ⟨c, rfl, Chan.recv?_eq_some.mp hr, rfl⟩)
    | timedOut =>
      simp only at h
      split at h
      · next hf => cases h; exact .inr (.inr ⟨rfl, hf, rfl⟩)
      · cases h
  · cases h

theorem silenceReturns_eq_some {s t : State} (h : s.silenceReturns = some t) :
    (s.loop = .silenceEnding .newTrack ∧ t = { s with loop := .peek }) ∨
    (s.loop = .silenceEnding .timedOut ∧ t = { s with loop := .ending .timedOut }) ∨
    (s.loop = .silenceEnding .cancelled ∧ t = { s with loop := .ending .cancelled }) := by
  unfold silenceReturns at h
  split at h
  · next hl => cases h; exact .inl ⟨hl, rfl⟩
  · next hl => cases h; exact .inr (.inl ⟨hl, rfl⟩)
  · next hl => cases h; exact .inr (.inr ⟨hl, rfl⟩)
  · cases h

theorem endSession_eq_some {s t : State} (h : s.endSession = some t) :
    ∃ why, s.loop = .ending why ∧ t = { s with loop := .ended why, registered := false } := by
  unfold endSession at h
  split at h
  · next why hl => cases h; exact ⟨why, hl, rfl⟩
  · cases h

end State

end RadioJockey.Playback
