import RadioJockey.Wakeups

/-!
# The inactivity timeout and accepted tracks

`Enqueue` accepts a track as long as somebody holds the queue. The `select` of
`streamSilencePCM` picks any ready case, and after it has picked the timer
nothing looks at the queue again before `DeleteSession`.

1. `timeout_drops_track`: a track is accepted between the tick of the timer and
   the `select`, and the session goes down with it.
2. `timeout_finds_empty_queue`: in every run in which the timer ticks only
   while the queue is empty, and no track is appended from the tick on, the
   queue is empty from the timeout to the removal of the session.
3. `quietTimeout_of_unsignalled`: the queue is empty at a tick that finds neither a
   buffered signal nor an `Enqueue` that is about to send one.
-/

namespace RadioJockey.Playback

open Channel Transition

/-- The silence has timed out: the timer's case is picked, or `streamSession`
is on its way to the deferred `DeleteSession`. -/
def Loop.timingOut : Loop → Bool
  | .silenceEnding .timedOut | .ending .timedOut => true
  | _ => false

/-- From the return of `streamSilencePCM` with `silenceTimedOut` until the
session is removed from the registry, its queue is empty. -/
def TimeoutFindsEmpty (s : State) : Prop :=
  s.loop = .ending .timedOut → s.registered = true → s.queue.tracks = []

/-- From the tick of the timer on, the stream may end by timeout whatever
happens to the queue. -/
def State.expiring (s : State) : Bool :=
  s.registered && (s.loop.timingOut || (s.loop = .silence && s.timerFired))

/-- The guard of `timeout_finds_empty_queue`: the timer of a registered session
ticks only while the queue is empty, and after the tick no track is appended until
the silence has ended with a new track or a cancellation, or the session is
removed. -/
def QuietTimeout (s : State) : Action → Prop
  | .timerFires => s.registered = true → s.queue.tracks = []
  | .append _ _ => s.expiring = false
  | _ => True

/-- The same, with a tick at which nothing has been signalled or is about to be. -/
def Unsignalled (s : State) : Action → Prop
  | .timerFires => s.registered = true →
      s.ctxDone = false ∧ s.queue.notify.buf = [] ∧ ∀ n, s.calls n ≠ .appended
  | .append _ _ => s.expiring = false
  | _ => True

instance (s : State) (a : Action) : Decidable (QuietTimeout s a) := by
  cases a <;> unfold QuietTimeout <;> infer_instance

/-- A track is appended after the tick, and the `select` picks the timer. The
call returns nil, and the session is about to be deleted with the track in its
queue. -/
theorem timeout_drops_track :
    ∃ s, Reachable playbackSystem s ∧ s.calls 0 = .returned none ∧
      s.queue.tracks = [⟨0, song 1⟩] ∧ ¬ TimeoutFindsEmpty s := by
  obtain ⟨s, hs, hp⟩ := Reachable.of_run (S := playbackSystem)
    (p := fun s => decide (s.loop = .ending .timedOut ∧ s.registered = true ∧
      s.calls 0 = .returned none ∧ s.queue.tracks = [⟨0, song 1⟩]))
    [.connect true, .peek, .timerFires, .append 0 (song 1), .wake 0,
      .selectSilence .timedOut, .silenceReturns]
    (show playbackSystem.init (.initial "station" none) from ⟨_, _, rfl⟩) (by decide)
  obtain ⟨hl, hreg, hret, htracks⟩ := of_decide_eq_true hp
  refine ⟨s, hs, hret, htracks, fun h => ?_⟩
  have hempty := h hl hreg
  rw [htracks] at hempty
  cases hempty

/-! ## The invariant -/

/-- What the tick of the timer promises. -/
def TimeoutInv (s : State) : Prop := s.expiring = true → s.queue.tracks = []

namespace InactivityLemmas

theorem expiring_eq_true {s : State} : s.expiring = true ↔
    s.registered = true ∧ (s.loop.timingOut = true ∨ s.loop = .silence ∧ s.timerFired = true) := by
  simp only [State.expiring, Bool.and_eq_true, Bool.or_eq_true, decide_eq_true_eq]

/-- A step that leaves the loop where it is and keeps an empty queue empty. -/
theorem timeoutInv_frame {s t : State} (hinv : TimeoutInv s)
    (hloop : t.loop = s.loop) (htimer : t.timerFired = s.timerFired)
    (hregistered : t.registered = true → s.registered = true)
    (htracks : s.queue.tracks = [] → t.queue.tracks = []) : TimeoutInv t := by
  intro h
  rw [expiring_eq_true, hloop, htimer] at h
  exact htracks (hinv (expiring_eq_true.mpr ⟨hregistered h.1, h.2⟩))

/-- A step to a place from which the stream does not end by timeout. -/
theorem timeoutInv_of_active {t : State} (hloop : t.loop.timingOut = false)
    (hsilence : t.loop = .silence → t.timerFired = false) : TimeoutInv t := by
  intro h
  obtain ⟨-, h | ⟨h, hf⟩⟩ := expiring_eq_true.mp h
  · rw [hloop] at h; cases h
  · rw [hsilence h] at hf; cases hf

end InactivityLemmas

open InactivityLemmas

theorem timeoutInv_step {s t : State} {a : Action} (hinv : TimeoutInv s)
    (hg : QuietTimeout s a) (h : s.step a = some t) : TimeoutInv t := by
  cases a with
  | append n track =>
    obtain ⟨-, ⟨err, rfl⟩ | ⟨q, -, rfl⟩⟩ := State.append_eq_some h
    · exact timeoutInv_frame hinv rfl rfl (fun h => h) fun h => h
    · -- the stream is not about to time out, before and after the append
      intro he
      have hactive : s.expiring = true := he
      rw [show s.expiring = false from hg] at hactive
      cases hactive
  | wake n =>
    obtain ⟨-, rfl⟩ := State.wake_eq_some h
    exact timeoutInv_frame hinv rfl rfl (fun h => h) fun h => h
  | skip =>
    rcases State.skip_eq_some h with rfl | ⟨e, es, -, rfl⟩
    · exact hinv
    · exact timeoutInv_frame hinv rfl rfl (fun h => h) fun h => h
  | removeTrack index =>
    rcases State.removeTrack_eq_some h with rfl | ⟨q, e, -, -, he, rfl⟩
    · exact hinv
    · refine timeoutInv_frame hinv rfl rfl (fun h => h) fun hempty => ?_
      rw [hempty] at he
      cases he
  | connect ok =>
    obtain ⟨-, rfl⟩ := State.connect_eq_some h
    cases ok <;> exact timeoutInv_of_active rfl nofun
  | peek =>
    obtain ⟨-, ⟨-, rfl⟩ | ⟨e, -, rfl⟩⟩ := State.peek_eq_some h
    · exact timeoutInv_of_active rfl fun _ => rfl
    · exact timeoutInv_of_active rfl nofun
  | watchForSkip =>
    obtain ⟨e, -, rfl⟩ := State.watchForSkip_eq_some h
    exact timeoutInv_of_active rfl nofun
  | watcherReceive =>
    obtain ⟨ev, c, -, -, rfl⟩ := State.watcherReceive_eq_some h
    exact timeoutInv_frame hinv rfl rfl (fun h => h) fun h => h
  | watcherDone =>
    obtain ⟨-, rfl⟩ := State.watcherDone_eq_some h
    exact timeoutInv_frame hinv rfl rfl (fun h => h) fun h => h
  | trackEnds r =>
    obtain ⟨e, -, rfl | ⟨ev, -, rfl⟩⟩ := State.trackEnds_eq_some h
    · exact timeoutInv_of_active rfl nofun
    · exact timeoutInv_of_active rfl nofun
  | stop =>
    obtain ⟨e, r, -, ⟨ev, -, rfl⟩ | ⟨-, l, rfl, hl⟩⟩ := State.stop_eq_some h
    · exact timeoutInv_of_active rfl nofun
    · rcases hl with rfl | ⟨rfl, rfl⟩ | rfl
      · exact timeoutInv_of_active rfl nofun
      · exact timeoutInv_of_active rfl fun _ => rfl
      · exact timeoutInv_of_active rfl nofun
  | dequeue =>
    obtain ⟨e, -, ⟨-, rfl⟩ | ⟨e', q, -, rfl⟩⟩ := State.dequeue_eq_some h
    · exact timeoutInv_of_active rfl nofun
    · exact timeoutInv_of_active rfl nofun
  | timerFires =>
    obtain ⟨-, rfl⟩ := State.timerFires_eq_some h
    intro he
    exact hg (expiring_eq_true.mp he).1
  | selectSilence r =>
    obtain ⟨hl, ⟨-, -, rfl⟩ | ⟨c, -, -, rfl⟩ | ⟨-, hf, rfl⟩⟩ := State.selectSilence_eq_some h
    · exact timeoutInv_of_active rfl nofun
    · exact timeoutInv_of_active rfl nofun
    · intro he
      have hreg : s.registered = true := (expiring_eq_true.mp he).1
      exact hinv (expiring_eq_true.mpr ⟨hreg, .inr ⟨hl, hf⟩⟩)
  | silenceReturns =>
    rcases State.silenceReturns_eq_some h with ⟨-, rfl⟩ | ⟨hl, rfl⟩ | ⟨-, rfl⟩
    · exact timeoutInv_of_active rfl nofun
    · intro he
      have hreg : s.registered = true := (expiring_eq_true.mp he).1
      exact hinv (expiring_eq_true.mpr ⟨hreg, .inl (by rw [hl]; rfl)⟩)
    · exact timeoutInv_of_active rfl nofun
  | endSession =>
    obtain ⟨why, -, rfl⟩ := State.endSession_eq_some h
    exact fun he => nomatch (expiring_eq_true.mp he).1
  | deleteSession =>
    cases h
    exact fun he => nomatch (expiring_eq_true.mp he).1
  | cancel =>
    cases h
    exact timeoutInv_frame hinv rfl rfl (fun h => h) fun h => h

/-- The wake-ups make the queue empty at such a tick. -/
theorem quietTimeout_of_unsignalled {s : State} (h : Reach playbackSystem Unsignalled s) :
    Reach playbackSystem QuietTimeout s := by
  induction h with
  | init h => exact .init h
  | @step s t a hr hg hs ih =>
    refine .step a ih ?_ hs
    cases a with
    | timerFires =>
      intro hregistered
      obtain ⟨hl, -⟩ := State.timerFires_eq_some hs
      obtain ⟨hd, hbuf, hcalls⟩ := hg hregistered
      exact tracks_of_no_signal hr.reachable hl hd hbuf hcalls
    | append n track => exact hg
    | _ => trivial

/-- In every run in which the timer ticks only while the queue is empty, and no
track is appended from the tick on, a session that ends by inactivity takes no
track with it. -/
theorem timeout_finds_empty_queue {s : State} (h : Reach playbackSystem QuietTimeout s) :
    TimeoutFindsEmpty s := by
  have hinv : TimeoutInv s := by
    refine h.invariant ?_ fun _ _ _ _ hi hg hs => timeoutInv_step hi hg hs
    rintro _ ⟨id, archiveID, rfl⟩
    exact timeoutInv_of_active rfl nofun
  intro hl hreg
  exact hinv (expiring_eq_true.mpr ⟨hreg, .inl (by rw [hl]; rfl)⟩)

/-- A track is played, and the session times out long after it. -/
theorem timeout_finds_empty_played :
    ∃ s, s.loop = .ending .timedOut ∧ .dequeued ⟨0, song 1⟩ ∈ s.history ∧
      TimeoutFindsEmpty s := by
  obtain ⟨s, hs, hp⟩ := Reach.of_guardedRun (S := playbackSystem) (C := QuietTimeout)
    (p := fun s => decide (s.loop = .ending .timedOut ∧ .dequeued ⟨0, song 1⟩ ∈ s.history))
    [.connect true, .peek, .append 0 (song 1), .wake 0, .selectSilence .newTrack,
      .silenceReturns, .peek, .watchForSkip, .trackEnds .ended, .watcherDone, .stop, .dequeue,
      .peek, .timerFires, .selectSilence .timedOut, .silenceReturns]
    (show playbackSystem.init (.initial "station" none) from ⟨_, _, rfl⟩) (by decide)
  obtain ⟨hl, hdeq⟩ := of_decide_eq_true hp
  exact ⟨s, hl, hdeq, timeout_finds_empty_queue hs⟩

end RadioJockey.Playback
