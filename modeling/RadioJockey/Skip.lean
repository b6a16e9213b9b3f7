import RadioJockey.Playback

/-!
# Which track a skip cuts

`Skip` puts an untagged event into a channel with one place. The watcher of
the track that is playing takes it out, or `stop` drains it, but `stop` drains
only if the watcher has seen no skip, and it does so before the dequeue.

1. `stale_skip`: of two skips during one track the second is left for the next
   track and cuts it.
2. `skip_cuts_its_own`: in every run in which no `Skip` comes after the watcher
   has seen one for the same track, or between `stop` and `Dequeue`, a track is
   cut only by an event that was sent while it was the head.
-/

namespace RadioJockey.Playback

open Channel Transition

/-- No track is cut by an event that was aimed at another one. -/
def SkipsItsOwn (s : State) : Prop :=
  ∀ e ev, .cut e ev ∈ s.history → ev.aimedAt = e

/-- The watcher has already seen a skip for the current track. -/
def Watcher.sawSkip : Watcher → Bool
  | .gotSkip _ => true
  | _ => false

/-- `stop` has returned, and the track is still in the queue. -/
def Loop.beforeDequeue : Loop → Bool
  | .stopped _ => true
  | _ => false

/-- The guard of `skip_cuts_its_own`: a skip of the head comes before the one
that ends it is seen, and before `stop` is through with it. -/
def SkipInTime (s : State) : Action → Prop
  | .skip => s.watcher.sawSkip = false ∧ s.loop.beforeDequeue = false
  | _ => True

instance (s : State) (a : Action) : Decidable (SkipInTime s a) :=
  match a with
  | .skip => inferInstanceAs (Decidable (_ ∧ _))
  | .append .. | .wake _ | .removeTrack _ | .connect _ | .peek | .watchForSkip
  | .watcherReceive | .watcherDone | .trackEnds _ | .stop | .dequeue | .timerFires
  | .selectSilence _ | .silenceReturns | .endSession | .deleteSession | .cancel => .isTrue trivial

/-- Two listeners skip the same track. Both events get through, and the second
cuts the track after it. -/
theorem stale_skip :
    ∃ s, Reachable playbackSystem s ∧
      .cut ⟨1, song 2⟩ ⟨.skipTrack, ⟨0, song 1⟩⟩ ∈ s.history ∧ ¬ SkipsItsOwn s := by
  obtain ⟨s, hs, hp⟩ := Reachable.of_run (S := playbackSystem)
    (p := fun s => decide (.cut ⟨1, song 2⟩ ⟨.skipTrack, ⟨0, song 1⟩⟩ ∈ s.history))
    [.append 0 (song 1), .wake 0, .append 1 (song 2), .wake 1,
      .connect true, .peek, .watchForSkip, .skip, .watcherReceive, .skip,
      .trackEnds .cancelled, .stop, .dequeue,
      .peek, .watchForSkip, .watcherReceive, .trackEnds .cancelled]
    (show playbackSystem.init (.initial "station" none) from ⟨_, _, rfl⟩) (by decide)
  have hcut := of_decide_eq_true hp
  refine ⟨s, hs, hcut, fun h => ?_⟩
  have : (⟨0, song 1⟩ : Entry) = ⟨1, song 2⟩ := h _ _ hcut
  cases this

/-! ## The invariant -/

/-- The entry that the loop is busy with. -/
def Loop.current : Loop → Option Entry
  | .peeked e | .playing e | .stopping e _ | .stopped e => some e
  | _ => none

/-- While the watcher is there, the loop is in `streamTrackPCM` or in `stop`. -/
def Loop.watched : Loop → Bool
  | .playing _ | .stopping _ _ => true
  | _ => false

/-- A buffered event is always aimed at the head, and there is none from the
moment on at which it could no longer reach its target. -/
structure SkipInv (s : State) : Prop where
  aimed : ∀ ev ∈ s.queue.events.buf, s.queue.tracks.head? = some ev.aimedAt
  head : ∀ e, s.loop.current = some e → s.queue.tracks.head? = some e
  seen : ∀ ev, s.watcher = .gotSkip ev →
    s.loop.current = some ev.aimedAt ∧ s.queue.events.buf = []
  drained : s.loop.beforeDequeue = true → s.queue.events.buf = []
  watched : s.watcher ≠ .absent → s.loop.watched = true
  cuts : SkipsItsOwn s

namespace SkipLemmas

theorem absent_of_not_watched {s : State} (hinv : SkipInv s) (h : s.loop.watched = false) :
    s.watcher = .absent := by
  by_contra hw
  have := hinv.watched hw
  rw [h] at this
  cases this

/-- A step of an RPC handler that sends no event and keeps the head. -/
theorem skipInv_frame {s t : State} (hinv : SkipInv s)
    (hevents : t.queue.events = s.queue.events)
    (hhead : ∀ e, s.queue.tracks.head? = some e → t.queue.tracks.head? = some e)
    (hloop : t.loop = s.loop) (hwatcher : t.watcher = s.watcher)
    (hhist : ∀ e ev, .cut e ev ∈ t.history → .cut e ev ∈ s.history) : SkipInv t where
  aimed := by
    intro ev hev
    rw [hevents] at hev
    exact hhead _ (hinv.aimed ev hev)
  head := by
    intro e he
    rw [hloop] at he
    exact hhead e (hinv.head e he)
  seen := by
    intro ev h
    rw [hwatcher] at h
    rw [hloop, hevents]
    exact hinv.seen ev h
  drained := by
    intro h
    rw [hloop] at h
    rw [hevents]
    exact hinv.drained h
  watched := by rw [hwatcher, hloop]; exact hinv.watched
  cuts := fun e ev h => hinv.cuts e ev (hhist e ev h)

/-- The loop moves to a place where it has no track in hand. -/
theorem skipInv_between {s t : State} (hinv : SkipInv s)
    (hevents : ∀ ev ∈ t.queue.events.buf, t.queue.tracks.head? = some ev.aimedAt)
    (hcurrent : t.loop.current = none) (hbefore : t.loop.beforeDequeue = false)
    (hwatcher : t.watcher = .absent)
    (hhist : ∀ e ev, .cut e ev ∈ t.history → .cut e ev ∈ s.history) : SkipInv t where
  aimed := hevents
  head := by intro e he; rw [hcurrent] at he; cases he
  seen := by intro ev h; rw [hwatcher] at h; cases h
  drained := by intro h; rw [hbefore] at h; cases h
  watched := fun h => absurd hwatcher h
  cuts := fun e ev h => hinv.cuts e ev (hhist e ev h)

/-- One place: what `drain` leaves of the buffer. -/
theorem drain_events (q : SessionQueue Entry) : q.events.drain.buf = [] := by
  rw [Chan.drain_buf]
  have hlen := q.events.bounded
  match hb : q.events.buf with
  | [] => rfl
  | [_] => rfl
  | _ :: _ :: _ => rw [hb] at hlen; simp at hlen

theorem skipInv_skip {s t : State} (hinv : SkipInv s) (hg : SkipInTime s .skip)
    (h : s.skip = some t) : SkipInv t := by
  obtain ⟨hseen, hbefore⟩ := hg
  rcases State.skip_eq_some h with rfl | ⟨e, es, htracks, rfl⟩
  · exact hinv
  · constructor
    case aimed =>
      intro ev hev
      change ev ∈ (s.queue.events.trySend _).buf at hev
      rw [Chan.trySend_buf] at hev
      split at hev
      · rcases List.mem_append.mp hev with hev | hev
        · exact hinv.aimed ev hev
        · rw [List.mem_singleton.mp hev]
          exact congrArg List.head? htracks
      · exact hinv.aimed ev hev
    case head => exact hinv.head
    case seen =>
      intro ev hw
      have hw' : s.watcher = .gotSkip ev := hw
      rw [hw'] at hseen
      cases hseen
    case drained =>
      intro hb
      have hb' : s.loop.beforeDequeue = true := hb
      rw [hbefore] at hb'
      cases hb'
    case watched => exact hinv.watched
    case cuts => exact hinv.cuts

theorem skipInv_watcherReceive {s t : State} (hinv : SkipInv s)
    (h : s.watcherReceive = some t) : SkipInv t := by
  obtain ⟨ev, c, hw, hb, rfl⟩ := State.watcherReceive_eq_some h
  have hmem : ev ∈ s.queue.events.buf := hb ▸ List.mem_cons_self
  have haim := hinv.aimed ev hmem
  have hempty : c.buf = [] := by
    have hlen := s.queue.events.bounded
    rw [hb, List.length_cons] at hlen
    exact List.eq_nil_of_length_eq_zero (Nat.le_zero.mp (Nat.le_of_succ_le_succ hlen))
  have hwatched := hinv.watched (by rw [hw]; nofun)
  constructor
  case aimed =>
    intro ev' hev'
    change ev' ∈ c.buf at hev'
    rw [hempty] at hev'
    cases hev'
  case head => exact hinv.head
  case seen =>
    intro ev' hev'
    cases hev'
    refine ⟨?_, hempty⟩
    -- the loop's entry and the target of the event are both the head
    show s.loop.current = _
    cases hl : s.loop with
    | playing e | stopping e r =>
      have hhead := hinv.head e (by rw [hl]; rfl)
      exact hhead.symm.trans haim
    | _ => rw [hl] at hwatched; cases hwatched
  case drained => exact fun _ => hempty
  case watched => exact fun _ => hwatched
  case cuts => exact hinv.cuts

theorem skipInv_trackEnds {s t : State} {r : TrackResult} (hinv : SkipInv s)
    (h : s.trackEnds r = some t) : SkipInv t := by
  obtain ⟨e, hl, rfl | ⟨ev, hw, rfl⟩⟩ := State.trackEnds_eq_some h
  all_goals
    have hhead := hinv.head e (by rw [hl]; rfl)
    have hseen : ∀ ev, s.watcher = .gotSkip ev → some e = some ev.aimedAt ∧
        s.queue.events.buf = [] := by
      intro ev hw
      have := hinv.seen ev hw
      rw [hl] at this
      exact this
  · exact ⟨hinv.aimed, fun _ he => by cases he; exact hhead, hseen, nofun, fun _ => rfl, hinv.cuts⟩
  · refine ⟨hinv.aimed, fun _ he => by cases he; exact hhead, hseen, nofun, fun _ => rfl, ?_⟩
    intro e' ev' h
    rcases List.mem_cons.mp h with h | h
    · cases h
      exact (Option.some.inj (hseen ev hw).1).symm
    · exact hinv.cuts e' ev' h

theorem skipInv_stop {s t : State} (hinv : SkipInv s) (h : s.stop = some t) : SkipInv t := by
  obtain ⟨e, r, hl, ⟨ev, hw, rfl⟩ | ⟨hw, l, rfl, hcase⟩⟩ := State.stop_eq_some h
  · -- a skip was seen, so the buffer is empty without a drain
    have hempty : s.queue.events.buf = [] := (hinv.seen ev hw).2
    have hhead := hinv.head e (by rw [hl]; rfl)
    exact ⟨hinv.aimed, fun _ he => by cases he; exact hhead, nofun, fun _ => hempty,
      fun h => absurd rfl h, hinv.cuts⟩
  · have hempty : ∀ ev ∈ s.queue.events.drain.buf, s.queue.tracks.head? = some ev.aimedAt := by
      rw [drain_events]
      exact fun _ h => nomatch h
    rcases hcase with rfl | ⟨rfl, -⟩ | rfl
    · have hhead := hinv.head e (by rw [hl]; rfl)
      exact ⟨hempty, fun _ he => by cases he; exact hhead, nofun, fun _ => drain_events _,
        fun h => absurd rfl h, hinv.cuts⟩
    · exact skipInv_between hinv hempty rfl rfl rfl fun _ _ h => h
    · exact skipInv_between hinv hempty rfl rfl rfl fun _ _ h => h

theorem skipInv_dequeue {s t : State} (hinv : SkipInv s) (h : s.dequeue = some t) :
    SkipInv t := by
  obtain ⟨e, hl, hcase⟩ := State.dequeue_eq_some h
  have hempty : s.queue.events.buf = [] := hinv.drained (by rw [hl]; rfl)
  have habsent : s.watcher = .absent := absent_of_not_watched hinv (by rw [hl]; rfl)
  rcases hcase with ⟨-, rfl⟩ | ⟨e', q, hq, rfl⟩
  · exact skipInv_between hinv hinv.aimed rfl rfl habsent fun _ _ h => h
  · obtain ⟨-, -, -, hev, -⟩ := SessionQueue.dequeue_eq_ok hq
    refine skipInv_between hinv ?_ rfl rfl habsent ?_
    · intro ev hmem
      change ev ∈ q.events.buf at hmem
      rw [hev, hempty] at hmem
      cases hmem
    · intro e ev h
      rcases List.mem_cons.mp h with h | h
      · cases h
      · exact h

end SkipLemmas

open SkipLemmas

theorem skipInv_step {s t : State} {a : Action} (hinv : SkipInv s) (hg : SkipInTime s a)
    (h : s.step a = some t) : SkipInv t := by
  cases a with
  | append n track =>
    obtain ⟨-, ⟨err, rfl⟩ | ⟨q, hq, rfl⟩⟩ := State.append_eq_some h
    · exact skipInv_frame hinv rfl (fun _ h => h) rfl rfl fun _ _ h => h
    · obtain ⟨-, htracks, -, -, hev, -⟩ := SessionQueue.enqueue_eq_ok hq
      refine skipInv_frame hinv hev ?_ rfl rfl ?_
      · intro e he
        change q.tracks.head? = some e
        rw [htracks, List.head?_append, he]
        rfl
      · intro e ev h
        rcases List.mem_cons.mp h with h | h
        · cases h
        · exact h
  | wake n =>
    obtain ⟨-, rfl⟩ := State.wake_eq_some h
    exact skipInv_frame hinv rfl (fun _ h => h) rfl rfl fun _ _ h => h
  | skip => exact skipInv_skip hinv hg h
  | removeTrack index =>
    rcases State.removeTrack_eq_some h with rfl | ⟨q, e, hi, hq, -, rfl⟩
    · exact hinv
    · obtain ⟨-, -, -, -, hev, -⟩ := SessionQueue.remove_eq_ok hq
      refine skipInv_frame hinv hev ?_ rfl rfl ?_
      · intro e' he'
        exact (SessionQueue.remove_head hq hi).trans he'
      · intro e' ev h
        rcases List.mem_cons.mp h with h | h
        · cases h
        · exact h
  | connect ok =>
    obtain ⟨hl, rfl⟩ := State.connect_eq_some h
    have habsent : s.watcher = .absent := absent_of_not_watched hinv (by rw [hl]; rfl)
    cases ok <;> exact skipInv_between hinv hinv.aimed rfl rfl habsent fun _ _ h => h
  | peek =>
    obtain ⟨hl, ⟨-, rfl⟩ | ⟨e, he, rfl⟩⟩ := State.peek_eq_some h
    all_goals have habsent : s.watcher = .absent := absent_of_not_watched hinv (by rw [hl]; rfl)
    · exact skipInv_between hinv hinv.aimed rfl rfl habsent fun _ _ h => h
    · refine ⟨hinv.aimed, fun _ h => by cases h; exact he, ?_, nofun, ?_, hinv.cuts⟩
      · intro ev hw
        cases habsent.symm.trans hw
      · exact fun hw => absurd habsent hw
  | watchForSkip =>
    obtain ⟨e, hl, rfl⟩ := State.watchForSkip_eq_some h
    have hhead := hinv.head e (by rw [hl]; rfl)
    exact ⟨hinv.aimed, fun _ h => by cases h; exact hhead, nofun, nofun, fun _ => rfl, hinv.cuts⟩
  | watcherReceive => exact skipInv_watcherReceive hinv h
  | watcherDone =>
    obtain ⟨hw, rfl⟩ := State.watcherDone_eq_some h
    have hwatched := hinv.watched (by rw [hw]; nofun)
    exact ⟨hinv.aimed, hinv.head, nofun, hinv.drained, fun _ => hwatched, hinv.cuts⟩
  | trackEnds r => exact skipInv_trackEnds hinv h
  | stop => exact skipInv_stop hinv h
  | dequeue => exact skipInv_dequeue hinv h
  | timerFires =>
    obtain ⟨-, rfl⟩ := State.timerFires_eq_some h
    exact skipInv_frame hinv rfl (fun _ h => h) rfl rfl fun _ _ h => h
  | selectSilence r =>
    obtain ⟨hl, ⟨-, -, rfl⟩ | ⟨c, -, -, rfl⟩ | ⟨-, -, rfl⟩⟩ := State.selectSilence_eq_some h
    all_goals have habsent : s.watcher = .absent := absent_of_not_watched hinv (by rw [hl]; rfl)
    · exact skipInv_between hinv hinv.aimed rfl rfl habsent fun _ _ h => h
    · refine skipInv_between hinv hinv.aimed rfl rfl habsent ?_
      intro e ev h
      rcases List.mem_cons.mp h with h | h
      · cases h
      · exact h
    · exact skipInv_between hinv hinv.aimed rfl rfl habsent fun _ _ h => h
  | silenceReturns =>
    rcases State.silenceReturns_eq_some h with ⟨hl, rfl⟩ | ⟨hl, rfl⟩ | ⟨hl, rfl⟩
    all_goals
      have habsent : s.watcher = .absent := absent_of_not_watched hinv (by rw [hl]; rfl)
      exact skipInv_between hinv hinv.aimed rfl rfl habsent fun _ _ h => h
  | endSession =>
    obtain ⟨why, hl, rfl⟩ := State.endSession_eq_some h
    have habsent : s.watcher = .absent := absent_of_not_watched hinv (by rw [hl]; rfl)
    exact skipInv_between hinv hinv.aimed rfl rfl habsent fun _ _ h => h
  | deleteSession | cancel =>
    cases h
    exact skipInv_frame hinv rfl (fun _ h => h) rfl rfl fun _ _ h => h

theorem skipInv_initial (id : SessionID) (archiveID : Option Int) :
    SkipInv (.initial id archiveID) := by
  refine ⟨?_, nofun, nofun, nofun, fun h => absurd rfl h, ?_⟩
  · exact fun ev h => nomatch h
  · exact fun e ev h => nomatch h

/-- In every run in which no `Skip` comes after the watcher has seen one for
the same track, or between `stop` and `Dequeue`, a track is cut only by an
event that was sent while it was the head. -/
theorem skip_cuts_its_own {s : State} (h : Reach playbackSystem SkipInTime s) :
    SkipsItsOwn s := by
  have hinv : SkipInv s := by
    refine h.invariant ?_ fun _ _ _ _ hi hg hs => skipInv_step hi hg hs
    rintro _ ⟨id, archiveID, rfl⟩
    exact skipInv_initial id archiveID
  exact hinv.cuts

/-- A skip cuts the first track, and the second one plays to its end. -/
theorem skip_cuts_first :
    ∃ s, .cut ⟨0, song 1⟩ ⟨.skipTrack, ⟨0, song 1⟩⟩ ∈ s.history ∧
      .dequeued ⟨1, song 2⟩ ∈ s.history ∧ SkipsItsOwn s := by
  obtain ⟨s, hs, hp⟩ := Reach.of_guardedRun (S := playbackSystem) (C := SkipInTime)
    (p := fun s => decide (.cut ⟨0, song 1⟩ ⟨.skipTrack, ⟨0, song 1⟩⟩ ∈ s.history ∧
      .dequeued ⟨1, song 2⟩ ∈ s.history))
    [.append 0 (song 1), .wake 0, .append 1 (song 2), .wake 1,
      .connect true, .peek, .watchForSkip, .skip, .watcherReceive, .trackEnds .cancelled,
      .stop, .dequeue, .peek, .watchForSkip, .trackEnds .ended, .watcherDone, .stop, .dequeue]
    (show playbackSystem.init (.initial "station" none) from ⟨_, _, rfl⟩) (by decide)
  obtain ⟨hcut, hdeq⟩ := of_decide_eq_true hp
  exact ⟨s, hcut, hdeq, skip_cuts_its_own hs⟩

end RadioJockey.Playback
