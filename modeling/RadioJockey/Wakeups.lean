import Mathlib.Data.Finset.Card
import RadioJockey.QueueOrder

/-!
# Wake-ups of the silent stream

`Enqueue` appends under the lock and signals after it, without blocking, on a
channel with one place. The loop looks at the queue, and only then waits. A
signal may find the place taken, and it may be about a track that was played
long ago.

* `no_lost_wakeup`: in every reachable state in which the loop waits and its
  context is not done, a queue with tracks in it comes with a signal that is
  buffered or about to be sent. And the loop is woken at most once for each
  accepted `Enqueue`.
-/

namespace RadioJockey.Playback

open Channel Transition

def Effect.isWoken : Effect → Bool
  | .woken => true
  | _ => false

/-- How many `Enqueue` calls were accepted, and how often `silenceNewTrack` was
returned. -/
def enqueueCount (s : State) : Nat := (enqueued s).length

def wakeCount (s : State) : Nat := (s.history.filter Effect.isWoken).length

/-- A waiting loop has a signal to come if there is anything to play. -/
def WakeupPending (s : State) : Prop :=
  s.loop = .silence → s.ctxDone = false → s.queue.tracks ≠ [] →
    s.queue.notify.buf ≠ [] ∨ ∃ n, s.calls n = .appended

def NoLostWakeup (s : State) : Prop := WakeupPending s ∧ wakeCount s ≤ enqueueCount s

/-! ## The invariant -/

/-- Every wake-up and every buffered signal stands for an accepted `Enqueue`
that is no longer about to signal. -/
def Budget (s : State) : Prop :=
  ∃ calls : Finset Nat, (∀ n, n ∈ calls ↔ s.calls n = .appended) ∧
    wakeCount s + s.queue.notify.buf.length + calls.card ≤ enqueueCount s

structure WakeInv (s : State) : Prop where
  pending : WakeupPending s
  /-- What cancels a track, so that silence follows, is the end of the stream. -/
  cancelled : ∀ e, s.loop = .stopping e .cancelled →
    s.ctxDone = true ∨ ∃ ev, s.watcher = .gotSkip ev
  budget : Budget s

namespace WakeupsLemmas

/-- A step that neither appends nor signals nor wakes. -/
theorem wakeInv_frame {s t : State} (hinv : WakeInv s) (hcalls : t.calls = s.calls)
    (hnotify : t.queue.notify = s.queue.notify) (henq : enqueueCount t = enqueueCount s)
    (hwake : wakeCount t = wakeCount s)
    (hpending : t.loop = .silence → t.ctxDone = false → t.queue.tracks ≠ [] →
      s.loop = .silence ∧ s.ctxDone = false ∧ s.queue.tracks ≠ [])
    (hcancelled : ∀ e, t.loop = .stopping e .cancelled →
      t.ctxDone = true ∨ ∃ ev, t.watcher = .gotSkip ev) : WakeInv t where
  pending := by
    intro hl hd ht
    obtain ⟨hl', hd', ht'⟩ := hpending hl hd ht
    rw [hnotify, hcalls]
    exact hinv.pending hl' hd' ht'
  cancelled := hcancelled
  budget := by
    rw [Budget, hcalls, hnotify, henq, hwake]
    exact hinv.budget

theorem wakeInv_append {s t : State} {n : Nat} {track : Track} (hinv : WakeInv s)
    (h : s.append n track = some t) : WakeInv t := by
  obtain ⟨calls, hmem, hle⟩ := hinv.budget
  obtain ⟨hidle, ⟨err, rfl⟩ | ⟨q, hq, rfl⟩⟩ := State.append_eq_some h
  · have hcalls : ∀ m, Function.update s.calls n (.returned (some err)) m = .appended ↔
        s.calls m = .appended := by
      intro m
      rcases eq_or_ne m n with rfl | hne
      · rw [Function.update_self, hidle]
        exact iff_of_false nofun nofun
      · rw [Function.update_of_ne hne]
    refine ⟨fun hl hd ht => ?_, hinv.cancelled, calls, fun m => (hmem m).trans (hcalls m).symm, hle⟩
    exact (hinv.pending hl hd ht).imp id fun ⟨m, hm⟩ => ⟨m, (hcalls m).mpr hm⟩
  · obtain ⟨-, -, -, hnotify, -⟩ := SessionQueue.enqueue_eq_ok hq
    have hnew : n ∉ calls := fun hn => by
      have := (hmem n).mp hn
      rw [hidle] at this
      cases this
    refine ⟨fun _ _ _ => .inr ⟨n, Function.update_self ..⟩, hinv.cancelled, insert n calls, ?_, ?_⟩
    · intro m
      show m ∈ insert n calls ↔ Function.update s.calls n .appended m = .appended
      rcases eq_or_ne m n with rfl | hne
      · simp
      · rw [Function.update_of_ne hne, Finset.mem_insert, hmem]
        exact or_iff_right hne
    · show wakeCount s + q.notify.buf.length + (insert n calls).card ≤ enqueueCount s + 1
      rw [hnotify, Finset.card_insert_of_notMem hnew]
      omega

/-- After the signal the place is taken, whether by this signal or by an
earlier one. -/
theorem wakeInv_wake {s t : State} {n : Nat} (hinv : WakeInv s) (h : s.wake n = some t) :
    WakeInv t := by
  obtain ⟨calls, hmem, hle⟩ := hinv.budget
  obtain ⟨happended, rfl⟩ := State.wake_eq_some h
  have hbuf : s.queue.wake.notify.buf ≠ [] ∧
      s.queue.wake.notify.buf.length ≤ s.queue.notify.buf.length + 1 := by
    rw [SessionQueue.wake, Chan.trySend_buf]
    split
    · simp
    · next hfull =>
      refine ⟨fun hnil => hfull ?_, Nat.le_succ _⟩
      rw [hnil]
      exact Nat.zero_lt_one
  refine ⟨fun _ _ _ => .inl hbuf.1, hinv.cancelled, calls.erase n, ?_, ?_⟩
  · intro m
    show m ∈ calls.erase n ↔ Function.update s.calls n (.returned none) m = .appended
    rcases eq_or_ne m n with rfl | hne
    · rw [Function.update_self]
      exact iff_of_false (Finset.notMem_erase m calls) nofun
    · rw [Function.update_of_ne hne, Finset.mem_erase, hmem]
      exact and_iff_right hne
  · have hn : n ∈ calls := (hmem n).mpr happended
    have hcard : (calls.erase n).card + 1 = calls.card := Finset.card_erase_add_one hn
    have hlen := hbuf.2
    show wakeCount s + s.queue.wake.notify.buf.length + (calls.erase n).card ≤ enqueueCount s
    omega

theorem wakeInv_stop {s t : State} (hinv : WakeInv s) (h : s.stop = some t) : WakeInv t := by
  obtain ⟨e, r, hl, ⟨ev, hw, rfl⟩ | ⟨hw, l, rfl, hcase⟩⟩ := State.stop_eq_some h
  · exact wakeInv_frame hinv rfl rfl rfl rfl nofun nofun
  · rcases hcase with rfl | ⟨rfl, rfl⟩ | rfl
    · exact wakeInv_frame hinv rfl rfl rfl rfl nofun nofun
    · refine wakeInv_frame hinv rfl rfl rfl rfl (fun _ hd _ => ?_) nofun
      -- the watcher saw no skip, so the stream's context is done
      rcases hinv.cancelled e hl with hd' | ⟨ev, hev⟩
      · cases hd'.symm.trans hd
      · cases hw.symm.trans hev
    · exact wakeInv_frame hinv rfl rfl rfl rfl nofun nofun

theorem wakeInv_selectSilence {s t : State} {r : SilenceResult} (hinv : WakeInv s)
    (h : s.selectSilence r = some t) : WakeInv t := by
  obtain ⟨-, ⟨-, -, rfl⟩ | ⟨c, -, hb, rfl⟩ | ⟨-, -, rfl⟩⟩ := State.selectSilence_eq_some h
  · exact wakeInv_frame hinv rfl rfl rfl rfl nofun nofun
  · obtain ⟨calls, hmem, hle⟩ := hinv.budget
    refine ⟨nofun, nofun, calls, hmem, ?_⟩
    show wakeCount s + 1 + c.buf.length + calls.card ≤ enqueueCount s
    rw [hb, List.length_cons] at hle
    omega
  · exact wakeInv_frame hinv rfl rfl rfl rfl nofun nofun

end WakeupsLemmas

open WakeupsLemmas

theorem wakeInv_step {s t : State} {a : Action} (hinv : WakeInv s) (h : s.step a = some t) :
    WakeInv t := by
  cases a with
  | append n track => exact wakeInv_append hinv h
  | wake n => exact wakeInv_wake hinv h
  | stop => exact wakeInv_stop hinv h
  | selectSilence r => exact wakeInv_selectSilence hinv h
  | skip =>
    rcases State.skip_eq_some h with rfl | ⟨e, es, -, rfl⟩
    · exact hinv
    · exact wakeInv_frame hinv rfl rfl rfl rfl (fun hl hd ht => ⟨hl, hd, ht⟩) hinv.cancelled
  | removeTrack index =>
    rcases State.removeTrack_eq_some h with rfl | ⟨q, e, -, hq, he, rfl⟩
    · exact hinv
    · obtain ⟨-, -, -, hnotify, -⟩ := SessionQueue.remove_eq_ok hq
      refine wakeInv_frame hinv rfl hnotify rfl rfl (fun hl hd _ => ⟨hl, hd, fun hnil => ?_⟩)
        hinv.cancelled
      rw [hnil] at he
      cases he
  | connect ok =>
    obtain ⟨-, rfl⟩ := State.connect_eq_some h
    cases ok <;> exact wakeInv_frame hinv rfl rfl rfl rfl nofun nofun
  | peek =>
    obtain ⟨-, ⟨hnil, rfl⟩ | ⟨e, -, rfl⟩⟩ := State.peek_eq_some h
    · exact wakeInv_frame hinv rfl rfl rfl rfl (fun _ _ ht => absurd hnil ht) nofun
    · exact wakeInv_frame hinv rfl rfl rfl rfl nofun nofun
  | watchForSkip =>
    obtain ⟨e, -, rfl⟩ := State.watchForSkip_eq_some h
    exact wakeInv_frame hinv rfl rfl rfl rfl nofun nofun
  | watcherReceive =>
    obtain ⟨ev, c, -, -, rfl⟩ := State.watcherReceive_eq_some h
    exact wakeInv_frame hinv rfl rfl rfl rfl (fun hl hd ht => ⟨hl, hd, ht⟩)
      fun _ _ => .inr ⟨ev, rfl⟩
  | watcherDone =>
    obtain ⟨hw, rfl⟩ := State.watcherDone_eq_some h
    refine wakeInv_frame hinv rfl rfl rfl rfl (fun hl hd ht => ⟨hl, hd, ht⟩) fun e hl => ?_
    rcases hinv.cancelled e hl with hd | ⟨ev, hev⟩
    · exact .inl hd
    · cases hw.symm.trans hev
  | trackEnds r =>
    have hcancelled : ∀ e, t.loop = .stopping e .cancelled →
        t.ctxDone = true ∨ ∃ ev, t.watcher = .gotSkip ev := by
      intro e hl
      obtain ⟨e', -, rfl | ⟨ev, -, rfl⟩⟩ := State.trackEnds_eq_some h
      all_goals
        cases hl
        exact State.trackEnds_cancelled h
    obtain ⟨e, -, rfl | ⟨ev, -, rfl⟩⟩ := State.trackEnds_eq_some h
    · exact wakeInv_frame hinv rfl rfl rfl rfl nofun hcancelled
    · exact wakeInv_frame hinv rfl rfl rfl rfl nofun hcancelled
  | dequeue =>
    obtain ⟨e, -, ⟨-, rfl⟩ | ⟨e', q, hq, rfl⟩⟩ := State.dequeue_eq_some h
    · exact wakeInv_frame hinv rfl rfl rfl rfl nofun nofun
    · exact wakeInv_frame hinv rfl (SessionQueue.dequeue_eq_ok hq).2.2.1 rfl rfl nofun nofun
  | timerFires =>
    obtain ⟨-, rfl⟩ := State.timerFires_eq_some h
    exact wakeInv_frame hinv rfl rfl rfl rfl (fun hl hd ht => ⟨hl, hd, ht⟩) hinv.cancelled
  | silenceReturns =>
    rcases State.silenceReturns_eq_some h with ⟨-, rfl⟩ | ⟨-, rfl⟩ | ⟨-, rfl⟩
    all_goals exact wakeInv_frame hinv rfl rfl rfl rfl nofun nofun
  | endSession =>
    obtain ⟨why, -, rfl⟩ := State.endSession_eq_some h
    exact wakeInv_frame hinv rfl rfl rfl rfl nofun nofun
  | deleteSession =>
    cases h
    exact wakeInv_frame hinv rfl rfl rfl rfl (fun hl hd ht => ⟨hl, hd, ht⟩) hinv.cancelled
  | cancel =>
    cases h
    exact wakeInv_frame hinv rfl rfl rfl rfl nofun fun _ _ => .inl rfl

theorem wakeInv_reachable {s : State} (h : Reachable playbackSystem s) : WakeInv s := by
  refine h.invariant (I := WakeInv) ?_ fun _ _ _ _ hi _ hs => wakeInv_step hi hs
  rintro _ ⟨id, archiveID, rfl⟩
  exact ⟨nofun, nofun, ∅, fun n => iff_of_false (Finset.notMem_empty n) nofun, Nat.le_refl _⟩

/-- While the loop waits and no signal is buffered or to be sent, there is nothing
to play. -/
theorem tracks_of_no_signal {s : State} (h : Reachable playbackSystem s) (hl : s.loop = .silence)
    (hd : s.ctxDone = false) (hbuf : s.queue.notify.buf = [])
    (hcalls : ∀ n, s.calls n ≠ .appended) : s.queue.tracks = [] := by
  by_contra htracks
  rcases (wakeInv_reachable h).pending hl hd htracks with hnotify | ⟨n, hn⟩
  · exact hnotify hbuf
  · exact hcalls n hn

/-- No wake-up is lost, and the loop does not spin. -/
theorem no_lost_wakeup {s : State} (h : Reachable playbackSystem s) : NoLostWakeup s := by
  have hinv := wakeInv_reachable h
  obtain ⟨calls, -, hle⟩ := hinv.budget
  exact ⟨hinv.pending, by omega⟩

/-- The signal of a track that was played while it was on its way wakes the loop
once more, for nothing. -/
theorem no_lost_wakeup_stale :
    ∃ s, NoLostWakeup s ∧ s.loop = .silence ∧ s.queue.tracks = [⟨2, song 3⟩] ∧ wakeCount s = 2 := by
  obtain ⟨s, hs, hp⟩ := Reachable.of_run (S := playbackSystem)
    (p := fun s => decide (s.loop = .silence ∧ s.queue.tracks = [⟨2, song 3⟩] ∧ wakeCount s = 2))
    [.connect true, .peek, .append 0 (song 1), .wake 0, .selectSilence .newTrack, .silenceReturns,
      .append 1 (song 2), .wake 1, .peek, .watchForSkip, .trackEnds .ended, .watcherDone, .stop,
      .dequeue, .peek, .watchForSkip, .trackEnds .ended, .watcherDone, .stop, .dequeue, .peek,
      .selectSilence .newTrack, .silenceReturns, .peek, .append 2 (song 3)]
    (show playbackSystem.init (.initial "station" none) from ⟨_, _, rfl⟩) (by decide)
  exact ⟨s, no_lost_wakeup hs, of_decide_eq_true hp⟩

end RadioJockey.Playback
