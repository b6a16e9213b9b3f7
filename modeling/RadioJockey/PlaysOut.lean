import RadioJockey.Wakeups

/-!
# The queue is played out

When clients stop adding and removing tracks, the stream plays what is in the
queue and is silent then. Listeners may still skip.

* `plays_out`: from every reachable state in which the stream has not failed and
  will not end, the loop and its watcher take boundedly many steps, and when they
  can take no more, the loop is silent, the queue is empty and its entries have
  been dequeued in their order.
-/

namespace RadioJockey.Playback

open Channel Transition

/-- The steps that the stream takes while no track fails and the silence does not
time out, and the signals that are on their way. -/
def Action.plays : Action → Bool
  | .wake _ | .connect true | .peek | .watchForSkip | .watcherReceive | .watcherDone
  | .trackEnds .ended | .trackEnds .cancelled | .stop | .dequeue | .selectSilence .newTrack
  | .silenceReturns => true
  | _ => false

/-- The stream goes on, unless something happens to it. -/
def Loop.goesOn (w : Watcher) : Loop → Bool
  | .stopping _ .failed => w.sawSkip
  | .silenceEnding r => r = .newTrack
  | .ending _ | .ended _ => false
  | _ => true

/-- The steps to the next silence, with 6 for each track in the queue on top. A
track is in the queue until its last step. -/
def Loop.work (w : Watcher) : Loop → Nat
  | .connecting | .silenceEnding _ => 6
  | .peek => 5
  -- a signal that ends the silence brings what it takes to look at the queue again
  | .peeked _ | .silence => 4
  | .playing _ => if w = .waiting then 3 else 2
  | .stopping _ _ => if w = .waiting then 2 else 1
  | .stopped _ | .ending _ | .ended _ => 0

/-- A signal wakes the loop once, and a call that has appended sends one. -/
def Work (s : State) (n : Nat) : Prop :=
  ∃ calls : Finset Nat, (∀ m, m ∈ calls ↔ s.calls m = .appended) ∧
    n = 6 * s.queue.tracks.length + s.loop.work s.watcher + 3 * s.queue.notify.buf.length +
      4 * calls.card

/-- What a stream that plays out keeps: the entries that have been dequeued and
those that will be. -/
structure GoesOn (played : List Entry) (s : State) : Prop where
  open_ : s.ctxDone = false
  goesOn : s.loop.goesOn s.watcher = true
  order : OrderInv s
  wake : WakeInv s
  watched : s.watcher = .absent ↔ s.loop.watched = false
  played : (dequeued s).reverse ++ s.queue.tracks = played

def Action.cost (a : Action) : Nat := if a.plays then 1 else 0

namespace PlaysOutLemmas

variable {s t : State} {played : List Entry}

/-! ## The watcher -/

/-- There is a watcher exactly while a track is played. -/
theorem watched_step (h : s.watcher = .absent ↔ s.loop.watched = false) {a : Action}
    (hs : s.step a = some t) : t.watcher = .absent ↔ t.loop.watched = false := by
  cases a with
  | append n track =>
    obtain ⟨-, ⟨err, rfl⟩ | ⟨q, hq, rfl⟩⟩ := State.append_eq_some hs
    all_goals exact h
  | wake n =>
    obtain ⟨-, rfl⟩ := State.wake_eq_some hs
    exact h
  | skip =>
    rcases State.skip_eq_some hs with rfl | ⟨e, es, -, rfl⟩
    all_goals exact h
  | removeTrack index =>
    rcases State.removeTrack_eq_some hs with rfl | ⟨q, e, -, -, -, rfl⟩
    all_goals exact h
  | connect ok =>
    obtain ⟨hl, rfl⟩ := State.connect_eq_some hs
    rw [hl] at h
    cases ok <;> exact h
  | peek =>
    obtain ⟨hl, ⟨-, rfl⟩ | ⟨e, -, rfl⟩⟩ := State.peek_eq_some hs
    all_goals
      rw [hl] at h
      exact h
  | watchForSkip =>
    obtain ⟨e, -, rfl⟩ := State.watchForSkip_eq_some hs
    exact iff_of_false nofun nofun
  | watcherReceive =>
    obtain ⟨ev, c, hw, -, rfl⟩ := State.watcherReceive_eq_some hs
    rw [hw] at h
    exact iff_of_false nofun fun hl => nomatch h.mpr hl
  | watcherDone =>
    obtain ⟨hw, rfl⟩ := State.watcherDone_eq_some hs
    rw [hw] at h
    exact iff_of_false nofun fun hl => nomatch h.mpr hl
  | trackEnds r =>
    obtain ⟨e, hl, rfl | ⟨ev, -, rfl⟩⟩ := State.trackEnds_eq_some hs
    all_goals
      rw [hl] at h
      exact h
  | stop =>
    obtain ⟨e, r, -, ⟨ev, -, rfl⟩ | ⟨-, l, rfl, hcase⟩⟩ := State.stop_eq_some hs
    · exact iff_of_true rfl rfl
    · rcases hcase with rfl | ⟨rfl, -⟩ | rfl
      all_goals exact iff_of_true rfl rfl
  | dequeue =>
    obtain ⟨e, hl, ⟨-, rfl⟩ | ⟨e', q, -, rfl⟩⟩ := State.dequeue_eq_some hs
    all_goals
      rw [hl] at h
      exact h
  | timerFires =>
    obtain ⟨-, rfl⟩ := State.timerFires_eq_some hs
    exact h
  | selectSilence r =>
    obtain ⟨hl, ⟨-, -, rfl⟩ | ⟨c, -, -, rfl⟩ | ⟨-, -, rfl⟩⟩ := State.selectSilence_eq_some hs
    all_goals
      rw [hl] at h
      exact h
  | silenceReturns =>
    rcases State.silenceReturns_eq_some hs with ⟨hl, rfl⟩ | ⟨hl, rfl⟩ | ⟨hl, rfl⟩
    all_goals
      rw [hl] at h
      exact h
  | endSession =>
    obtain ⟨why, hl, rfl⟩ := State.endSession_eq_some hs
    rw [hl] at h
    exact h
  | deleteSession | cancel =>
    cases hs
    exact h

/-! ## The stream goes on -/

/-- A track whose watcher saw no skip has ended by itself. -/
theorem stop_ended (h : GoesOn played s) {e : Entry} {r : TrackResult}
    (hl : s.loop = .stopping e r) (hw : s.watcher = .exited) : r = .ended := by
  cases r with
  | ended => rfl
  | cancelled =>
    rcases h.wake.cancelled e hl with hctx | ⟨ev, hev⟩
    · cases h.open_.symm.trans hctx
    · cases hw.symm.trans hev
  | failed =>
    have hgoes := h.goesOn
    rw [hl, hw] at hgoes
    cases hgoes

theorem stop_goesOn (h : GoesOn played s) (hs : s.stop = some t) :
    ∃ e r, s.loop = .stopping e r ∧ s.watcher ≠ .waiting ∧
      t = { s with queue := t.queue, loop := .stopped e, watcher := .absent } ∧
      t.queue.tracks = s.queue.tracks ∧ t.queue.notify = s.queue.notify := by
  unfold State.stop at hs
  split at hs
  · next e r ev hl hw =>
    cases hs
    refine ⟨e, r, hl, ?_, rfl, rfl, rfl⟩
    rw [hw]
    exact nofun
  · next e r hl hw =>
    obtain rfl := stop_ended h hl hw
    cases hs
    refine ⟨e, .ended, hl, ?_, rfl, rfl, rfl⟩
    rw [hw]
    exact nofun
  · cases hs

/-- The entry that was peeked is still there to be dequeued. -/
theorem dequeue_goesOn (h : GoesOn played s) (hs : s.dequeue = some t) :
    ∃ e e' q, s.loop = .stopped e ∧ s.queue.dequeue = .ok (e', q) ∧ t = { s with
      queue := q, loop := .peek, history := .dequeued e' :: s.history } := by
  obtain ⟨e, hl, ⟨hnil, -⟩ | ⟨e', q, hq, rfl⟩⟩ := State.dequeue_eq_some hs
  · -- only this loop dequeues, and nobody removes the head
    have hhead := h.order.head e (by rw [hl]; rfl)
    rw [hnil] at hhead
    cases hhead
  · exact ⟨e, e', q, hl, hq, rfl⟩

theorem loop_step (h : GoesOn played s) {a : Action} (ha : a.plays = true ∨ a = .skip)
    (hs : s.step a = some t) : t.ctxDone = false ∧ t.loop.goesOn t.watcher = true := by
  have hopen := h.open_
  have hgoes := h.goesOn
  cases a with
  | append n track | removeTrack index | timerFires | endSession | deleteSession | cancel =>
    rcases ha with ha | ha <;> cases ha
  | wake n =>
    obtain ⟨-, rfl⟩ := State.wake_eq_some hs
    exact ⟨hopen, hgoes⟩
  | skip =>
    rcases State.skip_eq_some hs with rfl | ⟨e, es, -, rfl⟩
    all_goals exact ⟨hopen, hgoes⟩
  | connect ok =>
    obtain ⟨-, rfl⟩ := State.connect_eq_some hs
    cases ok with
    | true => exact ⟨hopen, rfl⟩
    | false => rcases ha with ha | ha <;> cases ha
  | peek =>
    obtain ⟨-, ⟨-, rfl⟩ | ⟨e, -, rfl⟩⟩ := State.peek_eq_some hs
    all_goals exact ⟨hopen, rfl⟩
  | watchForSkip =>
    obtain ⟨e, -, rfl⟩ := State.watchForSkip_eq_some hs
    exact ⟨hopen, rfl⟩
  | watcherReceive =>
    obtain ⟨ev, c, hw, -, rfl⟩ := State.watcherReceive_eq_some hs
    refine ⟨hopen, ?_⟩
    -- a skip that was seen only helps
    show s.loop.goesOn (.gotSkip ev) = true
    rw [Loop.goesOn.eq_def] at hgoes ⊢
    split at hgoes <;> first | rfl | exact hgoes
  | watcherDone =>
    obtain ⟨hw, rfl⟩ := State.watcherDone_eq_some hs
    refine ⟨hopen, ?_⟩
    rw [hw] at hgoes
    exact hgoes
  | trackEnds r =>
    obtain ⟨e, -, rfl | ⟨ev, -, rfl⟩⟩ := State.trackEnds_eq_some hs
    all_goals
      cases r with
      | ended | cancelled => exact ⟨hopen, rfl⟩
      | failed => rcases ha with ha | ha <;> cases ha
  | stop =>
    obtain ⟨e, r, -, -, ht, -⟩ := stop_goesOn h hs
    rw [ht]
    exact ⟨hopen, rfl⟩
  | dequeue =>
    obtain ⟨e, e', q, -, -, rfl⟩ := dequeue_goesOn h hs
    exact ⟨hopen, rfl⟩
  | selectSilence r =>
    obtain ⟨-, ⟨rfl, -, -⟩ | ⟨c, -, -, rfl⟩ | ⟨rfl, -, -⟩⟩ := State.selectSilence_eq_some hs
    · rcases ha with ha | ha <;> cases ha
    · exact ⟨hopen, rfl⟩
    · rcases ha with ha | ha <;> cases ha
  | silenceReturns =>
    rcases State.silenceReturns_eq_some hs with ⟨-, rfl⟩ | ⟨hl, -⟩ | ⟨hl, -⟩
    · exact ⟨hopen, rfl⟩
    all_goals
      rw [hl] at hgoes
      cases hgoes

theorem changesEntries_of_plays {a : Action} (ha : a.plays = true ∨ a = .skip)
    (hne : a ≠ .dequeue) : a.changesEntries = false := by
  cases a with
  | dequeue => exact absurd rfl hne
  | append n track | removeTrack index => rcases ha with ha | ha <;> cases ha
  | _ => rfl

theorem goesOn_step (h : GoesOn played s) {a : Action} (ha : a.plays = true ∨ a = .skip)
    (hs : s.step a = some t) : GoesOn played t := by
  obtain ⟨hopen, hgoes⟩ := loop_step h ha hs
  refine ⟨hopen, hgoes, orderInv_step h.order hs, wakeInv_step h.wake hs, watched_step h.watched hs,
    ?_⟩
  by_cases hne : a = .dequeue
  · subst hne
    obtain ⟨e, e', q, -, hq, rfl⟩ := dequeue_goesOn h hs
    obtain ⟨htracks, -⟩ := SessionQueue.dequeue_eq_ok hq
    show (e' :: dequeued s).reverse ++ q.tracks = played
    rw [List.reverse_cons, List.append_assoc, List.singleton_append, ← htracks]
    exact h.played
  · have hkept := kept_of_step (changesEntries_of_plays ha hne) hs
    rw [hkept.dequeued, hkept.tracks]
    exact h.played

/-! ## The steps are used up -/

/-- A step that concerns no call. -/
theorem work_frame {n k : Nat} (h : Work s n) (hcalls : t.calls = s.calls)
    (hle : 6 * t.queue.tracks.length + t.loop.work t.watcher + 3 * t.queue.notify.buf.length + k ≤
      6 * s.queue.tracks.length + s.loop.work s.watcher + 3 * s.queue.notify.buf.length) :
    ∃ m, Work t m ∧ m + k ≤ n := by
  obtain ⟨calls, hmem, rfl⟩ := h
  exact ⟨_, ⟨calls, by rw [hcalls]; exact hmem, rfl⟩, by omega⟩

/-- A step of the loop or of the watcher that leaves the queue alone. -/
theorem work_loop {n k : Nat} (h : Work s n) (hcalls : t.calls = s.calls)
    (hqueue : t.queue = s.queue)
    (hle : t.loop.work t.watcher + k ≤ s.loop.work s.watcher) : ∃ m, Work t m ∧ m + k ≤ n := by
  refine work_frame h hcalls ?_
  rw [hqueue]
  omega

theorem work_wake {n m : Nat} (h : Work s n) (hs : s.wake m = some t) :
    ∃ n', Work t n' ∧ n' + 1 ≤ n := by
  obtain ⟨calls, hmem, rfl⟩ := h
  obtain ⟨happended, rfl⟩ := State.wake_eq_some hs
  have hbuf : s.queue.wake.notify.buf.length ≤ s.queue.notify.buf.length + 1 := by
    rw [SessionQueue.wake, Chan.trySend_buf]
    split
    · rw [List.length_append]
      exact Nat.le_refl _
    · exact Nat.le_succ _
  have hcard : (calls.erase m).card + 1 = calls.card :=
    Finset.card_erase_add_one ((hmem m).mpr happended)
  refine ⟨_, ⟨calls.erase m, fun n => ?_, rfl⟩, ?_⟩
  · show n ∈ calls.erase m ↔ Function.update s.calls m (.returned none) n = .appended
    rcases eq_or_ne n m with rfl | hne
    · rw [Function.update_self]
      exact iff_of_false (Finset.notMem_erase n calls) Call.noConfusion
    · rw [Function.update_of_ne hne, Finset.mem_erase, hmem]
      exact and_iff_right hne
  · show 6 * s.queue.tracks.length + s.loop.work s.watcher + 3 * s.queue.wake.notify.buf.length +
      4 * (calls.erase m).card + 1 ≤ _
    omega

/-- A watcher that waits no longer has one step less to take. -/
theorem work_watcher {n : Nat} {w : Watcher} {q : SessionQueue Entry} (hn : Work s n)
    (hw : s.watcher = .waiting) (hwatched : s.loop.watched = true) (hne : w ≠ .waiting)
    (htracks : q.tracks = s.queue.tracks) (hnotify : q.notify = s.queue.notify) :
    ∃ m, Work { s with queue := q, watcher := w } m ∧ m + 1 ≤ n := by
  refine work_frame hn rfl ?_
  dsimp only
  rw [htracks, hnotify, hw]
  cases hloop : s.loop with
  | playing e | stopping e r =>
    simp only [Loop.work, if_neg hne, if_true]
    omega
  | connecting | peek | peeked e | stopped e | silence | silenceEnding r | ending why | ended why =>
    rw [hloop] at hwatched
    cases hwatched

theorem work_plays {n : Nat} (h : GoesOn played s) (hn : Work s n) {a : Action}
    (ha : a.plays = true) (hs : s.step a = some t) : ∃ m, Work t m ∧ m + 1 ≤ n := by
  have hwatched : s.watcher = .waiting → s.loop.watched = true := by
    intro hw
    cases hl : s.loop.watched with
    | true => rfl
    | false => cases hw.symm.trans (h.watched.mpr hl)
  cases a with
  | append n track | skip | removeTrack index | timerFires | endSession | deleteSession | cancel =>
    cases ha
  | wake m => exact work_wake hn hs
  | connect ok =>
    obtain ⟨hl, rfl⟩ := State.connect_eq_some hs
    cases ok with
    | true =>
      refine work_loop hn rfl rfl ?_
      rw [hl]
      exact Nat.le_refl 6
    | false => cases ha
  | peek =>
    obtain ⟨hl, ⟨-, rfl⟩ | ⟨e, -, rfl⟩⟩ := State.peek_eq_some hs
    all_goals
      refine work_loop hn rfl rfl ?_
      rw [hl]
      exact Nat.le_refl 5
  | watchForSkip =>
    obtain ⟨e, hl, rfl⟩ := State.watchForSkip_eq_some hs
    refine work_loop hn rfl rfl ?_
    rw [hl]
    exact Nat.le_refl 4
  | watcherReceive =>
    obtain ⟨ev, c, hw, -, rfl⟩ := State.watcherReceive_eq_some hs
    exact work_watcher hn hw (hwatched hw) nofun rfl rfl
  | watcherDone =>
    obtain ⟨hw, rfl⟩ := State.watcherDone_eq_some hs
    exact work_watcher hn hw (hwatched hw) nofun rfl rfl
  | trackEnds r =>
    obtain ⟨e, hl, rfl | ⟨ev, -, rfl⟩⟩ := State.trackEnds_eq_some hs
    all_goals
      refine work_loop hn rfl rfl ?_
      rw [hl]
      simp only [Loop.work]
      split <;> omega
  | stop =>
    obtain ⟨e, r, hl, hw, ht, htracks, hnotify⟩ := stop_goesOn h hs
    refine work_frame hn (by rw [ht]) ?_
    rw [htracks, hnotify, ht, hl]
    simp only [Loop.work, if_neg hw]
    omega
  | dequeue =>
    obtain ⟨e, e', q, hl, hq, rfl⟩ := dequeue_goesOn h hs
    obtain ⟨htracks, -, hnotify, -⟩ := SessionQueue.dequeue_eq_ok hq
    refine work_frame hn rfl ?_
    rw [hl, htracks, List.length_cons]
    show 6 * q.tracks.length + 5 + 3 * q.notify.buf.length + 1 ≤ _
    rw [hnotify]
    simp only [Loop.work]
    omega
  | selectSilence r =>
    obtain ⟨hl, ⟨rfl, -, -⟩ | ⟨c, rfl, hb, rfl⟩ | ⟨rfl, -, -⟩⟩ := State.selectSilence_eq_some hs
    · cases ha
    · refine work_frame hn rfl ?_
      rw [hl, hb, List.length_cons]
      show 6 * s.queue.tracks.length + 6 + 3 * c.buf.length + 1 ≤ _ + 4 + _
      omega
    · cases ha
  | silenceReturns =>
    have hgoes := h.goesOn
    rcases State.silenceReturns_eq_some hs with ⟨hl, rfl⟩ | ⟨hl, -⟩ | ⟨hl, -⟩
    · refine work_loop hn rfl rfl ?_
      rw [hl]
      exact Nat.le_refl 6
    all_goals
      rw [hl] at hgoes
      cases hgoes

theorem work_step {n : Nat} (h : GoesOn played s) (hn : Work s n) {a : Action}
    (ha : a.plays = true ∨ a = .skip) (hs : s.step a = some t) :
    ∃ m, (GoesOn played t ∧ Work t m) ∧ m + a.cost ≤ n := by
  obtain ⟨m, hm, hle⟩ : ∃ m, Work t m ∧ m + a.cost ≤ n := by
    rcases ha with hplays | rfl
    · rw [Action.cost, if_pos hplays]
      exact work_plays h hn hplays hs
    · rcases State.skip_eq_some hs with rfl | ⟨e, es, -, rfl⟩
      · exact ⟨n, hn, Nat.le_refl _⟩
      · exact work_frame hn rfl (Nat.le_refl _)
  exact ⟨m, ⟨goesOn_step h ha hs, hm⟩, hle⟩

theorem exists_work (h : WakeInv s) : ∃ n, Work s n := by
  obtain ⟨calls, hmem, -⟩ := h.budget
  exact ⟨_, calls, hmem, rfl⟩

/-! ## The end -/

/-- A stream that can take no step is silent with nothing to play. -/
theorem silent_of_stuck (h : GoesOn played s)
    (hstuck : ∀ a : Action, a.plays = true → s.step a = none) :
    s.loop = .silence ∧ s.queue.tracks = [] := by
  have hgoes := h.goesOn
  cases hl : s.loop with
  | connecting =>
    have := hstuck (.connect true) rfl
    simp [State.step, State.connect, hl] at this
  | peek =>
    have := hstuck .peek rfl
    simp only [State.step, State.peek, hl] at this
    split at this <;> cases this
  | peeked e =>
    have := hstuck .watchForSkip rfl
    simp [State.step, State.watchForSkip, hl] at this
  | playing e =>
    have := hstuck (.trackEnds .ended) rfl
    simp [State.step, State.trackEnds, hl] at this
  | stopping e r =>
    cases hw : s.watcher with
    | absent =>
      have := h.watched.mp hw
      rw [hl] at this
      cases this
    | waiting =>
      have := hstuck .watcherDone rfl
      simp [State.step, State.watcherDone, hl, hw] at this
    | gotSkip ev =>
      have := hstuck .stop rfl
      simp [State.step, State.stop, hl, hw] at this
    | exited =>
      obtain rfl := stop_ended h hl hw
      have := hstuck .stop rfl
      simp [State.step, State.stop, hl, hw] at this
  | stopped e =>
    have := hstuck .dequeue rfl
    simp only [State.step, State.dequeue, hl] at this
    split at this <;> cases this
  | silence =>
    -- no wakeup is lost: with a track there, a signal is in the channel or on its way
    refine ⟨rfl, ?_⟩
    by_contra hne
    rcases h.wake.pending hl h.open_ hne with hnotify | ⟨n, hn⟩
    · obtain ⟨u, buf, hb⟩ := List.exists_cons_of_ne_nil hnotify
      have hlen : buf.length ≤ 1 := by
        have := s.queue.notify.bounded
        rw [hb, List.length_cons] at this
        omega
      have hrecv : s.queue.notify.recv? = some (u, ⟨buf, hlen⟩) := Chan.recv?_eq_some.mpr hb
      have := hstuck (.selectSilence .newTrack) rfl
      simp [State.step, State.selectSilence, hl, hrecv] at this
    · have := hstuck (.wake n) rfl
      simp [State.step, State.wake, hn] at this
  | silenceEnding r =>
    rw [hl] at hgoes
    obtain rfl : r = .newTrack := of_decide_eq_true hgoes
    have := hstuck .silenceReturns rfl
    simp [State.step, State.silenceReturns, hl] at this
  | ending why | ended why =>
    rw [hl] at hgoes
    cases hgoes

/-! ## Runs -/

theorem goesOn_of_reachable (h : Reachable playbackSystem s) (hopen : s.ctxDone = false)
    (hgoes : s.loop.goesOn s.watcher = true) :
    GoesOn ((dequeued s).reverse ++ s.queue.tracks) s := by
  have hinv : OrderInv s ∧ WakeInv s ∧ (s.watcher = .absent ↔ s.loop.watched = false) := by
    refine h.invariant (I := fun s => OrderInv s ∧ WakeInv s ∧
      (s.watcher = .absent ↔ s.loop.watched = false)) ?_ ?_
    · rintro _ ⟨id, archiveID, rfl⟩
      exact ⟨⟨fun _ h => (nomatch h), List.nodup_nil, fun _ h => (nomatch h), nofun, rfl⟩,
        ⟨nofun, nofun, ∅, fun n => iff_of_false (Finset.notMem_empty n) nofun, Nat.le_refl _⟩,
        iff_of_true rfl rfl⟩
    · rintro s a t - ⟨horder, hwake, hwatched⟩ - hs
      exact ⟨orderInv_step horder hs, wakeInv_step hwake hs, watched_step hwatched hs⟩
  exact ⟨hopen, hgoes, hinv.1, hinv.2.1, hinv.2.2, rfl⟩

theorem run_goesOn {n : Nat} (h : GoesOn played s) (hn : Work s n) {as : List Action}
    (has : ∀ a ∈ as, a.plays = true ∨ a = .skip) (hr : run playbackSystem s as = some t) :
    GoesOn played t ∧ as.countP Action.plays ≤ n := by
  have hstep : ∀ s (a : Action) t n, (a.plays = true ∨ a = .skip) → GoesOn played s ∧ Work s n →
      playbackSystem.step s a = some t →
        ∃ m, (GoesOn played t ∧ Work t m) ∧ m + a.cost ≤ n + 0 :=
    fun _ _ _ _ ha hn hs => work_step hn.1 hn.2 ha hs
  obtain ⟨m, ⟨ht, -⟩, hle⟩ := run_amortized hstep has ⟨h, hn⟩ hr
  have hcost : (as.map Action.cost).sum = as.countP Action.plays := sum_cost Action.plays as
  rw [hcost] at hle
  simp only [List.map_const', List.sum_replicate_nat, Nat.mul_zero, Nat.add_zero] at hle
  exact ⟨ht, by omega⟩

end PlaysOutLemmas

open PlaysOutLemmas

/-- From every reachable state of a stream that goes on, while nobody adds or
removes a track. -/
theorem plays_out {s : State} (h : Reachable playbackSystem s) (hopen : s.ctxDone = false)
    (hgoes : s.loop.goesOn s.watcher = true) :
    ∃ bound, ∀ as t, (∀ a ∈ as, a.plays = true ∨ a = .skip) → run playbackSystem s as = some t →
      as.countP Action.plays ≤ bound ∧ ((∀ a : Action, a.plays = true → t.step a = none) →
        t.loop = .silence ∧ t.queue.tracks = [] ∧
          (dequeued t).reverse = (dequeued s).reverse ++ s.queue.tracks) := by
  have hs := goesOn_of_reachable h hopen hgoes
  obtain ⟨n, hn⟩ := exists_work hs.wake
  refine ⟨n, fun as t has hr => ?_⟩
  obtain ⟨ht, hle⟩ := run_goesOn hs hn has hr
  refine ⟨hle, fun hstuck => ?_⟩
  obtain ⟨hsilence, hnil⟩ := silent_of_stuck ht hstuck
  have hplayed := ht.played
  rw [hnil, List.append_nil] at hplayed
  exact ⟨hsilence, hnil, hplayed⟩

/-- One track is being played and was skipped, another one waits, and the signal
of a third is on its way. -/
theorem plays_out_skipped : ∃ s : State, s.queue.tracks = [⟨0, song 1⟩, ⟨1, song 2⟩, ⟨2, song 3⟩] ∧
    ∃ bound, ∀ as t, (∀ a ∈ as, a.plays = true ∨ a = .skip) → run playbackSystem s as = some t →
      as.countP Action.plays ≤ bound ∧ ((∀ a : Action, a.plays = true → t.step a = none) →
        t.loop = .silence ∧ t.queue.tracks = [] ∧
          (dequeued t).reverse = (dequeued s).reverse ++ s.queue.tracks) := by
  obtain ⟨s, hs, hp⟩ := Reachable.of_run (S := playbackSystem)
    (p := fun s => decide (s.queue.tracks = [⟨0, song 1⟩, ⟨1, song 2⟩, ⟨2, song 3⟩] ∧
      s.ctxDone = false ∧ s.loop.goesOn s.watcher = true))
    [.append 0 (song 1), .wake 0, .connect true, .peek, .watchForSkip, .append 1 (song 2), .wake 1,
      .skip, .watcherReceive, .append 2 (song 3)]
    (show playbackSystem.init (.initial "station" none) from ⟨_, _, rfl⟩) (by decide)
  obtain ⟨htracks, hopen, hgoes⟩ := of_decide_eq_true hp
  exact ⟨s, htracks, plays_out hs hopen hgoes⟩

end RadioJockey.Playback
