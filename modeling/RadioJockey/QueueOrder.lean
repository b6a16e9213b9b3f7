import RadioJockey.Skip

/-!
# What is played, and in which order

The loop holds no lock between `Peek` and `Dequeue`. Meanwhile clients append
to the queue, delete from it by index and skip, but `RemoveTrack` refuses the
index 0, and nobody else dequeues.

* `playback_faithful`: in every reachable state, `Dequeue` would return the
  entry that `Peek` returned, the entry that is played is the head of the queue
  and was not removed, and the entries dequeued so far followed by the queue are
  the enqueued entries in their order without the removed ones.
-/

namespace RadioJockey.Playback

open Channel Transition

def Effect.enqueuedEntry : Effect → Option Entry
  | .enqueued e => some e
  | _ => none

def Effect.removedEntry : Effect → Option Entry
  | .removed e => some e
  | _ => none

def Effect.dequeuedEntry : Effect → Option Entry
  | .dequeued e => some e
  | _ => none

/-- The accepted entries, last one first. -/
def enqueued (s : State) : List Entry := s.history.filterMap Effect.enqueuedEntry

def removed (s : State) : List Entry := s.history.filterMap Effect.removedEntry

def dequeued (s : State) : List Entry := s.history.filterMap Effect.dequeuedEntry

/-- `Loop.current` is the entry that the last `Peek` returned, from then on
until its `Dequeue`. -/
structure FaithfulPlayback (s : State) : Prop where
  dequeues : ∀ e, s.loop = .stopped e → ∃ q, s.queue.dequeue = .ok (e, q)
  current : ∀ e, s.loop.current = some e → s.queue.tracks.head? = some e ∧ e ∉ removed s
  order : (dequeued s).reverse ++ s.queue.tracks =
    (enqueued s).reverse.filter fun e => e ∉ removed s

/-- Entries are numbered in the order of their `Enqueue`, so no two of them are
equal. -/
structure OrderInv (s : State) : Prop where
  numbers : ∀ e ∈ enqueued s, e.number < s.nextEntry
  nodup : (enqueued s).Nodup
  removed : ∀ e ∈ removed s, e.number < s.nextEntry
  head : ∀ e, s.loop.current = some e → s.queue.tracks.head? = some e
  order : (dequeued s).reverse ++ s.queue.tracks =
    (enqueued s).reverse.filter fun e => e ∉ Playback.removed s

/-- The queue keeps its entries, and the loop takes at most its head in hand. -/
structure Kept (s t : State) : Prop where
  tracks : t.queue.tracks = s.queue.tracks
  archiveID : t.queue.archiveID = s.queue.archiveID
  nextEntry : t.nextEntry = s.nextEntry
  enqueued : enqueued t = enqueued s
  removed : removed t = removed s
  dequeued : dequeued t = dequeued s
  current : ∀ e, t.loop.current = some e →
    s.loop.current = some e ∨ s.queue.tracks.head? = some e

/-- The actions that may change the entries of the queue. -/
def Action.changesEntries : Action → Bool
  | .append _ _ | .removeTrack _ | .dequeue => true
  | _ => false

namespace QueueOrderLemmas

/-- A step that leaves the queue and its history alone. -/
theorem orderInv_frame {s t : State} (hinv : OrderInv s) (htracks : t.queue.tracks = s.queue.tracks)
    (hnext : t.nextEntry = s.nextEntry) (henq : enqueued t = enqueued s)
    (hrem : removed t = removed s) (hdeq : dequeued t = dequeued s)
    (hhead : ∀ e, t.loop.current = some e → s.queue.tracks.head? = some e) : OrderInv t where
  numbers := by rw [henq, hnext]; exact hinv.numbers
  nodup := by rw [henq]; exact hinv.nodup
  removed := by rw [hrem, hnext]; exact hinv.removed
  head := by rw [htracks]; exact hhead
  order := by rw [hdeq, htracks, henq, hrem]; exact hinv.order

/-- What is left in the queue was enqueued once and not removed. -/
theorem played_nodup {s : State} (hinv : OrderInv s) :
    ((dequeued s).reverse ++ s.queue.tracks).Nodup := by
  rw [hinv.order]
  exact (List.nodup_reverse.mpr hinv.nodup).filter _

theorem not_removed {s : State} (hinv : OrderInv s) {e : Entry} (he : e ∈ s.queue.tracks) :
    e ∉ removed s := by
  have hmem : e ∈ (dequeued s).reverse ++ s.queue.tracks := List.mem_append_right _ he
  rw [hinv.order, List.mem_filter] at hmem
  exact of_decide_eq_true hmem.2

theorem orderInv_append {s t : State} {n : Nat} {track : Track} (hinv : OrderInv s)
    (h : s.append n track = some t) : OrderInv t := by
  obtain ⟨-, ⟨err, rfl⟩ | ⟨q, hq, rfl⟩⟩ := State.append_eq_some h
  · exact orderInv_frame hinv rfl rfl rfl rfl rfl hinv.head
  · obtain ⟨-, htracks, -⟩ := SessionQueue.enqueue_eq_ok hq
    -- the new entry has a new number
    have hfresh : ∀ l : List Entry, (∀ e ∈ l, e.number < s.nextEntry) → ⟨s.nextEntry, track⟩ ∉ l :=
      fun l hl he => Nat.lt_irrefl _ (hl _ he)
    constructor
    case numbers =>
      intro e he
      rcases List.mem_cons.mp he with rfl | he
      · exact Nat.lt_succ_self _
      · exact Nat.lt_succ_of_lt (hinv.numbers e he)
    case nodup => exact List.nodup_cons.mpr ⟨hfresh _ hinv.numbers, hinv.nodup⟩
    case removed => exact fun e he => Nat.lt_succ_of_lt (hinv.removed e he)
    case head =>
      intro e he
      have hhead := hinv.head e he
      show q.tracks.head? = some e
      rw [htracks, List.head?_append, hhead]
      rfl
    case order =>
      show (dequeued s).reverse ++ q.tracks =
        ((⟨s.nextEntry, track⟩ :: enqueued s).reverse).filter fun e => e ∉ removed s
      have hkept : [(⟨s.nextEntry, track⟩ : Entry)].filter (fun e => e ∉ removed s) =
          [⟨s.nextEntry, track⟩] :=
        List.filter_cons_of_pos (decide_eq_true (hfresh _ hinv.removed))
      rw [htracks, List.reverse_cons, List.filter_append, hkept, ← hinv.order, List.append_assoc]

theorem orderInv_removeTrack {s t : State} {index : Nat} (hinv : OrderInv s)
    (h : s.removeTrack index = some t) : OrderInv t := by
  rcases State.removeTrack_eq_some h with rfl | ⟨q, e, hi, hq, he, rfl⟩
  · exact hinv
  · obtain ⟨hlt, htracks, -⟩ := SessionQueue.remove_eq_ok hq
    obtain ⟨hlt, rfl⟩ := List.getElem?_eq_some_iff.mp he
    have hnd := played_nodup hinv
    have hdeq : s.queue.tracks[index] ∉ (dequeued s).reverse := by
      intro hmem
      exact (List.nodup_append.mp hnd).2.2 _ hmem _ (List.getElem_mem hlt) rfl
    have hmem : s.queue.tracks[index] ∈ enqueued s := by
      have : s.queue.tracks[index] ∈ (dequeued s).reverse ++ s.queue.tracks :=
        List.mem_append_right _ (List.getElem_mem hlt)
      rw [hinv.order, List.mem_filter, List.mem_reverse] at this
      exact this.1
    constructor
    case numbers => exact hinv.numbers
    case nodup => exact hinv.nodup
    case removed =>
      intro x hx
      rcases List.mem_cons.mp hx with rfl | hx
      · exact hinv.numbers _ hmem
      · exact hinv.removed x hx
    case head =>
      intro x hx
      exact (SessionQueue.remove_head hq hi).trans (hinv.head x hx)
    case order =>
      show (dequeued s).reverse ++ q.tracks = (enqueued s).reverse.filter fun x =>
        x ∉ s.queue.tracks[index] :: removed s
      have hkeep : (s.queue.tracks.filter fun x => x ≠ s.queue.tracks[index]) = q.tracks := by
        have hback := (List.nodup_append.mp hnd).2.1
        rw [htracks, ← List.eraseIdx_eq_take_drop_succ, ← hback.erase_getElem index hlt,
          hback.erase_eq_filter]
        exact List.filter_congr fun x _ => Bool.eq_iff_iff.mpr (by simp)
      calc (dequeued s).reverse ++ q.tracks
          = ((dequeued s).reverse ++ s.queue.tracks).filter
              fun x => x ≠ s.queue.tracks[index] := by
            rw [List.filter_append, hkeep, List.filter_eq_self.mpr]
            exact fun x hx => decide_eq_true fun hxe => hdeq (hxe ▸ hx)
        _ = (enqueued s).reverse.filter fun x => x ∉ s.queue.tracks[index] :: removed s := by
            rw [hinv.order, List.filter_filter]
            exact List.filter_congr fun x _ => by simp

theorem orderInv_dequeue {s t : State} (hinv : OrderInv s) (h : s.dequeue = some t) :
    OrderInv t := by
  obtain ⟨e, -, ⟨-, rfl⟩ | ⟨e', q, hq, rfl⟩⟩ := State.dequeue_eq_some h
  · exact orderInv_frame hinv rfl rfl rfl rfl rfl nofun
  · obtain ⟨htracks, -⟩ := SessionQueue.dequeue_eq_ok hq
    refine ⟨hinv.numbers, hinv.nodup, hinv.removed, nofun, ?_⟩
    show (e' :: dequeued s).reverse ++ q.tracks = _
    rw [List.reverse_cons, List.append_assoc, List.singleton_append, ← htracks]
    exact hinv.order

end QueueOrderLemmas

open QueueOrderLemmas

/-- All other actions keep the entries. -/
theorem kept_of_step {s t : State} {a : Action} (ha : a.changesEntries = false)
    (h : s.step a = some t) : Kept s t := by
  cases a with
  | append n track | removeTrack index | dequeue => cases ha
  | wake n =>
    obtain ⟨-, rfl⟩ := State.wake_eq_some h
    exact ⟨rfl, rfl, rfl, rfl, rfl, rfl, fun _ => .inl⟩
  | skip =>
    rcases State.skip_eq_some h with rfl | ⟨e, es, -, rfl⟩
    all_goals exact ⟨rfl, rfl, rfl, rfl, rfl, rfl, fun _ => .inl⟩
  | connect ok =>
    obtain ⟨-, rfl⟩ := State.connect_eq_some h
    cases ok <;> exact ⟨rfl, rfl, rfl, rfl, rfl, rfl, nofun⟩
  | peek =>
    obtain ⟨-, ⟨-, rfl⟩ | ⟨e, he, rfl⟩⟩ := State.peek_eq_some h
    · exact ⟨rfl, rfl, rfl, rfl, rfl, rfl, nofun⟩
    · refine ⟨rfl, rfl, rfl, rfl, rfl, rfl, fun e' he' => .inr ?_⟩
      cases he'
      exact he
  | watchForSkip =>
    obtain ⟨e, hl, rfl⟩ := State.watchForSkip_eq_some h
    refine ⟨rfl, rfl, rfl, rfl, rfl, rfl, fun e' he' => .inl ?_⟩
    rw [hl]
    exact he'
  | watcherReceive =>
    obtain ⟨ev, c, -, -, rfl⟩ := State.watcherReceive_eq_some h
    exact ⟨rfl, rfl, rfl, rfl, rfl, rfl, fun _ => .inl⟩
  | watcherDone =>
    obtain ⟨-, rfl⟩ := State.watcherDone_eq_some h
    exact ⟨rfl, rfl, rfl, rfl, rfl, rfl, fun _ => .inl⟩
  | trackEnds r =>
    obtain ⟨e, hl, rfl | ⟨ev, -, rfl⟩⟩ := State.trackEnds_eq_some h
    all_goals
      refine ⟨rfl, rfl, rfl, rfl, rfl, rfl, fun e' he' => .inl ?_⟩
      rw [hl]
      exact he'
  | stop =>
    obtain ⟨e, r, hl, ⟨ev, -, rfl⟩ | ⟨-, l, rfl, hcase⟩⟩ := State.stop_eq_some h
    · refine ⟨rfl, rfl, rfl, rfl, rfl, rfl, fun e' he' => .inl ?_⟩
      rw [hl]
      exact he'
    · rcases hcase with rfl | ⟨rfl, -⟩ | rfl
      · refine ⟨rfl, rfl, rfl, rfl, rfl, rfl, fun e' he' => .inl ?_⟩
        rw [hl]
        exact he'
      · exact ⟨rfl, rfl, rfl, rfl, rfl, rfl, nofun⟩
      · exact ⟨rfl, rfl, rfl, rfl, rfl, rfl, nofun⟩
  | timerFires =>
    obtain ⟨-, rfl⟩ := State.timerFires_eq_some h
    exact ⟨rfl, rfl, rfl, rfl, rfl, rfl, fun _ => .inl⟩
  | selectSilence r =>
    obtain ⟨-, ⟨-, -, rfl⟩ | ⟨c, -, -, rfl⟩ | ⟨-, -, rfl⟩⟩ := State.selectSilence_eq_some h
    all_goals exact ⟨rfl, rfl, rfl, rfl, rfl, rfl, nofun⟩
  | silenceReturns =>
    rcases State.silenceReturns_eq_some h with ⟨-, rfl⟩ | ⟨-, rfl⟩ | ⟨-, rfl⟩
    all_goals exact ⟨rfl, rfl, rfl, rfl, rfl, rfl, nofun⟩
  | endSession =>
    obtain ⟨why, -, rfl⟩ := State.endSession_eq_some h
    exact ⟨rfl, rfl, rfl, rfl, rfl, rfl, nofun⟩
  | deleteSession | cancel =>
    cases h
    exact ⟨rfl, rfl, rfl, rfl, rfl, rfl, fun _ => .inl⟩

theorem orderInv_kept {s t : State} (hinv : OrderInv s) (hkept : Kept s t) : OrderInv t :=
  orderInv_frame hinv hkept.tracks hkept.nextEntry hkept.enqueued hkept.removed hkept.dequeued
    fun e he => (hkept.current e he).elim (hinv.head e) id

theorem orderInv_step {s t : State} {a : Action} (hinv : OrderInv s) (h : s.step a = some t) :
    OrderInv t := by
  cases a with
  | append n track => exact orderInv_append hinv h
  | removeTrack index => exact orderInv_removeTrack hinv h
  | dequeue => exact orderInv_dequeue hinv h
  | _ => exact orderInv_kept hinv (kept_of_step rfl h)

/-- The head of the queue is what `Dequeue` returns. -/
theorem faithfulPlayback_of_inv {s : State} (hinv : OrderInv s) : FaithfulPlayback s where
  dequeues := by
    intro e he
    have hhead := hinv.head e (by rw [he]; rfl)
    cases hd : s.queue.dequeue with
    | error err =>
      rw [SessionQueue.dequeue_eq_error hd] at hhead
      cases hhead
    | ok r =>
      obtain ⟨htracks, -⟩ :=
        SessionQueue.dequeue_eq_ok (show s.queue.dequeue = .ok (r.1, r.2) from hd)
      rw [htracks] at hhead
      cases hhead
      exact ⟨r.2, rfl⟩
  current := by
    intro e he
    have hhead := hinv.head e he
    exact ⟨hhead, not_removed hinv (List.mem_of_mem_head? hhead)⟩
  order := hinv.order

/-- Playback is faithful to the queue, in every run of the loop and its
clients. -/
theorem playback_faithful {s : State} (h : Reachable playbackSystem s) : FaithfulPlayback s := by
  have hinv : OrderInv s := by
    refine h.invariant (I := OrderInv) ?_ fun _ _ _ _ hi _ hs => orderInv_step hi hs
    rintro _ ⟨id, archiveID, rfl⟩
    exact ⟨fun _ h => (nomatch h), List.nodup_nil, fun _ h => (nomatch h), nofun, rfl⟩
  exact faithfulPlayback_of_inv hinv

/-- Three tracks, the second removed while the first is skipped. -/
theorem playback_faithful_removed :
    ∃ s, FaithfulPlayback s ∧ dequeued s = [⟨0, song 1⟩] ∧ removed s = [⟨1, song 2⟩] ∧
      s.queue.tracks = [⟨2, song 1⟩] := by
  obtain ⟨s, hs, hp⟩ := Reachable.of_run (S := playbackSystem)
    (p := fun s => decide (dequeued s = [⟨0, song 1⟩] ∧ removed s = [⟨1, song 2⟩] ∧
      s.queue.tracks = [⟨2, song 1⟩]))
    [.append 0 (song 1), .wake 0, .connect true, .peek, .watchForSkip, .append 1 (song 2),
      .append 2 (song 1), .removeTrack 0, .removeTrack 1, .skip, .watcherReceive,
      .trackEnds .cancelled, .stop, .dequeue]
    (show playbackSystem.init (.initial "station" none) from ⟨_, _, rfl⟩) (by decide)
  exact ⟨s, playback_faithful hs, of_decide_eq_true hp⟩

end RadioJockey.Playback
