import RadioJockey.Snapshots

/-!
# The files of queued tracks

A track is safe from eviction while it is in the in-use set or recent enough.
The set is computed before the eviction, outside the lock of the cache, and
between the check of a file and the `Enqueue` only its place in the window
protects the track.

1. `queued_without_file`: a cached track is found, 49 other lookups push it to
   the end of the window, the next `Touch` evicts it, and then it is enqueued.
2. `queued_files_exist`: every queued track has its file in every run in which
   each `Touch` finds the tracks that are queued or about to be among those in
   use, or with enough unused tracks behind them.
-/

namespace RadioJockey.AddTrack

open Transition Lru

/-- The file that a call has established, by `os.Stat` or a download, for the
track that it is about to enqueue. -/
def Phase.holds (path : String → String) : Phase → Option String
  | .downloaded id | .creating id _ | .created id => some (path id)
  | .updating t | .found t _ | .queueing t _ _ => some t.filePath
  | _ => none

/-- The file is that of a track in the queue of a registered session, or of one
that a call is about to enqueue. -/
def Needed (path : String → String) (s : State) (p : String) : Prop :=
  (∃ t ∈ s.manager.queuedTracks, t.filePath = p) ∨ ∃ c ∈ s.calls, c.phase.holds path = some p

instance (path : String → String) (s : State) (p : String) : Decidable (Needed path s p) :=
  inferInstanceAs (Decidable (_ ∨ _))

def QueuedFilesExist (s : State) : Prop :=
  ∀ t ∈ s.manager.queuedTracks, t.filePath ∈ s.files

/-- The tracks of `l` whose files are needed are in use, or have as many unused
tracks behind them as the window is over its size. -/
def Spares (path : String → String) (s : State) (inUse : List Int) (l : List Track) : Prop :=
  ∀ w ∈ l, Needed path s w.filePath →
    w.id ∈ inUse ∨ Cache.overflow l ≤ behind Track.id (Cache.used inUse) w l

instance (path : String → String) (s : State) (inUse : List Int) (l : List Track) :
    Decidable (Spares path s inUse l) :=
  inferInstanceAs (Decidable (∀ w ∈ l, _))

/-- A call at the locked section of its `Touch` spares what is needed. This is
about the window after the update and before the eviction. -/
def Phase.Spares (path : String → String) (s : State) : Phase → Prop
  | .touched t inUse _ => AddTrack.Spares path s inUse (promote Track.id t s.cache.tracks)
  | _ => True

instance (path : String → String) (s : State) (p : Phase) : Decidable (p.Spares path s) := by
  cases p <;> unfold Phase.Spares <;> infer_instance

/-- The guard of `queued_files_exist`. -/
def TouchSparesNeeded (path : String → String) (s : State) : Action → Prop
  | .touch n => ∀ c ∈ s.calls[n]?, c.phase.Spares path s
  | _ => True

instance (path : String → String) (s : State) (a : Action) :
    Decidable (TouchSparesNeeded path s a) :=
  match a with
  | .touch n => inferInstanceAs (Decidable (∀ c ∈ s.calls[n]?, c.phase.Spares path s))
  | .request .. | .get _ | .stat _ | .download .. | .getTrack .. | .updateArt .. | .createTrack ..
  | .readBack .. | .getQueue _ | .enqueue _ | .inUseTrackIDs _ | .touchLastUsed ..
  | .createSession .. | .deleteSession _ | .dequeue _ | .removeTrack .. | .restart _ =>
    .isTrue trivial

/-! ## A queued track without its file -/

/-- The id of a video. -/
def video (i : Nat) : String := "dQw4w9WgX" ++ toString (i + 10)

def videoRow (i : Nat) : Track :=
  ⟨i + 1, source, video i, "Title", "Artist", 180, downloadPath "/music" (video i), 0,
    albumArtURL (video i), 1000 - i⟩

/-- The rows of fifty videos, the most recently used first. -/
def fiftyVideos : List Track := (List.range 50).map videoRow

def fiftyRows : TracksTable where
  rows := fiftyVideos
  nextID := 51
  ids := by decide +kernel
  fresh := by decide +kernel
  unique := by decide +kernel

/-- The call 0 finds the least recently used video in the cache, and its file.
Then the other videos are looked up, for requests that come to nothing. The
call 50 adds a new video, whose `Touch` evicts one. After that the call 0 goes
on and enqueues its track. -/
def evictingRun : List Action :=
  [.createSession "party" none, .request "party" (video 49), .get 0, .stat 0] ++
  ((List.range 49).flatMap fun i => [.request "lobby" (video i), .get (i + 1)]) ++
  [.request "party" (video 50), .get 50, .download 50 true,
    .getTrack 50 (some ⟨"Title", "Artist", 180⟩) true, .createTrack 50 true 2000,
    .readBack 50 true, .getQueue 50, .enqueue 50, .inUseTrackIDs 50,
    .touchLastUsed 50 true 2001, .touch 50, .getQueue 0, .enqueue 0]

/-- The window is full, and of the files only the one that matters is there. -/
def fullWindow : State := .start 50 fiftyRows {(videoRow 49).filePath} fiftyVideos

theorem fullWindow_started : Started (downloadPath "/music") fullWindow := by
  refine ⟨50, fiftyRows, _, fiftyVideos, ?_, ⟨List.Perm.refl _, by decide +kernel⟩, rfl⟩
  intro r hr
  obtain ⟨i, -, rfl⟩ := List.mem_map.mp hr
  exact ⟨rfl, rfl⟩

set_option maxRecDepth 4000 in
/-- A video at the end of a full window is asked for. Before its track is
queued, its file is gone. -/
theorem queued_without_file :
    ∃ s, Reachable (addTrackSystem (downloadPath "/music")) s ∧
      videoRow 49 ∈ s.manager.queuedTracks ∧ ¬ QueuedFilesExist s := by
  obtain ⟨s, hs, hp⟩ := Reachable.of_run (S := addTrackSystem (downloadPath "/music"))
    (p := fun s => decide (videoRow 49 ∈ s.manager.queuedTracks ∧
      (videoRow 49).filePath ∉ s.files))
    evictingRun fullWindow_started (by decide +kernel)
  obtain ⟨hq, hf⟩ := of_decide_eq_true hp
  exact ⟨s, hs, hq, fun h => hf (h _ hq)⟩

/-! ## The invariant -/

/-- Not only queued tracks have their files. -/
def NeededFilesExist (path : String → String) (s : State) : Prop :=
  ∀ p, Needed path s p → p ∈ s.files

namespace QueuedFilesLemmas

/-- A queue whose tracks change to tracks it had and tracks with `P`. -/
theorem queuedTracks_setQueue {m : SessionManager Track} {q : QueueRef}
    {qu qu' : SessionQueue Track} {P : Track → Prop} (hq : m.queues[q]? = some qu)
    (hsub : ∀ x ∈ qu'.tracks, x ∈ qu.tracks ∨ P x) :
    ∀ x ∈ (m.setQueue q qu').queuedTracks, x ∈ m.queuedTracks ∨ P x := by
  intro x hx
  obtain ⟨id, r, ru, hl, hr, hx⟩ := SessionManager.mem_queuedTracks.mp hx
  change m.sessions.lookup id = some r at hl
  change (m.queues.set q qu')[r]? = some ru at hr
  by_cases he : q = r
  · subst he
    rw [List.getElem?_set_self (List.getElem?_eq_some_iff.mp hq).1] at hr
    cases hr
    exact (hsub x hx).imp_left fun hx =>
      SessionManager.mem_queuedTracks.mpr ⟨id, q, qu, hl, hq, hx⟩
  · rw [List.getElem?_set_ne he] at hr
    exact .inl (SessionManager.mem_queuedTracks.mpr ⟨id, r, ru, hl, hr, hx⟩)

/-- A queue that only loses tracks. -/
theorem queuedTracks_sublist {m : SessionManager Track} {q : QueueRef}
    {qu qu' : SessionQueue Track} (hq : m.queues[q]? = some qu)
    (hsub : qu'.tracks.Sublist qu.tracks) :
    ∀ x ∈ (m.setQueue q qu').queuedTracks, x ∈ m.queuedTracks := by
  intro x hx
  have hsub' : ∀ y ∈ qu'.tracks, y ∈ qu.tracks ∨ False := fun y hy => .inl (hsub.subset hy)
  exact (queuedTracks_setQueue hq hsub' x hx).resolve_right id

/-- A new session has an empty queue. -/
theorem queuedTracks_register {m : SessionManager Track} {id : SessionID}
    {archiveID : Option Int} :
    ∀ x ∈ (m.register id archiveID).queuedTracks, x ∈ m.queuedTracks := by
  intro x hx
  obtain ⟨id', q, qu, hl, hq, hx⟩ := SessionManager.mem_queuedTracks.mp hx
  change (m.queues ++ [_])[q]? = some qu at hq
  by_cases he : id' = id
  · subst he
    rw [SessionManager.register_lookup] at hl
    cases hl
    rw [List.getElem?_concat_length] at hq
    cases hq
    cases hx
  · rw [SessionManager.register_lookup_ne _ _ he] at hl
    rw [List.getElem?_append_left (m.allocated id' q hl)] at hq
    exact SessionManager.mem_queuedTracks.mpr ⟨id', q, qu, hl, hq, hx⟩

theorem queuedTracks_delete {m : SessionManager Track} {id : SessionID} :
    ∀ x ∈ (m.deleteSession id).queuedTracks, x ∈ m.queuedTracks := by
  intro x hx
  obtain ⟨id', q, qu, hl, hq, hx⟩ := SessionManager.mem_queuedTracks.mp hx
  exact SessionManager.mem_queuedTracks.mpr
    ⟨id', q, qu, (SessionManager.lookup_of_deleteSession hl).2, hq, hx⟩

/-- A step that removes no file: what it needs was needed or is there. -/
theorem needed_frame {path : String → String} {s t : State} (hinv : NeededFilesExist path s)
    (hqueued : ∀ x ∈ t.manager.queuedTracks, Needed path s x.filePath)
    (hheld : ∀ c ∈ t.calls, ∀ p, c.phase.holds path = some p → Needed path s p ∨ p ∈ t.files)
    (hfiles : ∀ p ∈ s.files, p ∈ t.files) : NeededFilesExist path t := by
  rintro p (⟨x, hx, rfl⟩ | ⟨c, hc, hp⟩)
  · exact hfiles _ (hinv _ (hqueued x hx))
  · rcases hheld c hc p hp with h | h
    · exact hfiles p (hinv p h)
    · exact h

theorem needed_of_queued {path : String → String} {s : State} {x : Track}
    (h : x ∈ s.manager.queuedTracks) : Needed path s x.filePath := .inl ⟨x, h, rfl⟩

theorem needed_of_call {path : String → String} {s : State} {n : Nat} {sid : SessionID}
    {ph : Phase} {p : String} (hc : s.calls[n]? = some ⟨sid, ph⟩) (hp : ph.holds path = some p) :
    Needed path s p :=
  .inr ⟨⟨sid, ph⟩, List.mem_of_getElem? hc, hp⟩

/-- A step of the call `n` alone. -/
theorem needed_move {path : String → String} {s t : State} (hinv : NeededFilesExist path s)
    {n : Nat} {c : Call} (hcalls : t.calls = s.calls.set n c) (hmanager : t.manager = s.manager)
    (hc : ∀ p, c.phase.holds path = some p → Needed path s p ∨ p ∈ t.files)
    (hfiles : ∀ p ∈ s.files, p ∈ t.files) : NeededFilesExist path t := by
  refine needed_frame hinv (fun x hx => needed_of_queued (hmanager ▸ hx)) ?_ hfiles
  intro c' hc' p hp
  rw [hcalls] at hc'
  rcases List.mem_or_eq_of_mem_set hc' with hc' | rfl
  · exact .inl (.inr ⟨c', hc', hp⟩)
  · exact hc p hp

/-- A call that moves on with the file that it held, or with none. -/
theorem needed_pass {path : String → String} {s t : State} (hinv : NeededFilesExist path s)
    {n : Nat} {sid : SessionID} {ph : Phase} {c : Call} (hc : s.calls[n]? = some ⟨sid, ph⟩)
    (hcalls : t.calls = s.calls.set n c) (hmanager : t.manager = s.manager)
    (hfiles : t.files = s.files)
    (hkeep : ∀ p, c.phase.holds path = some p → ph.holds path = some p) :
    NeededFilesExist path t :=
  needed_move hinv hcalls hmanager (fun p hp => .inl (needed_of_call hc (hkeep p hp)))
    fun _ hp => hfiles ▸ hp

/-- A step of the registry and the queues alone. -/
theorem needed_manager {path : String → String} {s t : State} (hinv : NeededFilesExist path s)
    (hqueued : ∀ x ∈ t.manager.queuedTracks, x ∈ s.manager.queuedTracks)
    (hcalls : t.calls = s.calls) (hfiles : t.files = s.files) : NeededFilesExist path t := by
  refine needed_frame hinv (fun x hx => needed_of_queued (hqueued x hx)) ?_
    fun p hp => hfiles ▸ hp
  intro c hc p hp
  exact .inl (.inr ⟨c, hcalls ▸ hc, hp⟩)

/-- The eviction removes no file that is needed after it. -/
theorem needed_touch {path : String → String} {s t : State} {n : Nat} (hst : Stored path s)
    (hinv : NeededFilesExist path s) (hg : TouchSparesNeeded path s (.touch n))
    (h : s.touch n = some t) : NeededFilesExist path t := by
  obtain ⟨sid, x, inUse, dl, hc, rfl⟩ := State.touch_eq_some h
  have hspares : Spares path s inUse (promote Track.id x s.cache.tracks) := hg _ hc
  have hx : Snapshot s.db x := SnapshotsLemmas.held_of_call hst hc rfl
  obtain ⟨-, hgone, -⟩ := Cache.touch_tracks hst.valid (SnapshotsLemmas.stored_agrees hst hx) inUse
  have hspared : ∀ p, Needed path s p → p ∉ (s.cache.touch x inUse).2.map Track.filePath := by
    intro p hp hmem
    obtain ⟨w, hw, rfl⟩ := List.mem_map.mp hmem
    rw [hgone] at hw
    rcases hspares w (mem_evict_or_evicted.mpr (.inr hw)) hp with hused | hbehind
    · have hnot : Cache.used inUse w = false := not_used_of_evicted hw
      exact of_decide_eq_false hnot hused
    · exact absurd (behind_of_evicted Track.id hw) (Nat.not_lt.mpr hbehind)
  intro p hp
  have hp' : Needed path s p := by
    rcases hp with hp | ⟨c, hc', hp⟩
    · exact .inl hp
    · rcases List.mem_or_eq_of_mem_set hc' with hc' | rfl
      · exact .inr ⟨c, hc', hp⟩
      · cases hp
  exact Finset.mem_filter.mpr ⟨hinv p hp', by simpa using hspared p hp'⟩

end QueuedFilesLemmas

open QueuedFilesLemmas

theorem needed_step {path : String → String} {s t : State} {a : Action} (hst : Stored path s)
    (hinv : NeededFilesExist path s) (hg : TouchSparesNeeded path s a)
    (h : s.step path a = some t) : NeededFilesExist path t := by
  cases a with
  | request sid id =>
    cases h
    refine needed_frame hinv (fun x hx => needed_of_queued hx) ?_ fun p hp => hp
    intro c hc p hp
    rcases List.mem_append.mp hc with hc | hc
    · exact .inl (.inr ⟨c, hc, hp⟩)
    · cases List.mem_singleton.mp hc
      cases hp
  | get n =>
    obtain ⟨sid, id, hc, ⟨x, c, -, rfl⟩ | ⟨-, rfl⟩⟩ := State.get_eq_some h
    · exact needed_pass hinv hc rfl rfl rfl nofun
    · exact needed_pass hinv hc rfl rfl rfl nofun
  | stat n =>
    obtain ⟨sid, id, x, hc, ⟨hf, rfl⟩ | rfl⟩ := State.stat_eq_some h
    · refine needed_move hinv rfl rfl ?_ fun p hp => hp
      intro p hp
      cases hp
      exact .inr hf
    · exact needed_pass hinv hc rfl rfl rfl nofun
  | download n ok =>
    obtain ⟨sid, id, hc, ⟨-, rfl⟩ | ⟨-, rfl⟩⟩ := State.download_eq_some h
    · refine needed_move hinv rfl rfl ?_ fun p hp => Finset.mem_insert_of_mem hp
      intro p hp
      cases hp
      exact .inr (Finset.mem_insert_self _ _)
    · exact needed_pass hinv hc rfl rfl rfl nofun
  | getTrack n data ok =>
    obtain ⟨sid, id, hc, ⟨-, rfl⟩ | ⟨x, hx, rfl⟩ | ⟨data', rfl⟩⟩ := State.getTrack_eq_some h
    · exact needed_pass hinv hc rfl rfl rfl nofun
    · -- the row of the video has the path of the download
      obtain ⟨hrow, hsource⟩ := State.fetch_eq_some hx
      have hpath : x.filePath = path id := hsource ▸ (hst.own x hrow).2
      exact needed_pass hinv hc rfl rfl rfl fun _ hp => (congrArg some hpath).symm.trans hp
    · exact needed_pass hinv hc rfl rfl rfl fun p hp => hp
  | updateArt n ok =>
    obtain ⟨sid, x, hc, rfl | ⟨-, rfl⟩⟩ := State.updateArt_eq_some h
    · exact needed_pass hinv hc rfl rfl rfl fun p hp => hp
    · exact needed_pass hinv hc rfl rfl rfl nofun
  | createTrack n ok now =>
    obtain ⟨sid, id, data, hc, ⟨db, -, rfl⟩ | ⟨-, rfl⟩⟩ := State.createTrack_eq_some h
    · exact needed_pass hinv hc rfl rfl rfl fun p hp => hp
    · exact needed_pass hinv hc rfl rfl rfl nofun
  | readBack n ok =>
    obtain ⟨sid, id, hc, ⟨x, hx, rfl⟩ | ⟨-, rfl⟩⟩ := State.readBack_eq_some h
    · obtain ⟨hrow, hsource⟩ := State.fetch_eq_some hx
      have hpath : x.filePath = path id := hsource ▸ (hst.own x hrow).2
      exact needed_pass hinv hc rfl rfl rfl fun _ hp => (congrArg some hpath).symm.trans hp
    · exact needed_pass hinv hc rfl rfl rfl nofun
  | getQueue n =>
    obtain ⟨sid, x, dl, hc, ⟨q, rfl⟩ | ⟨-, rfl⟩⟩ := State.getQueue_eq_some h
    · exact needed_pass hinv hc rfl rfl rfl fun p hp => hp
    · exact needed_pass hinv hc rfl rfl rfl nofun
  | enqueue n =>
    obtain ⟨sid, x, q, dl, qu, hc, hq, ⟨qu', hqu, rfl⟩ | ⟨-, rfl⟩⟩ := State.enqueue_eq_some h
    · -- the track that was held is queued now
      have hneeded : Needed path s x.filePath := needed_of_call hc rfl
      have hsub : ∀ y ∈ qu'.wake.tracks, y ∈ qu.tracks ∨ y = x := by
        intro y hy
        change y ∈ qu'.tracks at hy
        rw [(SessionQueue.enqueue_eq_ok hqu).2.1] at hy
        exact (List.mem_append.mp hy).imp_right List.mem_singleton.mp
      refine needed_frame hinv ?_ ?_ fun p hp => hp
      · intro y hy
        rcases queuedTracks_setQueue hq hsub y hy with hy | rfl
        · exact needed_of_queued hy
        · exact hneeded
      · intro c' hc' p hp
        rcases List.mem_or_eq_of_mem_set hc' with hc' | rfl
        · exact .inl (.inr ⟨c', hc', hp⟩)
        · cases hp
    · exact needed_pass hinv hc rfl rfl rfl nofun
  | inUseTrackIDs n =>
    obtain ⟨sid, x, dl, hc, rfl⟩ := State.inUseTrackIDs_eq_some h
    exact needed_pass hinv hc rfl rfl rfl nofun
  | touchLastUsed n ok now =>
    obtain ⟨sid, x, inUse, dl, hc, rfl | ⟨-, rfl⟩⟩ := State.touchLastUsed_eq_some h
    · exact needed_pass hinv hc rfl rfl rfl nofun
    · exact needed_pass hinv hc rfl rfl rfl nofun
  | touch n => exact needed_touch hst hinv hg h
  | createSession id archiveID =>
    rcases State.createSession_eq_some h with rfl | ⟨-, rfl⟩
    · exact hinv
    · exact needed_manager hinv queuedTracks_register rfl rfl
  | deleteSession id => cases h; exact needed_manager hinv queuedTracks_delete rfl rfl
  | dequeue q =>
    obtain ⟨qu, x, qu', hq, hd, rfl⟩ := State.dequeue_eq_some h
    exact needed_manager hinv (queuedTracks_sublist hq (SessionQueue.dequeue_sublist hd)) rfl rfl
  | removeTrack q index =>
    rcases State.removeTrack_eq_some h with rfl | ⟨qu, qu', hq, hr, rfl⟩
    · exact hinv
    · exact needed_manager hinv (queuedTracks_sublist hq (SessionQueue.remove_sublist hr)) rfl rfl
  | restart listing =>
    obtain ⟨-, rfl⟩ := State.restart_eq_some h
    rintro p (⟨x, hx, -⟩ | ⟨c, hc, -⟩)
    · cases hx
    · cases hc

/-- In every run in which each `Touch` finds the tracks that are queued or
about to be among those in use, or with enough unused tracks behind them, every
queued track has its file. -/
theorem queued_files_exist {path : String → String} {s : State}
    (h : Reach (addTrackSystem path) (TouchSparesNeeded path) s) : QueuedFilesExist s := by
  have hinv : NeededFilesExist path s := by
    refine h.invariant (I := NeededFilesExist path) ?_ ?_
    · rintro _ ⟨maxSessions, db, files, listing, -, -, rfl⟩ p (⟨x, hx, -⟩ | ⟨c, hc, -⟩)
      · cases hx
      · cases hc
    · exact fun _ _ _ hr hi hg hs => needed_step (stored_reachable hr.reachable) hi hg hs
  exact fun x hx => hinv _ (needed_of_queued hx)

/-- The least recently used video is queued. Then the other videos are looked up,
so that it is the last of a full window again, and a new video is added. -/
def sparingRun : List Action :=
  [.createSession "party" none, .request "party" (video 49), .get 0, .stat 0, .getQueue 0,
    .enqueue 0, .inUseTrackIDs 0, .touchLastUsed 0 true 2000, .touch 0] ++
  ((List.range 49).flatMap fun i => [.request "lobby" (video i), .get (i + 1)]) ++
  [.request "party" (video 50), .get 50, .download 50 true,
    .getTrack 50 (some ⟨"Title", "Artist", 180⟩) true, .createTrack 50 true 2001,
    .readBack 50 true, .getQueue 50, .enqueue 50, .inUseTrackIDs 50,
    .touchLastUsed 50 true 2002, .touch 50]

set_option maxRecDepth 4000 in
/-- The `Touch` of the new video evicts the last one that is not in use. -/
theorem queued_files_exist_first :
    ∃ s : State, s.manager.queuedTracks.map Track.sourceID = [video 49, video 50] ∧
      s.cache.tracks.map Track.sourceID =
        video 50 :: ((List.range 48).map fun i => video (48 - i)) ++ [video 49] ∧
      QueuedFilesExist s := by
  obtain ⟨s, hs, hp⟩ := Reach.of_guardedRun (S := addTrackSystem (downloadPath "/music"))
    (C := TouchSparesNeeded (downloadPath "/music"))
    (p := fun s : State => decide (
      s.manager.queuedTracks.map Track.sourceID = [video 49, video 50] ∧
      s.cache.tracks.map Track.sourceID =
        video 50 :: ((List.range 48).map fun i => video (48 - i)) ++ [video 49]))
    sparingRun fullWindow_started (by decide +kernel)
  obtain ⟨hqueued, htracks⟩ := of_decide_eq_true hp
  exact ⟨s, hqueued, htracks, queued_files_exist hs⟩

end RadioJockey.AddTrack
