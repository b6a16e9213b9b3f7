import RadioJockey.Snapshots

/-!
# The files on disk and the window

A download creates its file, and only the `Touch` at the end of the call puts
the track into the window. Every exit in between leaves a file that no eviction
will ever find, and so can a restart, which keeps the first rows of the
database and not the window.

1. `file_without_window`: a track is downloaded for an unknown session.
2. `files_accounted`: when no call is in flight, every file belongs to a track
   in the window, in every run in which a call with a downloaded file exits
   before its `Touch` only if the window or another call answers for the file,
   and a restart finds the tracks whose files exist among the first rows.
-/

namespace RadioJockey.AddTrack

open Transition Lru

/-- The file that a call has downloaded and not yet put into the window. -/
def Phase.pending (path : String → String) : Phase → Option String
  | .downloaded id | .creating id _ | .created id => some (path id)
  | .updating t | .found t true | .queueing t _ true | .enqueued t true
  | .touching t _ true | .touched t _ true => some t.filePath
  | _ => none

def InWindow (s : State) (p : String) : Prop :=
  ∃ t ∈ s.cache.tracks, t.filePath = p

instance (s : State) (p : String) : Decidable (InWindow s p) :=
  inferInstanceAs (Decidable (∃ t ∈ s.cache.tracks, _))

/-- No `AddTrack` is in flight. -/
def Quiet (s : State) : Prop :=
  ∀ c ∈ s.calls, ∃ r, c.phase = .returned r

def FilesAccounted (s : State) : Prop :=
  Quiet s → ∀ p ∈ s.files, InWindow s p

/-! ## The guard -/

/-- The call that the action ends before its `Touch` has updated the window:
the tags cannot be read, a statement fails, the session is unknown, its queue
is full. -/
def State.exitsEarly (path : String → String) (s : State) : Action → Option Nat
  | .getTrack n none _ => some n
  | .updateArt n false => some n
  | .createTrack n ok now =>
    match s.calls[n]? with
    | some ⟨_, .creating id data⟩ =>
      if (s.insertRow path id data ok now).isNone then some n else none
    | _ => none
  | .readBack n ok =>
    match s.calls[n]? with
    | some ⟨_, .created id⟩ => if (s.fetch id ok).isNone then some n else none
    | _ => none
  | .getQueue n =>
    match s.calls[n]? with
    | some ⟨sid, .found _ _⟩ =>
      if (s.manager.sessions.lookup sid).isNone then some n else none
    | _ => none
  | .enqueue n =>
    match s.calls[n]? with
    | some ⟨_, .queueing _ q _⟩ =>
      if (s.manager.queues[q]?).any fun qu => maxQueueSize ≤ qu.tracks.length then some n
      else none
    | _ => none
  | .touchLastUsed n false _ => some n
  | _ => none

/-- The window or another call answers for the file that the call has
downloaded, if it is still there. -/
def Covered (path : String → String) (s : State) (n : Nat) : Prop :=
  ∀ c ∈ s.calls[n]?, ∀ p ∈ c.phase.pending path, p ∈ s.files →
    InWindow s p ∨ ∃ c' ∈ s.calls.eraseIdx n, c'.phase.pending path = some p

/-- The first rows of the listing include those of the window and of the
downloads in flight, as far as their files exist. -/
def RestartKeeps (path : String → String) (s : State) (listing : List Track) : Prop :=
  (∀ t ∈ s.cache.tracks, t.filePath ∈ s.files → ∃ r ∈ listing.take cacheWindow, r.id = t.id) ∧
  ∀ c ∈ s.calls, ∀ p ∈ c.phase.pending path, p ∈ s.files →
    ∃ r ∈ listing.take cacheWindow, r.filePath = p

/-- The guard of `files_accounted`. -/
def NoFileLost (path : String → String) (s : State) (a : Action) : Prop :=
  (∀ n ∈ s.exitsEarly path a, Covered path s n) ∧
  match a with
  | .restart listing => RestartKeeps path s listing
  | _ => True

instance (path : String → String) (s : State) (n : Nat) : Decidable (Covered path s n) :=
  inferInstanceAs (Decidable (∀ c ∈ s.calls[n]?, ∀ p ∈ c.phase.pending path, _))

instance (path : String → String) (s : State) (listing : List Track) :
    Decidable (RestartKeeps path s listing) :=
  inferInstanceAs (Decidable (_ ∧ _))

instance (path : String → String) (s : State) (a : Action) : Decidable (NoFileLost path s a) := by
  unfold NoFileLost
  cases a <;> dsimp only <;> infer_instance

/-- The server, started with a disk on which every file belongs to the window. -/
def accountedSystem (path : String → String) : System State Action where
  init := fun s => Started path s ∧ ∀ p ∈ s.files, InWindow s p
  step := State.step path

/-- The first track of a new server is added to a session that does not exist.
The call fails after the download, and its file stays for good. -/
theorem file_without_window :
    ∃ s, Reachable (accountedSystem (downloadPath "/music")) s ∧
      (s.calls.map Call.phase = [.returned (.error .notFound)]) ∧
      s.files = {downloadPath "/music" "dQw4w9WgXcQ"} ∧ s.cache.tracks = [] ∧
      ¬ FilesAccounted s := by
  obtain ⟨s, hs, hp⟩ := Reachable.of_run (S := accountedSystem (downloadPath "/music"))
    (p := fun s => decide (s.calls.map Call.phase = [.returned (.error .notFound)] ∧
      s.files = {downloadPath "/music" "dQw4w9WgXcQ"} ∧ s.cache.tracks = []))
    [.request "ghost" "dQw4w9WgXcQ", .get 0, .download 0 true,
      .getTrack 0 (some ⟨"Title", "Artist", 213⟩) true, .createTrack 0 true 1000,
      .readBack 0 true, .getQueue 0]
    (show _ ∧ _ from ⟨⟨50, .empty, ∅, [], nofun, ⟨List.Perm.refl _, List.Pairwise.nil⟩, rfl⟩,
      nofun⟩)
    (by decide +kernel)
  obtain ⟨hcalls, hfiles, hwindow⟩ := of_decide_eq_true hp
  refine ⟨s, hs, hcalls, hfiles, hwindow, fun h => ?_⟩
  have hquiet : Quiet s := by
    intro c hc
    have := List.mem_map_of_mem (f := Call.phase) hc
    rw [hcalls] at this
    exact ⟨_, List.mem_singleton.mp this⟩
  obtain ⟨t, ht, -⟩ := h hquiet (downloadPath "/music" "dQw4w9WgXcQ") (by simp [hfiles])
  rw [hwindow] at ht
  cases ht

/-! ## The invariant -/

/-- Every file is answered for by the window or by a call. -/
def FilesInv (path : String → String) (s : State) : Prop :=
  ∀ p ∈ s.files, InWindow s p ∨ ∃ c ∈ s.calls, c.phase.pending path = some p

namespace DiskAccountingLemmas

/-- A step of the call `n` from `c₀` to `c`. What `c₀` answered for, `c`, the
window or another call answers for now. -/
theorem filesInv_move {path : String → String} {s t : State} (hinv : FilesInv path s) {n : Nat}
    {c₀ c : Call} (hc₀ : s.calls[n]? = some c₀) (hcalls : t.calls = s.calls.set n c)
    (hwindow : ∀ p ∈ t.files, InWindow s p → InWindow t p)
    (hfiles : ∀ p ∈ t.files, p ∈ s.files ∨ c.phase.pending path = some p)
    (hpending : ∀ p ∈ t.files, p ∈ s.files → c₀.phase.pending path = some p →
      c.phase.pending path = some p ∨ InWindow t p ∨
        ∃ c' ∈ s.calls.eraseIdx n, c'.phase.pending path = some p) : FilesInv path t := by
  have hlt : n < s.calls.length := (List.getElem?_eq_some_iff.mp hc₀).1
  have hself : c ∈ t.calls := hcalls ▸ List.mem_set hlt c
  have hother : ∀ i c', i ≠ n → s.calls[i]? = some c' → c' ∈ t.calls := by
    intro i c' hi hc'
    refine List.mem_of_getElem? (i := i) ?_
    rw [hcalls, List.getElem?_set_ne hi.symm, hc']
  intro p hp
  rcases hfiles p hp with hs | hnew
  · rcases hinv p hs with hw | ⟨c', hc', hp'⟩
    · exact .inl (hwindow p hp hw)
    · obtain ⟨i, hi⟩ := List.mem_iff_getElem?.mp hc'
      by_cases he : i = n
      · subst he
        rw [hc₀] at hi
        cases hi
        rcases hpending p hp hs hp' with h | h | ⟨c'', hc'', h⟩
        · exact .inr ⟨c, hself, h⟩
        · exact .inl h
        · obtain ⟨j, hj, hjc⟩ := List.mem_eraseIdx_iff_getElem?.mp hc''
          exact .inr ⟨c'', hother j c'' hj hjc, h⟩
      · exact .inr ⟨c', hother i c' he hi, hp'⟩
  · exact .inr ⟨c, hself, hnew⟩

/-- A step of the call that changes neither files nor window, and hands the
file on. -/
theorem filesInv_phase {path : String → String} {s t : State} (hinv : FilesInv path s) {n : Nat}
    {sid : SessionID} {p₀ p₁ : Phase} (hc : s.calls[n]? = some ⟨sid, p₀⟩)
    (hcalls : t.calls = s.calls.set n ⟨sid, p₁⟩) (hcache : t.cache = s.cache)
    (hfiles : t.files = s.files)
    (hpending : ∀ p, p₀.pending path = some p → p₁.pending path = some p) : FilesInv path t := by
  refine filesInv_move hinv hc hcalls ?_ (fun p hp => .inl (hfiles ▸ hp))
    fun p _ _ hp => .inl (hpending p hp)
  intro p _ hw
  unfold InWindow
  rw [hcache]
  exact hw

/-- The call returns before its `Touch`. -/
theorem filesInv_exit {path : String → String} {s t : State} (hinv : FilesInv path s) {n : Nat}
    {c₀ c : Call} (hc : s.calls[n]? = some c₀) (hcovered : Covered path s n)
    (hcalls : t.calls = s.calls.set n c) (hcache : t.cache = s.cache)
    (hfiles : t.files = s.files) : FilesInv path t := by
  have hwindow : ∀ p, InWindow s p → InWindow t p := by
    intro p hw
    unfold InWindow
    rw [hcache]
    exact hw
  refine filesInv_move hinv hc hcalls (fun p _ => hwindow p) (fun p hp => .inl (hfiles ▸ hp)) ?_
  intro p _ hs hp
  exact .inr ((hcovered c₀ hc p hp hs).imp_left (hwindow p))

/-- The same for a call that has downloaded nothing. -/
theorem filesInv_idle {path : String → String} {s t : State} (hinv : FilesInv path s) {n : Nat}
    {sid : SessionID} {p₀ p₁ : Phase} (hc : s.calls[n]? = some ⟨sid, p₀⟩)
    (hnone : p₀.pending path = none) (hcalls : t.calls = s.calls.set n ⟨sid, p₁⟩)
    (hcache : t.cache = s.cache) (hfiles : t.files = s.files) : FilesInv path t :=
  filesInv_phase hinv hc hcalls hcache hfiles fun p hp => by rw [hnone] at hp; cases hp

theorem filesInv_frame {path : String → String} {s t : State} (hinv : FilesInv path s)
    (hcalls : t.calls = s.calls) (hcache : t.cache = s.cache) (hfiles : t.files = s.files) :
    FilesInv path t := by
  intro p hp
  unfold InWindow
  rw [hcalls, hcache]
  exact hinv p (hfiles ▸ hp)

/-- A promoted track stands for every track of the window with its id. -/
theorem inWindow_promote {path : String → String} {s : State} (hst : Stored path s) {x : Track}
    (hx : Snapshot s.db x) {p : String} (h : InWindow s p) :
    ∃ w ∈ promote Track.id x s.cache.tracks, w.filePath = p := by
  obtain ⟨w, hw, rfl⟩ := h
  by_cases he : w.id = x.id
  · refine ⟨x, mem_promote.mpr (.inl rfl), ?_⟩
    exact ((SnapshotsLemmas.snapshot_agrees hst.own (hst.window w hw) hx).2 he).symm
  · exact ⟨w, mem_promote.mpr (.inr ⟨hw, he⟩), rfl⟩

theorem filesInv_get {path : String → String} {s t : State} {n : Nat} (hst : Stored path s)
    (hinv : FilesInv path s) (h : s.get n = some t) : FilesInv path t := by
  obtain ⟨sid, id, hc, ⟨x, c, hg, rfl⟩ | ⟨-, rfl⟩⟩ := State.get_eq_some h
  · obtain ⟨hx, -, ht, -⟩ := Cache.get_eq_some hst.valid hg
    refine filesInv_move hinv hc rfl ?_ (fun p hp => .inl hp) nofun
    intro p _ hw
    obtain ⟨w, hw, hp⟩ := inWindow_promote hst (hst.window x hx) hw
    exact ⟨w, ht ▸ hw, hp⟩
  · exact filesInv_idle hinv hc rfl rfl rfl rfl

/-- What the eviction takes out of the window it takes off the disk. -/
theorem filesInv_touch {path : String → String} {s t : State} {n : Nat} (hst : Stored path s)
    (hinv : FilesInv path s) (h : s.touch n = some t) : FilesInv path t := by
  obtain ⟨sid, x, inUse, dl, hc, rfl⟩ := State.touch_eq_some h
  have hx : Snapshot s.db x := SnapshotsLemmas.held_of_call hst hc rfl
  obtain ⟨ht, hgone, -⟩ := Cache.touch_tracks hst.valid (SnapshotsLemmas.stored_agrees hst hx) inUse
  have hkept : ∀ p ∈ s.files.filter fun p => p ∉ (s.cache.touch x inUse).2.map Track.filePath,
      ∀ w ∈ promote Track.id x s.cache.tracks, w.filePath = p →
        ∃ w ∈ (s.cache.touch x inUse).1.tracks, w.filePath = p := by
    rintro p hp w hw rfl
    rcases mem_evict_or_evicted.mp hw with hw | hw
    · exact ⟨w, ht ▸ hw, rfl⟩
    · have hmem : w.filePath ∈ (s.cache.touch x inUse).2.map Track.filePath :=
        List.mem_map_of_mem (hgone ▸ hw)
      exact absurd hmem (of_decide_eq_true (by simpa using (Finset.mem_filter.mp hp).2))
  refine filesInv_move hinv hc rfl ?_ (fun p hp => .inl (Finset.mem_filter.mp hp).1) ?_
  · intro p hp hw
    obtain ⟨w, hw, he⟩ := inWindow_promote hst hx hw
    exact hkept p hp w hw he
  · -- the call's own file is that of the promoted track
    intro p hp _ hpend
    refine .inr (.inl (hkept p hp x (mem_promote.mpr (.inl rfl)) ?_))
    cases dl
    · cases hpend
    · exact Option.some.inj hpend

theorem filesInv_restart {path : String → String} {s t : State} {listing : List Track}
    (hst : Stored path s) (hinv : FilesInv path s) (hg : RestartKeeps path s listing)
    (h : s.restart listing = some t) : FilesInv path t := by
  obtain ⟨hl, rfl⟩ := State.restart_eq_some h
  have htracks := (SnapshotsLemmas.stored_start s.manager.maxSessions s.files hst.own hl).2
  intro p hp
  refine .inl ?_
  show ∃ t ∈ (Cache.newCache listing).tracks, t.filePath = p
  rw [htracks]
  rcases hinv p hp with ⟨w, hw, rfl⟩ | ⟨c, hc, hpend⟩
  · obtain ⟨r, hr, hid⟩ := hg.1 w hw hp
    have hrow : Snapshot s.db r :=
      SnapshotsLemmas.snapshot_of_mem (hl.1.subset (List.mem_of_mem_take hr))
    exact ⟨r, hr, (SnapshotsLemmas.snapshot_agrees hst.own hrow (hst.window w hw)).2 hid⟩
  · exact hg.2 c hc p hpend hp

end DiskAccountingLemmas

open DiskAccountingLemmas

theorem filesInv_step {path : String → String} {s t : State} {a : Action} (hst : Stored path s)
    (hinv : FilesInv path s) (hg : NoFileLost path s a) (h : s.step path a = some t) :
    FilesInv path t := by
  cases a with
  | request sid id =>
    cases h
    intro p hp
    refine (hinv p hp).imp_right ?_
    rintro ⟨c, hc, hpend⟩
    exact ⟨c, List.mem_append_left _ hc, hpend⟩
  | get n => exact filesInv_get hst hinv h
  | stat n =>
    obtain ⟨sid, id, x, hc, ⟨-, rfl⟩ | rfl⟩ := State.stat_eq_some h
    · exact filesInv_idle hinv hc rfl rfl rfl rfl
    · exact filesInv_idle hinv hc rfl rfl rfl rfl
  | download n ok =>
    obtain ⟨sid, id, hc, ⟨-, rfl⟩ | ⟨-, rfl⟩⟩ := State.download_eq_some h
    · refine filesInv_move hinv hc rfl (fun p _ hw => hw) ?_ nofun
      intro p hp
      rcases Finset.mem_insert.mp hp with rfl | hp
      · exact .inr rfl
      · exact .inl hp
    · exact filesInv_idle hinv hc rfl rfl rfl rfl
  | getTrack n data ok =>
    obtain ⟨sid, id, hc, ⟨rfl, rfl⟩ | ⟨x, hx, rfl⟩ | ⟨data', rfl⟩⟩ := State.getTrack_eq_some h
    · exact filesInv_exit hinv hc (hg.1 n rfl) rfl rfl rfl
    · obtain ⟨hrow, hsource⟩ := State.fetch_eq_some hx
      have hpath : x.filePath = path id := hsource ▸ (hst.own x hrow).2
      exact filesInv_phase hinv hc rfl rfl rfl fun p hp => (congrArg some hpath).trans hp
    · exact filesInv_phase hinv hc rfl rfl rfl fun p hp => hp
  | updateArt n ok =>
    obtain ⟨sid, x, hc, rfl | ⟨rfl, rfl⟩⟩ := State.updateArt_eq_some h
    · exact filesInv_phase hinv hc rfl rfl rfl fun p hp => hp
    · exact filesInv_exit hinv hc (hg.1 n rfl) rfl rfl rfl
  | createTrack n ok now =>
    obtain ⟨sid, id, data, hc, ⟨db, -, rfl⟩ | ⟨hnone, rfl⟩⟩ := State.createTrack_eq_some h
    · exact filesInv_phase hinv hc rfl rfl rfl fun p hp => hp
    · have hexit : s.exitsEarly path (.createTrack n ok now) = some n := by
        simp only [State.exitsEarly, hc, hnone, Option.isNone_none, if_true]
      exact filesInv_exit hinv hc (hg.1 n hexit) rfl rfl rfl
  | readBack n ok =>
    obtain ⟨sid, id, hc, ⟨x, hx, rfl⟩ | ⟨hnone, rfl⟩⟩ := State.readBack_eq_some h
    · obtain ⟨hrow, hsource⟩ := State.fetch_eq_some hx
      have hpath : x.filePath = path id := hsource ▸ (hst.own x hrow).2
      exact filesInv_phase hinv hc rfl rfl rfl fun p hp => (congrArg some hpath).trans hp
    · have hexit : s.exitsEarly path (.readBack n ok) = some n := by
        simp only [State.exitsEarly, hc, hnone, Option.isNone_none, if_true]
      exact filesInv_exit hinv hc (hg.1 n hexit) rfl rfl rfl
  | getQueue n =>
    obtain ⟨sid, x, dl, hc, ⟨q, rfl⟩ | ⟨hnone, rfl⟩⟩ := State.getQueue_eq_some h
    · exact filesInv_phase hinv hc rfl rfl rfl fun p hp => by cases dl <;> exact hp
    · have hexit : s.exitsEarly path (.getQueue n) = some n := by
        simp only [State.exitsEarly, hc, hnone, Option.isNone_none, if_true]
      exact filesInv_exit hinv hc (hg.1 n hexit) rfl rfl rfl
  | enqueue n =>
    obtain ⟨sid, x, q, dl, qu, hc, hq, ⟨qu', -, rfl⟩ | ⟨hfull, rfl⟩⟩ := State.enqueue_eq_some h
    · exact filesInv_phase hinv hc rfl rfl rfl fun p hp => by cases dl <;> exact hp
    · have hexit : s.exitsEarly path (.enqueue n) = some n := by
        simp only [State.exitsEarly, hc, hq, Option.any_some, decide_eq_true hfull, if_true]
      exact filesInv_exit hinv hc (hg.1 n hexit) rfl rfl rfl
  | inUseTrackIDs n =>
    obtain ⟨sid, x, dl, hc, rfl⟩ := State.inUseTrackIDs_eq_some h
    exact filesInv_phase hinv hc rfl rfl rfl fun p hp => by cases dl <;> exact hp
  | touchLastUsed n ok now =>
    obtain ⟨sid, x, inUse, dl, hc, rfl | ⟨rfl, rfl⟩⟩ := State.touchLastUsed_eq_some h
    · exact filesInv_phase hinv hc rfl rfl rfl fun p hp => by cases dl <;> exact hp
    · exact filesInv_exit hinv hc (hg.1 n rfl) rfl rfl rfl
  | touch n => exact filesInv_touch hst hinv h
  | createSession id archiveID =>
    rcases State.createSession_eq_some h with rfl | ⟨-, rfl⟩
    · exact hinv
    · exact filesInv_frame hinv rfl rfl rfl
  | deleteSession id => cases h; exact filesInv_frame hinv rfl rfl rfl
  | dequeue q =>
    obtain ⟨qu, x, qu', -, -, rfl⟩ := State.dequeue_eq_some h
    exact filesInv_frame hinv rfl rfl rfl
  | removeTrack q index =>
    rcases State.removeTrack_eq_some h with rfl | ⟨qu, qu', -, -, rfl⟩
    · exact hinv
    · exact filesInv_frame hinv rfl rfl rfl
  | restart listing => exact filesInv_restart hst hinv hg.2 h

/-- Under the guard, the cache accounts for every file on disk whenever no call
is in flight. -/
theorem files_accounted {path : String → String} {s : State}
    (h : Reach (accountedSystem path) (NoFileLost path) s) : FilesAccounted s := by
  have hinv : Stored path s ∧ FilesInv path s := by
    refine h.invariant (I := fun s => Stored path s ∧ FilesInv path s) ?_ ?_
    · rintro s ⟨hstart, hfiles⟩
      exact ⟨stored_started hstart, fun p hp => .inl (hfiles p hp)⟩
    · rintro s a t - ⟨hst, hi⟩ hg hs
      exact ⟨stored_step hst hs, filesInv_step hst hi hg hs⟩
  intro hquiet p hp
  rcases hinv.2 p hp with hw | ⟨c, hc, hpend⟩
  · exact hw
  · obtain ⟨r, hr⟩ := hquiet c hc
    rw [hr] at hpend
    cases hpend

/-- A track is added, the queue is played, and the server is restarted. -/
theorem files_accounted_restart :
    ∃ s, s.files = {downloadPath "/music" "dQw4w9WgXcQ"} ∧ FilesAccounted s := by
  obtain ⟨s, hs, hp⟩ := Reach.of_guardedRun (S := accountedSystem (downloadPath "/music"))
    (C := NoFileLost (downloadPath "/music"))
    (p := fun s => decide (s.files = {downloadPath "/music" "dQw4w9WgXcQ"}))
    [.createSession "party" none, .request "party" "dQw4w9WgXcQ", .get 0, .download 0 true,
      .getTrack 0 (some ⟨"Title", "Artist", 213⟩) true, .createTrack 0 true 1000,
      .readBack 0 true, .getQueue 0, .enqueue 0, .inUseTrackIDs 0, .touchLastUsed 0 true 1001,
      .touch 0, .dequeue 0, .deleteSession "party",
      .restart [⟨1, source, "dQw4w9WgXcQ", "Title", "Artist", 213,
        downloadPath "/music" "dQw4w9WgXcQ", 1000, albumArtURL "dQw4w9WgXcQ", 1001⟩]]
    (show _ ∧ _ from ⟨⟨50, .empty, ∅, [], nofun, ⟨List.Perm.refl _, List.Pairwise.nil⟩, rfl⟩,
      nofun⟩)
    (by decide +kernel)
  exact ⟨s, of_decide_eq_true hp, files_accounted hs⟩

end RadioJockey.AddTrack
