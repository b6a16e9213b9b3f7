import RadioJockey.AddTrack

/-!
# Tracks in memory are copies of rows

The cache and the calls hold tracks that were read from the table at different
times. Rows are never deleted, and their id, their key and their path never
change. So in these columns every such track agrees with its row, which is what
the cache relies on (`Cache.Agrees`).

`stored_reachable`: in every run, every track in the window or in the hands of
a call is a copy of a row, and the cache is valid.
-/

namespace RadioJockey.AddTrack

open Transition Lru

/-- `t` was read from the table, before or after changes to other columns. -/
def Snapshot (d : TracksTable) (t : Track) : Prop :=
  ∃ r ∈ d.rows, r.id = t.id ∧ r.key = t.key ∧ r.filePath = t.filePath

/-- The track that a call has in hand. -/
def Phase.track : Phase → Option Track
  | .hit _ t | .updating t | .found t _ | .queueing t _ _ | .enqueued t _
  | .touching t _ _ | .touched t _ _ => some t
  | _ => none

structure Stored (path : String → String) (s : State) : Prop where
  own : OwnRows path s.db
  window : ∀ t ∈ s.cache.tracks, Snapshot s.db t
  held : ∀ c ∈ s.calls, ∀ t, c.phase.track = some t → Snapshot s.db t
  valid : s.cache.Valid

namespace SnapshotsLemmas

theorem snapshot_of_mem {d : TracksTable} {t : Track} (h : t ∈ d.rows) : Snapshot d t :=
  ⟨t, h, rfl, rfl, rfl⟩

/-- Every row of `d` is in `d'`, up to columns that no snapshot is about. -/
def Extends (d d' : TracksTable) : Prop :=
  ∀ r ∈ d.rows, Snapshot d' r

theorem extends_refl (d : TracksTable) : Extends d d := fun _ => snapshot_of_mem

theorem snapshot_mono {d d' : TracksTable} {t : Track} (h : Extends d d') (ht : Snapshot d t) :
    Snapshot d' t := by
  obtain ⟨r, hr, hid, hkey, hpath⟩ := ht
  obtain ⟨r', hr', hid', hkey', hpath'⟩ := h r hr
  exact ⟨r', hr', hid'.trans hid, hkey'.trans hkey, hpath'.trans hpath⟩

theorem extends_insert {d d' : TracksTable} {source sourceID title artist filePath : String}
    {duration : Int} {albumArtURL : String} {now : Int}
    (h : d.insert source sourceID title artist filePath duration albumArtURL now = some d') :
    Extends d d' := by
  intro r hr
  refine snapshot_of_mem ?_
  rw [TracksTable.insert_rows h]
  exact List.mem_append_left _ hr

theorem extends_update {d : TracksTable} {id : Int} {f : Track → Track}
    {hid : ∀ r, (f r).id = r.id} {hkey : ∀ r, (f r).key = r.key}
    (hpath : ∀ r, (f r).filePath = r.filePath) : Extends d (d.update id f hid hkey) := by
  intro r hr
  refine ⟨_, List.mem_map_of_mem hr, ?_⟩
  split
  · exact ⟨hid r, hkey r, hpath r⟩
  · exact ⟨rfl, rfl, rfl⟩

theorem own_update {path : String → String} {d : TracksTable} (h : OwnRows path d) (id : Int)
    {f : Track → Track} (hid : ∀ r, (f r).id = r.id) (hkey : ∀ r, (f r).key = r.key)
    (hpath : ∀ r, (f r).filePath = r.filePath) : OwnRows path (d.update id f hid hkey) := by
  intro r hr
  obtain ⟨x, hx, rfl⟩ := List.mem_map.mp hr
  obtain ⟨hs, hp⟩ := h x hx
  split
  · have hkx := hkey x
    rw [Track.key, Track.key, Prod.mk.injEq] at hkx
    rw [hkx.1, hkx.2, hpath]
    exact ⟨hs, hp⟩
  · exact ⟨hs, hp⟩

/-- Of two snapshots, ids agree if and only if source ids do. -/
theorem snapshot_ids {d : TracksTable} (h : ∀ r ∈ d.rows, r.source = source) {t t' : Track}
    (ht : Snapshot d t) (ht' : Snapshot d t') : t.id = t'.id ↔ t.sourceID = t'.sourceID := by
  obtain ⟨r, hr, hid, hkey, -⟩ := ht
  obtain ⟨r', hr', hid', hkey', -⟩ := ht'
  have hsource : r.source = r'.source := (h r hr).trans (h r' hr').symm
  rw [Track.key, Track.key, Prod.mk.injEq] at hkey hkey'
  rw [← hid, ← hid', ← hkey.2, ← hkey'.2]
  refine ⟨fun he => ?_, fun he => ?_⟩
  · rw [TracksTable.eq_of_id hr hr' he]
  · rw [TracksTable.eq_of_key hr hr' (Prod.ext hsource he)]

/-- And so do their paths. -/
theorem snapshot_agrees {path : String → String} {d : TracksTable} (h : OwnRows path d)
    {t t' : Track} (ht : Snapshot d t) (ht' : Snapshot d t') :
    (t.id = t'.id ↔ t.sourceID = t'.sourceID) ∧ (t.id = t'.id → t.filePath = t'.filePath) := by
  refine ⟨snapshot_ids (fun r hr => (h r hr).1) ht ht', fun he => ?_⟩
  obtain ⟨r, hr, hid, -, hpath⟩ := ht
  obtain ⟨r', hr', hid', -, hpath'⟩ := ht'
  rw [← hpath, ← hpath', TracksTable.eq_of_id hr hr' (hid.trans (he.trans hid'.symm))]

theorem stored_agrees {path : String → String} {s : State} (h : Stored path s) {t : Track}
    (ht : Snapshot s.db t) : s.cache.Agrees t :=
  fun x hx => (snapshot_agrees h.own (h.window x hx) ht).1

/-- A step of the call `n` that leaves the cache alone. -/
theorem stored_move {path : String → String} {s t : State} (hinv : Stored path s) {n : Nat}
    {c : Call} (hcalls : t.calls = s.calls.set n c) (hdb : Extends s.db t.db)
    (hown : OwnRows path t.db) (hcache : t.cache = s.cache)
    (hc : ∀ x, c.phase.track = some x → Snapshot t.db x) : Stored path t where
  own := hown
  window := by
    rw [hcache]
    exact fun x hx => snapshot_mono hdb (hinv.window x hx)
  held := by
    intro c' hc' x hx
    rw [hcalls] at hc'
    rcases List.mem_or_eq_of_mem_set hc' with hc' | rfl
    · exact snapshot_mono hdb (hinv.held c' hc' x hx)
    · exact hc x hx
  valid := hcache ▸ hinv.valid

/-- The same for a step that changes no row. -/
theorem stored_phase {path : String → String} {s t : State} (hinv : Stored path s) {n : Nat}
    {c : Call} (hcalls : t.calls = s.calls.set n c) (hdb : t.db = s.db)
    (hcache : t.cache = s.cache) (hc : ∀ x, c.phase.track = some x → Snapshot s.db x) :
    Stored path t :=
  stored_move hinv hcalls (hdb ▸ extends_refl s.db) (hdb ▸ hinv.own) hcache (hdb ▸ hc)

/-- The same for an `UPDATE` of a column that no snapshot is about. -/
theorem stored_update {path : String → String} {s t : State} (hinv : Stored path s) {n : Nat}
    {c : Call} {id : Int} {f : Track → Track} (hid : ∀ r, (f r).id = r.id)
    (hkey : ∀ r, (f r).key = r.key) (hpath : ∀ r, (f r).filePath = r.filePath)
    (hcalls : t.calls = s.calls.set n c) (hdb : t.db = s.db.update id f hid hkey)
    (hcache : t.cache = s.cache) (hc : ∀ x, c.phase.track = some x → Snapshot s.db x) :
    Stored path t := by
  have hext : Extends s.db t.db := hdb ▸ extends_update hpath
  have hown : OwnRows path t.db := hdb ▸ own_update hinv.own id hid hkey hpath
  exact stored_move hinv hcalls hext hown hcache fun x hx => snapshot_mono hext (hc x hx)

/-- A step of the call `n` that changes the cache only. -/
theorem stored_cache {path : String → String} {s t : State} (hinv : Stored path s) {n : Nat}
    {c : Call} (hcalls : t.calls = s.calls.set n c) (hdb : t.db = s.db)
    (hwindow : ∀ x ∈ t.cache.tracks, Snapshot s.db x) (hvalid : t.cache.Valid)
    (hc : ∀ x, c.phase.track = some x → Snapshot s.db x) : Stored path t where
  own := hdb ▸ hinv.own
  window := hdb ▸ hwindow
  held := by
    intro c' hc' x hx
    rw [hcalls] at hc'
    rw [hdb]
    rcases List.mem_or_eq_of_mem_set hc' with hc' | rfl
    · exact hinv.held c' hc' x hx
    · exact hc x hx
  valid := hvalid

theorem held_of_call {path : String → String} {s : State} (hinv : Stored path s) {n : Nat}
    {sid : SessionID} {p : Phase} (hc : s.calls[n]? = some ⟨sid, p⟩) {x : Track}
    (hx : p.track = some x) : Snapshot s.db x :=
  hinv.held ⟨sid, p⟩ (List.mem_of_getElem? hc) x hx

/-- A step that touches neither the table, the cache nor the calls. -/
theorem stored_frame {path : String → String} {s t : State} (hinv : Stored path s)
    (hdb : t.db = s.db) (hcache : t.cache = s.cache) (hcalls : t.calls = s.calls) :
    Stored path t := by
  refine ⟨hdb ▸ hinv.own, ?_, ?_, hcache ▸ hinv.valid⟩
  · rw [hdb, hcache]; exact hinv.window
  · rw [hdb, hcalls]; exact hinv.held

/-- `NewCache` over a table of one source. -/
theorem newCache_listing {db : TracksTable} (hsource : ∀ r ∈ db.rows, r.source = source)
    {listing : List Track} (hl : db.ListsByLastUsed listing) :
    (Cache.newCache listing).tracks = listing.take cacheWindow ∧
      (Cache.newCache listing).Valid := by
  have hids : (listing.map Track.id).Nodup := (hl.1.map Track.id).nodup_iff.mpr db.ids
  refine Cache.newCache_tracks hids ((List.Nodup.of_map _ hids).map_on fun t ht u hu he => ?_)
  have ht' := hl.1.mem_iff.mp ht
  have hu' := hl.1.mem_iff.mp hu
  exact TracksTable.eq_of_key ht' hu'
    (Prod.ext ((hsource t ht').trans (hsource u hu').symm) he)

theorem stored_start {path : String → String} (maxSessions : Int) {db : TracksTable}
    (files : Finset String) {listing : List Track} (hown : OwnRows path db)
    (hl : db.ListsByLastUsed listing) :
    Stored path (.start maxSessions db files listing) ∧
      (Cache.newCache listing).tracks = listing.take cacheWindow := by
  obtain ⟨ht, hv⟩ := newCache_listing (fun x hx => (hown x hx).1) hl
  refine ⟨⟨hown, ?_, fun c hc => (nomatch hc), hv⟩, ht⟩
  intro x hx
  have hx' : x ∈ listing.take cacheWindow := ht ▸ hx
  exact snapshot_of_mem (hl.1.subset (List.mem_of_mem_take hx'))

end SnapshotsLemmas

open SnapshotsLemmas

theorem stored_step {path : String → String} {s t : State} {a : Action} (hinv : Stored path s)
    (h : s.step path a = some t) : Stored path t := by
  cases a with
  | request sid id =>
    cases h
    refine ⟨hinv.own, hinv.window, ?_, hinv.valid⟩
    intro c hc x hx
    rcases List.mem_append.mp hc with hc | hc
    · exact hinv.held c hc x hx
    · cases List.mem_singleton.mp hc
      cases hx
  | get n =>
    obtain ⟨sid, id, hc, ⟨x, c, hg, rfl⟩ | ⟨-, rfl⟩⟩ := State.get_eq_some h
    · obtain ⟨hx, -, ht, hv⟩ := Cache.get_eq_some hinv.valid hg
      refine stored_cache hinv rfl rfl (fun y hy => ?_) hv fun y hy => ?_
      · have hy' : y ∈ promote Track.id x s.cache.tracks := ht ▸ hy
        rcases mem_promote.mp hy' with rfl | ⟨hy, -⟩
        · exact hinv.window y hx
        · exact hinv.window y hy
      · cases hy
        exact hinv.window x hx
    · exact stored_phase hinv rfl rfl rfl nofun
  | stat n =>
    obtain ⟨sid, id, x, hc, ⟨-, rfl⟩ | rfl⟩ := State.stat_eq_some h
    · have hx := held_of_call hinv hc rfl
      exact stored_phase hinv rfl rfl rfl fun y hy => by cases hy; exact hx
    · exact stored_phase hinv rfl rfl rfl nofun
  | download n ok =>
    obtain ⟨sid, id, hc, ⟨-, rfl⟩ | ⟨-, rfl⟩⟩ := State.download_eq_some h
    · exact stored_phase hinv rfl rfl rfl nofun
    · exact stored_phase hinv rfl rfl rfl nofun
  | getTrack n data ok =>
    obtain ⟨sid, id, hc, ⟨-, rfl⟩ | ⟨x, hx, rfl⟩ | ⟨data', rfl⟩⟩ := State.getTrack_eq_some h
    · exact stored_phase hinv rfl rfl rfl nofun
    · have hx' := snapshot_of_mem (State.fetch_eq_some hx).1
      exact stored_phase hinv rfl rfl rfl fun y hy => by cases hy; exact hx'
    · exact stored_phase hinv rfl rfl rfl nofun
  | updateArt n ok =>
    obtain ⟨sid, x, hc, rfl | ⟨-, rfl⟩⟩ := State.updateArt_eq_some h
    · have hx := held_of_call hinv hc rfl
      refine stored_update (f := fun r => { r with albumArtURL := albumArtURL x.sourceID }) hinv
        (fun _ => rfl) (fun _ => rfl) (fun _ => rfl) rfl rfl rfl fun y hy => ?_
      cases hy
      exact hx
    · exact stored_phase hinv rfl rfl rfl nofun
  | createTrack n ok now =>
    obtain ⟨sid, id, data, hc, ⟨db, hdb, rfl⟩ | ⟨-, rfl⟩⟩ := State.createTrack_eq_some h
    · unfold State.insertRow at hdb
      split at hdb
      · refine stored_move hinv rfl (extends_insert hdb) ?_ rfl nofun
        intro r hr
        change r ∈ db.rows at hr
        rw [TracksTable.insert_rows hdb] at hr
        rcases List.mem_append.mp hr with hr | hr
        · exact hinv.own r hr
        · rw [List.mem_singleton.mp hr]
          exact ⟨rfl, rfl⟩
      · cases hdb
    · exact stored_phase hinv rfl rfl rfl nofun
  | readBack n ok =>
    obtain ⟨sid, id, hc, ⟨x, hx, rfl⟩ | ⟨-, rfl⟩⟩ := State.readBack_eq_some h
    · have hx' := snapshot_of_mem (State.fetch_eq_some hx).1
      exact stored_phase hinv rfl rfl rfl fun y hy => by cases hy; exact hx'
    · exact stored_phase hinv rfl rfl rfl nofun
  | getQueue n =>
    obtain ⟨sid, x, dl, hc, ⟨q, rfl⟩ | ⟨-, rfl⟩⟩ := State.getQueue_eq_some h
    · have hx := held_of_call hinv hc rfl
      exact stored_phase hinv rfl rfl rfl fun y hy => by cases hy; exact hx
    · exact stored_phase hinv rfl rfl rfl nofun
  | enqueue n =>
    obtain ⟨sid, x, q, dl, qu, hc, -, ⟨qu', -, rfl⟩ | ⟨-, rfl⟩⟩ := State.enqueue_eq_some h
    · have hx := held_of_call hinv hc rfl
      exact stored_phase hinv rfl rfl rfl fun y hy => by cases hy; exact hx
    · exact stored_phase hinv rfl rfl rfl nofun
  | inUseTrackIDs n =>
    obtain ⟨sid, x, dl, hc, rfl⟩ := State.inUseTrackIDs_eq_some h
    have hx := held_of_call hinv hc rfl
    exact stored_phase hinv rfl rfl rfl fun y hy => by cases hy; exact hx
  | touchLastUsed n ok now =>
    obtain ⟨sid, x, inUse, dl, hc, rfl | ⟨-, rfl⟩⟩ := State.touchLastUsed_eq_some h
    · have hx := held_of_call hinv hc rfl
      refine stored_update (f := fun r => { r with lastUsedAt := now }) hinv (fun _ => rfl)
        (fun _ => rfl) (fun _ => rfl) rfl rfl rfl fun y hy => ?_
      cases hy
      exact hx
    · exact stored_phase hinv rfl rfl rfl nofun
  | touch n =>
    obtain ⟨sid, x, inUse, dl, hc, rfl⟩ := State.touch_eq_some h
    have hx := held_of_call hinv hc rfl
    obtain ⟨ht, -, hv⟩ := Cache.touch_tracks hinv.valid (stored_agrees hinv hx) inUse
    refine stored_cache hinv rfl rfl (fun y hy => ?_) hv nofun
    have hy' := (evict_sublist _ _ _).subset (ht ▸ hy)
    rcases mem_promote.mp hy' with rfl | ⟨hy, -⟩
    · exact hx
    · exact hinv.window y hy
  | createSession id archiveID =>
    rcases State.createSession_eq_some h with rfl | ⟨-, rfl⟩
    · exact hinv
    · exact stored_frame hinv rfl rfl rfl
  | deleteSession id => cases h; exact stored_frame hinv rfl rfl rfl
  | dequeue q =>
    obtain ⟨qu, x, qu', -, -, rfl⟩ := State.dequeue_eq_some h
    exact stored_frame hinv rfl rfl rfl
  | removeTrack q index =>
    rcases State.removeTrack_eq_some h with rfl | ⟨qu, qu', -, -, rfl⟩
    · exact hinv
    · exact stored_frame hinv rfl rfl rfl
  | restart listing =>
    obtain ⟨hl, rfl⟩ := State.restart_eq_some h
    exact (stored_start _ _ hinv.own hl).1

theorem stored_started {path : String → String} {s : State} (h : Started path s) :
    Stored path s := by
  obtain ⟨maxSessions, db, files, listing, hown, hl, rfl⟩ := h
  exact (stored_start _ _ hown hl).1

/-- In every run, the tracks in memory are copies of rows. -/
theorem stored_reachable {path : String → String} {s : State}
    (h : Reachable (addTrackSystem path) s) : Stored path s :=
  h.invariant (I := Stored path) (fun _ => stored_started)
    fun _ _ _ _ hinv _ hs => stored_step hinv hs

end RadioJockey.AddTrack
