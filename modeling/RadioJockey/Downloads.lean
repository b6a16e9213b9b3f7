import RadioJockey.Snapshots

/-!
# Concurrent downloads of one video (`music/youtube.go`, `db/tracks.go`)

`DownloadTrackFromURL` looks the video up, inserts a row when there is none, and
logs the title of the new track before it looks at the error. Between the
lookup and the insert of one call another call may insert the row. Then the
unique constraint fails, and the track is nil.

* `download_conflict`: two calls that both look before either inserts.
* `downloads_agree`: in every run in which no call inserts a row that is there,
  and no insert or read-back fails otherwise, no call comes across a nil track.
  If the other queries succeed too, every call returns a track, all have one
  id, and the table has one row for the video.
-/

namespace RadioJockey.AddTrack

open Transition SnapshotsLemmas

/-- The calls and steps of `DownloadTrackFromURL` for one video, where yt-dlp and
the tags never fail. With `healthy`, nor does the database, other than by its
constraints. -/
def DownloadStep (id : String) (healthy : Bool) : Action → Prop
  | .request _ id' => id' = id
  | .get _ | .stat _ => True
  | .download _ ok => ok = true
  | .getTrack _ data ok => data.isSome = true ∧ (healthy = true → ok = true)
  | .updateArt _ ok | .createTrack _ ok _ | .readBack _ ok => healthy = true → ok = true
  | _ => False

/-- Each `CreateTrack` finds no row for the video, and the database does what it
asks for. -/
def CreatesFirst (id : String) (s : State) : Action → Prop
  | .createTrack _ ok _ => ok = true ∧ ∀ r ∈ s.db.rows, r.sourceID ≠ id
  | .readBack _ ok => ok = true
  | _ => True

instance (id : String) (healthy : Bool) : ∀ a, Decidable (DownloadStep id healthy a)
  | .request _ id' => inferInstanceAs (Decidable (id' = id))
  | .get _ | .stat _ => .isTrue trivial
  | .download _ ok => inferInstanceAs (Decidable (ok = true))
  | .getTrack _ data ok =>
    inferInstanceAs (Decidable (data.isSome = true ∧ (healthy = true → ok = true)))
  | .updateArt _ ok | .createTrack _ ok _ | .readBack _ ok =>
    inferInstanceAs (Decidable (healthy = true → ok = true))
  | .getQueue _ | .enqueue _ | .inUseTrackIDs _ | .touchLastUsed _ _ _ | .touch _
  | .createSession _ _ | .deleteSession _ | .dequeue _ | .removeTrack _ _ | .restart _ =>
    .isFalse not_false

instance (id : String) (s : State) : ∀ a, Decidable (CreatesFirst id s a)
  | .createTrack _ ok _ =>
    inferInstanceAs (Decidable (ok = true ∧ ∀ r ∈ s.db.rows, r.sourceID ≠ id))
  | .readBack _ ok => inferInstanceAs (Decidable (ok = true))
  | .request _ _ | .get _ | .stat _ | .download _ _ | .getTrack _ _ _ | .updateArt _ _
  | .getQueue _ | .enqueue _ | .inUseTrackIDs _ | .touchLastUsed _ _ _ | .touch _
  | .createSession _ _ | .deleteSession _ | .dequeue _ | .removeTrack _ _ | .restart _ =>
    .isTrue trivial

/-! ## What the calls return -/

/-- How many steps are left at most until `DownloadTrackFromURL` returns. -/
def Phase.stepsLeft : Phase → Nat
  | .resolved _ => 6
  | .hit _ _ => 5
  | .missing _ => 4
  | .downloaded _ => 3
  | .creating _ _ => 2
  | .updating _ | .created _ => 1
  | _ => 0

def Action.call : Action → Option Nat
  | .get n | .stat n | .download n _ | .getTrack n _ _ | .updateArt n _ | .createTrack n _ _
  | .readBack n _ => some n
  | _ => none

/-- Every call that has not returned can take a step, and each of its steps
brings it nearer to its return. -/
structure Ends (path : String → String) (id : String) (s : State) : Prop where
  moves : ∀ n c, s.calls[n]? = some c → c.phase.stepsLeft ≠ 0 →
    ∃ a, a.call = some n ∧ DownloadStep id true a ∧ (s.step path a).isSome = true
  nearer : ∀ n c a t, s.calls[n]? = some c → a.call = some n → s.step path a = some t →
    ∃ c', t.calls[n]? = some c' ∧ c'.phase.stepsLeft < c.phase.stepsLeft

/-- Every call that has returned has a track, these are copies of one row, and
the row is the only one for the video. -/
structure Agreed (id : String) (s : State) : Prop where
  returns : ∀ c ∈ s.calls, c.phase.stepsLeft = 0 → ∃ t dl, c.phase = .found t dl
  sameID : ∀ c ∈ s.calls, ∀ c' ∈ s.calls, ∀ t dl t' dl', c.phase = .found t dl →
    c'.phase = .found t' dl' → t.id = t'.id
  oneRow : ∀ c ∈ s.calls, ∀ t dl, c.phase = .found t dl →
    (s.db.rows.filter fun r => r.sourceID = id).length = 1

/-- No call comes across a nil track, and without failures they all agree. -/
structure DownloadsAgree (path : String → String) (id : String) (healthy : Bool) (s : State) :
    Prop where
  noPanic : ∀ c ∈ s.calls, c.phase ≠ .returned .panicked
  agreed : healthy = true → Agreed id s
  ends : Ends path id s

/-- Two calls look before either inserts. -/
def conflictRun : List Action :=
  [.request "station" "dQw4w9WgXcQ", .request "station" "dQw4w9WgXcQ", .get 0, .get 1,
    .download 0 true, .download 1 true, .getTrack 0 (some ⟨"t", "a", 212⟩) true,
    .getTrack 1 (some ⟨"t", "a", 212⟩) true, .createTrack 0 true 1, .createTrack 1 true 2,
    .readBack 0 true]

/-- The second insert fails, and the call dereferences its nil track. -/
theorem download_conflict :
    ¬ ∀ path id healthy s, Reach (addTrackSystem path) (fun _ => DownloadStep id healthy) s →
      DownloadsAgree path id healthy s := by
  intro hall
  obtain ⟨s, hs, hp⟩ := Reach.of_guardedRun (S := addTrackSystem id)
    (C := fun _ => DownloadStep "dQw4w9WgXcQ" true)
    (p := fun s => decide (⟨"station", .returned .panicked⟩ ∈ s.calls)) conflictRun
    (show Started id (.start 5 .empty ∅ []) from
      ⟨5, .empty, ∅, [], fun _ hr => (nomatch hr), by decide, rfl⟩)
    (by decide +kernel)
  exact (hall id "dQw4w9WgXcQ" true s hs).noPanic _ (of_decide_eq_true hp) rfl

/-! ## Each call returns -/

namespace DownloadsLemmas

variable {path : String → String} {s t : State}

/-- A step of a call takes it to a later phase. -/
theorem call_step {n : Nat} {a : Action} (ha : a.call = some n) (h : s.step path a = some t) :
    ∃ sid p p', s.calls[n]? = some ⟨sid, p⟩ ∧ t.calls = s.calls.set n ⟨sid, p'⟩ ∧
      p'.stepsLeft < p.stepsLeft := by
  cases a with
  | get m =>
    cases ha
    obtain ⟨sid, id, hc, ⟨x, c, -, rfl⟩ | ⟨-, rfl⟩⟩ := State.get_eq_some h
    all_goals exact ⟨sid, _, _, hc, rfl, by simp [Phase.stepsLeft]⟩
  | stat m =>
    cases ha
    obtain ⟨sid, id, x, hc, ⟨-, rfl⟩ | rfl⟩ := State.stat_eq_some h
    all_goals exact ⟨sid, _, _, hc, rfl, by simp [Phase.stepsLeft]⟩
  | download m ok =>
    cases ha
    obtain ⟨sid, id, hc, ⟨-, rfl⟩ | ⟨-, rfl⟩⟩ := State.download_eq_some h
    all_goals exact ⟨sid, _, _, hc, rfl, by simp [Phase.stepsLeft]⟩
  | getTrack m data ok =>
    cases ha
    obtain ⟨sid, id, hc, ⟨-, rfl⟩ | ⟨x, -, rfl⟩ | ⟨data', rfl⟩⟩ := State.getTrack_eq_some h
    all_goals exact ⟨sid, _, _, hc, rfl, by simp [Phase.stepsLeft]⟩
  | updateArt m ok =>
    cases ha
    obtain ⟨sid, x, hc, rfl | ⟨-, rfl⟩⟩ := State.updateArt_eq_some h
    all_goals exact ⟨sid, _, _, hc, rfl, by simp [Phase.stepsLeft]⟩
  | createTrack m ok now =>
    cases ha
    obtain ⟨sid, id, data, hc, ⟨db, -, rfl⟩ | ⟨-, rfl⟩⟩ := State.createTrack_eq_some h
    all_goals exact ⟨sid, _, _, hc, rfl, by simp [Phase.stepsLeft]⟩
  | readBack m ok =>
    cases ha
    obtain ⟨sid, id, hc, ⟨x, -, rfl⟩ | ⟨-, rfl⟩⟩ := State.readBack_eq_some h
    all_goals exact ⟨sid, _, _, hc, rfl, by simp [Phase.stepsLeft]⟩
  | request | getQueue | enqueue | inUseTrackIDs | touchLastUsed | touch | createSession
  | deleteSession | dequeue | removeTrack | restart => cases ha

/-- In every phase of a call its next step is defined, whatever it finds. -/
theorem call_moves (path : String → String) (id : String) {n : Nat} {c : Call}
    (hc : s.calls[n]? = some c) (hp : c.phase.stepsLeft ≠ 0) :
    ∃ a, a.call = some n ∧ DownloadStep id true a ∧ (s.step path a).isSome = true := by
  obtain ⟨sid, p⟩ := c
  cases p with
  | resolved id' =>
    refine ⟨.get n, rfl, trivial, ?_⟩
    simp only [State.step, State.get, hc]
    cases s.cache.get id' <;> rfl
  | hit id' x => exact ⟨.stat n, rfl, trivial, by simp [State.step, State.stat, hc]⟩
  | missing id' => exact ⟨.download n true, rfl, rfl, by simp [State.step, State.download, hc]⟩
  | downloaded id' =>
    refine ⟨.getTrack n (some ⟨"", "", 0⟩) true, rfl, ⟨rfl, fun h => h⟩, ?_⟩
    simp only [State.step, State.getTrack, hc]
    cases s.fetch id' true <;> rfl
  | updating x =>
    exact ⟨.updateArt n true, rfl, fun h => h, by simp [State.step, State.updateArt, hc]⟩
  | creating id' data =>
    refine ⟨.createTrack n true 0, rfl, fun h => h, ?_⟩
    simp only [State.step, State.createTrack, hc]
    cases s.insertRow path id' data true 0 <;> rfl
  | created id' =>
    refine ⟨.readBack n true, rfl, fun h => h, ?_⟩
    simp only [State.step, State.readBack, hc]
    cases s.fetch id' true <;> rfl
  | found | queueing | enqueued | touching | touched | returned => exact absurd rfl hp

theorem ends (path : String → String) (id : String) (s : State) : Ends path id s where
  moves _ _ hc hp := call_moves path id hc hp
  nearer n c a t hc ha h := by
    obtain ⟨sid, p, p', hc', hcalls, hlt⟩ := call_step ha h
    cases hc.symm.trans hc'
    refine ⟨⟨sid, p'⟩, ?_, hlt⟩
    rw [hcalls, List.getElem?_set_self (List.getElem?_eq_some_iff.mp hc).1]

end DownloadsLemmas

/-! ## The invariant -/

/-- What a phase says about the video. A call that has inserted its row finds it,
and nothing but a failure ends a call without a track. -/
def Fine (id : String) (healthy : Bool) (d : TracksTable) : Phase → Prop
  | .resolved id' | .missing id' | .downloaded id' | .creating id' _ => id' = id
  | .hit id' t => id' = id ∧ t.sourceID = id
  | .updating t | .found t _ => t.sourceID = id
  | .created id' => id' = id ∧ ∃ r ∈ d.rows, r.sourceID = id
  | .returned r => r = .error .internal ∧ healthy = false
  | _ => False

def DownloadInv (id : String) (healthy : Bool) (s : State) : Prop :=
  ∀ c ∈ s.calls, Fine id healthy s.db c.phase

namespace DownloadsLemmas

variable {path : String → String} {id : String} {healthy : Bool} {s t : State}

theorem sourceID_mono {d d' : TracksTable} (hd : Extends d d') {r : Track} (hr : r ∈ d.rows)
    (hs : r.sourceID = id) : ∃ r' ∈ d'.rows, r'.sourceID = id := by
  obtain ⟨r', hr', -, hkey, -⟩ := hd r hr
  exact ⟨r', hr', (congrArg Prod.snd hkey).trans hs⟩

theorem fine_mono {d d' : TracksTable} (hd : Extends d d') {p : Phase}
    (h : Fine id healthy d p) : Fine id healthy d' p := by
  cases p with
  | created id' =>
    obtain ⟨hid, r, hr, hs⟩ := h
    exact ⟨hid, sourceID_mono hd hr hs⟩
  | resolved | hit | missing | downloaded | updating | creating | found | queueing | enqueued
  | touching | touched | returned => exact h

/-- A step of one call. -/
theorem downloadInv_move (hinv : DownloadInv id healthy s) {n : Nat} {sid : SessionID} {p : Phase}
    (hcalls : t.calls = s.calls.set n ⟨sid, p⟩) (hdb : Extends s.db t.db)
    (hp : Fine id healthy t.db p) : DownloadInv id healthy t := by
  intro c hc
  rw [hcalls] at hc
  rcases List.mem_or_eq_of_mem_set hc with hc | rfl
  · exact fine_mono hdb (hinv c hc)
  · exact hp

theorem fine_of_call (hinv : DownloadInv id healthy s) {n : Nat} {sid : SessionID} {p : Phase}
    (hc : s.calls[n]? = some ⟨sid, p⟩) : Fine id healthy s.db p :=
  hinv ⟨sid, p⟩ (List.mem_of_getElem? hc)

theorem downloadInv_createTrack (hinv : DownloadInv id healthy s) {n : Nat} {now : Int}
    (hfirst : ∀ r ∈ s.db.rows, r.sourceID ≠ id) (h : s.createTrack path n true now = some t) :
    DownloadInv id healthy t := by
  obtain ⟨sid, id', data, hc, ⟨db, hdb, rfl⟩ | ⟨hnone, rfl⟩⟩ := State.createTrack_eq_some h
  · obtain rfl : id' = id := fine_of_call hinv hc
    refine downloadInv_move hinv rfl (extends_insert hdb) ⟨rfl, ?_⟩
    show ∃ r ∈ db.rows, _
    rw [TracksTable.insert_rows hdb]
    exact ⟨_, List.mem_append_right _ List.mem_cons_self, rfl⟩
  · -- the constraint is about a row that is not there
    obtain rfl : id' = id := fine_of_call hinv hc
    obtain ⟨r, hr, hkey⟩ := TracksTable.insert_eq_none hnone
    exact absurd (congrArg Prod.snd hkey) (hfirst r hr)

theorem downloadInv_readBack (hinv : DownloadInv id healthy s) {n : Nat}
    (h : s.readBack n true = some t) : DownloadInv id healthy t := by
  obtain ⟨sid, id', hc, ⟨x, hx, rfl⟩ | ⟨hnone, rfl⟩⟩ := State.readBack_eq_some h
  · obtain ⟨rfl, -⟩ : id' = id ∧ _ := fine_of_call hinv hc
    exact downloadInv_move hinv rfl (extends_refl _) (State.fetch_eq_some hx).2
  · obtain ⟨rfl, r, hr, hs⟩ : id' = id ∧ _ := fine_of_call hinv hc
    have hfind := List.find?_eq_none.mp (show s.db.getTrack id' = none from hnone) r hr
    exact absurd (decide_eq_true hs) hfind

theorem downloadInv_step {a : Action} (hst : Stored path s) (hinv : DownloadInv id healthy s)
    (ha : DownloadStep id healthy a) (hfirst : CreatesFirst id s a)
    (h : s.step path a = some t) : DownloadInv id healthy t := by
  cases a with
  | request sid id' =>
    cases h
    intro c hc
    rcases List.mem_append.mp hc with hc | hc
    · exact hinv c hc
    · rw [List.mem_singleton.mp hc]
      exact ha
  | get n =>
    obtain ⟨sid, id', hc, ⟨x, c, hget, rfl⟩ | ⟨-, rfl⟩⟩ := State.get_eq_some h
    · obtain rfl : id' = id := fine_of_call hinv hc
      exact downloadInv_move hinv rfl (extends_refl _)
        ⟨rfl, (Cache.get_eq_some hst.valid hget).2.1⟩
    · have hp : id' = id := fine_of_call hinv hc
      exact downloadInv_move hinv rfl (extends_refl _) hp
  | stat n =>
    obtain ⟨sid, id', x, hc, ⟨-, rfl⟩ | rfl⟩ := State.stat_eq_some h
    · exact downloadInv_move hinv rfl (extends_refl _) (fine_of_call hinv hc).2
    · exact downloadInv_move hinv rfl (extends_refl _) (fine_of_call hinv hc).1
  | download n ok =>
    obtain ⟨sid, id', hc, ⟨-, rfl⟩ | ⟨hok, -⟩⟩ := State.download_eq_some h
    · have hp : id' = id := fine_of_call hinv hc
      exact downloadInv_move hinv rfl (extends_refl _) hp
    · cases hok.symm.trans ha
  | getTrack n data ok =>
    obtain ⟨sid, id', hc, ⟨rfl, -⟩ | ⟨x, hx, rfl⟩ | ⟨data', rfl⟩⟩ := State.getTrack_eq_some h
    · cases ha.1
    · obtain rfl : id' = id := fine_of_call hinv hc
      exact downloadInv_move hinv rfl (extends_refl _) (State.fetch_eq_some hx).2
    · obtain rfl : id' = id := fine_of_call hinv hc
      exact downloadInv_move hinv rfl (extends_refl _) rfl
  | updateArt n ok =>
    obtain ⟨sid, x, hc, rfl | ⟨rfl, rfl⟩⟩ := State.updateArt_eq_some h
    · have hp : x.sourceID = id := fine_of_call hinv hc
      have hextends :
          Extends s.db (s.db.updateTrackAlbumArtURL x.id (albumArtURL x.sourceID)) :=
        extends_update fun _ => rfl
      exact downloadInv_move hinv rfl hextends hp
    · refine downloadInv_move hinv rfl (extends_refl _) ⟨rfl, ?_⟩
      cases healthy with
      | false => rfl
      | true => exact (ha rfl).symm
  | createTrack n ok now =>
    obtain ⟨rfl, hrows⟩ := hfirst
    exact downloadInv_createTrack hinv hrows h
  | readBack n ok =>
    obtain rfl : ok = true := hfirst
    exact downloadInv_readBack hinv h
  | getQueue | enqueue | inUseTrackIDs | touchLastUsed | touch | createSession
  | deleteSession | dequeue | removeTrack | restart => exact ha.elim

/-- The tracks that calls have in hand are copies of the row for the video, and
there is one such row. -/
theorem agreed_of_inv (hst : Stored path s) (hinv : DownloadInv id true s) : Agreed id s := by
  have hrow : ∀ c ∈ s.calls, ∀ t dl, c.phase = .found t dl →
      ∃ r ∈ s.db.rows, r.id = t.id ∧ r.key = (source, id) := by
    intro c hc t dl hp
    obtain ⟨r, hr, hid, hkey, -⟩ := hst.held c hc t (by rw [hp]; rfl)
    have hs : t.sourceID = id := by
      have := hinv c hc
      rwa [hp] at this
    exact ⟨r, hr, hid, Prod.ext (hst.own r hr).1 ((congrArg Prod.snd hkey).trans hs)⟩
  refine ⟨fun c hc hleft => ?_, fun c hc c' hc' t dl t' dl' hp hp' => ?_, fun c hc t dl hp => ?_⟩
  · have hfine := hinv c hc
    obtain ⟨sid, p⟩ := c
    cases p with
    | found t dl => exact ⟨t, dl, rfl⟩
    | returned r => cases hfine.2
    | resolved | hit | missing | downloaded | updating | creating | created => cases hleft
    | queueing | enqueued | touching | touched => exact hfine.elim
  · obtain ⟨r, hr, hid, hkey⟩ := hrow c hc t dl hp
    obtain ⟨r', hr', hid', hkey'⟩ := hrow c' hc' t' dl' hp'
    rw [← hid, ← hid', TracksTable.eq_of_key hr hr' (hkey.trans hkey'.symm)]
  · obtain ⟨r, hr, -, hkey⟩ := hrow c hc t dl hp
    refine List.length_eq_one_iff.mpr ⟨r, ?_⟩
    have hnodup : (s.db.rows.filter fun x => x.sourceID = id).Nodup :=
      (List.Nodup.of_map _ s.db.ids).filter _
    refine (List.perm_singleton.mp ((List.perm_ext_iff_of_nodup hnodup
      (List.nodup_singleton r)).mpr fun x => ?_))
    rw [List.mem_filter, List.mem_singleton, decide_eq_true_eq]
    constructor
    · rintro ⟨hx, hs⟩
      exact TracksTable.eq_of_key hx hr
        ((Prod.ext (hst.own x hx).1 hs : x.key = (source, id)).trans hkey.symm)
    · rintro rfl
      exact ⟨hr, congrArg Prod.snd hkey⟩

end DownloadsLemmas

open DownloadsLemmas

/-! ## Main result -/

/-- In every run in which the row is not there yet whenever a call inserts it. -/
theorem downloads_agree {path : String → String} {id : String} {healthy : Bool} {s : State}
    (h : Reach (addTrackSystem path)
      (fun s a => DownloadStep id healthy a ∧ CreatesFirst id s a) s) :
    DownloadsAgree path id healthy s := by
  have hinv : DownloadInv id healthy s := by
    refine h.invariant (I := DownloadInv id healthy) ?_ fun s a t hr hinv ha hs => ?_
    · rintro _ ⟨maxSessions, db, files, listing, -, -, rfl⟩
      exact fun c hc => nomatch hc
    · exact downloadInv_step (stored_reachable hr.reachable) hinv ha.1 ha.2 hs
  refine ⟨fun c hc hp => ?_, fun hhealthy => ?_, ends path id s⟩
  · have := hinv c hc
    rw [hp] at this
    cases this.1
  · subst hhealthy
    exact agreed_of_inv (stored_reachable h.reachable) hinv

/-- The second call looks after the first one has inserted. -/
theorem downloads_agree_second :
    ∃ s : State, DownloadsAgree id "dQw4w9WgXcQ" true s ∧
      s.calls.map (fun c => c.phase.stepsLeft) = [0, 0] ∧ s.db.rows.map Track.id = [1] := by
  obtain ⟨s, hs, hp⟩ := Reach.of_guardedRun (S := addTrackSystem id)
    (C := fun s a => DownloadStep "dQw4w9WgXcQ" true a ∧ CreatesFirst "dQw4w9WgXcQ" s a)
    (p := fun s => decide (s.calls.map (fun c => c.phase.stepsLeft) = [0, 0] ∧
      s.db.rows.map Track.id = [1]))
    [.request "station" "dQw4w9WgXcQ", .request "station" "dQw4w9WgXcQ", .get 0, .get 1,
      .download 0 true, .download 1 true, .getTrack 0 (some ⟨"t", "a", 212⟩) true,
      .createTrack 0 true 1, .getTrack 1 (some ⟨"t", "a", 212⟩) true, .updateArt 1 true,
      .readBack 0 true]
    (show Started id (.start 5 .empty ∅ []) from
      ⟨5, .empty, ∅, [], fun _ hr => (nomatch hr), by decide, rfl⟩)
    (by decide +kernel)
  exact ⟨s, downloads_agree hs, of_decide_eq_true hp⟩

end RadioJockey.AddTrack
