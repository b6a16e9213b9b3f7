import RadioJockey.Archives

/-!
# Recorded tracks of archived sessions (`db/session_archives.go`, `icecast.go`)

The playback loop of an archived session inserts a row into
`session_archive_tracks` for each track it plays. `DeleteSessionArchive` deletes
these rows and then the archive, in two statements without a transaction, and
foreign keys are not enforced.

1. `dangling_track`: a track that is recorded after its archive was deleted
   refers to no archive, while no `DeleteSessionArchive` is in progress.
2. `step_backed_iff`: what a step must find for every row to refer to an archive
   after it.
3. `emptied_step`: the second statement of a deletion finds no row, since the
   first one leaves none and no track is recorded in between.
4. `tracks_backed`: in every run in which no track is recorded for an archive
   that is deleted, or that is between the two statements that delete it, every
   row refers to an archive.
-/

namespace RadioJockey

/-- A row of `session_archive_tracks`. -/
structure SessionArchiveTrack where
  id : Int
  sessionArchiveID : Int
  trackID : Int
  playedAt : Int
  deriving DecidableEq, Repr

structure SessionArchiveTracks where
  rows : List SessionArchiveTrack
  nextID : Int
  fresh : ∀ r ∈ rows, r.id < nextID

namespace SessionArchiveTracks

def empty : SessionArchiveTracks := ⟨[], 1, by simp⟩

/-- The `INSERT` of `AddSessionArchiveTrack`. `now` is `unixepoch()`. -/
def insert (d : SessionArchiveTracks) (archiveID trackID now : Int) : SessionArchiveTracks where
  rows := d.rows ++ [⟨d.nextID, archiveID, trackID, now⟩]
  nextID := d.nextID + 1
  fresh := by
    intro r hr
    rcases List.mem_append.mp hr with hr | hr
    · have := d.fresh r hr
      omega
    · rw [List.mem_singleton.mp hr]
      show d.nextID < d.nextID + 1
      omega

/-- The first statement of `DeleteSessionArchive`. -/
def deleteOf (d : SessionArchiveTracks) (archiveID : Int) : SessionArchiveTracks where
  rows := d.rows.filter fun r => r.sessionArchiveID ≠ archiveID
  nextID := d.nextID
  fresh := fun r hr => d.fresh r (List.mem_of_mem_filter hr)

theorem mem_insert {d : SessionArchiveTracks} {archiveID trackID now : Int}
    {r : SessionArchiveTrack} : r ∈ (d.insert archiveID trackID now).rows ↔
      r ∈ d.rows ∨ r = ⟨d.nextID, archiveID, trackID, now⟩ := by
  simp [insert]

theorem mem_deleteOf {d : SessionArchiveTracks} {archiveID : Int} {r : SessionArchiveTrack} :
    r ∈ (d.deleteOf archiveID).rows ↔ r ∈ d.rows ∧ r.sessionArchiveID ≠ archiveID := by
  simp [deleteOf]

end SessionArchiveTracks

namespace Archives.SessionArchives

/-- The second statement of `DeleteSessionArchive`. -/
def delete (d : SessionArchives) (id : Int) : SessionArchives where
  rows := d.rows.filter fun r => r.id ≠ id
  nextID := d.nextID
  fresh := fun r hr => d.fresh r (List.mem_of_mem_filter hr)

theorem getSessionArchive_delete_isSome {d : SessionArchives} {id id' : Int} :
    ((d.delete id).getSessionArchive id').isSome ↔
      (d.getSessionArchive id').isSome ∧ id' ≠ id := by
  rw [getSessionArchive_isSome, getSessionArchive_isSome]
  constructor
  · rintro ⟨r, hr, rfl⟩
    obtain ⟨hr, hid⟩ := List.mem_filter.mp hr
    exact ⟨⟨r, hr, rfl⟩, of_decide_eq_true hid⟩
  · rintro ⟨⟨r, hr, rfl⟩, hid⟩
    exact ⟨r, List.mem_filter.mpr ⟨hr, decide_eq_true hid⟩, rfl⟩

end Archives.SessionArchives

namespace ArchiveTracks

open Transition Archives

/-- Where the RPC is: before its first or its second `DELETE`, or done. -/
inductive DeletePhase
  | deletingTracks (id : Int)
  | deletingArchive (id : Int)
  | returned (code : Option Code)
  deriving DecidableEq

def DeletePhase.inProgress : DeletePhase → Bool
  | .returned _ => false
  | _ => true

/-- The `DeleteSessionArchive` RPCs are numbered in the order of their first
statement. -/
structure State where
  server : Archives.State
  archiveTracks : SessionArchiveTracks
  deletes : List DeletePhase

namespace State

def initial (maxSessions : Int) : State where
  server := .initial maxSessions
  archiveTracks := .empty
  deletes := []

/-- `queue.ArchiveID()`. -/
def archiveID (s : State) (q : QueueRef) : Option Int :=
  (s.server.manager.queues[q]?).bind SessionQueue.archiveID

/-- The playback loop of the queue `q` records a track. A failure is logged. -/
def addSessionArchiveTrack (s : State) (q : QueueRef) (trackID : Int) (ok : Bool) (now : Int) :
    Option State :=
  match s.archiveID q with
  | none => none
  | some archiveID =>
    if ok then some { s with archiveTracks := s.archiveTracks.insert archiveID trackID now }
    else some s

/-- A `DeleteSessionArchive` request, up to its `GetSessionArchive`. -/
def begin (s : State) (id : Int) (ok : Bool) : State :=
  let phase : DeletePhase :=
    if ok then
      match s.server.archives.getSessionArchive id with
      | some _ => .deletingTracks id
      | none => .returned (some (rpcErrorToCode .errNoRows))
    else .returned (some (rpcErrorToCode .other))
  { s with deletes := s.deletes ++ [phase] }

def move (s : State) (n : Nat) (p : DeletePhase) : State :=
  { s with deletes := s.deletes.set n p }

def deleteTracks (s : State) (n : Nat) (ok : Bool) : Option State :=
  match s.deletes[n]? with
  | some (.deletingTracks id) =>
    if ok then some { s.move n (.deletingArchive id) with
      archiveTracks := s.archiveTracks.deleteOf id }
    else some (s.move n (.returned (some .internal)))
  | _ => none

def deleteArchive (s : State) (n : Nat) (ok : Bool) : Option State :=
  match s.deletes[n]? with
  | some (.deletingArchive id) =>
    if ok then some { s.move n (.returned none) with
      server := { s.server with archives := s.server.archives.delete id } }
    else some (s.move n (.returned (some .internal)))
  | _ => none

end State

inductive Action
  | server (a : Archives.Action)
  | addSessionArchiveTrack (q : QueueRef) (trackID : Int) (ok : Bool) (now : Int)
  | begin (id : Int) (ok : Bool)
  | deleteTracks (n : Nat) (ok : Bool)
  | deleteArchive (n : Nat) (ok : Bool)
  deriving DecidableEq

def State.step (s : State) : Action → Option State
  | .server a => (s.server.step a).map fun t => { s with server := t }
  | .addSessionArchiveTrack q trackID ok now => s.addSessionArchiveTrack q trackID ok now
  | .begin id ok => some (s.begin id ok)
  | .deleteTracks n ok => s.deleteTracks n ok
  | .deleteArchive n ok => s.deleteArchive n ok

def trackSystem (maxSessions : Int) : System State Action where
  init := fun s => s = .initial maxSessions
  step := State.step

/-! ## What is claimed of the rows -/

/-- The row of the archive exists. -/
def State.stored (s : State) (archiveID : Int) : Bool :=
  (s.server.archives.getSessionArchive archiveID).isSome

/-- Every recorded track refers to an archive. -/
def Backed (s : State) : Prop :=
  ∀ r ∈ s.archiveTracks.rows, s.stored r.sessionArchiveID = true

/-- No `DeleteSessionArchive` is in progress. -/
def Quiet (s : State) : Prop := ∀ p ∈ s.deletes, p.inProgress = false

instance (s : State) : Decidable (Backed s) :=
  inferInstanceAs (Decidable (∀ r ∈ s.archiveTracks.rows, s.stored r.sessionArchiveID = true))

instance (s : State) : Decidable (Quiet s) :=
  inferInstanceAs (Decidable (∀ p ∈ s.deletes, p.inProgress = false))

/-- The archive whose row the RPC is about to delete. -/
def DeletePhase.target : DeletePhase → Option Int
  | .deletingArchive id => some id
  | _ => none

/-- The guard of `tracks_backed`: no track is recorded for an archive that is
deleted, or that is between the two statements that delete it. -/
def Unrecorded (s : State) : Action → Prop
  | .addSessionArchiveTrack q _ ok _ =>
    ok = true → ∀ archiveID ∈ s.archiveID q,
      s.stored archiveID = true ∧ .deletingArchive archiveID ∉ s.deletes
  | _ => True

/-- What a step must find to leave every row with an archive: an insertion finds
the archive, and the `DELETE` of an archive finds no recorded track of it. -/
def RowsSpared (s : State) : Action → Prop
  | .addSessionArchiveTrack q _ ok _ =>
    ok = true → ∀ archiveID ∈ s.archiveID q, s.stored archiveID = true
  | .deleteArchive n ok =>
    ok = true → ∀ id ∈ (s.deletes[n]?).bind DeletePhase.target,
      ∀ r ∈ s.archiveTracks.rows, r.sessionArchiveID ≠ id
  | _ => True

instance (s : State) (a : Action) : Decidable (Unrecorded s a) := by
  cases a <;> unfold Unrecorded <;> infer_instance

/-- The archive of a live session is deleted, and the loop records the next
track. -/
theorem dangling_track :
    ∃ s, Reachable (trackSystem 50) s ∧ Quiet s ∧ s.deletes = [.returned none] ∧
      s.server.manager.sessions.lookup "guild" = some 0 ∧ ¬ Backed s := by
  obtain ⟨s, hs, hp⟩ := Reachable.of_run (S := trackSystem 50)
    (p := fun s => decide (Quiet s ∧ s.deletes = [.returned none] ∧
      s.server.manager.sessions.lookup "guild" = some 0 ∧ ¬ Backed s))
    [.server (.begin 0 "guild" true), .server (.insertArchive 0 true 0),
      .server (.readArchive 0 true), .server (.createSession 0), .server (.send 0),
      .server .receive, .server (.ready 0 true), .addSessionArchiveTrack 0 7 true 1,
      .begin 1 true, .deleteTracks 0 true, .deleteArchive 0 true,
      .addSessionArchiveTrack 0 8 true 2]
    rfl (by decide +kernel)
  exact ⟨s, hs, of_decide_eq_true hp⟩

/-! ## What a step does to the rows -/

namespace ArchiveTracksLemmas

/-- The server only ever adds archives. -/
theorem server_archives {s t : Archives.State} {a : Archives.Action} (h : s.step a = some t) :
    t.archives = s.archives ∨ ∃ id now, t.archives = s.archives.insert id now := by
  cases a with
  | begin n id archive =>
    obtain ⟨-, rfl⟩ := Archives.State.begin_eq_some h
    exact .inl rfl
  | insertArchive n ok now =>
    obtain ⟨id, -, rfl | rfl⟩ := Archives.State.insertArchive_eq_some h
    · exact .inr ⟨id, now, rfl⟩
    · exact .inl rfl
  | readArchive n ok =>
    obtain ⟨id, archiveID, -, ⟨archive, -, rfl⟩ | ⟨-, rfl⟩⟩ :=
      Archives.State.readArchive_eq_some h
    · exact .inl rfl
    · exact .inl rfl
  | createSession n =>
    obtain ⟨id, archiveID, -, ⟨err, -, rfl⟩ | ⟨m, q, -, rfl⟩⟩ :=
      Archives.State.createSession_eq_some h
    · exact .inl rfl
    · exact .inl rfl
  | send n =>
    obtain ⟨id, m, ⟨-, -, rfl⟩ | ⟨-, -, rfl⟩⟩ := Archives.State.send_eq_some h
    · exact .inl rfl
    · exact .inl rfl
  | cancel n =>
    obtain ⟨id, ⟨-, rfl⟩ | ⟨-, rfl⟩⟩ := Archives.State.cancel_eq_some h
    · exact .inl rfl
    · exact .inl rfl
  | ready n ok =>
    obtain ⟨id, -, rfl⟩ := Archives.State.ready_eq_some h
    exact .inl rfl
  | deleteSession n id =>
    obtain ⟨-, rfl⟩ := Archives.State.deleteSession_eq_some h
    exact .inl rfl
  | receive =>
    obtain ⟨p, -, rfl⟩ := Archives.State.receive_eq_some h
    exact .inl rfl

theorem stored_server {s : State} {t : Archives.State} {a : Archives.Action}
    (h : s.server.step a = some t) {archiveID : Int} (hs : s.stored archiveID = true) :
    ({ s with server := t } : State).stored archiveID = true := by
  show (t.archives.getSessionArchive archiveID).isSome = true
  rcases server_archives h with he | ⟨id, now, he⟩
  · rw [he]
    exact hs
  · rw [he, SessionArchives.getSessionArchive_isSome]
    obtain ⟨r, hr, hid⟩ := SessionArchives.getSessionArchive_isSome.mp hs
    exact ⟨r, List.mem_append_left _ hr, hid⟩

theorem addSessionArchiveTrack_eq_some {s t : State} {q : QueueRef} {trackID now : Int} {ok : Bool}
    (h : s.addSessionArchiveTrack q trackID ok now = some t) :
    ∃ archiveID, s.archiveID q = some archiveID ∧
      (ok = true ∧ t = { s with archiveTracks := s.archiveTracks.insert archiveID trackID now } ∨
        ok = false ∧ t = s) := by
  unfold State.addSessionArchiveTrack at h
  split at h
  case h_1 => cases h
  case h_2 archiveID hq =>
    refine ⟨archiveID, hq, ?_⟩
    cases ok with
    | true =>
      cases h
      exact .inl ⟨rfl, rfl⟩
    | false =>
      cases h
      exact .inr ⟨rfl, rfl⟩

theorem deleteTracks_eq_some {s t : State} {n : Nat} {ok : Bool}
    (h : s.deleteTracks n ok = some t) :
    ∃ id, s.deletes[n]? = some (.deletingTracks id) ∧
      (ok = true ∧ t = { s.move n (.deletingArchive id) with
          archiveTracks := s.archiveTracks.deleteOf id } ∨
        ok = false ∧ t = s.move n (.returned (some .internal))) := by
  unfold State.deleteTracks at h
  split at h
  case h_2 => cases h
  case h_1 id hn =>
    refine ⟨id, hn, ?_⟩
    cases ok with
    | true =>
      cases h
      exact .inl ⟨rfl, rfl⟩
    | false =>
      cases h
      exact .inr ⟨rfl, rfl⟩

theorem deleteArchive_eq_some {s t : State} {n : Nat} {ok : Bool}
    (h : s.deleteArchive n ok = some t) :
    ∃ id, s.deletes[n]? = some (.deletingArchive id) ∧
      (ok = true ∧ t = { s.move n (.returned none) with
          server := { s.server with archives := s.server.archives.delete id } } ∨
        ok = false ∧ t = s.move n (.returned (some .internal))) := by
  unfold State.deleteArchive at h
  split at h
  case h_2 => cases h
  case h_1 id hn =>
    refine ⟨id, hn, ?_⟩
    cases ok with
    | true =>
      cases h
      exact .inl ⟨rfl, rfl⟩
    | false =>
      cases h
      exact .inr ⟨rfl, rfl⟩

/-- The recorded tracks are unbacked after the `DELETE` of `id` exactly when
there are some of it. -/
theorem backed_delete_iff {s t : State} {id : Int} (hs : Backed s)
    (harchives : t.server.archives = s.server.archives.delete id)
    (htracks : t.archiveTracks = s.archiveTracks) :
    Backed t ↔ ∀ r ∈ s.archiveTracks.rows, r.sessionArchiveID ≠ id := by
  unfold Backed State.stored
  rw [harchives, htracks]
  simp only [SessionArchives.getSessionArchive_delete_isSome]
  exact ⟨fun h r hr => (h r hr).2, fun h r hr => ⟨hs r hr, h r hr⟩⟩

end ArchiveTracksLemmas

open ArchiveTracksLemmas

/-- Every row refers to an archive after a step from a state in which every row
does, exactly when the step spares them. -/
theorem step_backed_iff {s t : State} {a : Action} (hs : Backed s) (h : s.step a = some t) :
    Backed t ↔ RowsSpared s a := by
  cases a with
  | server a =>
    obtain ⟨t, ht, rfl⟩ := Option.map_eq_some_iff.mp h
    exact iff_of_true (fun r hr => stored_server ht (hs r hr)) trivial
  | addSessionArchiveTrack q trackID ok now =>
    obtain ⟨archiveID, hq, ⟨rfl, rfl⟩ | ⟨rfl, rfl⟩⟩ := addSessionArchiveTrack_eq_some h
    · constructor
      · intro ht _ archiveID' hq'
        cases hq.symm.trans hq'
        exact ht _ (SessionArchiveTracks.mem_insert.mpr (.inr rfl))
      · intro hg r hr
        rcases SessionArchiveTracks.mem_insert.mp hr with hr | rfl
        · exact hs r hr
        · exact hg rfl archiveID hq
    · exact iff_of_true hs nofun
  | begin id ok =>
    cases h
    exact iff_of_true hs trivial
  | deleteTracks n ok =>
    refine iff_of_true ?_ trivial
    obtain ⟨id, -, ⟨-, rfl⟩ | ⟨-, rfl⟩⟩ := deleteTracks_eq_some h
    · exact fun r hr => hs r (SessionArchiveTracks.mem_deleteOf.mp hr).1
    · exact hs
  | deleteArchive n ok =>
    obtain ⟨id, hn, ⟨rfl, rfl⟩ | ⟨rfl, rfl⟩⟩ := deleteArchive_eq_some h
    · refine Iff.trans (backed_delete_iff hs rfl rfl) ?_
      simp [RowsSpared, hn, DeletePhase.target]
    · exact iff_of_true hs nofun

/-! ## The two statements of a `DeleteSessionArchive` -/

/-- Nothing is recorded for an archive between the two statements. -/
def Emptied (s : State) : Prop :=
  ∀ id, .deletingArchive id ∈ s.deletes → ∀ r ∈ s.archiveTracks.rows, r.sessionArchiveID ≠ id

namespace ArchiveTracksLemmas

/-- An RPC that is done adds nothing to the deletions in between. -/
theorem deletingArchive_of_mem_set {l : List DeletePhase} {n : Nat} {code : Option Code} {id : Int}
    (h : .deletingArchive id ∈ l.set n (.returned code)) : .deletingArchive id ∈ l := by
  rcases List.mem_or_eq_of_mem_set h with h | h
  · exact h
  · cases h

theorem emptied_step {s t : State} {a : Action} (hs : Emptied s) (hg : Unrecorded s a)
    (h : s.step a = some t) : Emptied t := by
  cases a with
  | server a =>
    obtain ⟨t, -, rfl⟩ := Option.map_eq_some_iff.mp h
    exact hs
  | addSessionArchiveTrack q trackID ok now =>
    obtain ⟨archiveID, hq, ⟨rfl, rfl⟩ | ⟨rfl, rfl⟩⟩ := addSessionArchiveTrack_eq_some h
    · intro id hid r hr
      rcases SessionArchiveTracks.mem_insert.mp hr with hr | rfl
      · exact hs id hid r hr
      · rintro rfl
        exact (hg rfl archiveID hq).2 hid
    · exact hs
  | begin id ok =>
    cases h
    intro id' hid
    rcases List.mem_append.mp hid with hid | hid
    · exact hs id' hid
    · -- the RPC is before its first statement, or has returned
      rw [List.mem_singleton] at hid
      split at hid
      · split at hid <;> cases hid
      · cases hid
  | deleteTracks n ok =>
    obtain ⟨id, -, ⟨-, rfl⟩ | ⟨-, rfl⟩⟩ := deleteTracks_eq_some h
    · intro id' hid r hr
      obtain ⟨hr, hne⟩ := SessionArchiveTracks.mem_deleteOf.mp hr
      rcases List.mem_or_eq_of_mem_set hid with hid | hid
      · exact hs id' hid r hr
      · cases hid
        exact hne
    · exact fun id' hid => hs id' (deletingArchive_of_mem_set hid)
  | deleteArchive n ok =>
    obtain ⟨id, -, ⟨-, rfl⟩ | ⟨-, rfl⟩⟩ := deleteArchive_eq_some h
    · exact fun id' hid => hs id' (deletingArchive_of_mem_set hid)
    · exact fun id' hid => hs id' (deletingArchive_of_mem_set hid)

theorem rowsSpared_of_emptied {s : State} {a : Action} (hs : Emptied s) (hg : Unrecorded s a) :
    RowsSpared s a := by
  cases a with
  | addSessionArchiveTrack q trackID ok now => exact fun hok id hid => (hg hok id hid).1
  | deleteArchive n ok =>
    intro _ id hid
    obtain ⟨p, hp, htarget⟩ := Option.bind_eq_some_iff.mp hid
    cases p with
    | deletingArchive id' =>
      cases htarget
      exact hs _ (List.mem_of_getElem? hp)
    | deletingTracks id' => cases htarget
    | returned code => cases htarget
  | server a => trivial
  | begin id ok => trivial
  | deleteTracks n ok => trivial

end ArchiveTracksLemmas

/-- In every run in which no track is recorded for an archive that is deleted or
between the two statements, every recorded track refers to an archive. -/
theorem tracks_backed {maxSessions : Int} {s : State}
    (h : Reach (trackSystem maxSessions) Unrecorded s) : Backed s := by
  have hinv : Backed s ∧ Emptied s := by
    refine h.invariant (I := fun s => Backed s ∧ Emptied s) (fun s hs => ?_) ?_
    · cases hs
      exact ⟨nofun, nofun⟩
    · rintro s a t - ⟨hbacked, hempty⟩ hg ht
      have hspared := rowsSpared_of_emptied hempty hg
      exact ⟨(step_backed_iff hbacked ht).mpr hspared, emptied_step hempty hg ht⟩
  exact hinv.1

/-- Two archives, of which the one that is no longer played is deleted. -/
theorem tracks_backed_deleted :
    ∃ s, s.deletes = [.returned none] ∧
      s.archiveTracks.rows.map SessionArchiveTrack.sessionArchiveID = [2] ∧ Backed s := by
  obtain ⟨s, hs, hp⟩ := Reach.of_guardedRun (S := trackSystem 50) (C := Unrecorded)
    (p := fun s => decide (s.deletes = [.returned none] ∧
      s.archiveTracks.rows.map SessionArchiveTrack.sessionArchiveID = [2]))
    [.server (.begin 0 "guild" true), .server (.insertArchive 0 true 0),
      .server (.readArchive 0 true), .server (.createSession 0),
      .server (.begin 1 "lounge" true), .server (.insertArchive 1 true 0),
      .server (.readArchive 1 true), .server (.createSession 1),
      .addSessionArchiveTrack 0 7 true 1, .begin 1 true, .addSessionArchiveTrack 1 8 true 2,
      .addSessionArchiveTrack 0 7 true 2, .deleteTracks 0 true,
      .addSessionArchiveTrack 0 9 false 2, .deleteArchive 0 true]
    rfl (by decide +kernel)
  obtain ⟨hdeletes, hrows⟩ := of_decide_eq_true hp
  exact ⟨s, hdeletes, hrows, tracks_backed hs⟩

end ArchiveTracks

end RadioJockey
