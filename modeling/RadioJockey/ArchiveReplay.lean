import Mathlib.Data.Int.Order.Basic
import RadioJockey.ArchiveTracks
import RadioJockey.Lib.OrderBy
import RadioJockey.QueueOrder

/-!
# Replaying an archive (`db/session_archives.go`, `icecast.go`)

`playCurrentTrack` records the track between `Peek` and the start of the track,
and `ListSessionArchiveTracks` recovers the order of the tracks from
`played_at`, which counts seconds.

1. `replay_out_of_order`: two tracks that are recorded in one second may be
   listed the other way round.
2. `replays_iff`: in every reachable state, every listing shows the recorded
   tracks in the order in which they were played exactly when no two different
   tracks were recorded in one second.
-/

namespace RadioJockey

open OrderBy

/-- The rows of the `JOIN`, of one archive. -/
def joinTracks (d : TracksTable) (a : SessionArchiveTracks) (archiveID : Int) :
    List (SessionArchiveTrack × Track) :=
  (a.rows.filter fun r => r.sessionArchiveID = archiveID).flatMap fun r =>
    (d.rows.filter fun t => r.trackID = t.id).map fun t => (r, t)

/-- `ListSessionArchiveTracks` may return `out`. -/
def ListsSessionArchiveTracks (d : TracksTable) (a : SessionArchiveTracks) (archiveID : Int)
    (out : List Track) : Prop :=
  ∃ l, OrderedBy (fun p => p.1.playedAt) (joinTracks d a archiveID) l ∧ out = l.map Prod.snd

namespace ArchiveReplay

open Transition Playback

/-- A successful `AddSessionArchiveTrack` of the playback loop. -/
structure Play where
  entry : Entry
  playedAt : Int
  deriving DecidableEq

/-- `recorded`: the loop is past `AddSessionArchiveTrack`, and before the start
of the track. `plays` is for the statements, the oldest first. -/
structure State where
  playback : Playback.State
  tracks : TracksTable
  archiveTracks : SessionArchiveTracks
  recorded : Bool
  clock : Int
  plays : List Play

namespace State

/-- A new session, whose archive has no tracks. -/
def initial (id : SessionID) (archiveID : Int) (tracks : TracksTable)
    (archiveTracks : SessionArchiveTracks) (clock : Int) : State where
  playback := .initial id (some archiveID)
  tracks := tracks
  archiveTracks := archiveTracks
  recorded := false
  clock := clock
  plays := []

/-- Tracks are enqueued as they were read from the table, and a track starts
after it was recorded, if the session is archived. -/
def allows (s : State) : Playback.Action → Bool
  | .append _ track => s.tracks.rows.any fun r => r.id = track.id
  | .watchForSkip => s.recorded || s.playback.queue.archiveID.isNone
  | _ => true

/-- A step of the loop, of its clients or of a timer. -/
def play (s : State) (a : Playback.Action) : Option State :=
  if s.allows a then
    (s.playback.step a).map fun t =>
      { s with playback := t, recorded := s.recorded && a ≠ .watchForSkip }
  else none

/-- `AddSessionArchiveTrack`. A failure is logged. -/
def record (s : State) (ok : Bool) (now : Int) : Option State :=
  match s.playback.loop, s.playback.queue.archiveID with
  | .peeked e, some archiveID =>
    if s.recorded = true ∨ now < s.clock then none
    else if ok then some { s with
      archiveTracks := s.archiveTracks.insert archiveID e.track.id now
      recorded := true
      clock := now
      plays := s.plays ++ [⟨e, now⟩] }
    else some { s with recorded := true, clock := now }
  | _, _ => none

/-- The loop of another session records a track. -/
def recordOther (s : State) (archiveID trackID now : Int) : Option State :=
  if s.playback.queue.archiveID = some archiveID ∨ now < s.clock then none
  else some { s with
    archiveTracks := s.archiveTracks.insert archiveID trackID now
    clock := now }

end State

inductive Action
  | play (a : Playback.Action)
  | record (ok : Bool) (now : Int)
  | recordOther (archiveID trackID now : Int)
  | createTrack (source sourceID title artist filePath : String) (duration : Int)
      (albumArtURL : String) (now : Int)
  | updateTrackAlbumArtURL (trackID : Int) (albumArtURL : String)
  | touchTrackLastUsed (trackID now : Int)
  deriving DecidableEq

def State.step (s : State) : Action → Option State
  | .play a => s.play a
  | .record ok now => s.record ok now
  | .recordOther archiveID trackID now => s.recordOther archiveID trackID now
  | .createTrack source sourceID title artist filePath duration albumArtURL now =>
    (s.tracks.insert source sourceID title artist filePath duration albumArtURL now).map
      fun d => { s with tracks := d }
  | .updateTrackAlbumArtURL trackID albumArtURL =>
    some { s with tracks := s.tracks.updateTrackAlbumArtURL trackID albumArtURL }
  | .touchTrackLastUsed trackID now =>
    some { s with tracks := s.tracks.touchTrackLastUsed trackID now }

/-- The archived sessions, over any tables. -/
def replaySystem : System State Action where
  init := fun s => ∃ id archiveID tracks archiveTracks clock,
    (∀ r ∈ archiveTracks.rows, r.sessionArchiveID ≠ archiveID) ∧
      s = .initial id archiveID tracks archiveTracks clock
  step := State.step

/-! ## What is claimed of the listing -/

def Play.trackID (p : Play) : Int := p.entry.track.id

/-- Every listing shows the recorded tracks in the order in which they were
played. -/
def Replays (s : State) : Prop :=
  ∀ archiveID, s.playback.queue.archiveID = some archiveID →
    ∀ out, ListsSessionArchiveTracks s.tracks s.archiveTracks archiveID out →
      out.map Track.id = s.plays.map Play.trackID

/-- No two different tracks were recorded in one second. -/
def DistinctSeconds (s : State) : Prop := TiesAgree Play.playedAt Play.trackID s.plays

instance (s : State) : Decidable (DistinctSeconds s) :=
  inferInstanceAs (Decidable (List.Pairwise _ _))

/-- The user skips the first track in the second in which it started. -/
theorem replay_out_of_order :
    ∃ s, Reachable replaySystem s ∧ s.plays.map Play.trackID = [1, 2] ∧
      ∃ out, ListsSessionArchiveTracks s.tracks s.archiveTracks 1 out ∧
        out.map Track.id = [2, 1] ∧ ¬ Replays s := by
  obtain ⟨s, hs, hp⟩ := Reachable.of_run (S := replaySystem)
    (p := fun s => decide (s.plays.map Play.trackID = [1, 2] ∧
      s.playback.queue.archiveID = some 1 ∧
      OrderedBy (fun p : SessionArchiveTrack × Track => p.1.playedAt)
        (joinTracks s.tracks s.archiveTracks 1)
        (joinTracks s.tracks s.archiveTracks 1).reverse ∧
      ((joinTracks s.tracks s.archiveTracks 1).reverse.map Prod.snd).map Track.id = [2, 1]))
    [.createTrack "youtube" "a" "A" "" "/music/youtube/a.opus" 213 "" 0,
      .createTrack "youtube" "b" "B" "" "/music/youtube/b.opus" 187 "" 0,
      .play (.append 0 (song 1)), .play (.append 1 (song 2)), .play (.connect true),
      .play .peek, .record true 5, .play .watchForSkip, .play .skip, .play .watcherReceive,
      .play (.trackEnds .cancelled), .play .stop, .play .dequeue, .play .peek, .record true 5]
    (show replaySystem.init (.initial "guild" 1 .empty .empty 0) from
      ⟨_, _, _, _, _, by simp [SessionArchiveTracks.empty], rfl⟩) (by decide +kernel)
  obtain ⟨hplays, harchive, hlists, hout⟩ := of_decide_eq_true hp
  refine ⟨s, hs, hplays, _, ⟨_, hlists, rfl⟩, hout, fun h => ?_⟩
  have hreplayed := h 1 harchive _ ⟨_, hlists, rfl⟩
  rw [hout, hplays] at hreplayed
  cases hreplayed

/-! ## The tracks of the queue -/

/-- The table has a row for the track. -/
def Stored (d : TracksTable) (trackID : Int) : Prop := ∃ r ∈ d.rows, r.id = trackID

/-- The session keeps its archive. Every entry of the queue is stored, and so is
the one that the loop has in hand. -/
structure QueueStored (d : TracksTable) (archiveID : Int) (s : Playback.State) : Prop where
  archived : s.queue.archiveID = some archiveID
  queued : ∀ e ∈ s.queue.tracks, Stored d e.track.id
  current : ∀ e, s.loop.current = some e → Stored d e.track.id

namespace ArchiveReplayLemmas

theorem queueStored_step {d : TracksTable} {archiveID : Int} {s t : Playback.State}
    {a : Playback.Action} (hs : QueueStored d archiveID s)
    (ha : ∀ n track, a = .append n track → Stored d track.id) (h : s.step a = some t) :
    QueueStored d archiveID t := by
  cases a with
  | append n track =>
    obtain ⟨-, ⟨err, rfl⟩ | ⟨q, hq, rfl⟩⟩ := Playback.State.append_eq_some h
    · exact ⟨hs.archived, hs.queued, hs.current⟩
    · obtain ⟨-, htracks, -, -, -, harchive⟩ := SessionQueue.enqueue_eq_ok hq
      refine ⟨harchive.trans hs.archived, fun e he => ?_, hs.current⟩
      rw [show q.tracks = _ from htracks] at he
      rcases List.mem_append.mp he with he | he
      · exact hs.queued e he
      · rw [List.mem_singleton.mp he]
        exact ha n track rfl
  | removeTrack index =>
    rcases Playback.State.removeTrack_eq_some h with rfl | ⟨q, e, -, hq, -, rfl⟩
    · exact hs
    · obtain ⟨-, -, -, -, -, harchive⟩ := SessionQueue.remove_eq_ok hq
      have hsub := SessionQueue.remove_sublist hq
      exact ⟨harchive.trans hs.archived, fun e he => hs.queued e (hsub.subset he), hs.current⟩
  | dequeue =>
    obtain ⟨e, -, ⟨-, rfl⟩ | ⟨e', q, hq, rfl⟩⟩ := Playback.State.dequeue_eq_some h
    · exact ⟨hs.archived, hs.queued, nofun⟩
    · obtain ⟨-, -, -, -, harchive⟩ := SessionQueue.dequeue_eq_ok hq
      have hsub := SessionQueue.dequeue_sublist hq
      exact ⟨harchive.trans hs.archived, fun e he => hs.queued e (hsub.subset he), nofun⟩
  | _ =>
    have hkept := kept_of_step rfl h
    refine ⟨hkept.archiveID.trans hs.archived, hkept.tracks ▸ hs.queued, fun e he => ?_⟩
    rcases hkept.current e he with he | he
    · exact hs.current e he
    · exact hs.queued e (List.mem_of_mem_head? he)

theorem queueStored_mono {d d' : TracksTable} {archiveID : Int} {s : Playback.State}
    (hs : QueueStored d archiveID s) (hd : ∀ id, Stored d id → Stored d' id) :
    QueueStored d' archiveID s :=
  ⟨hs.archived, fun e he => hd _ (hs.queued e he), fun e he => hd _ (hs.current e he)⟩

/-! ## The rows of the archive -/

theorem stored_insert {d d' : TracksTable} {source sourceID title artist filePath : String}
    {duration : Int} {albumArtURL : String} {now : Int}
    (h : d.insert source sourceID title artist filePath duration albumArtURL now = some d')
    {id : Int} : Stored d id → Stored d' id := by
  rintro ⟨r, hr, hid⟩
  refine ⟨r, ?_, hid⟩
  rw [TracksTable.insert_rows h]
  exact List.mem_append_left _ hr

theorem stored_update {d : TracksTable} {trackID : Int} {f : Track → Track}
    {hid : ∀ r, (f r).id = r.id} {hkey : ∀ r, (f r).key = r.key} {id : Int} :
    Stored d id → Stored (d.update trackID f hid hkey) id := by
  rintro ⟨r, hr, rfl⟩
  refine ⟨_, List.mem_map_of_mem hr, ?_⟩
  split
  · exact hid r
  · rfl

/-- A stored track has one row. -/
theorem filter_id {d : TracksTable} {id : Int} (h : Stored d id) :
    ∃ t, (d.rows.filter fun t => id = t.id) = [t] ∧ t.id = id := by
  obtain ⟨r, hr, rfl⟩ := h
  refine ⟨r, ?_, rfl⟩
  have hsame : (d.rows.filter fun t => r.id = t.id) = d.rows.filter (· = r) :=
    List.filter_congr fun t ht => by
      refine decide_eq_decide.mpr ⟨fun he => ?_, fun he => he ▸ rfl⟩
      exact TracksTable.eq_of_id ht hr he.symm
  have hnodup : d.rows.Nodup := List.Nodup.of_map _ d.ids
  rw [hsame, List.filter_eq, List.count_eq_one_of_mem hnodup hr, List.replicate_one]

/-- The rows of one archive. -/
def archiveRows (a : SessionArchiveTracks) (archiveID : Int) : List SessionArchiveTrack :=
  a.rows.filter fun r => r.sessionArchiveID = archiveID

/-- The `JOIN` keeps each row of the archive, once, with the track it names. -/
theorem sameColumns_joinTracks {d : TracksTable} {a : SessionArchiveTracks} {archiveID : Int}
    (h : ∀ r ∈ archiveRows a archiveID, Stored d r.trackID) :
    SameColumns (fun p => p.1.playedAt) (fun p => p.2.id) SessionArchiveTrack.playedAt
      SessionArchiveTrack.trackID (joinTracks d a archiveID) (archiveRows a archiveID) := by
  unfold SameColumns joinTracks
  change ((archiveRows a archiveID).flatMap _).map _ = _
  generalize archiveRows a archiveID = rows at h
  induction rows with
  | nil => rfl
  | cons r rows ih =>
    obtain ⟨t, ht, hid⟩ := filter_id (h r List.mem_cons_self)
    rw [List.flatMap_cons, ht, List.map_append, List.map_cons,
      ih fun r hr => h r (List.mem_cons_of_mem _ hr)]
    simp [hid]

/-- The archive has a row for each play, in the order of the plays, and their
times never fall. -/
structure ReplayInv (archiveID : Int) (s : State) : Prop where
  queue : QueueStored s.tracks archiveID s.playback
  stored : ∀ p ∈ s.plays, Stored s.tracks p.trackID
  rows : SameColumns SessionArchiveTrack.playedAt SessionArchiveTrack.trackID Play.playedAt
    Play.trackID (archiveRows s.archiveTracks archiveID) s.plays
  past : ∀ p ∈ s.plays, p.playedAt ≤ s.clock
  sorted : s.plays.Pairwise fun p q => p.playedAt ≤ q.playedAt

theorem archiveRows_insert {a : SessionArchiveTracks} {archiveID archiveID' trackID now : Int} :
    archiveRows (a.insert archiveID' trackID now) archiveID =
      archiveRows a archiveID ++
        if archiveID' = archiveID then [⟨a.nextID, archiveID', trackID, now⟩] else [] := by
  simp only [archiveRows, SessionArchiveTracks.insert, List.filter_append]
  split
  · next h => simp [h]
  · next h => simp [h]

theorem record_eq_some {s t : State} {ok : Bool} {now : Int} (h : s.record ok now = some t) :
    ∃ e archiveID, s.playback.loop = .peeked e ∧ s.playback.queue.archiveID = some archiveID ∧
      s.clock ≤ now ∧
      (t = { s with
        archiveTracks := s.archiveTracks.insert archiveID e.track.id now
        recorded := true
        clock := now
        plays := s.plays ++ [⟨e, now⟩] } ∨
      t = { s with recorded := true, clock := now }) := by
  unfold State.record at h
  split at h
  case h_2 => cases h
  case h_1 e archiveID hl ha =>
    refine ⟨e, archiveID, hl, ha, ?_⟩
    split at h
    · cases h
    · next hnow =>
      refine ⟨Int.not_lt.mp fun hlt => hnow (.inr hlt), ?_⟩
      split at h
      · cases h
        exact .inl rfl
      · cases h
        exact .inr rfl

theorem replayInv_record {archiveID : Int} {s t : State} {ok : Bool} {now : Int}
    (hs : ReplayInv archiveID s) (h : s.record ok now = some t) : ReplayInv archiveID t := by
  obtain ⟨e, archiveID', hl, ha, hnow, rfl | rfl⟩ := record_eq_some h
  · cases hs.queue.archived.symm.trans ha
    have hmem : ∀ {p}, p ∈ s.plays ++ [⟨e, now⟩] → p ∈ s.plays ∨ p = ⟨e, now⟩ := fun hp =>
      (List.mem_append.mp hp).imp_right List.mem_singleton.mp
    refine ⟨hs.queue, fun p hp => ?_, ?_, fun p hp => ?_, ?_⟩
    · rcases hmem hp with hp | rfl
      · exact hs.stored p hp
      · exact hs.queue.current e (by rw [hl]; rfl)
    · show (archiveRows (s.archiveTracks.insert archiveID e.track.id now) archiveID).map _ = _
      rw [archiveRows_insert, if_pos rfl, List.map_append, List.map_append,
        show List.map _ (archiveRows s.archiveTracks archiveID) = _ from hs.rows]
      rfl
    · rcases hmem hp with hp | rfl
      · exact (hs.past p hp).trans hnow
      · exact Int.le_refl now
    · refine List.pairwise_append.mpr ⟨hs.sorted, List.pairwise_singleton _ _, ?_⟩
      intro p hp q hq
      rw [List.mem_singleton.mp hq]
      exact (hs.past p hp).trans hnow
  · exact ⟨hs.queue, hs.stored, hs.rows, fun p hp => (hs.past p hp).trans hnow, hs.sorted⟩

/-- The tables only gain tracks. -/
theorem replayInv_tracks {archiveID : Int} {s : State} {d : TracksTable}
    (hs : ReplayInv archiveID s) (hd : ∀ id, Stored s.tracks id → Stored d id) :
    ReplayInv archiveID { s with tracks := d } :=
  ⟨queueStored_mono hs.queue hd, fun p hp => hd _ (hs.stored p hp), hs.rows, hs.past, hs.sorted⟩

theorem replayInv_step {archiveID : Int} {s t : State} {a : Action} (hs : ReplayInv archiveID s)
    (h : s.step a = some t) : ReplayInv archiveID t := by
  cases a with
  | play a =>
    simp only [State.step, State.play] at h
    split at h
    case isFalse => cases h
    case isTrue hallows =>
      obtain ⟨t, ht, rfl⟩ := Option.map_eq_some_iff.mp h
      refine ⟨queueStored_step hs.queue ?_ ht, hs.stored, hs.rows, hs.past, hs.sorted⟩
      rintro n track rfl
      obtain ⟨r, hr, hid⟩ := List.any_eq_true.mp hallows
      exact ⟨r, hr, of_decide_eq_true hid⟩
  | record ok now => exact replayInv_record hs h
  | recordOther archiveID' trackID now =>
    simp only [State.step, State.recordOther] at h
    split at h
    case isTrue => cases h
    case isFalse hno =>
      cases h
      have hne : archiveID' ≠ archiveID := fun he => hno (.inl (he ▸ hs.queue.archived))
      have hnow : s.clock ≤ now := Int.not_lt.mp fun hlt => hno (.inr hlt)
      refine ⟨hs.queue, hs.stored, ?_, fun p hp => (hs.past p hp).trans hnow, hs.sorted⟩
      show (archiveRows (s.archiveTracks.insert archiveID' trackID now) archiveID).map _ = _
      rw [archiveRows_insert, if_neg hne, List.append_nil]
      exact hs.rows
  | createTrack source sourceID title artist filePath duration albumArtURL now =>
    obtain ⟨d, hd, rfl⟩ := Option.map_eq_some_iff.mp h
    exact replayInv_tracks hs fun _ => stored_insert hd
  | updateTrackAlbumArtURL trackID albumArtURL =>
    cases h
    exact replayInv_tracks hs fun _ => stored_update
  | touchTrackLastUsed trackID now =>
    cases h
    exact replayInv_tracks hs fun _ => stored_update

theorem replayInv_initial {id : SessionID} {archiveID : Int} {tracks : TracksTable}
    {archiveTracks : SessionArchiveTracks} {clock : Int}
    (hnew : ∀ r ∈ archiveTracks.rows, r.sessionArchiveID ≠ archiveID) :
    ReplayInv archiveID (.initial id archiveID tracks archiveTracks clock) where
  queue := ⟨rfl, fun _ he => (nomatch he), fun _ he => nomatch he⟩
  stored := fun _ hp => nomatch hp
  rows := by
    have hnone : archiveRows archiveTracks archiveID = [] :=
      List.filter_eq_nil_iff.mpr fun r hr => by simpa using hnew r hr
    show (archiveRows archiveTracks archiveID).map _ = _
    rw [hnone]
    rfl
  past := fun _ hp => nomatch hp
  sorted := .nil

theorem sameColumns_joinTracks_plays {archiveID : Int} {s : State} (hs : ReplayInv archiveID s) :
    SameColumns (fun p => p.1.playedAt) (fun p => p.2.id) Play.playedAt Play.trackID
      (joinTracks s.tracks s.archiveTracks archiveID) s.plays := by
  refine Eq.trans (sameColumns_joinTracks fun r hr => ?_) hs.rows
  have hmem : (r.playedAt, r.trackID) ∈ s.plays.map fun p => (p.playedAt, p.trackID) :=
    hs.rows ▸ List.mem_map_of_mem hr
  obtain ⟨p, hp, he⟩ := List.mem_map.mp hmem
  obtain ⟨-, he⟩ := Prod.mk.inj he
  exact he ▸ hs.stored p hp

theorem replays_iff_of_archived {archiveID : Int} {s : State}
    (ha : s.playback.queue.archiveID = some archiveID) :
    Replays s ↔ ∀ out, OrderedBy (fun p => p.1.playedAt)
        (joinTracks s.tracks s.archiveTracks archiveID) out →
      out.map (fun p => p.2.id) = s.plays.map Play.trackID := by
  constructor
  · intro h l hl
    have := h archiveID ha _ ⟨l, hl, rfl⟩
    rwa [List.map_map] at this
  · rintro h archiveID' ha' _ ⟨l, hl, rfl⟩
    cases ha.symm.trans ha'
    rw [List.map_map]
    exact h l hl

end ArchiveReplayLemmas

open ArchiveReplayLemmas

/-- In every reachable state, every listing shows the recorded tracks, with
their repetitions and in the order in which they were played, exactly when no
two different tracks were recorded in one second. -/
theorem replays_iff {s : State} (h : Reachable replaySystem s) : Replays s ↔ DistinctSeconds s := by
  obtain ⟨archiveID, hinv⟩ : ∃ archiveID, ReplayInv archiveID s := by
    refine h.invariant (I := fun s => ∃ archiveID, ReplayInv archiveID s) ?_ ?_
    · rintro _ ⟨id, archiveID, tracks, archiveTracks, clock, hnew, rfl⟩
      exact ⟨archiveID, replayInv_initial hnew⟩
    · rintro s a t - ⟨archiveID, hi⟩ - ht
      exact ⟨archiveID, replayInv_step hi ht⟩
  have hcolumns := sameColumns_joinTracks_plays hinv
  have hsorted : (joinTracks s.tracks s.archiveTracks archiveID).Pairwise
      fun p q => p.1.playedAt ≤ q.1.playedAt :=
    (hcolumns.pairwise fun p q => p.1 ≤ q.1).mpr hinv.sorted
  calc Replays s ↔ ∀ out, OrderedBy (fun p => p.1.playedAt)
          (joinTracks s.tracks s.archiveTracks archiveID) out →
        out.map (fun p => p.2.id) = s.plays.map Play.trackID := by
        rw [replays_iff_of_archived hinv.queue.archived]
    _ ↔ TiesAgree (fun p => p.1.playedAt) (fun p => p.2.id)
        (joinTracks s.tracks s.archiveTracks archiveID) := by
        rw [← hcolumns.map_eq]
        exact map_eq_iff hsorted
    _ ↔ DistinctSeconds s := hcolumns.tiesAgree

/-- One track is played twice in a second, while another session is recorded,
and another track later. -/
theorem replays_repeated :
    ∃ s, s.plays.map Play.trackID = [1, 1, 2] ∧ s.archiveTracks.rows.length = 4 ∧
      Replays s := by
  obtain ⟨s, hs, hp⟩ := Reachable.of_run (S := replaySystem)
    (p := fun s => decide (s.plays.map Play.trackID = [1, 1, 2] ∧
      s.archiveTracks.rows.length = 4 ∧ DistinctSeconds s))
    [.createTrack "youtube" "a" "A" "" "/music/youtube/a.opus" 1 "" 0,
      .createTrack "youtube" "b" "B" "" "/music/youtube/b.opus" 187 "" 0,
      .play (.append 0 (song 1)), .play (.append 1 (song 1)), .play (.append 2 (song 2)),
      .play (.connect true), .play .peek, .record true 5, .play .watchForSkip,
      .recordOther 2 2 5, .play .skip, .play .watcherReceive, .play (.trackEnds .cancelled),
      .play .stop, .play .dequeue, .play .peek, .record true 5, .play .watchForSkip,
      .play (.trackEnds .ended), .play .watcherDone, .play .stop, .play .dequeue, .play .peek,
      .record true 6]
    (show replaySystem.init (.initial "guild" 1 .empty .empty 0) from
      ⟨_, _, _, _, _, by simp [SessionArchiveTracks.empty], rfl⟩) (by decide +kernel)
  obtain ⟨hplays, hrows, hseconds⟩ := of_decide_eq_true hp
  exact ⟨s, hplays, hrows, (replays_iff hs).mpr hseconds⟩

end ArchiveReplay

end RadioJockey
