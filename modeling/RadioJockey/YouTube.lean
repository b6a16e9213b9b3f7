import RadioJockey.AddTrack
import RadioJockey.Ytdlp

/-!
# A track from a URL (`music/youtube.go`, `connect/rpc.go`)

`DownloadTrackFromURL` from its first to its last line, for one call: any cache
and any table, any outcomes of the runs of yt-dlp and any end of the retries, and
any failing statement. What other calls do in between is in `AddTrack`.

1. `addTrack_codes`: a call that fails in one of the two retried stages fails
   with the code of that stage's last run.
2. `stale_path`: a row from another directory is returned with its old path.
3. `established_iff`: for every call that returns a track, its path is one that
   the call has found or downloaded if and only if the cached file was found or
   no row for the video has another path.
-/

namespace RadioJockey.YouTube

open Retry
open AddTrack (Outcome)

structure Tags where
  title : String
  artist : String

/-- Why the tags cannot be read. -/
inductive TagError
  | opening
  | reading

inductive Statement
  | getTrack
  | updateAlbumArtURL
  | insert
  | readBack
  deriving DecidableEq

/-- A call, and all that it meets. `hostname` is the host name of a URL that can
be parsed, in lower case. The runs of yt-dlp are numbered in each stage, and
`stat` says which files are there. -/
structure Call where
  url : String
  hostname : String → Option String
  peek : Nat → Output
  download : Nat → Output
  parseFloat : String → Option Int
  peekRun : OpRun (fun n => peekSourceID (peek n)) ""
  downloadRun : OpRun (fun n => ytdlp parseFloat (download n)) .zero
  stat : String → Bool
  tags : String → Except TagError Tags
  fails : Statement → Bool
  now : Int

def isYouTubeURL (hostname : String → Option String) (rawURL : String) : Bool :=
  match hostname rawURL with
  | none => false
  | some host =>
    ["youtube.com", "www.youtube.com", "m.youtube.com", "music.youtube.com", "youtu.be",
      "youtube-nocookie.com", "www.youtube-nocookie.com"].contains host

def extractTagMetadata : Except TagError Tags → Except MusicError Tags
  | .ok tags => .ok tags
  | .error .opening => .error (.wrap "opening downloaded file" .other)
  | .error .reading => .error .other

/-- `DownloadTrackFromURL` dereferences a nil track when `CreateTrack` fails. -/
inductive Downloaded
  | track (t : Track)
  | error (err : MusicError)
  | panicked
  deriving DecidableEq

namespace Call

variable (c : Call)

/-- The video id after the first stage. -/
def sourceID : String := c.peekRun.final.value

/-- The result after the second stage. -/
def result : YtdlpResult := c.downloadRun.final.value

/-- The cached track, if there is one and its file is there. -/
def cached (cache : Cache) : Option Track × Cache :=
  match cache.get c.sourceID with
  | none => (none, cache)
  | some (track, cache) => (if c.stat track.filePath then some track else none, cache)

def getTrack (st : Statement) (db : TracksTable) (sourceID : String) : Option Track :=
  if c.fails st then none else db.getTrack sourceID

def createTrack (db : TracksTable) (tags : Tags) : Option Track × TracksTable :=
  if c.fails .insert then (none, db)
  else match db.insert source c.result.sourceID tags.title tags.artist c.result.filePath
      c.result.duration (albumArtURL c.result.sourceID) c.now with
    | none => (none, db)
    | some db => (c.getTrack .readBack db c.result.sourceID, db)

/-- From `GetTrack` on. -/
def record (db : TracksTable) (tags : Tags) : Downloaded × TracksTable :=
  match c.getTrack .getTrack db c.result.sourceID with
  | some track =>
    if c.fails .updateAlbumArtURL then (.error .other, db)
    else (.track { track with albumArtURL := albumArtURL c.result.sourceID },
      db.updateTrackAlbumArtURL track.id (albumArtURL c.result.sourceID))
  | none =>
    match c.createTrack db tags with
    | (some track, db) => (.track track, db)
    | (none, db) => (.panicked, db)

/-- From the download on. -/
def fetch (db : TracksTable) : Downloaded × TracksTable :=
  match withRetry c.downloadRun with
  | some err => (.error (.wrap c.url err), db)
  | none =>
    match extractTagMetadata (c.tags c.result.filePath) with
    | .error err => (.error err, db)
    | .ok tags => c.record db tags

def downloadTrackFromURL (cache : Cache) (db : TracksTable) :
    Downloaded × Cache × TracksTable :=
  if isYouTubeURL c.hostname c.url then
    match withRetry c.peekRun with
    | some err => (.error (.wrap c.url err), cache, db)
    | none =>
      match c.cached cache with
      | (some track, cache) => (.track track, cache, db)
      | (none, cache) => ((c.fetch db).1, cache, (c.fetch db).2)
  else (.error (.wrap c.url (.sentinel .errInvalidURL)), cache, db)

/-- What `AddTrack` returns. It only logs an error of `Touch`. -/
def addTrack (cache : Cache) (db : TracksTable) (m : SessionManager Track) (sid : SessionID) :
    Outcome :=
  match (c.downloadTrackFromURL cache db).1 with
  | .error err => .error (rpcErrorToCode err.toRpcError)
  | .panicked => .panicked
  | .track track =>
    match m.getQueue sid with
    | .error err => .error (rpcErrorToCode (.session err))
    | .ok q =>
      match (m.queues[q]?).map (SessionQueue.enqueue · track) with
      | some (.error err) => .error (rpcErrorToCode (.session err))
      | _ => .ok

end Call

/-! ## The codes of the two stages -/

/-- The code is the one of the last run: of the two kinds that are not retried,
or else internal. -/
def CodeOfLast {α : Type} {op : Nat → α × Option MusicError} {zero : α} (run : OpRun op zero)
    (outcome : Outcome) : Prop :=
  ∃ code, outcome = .error code ∧ (code = .invalidArgument ↔ LastIs run .errInvalidURL) ∧
    (code = .notFound ↔ LastIs run .errVideoUnavailable) ∧
    (¬ LastIs run .errInvalidURL → ¬ LastIs run .errVideoUnavailable → code = .internal)

theorem codeOfLast {α : Type} {op : Nat → α × Option MusicError} {zero : α}
    {run : OpRun op zero} {err : MusicError} (h : withRetry run = some err) (url : String) :
    CodeOfLast run (.error (rpcErrorToCode (MusicError.wrap url err).toRpcError)) := by
  have hinvalid := withRetry_is h (.inl rfl)
  have hunavailable := withRetry_is h (.inr rfl)
  refine ⟨_, rfl, ?_⟩
  rw [← hinvalid, ← hunavailable, MusicError.toRpcError, MusicError.is, MusicError.is]
  by_cases hi : err.is .errInvalidURL = true
  · have hu : err.is .errVideoUnavailable ≠ true := fun hu => by
      cases MusicError.is_unique hi hu
    simp [hi, hu, rpcErrorToCode]
  · by_cases hu : err.is .errVideoUnavailable = true <;> simp [hi, hu, rpcErrorToCode]

/-- For every sequence of outcomes of both stages, and however their retries end:
each stage obeys the law of the retries, and a call that fails in a stage fails
with the code of the stage's last run. -/
theorem addTrack_codes (c : Call) (cache : Cache) (db : TracksTable)
    (m : SessionManager Track) (sid : SessionID) :
    StageLaw c.peekRun ∧ StageLaw c.downloadRun ∧
      (isYouTubeURL c.hostname c.url = true →
        (withRetry c.peekRun ≠ none → CodeOfLast c.peekRun (c.addTrack cache db m sid)) ∧
        (withRetry c.peekRun = none → (c.cached cache).1 = none → withRetry c.downloadRun ≠ none →
          CodeOfLast c.downloadRun (c.addTrack cache db m sid))) := by
  refine ⟨stageLaw _, stageLaw _, fun hurl => ⟨fun hpeek => ?_, fun hpeek hcached hdownload => ?_⟩⟩
  · obtain ⟨err, herr⟩ := Option.ne_none_iff_exists'.mp hpeek
    have hfails : c.downloadTrackFromURL cache db = (.error (.wrap c.url err), cache, db) := by
      rw [Call.downloadTrackFromURL, if_pos hurl, herr]
    rw [Call.addTrack, hfails]
    exact codeOfLast herr c.url
  · obtain ⟨err, herr⟩ := Option.ne_none_iff_exists'.mp hdownload
    have hfails : (c.downloadTrackFromURL cache db).1 = .error (.wrap c.url err) := by
      rw [Call.downloadTrackFromURL, if_pos hurl, hpeek]
      cases hcache : c.cached cache with
      | mk track cache' =>
        rw [hcache] at hcached
        cases hcached
        simp only [Call.fetch, herr]
    rw [Call.addTrack, hfails]
    exact codeOfLast herr c.url

/-! ## A server that has moved -/

/-- A row of a video, from before the music directory has moved. -/
def movedRow : Track :=
  ⟨1, source, "v", "title", "artist", 212, "/old/youtube/v.opus", 0, albumArtURL "v", 0⟩

def movedTable : TracksTable where
  rows := [movedRow]
  nextID := 2
  ids := by decide
  fresh := by decide
  unique := by decide

/-- Every run of yt-dlp succeeds, and only the new file is there. -/
def movedCall : Call where
  url := "https://youtu.be/v"
  hostname := fun _ => some "youtu.be"
  peek := fun _ => .ok "v\n"
  download := fun _ => .ok "v\n212\n/music/youtube/v.opus\n"
  parseFloat := fun _ => some 212
  peekRun := .ofDoRetry _ _ (by decide) false fun _ => false
  downloadRun := .ofDoRetry _ _ (by decide) false fun _ => false
  stat := fun path => path = "/music/youtube/v.opus"
  tags := fun _ => .ok ⟨"title", "artist"⟩
  fails := fun _ => false
  now := 0

/-- The same call for a video that is not there. -/
def unavailableCall : Call := { movedCall with
  peek := fun _ => .error (.exit "ERROR: [youtube] v: Video unavailable")
  peekRun := .ofDoRetry _ _ (by decide) false fun _ => false }

theorem addTrack_codes_unavailable :
    unavailableCall.addTrack .empty movedTable (.createSessionManager 1) "s" = .error .notFound ∧
      CodeOfLast unavailableCall.peekRun
        (unavailableCall.addTrack .empty movedTable (.createSessionManager 1) "s") :=
  ⟨by decide, ((addTrack_codes unavailableCall .empty movedTable (.createSessionManager 1) "s").2.2
    (by decide)).1 (by decide)⟩

/-! ## The path of the returned track -/

/-- The path is that of the cached file that was found, or else the one of the
download. -/
def Established (c : Call) (cache : Cache) (track : Track) : Prop :=
  match (c.cached cache).1 with
  | some found => track.filePath = found.filePath
  | none => track.filePath = c.result.filePath

/-- The row is returned with the path of the old directory, where no file is. -/
theorem stale_path :
    (movedCall.downloadTrackFromURL .empty movedTable).1 = .track movedRow ∧
      movedCall.stat movedRow.filePath = false ∧ ¬ Established movedCall .empty movedRow := by
  refine ⟨rfl, by decide, ?_⟩
  show movedRow.filePath ≠ movedCall.result.filePath
  decide

theorem getTrack_eq_some {c : Call} {st : Statement} {db : TracksTable} {sourceID : String}
    {track : Track} (h : c.getTrack st db sourceID = some track) :
    db.getTrack sourceID = some track := by
  rw [Call.getTrack] at h
  split at h
  · cases h
  · exact h

/-- The row that is read back after the `INSERT` is an older one for the video,
if there is one. -/
theorem createTrack_filePath {c : Call} {db db' : TracksTable} {tags : Tags} {track : Track}
    (h : c.createTrack db tags = (some track, db')) :
    track.filePath = c.result.filePath ↔
      ∀ r, db.getTrack c.result.sourceID = some r → r.filePath = c.result.filePath := by
  rw [Call.createTrack] at h
  split at h
  · cases h
  · split at h
    · cases h
    · next db₁ hinsert =>
      have hread := getTrack_eq_some (Prod.mk.inj h).1
      rw [TracksTable.getTrack_insert hinsert] at hread
      cases hrow : db.getTrack c.result.sourceID with
      | none =>
        rw [hrow, Option.none_or, Option.some_inj] at hread
        rw [← hread]
        exact iff_of_true rfl fun r hr => by cases hr
      | some r =>
        rw [hrow, Option.some_or, Option.some_inj] at hread
        simp [hread]

theorem record_filePath {c : Call} {db : TracksTable} {tags : Tags} {track : Track}
    (h : (c.record db tags).1 = .track track) :
    track.filePath = c.result.filePath ↔
      ∀ r, db.getTrack c.result.sourceID = some r → r.filePath = c.result.filePath := by
  rw [Call.record] at h
  split at h
  · next r hrow =>
    rw [getTrack_eq_some hrow]
    split at h
    · cases h
    · cases h
      simp
  · split at h
    · next created db' hcreate =>
      cases h
      exact createTrack_filePath hcreate
    · cases h

theorem fetch_filePath {c : Call} {db : TracksTable} {track : Track}
    (h : (c.fetch db).1 = .track track) :
    track.filePath = c.result.filePath ↔
      ∀ r, db.getTrack c.result.sourceID = some r → r.filePath = c.result.filePath := by
  rw [Call.fetch] at h
  split at h
  · cases h
  · split at h
    · cases h
    · exact record_filePath h

/-- For every cache, every table and every outcome, when a track is returned. -/
theorem established_iff {c : Call} {cache : Cache} {db : TracksTable} {track : Track}
    (h : (c.downloadTrackFromURL cache db).1 = .track track) :
    Established c cache track ↔ (c.cached cache).1 ≠ none ∨
      ∀ r, db.getTrack c.result.sourceID = some r → r.filePath = c.result.filePath := by
  rw [Call.downloadTrackFromURL] at h
  unfold Established
  split at h
  · split at h
    · cases h
    · split at h
      · next found cache' hcached =>
        cases h
        simp [hcached]
      · next cache' hcached =>
        rw [hcached]
        simpa using fetch_filePath h
  · cases h

/-- What the call creates in an empty table. -/
def createdRow : Track := { movedRow with filePath := "/music/youtube/v.opus" }

theorem established_created :
    (movedCall.downloadTrackFromURL .empty .empty).1 = .track createdRow ∧
      (Established movedCall .empty createdRow ↔ (movedCall.cached .empty).1 ≠ none ∨
        ∀ r, TracksTable.empty.getTrack movedCall.result.sourceID = some r →
          r.filePath = movedCall.result.filePath) :=
  ⟨rfl, @established_iff movedCall .empty .empty createdRow rfl⟩

end RadioJockey.YouTube
