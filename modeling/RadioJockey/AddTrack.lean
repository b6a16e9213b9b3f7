import Mathlib.Data.Finset.Basic
import RadioJockey.Cache
import RadioJockey.Connect
import RadioJockey.Lib.Transition
import RadioJockey.SessionManager

/-!
# Adding tracks (`connect/rpc.go`, `music/youtube.go`, `music/cache.go`)

Any number of `AddTrack` calls run at the same time. A call is a sequence of
steps, each of which reads or writes one shared thing: the cache under its
mutex, the disk, the tracks table, the registry, a queue. Between two steps
anything else may happen: other calls, `Dequeue`, `RemoveTrack`, the creation
and deletion of sessions, a restart of the server.

A run starts with some database, disk and `NewCache`. What yt-dlp does is a
parameter: `path id` is where it puts the audio of the video `id`, which is
also the path it prints. Calls that fail before the video id is known change
nothing and are left out, and the tags of the file are read in the step of
`GetTrack`.
-/

namespace RadioJockey

/-- `filepath.Join(dir, "youtube", "%(id)s.opus")`, for a clean `dir`. -/
def downloadPath (dir id : String) : String := dir ++ "/youtube/" ++ id ++ ".opus"

def source : String := "youtube"

def albumArtURL (id : String) : String := "https://i.ytimg.com/vi/" ++ id ++ "/hqdefault.jpg"

namespace SessionManager

/-- The tracks in the queues of the registered sessions. -/
def queuedTracks (m : SessionManager Track) : List Track :=
  m.sessions.entries.flatMap fun e => ((m.queues[e.2]?).map SessionQueue.listQueue).getD []

theorem mem_queuedTracks {m : SessionManager Track} {t : Track} :
    t ∈ m.queuedTracks ↔ ∃ id q qu, m.sessions.lookup id = some q ∧ m.queues[q]? = some qu ∧
      t ∈ qu.tracks := by
  rw [queuedTracks, List.mem_flatMap]
  constructor
  · rintro ⟨⟨id, q⟩, he, ht⟩
    cases hq : m.queues[q]? with
    | none => simp [hq] at ht
    | some qu =>
      simp only [hq, Option.map_some, Option.getD_some] at ht
      exact ⟨id, q, qu, AList.mem_lookup_iff.mpr he, hq, ht⟩
  · rintro ⟨id, q, qu, hl, hq, ht⟩
    refine ⟨⟨id, q⟩, AList.mem_lookup_iff.mp hl, ?_⟩
    simp only [hq, Option.map_some, Option.getD_some]
    exact ht

/-- `InUseTrackIDs` collects the ids of exactly these tracks. -/
theorem inUseTrackIDs_eq (m : SessionManager Track) :
    m.inUseTrackIDs = m.queuedTracks.map Track.id := by
  rw [inUseTrackIDs, queuedTracks, List.map_flatMap]
  refine congrArg (List.flatMap · _) (funext fun e => ?_)
  cases m.queues[e.2]? <;> rfl

end SessionManager

namespace AddTrack

/-- What yt-dlp and the tags of the file say about a video. -/
structure Metadata where
  title : String
  artist : String
  duration : Int
  deriving DecidableEq

/-- What `AddTrack` returns. A nil track is dereferenced when `CreateTrack`
fails, which ends the call with a panic. -/
inductive Outcome
  | ok
  | error (code : Code)
  | panicked
  deriving DecidableEq

/-- Where a call is: before the step that the name says, or before the step
after it. The flag `dl` says that this call has downloaded the file. -/
inductive Phase
  | resolved (id : String)
  | hit (id : String) (t : Track)
  | missing (id : String)
  | downloaded (id : String)
  | updating (t : Track)
  | creating (id : String) (data : Metadata)
  | created (id : String)
  | found (t : Track) (dl : Bool)
  | queueing (t : Track) (q : QueueRef) (dl : Bool)
  | enqueued (t : Track) (dl : Bool)
  | touching (t : Track) (inUse : List Int) (dl : Bool)
  | touched (t : Track) (inUse : List Int) (dl : Bool)
  | returned (r : Outcome)
  deriving DecidableEq

structure Call where
  sessionID : SessionID
  phase : Phase
  deriving DecidableEq

/-- `files` is the music directory. -/
structure State where
  manager : SessionManager Track
  db : TracksTable
  cache : Cache
  files : Finset String
  calls : List Call

namespace State

/-- The server after `NewCache`. -/
def start (maxSessions : Int) (db : TracksTable) (files : Finset String) (listing : List Track) :
    State where
  manager := .createSessionManager maxSessions
  db := db
  cache := .newCache listing
  files := files
  calls := []

def move (s : State) (n : Nat) (sid : SessionID) (p : Phase) : State :=
  { s with calls := s.calls.set n ⟨sid, p⟩ }

/-! ## `DownloadTrackFromURL` -/

/-- `GetTrack`, which may fail. -/
def fetch (s : State) (id : String) (ok : Bool) : Option Track :=
  if ok then s.db.getTrack id else none

/-- The `INSERT` of `CreateTrack`, which may fail. -/
def insertRow (path : String → String) (s : State) (id : String) (data : Metadata) (ok : Bool)
    (now : Int) : Option TracksTable :=
  if ok then s.db.insert source id data.title data.artist (path id) data.duration
    (albumArtURL id) now
  else none

/-- A new call whose URL has been resolved to a video id. -/
def request (s : State) (sid : SessionID) (id : String) : Option State :=
  some { s with calls := s.calls ++ [⟨sid, .resolved id⟩] }

def get (s : State) (n : Nat) : Option State :=
  match s.calls[n]? with
  | some ⟨sid, .resolved id⟩ =>
    match s.cache.get id with
    | some (t, c) => some { s.move n sid (.hit id t) with cache := c }
    | none => some (s.move n sid (.missing id))
  | _ => none

/-- `os.Stat` of the cached file. -/
def stat (s : State) (n : Nat) : Option State :=
  match s.calls[n]? with
  | some ⟨sid, .hit id t⟩ =>
    some (s.move n sid (if t.filePath ∈ s.files then .found t false else .missing id))
  | _ => none

/-- yt-dlp, which leaves the file where it is if it is there. -/
def download (path : String → String) (s : State) (n : Nat) (ok : Bool) : Option State :=
  match s.calls[n]? with
  | some ⟨sid, .missing id⟩ =>
    if ok then some { s.move n sid (.downloaded id) with files := insert (path id) s.files }
    else some (s.move n sid (.returned (.error .internal)))
  | _ => none

/-- The tags of the file, and `GetTrack`. Every error of the query counts as
a missing row. -/
def getTrack (s : State) (n : Nat) (data : Option Metadata) (ok : Bool) : Option State :=
  match s.calls[n]? with
  | some ⟨sid, .downloaded id⟩ =>
    match data with
    | none => some (s.move n sid (.returned (.error .internal)))
    | some data =>
      match s.fetch id ok with
      | some t => some (s.move n sid (.updating t))
      | none => some (s.move n sid (.creating id data))
  | _ => none

def updateArt (s : State) (n : Nat) (ok : Bool) : Option State :=
  match s.calls[n]? with
  | some ⟨sid, .updating t⟩ =>
    if ok then some { s.move n sid
        (.found { t with albumArtURL := albumArtURL t.sourceID } true) with
      db := s.db.updateTrackAlbumArtURL t.id (albumArtURL t.sourceID) }
    else some (s.move n sid (.returned (.error .internal)))
  | _ => none

def createTrack (path : String → String) (s : State) (n : Nat) (ok : Bool) (now : Int) :
    Option State :=
  match s.calls[n]? with
  | some ⟨sid, .creating id data⟩ =>
    match s.insertRow path id data ok now with
    | some db => some { s.move n sid (.created id) with db := db }
    | none => some (s.move n sid (.returned .panicked))
  | _ => none

/-- The `GetTrack` that ends `CreateTrack`. -/
def readBack (s : State) (n : Nat) (ok : Bool) : Option State :=
  match s.calls[n]? with
  | some ⟨sid, .created id⟩ =>
    match s.fetch id ok with
    | some t => some (s.move n sid (.found t true))
    | none => some (s.move n sid (.returned .panicked))
  | _ => none

/-! ## The rest of `AddTrack` -/

def getQueue (s : State) (n : Nat) : Option State :=
  match s.calls[n]? with
  | some ⟨sid, .found t dl⟩ =>
    match s.manager.getQueue sid with
    | .ok q => some (s.move n sid (.queueing t q dl))
    | .error err => some (s.move n sid (.returned (.error (rpcErrorToCode (.session err)))))
  | _ => none

def enqueue (s : State) (n : Nat) : Option State :=
  match s.calls[n]? with
  | some ⟨sid, .queueing t q dl⟩ =>
    match s.manager.queues[q]? with
    | none => none
    | some qu =>
      match qu.enqueue t with
      | .ok qu' => some { s.move n sid (.enqueued t dl) with
          manager := s.manager.setQueue q qu'.wake }
      | .error err => some (s.move n sid (.returned (.error (rpcErrorToCode (.session err)))))
  | _ => none

def inUseTrackIDs (s : State) (n : Nat) : Option State :=
  match s.calls[n]? with
  | some ⟨sid, .enqueued t dl⟩ =>
    some (s.move n sid (.touching t s.manager.inUseTrackIDs dl))
  | _ => none

/-- `TouchTrackLastUsed`. When it fails, `Touch` does nothing more and
`AddTrack` only logs it. -/
def touchLastUsed (s : State) (n : Nat) (ok : Bool) (now : Int) : Option State :=
  match s.calls[n]? with
  | some ⟨sid, .touching t inUse dl⟩ =>
    if ok then some { s.move n sid (.touched t inUse dl) with
      db := s.db.touchTrackLastUsed t.id now }
    else some (s.move n sid (.returned .ok))
  | _ => none

/-- The locked section of `Touch`, with the files it removes. -/
def touch (s : State) (n : Nat) : Option State :=
  match s.calls[n]? with
  | some ⟨sid, .touched t inUse _⟩ =>
    some { s.move n sid (.returned .ok) with
      cache := (s.cache.touch t inUse).1
      files := s.files.filter fun p => p ∉ (s.cache.touch t inUse).2.map Track.filePath }
  | _ => none

/-! ## Sessions and restarts -/

def createSession (s : State) (id : SessionID) (archiveID : Option Int) : Option State :=
  match s.manager.createSession id archiveID with
  | .ok (m, _) => some { s with manager := m }
  | .error _ => some s

/-- `Dequeue`, by the stream that plays the queue. -/
def dequeue (s : State) (q : QueueRef) : Option State :=
  match (s.manager.queues[q]?).map SessionQueue.dequeue with
  | some (.ok (_, qu)) => some { s with manager := s.manager.setQueue q qu }
  | _ => none

def removeTrack (s : State) (q : QueueRef) (index : Nat) : Option State :=
  if index = 0 then some s
  else match (s.manager.queues[q]?).map (SessionQueue.remove · index) with
    | some (.ok qu) => some { s with manager := s.manager.setQueue q qu }
    | _ => some s

/-- The process ends at any time, and starts again over the same database and
directory. -/
def restart (s : State) (listing : List Track) : Option State :=
  if s.db.ListsByLastUsed listing then
    some (start s.manager.maxSessions s.db s.files listing)
  else none

end State

inductive Action
  | request (sid : SessionID) (id : String)
  | get (n : Nat)
  | stat (n : Nat)
  | download (n : Nat) (ok : Bool)
  | getTrack (n : Nat) (data : Option Metadata) (ok : Bool)
  | updateArt (n : Nat) (ok : Bool)
  | createTrack (n : Nat) (ok : Bool) (now : Int)
  | readBack (n : Nat) (ok : Bool)
  | getQueue (n : Nat)
  | enqueue (n : Nat)
  | inUseTrackIDs (n : Nat)
  | touchLastUsed (n : Nat) (ok : Bool) (now : Int)
  | touch (n : Nat)
  | createSession (id : SessionID) (archiveID : Option Int)
  | deleteSession (id : SessionID)
  | dequeue (q : QueueRef)
  | removeTrack (q : QueueRef) (index : Nat)
  | restart (listing : List Track)
  deriving DecidableEq

def State.step (path : String → String) (s : State) : Action → Option State
  | .request sid id => s.request sid id
  | .get n => s.get n
  | .stat n => s.stat n
  | .download n ok => s.download path n ok
  | .getTrack n data ok => s.getTrack n data ok
  | .updateArt n ok => s.updateArt n ok
  | .createTrack n ok now => s.createTrack path n ok now
  | .readBack n ok => s.readBack n ok
  | .getQueue n => s.getQueue n
  | .enqueue n => s.enqueue n
  | .inUseTrackIDs n => s.inUseTrackIDs n
  | .touchLastUsed n ok now => s.touchLastUsed n ok now
  | .touch n => s.touch n
  | .createSession id archiveID => s.createSession id archiveID
  | .deleteSession id => some { s with manager := s.manager.deleteSession id }
  | .dequeue q => s.dequeue q
  | .removeTrack q index => s.removeTrack q index
  | .restart listing => s.restart listing

/-- The rows are those of this server: written with the one source it has, and
with the path at which a download leaves the file. -/
def OwnRows (path : String → String) (db : TracksTable) : Prop :=
  ∀ r ∈ db.rows, r.source = source ∧ r.filePath = path r.sourceID

/-- The server has just been started. -/
def Started (path : String → String) (s : State) : Prop :=
  ∃ maxSessions db files listing, OwnRows path db ∧ db.ListsByLastUsed listing ∧
    s = .start maxSessions db files listing

def addTrackSystem (path : String → String) : Transition.System State Action where
  init := Started path
  step := State.step path

/-! ## What each step does -/

namespace State

variable {path : String → String} {s t : State} {n : Nat}

theorem get_eq_some (h : s.get n = some t) :
    ∃ sid id, s.calls[n]? = some ⟨sid, .resolved id⟩ ∧
      ((∃ x c, s.cache.get id = some (x, c) ∧ t = { s.move n sid (.hit id x) with cache := c }) ∨
      (s.cache.get id = none ∧ t = s.move n sid (.missing id))) := by
  unfold get at h
  split at h
  · next sid id hc =>
    refine ⟨sid, id, hc, ?_⟩
    split at h
    · next x c hg => cases h; exact .inl ⟨x, c, hg, rfl⟩
    · next hg => cases h; exact .inr ⟨hg, rfl⟩
  · cases h

theorem stat_eq_some (h : s.stat n = some t) :
    ∃ sid id x, s.calls[n]? = some ⟨sid, .hit id x⟩ ∧
      ((x.filePath ∈ s.files ∧ t = s.move n sid (.found x false)) ∨
      t = s.move n sid (.missing id)) := by
  unfold stat at h
  split at h
  · next sid id x hc =>
    refine ⟨sid, id, x, hc, ?_⟩
    cases h
    split
    · next hf => exact .inl ⟨hf, rfl⟩
    · exact .inr rfl
  · cases h

theorem download_eq_some {ok : Bool} (h : s.download path n ok = some t) :
    ∃ sid id, s.calls[n]? = some ⟨sid, .missing id⟩ ∧
      ((ok = true ∧ t = { s.move n sid (.downloaded id) with files := insert (path id) s.files }) ∨
      (ok = false ∧ t = s.move n sid (.returned (.error .internal)))) := by
  unfold download at h
  split at h
  · next sid id hc =>
    refine ⟨sid, id, hc, ?_⟩
    split at h
    · next hok => cases h; exact .inl ⟨hok, rfl⟩
    · next hok => cases h; exact .inr ⟨Bool.eq_false_iff.mpr hok, rfl⟩
  · cases h

theorem fetch_eq_some {id : String} {ok : Bool} {x : Track} (h : s.fetch id ok = some x) :
    x ∈ s.db.rows ∧ x.sourceID = id := by
  unfold fetch at h
  split at h
  · exact TracksTable.getTrack_eq_some h
  · cases h

theorem getTrack_eq_some {data : Option Metadata} {ok : Bool}
    (h : s.getTrack n data ok = some t) :
    ∃ sid id, s.calls[n]? = some ⟨sid, .downloaded id⟩ ∧
      ((data = none ∧ t = s.move n sid (.returned (.error .internal))) ∨
      (∃ x, s.fetch id ok = some x ∧ t = s.move n sid (.updating x)) ∨
      ∃ data', t = s.move n sid (.creating id data')) := by
  unfold getTrack at h
  split at h
  · next sid id hc =>
    refine ⟨sid, id, hc, ?_⟩
    split at h
    · cases h; exact .inl ⟨rfl, rfl⟩
    · next data' =>
      split at h
      · next x hx => cases h; exact .inr (.inl ⟨x, hx, rfl⟩)
      · cases h; exact .inr (.inr ⟨data', rfl⟩)
  · cases h

theorem updateArt_eq_some {ok : Bool} (h : s.updateArt n ok = some t) :
    ∃ sid x, s.calls[n]? = some ⟨sid, .updating x⟩ ∧
      (t = { s.move n sid (.found { x with albumArtURL := albumArtURL x.sourceID } true) with
        db := s.db.updateTrackAlbumArtURL x.id (albumArtURL x.sourceID) } ∨
      (ok = false ∧ t = s.move n sid (.returned (.error .internal)))) := by
  unfold updateArt at h
  split at h
  · next sid x hc =>
    refine ⟨sid, x, hc, ?_⟩
    split at h
    · cases h; exact .inl rfl
    · next hok => cases h; exact .inr ⟨Bool.eq_false_iff.mpr hok, rfl⟩
  · cases h

theorem createTrack_eq_some {ok : Bool} {now : Int} (h : s.createTrack path n ok now = some t) :
    ∃ sid id data, s.calls[n]? = some ⟨sid, .creating id data⟩ ∧
      ((∃ db, s.insertRow path id data ok now = some db ∧
        t = { s.move n sid (.created id) with db := db }) ∨
      (s.insertRow path id data ok now = none ∧ t = s.move n sid (.returned .panicked))) := by
  unfold createTrack at h
  split at h
  · next sid id data hc =>
    refine ⟨sid, id, data, hc, ?_⟩
    split at h
    · next db hdb => cases h; exact .inl ⟨db, hdb, rfl⟩
    · next hdb => cases h; exact .inr ⟨hdb, rfl⟩
  · cases h

theorem readBack_eq_some {ok : Bool} (h : s.readBack n ok = some t) :
    ∃ sid id, s.calls[n]? = some ⟨sid, .created id⟩ ∧
      ((∃ x, s.fetch id ok = some x ∧ t = s.move n sid (.found x true)) ∨
      (s.fetch id ok = none ∧ t = s.move n sid (.returned .panicked))) := by
  unfold readBack at h
  split at h
  · next sid id hc =>
    refine ⟨sid, id, hc, ?_⟩
    split at h
    · next x hx => cases h; exact .inl ⟨x, hx, rfl⟩
    · next hx => cases h; exact .inr ⟨hx, rfl⟩
  · cases h

theorem getQueue_eq_some (h : s.getQueue n = some t) :
    ∃ sid x dl, s.calls[n]? = some ⟨sid, .found x dl⟩ ∧
      ((∃ q, t = s.move n sid (.queueing x q dl)) ∨
      (s.manager.sessions.lookup sid = none ∧
        t = s.move n sid (.returned (.error .notFound)))) := by
  unfold getQueue at h
  split at h
  · next sid x dl hc =>
    refine ⟨sid, x, dl, hc, ?_⟩
    split at h
    · next q _ => cases h; exact .inl ⟨q, rfl⟩
    · next err he =>
      cases h
      obtain ⟨hl, rfl⟩ := SessionManager.getQueue_eq_error.mp he
      exact .inr ⟨hl, rfl⟩
  · cases h

theorem enqueue_eq_some (h : s.enqueue n = some t) :
    ∃ sid x q dl qu, s.calls[n]? = some ⟨sid, .queueing x q dl⟩ ∧
      s.manager.queues[q]? = some qu ∧
      ((∃ qu', qu.enqueue x = .ok qu' ∧ t = { s.move n sid (.enqueued x dl) with
        manager := s.manager.setQueue q qu'.wake }) ∨
      (maxQueueSize ≤ qu.tracks.length ∧
        t = s.move n sid (.returned (.error .resourceExhausted)))) := by
  unfold enqueue at h
  split at h
  · next sid x q dl hc =>
    split at h
    · cases h
    · next qu hq =>
      refine ⟨sid, x, q, dl, qu, hc, hq, ?_⟩
      split at h
      · next qu' hqu => cases h; exact .inl ⟨qu', hqu, rfl⟩
      · next err he =>
        unfold SessionQueue.enqueue at he
        split at he
        · next hfull => cases he; cases h; exact .inr ⟨hfull, rfl⟩
        · cases he
  · cases h

theorem inUseTrackIDs_eq_some (h : s.inUseTrackIDs n = some t) :
    ∃ sid x dl, s.calls[n]? = some ⟨sid, .enqueued x dl⟩ ∧
      t = s.move n sid (.touching x s.manager.inUseTrackIDs dl) := by
  unfold inUseTrackIDs at h
  split at h
  · next sid x dl hc => cases h; exact ⟨sid, x, dl, hc, rfl⟩
  · cases h

theorem touchLastUsed_eq_some {ok : Bool} {now : Int} (h : s.touchLastUsed n ok now = some t) :
    ∃ sid x inUse dl, s.calls[n]? = some ⟨sid, .touching x inUse dl⟩ ∧
      (t = { s.move n sid (.touched x inUse dl) with
        db := s.db.touchTrackLastUsed x.id now } ∨
      (ok = false ∧ t = s.move n sid (.returned .ok))) := by
  unfold touchLastUsed at h
  split at h
  · next sid x inUse dl hc =>
    refine ⟨sid, x, inUse, dl, hc, ?_⟩
    split at h
    · cases h; exact .inl rfl
    · next hok => cases h; exact .inr ⟨Bool.eq_false_iff.mpr hok, rfl⟩
  · cases h

theorem touch_eq_some (h : s.touch n = some t) :
    ∃ sid x inUse dl, s.calls[n]? = some ⟨sid, .touched x inUse dl⟩ ∧
      t = { s.move n sid (.returned .ok) with
        cache := (s.cache.touch x inUse).1
        files := s.files.filter fun p => p ∉ (s.cache.touch x inUse).2.map Track.filePath } := by
  unfold touch at h
  split at h
  · next sid x inUse dl hc => cases h; exact ⟨sid, x, inUse, dl, hc, rfl⟩
  · cases h

theorem createSession_eq_some {id : SessionID} {archiveID : Option Int}
    (h : s.createSession id archiveID = some t) :
    t = s ∨ (s.manager.sessions.lookup id = none ∧
      t = { s with manager := s.manager.register id archiveID }) := by
  unfold createSession at h
  split at h
  · next m q hm =>
    cases h
    obtain ⟨hl, -, rfl, -⟩ := SessionManager.createSession_eq_ok hm
    exact .inr ⟨hl, rfl⟩
  · cases h; exact .inl rfl

theorem dequeue_eq_some {q : QueueRef} (h : s.dequeue q = some t) :
    ∃ qu x qu', s.manager.queues[q]? = some qu ∧ qu.dequeue = .ok (x, qu') ∧
      t = { s with manager := s.manager.setQueue q qu' } := by
  unfold dequeue at h
  split at h
  · next x qu' hq =>
    cases h
    obtain ⟨qu, hqu, hd⟩ := Option.map_eq_some_iff.mp hq
    exact ⟨qu, x, qu', hqu, hd, rfl⟩
  · cases h

theorem removeTrack_eq_some {q : QueueRef} {index : Nat} (h : s.removeTrack q index = some t) :
    t = s ∨ ∃ qu qu', s.manager.queues[q]? = some qu ∧ qu.remove index = .ok qu' ∧
      t = { s with manager := s.manager.setQueue q qu' } := by
  unfold removeTrack at h
  split at h
  · cases h; exact .inl rfl
  · split at h
    · next qu' hq =>
      cases h
      obtain ⟨qu, hqu, hr⟩ := Option.map_eq_some_iff.mp hq
      exact .inr ⟨qu, qu', hqu, hr, rfl⟩
    · cases h; exact .inl rfl

theorem restart_eq_some {listing : List Track} (h : s.restart listing = some t) :
    s.db.ListsByLastUsed listing ∧ t = start s.manager.maxSessions s.db s.files listing := by
  unfold restart at h
  split at h
  · next hl => cases h; exact ⟨hl, rfl⟩
  · cases h

end State

end AddTrack

end RadioJockey
