import Mathlib.Data.List.Perm.Basic
import Mathlib.Data.List.Nodup

/-!
# The tracks table (`db/tracks.go`)

The table after all migrations, with its constraints as fields: `id` is the
primary key and `AUTOINCREMENT` never reuses one, and `(source, source_id)` is
unique. Each SQL statement is one step. The times that `unixepoch()` returns
are arguments.
-/

namespace RadioJockey

/-- A row of `tracks`, which is also what a `*db.Track` points to. -/
structure Track where
  id : Int
  source : String
  sourceID : String
  title : String
  artist : String
  duration : Int
  filePath : String
  createdAt : Int
  albumArtURL : String
  lastUsedAt : Int
  deriving DecidableEq, Repr

/-- What the unique constraint is about. -/
def Track.key (t : Track) : String × String := (t.source, t.sourceID)

structure TracksTable where
  rows : List Track
  nextID : Int
  ids : (rows.map Track.id).Nodup
  fresh : ∀ r ∈ rows, r.id < nextID
  unique : (rows.map Track.key).Nodup

namespace TracksTable

def empty : TracksTable := ⟨[], 1, List.nodup_nil, by simp, List.nodup_nil⟩

/-- `SELECT * from tracks WHERE source_id=$1`, first row. -/
def getTrack (d : TracksTable) (sourceID : String) : Option Track :=
  d.rows.find? fun r => r.sourceID = sourceID

/-- The `INSERT` of `CreateTrack`: no row when the unique constraint fails. -/
def insert (d : TracksTable) (source sourceID title artist filePath : String) (duration : Int)
    (albumArtURL : String) (now : Int) : Option TracksTable :=
  let r : Track := ⟨d.nextID, source, sourceID, title, artist, duration, filePath, now,
    albumArtURL, now⟩
  if h : r.key ∈ d.rows.map Track.key then none
  else some {
    rows := d.rows ++ [r]
    nextID := d.nextID + 1
    ids := by
      rw [List.map_append, List.map_singleton, List.nodup_append]
      refine ⟨d.ids, List.nodup_singleton _, ?_⟩
      intro i hi j hj
      obtain ⟨x, hx, rfl⟩ := List.mem_map.mp hi
      rw [List.mem_singleton.mp hj]
      exact Int.ne_of_lt (d.fresh x hx)
    fresh := by
      intro x hx
      rcases List.mem_append.mp hx with hx | hx
      · have := d.fresh x hx
        omega
      · rw [List.mem_singleton.mp hx]
        show d.nextID < d.nextID + 1
        omega
    unique := by
      rw [List.map_append, List.map_singleton, List.nodup_append]
      refine ⟨d.unique, List.nodup_singleton _, ?_⟩
      intro i hi j hj
      rw [List.mem_singleton.mp hj]
      exact fun he => h (he ▸ hi) }

/-- An `UPDATE ... WHERE id=$1` that leaves the constrained columns alone. -/
def update (d : TracksTable) (id : Int) (f : Track → Track) (hid : ∀ r, (f r).id = r.id)
    (hkey : ∀ r, (f r).key = r.key) : TracksTable where
  rows := d.rows.map fun r => if r.id = id then f r else r
  nextID := d.nextID
  ids := by
    have : (fun r => Track.id (if r.id = id then f r else r)) = Track.id := by
      funext r; split <;> simp [hid]
    rw [List.map_map, Function.comp_def, this]
    exact d.ids
  fresh := by
    intro r hr
    obtain ⟨x, hx, rfl⟩ := List.mem_map.mp hr
    have := d.fresh x hx
    split
    · rw [hid]; exact this
    · exact this
  unique := by
    have : (fun r => Track.key (if r.id = id then f r else r)) = Track.key := by
      funext r; split <;> simp [hkey]
    rw [List.map_map, Function.comp_def, this]
    exact d.unique

def updateTrackAlbumArtURL (d : TracksTable) (trackID : Int) (albumArtURL : String) :
    TracksTable :=
  d.update trackID (fun r => { r with albumArtURL := albumArtURL }) (fun _ => rfl) fun _ => rfl

def touchTrackLastUsed (d : TracksTable) (trackID : Int) (now : Int) : TracksTable :=
  d.update trackID (fun r => { r with lastUsedAt := now }) (fun _ => rfl) fun _ => rfl

/-- `ListTracksByLastUsed` may return `ts`: all rows, by falling `last_used_at`.
SQL leaves the order of rows with equal times open. -/
def ListsByLastUsed (d : TracksTable) (ts : List Track) : Prop :=
  ts.Perm d.rows ∧ ts.Pairwise fun a b => b.lastUsedAt ≤ a.lastUsedAt

instance (d : TracksTable) (ts : List Track) : Decidable (d.ListsByLastUsed ts) :=
  inferInstanceAs (Decidable (_ ∧ _))

theorem getTrack_eq_some {d : TracksTable} {sourceID : String} {r : Track}
    (h : d.getTrack sourceID = some r) : r ∈ d.rows ∧ r.sourceID = sourceID := by
  refine ⟨List.mem_of_find?_eq_some h, ?_⟩
  simpa using List.find?_some h

theorem insert_rows {d d' : TracksTable} {source sourceID title artist filePath : String}
    {duration : Int} {albumArtURL : String} {now : Int}
    (h : d.insert source sourceID title artist filePath duration albumArtURL now = some d') :
    d'.rows = d.rows ++ [⟨d.nextID, source, sourceID, title, artist, duration, filePath, now,
      albumArtURL, now⟩] := by
  simp only [insert] at h
  split at h
  · cases h
  · cases h; rfl

/-- What is read after an `INSERT`: the first row for the source id. -/
theorem getTrack_insert {d d' : TracksTable} {source sourceID title artist filePath : String}
    {duration : Int} {albumArtURL : String} {now : Int}
    (h : d.insert source sourceID title artist filePath duration albumArtURL now = some d') :
    d'.getTrack sourceID = (d.getTrack sourceID).or (some ⟨d.nextID, source, sourceID, title,
      artist, duration, filePath, now, albumArtURL, now⟩) := by
  rw [getTrack, insert_rows h, List.find?_append, List.find?_singleton]
  simp [getTrack]

/-- The unique constraint fails on a row that is there. -/
theorem insert_eq_none {d : TracksTable} {source sourceID title artist filePath : String}
    {duration : Int} {albumArtURL : String} {now : Int}
    (h : d.insert source sourceID title artist filePath duration albumArtURL now = none) :
    ∃ r ∈ d.rows, r.key = (source, sourceID) := by
  simp only [insert] at h
  split at h
  · next hkey => exact List.mem_map.mp hkey
  · cases h

/-- Two rows with one id are the same row. -/
theorem eq_of_id {d : TracksTable} {r r' : Track} (h : r ∈ d.rows) (h' : r' ∈ d.rows)
    (he : r.id = r'.id) : r = r' :=
  List.inj_on_of_nodup_map d.ids h h' he

/-- Two rows with one source and source id are the same row. -/
theorem eq_of_key {d : TracksTable} {r r' : Track} (h : r ∈ d.rows) (h' : r' ∈ d.rows)
    (he : r.key = r'.key) : r = r' :=
  List.inj_on_of_nodup_map d.unique h h' he

end TracksTable

end RadioJockey
