import RadioJockey.AddTrack
import RadioJockey.Lib.SqlTable

/-!
# The migrations of the tracks table (`db/migrations`, `db/tracks.go`)

Two migrations add the columns `album_art_url` and `last_used_at`, which may be
NULL, and fill them in. `Track` has fields for both that cannot be NULL, so one
such row makes `ListTracksByLastUsed` fail, and with it the start of the server.

1. `migrated_unreadable`: a row of another source than YouTube has no album art
   after the migrations.
2. `migrated_iff`: after any writes, exactly the rows of other sources whose
   album art was not written are NULL.
3. `readable_iff_represents`, `represents_applyAll`: a table without NULL is one
   of `Tracks`, and stays one under the writes.
-/

namespace RadioJockey.Migrations

open SqlTable

/-- A row of `tracks` in the initial schema. -/
structure InitialTrack where
  id : Int
  source : String
  sourceID : String
  title : String
  artist : String
  duration : Int
  filePath : String
  createdAt : Int
  deriving DecidableEq, Repr

def InitialTrack.key (r : InitialTrack) : String × String := (r.source, r.sourceID)

/-- With `album_art_url TEXT`. -/
structure ArtTrack extends InitialTrack where
  albumArtURL : Option String
  deriving DecidableEq, Repr

/-- With `last_used_at INTEGER`. -/
structure NullableTrack extends ArtTrack where
  lastUsedAt : Option Int
  deriving DecidableEq, Repr

abbrev InitialTracks := Table InitialTrack.id InitialTrack.key

abbrev ArtTracks :=
  Table (fun r : ArtTrack => r.id) (fun r : ArtTrack => r.toInitialTrack.key)

abbrev NullableTracks :=
  Table (fun r : NullableTrack => r.id) (fun r : NullableTrack => r.toInitialTrack.key)

/-! ## The migrations -/

/-- The operator `||` of SQL, which is NULL if one side is. -/
def concat : Option String → Option String → Option String
  | some a, some b => some (a ++ b)
  | _, _ => none

/-- The `UPDATE` of `upAddTrackAlbumArt`. -/
def fillAlbumArt (r : ArtTrack) : ArtTrack :=
  if r.source = "youtube" ∧ r.albumArtURL = none then
    { r with
      albumArtURL :=
        concat (concat (some "https://i.ytimg.com/vi/") (some r.sourceID)) (some "/hqdefault.jpg") }
  else r

/-- The `UPDATE` of `upAddTrackLastUsed`. -/
def fillLastUsed (r : NullableTrack) : NullableTrack :=
  if r.lastUsedAt = none then { r with lastUsedAt := some r.createdAt } else r

theorem fillAlbumArt_original (r : ArtTrack) :
    (fillAlbumArt r).toInitialTrack = r.toInitialTrack := by
  unfold fillAlbumArt
  split <;> rfl

theorem fillLastUsed_toArtTrack (r : NullableTrack) :
    (fillLastUsed r).toArtTrack = r.toArtTrack := by
  unfold fillLastUsed
  split <;> rfl

/-- A new column is NULL in every row before the `UPDATE`. -/
def upAddTrackAlbumArt (t : InitialTracks) : ArtTracks :=
  t.alter (fun r => fillAlbumArt ⟨r, none⟩)
    (fun r => congrArg InitialTrack.id (fillAlbumArt_original ⟨r, none⟩))
    (fun r => congrArg InitialTrack.key (fillAlbumArt_original ⟨r, none⟩))

def upAddTrackLastUsed (t : ArtTracks) : NullableTracks :=
  t.alter (fun r => fillLastUsed ⟨r, none⟩)
    (fun r => congrArg (fun r : ArtTrack => r.id) (fillLastUsed_toArtTrack ⟨r, none⟩))
    (fun r => congrArg (fun r : ArtTrack => r.toInitialTrack.key)
      (fillLastUsed_toArtTrack ⟨r, none⟩))

/-- The migrations after the initial one. The one between them concerns other
tables. -/
def migrate (t : InitialTracks) : NullableTracks := upAddTrackLastUsed (upAddTrackAlbumArt t)

/-! ## The writes -/

inductive Write
  | createTrack (source sourceID title artist filePath : String) (duration : Int)
      (albumArtURL : String) (now : Int)
  | updateTrackAlbumArtURL (trackID : Int) (albumArtURL : String)
  | touchTrackLastUsed (trackID now : Int)
  deriving DecidableEq

/-- An `UPDATE ... WHERE id=$1` that leaves the original columns alone. -/
def update (t : NullableTracks) (trackID : Int) (f : NullableTrack → NullableTrack)
    (hf : ∀ r, (f r).toInitialTrack = r.toInitialTrack) : NullableTracks :=
  t.alter (fun r => if r.id = trackID then f r else r)
    (fun r => by split; exacts [congrArg InitialTrack.id (hf r), rfl])
    (fun r => by split; exacts [congrArg InitialTrack.key (hf r), rfl])

/-- A `CreateTrack` that violates the unique constraint changes nothing. -/
def apply (t : NullableTracks) : Write → NullableTracks
  | .createTrack source sourceID title artist filePath duration albumArtURL now =>
    (t.insert (fun id => ⟨⟨⟨id, source, sourceID, title, artist, duration, filePath, now⟩,
      some albumArtURL⟩, some now⟩) fun _ => rfl).getD t
  | .updateTrackAlbumArtURL trackID albumArtURL =>
    update t trackID (fun r => { r with albumArtURL := some albumArtURL }) fun _ => rfl
  | .touchTrackLastUsed trackID now =>
    update t trackID (fun r => { r with lastUsedAt := some now }) fun _ => rfl

def applyAll (t : NullableTracks) (ws : List Write) : NullableTracks := ws.foldl apply t

/-! ## What is claimed of the migrated table -/

/-- Every row can be scanned into a `Track`. -/
def Readable (t : NullableTracks) : Prop :=
  ∀ r ∈ t.rows, r.albumArtURL ≠ none ∧ r.lastUsedAt ≠ none

/-- The table is readable after the migrations and the writes. The migrations
keep the original columns, and their album art is that of
`DownloadTrackFromURL`. -/
structure WellMigrated (t : InitialTracks) (ws : List Write) : Prop where
  readable : Readable (applyAll (migrate t) ws)
  original : (migrate t).rows.map (fun r => r.toInitialTrack) = t.rows
  albumArt : ∀ r ∈ (migrate t).rows, r.source = source →
    r.albumArtURL = some (albumArtURL r.sourceID)

/-- The write sets the album art of the row. -/
def Write.setsAlbumArt (w : Write) (trackID : Int) : Bool :=
  match w with
  | .updateTrackAlbumArtURL trackID' _ => trackID' = trackID
  | _ => false

instance (t : NullableTracks) : Decidable (Readable t) :=
  inferInstanceAs (Decidable (∀ r ∈ t.rows, r.albumArtURL ≠ none ∧ r.lastUsedAt ≠ none))

/-- A table that `CreateTrack` has filled in the initial schema. -/
def otherSource : InitialTracks where
  rows := [⟨1, "youtube", "a", "A", "", 213, "/music/youtube/a.opus", 0⟩,
    ⟨2, "test", "b", "Title b", "Artist", 1, "/music/b.wav", 5⟩]
  nextID := 3
  ids := by decide
  fresh := by decide
  unique := by decide

theorem migrated_unreadable :
    (migrate otherSource).rows.map (fun r => (r.albumArtURL, r.lastUsedAt)) =
      [(some "https://i.ytimg.com/vi/a/hqdefault.jpg", some 0), (none, some 5)] ∧
      ¬ WellMigrated otherSource [] := by
  refine ⟨by decide, fun h => ?_⟩
  have hreadable : Readable (migrate otherSource) := h.readable
  exact absurd hreadable (by decide)

/-! ## The rows without album art -/

namespace MigrationsLemmas

/-- A row as the migrations leave it. -/
theorem migrate_rows (t : InitialTracks) :
    (migrate t).rows = t.rows.map fun r =>
      ⟨⟨r, if r.source = source then some (albumArtURL r.sourceID) else none⟩,
        some r.createdAt⟩ := by
  refine (List.map_map).trans (List.map_congr_left fun r _ => ?_)
  show fillLastUsed ⟨fillAlbumArt ⟨r, none⟩, none⟩ = _
  unfold fillLastUsed fillAlbumArt source albumArtURL
  by_cases h : r.source = "youtube"
  · simp only [h, and_self, if_true, concat]
  · simp only [h, false_and, if_false, if_true]

/-- The original rows whose album art is NULL. -/
def artless (t : NullableTracks) : List InitialTrack :=
  (t.rows.filter fun r => r.albumArtURL = none).map fun r => r.toInitialTrack

theorem artless_migrate (t : InitialTracks) :
    artless (migrate t) = t.rows.filter fun r => r.source ≠ source := by
  rw [artless, migrate_rows, List.filter_map, List.map_map]
  refine (List.map_id'' (fun r => rfl) _).trans (List.filter_congr fun r _ => ?_)
  by_cases h : r.source = source <;> simp [h]

theorem rows_update {t : NullableTracks} {trackID : Int} {f : NullableTrack → NullableTrack}
    {hf : ∀ r, (f r).toInitialTrack = r.toInitialTrack} :
    (update t trackID f hf).rows = t.rows.map fun r => if r.id = trackID then f r else r := rfl

/-- An update of the rows with one id keeps the others without album art, and
those with the id if it leaves album art alone. -/
theorem artless_update {t : NullableTracks} {trackID : Int} {f : NullableTrack → NullableTrack}
    (hf : ∀ r, (f r).toInitialTrack = r.toInitialTrack) {p : InitialTrack → Bool}
    (hp : ∀ r : NullableTrack, ((if r.id = trackID then f r else r).albumArtURL = none) ↔
      p r.toInitialTrack = true ∧ r.albumArtURL = none) :
    artless (update t trackID f hf) = (artless t).filter p := by
  have horiginal : ∀ r, (if r.id = trackID then f r else r).toInitialTrack = r.toInitialTrack :=
    fun r => by split; exacts [hf r, rfl]
  rw [artless, artless, rows_update, List.filter_map, List.filter_map, List.map_map,
    List.filter_filter]
  refine (List.map_congr_left fun r _ => horiginal r).trans (congrArg _ ?_)
  refine List.filter_congr fun r _ => ?_
  rw [Bool.eq_iff_iff]
  simpa using hp r

/-- A write takes the rows whose album art it sets, and adds none. -/
theorem artless_apply (t : NullableTracks) (w : Write) :
    artless (apply t w) = (artless t).filter fun r => !w.setsAlbumArt r.id := by
  cases w with
  | createTrack source sourceID title artist filePath duration albumArtURL now =>
    have hkept : (artless t).filter (fun r => !Write.setsAlbumArt
        (.createTrack source sourceID title artist filePath duration albumArtURL now) r.id) =
        artless t := List.filter_eq_self.mpr fun _ _ => rfl
    rw [hkept]
    show artless (Option.getD _ t) = _
    cases hinsert : t.insert _ _ with
    | none => rfl
    | some t' =>
      obtain ⟨-, hrows, -⟩ := Table.insert_eq_some hinsert
      show artless t' = _
      rw [artless, hrows, List.filter_append, List.map_append]
      exact List.append_nil _
  | updateTrackAlbumArtURL trackID albumArtURL =>
    refine artless_update (f := fun r => { r with albumArtURL := some albumArtURL })
      (fun _ => rfl) fun r => ?_
    by_cases h : r.id = trackID
    · simp [h, Write.setsAlbumArt]
    · simp [h, Write.setsAlbumArt, Ne.symm h]
  | touchTrackLastUsed trackID now =>
    refine artless_update (f := fun r => { r with lastUsedAt := some now })
      (fun _ => rfl) fun r => ?_
    by_cases h : r.id = trackID <;> simp [h, Write.setsAlbumArt]

theorem artless_applyAll (t : NullableTracks) (ws : List Write) :
    artless (applyAll t ws) = (artless t).filter fun r => ws.all fun w => !w.setsAlbumArt r.id := by
  induction ws generalizing t with
  | nil => exact (List.filter_eq_self.mpr fun _ _ => rfl).symm
  | cons w ws ih =>
    show artless (applyAll (apply t w) ws) = _
    rw [ih, artless_apply, List.filter_filter]
    exact List.filter_congr fun r _ => Bool.and_comm _ _

theorem artless_eq_nil_iff {t : NullableTracks} :
    artless t = [] ↔ ∀ r ∈ t.rows, r.albumArtURL ≠ none := by
  simp [artless]

/-! ## The times -/

/-- Every row has a time. -/
def Timed (t : NullableTracks) : Prop := ∀ r ∈ t.rows, r.lastUsedAt ≠ none

theorem timed_migrate (t : InitialTracks) : Timed (migrate t) := by
  intro r hr
  rw [migrate_rows] at hr
  obtain ⟨r, -, rfl⟩ := List.mem_map.mp hr
  nofun

theorem timed_update {t : NullableTracks} {trackID : Int} {f : NullableTrack → NullableTrack}
    (hf : ∀ r, (f r).toInitialTrack = r.toInitialTrack) (ht : Timed t)
    (h : ∀ r, r.lastUsedAt ≠ none → (f r).lastUsedAt ≠ none) : Timed (update t trackID f hf) := by
  intro x hx
  obtain ⟨r, hr, rfl⟩ := List.mem_map.mp hx
  split
  · exact h r (ht r hr)
  · exact ht r hr

theorem timed_apply {t : NullableTracks} (ht : Timed t) (w : Write) : Timed (apply t w) := by
  cases w with
  | createTrack source sourceID title artist filePath duration albumArtURL now =>
    show Timed (Option.getD _ t)
    cases hinsert : t.insert _ _ with
    | none => exact ht
    | some t' =>
      obtain ⟨-, hrows, -⟩ := Table.insert_eq_some hinsert
      intro r hr
      rw [show (Option.getD (some t') t).rows = _ from hrows] at hr
      rcases List.mem_append.mp hr with hr | hr
      · exact ht r hr
      · rw [List.mem_singleton.mp hr]
        nofun
  | updateTrackAlbumArtURL trackID albumArtURL =>
    exact timed_update (f := fun r => { r with albumArtURL := some albumArtURL })
      (fun _ => rfl) ht fun _ h => h
  | touchTrackLastUsed trackID now =>
    exact timed_update (f := fun r => { r with lastUsedAt := some now })
      (fun _ => rfl) ht fun _ _ => by simp

theorem timed_applyAll {t : NullableTracks} (ht : Timed t) (ws : List Write) :
    Timed (applyAll t ws) := by
  induction ws generalizing t with
  | nil => exact ht
  | cons w ws ih => exact ih (timed_apply ht w)

theorem readable_iff_artless {t : NullableTracks} (ht : Timed t) :
    Readable t ↔ artless t = [] := by
  rw [artless_eq_nil_iff]
  exact ⟨fun h r hr => (h r hr).1, fun h r hr => ⟨h r hr, ht r hr⟩⟩

end MigrationsLemmas

open MigrationsLemmas

/-- For every table of the initial schema and all writes after the migrations:
the table is well migrated exactly when each of its rows is of the source
`youtube`, or one of the writes sets its album art. -/
theorem migrated_iff (t : InitialTracks) (ws : List Write) :
    WellMigrated t ws ↔
      ∀ r ∈ t.rows, r.source = source ∨ ∃ w ∈ ws, w.setsAlbumArt r.id = true := by
  have hreadable : Readable (applyAll (migrate t) ws) ↔
      ∀ r ∈ t.rows, r.source = source ∨ ∃ w ∈ ws, w.setsAlbumArt r.id = true := by
    rw [readable_iff_artless (timed_applyAll (timed_migrate t) ws), artless_applyAll,
      artless_migrate, List.filter_filter, List.filter_eq_nil_iff]
    refine forall₂_congr fun r _ => ?_
    by_cases h : r.source = source <;> simp [h]
  refine ⟨fun h => hreadable.mp h.readable, fun h => ⟨hreadable.mpr h, ?_, ?_⟩⟩
  · rw [migrate_rows, List.map_map]
    exact List.map_id'' (fun r => rfl) _
  · intro x hx hsource
    rw [migrate_rows] at hx
    obtain ⟨r, -, rfl⟩ := List.mem_map.mp hx
    exact if_pos hsource

/-! ## Reading the table -/

/-- The scan of a row into a `Track`, which fails on NULL. -/
def scan (r : NullableTrack) : Option Track :=
  match r.albumArtURL, r.lastUsedAt with
  | some albumArtURL, some lastUsedAt => some ⟨r.id, r.source, r.sourceID, r.title, r.artist,
      r.duration, r.filePath, r.createdAt, albumArtURL, lastUsedAt⟩
  | _, _ => none

/-- `ListTracksByLastUsed` may return `out`, an error being `none`: it fails when
a row cannot be scanned. -/
def ListsTracksByLastUsed (t : NullableTracks) : Option (List Track) → Prop
  | none => ∃ r ∈ t.rows, scan r = none
  | some ts => (ts.map some).Perm (t.rows.map scan) ∧
      ts.Pairwise fun a b => b.lastUsedAt ≤ a.lastUsedAt

/-- The rows of `d` are those of `t`. -/
structure Represents (t : NullableTracks) (d : TracksTable) : Prop where
  rows : t.rows.map scan = d.rows.map some
  nextID : t.nextID = d.nextID

/-- The write on a table without NULL. -/
def Write.on (d : TracksTable) : Write → TracksTable
  | .createTrack source sourceID title artist filePath duration albumArtURL now =>
    (d.insert source sourceID title artist filePath duration albumArtURL now).getD d
  | .updateTrackAlbumArtURL trackID albumArtURL => d.updateTrackAlbumArtURL trackID albumArtURL
  | .touchTrackLastUsed trackID now => d.touchTrackLastUsed trackID now

namespace MigrationsLemmas

theorem scan_eq_some {r : NullableTrack} {x : Track} (h : scan r = some x) :
    r.albumArtURL = some x.albumArtURL ∧ r.lastUsedAt = some x.lastUsedAt ∧
      r.toInitialTrack = ⟨x.id, x.source, x.sourceID, x.title, x.artist, x.duration, x.filePath,
        x.createdAt⟩ := by
  unfold scan at h
  split at h
  · next hart hlast =>
    cases h
    exact ⟨hart, hlast, rfl⟩
  · cases h

theorem scan_isSome_iff {r : NullableTrack} :
    (∃ x, scan r = some x) ↔ r.albumArtURL ≠ none ∧ r.lastUsedAt ≠ none := by
  constructor
  · rintro ⟨x, hx⟩
    obtain ⟨hart, hlast, -⟩ := scan_eq_some hx
    rw [hart, hlast]
    exact ⟨nofun, nofun⟩
  · rintro ⟨hart, hlast⟩
    obtain ⟨albumArtURL, hart⟩ := Option.ne_none_iff_exists'.mp hart
    obtain ⟨lastUsedAt, hlast⟩ := Option.ne_none_iff_exists'.mp hlast
    simp only [scan, hart, hlast]
    exact ⟨_, rfl⟩

theorem id_of_scan {r : NullableTrack} {x : Track} (h : scan r = some x) : x.id = r.id :=
  congrArg InitialTrack.id (scan_eq_some h).2.2.symm

theorem key_of_scan {r : NullableTrack} {x : Track} (h : scan r = some x) :
    x.key = r.toInitialTrack.key :=
  congrArg InitialTrack.key (scan_eq_some h).2.2.symm

/-- What the tracks show is what the rows show. -/
theorem map_of_scan {α : Type} {g : NullableTrack → α} {g' : Track → α}
    (hg : ∀ r x, scan r = some x → g' x = g r) {rows : List NullableTrack} {ts : List Track}
    (h : rows.map scan = ts.map some) : ts.map g' = rows.map g := by
  induction rows generalizing ts with
  | nil =>
    obtain rfl := List.map_eq_nil_iff.mp h.symm
    rfl
  | cons r rows ih =>
    obtain ⟨x, ts', rfl, hx, hts⟩ := List.map_eq_cons_iff.mp h.symm
    rw [List.map_cons, List.map_cons, hg r x hx.symm, ih hts.symm]

theorem exists_tracks {rows : List NullableTrack}
    (h : ∀ r ∈ rows, ∃ x, scan r = some x) : ∃ ts : List Track, rows.map scan = ts.map some := by
  induction rows with
  | nil => exact ⟨[], rfl⟩
  | cons r rows ih =>
    obtain ⟨x, hx⟩ := h r List.mem_cons_self
    obtain ⟨ts, hts⟩ := ih fun r hr => h r (List.mem_cons_of_mem _ hr)
    exact ⟨x :: ts, by rw [List.map_cons, List.map_cons, hx, hts]⟩

theorem scan_of_mem {rows : List NullableTrack} {ts : List Track}
    (h : rows.map scan = ts.map some) {r : NullableTrack} (hr : r ∈ rows) :
    ∃ x ∈ ts, scan r = some x := by
  have hmem : scan r ∈ ts.map some := h ▸ List.mem_map_of_mem hr
  obtain ⟨x, hx, he⟩ := List.mem_map.mp hmem
  exact ⟨x, hx, he.symm⟩

theorem row_of_mem {rows : List NullableTrack} {ts : List Track}
    (h : rows.map scan = ts.map some) {x : Track} (hx : x ∈ ts) :
    ∃ r ∈ rows, scan r = some x :=
  List.mem_map.mp (h.symm ▸ List.mem_map_of_mem hx)

end MigrationsLemmas

/-- The tables that can be read are the tables without NULL. -/
theorem readable_iff_represents {t : NullableTracks} : Readable t ↔ ∃ d, Represents t d := by
  constructor
  · intro h
    obtain ⟨ts, hts⟩ := exists_tracks fun r hr => scan_isSome_iff.mpr (h r hr)
    have hids : ts.map Track.id = t.rows.map fun r => r.id :=
      map_of_scan (fun _ _ => id_of_scan) hts
    have hkeys : ts.map Track.key = t.rows.map fun r => r.toInitialTrack.key :=
      map_of_scan (fun _ _ => key_of_scan) hts
    refine ⟨⟨ts, t.nextID, hids ▸ t.ids, fun x hx => ?_, hkeys ▸ t.unique⟩, hts, rfl⟩
    obtain ⟨r, hr, hscan⟩ := row_of_mem hts hx
    exact id_of_scan hscan ▸ t.fresh r hr
  · rintro ⟨d, hd⟩ r hr
    obtain ⟨x, -, hx⟩ := scan_of_mem hd.rows hr
    exact scan_isSome_iff.mp ⟨x, hx⟩

/-- They are listed as in `Tracks`. -/
theorem listsTracksByLastUsed_iff {t : NullableTracks} {d : TracksTable} (h : Represents t d)
    {out : Option (List Track)} :
    ListsTracksByLastUsed t out ↔ ∃ ts, out = some ts ∧ d.ListsByLastUsed ts := by
  cases out with
  | none =>
    refine iff_of_false ?_ nofun
    rintro ⟨r, hr, hnone⟩
    obtain ⟨x, -, hx⟩ := scan_of_mem h.rows hr
    cases hnone.symm.trans hx
  | some ts =>
    simp only [ListsTracksByLastUsed, h.rows, Option.some.injEq, exists_eq_left',
      TracksTable.ListsByLastUsed]
    rw [List.map_perm_map_iff (Option.some_injective Track)]

/-- The other tables cannot be listed. -/
theorem listsTracksByLastUsed_unreadable {t : NullableTracks} (h : ¬ Readable t)
    {out : Option (List Track)} : ListsTracksByLastUsed t out ↔ out = none := by
  obtain ⟨r, hr, hnone⟩ : ∃ r ∈ t.rows, scan r = none := by
    by_contra hall
    refine h fun r hr => scan_isSome_iff.mp (Option.ne_none_iff_exists'.mp fun hnone => ?_)
    exact hall ⟨r, hr, hnone⟩
  cases out with
  | none => exact iff_of_true ⟨r, hr, hnone⟩ rfl
  | some ts =>
    refine iff_of_false ?_ nofun
    rintro ⟨hperm, -⟩
    have hmem : none ∈ ts.map some := hperm.mem_iff.mpr (hnone ▸ List.mem_map_of_mem hr)
    obtain ⟨x, -, hx⟩ := List.mem_map.mp hmem
    cases hx

namespace MigrationsLemmas

theorem insert_eq_some {d d' : TracksTable} {source sourceID title artist filePath : String}
    {duration : Int} {albumArtURL : String} {now : Int}
    (h : d.insert source sourceID title artist filePath duration albumArtURL now = some d') :
    (source, sourceID) ∉ d.rows.map Track.key ∧ d'.rows = d.rows ++ [⟨d.nextID, source, sourceID,
      title, artist, duration, filePath, now, albumArtURL, now⟩] ∧ d'.nextID = d.nextID + 1 := by
  simp only [TracksTable.insert] at h
  split at h
  · cases h
  · next hkey =>
    cases h
    exact ⟨hkey, rfl, rfl⟩

theorem represents_update {t : NullableTracks} {d : TracksTable} (h : Represents t d)
    {trackID : Int} {f : NullableTrack → NullableTrack} {g : Track → Track}
    (hf : ∀ r, (f r).toInitialTrack = r.toInitialTrack) (hid : ∀ r, (g r).id = r.id)
    (hkey : ∀ r, (g r).key = r.key) (hfg : ∀ r x, scan r = some x → scan (f r) = some (g x)) :
    Represents (update t trackID f hf) (d.update trackID g hid hkey) := by
  refine ⟨?_, h.nextID⟩
  show (t.rows.map _).map scan = (d.rows.map _).map some
  rw [List.map_map, List.map_map]
  refine (map_of_scan (fun r x hx => ?_) h.rows).symm
  have he : x.id = r.id := id_of_scan hx
  by_cases hr : r.id = trackID
  · simp only [Function.comp_apply, he, hr, if_true]
    exact (hfg r x hx).symm
  · simp only [Function.comp_apply, he, hr, if_false]
    exact hx.symm

end MigrationsLemmas

/-- The writes keep to the tables of `Tracks`. -/
theorem represents_apply {t : NullableTracks} {d : TracksTable} (h : Represents t d) (w : Write) :
    Represents (apply t w) (w.on d) := by
  cases w with
  | createTrack source sourceID title artist filePath duration albumArtURL now =>
    have hkeys : d.rows.map Track.key = t.rows.map fun r => r.toInitialTrack.key :=
      map_of_scan (fun _ _ => key_of_scan) h.rows
    show Represents (Option.getD _ t) (Option.getD _ d)
    cases ht : t.insert _ _ with
    | none =>
      have hkey := hkeys ▸ Table.insert_eq_none ht
      cases hd : d.insert source sourceID title artist filePath duration albumArtURL now with
      | none => exact h
      | some d' => exact absurd hkey (insert_eq_some hd).1
    | some t' =>
      obtain ⟨hkey, hrows, hnext⟩ := Table.insert_eq_some ht
      cases hd : d.insert source sourceID title artist filePath duration albumArtURL now with
      | none =>
        obtain ⟨r, hr, hkey'⟩ := TracksTable.insert_eq_none hd
        exact absurd (hkeys ▸ List.mem_map.mpr ⟨r, hr, hkey'⟩) hkey
      | some d' =>
        obtain ⟨-, hrows', hnext'⟩ := insert_eq_some hd
        refine ⟨?_, ?_⟩
        · show t'.rows.map scan = d'.rows.map some
          rw [hrows, hrows', List.map_append, List.map_append, h.rows, h.nextID]
          rfl
        · show t'.nextID = d'.nextID
          rw [hnext, hnext', h.nextID]
  | updateTrackAlbumArtURL trackID albumArtURL =>
    refine represents_update (f := fun r => { r with albumArtURL := some albumArtURL })
      (g := fun x => { x with albumArtURL := albumArtURL }) h
      (fun _ => rfl) (fun _ => rfl) (fun _ => rfl) fun r x hx => ?_
    obtain ⟨-, hlast, horiginal⟩ := scan_eq_some hx
    simp [scan, hlast, horiginal]
  | touchTrackLastUsed trackID now =>
    refine represents_update (f := fun r => { r with lastUsedAt := some now })
      (g := fun x => { x with lastUsedAt := now }) h
      (fun _ => rfl) (fun _ => rfl) (fun _ => rfl) fun r x hx => ?_
    obtain ⟨hart, -, horiginal⟩ := scan_eq_some hx
    simp [scan, hart, horiginal]

theorem represents_applyAll {t : NullableTracks} {d : TracksTable} (h : Represents t d)
    (ws : List Write) : Represents (applyAll t ws) (ws.foldl Write.on d) := by
  induction ws generalizing t d with
  | nil => exact h
  | cons w ws ih => exact ih (represents_apply h w)

end RadioJockey.Migrations
