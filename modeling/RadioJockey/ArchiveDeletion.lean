import RadioJockey.ArchiveTracks

/-!
# Deleting an archive (`connect/rpc.go`, `db/session_archives.go`)

`DeleteSessionArchive` looks the archive up and then deletes in two statements,
the recorded tracks first. Each statement may fail. A context that has ended
makes every later statement fail.

1. `half_deleted`: when the last statement fails, the archive stays with an
   empty list of tracks.
2. `atomic_iff`: for every database, every id and every way to fail, the RPC
   deletes all or nothing if and only if it does not fail so on an archive with
   recorded tracks.
3. `runs_deleteSessionArchive`: the RPC is a run of the steps of `ArchiveTracks`.
-/

namespace RadioJockey.ArchiveDeletion

open Archives (SessionArchives)
open ArchiveTracks Transition

structure Tables where
  archives : SessionArchives
  archiveTracks : SessionArchiveTracks

/-- The statements of the RPC, in their order. -/
inductive Statement
  | getSessionArchive
  | deleteTracks
  | deleteArchive
  deriving DecidableEq

/-- `DB.DeleteSessionArchive`, with whether it returns nil. -/
def Tables.deleteSessionArchive (d : Tables) (id : Int) (fails : Statement → Bool) :
    Bool × Tables :=
  if fails .deleteTracks then (false, d)
  else
    let d := { d with archiveTracks := d.archiveTracks.deleteOf id }
    if fails .deleteArchive then (false, d)
    else (true, { d with archives := d.archives.delete id })

/-- The RPC, with the code of its error. -/
def deleteSessionArchive (d : Tables) (id : Int) (fails : Statement → Bool) :
    Option Code × Tables :=
  if fails .getSessionArchive then (some (rpcErrorToCode .other), d)
  else match d.archives.getSessionArchive id with
    | none => (some (rpcErrorToCode .errNoRows), d)
    | some _ =>
      match d.deleteSessionArchive id fails with
      | (false, d') => (some .internal, d')
      | (true, d') => (none, d')

/-! ## What is claimed of it -/

/-- On an error the tables are what they were. On success the archive was there,
and exactly its row and its recorded tracks are gone. -/
structure Atomic (d : Tables) (id : Int) (r : Option Code × Tables) : Prop where
  unchanged : r.1 ≠ none → r.2 = d
  deleted : r.1 = none → (d.archives.getSessionArchive id).isSome ∧
    r.2.archives.rows = d.archives.rows.filter (fun a => a.id ≠ id) ∧
    r.2.archiveTracks.rows = d.archiveTracks.rows.filter fun t => t.sessionArchiveID ≠ id

/-- The second `DELETE` fails after the first one has deleted tracks. -/
structure HalfDeletes (d : Tables) (id : Int) (fails : Statement → Bool) : Prop where
  found : fails .getSessionArchive = false ∧ (d.archives.getSessionArchive id).isSome
  tracks : fails .deleteTracks = false ∧ ∃ t ∈ d.archiveTracks.rows, t.sessionArchiveID = id
  archive : fails .deleteArchive = true

/-- An archive with one recorded track. -/
def oneTrack : Tables where
  archives := SessionArchives.empty.insert "guild" 0
  archiveTracks := SessionArchiveTracks.empty.insert 1 7 1

theorem half_deleted :
    (deleteSessionArchive oneTrack 1 fun st => st = .deleteArchive).1 = some .internal ∧
      (deleteSessionArchive oneTrack 1 fun st => st = .deleteArchive).2.archives =
        oneTrack.archives ∧
      (deleteSessionArchive oneTrack 1 fun st => st = .deleteArchive).2.archiveTracks.rows = [] ∧
      ¬ Atomic oneTrack 1 (deleteSessionArchive oneTrack 1 fun st => st = .deleteArchive) := by
  refine ⟨rfl, rfl, rfl, fun h => ?_⟩
  have hsame := congrArg (fun d : Tables => d.archiveTracks.rows) (h.unchanged nofun)
  cases hsame

/-! ## The deletion -/

namespace ArchiveDeletionLemmas

variable {d : Tables} {id : Int} {fails : Statement → Bool}

/-- There is nothing to delete. -/
theorem deleteOf_eq_self {d : SessionArchiveTracks}
    (h : ∀ t ∈ d.rows, t.sessionArchiveID ≠ id) : d.deleteOf id = d := by
  have hrows : (d.deleteOf id).rows = d.rows :=
    List.filter_eq_self.mpr fun t ht => decide_eq_true (h t ht)
  cases d
  simp only [SessionArchiveTracks.deleteOf] at hrows ⊢
  simp only [hrows]

theorem atomic_unchanged {code : Code} : Atomic d id (some code, d) :=
  ⟨fun _ => rfl, nofun⟩

theorem not_atomic_of_halfDeletes (h : HalfDeletes d id fails) :
    ¬ Atomic d id (deleteSessionArchive d id fails) := by
  intro hatomic
  obtain ⟨a, ha⟩ := Option.isSome_iff_exists.mp h.found.2
  obtain ⟨t, ht, hid⟩ := h.tracks.2
  have hresult : deleteSessionArchive d id fails =
      (some .internal, { d with archiveTracks := d.archiveTracks.deleteOf id }) := by
    simp [deleteSessionArchive, Tables.deleteSessionArchive, h.found.1, ha, h.tracks.1, h.archive]
  rw [hresult] at hatomic
  have hsame := congrArg Tables.archiveTracks (hatomic.unchanged nofun)
  have hkept : t ∈ (d.archiveTracks.deleteOf id).rows := by
    rw [show d.archiveTracks.deleteOf id = d.archiveTracks from hsame]
    exact ht
  exact (SessionArchiveTracks.mem_deleteOf.mp hkept).2 hid

theorem atomic_of_not_halfDeletes (h : ¬ HalfDeletes d id fails) :
    Atomic d id (deleteSessionArchive d id fails) := by
  unfold deleteSessionArchive
  split
  · exact atomic_unchanged
  · next hget =>
    split
    · exact atomic_unchanged
    · next a ha =>
      have hfound : (d.archives.getSessionArchive id).isSome := by rw [ha]; rfl
      cases htracks : fails .deleteTracks with
      | true =>
        simp only [Tables.deleteSessionArchive, htracks, if_true]
        exact atomic_unchanged
      | false =>
        cases harchive : fails .deleteArchive with
        | true =>
          -- no track was recorded, so the first statement has changed nothing
          have hnone : ∀ t ∈ d.archiveTracks.rows, t.sessionArchiveID ≠ id := fun t ht hid =>
            h ⟨⟨Bool.eq_false_iff.mpr hget, hfound⟩, ⟨htracks, t, ht, hid⟩, harchive⟩
          simp only [Tables.deleteSessionArchive, htracks, harchive, if_true,
            deleteOf_eq_self hnone]
          exact atomic_unchanged
        | false =>
          simp only [Tables.deleteSessionArchive, htracks, harchive]
          exact ⟨fun hne => absurd rfl hne, fun _ => ⟨hfound, rfl, rfl⟩⟩

end ArchiveDeletionLemmas

open ArchiveDeletionLemmas

theorem atomic_iff (d : Tables) (id : Int) (fails : Statement → Bool) :
    Atomic d id (deleteSessionArchive d id fails) ↔ ¬ HalfDeletes d id fails :=
  ⟨fun hatomic h => not_atomic_of_halfDeletes h hatomic, atomic_of_not_halfDeletes⟩

/-! ## The RPC as a run -/

def tablesOf (s : ArchiveTracks.State) : Tables := ⟨s.server.archives, s.archiveTracks⟩

theorem runs_deleteSessionArchive (maxSessions : Int) (s : ArchiveTracks.State) (id : Int)
    (fails : Statement → Bool) :
    ∃ as t, run (trackSystem maxSessions) s as = some t ∧
      tablesOf t = (deleteSessionArchive (tablesOf s) id fails).2 ∧
      t.deletes = s.deletes ++ [.returned (deleteSessionArchive (tablesOf s) id fails).1] := by
  cases hget : fails .getSessionArchive with
  | true =>
    refine ⟨[.begin id false], s.begin id false, rfl, ?_⟩
    simp [deleteSessionArchive, hget, State.begin, tablesOf]
  | false =>
    cases ha : s.server.archives.getSessionArchive id with
    | none =>
      refine ⟨[.begin id true], s.begin id true, rfl, ?_⟩
      simp [deleteSessionArchive, hget, State.begin, tablesOf, ha]
    | some a =>
      have hbegin : s.begin id true = { s with deletes := s.deletes ++ [.deletingTracks id] } := by
        simp [State.begin, ha]
      cases htracks : fails .deleteTracks with
      | true =>
        refine ⟨[.begin id true, .deleteTracks s.deletes.length false],
          { s with deletes := s.deletes ++ [.returned (some .internal)] }, ?_, ?_⟩
        · simp [run, trackSystem, State.step, hbegin, State.deleteTracks, State.move]
        · simp [deleteSessionArchive, Tables.deleteSessionArchive, hget, ha, htracks, tablesOf]
      | false =>
        cases harchive : fails .deleteArchive with
        | true =>
          refine ⟨[.begin id true, .deleteTracks s.deletes.length true,
            .deleteArchive s.deletes.length false], { s with
              archiveTracks := s.archiveTracks.deleteOf id
              deletes := s.deletes ++ [.returned (some .internal)] }, ?_, ?_⟩
          · simp [run, trackSystem, State.step, hbegin, State.deleteTracks, State.deleteArchive,
              State.move]
          · simp [deleteSessionArchive, Tables.deleteSessionArchive, hget, ha, htracks, harchive,
              tablesOf]
        | false =>
          refine ⟨[.begin id true, .deleteTracks s.deletes.length true,
            .deleteArchive s.deletes.length true], { s with
              server := { s.server with archives := s.server.archives.delete id }
              archiveTracks := s.archiveTracks.deleteOf id
              deletes := s.deletes ++ [.returned none] }, ?_, ?_⟩
          · simp [run, trackSystem, State.step, hbegin, State.deleteTracks, State.deleteArchive,
              State.move]
          · simp [deleteSessionArchive, Tables.deleteSessionArchive, hget, ha, htracks, harchive,
              tablesOf]

end RadioJockey.ArchiveDeletion
