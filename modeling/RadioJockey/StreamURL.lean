import RadioJockey.Lib.CleanPath
import RadioJockey.Handshake

/-!
# The advertised URL (`icecast.go`)

`streamSession` connects to the mountpoint, which is the prefix, a slash and the
id. `StreamURL`, which `CreateSession`, `GetSession` and `ListSessions` answer
with, joins the two by `path.Join`.

1. `urls_collide`: the two differ for an id with `..` in it, and another id has
   the same URL.
2. `own_urls_iff`: for any two ids, each URL is that of its own mountpoint, and
   they differ when the ids do, if and only if both ids are plain: no segment
   between slashes is empty, `.` or `..`.
-/

namespace RadioJockey.StreamURL

open CleanPath Handshake

/-- `path.Join(StreamPathPrefix, string(sessionID))`. -/
def streamPath (sessionID : SessionID) : String :=
  String.ofList (join [streamPathPrefix.toList, sessionID.toList])

def streamURL (streamBaseURL : String) (sessionID : SessionID) : String :=
  streamBaseURL ++ "/" ++ streamPath sessionID

/-- The URL at which Icecast serves what is put at the mountpoint. -/
def servedAt (streamBaseURL : String) (sessionID : SessionID) : String :=
  streamBaseURL ++ "/" ++ mountpoint sessionID

/-- Each of the two sessions is advertised where it streams to, and not where the
other one is. -/
structure OwnURLs (streamBaseURL : String) (id id' : SessionID) : Prop where
  advertised : streamURL streamBaseURL id = servedAt streamBaseURL id
  advertised' : streamURL streamBaseURL id' = servedAt streamBaseURL id'
  distinct : id ≠ id' → streamURL streamBaseURL id ≠ streamURL streamBaseURL id'

def PlainID (id : SessionID) : Prop := ∀ seg ∈ segments id.toList, Plain seg

instance (id : SessionID) : Decidable (PlainID id) :=
  inferInstanceAs (Decidable (∀ seg ∈ segments id.toList, Plain seg))

namespace StreamURLLemmas

theorem mountpoint_toList (id : SessionID) :
    (mountpoint id).toList = streamPathPrefix.toList ++ '/' :: id.toList := by
  simp [mountpoint]

theorem mountpoint_injective {id id' : SessionID} (h : mountpoint id = mountpoint id') :
    id = id' := by
  have hlist := congrArg String.toList h
  rw [mountpoint_toList, mountpoint_toList, List.append_cancel_left_eq, List.cons.injEq] at hlist
  exact String.toList_inj.mp hlist.2

theorem segments_mountpoint (id : SessionID) :
    segments (mountpoint id).toList = streamPathPrefix.toList :: segments id.toList := by
  rw [mountpoint_toList]
  exact List.splitOn_append_cons_self_of_not_mem (by decide) id.toList

theorem join_of_ne {id : SessionID} (h : id.toList ≠ []) :
    join [streamPathPrefix.toList, id.toList] = clean (mountpoint id).toList := by
  have hpre : streamPathPrefix.toList ≠ [] := by decide
  rw [mountpoint_toList]
  simp [join, hpre, h, List.intercalate_cons_cons, List.intercalate_singleton]

/-- The path of the URL is the mountpoint for plain ids only. -/
theorem streamPath_eq_iff (id : SessionID) : streamPath id = mountpoint id ↔ PlainID id := by
  have hplain : Plain streamPathPrefix.toList := by decide
  rw [streamPath, ← String.toList_inj, String.toList_ofList]
  by_cases h : id.toList = []
  · -- the empty id has one empty segment, and the joined path has no slash
    obtain rfl : id = "" := String.toList_inj.mp h
    exact iff_of_false (by decide) (by decide)
  · rw [join_of_ne h, clean_eq_self_iff (segments_mountpoint id) hplain, segments_mountpoint,
      List.forall_mem_cons]
    exact and_iff_right hplain

theorem streamURL_eq_iff (streamBaseURL : String) (id : SessionID) :
    streamURL streamBaseURL id = servedAt streamBaseURL id ↔ PlainID id := by
  rw [streamURL, servedAt, String.append_right_inj, streamPath_eq_iff]

end StreamURLLemmas

open StreamURLLemmas

/-- Whatever the base URL. -/
theorem own_urls_iff (streamBaseURL : String) (id id' : SessionID) :
    OwnURLs streamBaseURL id id' ↔ PlainID id ∧ PlainID id' := by
  constructor
  · intro h
    exact ⟨(streamURL_eq_iff _ id).mp h.advertised, (streamURL_eq_iff _ id').mp h.advertised'⟩
  · rintro ⟨h, h'⟩
    have hurl := (streamURL_eq_iff streamBaseURL id).mpr h
    have hurl' := (streamURL_eq_iff streamBaseURL id').mpr h'
    refine ⟨hurl, hurl', fun hne heq => hne ?_⟩
    rw [hurl, hurl', servedAt, servedAt, String.append_right_inj] at heq
    exact mountpoint_injective heq

/-- Both ids pass the interceptors as they are, and the URL of the first is that
of the second one's stream. -/
theorem urls_collide :
    trimSpace "a/../b" = "a/../b" ∧ trimSpace "b" = "b" ∧
      servedAt "http://icecast:9999" "a/../b" = "http://icecast:9999/stream/a/../b" ∧
      streamURL "http://icecast:9999" "a/../b" = "http://icecast:9999/stream/b" ∧
      streamURL "http://icecast:9999" "b" = "http://icecast:9999/stream/b" ∧
      ¬ OwnURLs "http://icecast:9999" "a/../b" "b" := by
  refine ⟨by decide, by decide, by decide +kernel, by decide +kernel, by decide +kernel, ?_⟩
  intro h
  exact absurd h.advertised (by decide +kernel)

end RadioJockey.StreamURL
