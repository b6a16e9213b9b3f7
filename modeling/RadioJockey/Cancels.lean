import RadioJockey.EventLog

/-!
# The cancel functions of the streams

`StreamSessions` keeps one cancel function for each id. A created event stores
the function of the stream that it starts, whatever is stored there already.

1. `cancel_lost`: the deleted event of a session is never sent, and the id is
   created again. The new stream takes the place of the old one in the map, and
   nothing can cancel the old one any more.
2. `cancel_kept`: in every run in which no two created events of an id are sent
   without a deleted event of that id between them, every stream that was
   started and not cancelled has its own cancel function in the map.
-/

namespace RadioJockey.Streams

open Transition LastWrite

/-- The context of each stream is a child of the loop's context, so all are
cancelled when that one is done. -/
def Cancellable (s : State) : Prop :=
  s.ctxDone = false → ∀ g st, s.streams[g]? = some st → st.phase ≠ .starting →
    st.cancelled = false → s.cancels.lookup st.sessionID = some g

/-- A created event comes first, or next after a deleted event of its id. -/
def Alternates (e : SessionManagerEvent) (before : List SessionManagerEvent) : Prop :=
  e.type = .sessionCreated →
    (newest SessionManagerEvent.sessionID e.sessionID before).map SessionManagerEvent.type ≠
      some .sessionCreated

instance (e : SessionManagerEvent) (before : List SessionManagerEvent) :
    Decidable (Alternates e before) :=
  inferInstanceAs (Decidable (_ → _))

/-- The guard of `cancel_kept`. -/
def DeletedBetween (s : State) : Action → Prop
  | .send c => ∀ e, s.calls c = .sending e → Alternates e (eventLog s)
  | _ => True

instance (s : State) : ∀ a, Decidable (DeletedBetween s a)
  | .send c =>
    match hc : s.calls c with
    | .sending e => decidable_of_iff (Alternates e (eventLog s))
        ⟨fun h _ he => Call.sending.inj (hc.symm.trans he) ▸ h, fun h => h e hc⟩
    | .idle => .isTrue fun _ he => nomatch hc.symm.trans he
    | .returned _ => .isTrue fun _ he => nomatch hc.symm.trans he
  | .createSession .. | .deleteSession .. | .cancelCall _ | .abandon _ | .receive | .loopDone
  | .getQueue | .start | .cancelStream | .endStream _ | .endSession _ | .shutdown
  | .closeEvents => .isTrue trivial

/-- The caller that deletes the session gives up before its event is sent. -/
theorem cancel_lost :
    ∃ s, Reachable (sessionSystem 50) s ∧ s.ctxDone = false ∧
      s.streams.map (fun st => (st.sessionID, st.cancelled, st.phase)) =
        [("station", false, .running), ("station", false, .running)] ∧
      s.cancels.lookup "station" = some 1 ∧ ¬ Cancellable s := by
  obtain ⟨s, hs, hp⟩ := Reachable.of_run (S := sessionSystem 50)
    (p := fun s => decide (s.ctxDone = false ∧
      s.streams.map (fun st => (st.sessionID, st.cancelled, st.phase)) =
        [("station", false, .running), ("station", false, .running)] ∧
      s.cancels.lookup "station" = some 1))
    [.createSession 0 "station" none, .send (.rpc 0), .receive, .getQueue, .start,
      .deleteSession 1 "station", .cancelCall (.rpc 1), .abandon (.rpc 1),
      .createSession 2 "station" none, .send (.rpc 2), .receive, .getQueue, .start]
    rfl (by decide)
  obtain ⟨hctx, hstreams, hlookup⟩ := of_decide_eq_true hp
  refine ⟨s, hs, hctx, hstreams, hlookup, fun h => ?_⟩
  obtain ⟨st, hst, hfields⟩ : ∃ st, s.streams[0]? = some st ∧
      (st.sessionID, st.cancelled, st.phase) = ("station", false, .running) := by
    have h0 := congrArg (·[0]?) hstreams
    rw [List.getElem?_map] at h0
    exact Option.map_eq_some_iff.mp h0
  obtain ⟨hid, hcancelled, hphase⟩ : st.sessionID = "station" ∧ st.cancelled = false ∧
      st.phase = .running := by simpa using hfields
  have h0 := h hctx 0 st hst (by rw [hphase]; nofun) hcancelled
  rw [hid, hlookup] at h0
  cases h0

/-! ## The invariant -/

/-- The events in `handled` have been handled, last one first, and they explain
the map: an id with a cancel function had a created event last. -/
structure Handled (s : State) (handled : List SessionManagerEvent) : Prop where
  split : eventLog s = s.inbox.reverse ++ handled
  stored : ∀ id, s.cancels.lookup id ≠ none →
    (newest SessionManagerEvent.sessionID id handled).map SessionManagerEvent.type =
      some .sessionCreated
  starting : ∀ g, s.loop = .starting g → ∃ st, s.streams[g]? = some st ∧ st.phase = .starting ∧
    s.cancels.lookup st.sessionID = none ∧
    (newest SessionManagerEvent.sessionID st.sessionID handled).map SessionManagerEvent.type =
      some .sessionCreated

structure CancelInv (s : State) : Prop where
  turns : Each Alternates (eventLog s)
  handled : ∃ handled, Handled s handled
  own : ∀ g st, s.streams[g]? = some st → st.phase ≠ .starting → st.cancelled = false →
    s.cancels.lookup st.sessionID = some g

namespace CancelsLemmas

/-- A step that handles and sends no event. -/
theorem cancelInv_frame {s t : State} (hinv : CancelInv s) (hlog : eventLog t = eventLog s)
    (hinbox : t.inbox = s.inbox) (hcancels : t.cancels = s.cancels)
    (hstreams : t.streams = s.streams) (hloop : ∀ g, t.loop = .starting g → s.loop = .starting g) :
    CancelInv t := by
  obtain ⟨handled, hh⟩ := hinv.handled
  refine ⟨by rw [hlog]; exact hinv.turns, ⟨handled, ?_, ?_, ?_⟩, ?_⟩
  · rw [hlog, hinbox]; exact hh.split
  · rw [hcancels]; exact hh.stored
  · rw [hcancels, hstreams]; exact fun g h => hh.starting g (hloop g h)
  · rw [hcancels, hstreams]; exact hinv.own

theorem cancelInv_send {s t : State} {c : Caller} (hinv : CancelInv s)
    (hg : DeletedBetween s (.send c)) (h : s.send c = some t) : CancelInv t := by
  obtain ⟨e, m, hc, hm, rfl⟩ := State.send_eq_some h
  obtain ⟨-, hb, -⟩ := SessionManager.send_eq_some hm
  obtain ⟨handled, hh⟩ := hinv.handled
  refine ⟨⟨hg e hc, hinv.turns⟩, ⟨handled, ?_, hh.stored, hh.starting⟩, hinv.own⟩
  rw [State.inbox_send _ _ hb, List.reverse_append, List.append_assoc, List.reverse_singleton,
    ← hh.split]
  rfl

/-- The handled event is the next one in the log. -/
theorem split_received {s t : State} {e : SessionManagerEvent} {handled : List SessionManagerEvent}
    (hh : Handled s handled) (hl : s.loop = .received e)
    (hlog : eventLog t = eventLog s) (hinbox : t.inbox = s.manager.events.buf) :
    eventLog t = t.inbox.reverse ++ e :: handled := by
  have hs : s.inbox = e :: s.manager.events.buf := State.inbox_received hl
  rw [hlog, hh.split, hs, hinbox, List.reverse_cons, List.append_assoc]
  rfl

/-- A created event that is handled finds no cancel function under its id. -/
theorem lookup_of_created {s : State} {e : SessionManagerEvent}
    {handled : List SessionManagerEvent} (hinv : CancelInv s) (hh : Handled s handled)
    (hl : s.loop = .received e) (ht : e.type = .sessionCreated) :
    s.cancels.lookup e.sessionID = none := by
  by_contra hne
  have hsuffix : (e :: handled) <:+ eventLog s := by
    have hs : s.inbox = e :: s.manager.events.buf := State.inbox_received hl
    rw [hh.split, hs, List.reverse_cons, List.append_assoc]
    exact List.suffix_append _ _
  exact hinv.turns.of_suffix hsuffix ht (hh.stored _ hne)

theorem cancelInv_getQueue {s t : State} (hinv : CancelInv s) (h : s.getQueue = some t) :
    CancelInv t := by
  obtain ⟨handled, hh⟩ := hinv.handled
  obtain ⟨e, hl, ht, hcase⟩ := State.getQueue_eq_some h
  have hnone := lookup_of_created hinv hh hl ht
  have hstored : ∀ id, s.cancels.lookup id ≠ none →
      (newest SessionManagerEvent.sessionID id (e :: handled)).map SessionManagerEvent.type =
        some .sessionCreated := by
    intro id hid
    have hne : id ≠ e.sessionID := by
      rintro rfl
      exact hid hnone
    rw [newest_cons_ne _ hne]
    exact hh.stored id hid
  rcases hcase with ⟨-, rfl⟩ | ⟨q, -, rfl⟩
  · exact ⟨hinv.turns, ⟨e :: handled, split_received hh hl rfl rfl, hstored, nofun⟩, hinv.own⟩
  · refine ⟨hinv.turns, ⟨e :: handled, split_received hh hl rfl rfl, hstored, ?_⟩, ?_⟩
    · intro g hg
      cases hg
      refine ⟨⟨e, q, false, .starting⟩, by simp, rfl, hnone, ?_⟩
      show (newest _ e.sessionID _).map _ = _
      rw [newest_cons_self, Option.map_some, ht]
    · intro g st hst hphase
      change (s.streams ++ [_])[g]? = some st at hst
      rw [List.getElem?_append] at hst
      split at hst
      · exact hinv.own g st hst hphase
      · have hmem := List.mem_of_getElem? hst
        rw [List.mem_singleton.mp hmem] at hphase
        exact absurd rfl hphase

theorem stream_of_set {l : List Stream} {g g' : Nat} {st x : Stream}
    (h : (l.set g st)[g']? = some x) : g = g' ∧ x = st ∨ g ≠ g' ∧ l[g']? = some x := by
  rcases eq_or_ne g g' with rfl | hne
  · rw [List.getElem?_set_self'] at h
    obtain ⟨-, -, rfl⟩ := Option.map_eq_some_iff.mp h
    exact .inl ⟨rfl, rfl⟩
  · rw [List.getElem?_set_ne hne] at h
    exact .inr ⟨hne, h⟩

/-- The cancel function of the new stream goes where there was none. -/
theorem cancelInv_start {s t : State} (hinv : CancelInv s) (h : s.start = some t) :
    CancelInv t := by
  obtain ⟨handled, hh⟩ := hinv.handled
  obtain ⟨g, st, hl, hst, rfl⟩ := State.start_eq_some h
  obtain ⟨st', hst', -, hnone, hnew⟩ := hh.starting g hl
  obtain rfl : st' = st := Option.some.inj (hst'.symm.trans hst)
  have hinbox : s.inbox = s.manager.events.buf := State.inbox_starting hl
  refine ⟨hinv.turns, ⟨handled, ?_, ?_, nofun⟩, ?_⟩
  · have hsplit := hh.split
    rw [hinbox] at hsplit
    exact hsplit
  · intro id hid
    rcases eq_or_ne id st'.sessionID with rfl | hne
    · exact hnew
    · change (s.cancels.insert _ _).lookup id ≠ none at hid
      rw [AList.lookup_insert_ne hne] at hid
      exact hh.stored id hid
  · intro g' x hx hphase hcancelled
    show (s.cancels.insert _ _).lookup x.sessionID = some g'
    rcases stream_of_set hx with ⟨rfl, rfl⟩ | ⟨-, hx⟩
    · exact AList.lookup_insert _
    · have hown := hinv.own g' x hx hphase hcancelled
      have hne : x.sessionID ≠ st'.sessionID := by
        intro he
        rw [he, hnone] at hown
        cases hown
      rw [AList.lookup_insert_ne hne]
      exact hown

theorem cancelInv_cancelStream {s t : State} (hinv : CancelInv s) (h : s.cancelStream = some t) :
    CancelInv t := by
  obtain ⟨handled, hh⟩ := hinv.handled
  obtain ⟨e, hl, ht, hcase⟩ := State.cancelStream_eq_some h
  have hstored : ∀ id, (s.cancels.erase e.sessionID).lookup id ≠ none →
      (newest SessionManagerEvent.sessionID id (e :: handled)).map SessionManagerEvent.type =
        some .sessionCreated := by
    intro id hid
    have hne : id ≠ e.sessionID := by
      rintro rfl
      exact hid (AList.lookup_erase _ _)
    rw [AList.lookup_erase_ne hne] at hid
    rw [newest_cons_ne _ hne]
    exact hh.stored id hid
  rcases hcase with ⟨hnone, rfl⟩ | ⟨g, st, hsome, hst, rfl⟩
  · refine ⟨hinv.turns, ⟨e :: handled, split_received hh hl rfl rfl, hstored, nofun⟩, ?_⟩
    intro g st hst hphase hcancelled
    have hown := hinv.own g st hst hphase hcancelled
    have hne : st.sessionID ≠ e.sessionID := by
      intro he
      rw [he, hnone] at hown
      cases hown
    exact (AList.lookup_erase_ne hne).trans hown
  · refine ⟨hinv.turns, ⟨e :: handled, split_received hh hl rfl rfl, hstored, nofun⟩, ?_⟩
    intro g' x hx hphase hcancelled
    rcases stream_of_set hx with ⟨-, rfl⟩ | ⟨hgg, hx⟩
    · -- the stream that the event cancels
      cases hcancelled
    · have hown := hinv.own g' x hx hphase hcancelled
      have hne : x.sessionID ≠ e.sessionID := by
        intro he
        rw [he, hsome] at hown
        exact hgg (Option.some.inj hown)
      exact (AList.lookup_erase_ne hne).trans hown

theorem cancelInv_endStream {s t : State} {g : Nat} (hinv : CancelInv s)
    (h : s.endStream g = some t) : CancelInv t := by
  obtain ⟨handled, hh⟩ := hinv.handled
  obtain ⟨st, hst, hrunning, rfl⟩ := State.endStream_eq_some h
  refine ⟨hinv.turns, ⟨handled, hh.split, hh.stored, ?_⟩, ?_⟩
  · intro g' hl
    obtain ⟨st', hst', hphase, hrest⟩ := hh.starting g' hl
    have hne : g ≠ g' := by
      rintro rfl
      rw [hst] at hst'
      cases hst'
      rw [hrunning] at hphase
      cases hphase
    exact ⟨st', (List.getElem?_set_ne hne).trans hst', hphase, hrest⟩
  · intro g' x hx hphase hcancelled
    rcases stream_of_set hx with ⟨rfl, rfl⟩ | ⟨-, hx⟩
    · exact hinv.own g st hst (by rw [hrunning]; nofun) hcancelled
    · exact hinv.own g' x hx hphase hcancelled

end CancelsLemmas

open CancelsLemmas

theorem cancelInv_step {s t : State} {a : Action} (hinv : CancelInv s)
    (hg : DeletedBetween s a) (h : s.step a = some t) : CancelInv t := by
  cases a with
  | createSession n id archiveID =>
    obtain ⟨-, ⟨err, -, rfl⟩ | ⟨-, -, rfl⟩⟩ := State.createSession_eq_some h
    · exact cancelInv_frame hinv rfl rfl rfl rfl fun _ hl => hl
    · exact cancelInv_frame hinv rfl rfl rfl rfl fun _ hl => hl
  | deleteSession n id =>
    obtain ⟨-, rfl⟩ := State.deleteSession_eq_some h
    exact cancelInv_frame hinv rfl rfl rfl rfl fun _ hl => hl
  | endSession g =>
    obtain ⟨st, -, -, -, rfl⟩ := State.endSession_eq_some h
    exact cancelInv_frame hinv rfl rfl rfl rfl fun _ hl => hl
  | send c => exact cancelInv_send hinv hg h
  | abandon c =>
    obtain ⟨e, -, -, rfl⟩ := State.abandon_eq_some h
    exact cancelInv_frame hinv rfl rfl rfl rfl fun _ hl => hl
  | receive =>
    have hinbox := State.inbox_receive h
    obtain ⟨-, ⟨e, m, -, rfl⟩ | ⟨-, -, rfl⟩⟩ := State.receive_eq_some h
    · exact cancelInv_frame hinv rfl hinbox rfl rfl nofun
    · exact cancelInv_frame hinv rfl hinbox rfl rfl nofun
  | loopDone =>
    have hinbox := State.inbox_loopDone h
    obtain ⟨-, -, rfl⟩ := State.loopDone_eq_some h
    exact cancelInv_frame hinv rfl hinbox rfl rfl nofun
  | getQueue => exact cancelInv_getQueue hinv h
  | start => exact cancelInv_start hinv h
  | cancelStream => exact cancelInv_cancelStream hinv h
  | endStream g => exact cancelInv_endStream hinv h
  | cancelCall c | shutdown | closeEvents =>
    cases h
    exact cancelInv_frame hinv rfl rfl rfl rfl fun _ hl => hl

theorem cancelInv_initial (maxSessions : Int) : CancelInv (.initial maxSessions) :=
  ⟨trivial, ⟨[], rfl, fun _ h => absurd rfl h, nofun⟩, fun _ _ h => nomatch h⟩

/-- In every run in which no two created events of an id are sent without a
deleted event of that id between them, no stream becomes uncancellable. -/
theorem cancel_kept {maxSessions : Int} {s : State}
    (h : Reach (sessionSystem maxSessions) DeletedBetween s) : Cancellable s := by
  have hinv : CancelInv s :=
    h.invariant (fun _ hi => hi ▸ cancelInv_initial maxSessions)
      fun _ _ _ _ hi hg hs => cancelInv_step hi hg hs
  exact fun _ => hinv.own

/-- A session is deleted and created again, with the deleted event sent in
between. -/
theorem cancel_kept_reused :
    ∃ s, Cancellable s ∧ s.streams.map (fun st => (st.sessionID, st.cancelled)) =
      [("station", true), ("station", false)] := by
  obtain ⟨s, hs, hp⟩ := Reach.of_guardedRun (S := sessionSystem 50) (C := DeletedBetween)
    (p := fun s => decide (s.streams.map (fun st => (st.sessionID, st.cancelled)) =
      [("station", true), ("station", false)]))
    [.createSession 0 "station" none, .send (.rpc 0), .receive, .getQueue, .start,
      .deleteSession 1 "station", .send (.rpc 1), .createSession 2 "station" none, .send (.rpc 2),
      .receive, .cancelStream, .receive, .getQueue, .start]
    rfl (by decide)
  exact ⟨s, cancel_kept hs, of_decide_eq_true hp⟩

end RadioJockey.Streams
