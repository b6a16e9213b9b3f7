import RadioJockey.Cancels
import RadioJockey.Quiescence

/-!
# The streams follow the registry

The registry says which sessions there are, and the loop learns of it from the
events alone, late. A stream that ends on its own deletes its session, and the
deleted event comes back to cancel it.

`converges`: in every run of callers whose contexts are not cancelled and who do
not overtake each other, once the server is at rest the registered sessions are
exactly those that a stream plays, each with the queue that is registered, and
one stream plays each.
-/

namespace RadioJockey.Streams

open Transition LastWrite

/-- The stream plays the queue `q` for the session `id`. -/
structure Stream.Plays (st : Stream) (id : SessionID) (q : QueueRef) : Prop where
  id : st.sessionID = id
  queue : st.queue = q
  running : st.phase = .running
  uncancelled : st.cancelled = false

structure Converged (s : State) : Prop where
  played : ∀ id q, s.manager.sessions.lookup id = some q ↔
    ∃ (g : Nat) (st : Stream), s.streams[g]? = some st ∧ st.Plays id q
  single : ∀ (g g' : Nat) (st st' : Stream) id q q', s.streams[g]? = some st →
    s.streams[g']? = some st' → st.Plays id q → st'.Plays id q' → g = g'

/-! ## The log of the events -/

namespace ConvergenceLemmas

variable {s t : State}

/-- Between two created events of an id stands a deleted one. -/
theorem deleted_between {e e' : SessionManagerEvent} (ht : e.type = .sessionCreated)
    (ht' : e'.type = .sessionCreated) (hid : e'.sessionID = e.sessionID) :
    ∀ {l : List SessionManagerEvent}, Each Alternates l → [e, e'].Sublist l →
      ∃ d, Contradict d e ∧ [e, d].Sublist l ∧ [d, e'].Sublist l
  | [], _, h => nomatch h
  | x :: l, hl, h => by
    rcases List.sublist_cons_iff.mp h with h | ⟨r, hr, h⟩
    · obtain ⟨d, hd, hed, hde⟩ := deleted_between ht ht' hid hl.2 h
      exact ⟨d, hd, hed.cons x, hde.cons x⟩
    · obtain ⟨rfl, rfl⟩ := List.cons.inj hr
      have hmem : e' ∈ l := List.singleton_sublist.mp h
      obtain ⟨d, hd⟩ := newest_isSome hmem hid
      obtain ⟨hdl, hdid⟩ := newest_eq_some hd
      have hdt : d.type ≠ .sessionCreated := fun he => hl.1 ht (by rw [hd, Option.map_some, he])
      refine ⟨d, ⟨hdid, by rwa [ht]⟩, (List.singleton_sublist.mpr hdl).cons_cons e, ?_⟩
      refine (sublist_of_newest hd hmem hid ?_).cons e
      rintro rfl
      exact hdt ht'

/-- Callers that wait for their turn send no two created events of an id without
a deleted one between them. -/
theorem deletedBetween_of_inTurn {a : Action} (hlog : LogInv s)
    (hturns : Each Alternates (updates s)) (hg : UncancelledInTurn s a) : DeletedBetween s a := by
  cases a with
  | send c =>
    intro e hc ht hnewest
    obtain ⟨e', he', ht'⟩ := Option.map_eq_some_iff.mp hnewest
    obtain ⟨hmem', hid'⟩ := newest_eq_some he'
    obtain ⟨rfl, hmem⟩ := hlog.sending c e hc
    obtain ⟨hup', hret'⟩ := hlog.logged e' hmem'
    have hne : e ≠ e' := by
      rintro rfl
      rw [hc] at hret'
      cases hret'
    -- the two stand in some order, and a deleted event between them
    rcases sublist_or_sublist hne hmem hup' with hsub | hsub
    · obtain ⟨d, hd, hed, hde⟩ := deleted_between ht ht' hid' hturns hsub
      have hdup := hde.subset List.mem_cons_self
      rcases hlog.announced d hdup with hsend | hsent
      · exact not_sublist_swap hlog.nodup hed (hg.2 e hc d hdup hsend hd)
      · have hkind : e'.type ≠ d.type := fun he => hd.2 (by rw [← he, ht', ht])
        have hlogged : [e', d].Sublist (eventLog s) :=
          sublist_of_newest he' hsent hd.1 fun he => hkind (he ▸ rfl)
        have hrel := List.rel_of_pairwise_cons (hlog.order.sublist hlogged) List.mem_cons_self
        exact not_sublist_swap hlog.nodup hde (hrel (hid'.trans hd.1.symm) hkind)
    · obtain ⟨d, hd, hed, hde⟩ := deleted_between ht' ht hid'.symm hturns hsub
      have hdup := hde.subset List.mem_cons_self
      rcases hlog.announced d hdup with hsend | hsent
      · exact not_sublist_swap hlog.nodup hed (hlog.later _ d hsend e' hmem' hd)
      · have hcontradict : Contradict e d :=
          ⟨(hd.1.trans hid').symm, fun he => hd.2 (by rw [← he, ht, ht'])⟩
        exact not_sublist_swap hlog.nodup hde (hlog.later _ e hc d hsent hcontradict)
  | _ => trivial

theorem turns_step {a : Action} (hlog : LogInv s) (hturns : Each Alternates (updates s))
    (h : s.step a = some t) : Each Alternates (updates t) := by
  cases a with
  | createSession n id archiveID =>
    obtain ⟨-, ⟨err, -, rfl⟩ | ⟨hl, -, rfl⟩⟩ := State.createSession_eq_some h
    · exact hturns
    · exact ⟨fun _ hnewest => (hlog.registry id).mpr hnewest hl, hturns⟩
  | deleteSession n id =>
    obtain ⟨-, rfl⟩ := State.deleteSession_eq_some h
    refine ⟨fun ht => ?_, hturns⟩
    cases ht
  | endSession g =>
    obtain ⟨st, -, -, -, rfl⟩ := State.endSession_eq_some h
    refine ⟨fun ht => ?_, hturns⟩
    cases ht
  | send c =>
    obtain ⟨e, m, -, -, rfl⟩ := State.send_eq_some h
    exact hturns
  | abandon c =>
    obtain ⟨e, -, -, rfl⟩ := State.abandon_eq_some h
    exact hturns
  | receive =>
    obtain ⟨-, ⟨e, m, -, rfl⟩ | ⟨-, -, rfl⟩⟩ := State.receive_eq_some h <;> exact hturns
  | loopDone =>
    obtain ⟨-, -, rfl⟩ := State.loopDone_eq_some h
    exact hturns
  | getQueue =>
    obtain ⟨e, -, -, ⟨-, rfl⟩ | ⟨q, -, rfl⟩⟩ := State.getQueue_eq_some h <;> exact hturns
  | start =>
    obtain ⟨g, st, -, -, rfl⟩ := State.start_eq_some h
    exact hturns
  | cancelStream =>
    obtain ⟨e, -, -, ⟨-, rfl⟩ | ⟨g, st, -, -, rfl⟩⟩ := State.cancelStream_eq_some h <;> exact hturns
  | endStream g =>
    obtain ⟨st, -, -, rfl⟩ := State.endStream_eq_some h
    exact hturns
  | cancelCall c | shutdown | closeEvents =>
    cases h
    exact hturns

end ConvergenceLemmas

/-! ## The invariant -/

/-- The event is on its way: its caller is about to send it, or it is in the
channel, or the loop has received it. -/
def InFlight (s : State) (e : SessionManagerEvent) : Prop :=
  s.calls e.caller = .sending e ∨ e ∈ s.inbox

/-- An event about the id is on its way, or its stream is being started. -/
def Pending (s : State) (id : SessionID) : Prop :=
  (∃ e, InFlight s e ∧ e.sessionID = id) ∨
    ∃ (g : Nat) (st : Stream), s.loop = .starting g ∧ s.streams[g]? = some st ∧ st.sessionID = id

/-- The queue of the stream whose cancel function is stored under the id. -/
def playedQueue (s : State) (id : SessionID) : Option QueueRef :=
  (s.cancels.lookup id).bind fun g => s.streams[g]?.map Stream.queue

/-- The deleted event of the stream's own `DeleteSession` call is on its way. -/
def Leaving (s : State) (g : Nat) (st : Stream) : Prop :=
  ∃ e, e.caller = .stream g ∧ e.type = .sessionDeleted ∧ e.sessionID = st.sessionID ∧ InFlight s e

structure ConvInv (s : State) : Prop where
  phase : ∀ (g : Nat) st, s.streams[g]? = some st → st.phase = .starting → s.loop = .starting g
  uncalled : ∀ g : Nat, (∀ st, s.streams[g]? = some st → st.phase ≠ .ended) →
    s.calls (.stream g) = .idle
  stored : ∀ id g, s.cancels.lookup id = some g → ∃ st, s.streams[g]? = some st ∧
    st.sessionID = id ∧ st.cancelled = false ∧ st.phase ≠ .starting
  /-- A stream that has ended by itself is yet to be cancelled by its own event. -/
  leaving : ∀ (g : Nat) st, s.streams[g]? = some st → st.phase = .ended → st.cancelled = false →
    s.calls (.stream g) = .idle ∨ Leaving s g st
  starting : ∀ (g : Nat) st, s.loop = .starting g → s.streams[g]? = some st →
    st.cancelled = false ∧ ((∀ e, InFlight s e → e.sessionID ≠ st.sessionID) →
      s.manager.sessions.lookup st.sessionID = some st.queue)
  /-- When nothing is on its way about an id, its stream plays its queue. -/
  settled : s.loop ≠ .returned → ∀ id, ¬ Pending s id →
    playedQueue s id = s.manager.sessions.lookup id

namespace ConvergenceLemmas

variable {s t : State}

/-- A step that leaves the streams alone. An entry of the registry changes only
when an event is on its way for it. -/
theorem convInv_frame (hinv : ConvInv s) (hstreams : t.streams = s.streams)
    (hcancels : t.cancels = s.cancels) (hloop : ∀ g, t.loop = .starting g ↔ s.loop = .starting g)
    (hreturned : t.loop ≠ .returned → s.loop ≠ .returned)
    (hflight : ∀ e, InFlight s e → InFlight t e)
    (hlookup : ∀ id, t.manager.sessions.lookup id = s.manager.sessions.lookup id ∨
      ∃ e, InFlight t e ∧ e.sessionID = id)
    (hidle : ∀ g : Nat, s.calls (.stream g) = .idle → t.calls (.stream g) = .idle ∨
      ∃ st, s.streams[g]? = some st ∧ st.phase = .ended ∧ Leaving t g st) : ConvInv t where
  phase := by
    rw [hstreams]
    exact fun g st hst hphase => (hloop g).mpr (hinv.phase g st hst hphase)
  uncalled := by
    rw [hstreams]
    intro g hg
    rcases hidle g (hinv.uncalled g hg) with h | ⟨st, hst, hphase, -⟩
    · exact h
    · exact absurd hphase (hg st hst)
  stored := by
    rw [hstreams, hcancels]
    exact hinv.stored
  leaving := by
    rw [hstreams]
    intro g st hst hphase hcancelled
    rcases hinv.leaving g st hst hphase hcancelled with h | ⟨e, hc, ht, hid, he⟩
    · rcases hidle g h with h | ⟨st', hst', -, h⟩
      · exact .inl h
      · obtain rfl : st' = st := Option.some.inj (hst'.symm.trans hst)
        exact .inr h
    · exact .inr ⟨e, hc, ht, hid, hflight e he⟩
  starting := by
    rw [hstreams]
    intro g st hl hst
    obtain ⟨hcancelled, hqueue⟩ := hinv.starting g st ((hloop g).mp hl) hst
    refine ⟨hcancelled, fun hnone => ?_⟩
    rcases hlookup st.sessionID with h | ⟨e, he, hid⟩
    · rw [h]
      exact hqueue fun e he => hnone e (hflight e he)
    · exact absurd hid (hnone e he)
  settled := by
    intro hl id hid
    have hpending : ¬ Pending s id := by
      rintro (⟨e, he, hid'⟩ | ⟨g, st, hl', hst, hid'⟩)
      · exact hid (.inl ⟨e, hflight e he, hid'⟩)
      · exact hid (.inr ⟨g, st, (hloop g).mpr hl', hstreams ▸ hst, hid'⟩)
    rcases hlookup id with h | he
    · rw [h, playedQueue, hstreams, hcancels]
      exact hinv.settled (hreturned hl) id hpending
    · exact absurd (.inl he) hid

theorem convInv_call {c : Caller} {e : SessionManagerEvent} {history : List Effect}
    {m : SessionManager Track} (hinv : ConvInv s) (hidle : s.calls c = .idle)
    (hcaller : e.caller = c)
    (hlookup : ∀ id, id ≠ e.sessionID → m.sessions.lookup id = s.manager.sessions.lookup id)
    (hevents : m.events = s.manager.events)
    (hstream : ∀ g, c = .stream g → ∃ st, s.streams[g]? = some st ∧ st.phase = .ended ∧
      e.type = .sessionDeleted ∧ e.sessionID = st.sessionID) :
    ConvInv { s with
      manager := m, calls := Function.update s.calls c (.sending e), history := history } := by
  have hself : InFlight { s with
      manager := m, calls := Function.update s.calls c (.sending e), history := history } e :=
    .inl (by rw [hcaller]; exact Function.update_self _ _ _)
  refine convInv_frame hinv rfl rfl (fun _ => Iff.rfl) id (fun e' he' => ?_) (fun id => ?_)
    fun g hg => ?_
  · rcases he' with he' | he'
    · refine .inl ?_
      show Function.update s.calls c (.sending e) e'.caller = _
      rw [Function.update_of_ne, he']
      rintro hc
      rw [hc, hidle] at he'
      cases he'
    · refine .inr ?_
      have hinbox : State.inbox { s with
          manager := m, calls := Function.update s.calls c (.sending e), history := history } =
          s.inbox := by
        simp only [State.inbox, hevents]
      rw [hinbox]
      exact he'
  · rcases eq_or_ne id e.sessionID with rfl | hne
    · exact .inr ⟨e, hself, rfl⟩
    · exact .inl (hlookup id hne)
  · by_cases hc : Caller.stream g = c
    · obtain ⟨st, hst, hphase, ht, hid⟩ := hstream g hc.symm
      exact .inr ⟨st, hst, hphase, e, hcaller.trans hc.symm, ht, hid, hself⟩
    · exact .inl ((Function.update_of_ne hc _ _).trans hg)

/-- A deleted event that is handled with no other event about its id on its way
finds the session gone. -/
theorem lookup_of_deleted {handled : List SessionManagerEvent} (hlog : LogInv s)
    (hh : Handled s handled) {e : SessionManagerEvent} (hl : s.loop = .received e)
    (ht : e.type = .sessionDeleted) (hcalls : ∀ c e', s.calls c = .sending e' →
      e'.sessionID ≠ e.sessionID)
    (hbuf : ∀ e' ∈ s.manager.events.buf, e'.sessionID ≠ e.sessionID) :
    s.manager.sessions.lookup e.sessionID = none := by
  have hnewest : newest SessionManagerEvent.sessionID e.sessionID (eventLog s) = some e := by
    have hbuffered : newest SessionManagerEvent.sessionID e.sessionID s.manager.events.buf.reverse =
        none := by
      rw [newest, List.find?_eq_none]
      intro e' he'
      simpa using hbuf e' (List.mem_reverse.mp he')
    rw [hh.split, State.inbox_received hl, List.reverse_cons, List.append_assoc, newest,
      List.find?_append]
    rw [newest] at hbuffered
    rw [hbuffered]
    exact newest_cons_self _ e handled
  have hkind := kind_newest_of_key (k := e.sessionID)
    (fun e' hid => ⟨fun he' => (hlog.logged e' he').1,
      fun he' => (hlog.announced e' he').resolve_left fun hc => hcalls _ e' hc hid⟩)
    hlog.order hlog.nodup
  by_contra hne
  have hcreated := (hlog.registry e.sessionID).mp hne
  rw [← hkind, hnewest, Option.map_some, ht] at hcreated
  cases hcreated

theorem convInv_getQueue (hinv : ConvInv s) (h : s.getQueue = some t) (hwork : WorkInv s) :
    ConvInv t := by
  obtain ⟨e, hl, ht, hcase⟩ := State.getQueue_eq_some h
  have hne : ∀ g, s.loop ≠ .starting g := by
    intro g hg
    rw [hl] at hg
    cases hg
  -- only the created event leaves the inbox
  have hflight : ∀ e', InFlight s e' → e' ≠ e → t.calls = s.calls →
      t.inbox = s.manager.events.buf → InFlight t e' := by
    rintro e' (he' | he') hne hcalls hinbox
    · exact .inl (by rw [hcalls]; exact he')
    · rw [State.inbox_received hl] at he'
      exact .inr (by rw [hinbox]; exact (List.mem_cons.mp he').resolve_left hne)
  have hdeleted : ∀ e' : SessionManagerEvent, e'.type = .sessionDeleted → e' ≠ e := by
    rintro e' ht' rfl
    rw [ht] at ht'
    cases ht'
  rcases hcase with ⟨-, rfl⟩ | ⟨q, hq, rfl⟩
  · refine ⟨fun g st hst hphase => ?_, hinv.uncalled, hinv.stored,
      fun g st hst hphase hcancelled => ?_, nofun, fun hreturned => absurd rfl hreturned⟩
    · exact absurd (hinv.phase g st hst hphase) (hne g)
    · exact (hinv.leaving g st hst hphase hcancelled).imp_right fun ⟨e', hc, ht', hid, he'⟩ =>
        ⟨e', hc, ht', hid, hflight e' he' (hdeleted e' ht') rfl rfl⟩
  · have hnew : ∀ (g : Nat) st, (s.streams ++ [⟨e, q, false, .starting⟩])[g]? = some st →
        s.streams[g]? = some st ∨ g = s.streams.length ∧ st = ⟨e, q, false, .starting⟩ := by
      intro g st hst
      rw [List.getElem?_append] at hst
      split at hst
      · exact .inl hst
      · next hlt =>
        obtain ⟨hg, hst⟩ := List.getElem?_eq_some_iff.mp hst
        rw [List.length_singleton] at hg
        refine .inr ⟨by omega, ?_⟩
        simpa using hst.symm
    have hold : ∀ g, g < s.streams.length →
        (s.streams ++ [⟨e, q, false, .starting⟩])[g]? = s.streams[g]? :=
      fun g hg => List.getElem?_append_left hg
    constructor
    case phase =>
      intro g st hst hphase
      rcases hnew g st hst with hst | ⟨rfl, -⟩
      · exact absurd (hinv.phase g st hst hphase) (hne g)
      · rfl
    case uncalled =>
      intro g hg
      refine hinv.uncalled g fun st hst => hg st ?_
      exact (hold g (List.getElem?_eq_some_iff.mp hst).1).trans hst
    case stored =>
      intro id g hg
      obtain ⟨st, hst, hrest⟩ := hinv.stored id g hg
      exact ⟨st, (hold g (List.getElem?_eq_some_iff.mp hst).1).trans hst, hrest⟩
    case leaving =>
      intro g st hst hphase hcancelled
      rcases hnew g st hst with hst | ⟨-, rfl⟩
      · exact (hinv.leaving g st hst hphase hcancelled).imp_right fun ⟨e', hc, ht', hid, he'⟩ =>
          ⟨e', hc, ht', hid, hflight e' he' (hdeleted e' ht') rfl rfl⟩
      · cases hphase
    case starting =>
      intro g st hg hst
      obtain rfl : s.streams.length = g := Loop.starting.inj hg
      have hst : (s.streams ++ [⟨e, q, false, .starting⟩])[s.streams.length]? = some st := hst
      rw [List.getElem?_concat_length] at hst
      cases hst
      exact ⟨rfl, fun _ => hq⟩
    case settled =>
      intro _ id hid
      have hne' : id ≠ e.sessionID := by
        rintro rfl
        exact hid (.inr ⟨_, _, rfl, List.getElem?_concat_length, rfl⟩)
      have hpending : ¬ Pending s id := by
        rintro (⟨e', he', hid'⟩ | ⟨g, -, hg, -, -⟩)
        · refine hid (.inl ⟨e', hflight e' he' ?_ rfl rfl, hid'⟩)
          rintro rfl
          exact hne' hid'.symm
        · exact hne g hg
      rw [← hinv.settled (by rw [hl]; nofun) id hpending, playedQueue, playedQueue]
      show (s.cancels.lookup id).bind _ = _
      cases hc : s.cancels.lookup id with
      | none => rfl
      | some g => rw [Option.bind_some, Option.bind_some, hold g (hwork.cancels id g hc)]

/-- The stream that has changed had not ended. -/
theorem uncalled_set {g : Nat} {st x : Stream} (hinv : ConvInv s) (hst : s.streams[g]? = some st)
    (hphase : st.phase ≠ .ended) (g' : Nat)
    (hg' : ∀ st', (s.streams.set g x)[g']? = some st' → st'.phase ≠ .ended) :
    s.calls (.stream g') = .idle := by
  refine hinv.uncalled g' fun st' hst' => ?_
  rcases eq_or_ne g g' with rfl | hne
  · obtain rfl : st = st' := Option.some.inj (hst.symm.trans hst')
    exact hphase
  · exact hg' st' ((List.getElem?_set_ne hne).trans hst')

/-- The stream that is started takes its place under its id. -/
theorem convInv_start (hinv : ConvInv s) (hwork : WorkInv s) (h : s.start = some t) :
    ConvInv t := by
  have hinbox := State.inbox_start h
  obtain ⟨g, st, hl, hst, rfl⟩ := State.start_eq_some h
  obtain ⟨st', hst', hphase⟩ := hwork.starting g hl
  obtain rfl : st = st' := Option.some.inj (hst.symm.trans hst')
  have hlt := (List.getElem?_eq_some_iff.mp hst).1
  have hself : (s.streams.set g { st with phase := .running })[g]? =
      some { st with phase := .running } := List.getElem?_set_self hlt
  have hother : ∀ g' : Nat, g ≠ g' →
      (s.streams.set g { st with phase := .running })[g']? = s.streams[g']? :=
    fun g' hne => List.getElem?_set_ne hne
  have hflight : ∀ e, InFlight s e → InFlight { s with
      cancels := s.cancels.insert st.sessionID g
      streams := s.streams.set g { st with phase := .running }
      loop := .idle } e := by
    rintro e (he | he)
    · exact .inl he
    · exact .inr (by rw [hinbox]; exact he)
  obtain ⟨hcancelled, hqueue⟩ := hinv.starting g st hl hst
  constructor
  case phase =>
    intro g' st' hst' hphase'
    rcases CancelsLemmas.stream_of_set hst' with ⟨-, rfl⟩ | ⟨hne, hst'⟩
    · cases hphase'
    · have hstarting := hinv.phase g' st' hst' hphase'
      rw [hl] at hstarting
      exact absurd (Loop.starting.inj hstarting) hne
  case uncalled => exact uncalled_set hinv hst (by rw [hphase]; simp)
  case stored =>
    intro id g' hg'
    have hg' : (s.cancels.insert st.sessionID g).lookup id = some g' := hg'
    show ∃ st', (s.streams.set g _)[g']? = some st' ∧ _
    rcases eq_or_ne id st.sessionID with rfl | hne
    · rw [AList.lookup_insert] at hg'
      cases hg'
      exact ⟨_, hself, rfl, hcancelled, by simp⟩
    · rw [AList.lookup_insert_ne hne] at hg'
      obtain ⟨st', hst', hid, hrest⟩ := hinv.stored id g' hg'
      -- what is stored has been started, so it is another one
      refine ⟨st', (hother g' ?_).trans hst', hid, hrest⟩
      rintro rfl
      rw [hst] at hst'
      cases hst'
      exact hrest.2 hphase
  case leaving =>
    intro g' st' hst' hphase' hcancelled'
    rcases CancelsLemmas.stream_of_set hst' with ⟨-, rfl⟩ | ⟨-, hst'⟩
    · cases hphase'
    · refine (hinv.leaving g' st' hst' hphase' hcancelled').imp_right ?_
      rintro ⟨e, hc, ht, hid, he⟩
      exact ⟨e, hc, ht, hid, hflight e he⟩
  case starting =>
    intro g' st' hg'
    cases hg'
  case settled =>
    intro _ id hid
    show ((s.cancels.insert st.sessionID g).lookup id).bind
      (fun g' => (s.streams.set g _)[g']?.map _) = s.manager.sessions.lookup id
    rcases eq_or_ne id st.sessionID with rfl | hne
    · -- the queue that the loop has looked up is still the registered one
      rw [AList.lookup_insert, Option.bind_some, hself, Option.map_some]
      exact (hqueue fun e he heq => hid (.inl ⟨e, hflight e he, heq⟩)).symm
    · have hpending : ¬ Pending s id := by
        rintro (⟨e, he, hid'⟩ | ⟨g', st', hg', hst', hid'⟩)
        · exact hid (.inl ⟨e, hflight e he, hid'⟩)
        · rw [hl] at hg'
          cases hg'
          rw [hst] at hst'
          cases hst'
          exact hne hid'.symm
      rw [AList.lookup_insert_ne hne, ← hinv.settled (by rw [hl]; simp) id hpending, playedQueue]
      cases hc : s.cancels.lookup id with
      | none => rfl
      | some g' =>
        rw [Option.bind_some, Option.bind_some]
        obtain ⟨st', hst', -, -, hphase'⟩ := hinv.stored id g' hc
        rw [hother g']
        rintro rfl
        rw [hst] at hst'
        cases hst'
        exact hphase' hphase

/-- The deleted event takes the stream of its id out of the map, and the session
is gone already. -/
theorem convInv_cancelStream (hinv : ConvInv s) (hlog : LogInv s) (hcancel : CancelInv s)
    (h : s.cancelStream = some t) : ConvInv t := by
  obtain ⟨e, hl, ht, hcase⟩ := State.cancelStream_eq_some h
  obtain ⟨handled, hh⟩ := hcancel.handled
  -- what the two cases leave of the streams
  have hshape : t.loop = .idle ∧ t.manager = s.manager ∧ t.calls = s.calls ∧
      t.cancels = s.cancels.erase e.sessionID ∧
      (∀ g st', t.streams[g]? = some st' → ∃ st, s.streams[g]? = some st ∧ st'.phase = st.phase ∧
        (s.cancels.lookup e.sessionID = some g ∧ st'.cancelled = true ∨ st' = st)) ∧
      ∀ g, s.cancels.lookup e.sessionID ≠ some g → t.streams[g]? = s.streams[g]? := by
    rcases hcase with ⟨-, rfl⟩ | ⟨g, st, hg, hst, rfl⟩
    · exact ⟨rfl, rfl, rfl, rfl, fun g st' hst' => ⟨st', hst', rfl, .inr rfl⟩, fun g _ => rfl⟩
    · refine ⟨rfl, rfl, rfl, rfl, fun g' st' hst' => ?_, fun g' hne => ?_⟩
      · rcases CancelsLemmas.stream_of_set hst' with ⟨rfl, rfl⟩ | ⟨-, hst'⟩
        · exact ⟨st, hst, rfl, .inl ⟨hg, rfl⟩⟩
        · exact ⟨st', hst', rfl, .inr rfl⟩
      · refine List.getElem?_set_ne ?_
        rintro rfl
        exact hne hg
  obtain ⟨hidle, hmanager, hcalls, hcancels, hstreams, hother⟩ := hshape
  have hinbox : t.inbox = s.manager.events.buf := by rw [State.inbox_idle hidle, hmanager]
  have hflight : ∀ e', InFlight s e' → e' = e ∨ InFlight t e' := by
    rintro e' (he' | he')
    · exact .inr (.inl (by rw [hcalls]; exact he'))
    · rw [State.inbox_received hl] at he'
      rcases List.mem_cons.mp he' with rfl | he'
      · exact .inl rfl
      · exact .inr (.inr (by rw [hinbox]; exact he'))
  have hlookup : ∀ id g, t.cancels.lookup id = some g → id ≠ e.sessionID ∧
      s.cancels.lookup id = some g := by
    intro id g hg
    rw [hcancels] at hg
    rcases eq_or_ne id e.sessionID with rfl | hne
    · rw [AList.lookup_erase] at hg
      cases hg
    · exact ⟨hne, (AList.lookup_erase_ne hne).symm.trans hg⟩
  -- the streams of the other ids are not touched
  have hkept : ∀ id g, id ≠ e.sessionID → s.cancels.lookup id = some g →
      t.streams[g]? = s.streams[g]? := by
    intro id g hne hg
    refine hother g fun hg' => hne ?_
    obtain ⟨st, hst, hid, -⟩ := hinv.stored id g hg
    obtain ⟨st', hst', hid', -⟩ := hinv.stored e.sessionID g hg'
    rw [hst] at hst'
    cases hst'
    exact hid.symm.trans hid'
  constructor
  case phase =>
    intro g st' hst' hphase
    obtain ⟨st, hst, heq, -⟩ := hstreams g st' hst'
    have hstarting := hinv.phase g st hst (heq ▸ hphase)
    rw [hl] at hstarting
    cases hstarting
  case uncalled =>
    intro g hg
    rw [hcalls]
    refine hinv.uncalled g fun st hst hphase => ?_
    have hlt := (List.getElem?_eq_some_iff.mp hst).1
    cases hst' : t.streams[g]? with
    | some st' =>
      obtain ⟨st'', hst'', heq, -⟩ := hstreams g st' hst'
      rw [hst] at hst''
      cases hst''
      exact hg st' hst' (heq.trans hphase)
    | none =>
      have hlength : s.streams.length = t.streams.length := by
        rcases hcase with ⟨-, rfl⟩ | ⟨g', st', -, -, rfl⟩
        · rfl
        · exact (List.length_set).symm
      rw [List.getElem?_eq_none_iff] at hst'
      omega
  case stored =>
    intro id g hg
    obtain ⟨hne, hg⟩ := hlookup id g hg
    rw [hkept id g hne hg]
    exact hinv.stored id g hg
  case leaving =>
    intro g st' hst' hphase hcancelled
    obtain ⟨st, hst, heq, hst''⟩ := hstreams g st' hst'
    rcases hst'' with ⟨-, htrue⟩ | rfl
    · rw [hcancelled] at htrue
      cases htrue
    rw [hcalls]
    refine (hinv.leaving g st' hst hphase hcancelled).imp_right ?_
    rintro ⟨e', hc, ht', hid, he'⟩
    rcases hflight e' he' with rfl | he'
    · -- its own event would have found it in the map
      have hown := hcancel.own g st' hst (by rw [hphase]; simp) hcancelled
      rcases hcase with ⟨hnone, -⟩ | ⟨g', st'', hg', hst'', rfl⟩
      · rw [hid, hown] at hnone
        cases hnone
      · rw [hid, hown] at hg'
        cases hg'
        rcases CancelsLemmas.stream_of_set hst' with ⟨-, rfl⟩ | ⟨hne, -⟩
        · cases hcancelled
        · exact absurd rfl hne
    · exact ⟨e', hc, ht', hid, he'⟩
  case starting =>
    intro g st hg
    rw [hidle] at hg
    cases hg
  case settled =>
    intro _ id hid
    rw [hmanager, playedQueue, hcancels]
    rcases eq_or_ne id e.sessionID with rfl | hne
    · rw [AList.lookup_erase, Option.bind_none]
      refine (lookup_of_deleted hlog hh hl ht (fun c e' hc heq => ?_) fun e' he' heq => ?_).symm
      · refine hid (.inl ⟨e', .inl ?_, heq⟩)
        rw [hcalls, (hlog.sending c e' hc).1]
        exact hc
      · exact hid (.inl ⟨e', .inr (by rw [hinbox]; exact he'), heq⟩)
    · have hpending : ¬ Pending s id := by
        rintro (⟨e', he', hid'⟩ | ⟨g, -, hg, -, -⟩)
        · rcases hflight e' he' with rfl | he'
          · exact hne hid'.symm
          · exact hid (.inl ⟨e', he', hid'⟩)
        · rw [hl] at hg
          cases hg
      rw [AList.lookup_erase_ne hne, ← hinv.settled (by rw [hl]; simp) id hpending, playedQueue]
      cases hc : s.cancels.lookup id with
      | none => rfl
      | some g => rw [Option.bind_some, Option.bind_some, hkept id g hne hc]

/-- A call moves on, and its event, if it had one, with it. -/
theorem convInv_returned {c : Caller} {err : Option SessionError} {history : List Effect}
    {m : SessionManager Track} (hinv : ConvInv s) (hlookup : m.sessions = s.manager.sessions)
    (hc : ∀ g, c = .stream g → s.calls c ≠ .idle)
    (hflight : ∀ e, InFlight s e → InFlight { s with
      manager := m, calls := Function.update s.calls c (.returned err), history := history } e) :
    ConvInv { s with
      manager := m, calls := Function.update s.calls c (.returned err), history := history } := by
  refine convInv_frame hinv rfl rfl (fun _ => Iff.rfl) id hflight
    (fun _ => .inl (by rw [hlookup])) fun g hg => .inl ?_
  show Function.update s.calls c _ (.stream g) = .idle
  rw [Function.update_of_ne, hg]
  intro heq
  exact hc g heq.symm (heq ▸ hg)

theorem convInv_createSession {n : Nat} {id : SessionID} {archiveID : Option Int}
    (hinv : ConvInv s) (h : s.createSession (.rpc n) id archiveID = some t) : ConvInv t := by
  obtain ⟨hc, ⟨err, -, rfl⟩ | ⟨-, -, rfl⟩⟩ := State.createSession_eq_some h
  · refine convInv_returned hinv rfl (by simp) ?_
    rintro e (he | he)
    · refine .inl ?_
      show Function.update s.calls (.rpc n) _ e.caller = _
      rw [Function.update_of_ne, he]
      intro heq
      rw [heq, hc] at he
      cases he
    · exact .inr he
  · exact convInv_call (e := ⟨.sessionCreated, id, .rpc n⟩) hinv hc rfl
      (fun id' hne => SessionManager.register_lookup_ne _ _ hne) rfl (by simp)

theorem convInv_send {c : Caller} (hinv : ConvInv s) (h : s.send c = some t) : ConvInv t := by
  obtain ⟨e, m, hc, hm, rfl⟩ := State.send_eq_some h
  obtain ⟨-, hb, hsessions, -⟩ := SessionManager.send_eq_some hm
  refine convInv_returned hinv hsessions (fun _ _ => by rw [hc]; simp) ?_
  have hinbox := State.inbox_send (s := s) (Function.update s.calls c (.returned none))
    (.sent e :: s.history) hb
  rintro e' (he' | he')
  · rcases eq_or_ne e'.caller c with heq | hne
    · rw [heq, hc] at he'
      cases he'
      exact .inr (by rw [hinbox]; exact List.mem_append_right _ List.mem_cons_self)
    · exact .inl ((Function.update_of_ne hne _ _).trans he')
  · exact .inr (by rw [hinbox]; exact List.mem_append_left _ he')

/-- The loop moves from or to its `select`, and the inbox stays. -/
theorem convInv_loop (hinv : ConvInv s) (hidle : s.loop = .idle) (hloop : ∀ g, t.loop ≠ .starting g)
    (hstreams : t.streams = s.streams) (hcancels : t.cancels = s.cancels)
    (hcalls : t.calls = s.calls) (hsessions : t.manager.sessions = s.manager.sessions)
    (hinbox : t.inbox = s.inbox) : ConvInv t := by
  refine convInv_frame hinv hstreams hcancels (fun g => ?_) (fun _ => by rw [hidle]; simp) ?_
    (fun _ => .inl (by rw [hsessions])) (fun g hg => .inl (by rw [hcalls]; exact hg))
  · exact iff_of_false (hloop g) (by rw [hidle]; simp)
  · rintro e (he | he)
    · exact .inl (by rw [hcalls]; exact he)
    · exact .inr (by rw [hinbox]; exact he)

theorem convInv_receive (hinv : ConvInv s) (h : s.receive = some t) : ConvInv t := by
  have hinbox := State.inbox_receive h
  obtain ⟨hl, ⟨e, m, hm, rfl⟩ | ⟨-, -, rfl⟩⟩ := State.receive_eq_some h
  · exact convInv_loop hinv hl (by simp) rfl rfl rfl (SessionManager.receive_eq_some hm).2.1 hinbox
  · exact convInv_loop hinv hl (by simp) rfl rfl rfl rfl hinbox

theorem convInv_loopDone (hinv : ConvInv s) (h : s.loopDone = some t) : ConvInv t := by
  have hinbox := State.inbox_loopDone h
  obtain ⟨hl, -, rfl⟩ := State.loopDone_eq_some h
  exact convInv_loop hinv hl (by simp) rfl rfl rfl rfl hinbox

/-- A stream ends, and is yet to make its call. -/
theorem convInv_endStream {g : Nat} (hinv : ConvInv s) (hwork : WorkInv s)
    (h : s.endStream g = some t) : ConvInv t := by
  obtain ⟨st, hst, hrunning, rfl⟩ := State.endStream_eq_some h
  have hlt := (List.getElem?_eq_some_iff.mp hst).1
  have hself : (s.streams.set g { st with phase := .ended })[g]? =
      some { st with phase := .ended } := List.getElem?_set_self hlt
  have hother : ∀ g' : Nat, g ≠ g' →
      (s.streams.set g { st with phase := .ended })[g']? = s.streams[g']? :=
    fun g' hne => List.getElem?_set_ne hne
  have hidle : s.calls (.stream g) = .idle := by
    refine hinv.uncalled g fun st' hst' => ?_
    obtain rfl : st = st' := Option.some.inj (hst.symm.trans hst')
    rw [hrunning]
    simp
  have hne : ∀ g' : Nat, s.loop = .starting g' → g ≠ g' := by
    rintro g' hg' rfl
    obtain ⟨st', hst', hstarting⟩ := hwork.starting g hg'
    rw [hst] at hst'
    cases hst'
    rw [hrunning] at hstarting
    cases hstarting
  constructor
  case phase =>
    intro g' st' hst' hphase
    rcases CancelsLemmas.stream_of_set hst' with ⟨-, rfl⟩ | ⟨-, hst'⟩
    · cases hphase
    · exact hinv.phase g' st' hst' hphase
  case uncalled => exact uncalled_set hinv hst (by rw [hrunning]; simp)
  case stored =>
    intro id g' hg'
    obtain ⟨st', hst', hid, hcancelled, hphase⟩ := hinv.stored id g' hg'
    rcases eq_or_ne g g' with rfl | hne
    · rw [hst] at hst'
      cases hst'
      exact ⟨_, hself, hid, hcancelled, by simp⟩
    · exact ⟨st', (hother g' hne).trans hst', hid, hcancelled, hphase⟩
  case leaving =>
    intro g' st' hst' hphase hcancelled
    rcases CancelsLemmas.stream_of_set hst' with ⟨rfl, -⟩ | ⟨-, hst'⟩
    · exact .inl hidle
    · exact hinv.leaving g' st' hst' hphase hcancelled
  case starting =>
    intro g' st' hg' hst'
    have hst' : (s.streams.set g _)[g']? = some st' := hst'
    rw [hother g' (hne g' hg')] at hst'
    exact hinv.starting g' st' hg' hst'
  case settled =>
    intro hl id hid
    have hpending : ¬ Pending s id := by
      rintro (⟨e, he, hid'⟩ | ⟨g', st', hg', hst', hid'⟩)
      · exact hid (.inl ⟨e, he, hid'⟩)
      · exact hid (.inr ⟨g', st', hg', (hother g' (hne g' hg')).trans hst', hid'⟩)
    show (s.cancels.lookup id).bind _ = s.manager.sessions.lookup id
    rw [← hinv.settled hl id hpending, playedQueue]
    cases hc : s.cancels.lookup id with
    | none => rfl
    | some g' =>
      rw [Option.bind_some, Option.bind_some]
      rcases eq_or_ne g g' with rfl | hne
      · rw [hself, hst]
        rfl
      · rw [hother g' hne]

end ConvergenceLemmas

open ConvergenceLemmas

theorem convInv_step {s t : State} {a : Action} (hinv : ConvInv s) (hlog : LogInv s)
    (hcancel : CancelInv s) (hwork : WorkInv s) (h : s.step a = some t) : ConvInv t := by
  cases a with
  | createSession n id archiveID => exact convInv_createSession hinv h
  | deleteSession n id =>
    obtain ⟨hc, rfl⟩ := State.deleteSession_eq_some h
    exact convInv_call (e := ⟨.sessionDeleted, id, .rpc n⟩) hinv hc rfl
      (fun id' hne => SessionManager.deleteSession_lookup_ne _ hne) rfl (by simp)
  | endSession g =>
    obtain ⟨st, hst, hphase, hc, rfl⟩ := State.endSession_eq_some h
    refine convInv_call (e := ⟨.sessionDeleted, st.sessionID, .stream g⟩) hinv hc rfl
      (fun id' hne => SessionManager.deleteSession_lookup_ne _ hne) rfl fun g' hg' => ?_
    cases hg'
    exact ⟨st, hst, hphase, rfl, rfl⟩
  | send c => exact convInv_send hinv h
  | abandon c =>
    obtain ⟨e, -, hd, -⟩ := State.abandon_eq_some h
    rw [hlog.patient] at hd
    cases hd
  | receive => exact convInv_receive hinv h
  | loopDone => exact convInv_loopDone hinv h
  | getQueue => exact convInv_getQueue hinv h hwork
  | start => exact convInv_start hinv hwork h
  | cancelStream => exact convInv_cancelStream hinv hlog hcancel h
  | endStream g => exact convInv_endStream hinv hwork h
  | cancelCall c | shutdown | closeEvents =>
    cases h
    exact convInv_frame hinv rfl rfl (fun _ => Iff.rfl) id (fun _ he => he) (fun _ => .inl rfl)
      fun _ hg => .inl hg

theorem convInv_initial (maxSessions : Int) : ConvInv (.initial maxSessions) where
  phase := by
    intro g st hst
    cases hst
  uncalled := fun _ _ => rfl
  stored := by
    intro id g hg
    cases hg
  leaving := by
    intro g st hst
    cases hst
  starting := by
    intro g st hg
    cases hg
  settled := fun _ _ _ => rfl

/-- At rest nothing is on its way, so what is stored is what is registered, and
every stream that is not cancelled is stored and plays. -/
theorem converged_of_inv {s : State} (hinv : ConvInv s) (hcancel : CancelInv s)
    (hrest : AtRest s) : Converged s := by
  have hflight : ∀ e, ¬ InFlight s e := by
    rintro e (he | he)
    · exact hrest.calls _ e he
    · rw [State.inbox_idle hrest.loop, hrest.events] at he
      cases he
  have hpending : ∀ id, ¬ Pending s id := by
    rintro id (⟨e, he, -⟩ | ⟨g, st, hg, -, -⟩)
    · exact hflight e he
    · rw [hrest.loop] at hg
      cases hg
  have hsettled : ∀ id, playedQueue s id = s.manager.sessions.lookup id :=
    fun id => hinv.settled (by rw [hrest.loop]; simp) id (hpending id)
  have hrunning : ∀ (g : Nat) st, s.streams[g]? = some st → st.phase ≠ .starting →
      st.cancelled = false → st.phase = .running := by
    intro g st hst hstarting hcancelled
    cases hphase : st.phase with
    | starting => exact absurd hphase hstarting
    | running => rfl
    | ended =>
      rcases hinv.leaving g st hst hphase hcancelled with hidle | ⟨e, -, -, -, he⟩
      · exact absurd hidle (hrest.ended g st hst hphase)
      · exact absurd he (hflight e)
  have hown : ∀ (g : Nat) st id q, s.streams[g]? = some st → st.Plays id q →
      s.cancels.lookup id = some g := by
    intro g st id q hst hplays
    rw [← hplays.id]
    exact hcancel.own g st hst (by rw [hplays.running]; simp) hplays.uncancelled
  constructor
  case played =>
    intro id q
    rw [← hsettled, playedQueue, Option.bind_eq_some_iff]
    constructor
    · rintro ⟨g, hg, hq⟩
      obtain ⟨st, hst, hid, hcancelled, hstarting⟩ := hinv.stored id g hg
      rw [hst, Option.map_some, Option.some.injEq] at hq
      exact ⟨g, st, hst, hid, hq, hrunning g st hst hstarting hcancelled, hcancelled⟩
    · rintro ⟨g, st, hst, hplays⟩
      exact ⟨g, hown g st id q hst hplays, by rw [hst, Option.map_some, hplays.queue]⟩
  case single =>
    intro g g' st st' id q q' hst hst' hplays hplays'
    exact Option.some.inj ((hown g st id q hst hplays).symm.trans (hown g' st' id q' hst' hplays'))

theorem invs_reach {maxSessions : Int} {s : State}
    (h : Reach (sessionSystem maxSessions) UncancelledInTurn s) :
    LogInv s ∧ Each Alternates (updates s) ∧ CancelInv s ∧ WorkInv s ∧ ConvInv s := by
  refine h.invariant (I := fun s => LogInv s ∧ Each Alternates (updates s) ∧ CancelInv s ∧
    WorkInv s ∧ ConvInv s) ?_ ?_
  · rintro _ rfl
    exact ⟨logInv_initial maxSessions, trivial, cancelInv_initial maxSessions,
      QuiescenceLemmas.workInv_initial maxSessions, convInv_initial maxSessions⟩
  · rintro s a t - ⟨hlog, hturns, hcancel, hwork, hinv⟩ hg hs
    exact ⟨logInv_step hlog hg hs, turns_step hlog hturns hs,
      cancelInv_step hcancel (deletedBetween_of_inTurn hlog hturns hg) hs,
      QuiescenceLemmas.workInv_step hwork hs, convInv_step hinv hlog hcancel hwork hs⟩

/-- For every cap, in every run of callers that do not give up and do not
overtake each other, whenever the server has come to rest. -/
theorem converges {maxSessions : Int} {s : State}
    (h : Reach (sessionSystem maxSessions) UncancelledInTurn s) (hrest : AtRest s) :
    Converged s := by
  obtain ⟨-, -, hcancel, -, hinv⟩ := invs_reach h
  exact converged_of_inv hinv hcancel hrest

/-- Of two sessions one is deleted. Its stream is cancelled, ends, and deletes
what is not there any more. -/
theorem converges_deleted : ∃ s, AtRest s ∧ Converged s ∧ s.manager.listSessions = ["lounge"] ∧
    s.streams.map (fun st => (st.sessionID, st.cancelled)) =
      [("lounge", false), ("station", true)] := by
  obtain ⟨s, hs, hp⟩ := Reach.of_guardedRun (S := sessionSystem 50) (C := UncancelledInTurn)
    (p := fun s => decide (s.loop = .idle ∧ s.manager.events.buf = [] ∧
      (∀ e ∈ updates s, s.calls e.caller = .returned none) ∧
      s.streams = [⟨⟨.sessionCreated, "lounge", .rpc 0⟩, 0, false, .running⟩,
        ⟨⟨.sessionCreated, "station", .rpc 1⟩, 1, true, .ended⟩] ∧
      s.calls (.stream 1) = .returned none ∧ s.manager.listSessions = ["lounge"]))
    [.createSession 0 "lounge" none, .createSession 1 "station" none, .send (.rpc 0),
      .send (.rpc 1), .receive, .getQueue, .start, .receive, .getQueue, .start,
      .deleteSession 2 "station", .send (.rpc 2), .receive, .cancelStream, .endStream 1,
      .endSession 1, .send (.stream 1), .receive, .cancelStream]
    rfl (by decide)
  obtain ⟨hloop, hevents, hcalls, hstreams, hcall, hlist⟩ := of_decide_eq_true hp
  have hrest : AtRest s := by
    refine ⟨hloop, hevents, fun c e hc => ?_, fun g st hst hcancelled => ?_,
      fun g st hst hphase => ?_⟩
    · obtain ⟨rfl, he⟩ := (invs_reach hs).1.sending c e hc
      rw [hcalls e he] at hc
      cases hc
    all_goals
      rw [hstreams] at hst
      match g, hst with
      | 0, hst => cases hst; first | cases hcancelled | cases hphase
      | 1, hst => cases hst; simp [hcall]
  refine ⟨s, hrest, converges hs hrest, hlist, ?_⟩
  rw [hstreams]
  rfl

end RadioJockey.Streams
