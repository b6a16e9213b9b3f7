import Mathlib.Data.List.Chain
import RadioJockey.AllOrNothing

/-!
# The registry and its queues under every interleaving

The server's system with the callers of the queues' methods: an RPC handler or a
playback loop that got a queue from `GetQueue` keeps the pointer, and calls
`Enqueue`, `Dequeue`, `Remove` and `Skip` on it as often as it likes, also when
the session has left the registry meanwhile.

* `Registry.step`: one step of the server, or of one of these callers.
* `managerStep`: all that a step can do to the registry.
* `registry_well_kept`: the cap, the balance of registrations and deletions, the
  queues' bounds, and the single registration between two deletions of an id.
-/

namespace RadioJockey.Registry

open Channel Transition Streams

/-- Who calls the methods of a queue. `signalling` is the time in `Enqueue`
between the append and the signal. -/
inductive User
  | idle
  | holding (q : QueueRef)
  | signalling (q : QueueRef)
  deriving DecidableEq

structure State where
  server : Streams.State
  users : Nat → User

inductive Action
  | server (a : Streams.Action)
  | getQueue (n : Nat) (id : SessionID)
  | enqueue (n : Nat) (t : Track)
  | wake (n : Nat)
  | dequeue (n : Nat)
  | remove (n : Nat) (index : Nat)
  | skip (n : Nat)
  | receiveNotify (n : Nat)
  | receiveEvent (n : Nat)

namespace State

def initial (maxSessions : Int) : State where
  server := .initial maxSessions
  users := fun _ => .idle

/-- The server after the queue behind `q` has become `queue`. -/
def setQueue (s : State) (q : QueueRef) (queue : SessionQueue Track) : Streams.State :=
  { s.server with manager := s.server.manager.setQueue q queue }

/-- The user `n` runs `f` on the queue behind `q` and is `next` after it. When
the call fails, the user has its error and the queue is as it was. -/
def call (s : State) (n : Nat) (q : QueueRef) (next : User)
    (f : SessionQueue Track → Option (SessionQueue Track)) : Option State :=
  match s.server.manager.queues[q]? with
  | none => none
  | some queue =>
    match f queue with
    | none => some s
    | some queue' =>
      some ⟨s.setQueue q queue', Function.update s.users n next⟩

/-- A call on the queue that the user `n` holds. -/
def callHeld (s : State) (n : Nat) (f : SessionQueue Track → Option (SessionQueue Track)) :
    Option State :=
  match s.users n with
  | .holding q => s.call n q (.holding q) f
  | _ => none

def getQueue (s : State) (n : Nat) (id : SessionID) : Option State :=
  match s.users n with
  | .signalling _ => none
  | .idle | .holding _ =>
    match s.server.manager.getQueue id with
    | .error _ => some s
    | .ok q => some { s with users := Function.update s.users n (.holding q) }

def enqueue (s : State) (n : Nat) (t : Track) : Option State :=
  match s.users n with
  | .holding q => s.call n q (.signalling q) fun queue => (queue.enqueue t).toOption
  | _ => none

def wake (s : State) (n : Nat) : Option State :=
  match s.users n with
  | .signalling q => s.call n q (.holding q) fun queue => some queue.wake
  | _ => none

def step (s : State) : Action → Option State
  | .server a => (s.server.step a).map fun server => { s with server := server }
  | .getQueue n id => s.getQueue n id
  | .enqueue n t => s.enqueue n t
  | .wake n => s.wake n
  | .dequeue n => s.callHeld n fun queue => queue.dequeue.toOption.map Prod.snd
  | .remove n index => s.callHeld n fun queue => (queue.remove index).toOption
  | .skip n => s.callHeld n fun queue => queue.skip.toOption
  | .receiveNotify n =>
    s.callHeld n fun queue => queue.notify.recv?.map fun p => { queue with notify := p.2 }
  | .receiveEvent n =>
    s.callHeld n fun queue => queue.events.recv?.map fun p => { queue with events := p.2 }

end State

/-- The server's runs with the callers of its queues. -/
def registrySystem (maxSessions : Int) : System State Action where
  init s := s = .initial maxSessions
  step := State.step

/-! ## The property -/

/-- The id that the effect registers. -/
def registeredBy : Effect → Option SessionID
  | .registered _ id _ => some id
  | _ => none

/-- The id whose entry the effect deletes. -/
def deletedBy : Effect → Option SessionID
  | .erased _ id (some _) => some id
  | _ => none

def registrations (s : State) : List SessionID := s.server.history.filterMap registeredBy

/-- The deletions that found an entry. -/
def deletions (s : State) : List SessionID := s.server.history.filterMap deletedBy

structure WellKept (maxSessions : Int) (s : State) : Prop where
  size : (s.server.manager.listSessions.length : Int) ≤ max maxSessions 0
  balance : (s.server.manager.listSessions.length : Int) =
    (registrations s).length - (deletions s).length
  queues : ∀ id q, s.server.manager.sessions.lookup id = some q →
    ∃ queue, s.server.manager.queues[q]? = some queue ∧ queue.sessionId = id ∧
      queue.tracks.length ≤ maxQueueSize ∧ queue.notify.buf.length ≤ 1 ∧
      queue.events.buf.length ≤ 1
  /-- In a stretch of the history in which no call deletes the id, at most one
  call registers it. -/
  between : ∀ id (stretch : List Effect), stretch <:+: s.server.history →
    (∀ eff ∈ stretch, deletedBy eff ≠ some id) →
    (stretch.filter fun eff => registeredBy eff = some id).length ≤ 1

/-! ## What a step does to the registry -/

/-- The effect changes no entry. -/
def Quiet (eff : Effect) : Prop := registeredBy eff = none ∧ deletedBy eff = none

/-- The registry `m` with the history `h` behind it, and the same after a step. -/
inductive ManagerStep (m m' : SessionManager Track) (h h' : List Effect) : Prop
  | kept (new : List Effect) : (∀ eff ∈ new, Quiet eff) → h' = new ++ h →
      m'.sessions = m.sessions → m'.maxSessions = m.maxSessions →
      (∀ q : QueueRef, m'.queues[q]?.map SessionQueue.sessionId =
        m.queues[q]?.map SessionQueue.sessionId) → ManagerStep m m' h h'
  | registered (c : Caller) (id : SessionID) (archiveID : Option Int) :
      m.sessions.lookup id = none → (m.sessions.entries.length : Int) < m.maxSessions →
      m' = m.register id archiveID → h' = .registered c id m.queues.length :: h →
      ManagerStep m m' h h'
  | erased (c : Caller) (id : SessionID) :
      m' = m.deleteSession id → h' = .erased c id (m.sessions.lookup id) :: h →
      ManagerStep m m' h h'

namespace RegistryLemmas

/-- A step of the server that leaves the map and the queues alone. -/
theorem silent {m m' : SessionManager Track} (h : List Effect) (hs : m'.sessions = m.sessions)
    (hq : m'.queues = m.queues) (hmax : m'.maxSessions = m.maxSessions) : ManagerStep m m' h h :=
  .kept [] (fun _ he => absurd he List.not_mem_nil) rfl hs hmax fun q => by rw [hq]

theorem serverStep {s t : Streams.State} {a : Streams.Action} (h : s.step a = some t) :
    ManagerStep s.manager t.manager s.history t.history := by
  cases a with
  | createSession n id archiveID =>
    obtain ⟨-, ⟨err, -, rfl⟩ | ⟨hl, hok, rfl⟩⟩ := Streams.State.createSession_eq_some h
    · exact silent _ rfl rfl rfl
    · obtain ⟨-, hlt, -, -⟩ := SessionManager.createSession_eq_ok hok
      exact .registered (.rpc n) id archiveID hl hlt rfl rfl
  | deleteSession n id =>
    obtain ⟨-, rfl⟩ := Streams.State.deleteSession_eq_some h
    exact .erased (.rpc n) id rfl rfl
  | endSession g =>
    obtain ⟨st, -, -, -, rfl⟩ := Streams.State.endSession_eq_some h
    exact .erased (.stream g) st.sessionID rfl rfl
  | send c =>
    obtain ⟨e, m, -, hm, rfl⟩ := Streams.State.send_eq_some h
    obtain ⟨-, -, hs, hq, hmax⟩ := SessionManager.send_eq_some hm
    have hquiet : ∀ eff ∈ [Effect.sent e], Quiet eff := by simp [Quiet, registeredBy, deletedBy]
    exact .kept [.sent e] hquiet rfl hs hmax fun q => by rw [hq]
  | receive =>
    obtain ⟨-, ⟨e, m, hm, rfl⟩ | ⟨-, -, rfl⟩⟩ := Streams.State.receive_eq_some h
    · obtain ⟨-, hs, hq, hmax⟩ := SessionManager.receive_eq_some hm
      exact silent _ hs hq hmax
    · exact silent _ rfl rfl rfl
  | abandon c =>
    obtain ⟨e, -, -, rfl⟩ := Streams.State.abandon_eq_some h
    exact silent _ rfl rfl rfl
  | loopDone =>
    obtain ⟨-, -, rfl⟩ := Streams.State.loopDone_eq_some h
    exact silent _ rfl rfl rfl
  | getQueue =>
    obtain ⟨e, -, -, ⟨-, rfl⟩ | ⟨q, -, rfl⟩⟩ := Streams.State.getQueue_eq_some h
    · exact silent _ rfl rfl rfl
    · exact silent _ rfl rfl rfl
  | start =>
    obtain ⟨g, st, -, -, rfl⟩ := Streams.State.start_eq_some h
    exact silent _ rfl rfl rfl
  | cancelStream =>
    obtain ⟨e, -, -, ⟨-, rfl⟩ | ⟨g, st, -, -, rfl⟩⟩ := Streams.State.cancelStream_eq_some h
    · exact silent _ rfl rfl rfl
    · have hquiet : ∀ eff ∈ [Effect.cancelled e.caller g], Quiet eff := by
        simp [Quiet, registeredBy, deletedBy]
      exact .kept [.cancelled e.caller g] hquiet rfl rfl rfl fun _ => rfl
  | endStream g =>
    obtain ⟨st, -, -, rfl⟩ := Streams.State.endStream_eq_some h
    exact silent _ rfl rfl rfl
  | cancelCall c | shutdown | closeEvents =>
    cases h
    exact silent _ rfl rfl rfl

/-- A call on a queue keeps the queue's id, when its method does. -/
theorem callStep {s t : State} {n : Nat} {q : QueueRef} {next : User}
    {f : SessionQueue Track → Option (SessionQueue Track)}
    (hf : ∀ queue queue', f queue = some queue' → queue'.sessionId = queue.sessionId)
    (h : s.call n q next f = some t) :
    ManagerStep s.server.manager t.server.manager s.server.history t.server.history := by
  unfold State.call at h
  split at h
  · cases h
  · next queue hq =>
    split at h
    · cases h
      exact silent _ rfl rfl rfl
    · next queue' hq' =>
      cases h
      refine .kept [] (fun _ he => absurd he List.not_mem_nil) rfl rfl rfl fun r => ?_
      show (s.server.manager.queues.set q queue')[r]?.map _ = _
      rw [List.getElem?_set]
      split
      · next he =>
        subst he
        rw [hq, if_pos (List.getElem?_eq_some_iff.mp hq).1, Option.map_some, Option.map_some,
          hf queue queue' hq']
      · rfl

theorem callHeldStep {s t : State} {n : Nat}
    {f : SessionQueue Track → Option (SessionQueue Track)}
    (hf : ∀ queue queue', f queue = some queue' → queue'.sessionId = queue.sessionId)
    (h : s.callHeld n f = some t) :
    ManagerStep s.server.manager t.server.manager s.server.history t.server.history := by
  unfold State.callHeld at h
  split at h
  · exact callStep hf h
  · cases h

theorem toOption_eq_some {r : Except SessionError (SessionQueue Track)}
    {queue : SessionQueue Track} (h : r.toOption = some queue) : r = .ok queue := by
  cases r with
  | error err => cases h
  | ok queue' => cases h; rfl

/-- All that a step can do to the registry. -/
theorem managerStep {s t : State} {a : Action} (h : s.step a = some t) :
    ManagerStep s.server.manager t.server.manager s.server.history t.server.history := by
  cases a with
  | server a =>
    obtain ⟨server, hs, rfl⟩ := Option.map_eq_some_iff.mp h
    exact serverStep hs
  | getQueue n id =>
    simp only [State.step, State.getQueue] at h
    split at h
    · cases h
    all_goals
      split at h <;> cases h
      all_goals exact silent _ rfl rfl rfl
  | enqueue n t =>
    simp only [State.step, State.enqueue] at h
    split at h
    · refine callStep (fun queue queue' hq => ?_) h
      exact (SessionQueue.enqueue_eq_ok (toOption_eq_some hq)).2.2.1
    · cases h
  | wake n =>
    simp only [State.step, State.wake] at h
    split at h
    · exact callStep (fun queue queue' hq => by cases hq; rfl) h
    · cases h
  | dequeue n =>
    refine callHeldStep (fun queue queue' hq => ?_) h
    obtain ⟨⟨t, q⟩, hd, rfl⟩ := Option.map_eq_some_iff.mp hq
    cases hr : queue.dequeue with
    | error err => rw [hr] at hd; cases hd
    | ok p =>
      rw [hr] at hd
      cases hd
      exact (SessionQueue.dequeue_eq_ok hr).2.1
  | remove n index =>
    refine callHeldStep (fun queue queue' hq => ?_) h
    exact (SessionQueue.remove_eq_ok (toOption_eq_some hq)).2.2.1
  | skip n =>
    refine callHeldStep (fun queue queue' hq => ?_) h
    obtain ⟨t, ts, -, rfl⟩ := SessionQueue.skip_eq_ok.mp (toOption_eq_some hq)
    rfl
  | receiveNotify n | receiveEvent n =>
    refine callHeldStep (fun queue queue' hq => ?_) h
    obtain ⟨p, -, rfl⟩ := Option.map_eq_some_iff.mp hq
    rfl

end RegistryLemmas

/-! ## The invariant -/

/-- What the effect says of the id: an entry is made (`true`) or deleted. -/
def changeOf (id : SessionID) (eff : Effect) : Option Bool :=
  if registeredBy eff = some id then some true
  else if deletedBy eff = some id then some false
  else none

/-- What happened to the entry of the id, last change first. -/
def changes (id : SessionID) (h : List Effect) : List Bool := h.filterMap (changeOf id)

structure RegistryInv (m : SessionManager Track) (h : List Effect) : Prop where
  size : (m.sessions.entries.length : Int) ≤ max m.maxSessions 0
  balance : m.sessions.entries.length + (h.filterMap deletedBy).length =
    (h.filterMap registeredBy).length
  ids : ∀ id q, m.sessions.lookup id = some q →
    m.queues[q]?.map SessionQueue.sessionId = some id
  /-- An entry is there when the last change made it. -/
  newest : ∀ id, (changes id h).head? = some true ↔ (m.sessions.lookup id).isSome
  alternate : ∀ id, (changes id h).IsChain (· ≠ ·)

namespace RegistryLemmas

theorem filterMap_quiet {β : Type} {f : Effect → Option β} {new h : List Effect}
    (hf : ∀ eff ∈ new, f eff = none) : (new ++ h).filterMap f = h.filterMap f := by
  rw [List.filterMap_append, List.filterMap_eq_nil_iff.mpr hf, List.nil_append]

theorem changeOf_quiet {eff : Effect} (h : Quiet eff) (id : SessionID) :
    changeOf id eff = none := by
  simp [changeOf, h.1, h.2]

theorem changes_registered (c : Caller) (id id' : SessionID) (q : QueueRef) (h : List Effect) :
    changes id' (.registered c id q :: h) =
      if id = id' then true :: changes id' h else changes id' h := by
  by_cases he : id = id' <;> simp [changes, changeOf, registeredBy, deletedBy, he]

theorem changes_erased (c : Caller) (id id' : SessionID) (q : QueueRef) (h : List Effect) :
    changes id' (.erased c id (some q) :: h) =
      if id = id' then false :: changes id' h else changes id' h := by
  by_cases he : id = id' <;> simp [changes, changeOf, registeredBy, deletedBy, he]

theorem registryInv_kept {m m' : SessionManager Track} {h new : List Effect}
    (hinv : RegistryInv m h) (hquiet : ∀ eff ∈ new, Quiet eff) (hs : m'.sessions = m.sessions)
    (hmax : m'.maxSessions = m.maxSessions) (hq : ∀ q : QueueRef,
      m'.queues[q]?.map SessionQueue.sessionId = m.queues[q]?.map SessionQueue.sessionId) :
    RegistryInv m' (new ++ h) := by
  have hchanges : ∀ id, changes id (new ++ h) = changes id h :=
    fun id => filterMap_quiet fun eff he => changeOf_quiet (hquiet eff he) id
  constructor
  case size => rw [hs, hmax]; exact hinv.size
  case balance =>
    rw [hs, filterMap_quiet fun eff he => (hquiet eff he).2,
      filterMap_quiet fun eff he => (hquiet eff he).1]
    exact hinv.balance
  case ids =>
    rw [hs]
    exact fun id q hl => (hq q).trans (hinv.ids id q hl)
  case newest => rw [hs]; exact fun id => by rw [hchanges]; exact hinv.newest id
  case alternate => exact fun id => by rw [hchanges]; exact hinv.alternate id

theorem registryInv_registered {m : SessionManager Track} {h : List Effect} {c : Caller}
    {id : SessionID} {archiveID : Option Int} (hinv : RegistryInv m h)
    (hl : m.sessions.lookup id = none) (hlt : (m.sessions.entries.length : Int) < m.maxSessions) :
    RegistryInv (m.register id archiveID) (.registered c id m.queues.length :: h) := by
  have hlen : (m.register id archiveID).sessions.entries.length =
      m.sessions.entries.length + 1 := by
    have hnew : id ∉ m.sessions := AList.lookup_eq_none.mp hl
    exact congrArg List.length (AList.entries_insert_of_notMem hnew)
  constructor
  case size =>
    show ((m.register id archiveID).sessions.entries.length : Int) ≤ max m.maxSessions 0
    rw [hlen]
    omega
  case balance =>
    show _ + (h.filterMap deletedBy).length = (h.filterMap registeredBy).length + 1
    rw [hlen, ← hinv.balance]
    omega
  case ids =>
    intro id' q hq
    show (m.queues ++ [SessionQueue.newQueue id archiveID])[q]?.map _ = _
    by_cases he : id' = id
    · subst he
      rw [SessionManager.register_lookup] at hq
      cases hq
      rw [List.getElem?_concat_length]
      rfl
    · rw [SessionManager.register_lookup_ne m archiveID he] at hq
      rw [List.getElem?_append_left (m.allocated id' q hq)]
      exact hinv.ids id' q hq
  case newest =>
    intro id'
    rw [changes_registered]
    split
    · next he => subst he; simp
    · next he =>
      rw [SessionManager.register_lookup_ne m archiveID (Ne.symm he)]
      exact hinv.newest id'
  case alternate =>
    intro id'
    rw [changes_registered]
    split
    · next he =>
      subst he
      refine List.isChain_cons.mpr ⟨fun b hb hne => ?_, hinv.alternate id⟩
      -- a second registration in a row would have found the entry
      have := (hinv.newest id).mp (hb.trans (by rw [hne]))
      rw [hl] at this
      cases this
    · exact hinv.alternate id'

theorem registryInv_erased {m : SessionManager Track} {h : List Effect} {c : Caller}
    {id : SessionID} (hinv : RegistryInv m h) :
    RegistryInv (m.deleteSession id) (.erased c id (m.sessions.lookup id) :: h) := by
  cases hl : m.sessions.lookup id with
  | none =>
    have hs : (m.deleteSession id).sessions = m.sessions :=
      SessionManager.deleteSession_sessions_of_none hl
    have hquiet : ∀ eff ∈ [Effect.erased c id none], Quiet eff := by
      simp [Quiet, registeredBy, deletedBy]
    exact registryInv_kept hinv hquiet hs rfl fun _ => rfl
  | some q =>
    have hlen : (m.deleteSession id).sessions.entries.length + 1 = m.sessions.entries.length := by
      have hmem : id ∈ m.sessions.keys :=
        AList.mem_keys.mp (AList.lookup_isSome.mp (by rw [hl]; rfl))
      have hpos := List.length_pos_of_mem hmem
      have herase := congrArg List.length (AList.keys_erase id m.sessions)
      rw [List.length_erase_of_mem hmem] at herase
      simp only [AList.keys, List.keys, List.length_map] at herase hpos
      show (m.sessions.erase id).entries.length + 1 = _
      omega
    constructor
    case size =>
      show ((m.deleteSession id).sessions.entries.length : Int) ≤ max m.maxSessions 0
      have := hinv.size
      omega
    case balance =>
      show _ + ((h.filterMap deletedBy).length + 1) = (h.filterMap registeredBy).length
      rw [← hinv.balance]
      omega
    case ids =>
      intro id' q' hq'
      exact hinv.ids id' q' (SessionManager.lookup_of_deleteSession hq').2
    case newest =>
      intro id'
      rw [changes_erased]
      split
      · next he => subst he; simp
      · next he =>
        rw [SessionManager.deleteSession_lookup_ne m (Ne.symm he)]
        exact hinv.newest id'
    case alternate =>
      intro id'
      rw [changes_erased]
      split
      · next he =>
        subst he
        refine List.isChain_cons.mpr ⟨fun b hb hne => ?_, hinv.alternate id⟩
        have := (hinv.newest id).mpr (by rw [hl]; rfl)
        rw [hb, ← hne] at this
        cases this
      · exact hinv.alternate id'

theorem registryInv_step {m m' : SessionManager Track} {h h' : List Effect}
    (hinv : RegistryInv m h) (hs : ManagerStep m m' h h') :
    RegistryInv m' h' ∧ m'.maxSessions = m.maxSessions := by
  cases hs with
  | kept new hquiet hh hs hmax hq =>
    subst hh
    exact ⟨registryInv_kept hinv hquiet hs hmax hq, hmax⟩
  | registered c id archiveID hl hlt hm hh =>
    subst hm hh
    exact ⟨registryInv_registered hinv hl hlt, rfl⟩
  | erased c id hm hh =>
    subst hm hh
    exact ⟨registryInv_erased hinv, rfl⟩

theorem registryInv_initial (maxSessions : Int) :
    RegistryInv (.createSessionManager maxSessions) [] where
  size := Int.le_max_right _ _
  balance := rfl
  ids := by
    intro id q h
    cases h
  newest := by simp [changes, SessionManager.createSessionManager]
  alternate := fun _ => .nil

/-- Without deletions, the changes are the registrations. -/
theorem changes_stretch {id : SessionID} {stretch : List Effect}
    (h : ∀ eff ∈ stretch, deletedBy eff ≠ some id) :
    changes id stretch =
      List.replicate (stretch.filter fun eff => registeredBy eff = some id).length true := by
  induction stretch with
  | nil => rfl
  | cons eff stretch ih =>
    have ih := ih fun eff' he => h eff' (List.mem_cons_of_mem eff he)
    have hdel := h eff List.mem_cons_self
    rw [changes] at ih ⊢
    by_cases hreg : registeredBy eff = some id <;>
      simp [changeOf, hreg, hdel, ih, List.replicate_succ]

theorem length_le_one_of_alternate {n : Nat} (h : (List.replicate n true).IsChain (· ≠ ·)) :
    n ≤ 1 := by
  match n with
  | 0 | 1 => omega
  | n + 2 => exact absurd rfl (h.rel_head? (l := List.replicate (n + 1) true) rfl)

theorem wellKept_of_inv {maxSessions : Int} {s : State}
    (hinv : RegistryInv s.server.manager s.server.history)
    (hmax : s.server.manager.maxSessions = maxSessions) : WellKept maxSessions s := by
  have hlen : s.server.manager.listSessions.length = s.server.manager.sessions.entries.length :=
    List.length_map _
  constructor
  case size => rw [hlen, ← hmax]; exact hinv.size
  case balance =>
    have := hinv.balance
    rw [hlen, registrations, deletions]
    omega
  case queues =>
    intro id q hl
    obtain ⟨queue, hq, hid⟩ := Option.map_eq_some_iff.mp (hinv.ids id q hl)
    exact ⟨queue, hq, hid, queue.bounded, queue.notify.bounded, queue.events.bounded⟩
  case between =>
    rintro id stretch ⟨newer, older, hhist⟩ hdel
    have hchain : (changes id newer ++ changes id stretch ++ changes id older).IsChain (· ≠ ·) := by
      have := hinv.alternate id
      rwa [← hhist, changes, List.filterMap_append, List.filterMap_append] at this
    have hstretch := hchain.left_of_append.right_of_append
    rw [changes_stretch hdel] at hstretch
    exact length_le_one_of_alternate hstretch

end RegistryLemmas

open RegistryLemmas

/-- For every cap and in every run, the registry is well kept. -/
theorem registry_well_kept {maxSessions : Int} {s : State}
    (h : Reachable (registrySystem maxSessions) s) : WellKept maxSessions s := by
  have hinv : RegistryInv s.server.manager s.server.history ∧
      s.server.manager.maxSessions = maxSessions := by
    refine h.invariant (I := fun s => RegistryInv s.server.manager s.server.history ∧
      s.server.manager.maxSessions = maxSessions) ?_ ?_
    · rintro _ rfl
      exact ⟨registryInv_initial maxSessions, rfl⟩
    · intro s a t _ ⟨hi, hmax⟩ _ hs
      obtain ⟨hi, hmax'⟩ := registryInv_step hi (managerStep hs)
      exact ⟨hi, hmax'.trans hmax⟩
  exact wellKept_of_inv hinv.1 hinv.2

/-- One place: a second session is refused, the first one is deleted by a call
that then gives up, its queue is still written to, and its id is used again. -/
theorem registry_well_kept_reused : ∃ s, Reachable (registrySystem 1) s ∧
    registrations s = ["a", "a"] ∧ deletions s = ["a"] ∧
      s.server.manager.listSessions = ["a"] ∧ WellKept 1 s := by
  obtain ⟨s, hs, hp⟩ := Reachable.of_run (S := registrySystem 1)
    (p := fun s => decide (registrations s = ["a", "a"] ∧ deletions s = ["a"] ∧
      s.server.manager.listSessions = ["a"]))
    [.server (.createSession 0 "a" none), .server (.createSession 1 "b" none),
      .getQueue 0 "a", .server (.deleteSession 2 "a"), .server (.cancelCall (.rpc 2)),
      .server (.abandon (.rpc 2)), .enqueue 0 ⟨1, "youtube", "x", "t", "a", 60, "f", 0, "", 0⟩,
      .wake 0, .server (.deleteSession 3 "a"), .server (.createSession 4 "a" none), .skip 0]
    (show (registrySystem 1).init (.initial 1) from rfl) (by decide +kernel)
  obtain ⟨hreg, hdel, hlist⟩ := of_decide_eq_true hp
  exact ⟨s, hs, hreg, hdel, hlist, registry_well_kept hs⟩

end RadioJockey.Registry
