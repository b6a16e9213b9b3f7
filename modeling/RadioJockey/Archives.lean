import RadioJockey.Connect
import RadioJockey.Lib.Transition
import RadioJockey.SessionManager

/-!
# Archives of sessions (`db/session_archives.go`, `connect/rpc.go`)

The `CreateSession` RPC inserts the archive row first and registers the
session second, and it has exits in between.

1. `archive_without_session`: a second `CreateSession` with the archive flag
   for an existing id returns `AlreadyExists` and leaves a row.
2. `no_archive_without_session`: there is no such row in any run in which every
   RPC that has inserted one reads it back, finds its id free, and finds room
   for one more session.
-/

namespace RadioJockey.Archives

open Transition

/-- A row of `session_archives`. -/
structure SessionArchive where
  id : Int
  sessionID : String
  createdAt : Int
  deriving DecidableEq, Repr

/-- `id` is the primary key, and `AUTOINCREMENT` never reuses one. -/
structure SessionArchives where
  rows : List SessionArchive
  nextID : Int
  fresh : ∀ r ∈ rows, r.id < nextID

namespace SessionArchives

def empty : SessionArchives := ⟨[], 1, by simp⟩

/-- The `INSERT` of `CreateSessionArchive`. -/
def insert (d : SessionArchives) (sessionID : String) (now : Int) : SessionArchives where
  rows := d.rows ++ [⟨d.nextID, sessionID, now⟩]
  nextID := d.nextID + 1
  fresh := by
    intro r hr
    rcases List.mem_append.mp hr with hr | hr
    · have := d.fresh r hr
      omega
    · rw [List.mem_singleton.mp hr]
      show d.nextID < d.nextID + 1
      omega

def getSessionArchive (d : SessionArchives) (id : Int) : Option SessionArchive :=
  d.rows.find? fun r => r.id = id

theorem getSessionArchive_eq_some {d : SessionArchives} {id : Int} {r : SessionArchive}
    (h : d.getSessionArchive id = some r) : r.id = id := by
  simpa using List.find?_some h

theorem getSessionArchive_isSome {d : SessionArchives} {id : Int} :
    (d.getSessionArchive id).isSome ↔ ∃ r ∈ d.rows, r.id = id := by
  simp [getSessionArchive]

end SessionArchives

/-! ## The RPCs -/

/-- Where the RPC is: before the statement, call or receive that the name
says. `sending` and `deleting` are the `select`s of `CreateSession` and
`DeleteSession`. -/
inductive Phase
  | idle
  | inserting (id : SessionID)
  | reading (id : SessionID) (archiveID : Int)
  | creating (id : SessionID) (archiveID : Option Int)
  | sending (id : SessionID)
  | waiting (id : SessionID)
  | deleting (id : SessionID)
  | returned (code : Option Code)
  deriving DecidableEq

inductive Effect
  | inserted (n : Nat) (archiveID : Int)
  | registered (n : Nat) (q : QueueRef)
  deriving DecidableEq

/-- RPCs are numbered. `history` is for the statements about runs. -/
structure State where
  manager : SessionManager Track
  archives : SessionArchives
  rpcs : Nat → Phase
  history : List Effect

namespace State

def initial (maxSessions : Int) : State where
  manager := .createSessionManager maxSessions
  archives := .empty
  rpcs := fun _ => .idle
  history := []

def move (s : State) (n : Nat) (p : Phase) : State :=
  { s with rpcs := Function.update s.rpcs n p }

/-- A `CreateSession` request. -/
def begin (s : State) (n : Nat) (id : SessionID) (archive : Bool) : Option State :=
  match s.rpcs n with
  | .idle => some (s.move n (if archive then .inserting id else .creating id none))
  | _ => none

/-- The `INSERT`, which fails or stores a row. -/
def insertArchive (s : State) (n : Nat) (ok : Bool) (now : Int) : Option State :=
  match s.rpcs n with
  | .inserting id =>
    if ok then some { s with
      archives := s.archives.insert id now
      rpcs := Function.update s.rpcs n (.reading id s.archives.nextID)
      history := .inserted n s.archives.nextID :: s.history }
    else some (s.move n (.returned (some .internal)))
  | _ => none

/-- `LastInsertId` and `GetSessionArchive`, either of which may fail. -/
def readArchive (s : State) (n : Nat) (ok : Bool) : Option State :=
  match s.rpcs n with
  | .reading id archiveID =>
    match s.archives.getSessionArchive archiveID with
    | some archive =>
      if ok then some (s.move n (.creating id (some archive.id)))
      else some (s.move n (.returned (some .internal)))
    | none => some (s.move n (.returned (some .internal)))
  | _ => none

/-- The locked section of `SessionManager.CreateSession`. -/
def createSession (s : State) (n : Nat) : Option State :=
  match s.rpcs n with
  | .creating id archiveID =>
    match s.manager.createSession id archiveID with
    | .error err => some (s.move n (.returned (some (rpcErrorToCode (.session err)))))
    | .ok (m, q) => some { s with
        manager := m
        rpcs := Function.update s.rpcs n (.sending id)
        history := .registered n q :: s.history }
  | _ => none

/-- The send of either `select`. -/
def send (s : State) (n : Nat) : Option State :=
  match s.rpcs n with
  | .sending id =>
    (s.manager.send ⟨.sessionCreated, id, .rpc n⟩).map fun m =>
      { s.move n (.waiting id) with manager := m }
  | .deleting id =>
    (s.manager.send ⟨.sessionDeleted, id, .rpc n⟩).map fun m =>
      { s.move n (.returned none) with manager := m }
  | _ => none

/-- The context of the RPC ends while it waits. -/
def cancel (s : State) (n : Nat) : Option State :=
  match s.rpcs n with
  | .sending _ | .deleting _ =>
    some (s.move n (.returned (some (rpcErrorToCode (.session .contextError)))))
  | .waiting _ => some (s.move n (.returned (some .deadlineExceeded)))
  | _ => none

/-- The stream reports that it is connected, or that it could not connect. -/
def ready (s : State) (n : Nat) (ok : Bool) : Option State :=
  match s.rpcs n with
  | .waiting _ => some (s.move n (.returned (if ok then none else some .internal)))
  | _ => none

/-- The locked section of `DeleteSession`, for an RPC or for `endSession`. -/
def deleteSession (s : State) (n : Nat) (id : SessionID) : Option State :=
  match s.rpcs n with
  | .idle => some { s.move n (.deleting id) with manager := s.manager.deleteSession id }
  | _ => none

end State

inductive Action
  | begin (n : Nat) (id : SessionID) (archive : Bool)
  | insertArchive (n : Nat) (ok : Bool) (now : Int)
  | readArchive (n : Nat) (ok : Bool)
  | createSession (n : Nat)
  | send (n : Nat)
  | cancel (n : Nat)
  | ready (n : Nat) (ok : Bool)
  | deleteSession (n : Nat) (id : SessionID)
  | receive
  deriving DecidableEq

def State.step (s : State) : Action → Option State
  | .begin n id archive => s.begin n id archive
  | .insertArchive n ok now => s.insertArchive n ok now
  | .readArchive n ok => s.readArchive n ok
  | .createSession n => s.createSession n
  | .send n => s.send n
  | .cancel n => s.cancel n
  | .ready n ok => s.ready n ok
  | .deleteSession n id => s.deleteSession n id
  | .receive => s.manager.receive.map fun p => { s with manager := p.2 }

def archiveSystem (maxSessions : Int) : System State Action where
  init := fun s => s = .initial maxSessions
  step := State.step

/-! ## What is claimed of the rows -/

/-- The RPC `n` has inserted the row and has yet to register its session. -/
def InFlight (s : State) (n : Nat) (archiveID : Int) : Prop :=
  ∃ id, s.rpcs n = .reading id archiveID ∨ s.rpcs n = .creating id (some archiveID)

/-- The RPC `n` has registered a queue that carries the row's id. -/
def Registered (s : State) (n : Nat) (archiveID : Int) : Prop :=
  ∃ q, .registered n q ∈ s.history ∧
    (s.manager.queues[q]?).map SessionQueue.archiveID = some (some archiveID)

def Refused (p : Phase) : Prop :=
  p = .returned (some .alreadyExists) ∨ p = .returned (some .resourceExhausted)

/-- Every row comes with a session, but for the rows of RPCs in flight, and an
RPC whose session was refused has inserted none. -/
structure NoArchiveWithoutSession (s : State) : Prop where
  backed : ∀ a ∈ s.archives.rows, ∃ n, .inserted n a.id ∈ s.history ∧
    (InFlight s n a.id ∨ Registered s n a.id)
  refused : ∀ n, Refused (s.rpcs n) → ∀ archiveID, .inserted n archiveID ∉ s.history

/-- The guard of `no_archive_without_session`: an RPC that has inserted a row
reads it back, and then finds its id free and room for its session. -/
def SessionFollowsArchive (s : State) : Action → Prop
  | .readArchive _ ok => ok = true
  | .createSession n =>
    match s.rpcs n with
    | .creating id (some _) => s.manager.sessions.lookup id = none ∧
        (s.manager.sessions.entries.length : Int) < s.manager.maxSessions
    | _ => True
  | _ => True

instance (s : State) (a : Action) : Decidable (SessionFollowsArchive s a) := by
  cases a <;> unfold SessionFollowsArchive
  case createSession n =>
    dsimp only
    split <;> infer_instance
  all_goals infer_instance

/-- Two `CreateSession` RPCs for one id, both with the archive flag. The second
fails with `AlreadyExists`, and its row stays. -/
theorem archive_without_session :
    ∃ s, Reachable (archiveSystem 50) s ∧ s.rpcs 1 = .returned (some .alreadyExists) ∧
      s.archives.rows.map SessionArchive.id = [1, 2] ∧ ¬ NoArchiveWithoutSession s := by
  obtain ⟨s, hs, hp⟩ := Reachable.of_run (S := archiveSystem 50)
    (p := fun s => decide (s.rpcs 1 = .returned (some .alreadyExists) ∧
      s.archives.rows.map SessionArchive.id = [1, 2] ∧ .inserted 1 2 ∈ s.history))
    [.begin 0 "guild" true, .insertArchive 0 true 0, .readArchive 0 true, .createSession 0,
      .send 0, .receive, .ready 0 true,
      .begin 1 "guild" true, .insertArchive 1 true 1, .readArchive 1 true, .createSession 1]
    rfl (by decide)
  obtain ⟨hret, hrows, hins⟩ := of_decide_eq_true hp
  exact ⟨s, hs, hret, hrows, fun h => h.refused 1 (.inl hret) 2 hins⟩

/-! ## What each step does -/

namespace State

variable {s t : State} {n : Nat}

theorem begin_eq_some {id : SessionID} {archive : Bool} (h : s.begin n id archive = some t) :
    s.rpcs n = .idle ∧
      t = s.move n (if archive then .inserting id else .creating id none) := by
  unfold begin at h
  split at h
  · next hp => cases h; exact ⟨hp, rfl⟩
  · cases h

theorem insertArchive_eq_some {ok : Bool} {now : Int} (h : s.insertArchive n ok now = some t) :
    ∃ id, s.rpcs n = .inserting id ∧
      (t = { s with
        archives := s.archives.insert id now
        rpcs := Function.update s.rpcs n (.reading id s.archives.nextID)
        history := .inserted n s.archives.nextID :: s.history } ∨
      t = s.move n (.returned (some .internal))) := by
  unfold insertArchive at h
  split at h
  · next id hp =>
    refine ⟨id, hp, ?_⟩
    split at h
    · cases h; exact .inl rfl
    · cases h; exact .inr rfl
  · cases h

theorem readArchive_eq_some {ok : Bool} (h : s.readArchive n ok = some t) :
    ∃ id archiveID, s.rpcs n = .reading id archiveID ∧
      ((∃ archive, s.archives.getSessionArchive archiveID = some archive ∧
        t = s.move n (.creating id (some archive.id))) ∨
      ((ok = false ∨ s.archives.getSessionArchive archiveID = none) ∧
        t = s.move n (.returned (some .internal)))) := by
  unfold readArchive at h
  split at h
  · next id archiveID hp =>
    refine ⟨id, archiveID, hp, ?_⟩
    split at h
    · next archive harchive =>
      split at h
      · cases h; exact .inl ⟨archive, harchive, rfl⟩
      · next hok => cases h; exact .inr ⟨.inl (Bool.eq_false_iff.mpr hok), rfl⟩
    · next hnone => cases h; exact .inr ⟨.inr hnone, rfl⟩
  · cases h

theorem createSession_eq_some (h : s.createSession n = some t) :
    ∃ id archiveID, s.rpcs n = .creating id archiveID ∧
      ((∃ err, s.manager.createSession id archiveID = .error err ∧
        t = s.move n (.returned (some (rpcErrorToCode (.session err))))) ∨
      ∃ m q, s.manager.createSession id archiveID = .ok (m, q) ∧ t = { s with
        manager := m
        rpcs := Function.update s.rpcs n (.sending id)
        history := .registered n q :: s.history }) := by
  unfold createSession at h
  split at h
  · next id archiveID hp =>
    refine ⟨id, archiveID, hp, ?_⟩
    split at h
    · next err herr => cases h; exact .inl ⟨err, herr, rfl⟩
    · next m q hok => cases h; exact .inr ⟨m, q, hok, rfl⟩
  · cases h

theorem send_eq_some (h : s.send n = some t) :
    ∃ id m, (s.rpcs n = .sending id ∧ s.manager.send ⟨.sessionCreated, id, .rpc n⟩ = some m ∧
        t = { s.move n (.waiting id) with manager := m }) ∨
      (s.rpcs n = .deleting id ∧ s.manager.send ⟨.sessionDeleted, id, .rpc n⟩ = some m ∧
        t = { s.move n (.returned none) with manager := m }) := by
  unfold send at h
  split at h
  · next id hp =>
    obtain ⟨m, hm, rfl⟩ := Option.map_eq_some_iff.mp h
    exact ⟨id, m, .inl ⟨hp, hm, rfl⟩⟩
  · next id hp =>
    obtain ⟨m, hm, rfl⟩ := Option.map_eq_some_iff.mp h
    exact ⟨id, m, .inr ⟨hp, hm, rfl⟩⟩
  · cases h

theorem cancel_eq_some (h : s.cancel n = some t) :
    ∃ id, ((s.rpcs n = .sending id ∨ s.rpcs n = .deleting id) ∧
        t = s.move n (.returned (some (rpcErrorToCode (.session .contextError))))) ∨
      (s.rpcs n = .waiting id ∧ t = s.move n (.returned (some .deadlineExceeded))) := by
  unfold cancel at h
  split at h
  · next id hp => cases h; exact ⟨id, .inl ⟨.inl hp, rfl⟩⟩
  · next id hp => cases h; exact ⟨id, .inl ⟨.inr hp, rfl⟩⟩
  · next id hp => cases h; exact ⟨id, .inr ⟨hp, rfl⟩⟩
  · cases h

theorem ready_eq_some {ok : Bool} (h : s.ready n ok = some t) :
    ∃ id, s.rpcs n = .waiting id ∧
      t = s.move n (.returned (if ok then none else some .internal)) := by
  unfold ready at h
  split at h
  · next id hp => cases h; exact ⟨id, hp, rfl⟩
  · cases h

theorem deleteSession_eq_some {id : SessionID} (h : s.deleteSession n id = some t) :
    s.rpcs n = .idle ∧
      t = { s.move n (.deleting id) with manager := s.manager.deleteSession id } := by
  unfold deleteSession at h
  split at h
  · next hp => cases h; exact ⟨hp, rfl⟩
  · cases h

theorem receive_eq_some (h : s.step .receive = some t) :
    ∃ p, s.manager.receive = some p ∧ t = { s with manager := p.2 } := by
  obtain ⟨p, hp, rfl⟩ := Option.map_eq_some_iff.mp h
  exact ⟨p, hp, rfl⟩

end State

/-! ## The invariant -/

/-- The phases before the insertion, those of a request without the archive
flag up to its registration, and the two refusals. -/
def Phase.rowless : Phase → Bool
  | .idle | .inserting _ | .creating _ none => true
  | .returned (some .alreadyExists) | .returned (some .resourceExhausted) => true
  | _ => false

/-- Follows every inserted row from its RPC to the queue that carries it. -/
structure ArchiveInv (s : State) : Prop where
  rows : ∀ a ∈ s.archives.rows, ∃ n, .inserted n a.id ∈ s.history
  stored : ∀ n archiveID, .inserted n archiveID ∈ s.history →
    (s.archives.getSessionArchive archiveID).isSome
  followed : ∀ n archiveID, .inserted n archiveID ∈ s.history →
    InFlight s n archiveID ∨ Registered s n archiveID
  reading : ∀ n id archiveID, s.rpcs n = .reading id archiveID → .inserted n archiveID ∈ s.history
  without : ∀ n, (s.rpcs n).rowless = true →
    ∀ archiveID, .inserted n archiveID ∉ s.history

namespace ArchivesLemmas

/-- The two phases in which a row is in flight. -/
theorem inFlight_iff {s : State} {n : Nat} {p : Phase} (hp : s.rpcs n = p) {archiveID : Int} :
    InFlight s n archiveID ↔
      ∃ id, p = .reading id archiveID ∨ p = .creating id (some archiveID) := by
  subst hp
  rfl

/-- Only another RPC can be rowless after one has moved to `p`. -/
theorem rowless_update {f : Nat → Phase} {n n' : Nat} {p : Phase}
    (h : (Function.update f n p n').rowless = true) (hp : p.rowless = false) :
    n' ≠ n ∧ (f n').rowless = true := by
  by_cases hn : n' = n
  · subst hn
    rw [Function.update_self, hp] at h
    cases h
  · rw [Function.update_of_ne hn] at h
    exact ⟨hn, h⟩

/-- A step that moves one RPC and touches neither table nor queues. -/
theorem archiveInv_move {s t : State} {n : Nat} {p : Phase} (hinv : ArchiveInv s)
    (hrpcs : t.rpcs = Function.update s.rpcs n p) (harchives : t.archives = s.archives)
    (hqueues : t.manager.queues = s.manager.queues) (hhist : t.history = s.history)
    (hreading : ∀ id archiveID, p = .reading id archiveID → .inserted n archiveID ∈ s.history)
    (hfollowed : ∀ archiveID, .inserted n archiveID ∈ s.history → ¬ Registered s n archiveID →
      ∃ id, p = .reading id archiveID ∨ p = .creating id (some archiveID))
    (hwithout : p.rowless = true → ∀ archiveID, .inserted n archiveID ∉ s.history) :
    ArchiveInv t := by
  have hself : t.rpcs n = p := by rw [hrpcs, Function.update_self]
  have hother : ∀ n', n' ≠ n → t.rpcs n' = s.rpcs n' := fun n' h => by
    rw [hrpcs, Function.update_of_ne h]
  have hregistered : ∀ n' archiveID, Registered t n' archiveID ↔ Registered s n' archiveID := by
    intro n' archiveID
    unfold Registered
    rw [hqueues, hhist]
  constructor
  case rows => rw [harchives, hhist]; exact hinv.rows
  case stored => rw [harchives, hhist]; exact hinv.stored
  case followed =>
    intro n' archiveID h
    rw [hhist] at h
    rw [hregistered]
    by_cases hn : n' = n
    · subst hn
      by_cases hr : Registered s n' archiveID
      · exact .inr hr
      · exact .inl ((inFlight_iff hself).mpr (hfollowed archiveID h hr))
    · refine (hinv.followed n' archiveID h).imp_left fun hf => ?_
      exact (inFlight_iff (hother n' hn)).mpr hf
  case reading =>
    intro n' id archiveID h
    rw [hhist]
    by_cases hn : n' = n
    · subst hn; exact hreading id archiveID (hself ▸ h)
    · exact hinv.reading n' id archiveID (hother n' hn ▸ h)
  case without =>
    intro n' h
    rw [hhist]
    by_cases hn : n' = n
    · subst hn; exact hwithout (hself ▸ h)
    · exact hinv.without n' (hother n' hn ▸ h)

/-- Once the RPC is past its registration, or makes none, its rows are
registered. -/
theorem registered_of_phase {s : State} {n : Nat} {p : Phase} (hinv : ArchiveInv s)
    (hp : s.rpcs n = p) (hno : ∀ id archiveID, p ≠ .reading id archiveID ∧
      p ≠ .creating id (some archiveID)) {archiveID : Int}
    (h : .inserted n archiveID ∈ s.history) : Registered s n archiveID := by
  rcases hinv.followed n archiveID h with hf | hr
  · obtain ⟨id, hf | hf⟩ := (inFlight_iff hp).mp hf
    · exact absurd hf (hno id archiveID).1
    · exact absurd hf (hno id archiveID).2
  · exact hr

/-- An RPC that has registered its session goes on to `p`. -/
theorem archiveInv_after {s t : State} {n : Nat} {p p' : Phase} (hinv : ArchiveInv s)
    (hp : s.rpcs n = p) (hno : ∀ id archiveID, p ≠ .reading id archiveID ∧
      p ≠ .creating id (some archiveID))
    (hrpcs : t.rpcs = Function.update s.rpcs n p') (harchives : t.archives = s.archives)
    (hqueues : t.manager.queues = s.manager.queues) (hhist : t.history = s.history)
    (hreading : ∀ id archiveID, p' ≠ .reading id archiveID)
    (hwithout : p'.rowless = false) : ArchiveInv t :=
  archiveInv_move hinv hrpcs harchives hqueues hhist
    (fun id archiveID h => absurd h (hreading id archiveID))
    (fun _ h hr => absurd (registered_of_phase hinv hp hno h) hr)
    fun h => by rw [hwithout] at h; cases h

/-- An RPC that has inserted nothing so far moves on. -/
theorem archiveInv_before {s t : State} {n : Nat} {p p' : Phase} (hinv : ArchiveInv s)
    (hp : s.rpcs n = p) (hbefore : p.rowless = true)
    (hrpcs : t.rpcs = Function.update s.rpcs n p') (harchives : t.archives = s.archives)
    (hqueues : t.manager.queues = s.manager.queues) (hhist : t.history = s.history)
    (hreading : ∀ id archiveID, p' ≠ .reading id archiveID) : ArchiveInv t := by
  have hnone := hinv.without n (hp ▸ hbefore)
  exact archiveInv_move hinv hrpcs harchives hqueues hhist
    (fun id archiveID h => absurd h (hreading id archiveID))
    (fun archiveID h => absurd h (hnone archiveID)) fun _ => hnone

theorem archiveInv_insert {s t : State} {n : Nat} {ok : Bool} {now : Int} (hinv : ArchiveInv s)
    (h : s.insertArchive n ok now = some t) : ArchiveInv t := by
  obtain ⟨id, hp, rfl | rfl⟩ := State.insertArchive_eq_some h
  all_goals have hnone := hinv.without n (hp ▸ rfl)
  · have hself : Function.update s.rpcs n (.reading id s.archives.nextID) n =
        .reading id s.archives.nextID := Function.update_self _ _ _
    have hother : ∀ n', n' ≠ n →
        Function.update s.rpcs n (.reading id s.archives.nextID) n' = s.rpcs n' :=
      fun n' h => Function.update_of_ne h _ _
    constructor
    case rows =>
      intro a ha
      rcases List.mem_append.mp ha with ha | ha
      · obtain ⟨n', h⟩ := hinv.rows a ha
        exact ⟨n', List.mem_cons_of_mem _ h⟩
      · rw [List.mem_singleton.mp ha]
        exact ⟨n, List.mem_cons_self⟩
    case stored =>
      intro n' archiveID h
      rw [SessionArchives.getSessionArchive_isSome]
      rcases List.mem_cons.mp h with h | h
      · cases h
        exact ⟨_, List.mem_append_right _ (List.mem_singleton_self _), rfl⟩
      · obtain ⟨r, hr, hid⟩ := SessionArchives.getSessionArchive_isSome.mp
          (hinv.stored n' archiveID h)
        exact ⟨r, List.mem_append_left _ hr, hid⟩
    case followed =>
      intro n' archiveID h
      rcases List.mem_cons.mp h with h | h
      · cases h
        exact .inl ⟨id, .inl hself⟩
      · have hn : n' ≠ n := fun he => hnone archiveID (he ▸ h)
        rcases hinv.followed n' archiveID h with hf | ⟨q, hq, ha⟩
        · exact .inl ((inFlight_iff (hother n' hn)).mpr hf)
        · exact .inr ⟨q, List.mem_cons_of_mem _ hq, ha⟩
    case reading =>
      intro n' id' archiveID h
      by_cases hn : n' = n
      · subst hn
        cases hself.symm.trans h
        exact List.mem_cons_self
      · exact List.mem_cons_of_mem _ (hinv.reading n' id' archiveID ((hother n' hn).symm.trans h))
    case without =>
      intro n' h archiveID hmem
      obtain ⟨hn, h⟩ := rowless_update h rfl
      rcases List.mem_cons.mp hmem with hmem | hmem
      · cases hmem; exact hn rfl
      · exact hinv.without n' h archiveID hmem
  · exact archiveInv_before hinv hp rfl rfl rfl rfl rfl nofun

theorem archiveInv_read {s t : State} {n : Nat} {ok : Bool} (hinv : ArchiveInv s)
    (hok : ok = true) (h : s.readArchive n ok = some t) : ArchiveInv t := by
  obtain ⟨id, archiveID, hp, ⟨archive, harchive, rfl⟩ | ⟨hfails, -⟩⟩ := State.readArchive_eq_some h
  · rw [SessionArchives.getSessionArchive_eq_some harchive]
    refine archiveInv_move hinv rfl rfl rfl rfl nofun ?_ ?_
    · intro archiveID' h hr
      rcases hinv.followed n archiveID' h with hf | hr'
      · obtain ⟨id', hf | hf⟩ := (inFlight_iff hp).mp hf
        · cases hf; exact ⟨id, .inr rfl⟩
        · cases hf
      · exact absurd hr' hr
    · nofun
  · rcases hfails with hfails | hnone
    · rw [hok] at hfails
      cases hfails
    · -- the row of the RPC is in the table
      have hsome := hinv.stored n archiveID (hinv.reading n id archiveID hp)
      rw [hnone] at hsome
      cases hsome

/-- A new queue leaves the queues of the other sessions where they are. -/
theorem registered_register {s t : State} {n : Nat} {id : SessionID} {archiveID : Option Int}
    (hmanager : t.manager = s.manager.register id archiveID)
    (hhist : t.history = .registered n s.manager.queues.length :: s.history) {n' : Nat} {row : Int}
    (h : Registered s n' row) : Registered t n' row := by
  obtain ⟨q, hq, ha⟩ := h
  obtain ⟨qu, hqu, -⟩ := Option.map_eq_some_iff.mp ha
  refine ⟨q, hhist ▸ List.mem_cons_of_mem _ hq, ?_⟩
  rw [hmanager]
  show ((s.manager.queues ++ [_])[q]?).map _ = _
  rw [List.getElem?_append_left (List.getElem?_eq_some_iff.mp hqu).1]
  exact ha

theorem registered_new {s t : State} {n : Nat} {id : SessionID} {row : Int}
    (hmanager : t.manager = s.manager.register id (some row))
    (hhist : t.history = .registered n s.manager.queues.length :: s.history) :
    Registered t n row := by
  refine ⟨s.manager.queues.length, hhist ▸ List.mem_cons_self, ?_⟩
  rw [hmanager]
  show ((s.manager.queues ++ [_])[s.manager.queues.length]?).map _ = _
  simp [SessionQueue.newQueue]

theorem archiveInv_create {s t : State} {n : Nat} (hinv : ArchiveInv s)
    (hg : SessionFollowsArchive s (.createSession n)) (h : s.createSession n = some t) :
    ArchiveInv t := by
  obtain ⟨id, archiveID, hp, ⟨err, herr, rfl⟩ | ⟨m, q, hok, rfl⟩⟩ := State.createSession_eq_some h
  · cases archiveID with
    | none => exact archiveInv_before hinv hp rfl rfl rfl rfl rfl nofun
    | some row =>
      -- the guard excludes both errors
      simp only [SessionFollowsArchive, hp] at hg
      obtain ⟨hfree, hroom⟩ := hg
      rcases SessionManager.createSession_eq_error herr with ⟨-, q, hq⟩ | ⟨-, -, hle⟩
      · rw [hfree] at hq; cases hq
      · exact absurd hle (Int.not_le.mpr hroom)
  · obtain ⟨-, -, rfl, rfl⟩ := SessionManager.createSession_eq_ok hok
    have hself : Function.update s.rpcs n (.sending id) n = .sending id :=
      Function.update_self _ _ _
    have hother : ∀ n', n' ≠ n → Function.update s.rpcs n (.sending id) n' = s.rpcs n' :=
      fun n' h => Function.update_of_ne h _ _
    constructor
    case rows =>
      intro a ha
      obtain ⟨n', h⟩ := hinv.rows a ha
      exact ⟨n', List.mem_cons_of_mem _ h⟩
    case stored =>
      intro n' row h
      rcases List.mem_cons.mp h with h | h
      · cases h
      · exact hinv.stored n' row h
    case followed =>
      intro n' row h
      rcases List.mem_cons.mp h with h' | h'
      · cases h'
      · by_cases hn : n' = n
        · subst hn
          rcases hinv.followed n' row h' with hf | hr
          · obtain ⟨id', hf | hf⟩ := (inFlight_iff hp).mp hf
            · cases hf
            · cases hf
              exact .inr (registered_new rfl rfl)
          · exact .inr (registered_register rfl rfl hr)
        · rcases hinv.followed n' row h' with hf | hr
          · exact .inl ((inFlight_iff (hother n' hn)).mpr hf)
          · exact .inr (registered_register rfl rfl hr)
    case reading =>
      intro n' id' row h
      refine List.mem_cons_of_mem _ ?_
      by_cases hn : n' = n
      · subst hn; cases hself.symm.trans h
      · exact hinv.reading n' id' row ((hother n' hn).symm.trans h)
    case without =>
      intro n' h row hmem
      obtain ⟨-, h⟩ := rowless_update h rfl
      rcases List.mem_cons.mp hmem with hmem | hmem
      · cases hmem
      · exact hinv.without n' h row hmem

end ArchivesLemmas

open ArchivesLemmas

theorem archiveInv_step {s t : State} {a : Action} (hinv : ArchiveInv s)
    (hg : SessionFollowsArchive s a) (h : s.step a = some t) : ArchiveInv t := by
  cases a with
  | begin n id archive =>
    obtain ⟨hp, rfl⟩ := State.begin_eq_some h
    refine archiveInv_before hinv hp rfl rfl rfl rfl rfl ?_
    intro id' archiveID
    split <;> nofun
  | insertArchive n ok now => exact archiveInv_insert hinv h
  | readArchive n ok => exact archiveInv_read hinv hg h
  | createSession n => exact archiveInv_create hinv hg h
  | send n =>
    obtain ⟨id, m, ⟨hp, hm, rfl⟩ | ⟨hp, hm, rfl⟩⟩ := State.send_eq_some h
    all_goals
      have hq : m.queues = s.manager.queues := (SessionManager.send_eq_some hm).2.2.2.1
      exact archiveInv_after hinv hp (fun _ _ => ⟨nofun, nofun⟩) rfl rfl hq rfl nofun rfl
  | cancel n =>
    obtain ⟨id, ⟨hp | hp, rfl⟩ | ⟨hp, rfl⟩⟩ := State.cancel_eq_some h
    all_goals
      exact archiveInv_after hinv hp (fun _ _ => ⟨nofun, nofun⟩) rfl rfl rfl rfl nofun rfl
  | ready n ok =>
    obtain ⟨id, hp, rfl⟩ := State.ready_eq_some h
    refine archiveInv_after hinv hp (fun _ _ => ⟨nofun, nofun⟩) rfl rfl rfl rfl nofun ?_
    cases ok
    · exact rfl
    · exact rfl
  | deleteSession n id =>
    obtain ⟨hp, rfl⟩ := State.deleteSession_eq_some h
    exact archiveInv_before hinv hp rfl rfl rfl rfl rfl nofun
  | receive =>
    obtain ⟨⟨e, m⟩, hm, rfl⟩ := State.receive_eq_some h
    obtain ⟨-, -, hq, -⟩ := SessionManager.receive_eq_some hm
    refine ⟨hinv.rows, hinv.stored, ?_, hinv.reading, hinv.without⟩
    intro n archiveID h
    refine (hinv.followed n archiveID h).imp_right ?_
    rintro ⟨q, hr, ha⟩
    exact ⟨q, hr, hq ▸ ha⟩

theorem archiveInv_initial (maxSessions : Int) : ArchiveInv (.initial maxSessions) := by
  refine ⟨?_, ?_, ?_, ?_, ?_⟩
  · exact fun a ha => nomatch ha
  · exact fun n archiveID h => nomatch h
  · exact fun n archiveID h => nomatch h
  · exact fun n id archiveID h => nomatch h
  · exact fun n h archiveID h' => nomatch h'

/-- In every run in which an RPC that has inserted an archive row reads it back
and then finds its id free and room for its session, no row is without a
session, and no RPC that was refused has left one. -/
theorem no_archive_without_session {maxSessions : Int} {s : State}
    (h : Reach (archiveSystem maxSessions) SessionFollowsArchive s) :
    NoArchiveWithoutSession s := by
  have hinv : ArchiveInv s :=
    h.invariant (fun _ hi => hi ▸ archiveInv_initial maxSessions)
      fun _ _ _ _ hi hg hs => archiveInv_step hi hg hs
  refine ⟨fun a ha => ?_, fun n hr => hinv.without n ?_⟩
  · obtain ⟨n, hn⟩ := hinv.rows a ha
    exact ⟨n, hn, hinv.followed n a.id hn⟩
  · rcases hr with hr | hr <;> rw [hr] <;> rfl

/-- An archived session, and a request without the archive flag that is
refused. -/
theorem no_archive_without_session_refused :
    ∃ s, s.rpcs 1 = .returned (some .alreadyExists) ∧
      s.archives.rows.map SessionArchive.id = [1] ∧ NoArchiveWithoutSession s := by
  obtain ⟨s, hs, hp⟩ := Reach.of_guardedRun (S := archiveSystem 50) (C := SessionFollowsArchive)
    (p := fun s => decide (s.rpcs 1 = .returned (some .alreadyExists) ∧
      s.archives.rows.map SessionArchive.id = [1]))
    [.begin 0 "guild" true, .insertArchive 0 true 0, .readArchive 0 true, .createSession 0,
      .begin 1 "guild" false, .createSession 1]
    rfl (by decide)
  obtain ⟨hret, hrows⟩ := of_decide_eq_true hp
  exact ⟨s, hret, hrows, no_archive_without_session hs⟩

end RadioJockey.Archives
