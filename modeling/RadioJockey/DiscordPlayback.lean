import Mathlib.Data.List.Basic
import RadioJockey.Connect
import RadioJockey.Lib.Transition

/-!
# Playbacks of the Discord bot (`command/play.ts`, `command/stop.ts`, `sessions.ts`)

For one session id: the record that `sessions` holds and the `/play` commands,
which are numbered in their order. Each step runs from one `await` to the next. A
stream's `end` and `error` events and the player's events come at any time while
their listeners are attached; a stopped playback ignores them. The voice library
is a parameter, with what is documented of a connection's `Destroyed` status.

1. `foreign_end`: `/stop` and then `/play` while the first stream is still open.
   Its `end` event deletes the record of the second playback.
2. `ends_itself`: in every run in which a `/play` that finds no record comes only
   when every earlier playback is over, a playback touches only what is its own,
   and at most one is not stopped.
-/

namespace RadioJockey.DiscordPlayback

open Transition

variable {Ch C L E : Type}

/-- What the bot uses of `@discordjs/voice` for its guild, over the library's own
state. `destroy` is `none` when it throws, and `event` is what the library does by
itself, on a gateway or network event. -/
structure Voice (Ch C L E : Type) where
  initial : L
  isDestroyed : L → C → Bool
  joinVoiceChannel : L → Ch → C × L
  destroy : L → C → Option L
  event : L → E → L

/-- The documented behaviour: a connection that is destroyed stays so and cannot
be destroyed again, and `joinVoiceChannel` never returns one. -/
structure Voice.Lawful (V : Voice Ch C L E) : Prop where
  joined : ∀ l ch, V.isDestroyed (V.joinVoiceChannel l ch).2 (V.joinVoiceChannel l ch).1 = false
  throws : ∀ l c, V.isDestroyed l c = true → V.destroy l c = none
  destroyed : ∀ l c l', V.destroy l c = some l' → V.isDestroyed l' c = true
  join_keeps : ∀ l ch c, V.isDestroyed l c = true →
    V.isDestroyed (V.joinVoiceChannel l ch).2 c = true
  destroy_keeps : ∀ l c' l' c, V.destroy l c' = some l' → V.isDestroyed l c = true →
    V.isDestroyed l' c = true
  event_keeps : ∀ l e c, V.isDestroyed l c = true → V.isDestroyed (V.event l e) c = true

/-- What `sessions` holds under the id. `buffer` is the playback whose buffer it
is, and `owner` the one that stored the record. -/
structure Record (C : Type) where
  connection : C
  buffer : Option Nat
  owner : Nat
  deriving DecidableEq

/-- How far a `/play` is: in `getOrCreateSession`, before `startPlayback`, in
`entersState`, started, stopped by itself, or at its end. -/
inductive Phase (C : Type)
  | creating
  | replying
  | joining (connection : C)
  | playing (connection : C)
  | stopped
  | ended
  deriving DecidableEq

def Phase.isPlaying : Phase C → Bool
  | .playing _ => true
  | _ => false

/-- The playback has stopped itself, has failed or was none. -/
def Phase.isOver : Phase C → Bool
  | .stopped | .ended => true
  | _ => false

/-- What happened. The actor is a playback, or none for `/stop`. -/
inductive Effect (C : Type)
  | stored (p : Nat) (connection : C)
  | destroyed (actor : Option Nat) (connection : C)
  | deleted (actor : Option Nat) (r : Record C)
  | buffered (p : Nat) (r : Record C)
  deriving DecidableEq

/-- `history` has the newest effect first. -/
structure State (C L : Type) where
  plays : List (Phase C)
  record : Option (Record C)
  voice : L
  history : List (Effect C)
  deriving DecidableEq

namespace State

variable (V : Voice Ch C L E)

def initial : State C L := ⟨[], none, V.initial, []⟩

/-- `connection.destroy()`, unless it throws. -/
def destroy (s : State C L) (actor : Option Nat) (connection : C) : Option (State C L) :=
  (V.destroy s.voice connection).map fun l =>
    { s with voice := l, history := .destroyed actor connection :: s.history }

/-- When `destroy` throws, the record stays. -/
def destroySession (s : State C L) (actor : Option Nat) : State C L :=
  match s.record with
  | none => s
  | some r =>
    match s.destroy V actor r.connection with
    | none => s
    | some s => { s with record := none, history := .deleted actor r :: s.history }

def setBuffer (s : State C L) (p : Nat) : State C L :=
  match s.record with
  | none => s
  | some r =>
    { s with record := some { r with buffer := some p }, history := .buffered p r :: s.history }

def createSession (s : State C L) (p : Nat) (connection : C) : State C L :=
  { s with
    record := some ⟨connection, none, p⟩
    history := .stored p connection :: s.history }

def setPhase (s : State C L) (p : Nat) (ph : Phase C) : State C L :=
  { s with plays := s.plays.set p ph }

/-- `handlePlayCommand`, up to its first `await` that matters: with a record it
only adds a track. -/
def play (s : State C L) : State C L :=
  { s with plays := s.plays ++ [if s.record.isSome then .ended else .creating] }

/-- `getOrCreateSession` returns or throws. -/
def sessionReady (s : State C L) (p : Nat) (ok : Bool) : Option (State C L) :=
  match s.plays[p]? with
  | some .creating => some (s.setPhase p (if ok then .replying else .ended))
  | _ => none

/-- The `catch` of `handlePlayCommand`. -/
def playFails (s : State C L) (p : Nat) : State C L :=
  (s.destroySession V (some p)).setPhase p .ended

/-- The replies are sent and the track is added, or a reply throws. Then
`connectToChannel` begins; it throws when the member has left the voice channels. -/
def replied (s : State C L) (p : Nat) (ok : Bool) (channel : Option Ch) : Option (State C L) :=
  match s.plays[p]? with
  | some .replying =>
    if ok then
      match channel with
      | some channel =>
        let (connection, l) := V.joinVoiceChannel s.voice channel
        some { s.setPhase p (.joining connection) with voice := l }
      | none => some (s.playFails V p)
    else some (s.setPhase p .ended)
  | _ => none

/-- `entersState` resolves: the rest of `startPlayback`, in which `http.get` may
throw. -/
def ready (s : State C L) (p : Nat) (throws : Bool) : Option (State C L) :=
  match s.plays[p]? with
  | some (.joining connection) =>
    let s := ((s.setPhase p (.playing connection)).createSession p connection).setBuffer p
    some (if throws then s.playFails V p else s)
  | _ => none

/-- `entersState` rejects: the `catch` of `connectToChannel`, then that of
`handlePlayCommand`. -/
def joinFails (s : State C L) (p : Nat) : Option (State C L) :=
  match s.plays[p]? with
  | some (.joining connection) => some (((s.destroy V (some p) connection).getD s).playFails V p)
  | _ => none

/-- `leave`, which calls `stop`. -/
def leave (s : State C L) (p : Nat) : Option (State C L) :=
  match s.plays[p]? with
  | some (.playing _) => some ((s.destroySession V (some p)).setPhase p .stopped)
  | some .stopped => some s
  | _ => none

/-- The player's events call `startStream`, unless the playback is stopped. -/
def reconnect (s : State C L) (p : Nat) : Option (State C L) :=
  match s.plays[p]? with
  | some (.playing _) => some (s.setBuffer p)
  | some .stopped => some s
  | _ => none

/-- `handleStopCommand`, when `deleteSession` has returned or thrown. -/
def stopAnswered (s : State C L) : Option Code → State C L
  | none | some .notFound => s.destroySession V none
  | some _ => s

end State

inductive Action (Ch E : Type)
  | play
  | sessionReady (p : Nat) (ok : Bool)
  | replied (p : Nat) (ok : Bool) (channel : Option Ch)
  | ready (p : Nat) (throws : Bool)
  | joinFails (p : Nat)
  | streamEnds (p : Nat)
  | streamErrors (p : Nat)
  | playerErrors (p : Nat)
  | playerIdles (p : Nat)
  | stopAnswered (err : Option Code)
  | voiceEvent (e : E)
  deriving DecidableEq

def State.step (V : Voice Ch C L E) (s : State C L) : Action Ch E → Option (State C L)
  | .play => some s.play
  | .sessionReady p ok => s.sessionReady p ok
  | .replied p ok channel => s.replied V p ok channel
  | .ready p throws => s.ready V p throws
  | .joinFails p => s.joinFails V p
  | .streamEnds p | .streamErrors p => s.leave V p
  | .playerErrors p | .playerIdles p => s.reconnect p
  | .stopAnswered err => some (s.stopAnswered V err)
  | .voiceEvent e => some { s with voice := V.event s.voice e }

def botSystem (V : Voice Ch C L E) : System (State C L) (Action Ch E) where
  init s := s = .initial V
  step := State.step V

/-! ## The property -/

/-- What a playback deletes, destroys or writes to is its own. -/
def Own : Effect C → List (Effect C) → Prop
  | .deleted (some p) r, before => r.owner = p ∧ .stored p r.connection ∈ before
  | .destroyed (some p) connection, before => ∀ p', .stored p' connection ∈ before → p' = p
  | .buffered p r, _ => r.owner = p
  | _, _ => True

structure EndsItself (s : State C L) : Prop where
  effects : Each Own s.history
  single : ∀ (p p' : Nat) (c c' : C), s.plays[p]? = some (.playing c) →
    s.plays[p']? = some (.playing c') → p = p'

/-- A `/play` for which `hasSession` finds no record comes when every earlier
playback is over. -/
def OneByOne (s : State C L) : Action Ch E → Prop
  | .play => s.record = none → ∀ ph ∈ s.plays, ph.isOver = true
  | _ => True

instance (s : State C L) : ∀ a : Action Ch E, Decidable (OneByOne s a)
  | .play =>
    if h : s.record.isNone ∧ ¬ ∀ ph ∈ s.plays, ph.isOver = true then
      .isFalse fun hall => h.2 (hall (Option.isNone_iff_eq_none.mp h.1))
    else
      .isTrue fun hr => by_contra fun hall => h ⟨Option.isNone_iff_eq_none.mpr hr, hall⟩
  | .sessionReady .. | .replied .. | .ready .. | .joinFails _ | .streamEnds _ | .streamErrors _
  | .playerErrors _ | .playerIdles _ | .stopAnswered _ | .voiceEvent _ => .isTrue trivial

/-- A guild whose connections are numbered: it has `n` when those before `n` are
destroyed, whatever the channel. The library's own event is a kick. -/
def guildVoice : Voice String Nat Nat Unit where
  initial := 0
  isDestroyed n c := c < n
  joinVoiceChannel n _ := (n, n)
  destroy n c := if c < n then none else some (c + 1)
  event n _ := n + 1

theorem guildVoice_lawful : guildVoice.Lawful := by
  constructor <;> simp only [guildVoice] <;> grind

/-- The first playback is stopped by `/stop` while its stream is open, and the
second one starts: two are not stopped. Then the first stream ends. -/
theorem foreign_end : ∃ s, Reachable (botSystem guildVoice) s ∧
    s.history.head? = some (.deleted (some 0) ⟨1, some 1, 1⟩) ∧ s.record = none ∧
      ¬ EndsItself s := by
  obtain ⟨s, hs, hp⟩ := Reachable.of_run (S := botSystem guildVoice)
    (p := fun s => s.history.head? = some (.deleted (some 0) ⟨1, some 1, 1⟩) ∧ s.record = none)
    [.play, .sessionReady 0 true, .replied 0 true (some "general"), .ready 0 false,
      .stopAnswered none, .play, .sessionReady 1 true, .replied 1 true (some "general"),
      .ready 1 false, .streamEnds 0]
    (show (botSystem guildVoice).init (.initial guildVoice) from rfl) (by decide)
  obtain ⟨hhead, hrecord⟩ := of_decide_eq_true hp
  refine ⟨s, hs, hhead, hrecord, fun h => ?_⟩
  obtain ⟨before, hbefore⟩ := List.head?_eq_some_iff.mp hhead
  have heffects := h.effects
  rw [hbefore] at heffects
  exact absurd heffects.1.1 (by decide)

/-! ## The invariant -/

structure BotInv (V : Voice Ch C L E) (s : State C L) : Prop where
  /-- At most one playback is on its way or playing. -/
  active : ∀ (p p' : Nat) ph ph', s.plays[p]? = some ph → s.plays[p']? = some ph' →
    ph.isOver = false → ph'.isOver = false → p = p'
  /-- Beside a record, it is the one that stored it. -/
  owner : ∀ r, s.record = some r → ∀ (p : Nat) ph, s.plays[p]? = some ph → ph.isOver = false →
    ph.isPlaying = true ∧ p = r.owner
  kept : ∀ r, s.record = some r → .stored r.owner r.connection ∈ s.history
  /-- A connection that was stored is in the record or destroyed. -/
  stored : ∀ p c, .stored p c ∈ s.history → V.isDestroyed s.voice c = true ∨
    ∃ r, s.record = some r ∧ r.owner = p ∧ r.connection = c
  /-- A playback joins with a connection that nobody has stored. -/
  joining : ∀ (p : Nat) c, s.plays[p]? = some (.joining c) → ∀ p', .stored p' c ∉ s.history
  effects : Each Own s.history

namespace DiscordPlaybackLemmas

variable {V : Voice Ch C L E} {s : State C L}

/-- While a playback is on its way there is no record. -/
theorem record_eq_none {p : Nat} {ph : Phase C} (hinv : BotInv V s) (hp : s.plays[p]? = some ph)
    (hover : ph.isOver = false) (hplaying : ph.isPlaying = false) : s.record = none := by
  rcases hr : s.record with _ | r
  · rfl
  · have hplays := (hinv.owner r hr p ph hp hover).1
    rw [hplaying] at hplays
    cases hplays

/-- The record is gone, or it is the playing playback's own. -/
theorem owner_eq {p : Nat} {c : C} (hinv : BotInv V s) (hp : s.plays[p]? = some (.playing c)) :
    ∀ r, s.record = some r → r.owner = p := fun r hr => (hinv.owner r hr p _ hp rfl).2.symm

theorem getElem?_setPhase {p p' : Nat} {ph ph' : Phase C}
    (h : (s.setPhase p ph).plays[p']? = some ph') :
    p' = p ∧ ph' = ph ∨ s.plays[p']? = some ph' := by
  rw [State.setPhase, List.getElem?_set] at h
  split at h
  · next hpp =>
    split at h
    · exact .inl ⟨hpp.symm, (Option.some.inj h).symm⟩
    · cases h
  · exact .inr h

/-- Without a record, nobody's is in the way. -/
theorem owner_of_none {p : Nat} (hrecord : s.record = none) :
    ∀ r, s.record = some r → r.owner = p := by
  intro r hr
  cases hrecord.symm.trans hr

/-- What is not over was there before. -/
theorem botInv_plays {plays : List (Phase C)} (hinv : BotInv V s)
    (hold : ∀ (p : Nat) ph, plays[p]? = some ph → ph.isOver = false → s.plays[p]? = some ph) :
    BotInv V { s with plays := plays } where
  active p p' ph ph' h h' ho ho' := hinv.active p p' ph ph' (hold _ _ h ho) (hold _ _ h' ho') ho ho'
  owner r hr p ph h ho := hinv.owner r hr p ph (hold _ _ h ho) ho
  kept := hinv.kept
  stored := hinv.stored
  joining p c h := hinv.joining p c (hold _ _ h rfl)
  effects := hinv.effects

/-- There is no record, and only one playback is not over. -/
theorem botInv_alone {plays : List (Phase C)} (k : Nat) (hinv : BotInv V s)
    (hrecord : s.record = none)
    (hone : ∀ (p : Nat) ph, plays[p]? = some ph → ph.isOver = false → p = k)
    (hjoining : ∀ (p : Nat) c, plays[p]? = some (.joining c) → ∀ p', .stored p' c ∉ s.history) :
    BotInv V { s with plays := plays } where
  active p p' ph ph' h h' ho ho' := (hone p ph h ho).trans (hone p' ph' h' ho').symm
  owner r hr := by cases hrecord.symm.trans hr
  kept := hinv.kept
  stored := hinv.stored
  joining := hjoining
  effects := hinv.effects

theorem botInv_over {p : Nat} {ph : Phase C} (hinv : BotInv V s) (hover : ph.isOver = true) :
    BotInv V (s.setPhase p ph) := by
  refine botInv_plays hinv fun p' ph' h hactive => ?_
  rcases getElem?_setPhase h with ⟨-, rfl⟩ | h
  · rw [hover] at hactive
    cases hactive
  · exact h

/-- The active playback goes on, before it has a record. -/
theorem botInv_goesOn {p : Nat} {old ph : Phase C} (hinv : BotInv V s)
    (hp : s.plays[p]? = some old) (hover : old.isOver = false) (hrecord : s.record = none)
    (hjoining : ∀ c, ph = .joining c → ∀ p', .stored p' c ∉ s.history) :
    BotInv V (s.setPhase p ph) := by
  refine botInv_alone p hinv hrecord (fun p' ph' h hactive => ?_) fun p' c h => ?_
  · rcases getElem?_setPhase h with ⟨rfl, -⟩ | h
    · rfl
    · exact hinv.active p' p ph' old h hp hactive hover
  · rcases getElem?_setPhase h with ⟨-, hc⟩ | h
    · exact hjoining c hc.symm
    · exact hinv.joining p' c h

theorem getElem?_play {p : Nat} {ph : Phase C} (h : s.play.plays[p]? = some ph) :
    s.plays[p]? = some ph ∨
      p = s.plays.length ∧ ph = if s.record.isSome then .ended else .creating := by
  rw [State.play, List.getElem?_append] at h
  split at h
  · exact .inl h
  · next hlt =>
    obtain ⟨hidx, hph⟩ := List.getElem?_eq_some_iff.mp h
    rw [List.length_singleton] at hidx
    exact .inr ⟨by omega, by rw [← hph, List.getElem_singleton]⟩

theorem botInv_play (hinv : BotInv V s)
    (hguard : s.record = none → ∀ ph ∈ s.plays, ph.isOver = true) : BotInv V s.play := by
  rcases hr : s.record with _ | r
  · -- the new playback is the only one that is not over
    refine botInv_alone s.plays.length hinv hr (fun p ph h hactive => ?_) fun p c h => ?_
    · rcases getElem?_play h with h | ⟨rfl, -⟩
      · have hover := hguard hr ph (List.mem_of_getElem? h)
        rw [hactive] at hover
        cases hover
      · rfl
    · rcases getElem?_play h with h | ⟨-, h⟩
      · exact hinv.joining p c h
      · split at h <;> cases h
  · refine botInv_plays hinv fun p ph h hactive => ?_
    rcases getElem?_play h with h | ⟨-, h⟩
    · exact h
    · rw [hr, Option.isSome_some, if_pos rfl] at h
      rw [h] at hactive
      cases hactive

/-- The library moves, and what is destroyed stays so. -/
theorem botInv_voice {l : L} (hinv : BotInv V s)
    (hkeeps : ∀ c, V.isDestroyed s.voice c = true → V.isDestroyed l c = true) :
    BotInv V { s with voice := l } where
  active := hinv.active
  owner := hinv.owner
  kept := hinv.kept
  stored := fun p c h => (hinv.stored p c h).imp_left (hkeeps c)
  joining := hinv.joining
  effects := hinv.effects

theorem destroy_eq_some {t : State C L} {actor : Option Nat} {c : C}
    (h : s.destroy V actor c = some t) :
    ∃ l, V.destroy s.voice c = some l ∧
      t = { s with voice := l, history := .destroyed actor c :: s.history } := by
  obtain ⟨l, hl, rfl⟩ := Option.map_eq_some_iff.mp h
  exact ⟨l, hl, rfl⟩

theorem botInv_destroy {t : State C L} {actor : Option Nat} {c : C} (hV : V.Lawful)
    (hinv : BotInv V s) (hown : ∀ p, actor = some p → ∀ p', .stored p' c ∈ s.history → p' = p)
    (h : s.destroy V actor c = some t) : BotInv V t := by
  obtain ⟨l, hl, rfl⟩ := destroy_eq_some h
  have hvoice := botInv_voice hinv fun c' => hV.destroy_keeps _ _ _ c' hl
  have hmem : ∀ p' c', (.stored p' c' ∈ .destroyed actor c :: s.history) →
      .stored p' c' ∈ s.history := by simp
  have heffect : Own (.destroyed actor c) s.history := by
    cases actor with
    | none => trivial
    | some p => exact hown p rfl
  exact {
    active := hinv.active
    owner := hinv.owner
    kept := fun r hr => List.mem_cons_of_mem _ (hinv.kept r hr)
    stored := fun p' c' h' => hvoice.stored p' c' (hmem p' c' h')
    joining := fun p' c' h' p'' hs => hinv.joining p' c' h' p'' (hmem p'' c' hs)
    effects := ⟨heffect, hinv.effects⟩ }

/-- The record goes when its connection is destroyed. -/
theorem botInv_delete {actor : Option Nat} {r : Record C} (hinv : BotInv V s)
    (hr : s.record = some r) (hdestroyed : V.isDestroyed s.voice r.connection = true)
    (hown : ∀ p, actor = some p → r.owner = p) :
    BotInv V { s with record := none, history := .deleted actor r :: s.history } := by
  have hmem : ∀ p' c', (.stored p' c' ∈ .deleted actor r :: s.history) →
      .stored p' c' ∈ s.history := by simp
  refine ⟨hinv.active, nofun, nofun, fun p c h => ?_,
    fun p c h p' hs => hinv.joining p c h p' (hmem p' c hs), ?_, hinv.effects⟩
  · rcases hinv.stored p c (hmem p c h) with h | ⟨r', hr', -, rfl⟩
    · exact .inl h
    · rw [hr] at hr'
      cases hr'
      exact .inl hdestroyed
  · cases actor with
    | none => trivial
    | some p =>
      obtain rfl := hown p rfl
      exact ⟨rfl, hinv.kept r hr⟩

theorem botInv_destroySession (actor : Option Nat) (hV : V.Lawful) (hinv : BotInv V s)
    (hown : ∀ p, actor = some p → ∀ r, s.record = some r → r.owner = p) :
    BotInv V (s.destroySession V actor) := by
  unfold State.destroySession
  split
  · exact hinv
  · next r hr =>
    split
    · exact hinv
    · next t ht =>
      obtain ⟨l, hl, rfl⟩ := destroy_eq_some ht
      -- the connection was not destroyed before, so only the record's owner stored it
      have hstored : ∀ p, actor = some p → ∀ p', .stored p' r.connection ∈ s.history →
          p' = p := by
        rintro p hp p' h'
        rcases hinv.stored p' _ h' with hdestroyed | ⟨r', hr', rfl, -⟩
        · cases (hV.throws _ _ hdestroyed).symm.trans hl
        · exact hown p hp r' hr'
      exact botInv_delete (botInv_destroy hV hinv hstored ht) hr (hV.destroyed _ _ _ hl)
        fun p hp => hown p hp r hr

theorem botInv_playFails {p : Nat} (hV : V.Lawful) (hinv : BotInv V s)
    (hown : ∀ r, s.record = some r → r.owner = p) : BotInv V (s.playFails V p) := by
  refine botInv_over (botInv_destroySession (some p) hV hinv ?_) rfl
  rintro _ ⟨⟩
  exact hown

theorem botInv_setBuffer {p : Nat} (hinv : BotInv V s)
    (hown : ∀ r, s.record = some r → r.owner = p) : BotInv V (s.setBuffer p) := by
  unfold State.setBuffer
  split
  · exact hinv
  · next r hr =>
    have hmem : ∀ p' c, (.stored p' c ∈ .buffered p r :: s.history) → .stored p' c ∈ s.history := by
      simp
    constructor
    case active => exact hinv.active
    case owner =>
      rintro _ ⟨⟩
      exact hinv.owner r hr
    case kept =>
      rintro _ ⟨⟩
      exact List.mem_cons_of_mem _ (hinv.kept r hr)
    case stored =>
      intro p' c h
      rcases hinv.stored p' c (hmem p' c h) with h | ⟨r', hr', ho, hc⟩
      · exact .inl h
      · rw [hr] at hr'
        cases hr'
        exact .inr ⟨_, rfl, ho, hc⟩
    case joining => exact fun p' c h p'' hs => hinv.joining p' c h p'' (hmem p'' c hs)
    case effects => exact ⟨hown r hr, hinv.effects⟩

theorem botInv_store {p : Nat} {c : C} (hinv : BotInv V s) (hp : s.plays[p]? = some (.joining c)) :
    BotInv V ((s.setPhase p (.playing c)).createSession p c) := by
  have hrecord := record_eq_none hinv hp rfl rfl
  have hplaying : BotInv V (s.setPhase p (.playing c)) :=
    botInv_goesOn hinv hp rfl hrecord nofun
  have hself : (s.setPhase p (.playing c)).plays[p]? = some (.playing c) :=
    List.getElem?_set_self (List.getElem?_eq_some_iff.mp hp).1
  constructor
  case active => exact hplaying.active
  case owner =>
    rintro _ ⟨⟩ p' ph h hover
    obtain rfl := hplaying.active p' p ph _ h hself hover rfl
    obtain rfl := Option.some.inj (h.symm.trans hself)
    exact ⟨rfl, rfl⟩
  case kept =>
    rintro _ ⟨⟩
    exact List.mem_cons_self
  case stored =>
    intro p' c' h
    rcases List.mem_cons.mp h with heq | h
    · cases heq
      exact .inr ⟨_, rfl, rfl, rfl⟩
    · rcases hinv.stored p' c' h with h | ⟨r, hr, -⟩
      · exact .inl h
      · cases hrecord.symm.trans hr
  case joining =>
    intro p' c' h
    -- no other playback is on its way
    obtain rfl := hplaying.active p' p _ _ h hself rfl rfl
    cases h.symm.trans hself
  case effects => exact ⟨trivial, hinv.effects⟩

theorem botInv_sessionReady {t : State C L} {p : Nat} {ok : Bool} (hinv : BotInv V s)
    (h : s.sessionReady p ok = some t) : BotInv V t := by
  unfold State.sessionReady at h
  split at h
  · next hp =>
    cases h
    cases ok with
    | false => exact botInv_over hinv rfl
    | true => exact botInv_goesOn hinv hp rfl (record_eq_none hinv hp rfl rfl) nofun
  · cases h

theorem botInv_replied {t : State C L} {p : Nat} {ok : Bool} {channel : Option Ch}
    (hV : V.Lawful) (hinv : BotInv V s) (h : s.replied V p ok channel = some t) : BotInv V t := by
  unfold State.replied at h
  split at h
  · next hp =>
    have hrecord := record_eq_none hinv hp rfl rfl
    split at h
    · split at h
      · next ch =>
        cases h
        have hvoice := botInv_voice hinv fun c => hV.join_keeps _ ch c
        refine botInv_goesOn hvoice hp rfl hrecord ?_
        -- what was stored is destroyed by now, and the guild's connection is not
        rintro _ ⟨⟩ p' hs
        rcases hvoice.stored p' _ hs with hdestroyed | ⟨r, hr, -⟩
        · cases (hV.joined _ _).symm.trans hdestroyed
        · cases hrecord.symm.trans hr
      · cases h
        exact botInv_playFails hV hinv (owner_of_none hrecord)
    · cases h
      exact botInv_over hinv rfl
  · cases h

theorem botInv_ready {t : State C L} {p : Nat} {throws : Bool} (hV : V.Lawful)
    (hinv : BotInv V s) (h : s.ready V p throws = some t) : BotInv V t := by
  unfold State.ready at h
  split at h
  · next c hp =>
    cases h
    have hstored : BotInv V (((s.setPhase p (.playing c)).createSession p c).setBuffer p) :=
      botInv_setBuffer (botInv_store hinv hp) (by rintro _ ⟨⟩; rfl)
    split
    · exact botInv_playFails hV hstored (by rintro _ ⟨⟩; rfl)
    · exact hstored
  · cases h

theorem botInv_joinFails {t : State C L} {p : Nat} (hV : V.Lawful) (hinv : BotInv V s)
    (h : s.joinFails V p = some t) : BotInv V t := by
  unfold State.joinFails at h
  split at h
  · next c hp =>
    cases h
    have hrecord := record_eq_none hinv hp rfl rfl
    rcases hd : s.destroy V (some p) c with _ | t
    · exact botInv_playFails hV hinv (owner_of_none hrecord)
    · obtain ⟨l, -, rfl⟩ := destroy_eq_some hd
      have hdestroyed := botInv_destroy hV hinv
        (fun _ _ p' hs => absurd hs (hinv.joining p c hp p')) hd
      exact botInv_playFails hV hdestroyed (owner_of_none hrecord)
  · cases h

theorem botInv_leave {t : State C L} {p : Nat} (hV : V.Lawful) (hinv : BotInv V s)
    (h : s.leave V p = some t) : BotInv V t := by
  unfold State.leave at h
  split at h
  · next c hp =>
    cases h
    refine botInv_over (botInv_destroySession (some p) hV hinv ?_) rfl
    rintro _ ⟨⟩
    exact owner_eq hinv hp
  · cases h
    exact hinv
  · cases h

theorem botInv_reconnect {t : State C L} {p : Nat} (hinv : BotInv V s)
    (h : s.reconnect p = some t) : BotInv V t := by
  unfold State.reconnect at h
  split at h
  · next c hp =>
    cases h
    exact botInv_setBuffer hinv (owner_eq hinv hp)
  · cases h
    exact hinv
  · cases h

theorem botInv_step {t : State C L} {a : Action Ch E} (hV : V.Lawful) (hinv : BotInv V s)
    (ha : OneByOne s a) (h : s.step V a = some t) : BotInv V t := by
  cases a with
  | play =>
    cases h
    exact botInv_play hinv ha
  | sessionReady p ok => exact botInv_sessionReady hinv h
  | replied p ok channel => exact botInv_replied hV hinv h
  | ready p throws => exact botInv_ready hV hinv h
  | joinFails p => exact botInv_joinFails hV hinv h
  | streamEnds p | streamErrors p => exact botInv_leave hV hinv h
  | playerErrors p | playerIdles p => exact botInv_reconnect hinv h
  | stopAnswered err =>
    cases h
    have hdestroyed : BotInv V (s.destroySession V none) := botInv_destroySession none hV hinv nofun
    unfold State.stopAnswered
    split
    · exact hdestroyed
    · exact hdestroyed
    · exact hinv
  | voiceEvent e =>
    cases h
    exact botInv_voice hinv fun c => hV.event_keeps _ e c

theorem botInv_initial : BotInv V (.initial V) := by
  constructor <;> simp [State.initial, Each]

end DiscordPlaybackLemmas

open DiscordPlaybackLemmas

/-- In every run in which a `/play` starts something only when nothing is going on. -/
theorem ends_itself {V : Voice Ch C L E} (hV : V.Lawful) {s : State C L}
    (h : Reach (botSystem V) OneByOne s) : EndsItself s := by
  have hinv : BotInv V s := by
    refine h.invariant ?_ fun _ _ _ _ hi ha hs => botInv_step hV hi ha hs
    rintro _ rfl
    exact botInv_initial
  exact ⟨hinv.effects, fun p p' c c' h h' => hinv.active p p' _ _ h h' rfl rfl⟩

/-- The stream ends after `/stop`, and the second playback starts and ends. -/
theorem ends_itself_twice : ∃ s, Reach (botSystem guildVoice) OneByOne s ∧
    .deleted none ⟨0, some 0, 0⟩ ∈ s.history ∧ .deleted (some 2) ⟨1, some 2, 2⟩ ∈ s.history ∧
      EndsItself s := by
  obtain ⟨s, hs, hp⟩ := Reach.of_guardedRun (S := botSystem guildVoice) (C := OneByOne)
    (p := fun s => .deleted none ⟨0, some 0, 0⟩ ∈ s.history ∧
      .deleted (some 2) ⟨1, some 2, 2⟩ ∈ s.history)
    [.play, .sessionReady 0 true, .replied 0 true (some "general"), .ready 0 false, .play,
      .stopAnswered none, .streamEnds 0, .play, .sessionReady 2 true,
      .replied 2 true (some "general"), .ready 2 false, .playerIdles 2, .streamEnds 2]
    (show (botSystem guildVoice).init (.initial guildVoice) from rfl) (by decide)
  obtain ⟨hstop, hend⟩ := of_decide_eq_true hp
  exact ⟨s, hs, hstop, hend, ends_itself guildVoice_lawful hs⟩

end RadioJockey.DiscordPlayback
