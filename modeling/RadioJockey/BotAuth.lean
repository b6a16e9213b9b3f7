import RadioJockey.Nonces

/-!
# The bot's admin calls (`connect/auth/auth.ts`, `discord/sessions.ts`, `discord/command/stop.ts`)

The stop command deletes a session with a token that the bot keeps with its
record of the session. Without one, or when the server says that it is not
authenticated, the bot asks for a nonce, signs it, and takes a new token for it.

The commands run next to each other and to all other clients of `authSystem`,
and any call may fail on its way.

1. `stop_calls`: in every run, each admin call of the bot carries a token that the
   server minted in a `RespondNonce` call in which a command of the bot answered
   its own nonce, and is refused exactly when that token has expired. A command
   calls twice at most: with the token that was kept, and, after it was refused,
   with one minted for the command's own answer.
2. `login_answered`: a command's answer to its nonce gets a token for this nonce,
   or is refused because that very passkey or nonce has expired or another call
   has consumed the nonce.
-/

namespace RadioJockey.BotAuth

open Transition AdminTokens

/-- What a call of the bot is rejected with: the server's code, or that of a
connection that failed. -/
inductive Failure
  | code (c : Code)
  | unreachable
  deriving DecidableEq

/-- Where a `handleStopCommand` is. `login` is the `RespondNonce` call that its
token comes from, if it was not kept from before. -/
inductive Stop
  | idle
  | calling (authToken : String) (login : Option Nat)
  | answered (login : Option Nat) (err : Option Code)
  | requesting
  | signing (nonce : String)
  | sending (nonce passKey : String)
  | awaiting (nonce passKey : String) (n : Nat)
  | ended (err : Option Failure)
  deriving DecidableEq

/-- A `RespondNonce` call of a command, with the nonce it was handed and the
passkey it has signed. -/
structure Login where
  command : Nat
  nonce : String
  passKey : String
  call : Nat
  deriving DecidableEq

/-- A `deleteSessionAuth` request of a command, at the server. -/
structure Attempt where
  command : Nat
  authToken : String
  login : Option Nat
  err : Option Code
  now : Time
  deriving DecidableEq

/-- `sessions` has the `authToken` field of each record, and `ids` the session
ids of the commands. `logins` and `history` are the calls so far. -/
structure State where
  server : AdminTokens.State
  sessions : String → Option (Option String)
  ids : Nat → String
  commands : Nat → Stop
  logins : List Login
  history : List Attempt

inductive Action
  | server (a : AdminTokens.Action)
  | createSession (id : String)
  | destroySession (id : String)
  | stop (k : Nat) (id : String)
  /-- `err` is the handler's, if the request gets to it. -/
  | deliver (k : Nat) (err : Option RpcError)
  | resume (k : Nat)
  | nonce (k : Nat) (b : Vector UInt8 nonceSizeBytes)
  | sign (k : Nat) (exp : Time)
  | respond (k n : Nat)
  | reply (k : Nat)
  | fail (k : Nat)

namespace State

variable (key : V4AsymmetricSecretKey) (s : State)

def setCommand (k : Nat) (c : Stop) : State :=
  { s with commands := Function.update s.commands k c }

def getAuthToken (id : String) : Option String := (s.sessions id).join

def setAuthToken (id authToken : String) : State :=
  { s with sessions := Function.update s.sessions id ((s.sessions id).map fun _ => some authToken) }

def destroySession (id : String) : State :=
  { s with sessions := Function.update s.sessions id none }

/-- `withAuth`, up to its first `await`. The empty string is no token either. -/
def withAuth (id : String) : Stop :=
  match s.getAuthToken id with
  | some cached => if cached = "" then .requesting else .calling cached none
  | none => .requesting

/-- The end of `handleStopCommand`, with what `deleteSession` throws. -/
def finish (k : Nat) (err : Option Failure) : State :=
  let s' := s.setCommand k (.ended err)
  match err with
  | none | some (.code .notFound) => s'.destroySession (s.ids k)
  | some _ => s'

/-- The interceptor decides first, then the handler. -/
def deliver (k : Nat) (err : Option RpcError) : Option State :=
  match s.commands k with
  | .calling authToken login =>
    let header := "Bearer " ++ authToken
    let refusal := authInterceptor key (signed s.server.log) s.server.now .deleteSessionAuth header
    let code := refusal.or (err.map rpcErrorToCode)
    (s.server.step key (.call .deleteSessionAuth header)).map fun server =>
      { s.setCommand k (.answered login code) with
        server := server
        history := ⟨k, authToken, login, code, s.server.now⟩ :: s.history }
  | _ => none

/-- The answer arrives: a token that was kept is tried once. -/
def resume (k : Nat) : Option State :=
  match s.commands k with
  | .answered none (some .unauthenticated) => some (s.setCommand k .requesting)
  | .answered _ err => some (s.finish k (err.map .code))
  | _ => none

def nonce (k : Nat) (b : Vector UInt8 nonceSizeBytes) : Option State :=
  match s.commands k with
  | .requesting => (s.server.step key (.requestNonce (some b))).map fun server =>
      { s.setCommand k (.signing (hexEncodeToString b.toList)) with server := server }
  | _ => none

def sign (k : Nat) (exp : Time) : Option State :=
  match s.commands k with
  | .signing nonce => (s.server.step key (.signNonce exp nonce)).map fun server =>
      { s.setCommand k (.sending nonce (key.v4Sign (signNonce exp nonce))) with server := server }
  | _ => none

def respond (k n : Nat) : Option State :=
  match s.commands k with
  | .sending nonce passKey => (s.server.step key (.respondNonce n passKey)).map fun server =>
      { s.setCommand k (.awaiting nonce passKey n) with
        server := server
        logins := ⟨k, nonce, passKey, n⟩ :: s.logins }
  | _ => none

/-- The rest of `acquireAuthToken`. -/
def reply (k : Nat) : Option State :=
  match s.commands k with
  | .awaiting _ _ n =>
    match s.server.calls n with
    | .returned none authToken =>
      some ((s.setAuthToken (s.ids k) authToken).setCommand k (.calling authToken (some n)))
    | .returned (some c) _ => some (s.finish k (some (.code c)))
    | _ => none
  | _ => none

/-- A request or an answer is lost. -/
def fail (k : Nat) : Option State :=
  match s.commands k with
  | .idle | .signing _ | .ended _ => none
  | _ => some (s.finish k (some .unreachable))

def step (s : State) : Action → Option State
  | .server a => (s.server.step key a).map fun server => { s with server := server }
  | .createSession id =>
    some { s with sessions := Function.update s.sessions id (some none) }
  | .destroySession id => some (s.destroySession id)
  | .stop k id =>
    match s.commands k with
    | .idle => some { s.setCommand k (s.withAuth id) with ids := Function.update s.ids k id }
    | _ => none
  | .deliver k err => s.deliver key k err
  | .resume k => s.resume k
  | .nonce k b => s.nonce key k b
  | .sign k exp => s.sign key k exp
  | .respond k n => s.respond key k n
  | .reply k => s.reply k
  | .fail k => s.fail k

end State

variable (key : V4AsymmetricSecretKey)

/-- The bot starts with no sessions, next to a server in its initial state. -/
def botSystem : System State Action where
  init s := ∃ nonceTTL now ids,
    s = ⟨.initial nonceTTL now, fun _ => none, ids, fun _ => .idle, [], []⟩
  step := State.step key

/-! ## What is said of the calls -/

/-- The nonce was handed out, and the passkey is what `signNonce` makes of it. -/
def SignedFor (log : List Event) (nonce passKey : String) : Prop :=
  (∃ e, .issued nonce e ∈ log) ∧ ∃ exp, passKey = key.v4Sign (signNonce exp nonce) ∧
    .signedPasskey (signNonce exp nonce) ∈ log

/-- The call `n` consumed the nonce, and then the token was minted in it. -/
def MintedFor (log : List Event) (n : Nat) (nonce authToken : String) (mintedAt : Time) : Prop :=
  key.v4Sign (newToken mintedAt) = authToken ∧
    ∃ at', [.minted n (newToken mintedAt), .consumed n nonce at'].Sublist log

/-- The token was minted for the nonce that a command of the bot answered. -/
def State.Minted (s : State) (l : Login) (authToken : String) (mintedAt : Time) : Prop :=
  l ∈ s.logins ∧ SignedFor key s.server.log l.nonce l.passKey ∧
    MintedFor key s.server.log l.call l.nonce authToken mintedAt

def attempts (s : State) (k : Nat) : List Attempt := s.history.filter fun a => a.command = k

/-- A token that was kept, and was refused. -/
def Attempt.Stale (a : Attempt) : Prop := a.login = none ∧ a.err = some .unauthenticated

/-- The token comes from a login of the bot, its command's own if it is fresh, and
is refused when it has expired. -/
def Attempt.Honest (s : State) (a : Attempt) : Prop :=
  ∃ l mintedAt, s.Minted key l a.authToken mintedAt ∧
    (∀ n ∈ a.login, l.call = n ∧ l.command = a.command) ∧
    (a.err = some .unauthenticated ↔ (newToken mintedAt).notExpired a.now = false)

/-- Newest first: one call at most, or a second one with a token of the command's
own after the first was refused. -/
def OneRetry (l : List Attempt) : Prop :=
  l = [] ∨ (∃ a, l = [a]) ∨ ∃ a b, l = [b, a] ∧ a.Stale ∧ b.login.isSome = true

/-! ## The server's part -/

/-- What a server step does to the log, the clock and a call that has begun. -/
structure Extends (a : AdminTokens.Action) (u v : AdminTokens.State) : Prop where
  log : u.log <:+ v.log
  now : u.now ≤ v.now
  calls : ∀ n, u.calls n ≠ .idle → a ≠ .consume n → a ≠ .mint n → v.calls n = u.calls n

/-- The invariants of `authSystem`, and that what it mints lives for `tokenTTL`. -/
structure ServerInv (u : AdminTokens.State) : Prop where
  nonce : NonceInv key u
  minted : ∀ n tok, .minted n tok ∈ u.log → ∃ mintedAt, tok = newToken mintedAt

namespace BotAuthLemmas

variable {key : V4AsymmetricSecretKey} {u v : AdminTokens.State} {a : AdminTokens.Action}

theorem extends_step (h : u.step key a = some v) : Extends a u v := by
  have hother : ∀ (c : RespondNonce) {n m : Nat}, m ≠ n →
      Function.update u.calls n c m = u.calls m := fun c _ _ hne => Function.update_of_ne hne _ _
  cases a with
  | tick d =>
    cases h
    exact ⟨List.suffix_rfl, Nat.le_add_right _ _, fun _ _ _ _ => rfl⟩
  | signnonce nonce | signNonce exp nonce | call proc header =>
    cases h
    exact ⟨List.suffix_cons _ _, Nat.le_refl _, fun _ _ _ _ => rfl⟩
  | requestNonce b =>
    cases b with
    | none =>
      cases h
      exact ⟨List.suffix_rfl, Nat.le_refl _, fun _ _ _ _ => rfl⟩
    | some b =>
      cases h
      exact ⟨List.suffix_cons _ _, Nat.le_refl _, fun _ _ _ _ => rfl⟩
  | respondNonce n passKey =>
    have hcall : u.calls n = .idle := by
      simp only [AdminTokens.State.step] at h
      split at h
      · next hcall => exact hcall
      · cases h
    have hne : ∀ m, u.calls m ≠ .idle → m ≠ n := by
      rintro m hm rfl
      exact hm hcall
    simp only [AdminTokens.State.step, hcall] at h
    split at h
    all_goals
      cases h
      exact ⟨List.suffix_rfl, Nat.le_refl _, fun m hm _ _ => hother _ (hne m hm)⟩
  | consume n =>
    have hne : ∀ m, AdminTokens.Action.consume n ≠ .consume m → m ≠ n := by
      rintro m hm rfl
      exact hm rfl
    obtain ⟨raw, -, ⟨-, rfl⟩ | ⟨a, -, rfl⟩⟩ := AdminTokensLemmas.consume_eq_some h
    · exact ⟨List.suffix_rfl, Nat.le_refl _, fun m _ hm _ => hother _ (hne m hm)⟩
    · exact ⟨List.suffix_cons _ _, Nat.le_refl _, fun m _ hm _ => hother _ (hne m hm)⟩
  | mint n =>
    have hne : ∀ m, AdminTokens.Action.mint n ≠ .mint m → m ≠ n := by
      rintro m hm rfl
      exact hm rfl
    obtain ⟨-, rfl⟩ := AdminTokensLemmas.mint_eq_some h
    exact ⟨List.suffix_cons _ _, Nat.le_refl _, fun m _ _ hm => hother _ (hne m hm)⟩

theorem serverInv_step (hinv : ServerInv key u) (h : u.step key a = some v) :
    ServerInv key v := by
  have hwith : u.stepWith key (passKeyNonce key) a = some v := by
    cases a <;> exact h
  refine ⟨nonceInv_step key hinv.nonce hwith, fun n tok hmem => ?_⟩
  have hold : ∀ e, v.log = e :: u.log → e ≠ .minted n tok → .minted n tok ∈ u.log := by
    intro e hlog he
    rw [hlog] at hmem
    exact (List.mem_cons.mp hmem).resolve_left fun heq => he heq.symm
  cases a with
  | tick d =>
    cases h
    exact hinv.minted n tok hmem
  | signnonce nonce | signNonce exp nonce | call proc header =>
    cases h
    exact hinv.minted n tok (hold _ rfl Event.noConfusion)
  | requestNonce b =>
    cases b with
    | none =>
      cases h
      exact hinv.minted n tok hmem
    | some b =>
      cases h
      exact hinv.minted n tok (hold _ rfl Event.noConfusion)
  | respondNonce m passKey =>
    obtain ⟨-, rfl | ⟨raw, rfl⟩⟩ := NoncesLemmas.respondNonce_eq_some hwith
    · exact hinv.minted n tok hmem
    · exact hinv.minted n tok hmem
  | consume m =>
    obtain ⟨raw, -, ⟨-, rfl⟩ | ⟨a, -, rfl⟩⟩ := AdminTokensLemmas.consume_eq_some h
    · exact hinv.minted n tok hmem
    · exact hinv.minted n tok (hold _ rfl Event.noConfusion)
  | mint m =>
    obtain ⟨-, rfl⟩ := AdminTokensLemmas.mint_eq_some h
    rcases List.mem_cons.mp hmem with heq | hmem
    · cases heq
      exact ⟨u.now, rfl⟩
    · exact hinv.minted n tok hmem

theorem serverInv_reachable (h : Reachable (authSystem key) u) : ServerInv key u := by
  refine h.invariant (I := ServerInv key) ?_ fun _ _ _ _ hinv _ hs => serverInv_step hinv hs
  rintro _ ⟨nonceTTL, now, rfl⟩
  refine ⟨⟨⟨fun _ => rfl, fun _ hn => (nomatch hn), trivial⟩, fun _ _ hmem => (nomatch hmem),
    .nil, fun n => iff_of_false ?_ ?_⟩, fun _ _ hmem => (nomatch hmem)⟩
  · intro h
    cases h
  · intro h
    cases h

/-- Keys sign injectively, so no other token stands for this one. -/
theorem parse_of_expired {signed : List Token} {now : Time} {tok : Token}
    (hexp : tok.notExpired now = false) : parseV4Public key signed now (key.v4Sign tok) = none := by
  by_contra hsome
  obtain ⟨tok', htok'⟩ := Option.ne_none_iff_exists'.mp hsome
  obtain ⟨-, hstr, hexp'⟩ := AdminTokensLemmas.parseV4Public_eq_some htok'
  rw [key.injective hstr, hexp] at hexp'
  cases hexp'

/-- A minted token is refused when it has expired, and only then. -/
theorem refused_iff {header : String} {n : Nat} {tok : Token} (err : Option RpcError)
    (hmint : .minted n tok ∈ u.log) (hheader : bearerToken header = key.v4Sign tok) :
    (authInterceptor key (signed u.log) u.now .deleteSessionAuth header).or
        (err.map rpcErrorToCode) = some .unauthenticated ↔ tok.notExpired u.now = false := by
  have hproc : Procedure.deleteSessionAuth ∈ authenticatedProcedures := by decide
  have hsigned := AdminTokensLemmas.mem_signed.mpr (.inr ⟨n, hmint⟩)
  have hhandler : err.map rpcErrorToCode ≠ some .unauthenticated := by
    intro herr
    obtain ⟨e, -, he⟩ := Option.map_eq_some_iff.mp herr
    rcases e with (_ | _ | _ | _ | _ | _ | _) | _ | _ | _ | _ <;> cases he
  unfold authInterceptor verifyToken
  rw [if_pos hproc, hheader]
  cases hexp : tok.notExpired u.now with
  | true =>
    rw [AdminTokensLemmas.parseV4Public_sign hsigned hexp]
    exact iff_of_false hhandler Bool.noConfusion
  | false =>
    rw [parse_of_expired hexp]
    exact iff_of_true rfl rfl

theorem bearerToken_bearer (authToken : String) :
    bearerToken ("Bearer " ++ authToken) = authToken := trimPrefix_append _ _

end BotAuthLemmas

/-! ## The invariant -/

/-- The passkey or the nonce has expired, or somebody else used the nonce. -/
def Refused (u : AdminTokens.State) (n : Nat) (nonce passKey : String) : Prop :=
  (∃ exp, passKey = key.v4Sign (signNonce exp nonce) ∧
    (signNonce exp nonce).notExpired u.now = false) ∨
    (∃ e, .issued nonce e ∈ u.log ∧ e < u.now) ∨ ∃ m at', .consumed m nonce at' ∈ u.log ∧ m ≠ n

/-- How the call `n` answers the passkey that it was sent. -/
def Answers (u : AdminTokens.State) (n : Nat) (nonce passKey : String) : RespondNonce → Prop
  | .idle => False
  | .consuming raw => raw = nonce
  | .minting => ∃ at', .consumed n nonce at' ∈ u.log
  | .returned none authToken => ∃ mintedAt, MintedFor key u.log n nonce authToken mintedAt
  | .returned (some c) _ => c = .unauthenticated ∧ Refused key u n nonce passKey

/-- What the bot holds in each phase of the command `k`. -/
def Holds (s : State) (k : Nat) : Stop → Prop
  | .calling authToken login => ∃ l mintedAt, s.Minted key l authToken mintedAt ∧
      ∀ n ∈ login, l.call = n ∧ l.command = k
  | .signing nonce => ∃ e, .issued nonce e ∈ s.server.log
  | .sending nonce passKey => SignedFor key s.server.log nonce passKey
  | .awaiting nonce passKey n => ⟨k, nonce, passKey, n⟩ ∈ s.logins ∧
      SignedFor key s.server.log nonce passKey ∧
      Answers key s.server n nonce passKey (s.server.calls n)
  | .idle | .answered .. | .requesting | .ended _ => True

/-- Nothing, or the one call with the token that was kept. -/
def AtMostStale (l : List Attempt) : Prop := l = [] ∨ ∃ a, l = [a] ∧ a.Stale

/-- The calls that a command has made, by its phase. -/
def Tried (l : List Attempt) : Stop → Prop
  | .idle | .calling _ none => l = []
  | .answered none err => ∃ a, l = [a] ∧ a.login = none ∧ a.err = err
  | .calling _ (some _) | .requesting | .signing _ | .sending .. | .awaiting .. => AtMostStale l
  | .answered (some _) _ | .ended _ => OneRetry l

structure BotInv (s : State) : Prop where
  tokens : ∀ id authToken, s.sessions id = some (some authToken) →
    ∃ l mintedAt, s.Minted key l authToken mintedAt
  holds : ∀ k, Holds key s k (s.commands k)
  honest : ∀ a ∈ s.history, a.Honest key s
  tried : ∀ k, Tried (attempts s k) (s.commands k)

namespace BotAuthLemmas

variable {key : V4AsymmetricSecretKey} {s t : State} {u v : AdminTokens.State}

/-! ### More is logged -/

theorem signedFor_mono {log log' : List Event} {nonce passKey : String}
    (h : SignedFor key log nonce passKey) (hlog : log ⊆ log') :
    SignedFor key log' nonce passKey := by
  obtain ⟨⟨e, he⟩, exp, hpass, hsigned⟩ := h
  exact ⟨⟨e, hlog he⟩, exp, hpass, hlog hsigned⟩

theorem mintedFor_mono {log log' : List Event} {n : Nat} {nonce authToken : String}
    {mintedAt : Time} (h : MintedFor key log n nonce authToken mintedAt)
    (hlog : log.Sublist log') : MintedFor key log' n nonce authToken mintedAt := by
  obtain ⟨hstr, at', hsub⟩ := h
  exact ⟨hstr, at', hsub.trans hlog⟩

/-- The token is signed by the call that minted it. -/
theorem mem_minted {log : List Event} {n : Nat} {nonce authToken : String} {mintedAt : Time}
    (h : MintedFor key log n nonce authToken mintedAt) : .minted n (newToken mintedAt) ∈ log := by
  obtain ⟨-, at', hsub⟩ := h
  exact hsub.subset List.mem_cons_self

theorem notExpired_mono {tok : Token} {now now' : Time} (h : tok.notExpired now = false)
    (hle : now ≤ now') : tok.notExpired now' = false := by
  unfold Token.notExpired at h ⊢
  split
  · rfl
  · next exp hexp =>
    rw [hexp] at h
    have hlt : ¬ now ≤ exp := of_decide_eq_false h
    exact decide_eq_false fun hle' => hlt (hle.trans hle')

theorem refused_mono {n : Nat} {nonce passKey : String} (h : Refused key u n nonce passKey)
    (hlog : u.log ⊆ v.log) (hnow : u.now ≤ v.now) : Refused key v n nonce passKey := by
  rcases h with ⟨exp, hpass, hexp⟩ | ⟨e, hmem, he⟩ | ⟨m, at', hmem, hm⟩
  · exact .inl ⟨exp, hpass, notExpired_mono hexp hnow⟩
  · exact .inr (.inl ⟨e, hlog hmem, he.trans_le hnow⟩)
  · exact .inr (.inr ⟨m, at', hlog hmem, hm⟩)

theorem answers_mono {n : Nat} {nonce passKey : String} {c : RespondNonce}
    (h : Answers key u n nonce passKey c) (hlog : u.log.Sublist v.log) (hnow : u.now ≤ v.now) :
    Answers key v n nonce passKey c := by
  match c with
  | .idle => exact h
  | .consuming raw => exact h
  | .minting =>
    obtain ⟨at', hmem⟩ := h
    exact ⟨at', hlog.subset hmem⟩
  | .returned none authToken =>
    obtain ⟨mintedAt, hmint⟩ := h
    exact ⟨mintedAt, mintedFor_mono hmint hlog⟩
  | .returned (some c) authToken => exact ⟨h.1, refused_mono h.2 hlog.subset hnow⟩

/-! ### A login -/

theorem consumed_of_outstanding {nonce : String} {e : Time} {log : List Event}
    (hissued : .issued nonce e ∈ log) (hout : outstanding log nonce = none) :
    ∃ m at', .consumed m nonce at' ∈ log := by
  induction log with
  | nil => cases hissued
  | cons x log ih =>
    have holder : .issued nonce e ∈ log → outstanding log nonce = none →
        ∃ m at', .consumed m nonce at' ∈ x :: log := by
      intro hmem h
      obtain ⟨m, at', hm⟩ := ih hmem h
      exact ⟨m, at', List.mem_cons_of_mem _ hm⟩
    cases x with
    | issued nonce' e' =>
      simp only [outstanding] at hout
      split at hout
      · cases hout
      · next hne =>
        refine holder ((List.mem_cons.mp hissued).resolve_left fun heq => ?_) hout
        cases heq
        exact hne rfl
    | consumed m nonce' at' =>
      simp only [outstanding] at hout
      split at hout
      · next heq =>
        cases heq
        exact ⟨m, at', List.mem_cons_self⟩
      · exact holder ((List.mem_cons.mp hissued).resolve_left Event.noConfusion) hout
    | signedPasskey tok | minted m tok | called proc header now err =>
      exact holder ((List.mem_cons.mp hissued).resolve_left Event.noConfusion) hout

theorem answers_step {a : AdminTokens.Action} {n : Nat} {nonce passKey : String}
    (hinv : ServerInv key u) (hissued : ∃ e, .issued nonce e ∈ u.log)
    (hanswers : Answers key u n nonce passKey (u.calls n)) (h : u.step key a = some v) :
    Answers key v n nonce passKey (v.calls n) := by
  obtain ⟨hsuffix, hnow, hcalls⟩ := extends_step h
  by_cases hconsume : a = .consume n
  · subst hconsume
    obtain ⟨raw, hcall, hnext⟩ := AdminTokensLemmas.consume_eq_some h
    rw [hcall] at hanswers
    obtain rfl : raw = nonce := hanswers
    rcases hnext with ⟨hnone, rfl⟩ | ⟨auth, -, rfl⟩
    · show Answers key _ n raw passKey (Function.update u.calls n _ n)
      rw [Function.update_self]
      refine ⟨rfl, .inr ?_⟩
      have hlookup := hinv.nonce.auth.nonces raw
      unfold Auth.consumeNonce at hnone
      split at hnone
      · next hl =>
        -- the nonce was issued and is gone, and `n` has not consumed any yet
        obtain ⟨e, he⟩ := hissued
        obtain ⟨m, at', hm⟩ := consumed_of_outstanding he (hlookup.symm.trans hl)
        refine .inr ⟨m, at', hm, ?_⟩
        rintro rfl
        have haccepted := (hinv.nonce.accepted m).mp
          (List.mem_filterMap.mpr ⟨_, hm, rfl⟩)
        rw [hcall] at haccepted
        cases haccepted
      · next exp' hl =>
        split at hnone
        · next hlt =>
          have hissued' := (NoncesLemmas.issues_of_outstanding 0 (hlookup.symm.trans hl)).1
          exact .inl ⟨exp', hissued', hlt⟩
        · cases hnone
    · show Answers key _ n raw passKey (Function.update u.calls n _ n)
      rw [Function.update_self]
      exact ⟨u.now, List.mem_cons_self⟩
  · by_cases hmint : a = .mint n
    · subst hmint
      obtain ⟨hcall, rfl⟩ := AdminTokensLemmas.mint_eq_some h
      rw [hcall] at hanswers
      obtain ⟨at', hmem⟩ := hanswers
      show Answers key _ n nonce passKey (Function.update u.calls n _ n)
      rw [Function.update_self]
      exact ⟨u.now, rfl, at', (List.singleton_sublist.mpr hmem).cons_cons _⟩
    · have hbegun : u.calls n ≠ .idle := by
        intro hidle
        rw [hidle] at hanswers
        exact hanswers
      rw [hcalls n hbegun hconsume hmint]
      exact answers_mono hanswers hsuffix.sublist hnow

/-- A signed passkey arrives as a call that nobody else makes. -/
theorem answers_respond {n : Nat} {nonce passKey : String}
    (htrim : ∀ tok, trimSpace (key.v4Sign tok) = key.v4Sign tok)
    (hsigned : SignedFor key u.log nonce passKey)
    (h : u.step key (.respondNonce n passKey) = some v) :
    Answers key v n nonce passKey (v.calls n) := by
  obtain ⟨-, exp, rfl, hmem⟩ := hsigned
  have hmem := AdminTokensLemmas.mem_signed.mpr (.inl hmem)
  simp only [AdminTokens.State.step, htrim, passKeyNonce] at h
  split at h
  · cases hexp : (signNonce exp nonce).notExpired u.now with
    | true =>
      rw [AdminTokensLemmas.parseV4Public_sign hmem hexp] at h
      cases h
      show Answers key _ n nonce _ (Function.update u.calls n _ n)
      rw [Function.update_self]
      rfl
    | false =>
      rw [parse_of_expired hexp] at h
      cases h
      show Answers key _ n nonce _ (Function.update u.calls n _ n)
      rw [Function.update_self]
      exact ⟨rfl, .inl ⟨exp, rfl, hexp⟩⟩
  · cases h

end BotAuthLemmas

/-! ### The steps of the bot -/

/-- What a step keeps of the log, of the logins and of the calls in which a nonce
is answered. -/
structure Grows (s t : State) : Prop where
  log : s.server.log.Sublist t.server.log
  logins : s.logins ⊆ t.logins
  answers : ∀ n nonce passKey, (∃ e, .issued nonce e ∈ s.server.log) →
    Answers key s.server n nonce passKey (s.server.calls n) →
      Answers key t.server n nonce passKey (t.server.calls n)

namespace BotAuthLemmas

variable {key : V4AsymmetricSecretKey} {s t : State} {v : AdminTokens.State}

theorem grows_bot (hserver : t.server = s.server) (hlogins : t.logins = s.logins) :
    Grows key s t where
  log := by rw [hserver]
  logins := by rw [hlogins]; exact List.Subset.refl _
  answers n nonce passKey _ h := by rw [hserver]; exact h

theorem grows_server {a : AdminTokens.Action} (hinv : ServerInv key s.server)
    (h : s.server.step key a = some t.server) (hlogins : s.logins ⊆ t.logins) : Grows key s t where
  log := (extends_step h).log.sublist
  logins := hlogins
  answers _ _ _ hissued hanswers := answers_step hinv hissued hanswers h

theorem minted_mono {l : Login} {authToken : String} {mintedAt : Time}
    (h : s.Minted key l authToken mintedAt) (hst : Grows key s t) :
    t.Minted key l authToken mintedAt := by
  obtain ⟨hl, hsigned, hmint⟩ := h
  exact ⟨hst.logins hl, signedFor_mono hsigned hst.log.subset, mintedFor_mono hmint hst.log⟩

theorem honest_mono {a : Attempt} (h : a.Honest key s) (hst : Grows key s t) :
    a.Honest key t := by
  obtain ⟨l, mintedAt, hmint, hrest⟩ := h
  exact ⟨l, mintedAt, minted_mono hmint hst, hrest⟩

theorem holds_mono {k : Nat} {c : Stop} (h : Holds key s k c) (hst : Grows key s t) :
    Holds key t k c := by
  cases c with
  | calling authToken login =>
    obtain ⟨l, mintedAt, hmint, hown⟩ := h
    exact ⟨l, mintedAt, minted_mono hmint hst, hown⟩
  | signing nonce =>
    obtain ⟨e, he⟩ := h
    exact ⟨e, hst.log.subset he⟩
  | sending nonce passKey => exact signedFor_mono h hst.log.subset
  | awaiting nonce passKey n =>
    obtain ⟨hl, hsigned, hanswers⟩ := h
    exact ⟨hst.logins hl, signedFor_mono hsigned hst.log.subset,
      hst.answers n nonce passKey hsigned.1 hanswers⟩
  | idle | answered login err | requesting | ended err => trivial

theorem oneRetry_of_atMostStale {l : List Attempt} (h : AtMostStale l) : OneRetry l := by
  rcases h with rfl | ⟨a, rfl, -⟩
  · exact .inl rfl
  · exact .inr (.inl ⟨a, rfl⟩)

theorem oneRetry_of_tried {l : List Attempt} {c : Stop} (h : Tried l c) : OneRetry l := by
  match c with
  | .idle | .calling _ none => exact .inl h
  | .answered none err =>
    obtain ⟨a, rfl, -⟩ := h
    exact .inr (.inl ⟨a, rfl⟩)
  | .calling _ (some _) | .requesting | .signing _ | .sending .. | .awaiting .. =>
    exact oneRetry_of_atMostStale h
  | .answered (some _) _ | .ended _ => exact h

/-- A command moves on, with no call of its own. -/
theorem botInv_command {k : Nat} {c : Stop} (hinv : BotInv key s) (hst : Grows key s t)
    (hcommands : t.commands = Function.update s.commands k c) (hhistory : t.history = s.history)
    (htokens : ∀ id authToken, t.sessions id = some (some authToken) →
      s.sessions id = some (some authToken) ∨ ∃ l mintedAt, t.Minted key l authToken mintedAt)
    (hholds : Holds key t k c) (htried : Tried (attempts s k) c) : BotInv key t where
  tokens id authToken h := by
    rcases htokens id authToken h with h | h
    · obtain ⟨l, mintedAt, hmint⟩ := hinv.tokens id authToken h
      exact ⟨l, mintedAt, minted_mono hmint hst⟩
    · exact h
  holds k' := by
    rw [hcommands]
    rcases eq_or_ne k' k with rfl | hne
    · rw [Function.update_self]
      exact hholds
    · rw [Function.update_of_ne hne]
      exact holds_mono (hinv.holds k') hst
  honest := by
    rw [hhistory]
    exact fun a ha => honest_mono (hinv.honest a ha) hst
  tried k' := by
    rw [hcommands, attempts, hhistory]
    rcases eq_or_ne k' k with rfl | hne
    · rw [Function.update_self]
      exact htried
    · rw [Function.update_of_ne hne]
      exact hinv.tried k'

/-- No command moves, and no token is new. -/
theorem botInv_others (hinv : BotInv key s) (hst : Grows key s t)
    (hcommands : t.commands = s.commands) (hhistory : t.history = s.history)
    (htokens : ∀ id authToken, t.sessions id = some (some authToken) →
      s.sessions id = some (some authToken)) : BotInv key t where
  tokens id authToken h := by
    obtain ⟨l, mintedAt, hmint⟩ := hinv.tokens id authToken (htokens id authToken h)
    exact ⟨l, mintedAt, minted_mono hmint hst⟩
  holds k := by
    rw [hcommands]
    exact holds_mono (hinv.holds k) hst
  honest := by
    rw [hhistory]
    exact fun a ha => honest_mono (hinv.honest a ha) hst
  tried k := by
    rw [hcommands, attempts, hhistory]
    exact hinv.tried k

/-- A record is removed, or stays as it is. -/
theorem tokens_destroy {id id' authToken : String}
    (h : Function.update s.sessions id none id' = some (some authToken)) :
    s.sessions id' = some (some authToken) := by
  rcases eq_or_ne id' id with rfl | hne
  · rw [Function.update_self] at h
    cases h
  · rwa [Function.update_of_ne hne] at h

theorem botInv_finish {k : Nat} (hinv : BotInv key s) (err : Option Failure) :
    BotInv key (s.finish k err) := by
  have htried := oneRetry_of_tried (hinv.tried k)
  unfold State.finish
  split
  · exact botInv_command hinv (grows_bot rfl rfl) rfl rfl (fun _ _ h => .inl (tokens_destroy h))
      trivial htried
  · exact botInv_command hinv (grows_bot rfl rfl) rfl rfl (fun _ _ h => .inl (tokens_destroy h))
      trivial htried
  · exact botInv_command hinv (grows_bot rfl rfl) rfl rfl (fun _ _ h => .inl h) trivial htried

theorem botInv_deliver {k : Nat} {err : Option RpcError} (hinv : BotInv key s)
    (hserver : ServerInv key s.server) (h : s.deliver key k err = some t) : BotInv key t := by
  unfold State.deliver at h
  split at h
  · next authToken login hc =>
    obtain ⟨v, hv, rfl⟩ := Option.map_eq_some_iff.mp h
    have htried := hinv.tried k
    obtain ⟨l, mintedAt, hmint, hown⟩ : Holds key s k (.calling authToken login) :=
      hc ▸ hinv.holds k
    rw [hc] at htried
    -- of the server's code only that matters from here on
    have hrefused := refused_iff err (mem_minted hmint.2.2)
      ((bearerToken_bearer authToken).trans hmint.2.2.1.symm)
    generalize (authInterceptor key (signed s.server.log) s.server.now .deleteSessionAuth
      ("Bearer " ++ authToken)).or (err.map rpcErrorToCode) = code at hrefused
    have hst : Grows key s { s.setCommand k (.answered login code) with
        server := v
        history := ⟨k, authToken, login, code, s.server.now⟩ :: s.history } :=
      grows_server hserver hv (List.Subset.refl _)
    have hnew : ∀ k', attempts { s.setCommand k (.answered login code) with
        server := v
        history := ⟨k, authToken, login, code, s.server.now⟩ :: s.history } k' =
        if k = k' then ⟨k, authToken, login, code, s.server.now⟩ :: attempts s k'
          else attempts s k' := by
      intro k'
      simp only [attempts, List.filter_cons, decide_eq_true_eq]
    constructor
    case tokens =>
      intro id authToken' h'
      obtain ⟨l', mintedAt', hmint'⟩ := hinv.tokens id authToken' h'
      exact ⟨l', mintedAt', minted_mono hmint' hst⟩
    case holds =>
      intro k'
      show Holds key _ k' (Function.update s.commands k _ k')
      rcases eq_or_ne k' k with rfl | hne
      · rw [Function.update_self]
        trivial
      · rw [Function.update_of_ne hne]
        exact holds_mono (hinv.holds k') hst
    case honest =>
      intro a ha
      rcases List.mem_cons.mp ha with rfl | ha
      · exact ⟨l, mintedAt, minted_mono hmint hst, hown, hrefused⟩
      · exact honest_mono (hinv.honest a ha) hst
    case tried =>
      intro k'
      rw [hnew]
      show Tried _ (Function.update s.commands k _ k')
      rcases eq_or_ne k' k with rfl | hne
      · rw [Function.update_self, if_pos rfl]
        cases login with
        | none => exact ⟨_, by rw [show attempts s k' = [] from htried], rfl, rfl⟩
        | some n' =>
          -- the first call, or the second after a stale one
          rcases htried with hnil | ⟨a, ha, hstale⟩
          · exact .inr (.inl ⟨_, by rw [hnil]⟩)
          · exact .inr (.inr ⟨a, _, by rw [ha], hstale, rfl⟩)
      · rw [Function.update_of_ne hne, if_neg hne.symm]
        exact hinv.tried k'
  · cases h

theorem botInv_resume {k : Nat} (hinv : BotInv key s) (h : s.resume k = some t) :
    BotInv key t := by
  have htried := hinv.tried k
  unfold State.resume at h
  split at h
  · next hc =>
    cases h
    rw [hc] at htried
    obtain ⟨a, ha, hlogin, herr⟩ := htried
    exact botInv_command hinv (grows_bot rfl rfl) rfl rfl (fun _ _ h => .inl h) trivial
      (.inr ⟨a, ha, hlogin, herr⟩)
  · cases h
    exact botInv_finish hinv _
  · cases h

theorem botInv_reply {k : Nat} (hinv : BotInv key s) (h : s.reply k = some t) : BotInv key t := by
  have htried := hinv.tried k
  have hholds := hinv.holds k
  unfold State.reply at h
  split at h
  · next nonce passKey n hc =>
    rw [hc] at htried hholds
    obtain ⟨hlogin, hsigned, hanswers⟩ := hholds
    split at h
    · next authToken hcall =>
      cases h
      rw [hcall] at hanswers
      obtain ⟨mintedAt, hmint⟩ := hanswers
      refine botInv_command hinv (grows_bot rfl rfl) rfl rfl ?_
        ⟨_, mintedAt, ⟨hlogin, hsigned, hmint⟩, ?_⟩ htried
      · intro id authToken' h'
        change Function.update s.sessions (s.ids k) _ id = _ at h'
        rcases eq_or_ne id (s.ids k) with rfl | hne
        · rw [Function.update_self] at h'
          obtain ⟨-, -, heq⟩ := Option.map_eq_some_iff.mp h'
          cases heq
          exact .inr ⟨_, mintedAt, hlogin, hsigned, hmint⟩
        · rw [Function.update_of_ne hne] at h'
          exact .inl h'
      · rintro _ ⟨⟩
        exact ⟨rfl, rfl⟩
    · cases h
      exact botInv_finish hinv _
    · cases h
  · cases h

/-- A new command has made no call. -/
theorem botInv_stop {k : Nat} (hinv : BotInv key s) (hc : s.commands k = .idle) (id : String) :
    BotInv key { s.setCommand k (s.withAuth id) with ids := Function.update s.ids k id } := by
  have htried : attempts s k = [] := by
    have h := hinv.tried k
    rwa [hc] at h
  have hstep : Holds key s k (s.withAuth id) ∧ Tried (attempts s k) (s.withAuth id) := by
    unfold State.withAuth
    split
    · next cached hcached =>
      have hsession : s.sessions id = some (some cached) := Option.join_eq_some_iff.mp hcached
      split
      · exact ⟨trivial, .inl htried⟩
      · obtain ⟨l, mintedAt, hmint⟩ := hinv.tokens id cached hsession
        exact ⟨⟨l, mintedAt, hmint, nofun⟩, htried⟩
    · exact ⟨trivial, .inl htried⟩
  have hst : Grows key s { s.setCommand k (s.withAuth id) with
      ids := Function.update s.ids k id } := grows_bot rfl rfl
  exact botInv_command hinv hst rfl rfl (fun _ _ h => .inl h) (holds_mono hstep.1 hst) hstep.2

end BotAuthLemmas

open BotAuthLemmas

/-- Without the bot, its runs are runs of `authSystem`. -/
theorem server_step {s t : State} {a : Action} (h : s.step key a = some t) :
    t.server = s.server ∨ ∃ b, s.server.step key b = some t.server := by
  have hfinish : ∀ k err, (s.finish k err).server = s.server := by
    intro k err
    unfold State.finish
    split <;> rfl
  cases a with
  | server a =>
    obtain ⟨v, hv, rfl⟩ := Option.map_eq_some_iff.mp h
    exact .inr ⟨a, hv⟩
  | createSession id | destroySession id =>
    cases h
    exact .inl rfl
  | stop k id =>
    simp only [State.step] at h
    split at h
    · cases h
      exact .inl rfl
    · cases h
  | deliver k err =>
    simp only [State.step, State.deliver] at h
    split at h
    · obtain ⟨v, hv, rfl⟩ := Option.map_eq_some_iff.mp h
      exact .inr ⟨_, hv⟩
    · cases h
  | resume k =>
    simp only [State.step, State.resume] at h
    split at h
    · cases h
      exact .inl rfl
    · cases h
      exact .inl (hfinish k _)
    · cases h
  | nonce k b =>
    simp only [State.step, State.nonce] at h
    split at h
    · obtain ⟨v, hv, rfl⟩ := Option.map_eq_some_iff.mp h
      exact .inr ⟨_, hv⟩
    · cases h
  | sign k exp =>
    simp only [State.step, State.sign] at h
    split at h
    · obtain ⟨v, hv, rfl⟩ := Option.map_eq_some_iff.mp h
      exact .inr ⟨_, hv⟩
    · cases h
  | respond k n =>
    simp only [State.step, State.respond] at h
    split at h
    · obtain ⟨v, hv, rfl⟩ := Option.map_eq_some_iff.mp h
      exact .inr ⟨_, hv⟩
    · cases h
  | reply k =>
    simp only [State.step, State.reply] at h
    split at h
    · split at h
      · cases h
        exact .inl rfl
      · cases h
        exact .inl (hfinish k _)
      · cases h
    · cases h
  | fail k =>
    simp only [State.step, State.fail] at h
    split at h
    · cases h
    · cases h
    · cases h
    · cases h
      exact .inl (hfinish k _)

theorem server_reachable {s : State} (h : Reachable (botSystem key) s) :
    Reachable (authSystem key) s.server := by
  refine h.invariant (I := fun s => Reachable (authSystem key) s.server) ?_ ?_
  · rintro _ ⟨nonceTTL, now, ids, rfl⟩
    exact .init ⟨nonceTTL, now, rfl⟩
  · rintro s a t - hr - hs
    rcases server_step key hs with heq | ⟨b, hb⟩
    · exact heq ▸ hr
    · exact .step b hr trivial hb

theorem botInv_step {s t : State} {a : Action}
    (htrim : ∀ tok, trimSpace (key.v4Sign tok) = key.v4Sign tok) (hinv : BotInv key s)
    (hserver : ServerInv key s.server) (h : s.step key a = some t) : BotInv key t := by
  cases a with
  | server a =>
    obtain ⟨v, hv, rfl⟩ := Option.map_eq_some_iff.mp h
    exact botInv_others hinv (grows_server hserver hv (List.Subset.refl _)) rfl rfl
      fun _ _ h => h
  | createSession id =>
    cases h
    refine botInv_others hinv (grows_bot rfl rfl) rfl rfl fun id' authToken h => ?_
    change Function.update s.sessions id (some none) id' = _ at h
    rcases eq_or_ne id' id with rfl | hne
    · rw [Function.update_self] at h
      cases h
    · rwa [Function.update_of_ne hne] at h
  | destroySession id =>
    cases h
    exact botInv_others hinv (grows_bot rfl rfl) rfl rfl fun _ _ h => tokens_destroy h
  | stop k id =>
    simp only [State.step] at h
    split at h
    · next hc =>
      cases h
      exact botInv_stop hinv hc id
    · cases h
  | deliver k err => exact botInv_deliver hinv hserver h
  | resume k => exact botInv_resume hinv h
  | nonce k b =>
    have htried := hinv.tried k
    simp only [State.step, State.nonce] at h
    split at h
    · next hc =>
      obtain ⟨v, hv, rfl⟩ := Option.map_eq_some_iff.mp h
      rw [hc] at htried
      refine botInv_command hinv (grows_server hserver hv (List.Subset.refl _)) rfl rfl
        (fun _ _ h => .inl h) ?_ htried
      cases hv
      exact ⟨_, List.mem_cons_self⟩
    · cases h
  | sign k exp =>
    have htried := hinv.tried k
    have hholds := hinv.holds k
    simp only [State.step, State.sign] at h
    split at h
    · next nonce hc =>
      obtain ⟨v, hv, rfl⟩ := Option.map_eq_some_iff.mp h
      rw [hc] at htried hholds
      obtain ⟨e, he⟩ := hholds
      refine botInv_command hinv (grows_server hserver hv (List.Subset.refl _)) rfl rfl
        (fun _ _ h => .inl h) ?_ htried
      cases hv
      exact ⟨⟨e, List.mem_cons_of_mem _ he⟩, exp, rfl, List.mem_cons_self⟩
    · cases h
  | respond k n =>
    have htried := hinv.tried k
    have hholds := hinv.holds k
    simp only [State.step, State.respond] at h
    split at h
    · next nonce passKey hc =>
      obtain ⟨v, hv, rfl⟩ := Option.map_eq_some_iff.mp h
      rw [hc] at htried hholds
      have hst := grows_server (t := { s.setCommand k (.awaiting nonce passKey n) with
        server := v
        logins := ⟨k, nonce, passKey, n⟩ :: s.logins }) hserver hv (List.subset_cons_self _ _)
      exact botInv_command hinv hst rfl rfl (fun _ _ h => .inl h)
        ⟨List.mem_cons_self, signedFor_mono hholds hst.log.subset,
          answers_respond htrim hholds hv⟩ htried
    · cases h
  | reply k => exact botInv_reply hinv h
  | fail k =>
    simp only [State.step, State.fail] at h
    split at h
    · cases h
    · cases h
    · cases h
    · cases h
      exact botInv_finish hinv _

theorem botInv_reachable {s : State}
    (htrim : ∀ tok, trimSpace (key.v4Sign tok) = key.v4Sign tok)
    (h : Reachable (botSystem key) s) : BotInv key s := by
  refine h.invariant (I := BotInv key) ?_ ?_
  · rintro _ ⟨nonceTTL, now, ids, rfl⟩
    exact ⟨fun _ _ h => (nomatch h), fun _ => trivial, fun _ h => (nomatch h), fun _ => rfl⟩
  · rintro s a t hr hinv - hs
    exact botInv_step key htrim hinv (serverInv_reachable (server_reachable key hr)) hs

/-- In every run, however the commands and the other clients interleave: each
admin call carries a token minted for a nonce that a command of the bot answered
and is refused when it has expired, and a command calls a second time only after
its kept token was refused. PASETO tokens have no white space. -/
theorem stop_calls {s : State} (htrim : ∀ tok, trimSpace (key.v4Sign tok) = key.v4Sign tok)
    (h : Reachable (botSystem key) s) :
    (∀ a ∈ s.history, a.Honest key s) ∧ ∀ k, OneRetry (attempts s k) := by
  have hinv := botInv_reachable key htrim h
  exact ⟨hinv.honest, fun k => oneRetry_of_tried (hinv.tried k)⟩

/-- In every run, for the call in which a command answers its nonce. -/
theorem login_answered {s : State} (htrim : ∀ tok, trimSpace (key.v4Sign tok) = key.v4Sign tok)
    (h : Reachable (botSystem key) s) {k n : Nat} {nonce passKey : String}
    (hc : s.commands k = .awaiting nonce passKey n) {err : Option Code} {authToken : String}
    (hret : s.server.calls n = .returned err authToken) :
    SignedFor key s.server.log nonce passKey ∧
      (err = none ∧ (∃ mintedAt, MintedFor key s.server.log n nonce authToken mintedAt) ∨
        err = some .unauthenticated ∧ Refused key s.server n nonce passKey) := by
  have hinv := botInv_reachable key htrim h
  obtain ⟨-, hsigned, hanswers⟩ : Holds key s k (.awaiting nonce passKey n) := hc ▸ hinv.holds k
  rw [hret] at hanswers
  cases err with
  | none => exact ⟨hsigned, .inl ⟨rfl, hanswers⟩⟩
  | some c =>
    obtain ⟨rfl, hrefused⟩ := hanswers
    exact ⟨hsigned, .inr ⟨rfl, hrefused⟩⟩

/-! ## Runs that can be evaluated -/

/-- The claims between two marks. -/
def markedKey : V4AsymmetricSecretKey where
  v4Sign t := String.ofList ('v' :: plainClaims t ++ ['.'])
  injective _ _ h := plainClaims_injective
    (List.cons.inj (List.append_cancel_right (String.ofList_injective h))).2

/-- Text with visible ends. -/
theorem trimSpace_marked {c d : Char} {cs : List Char} (hc : isSpace c = false)
    (hd : isSpace d = false) :
    trimSpace (String.ofList (c :: cs ++ [d])) = String.ofList (c :: cs ++ [d]) := by
  have hneg : ¬ isSpace d = true := by
    rw [hd]
    exact Bool.noConfusion
  unfold trimSpace
  rw [String.toList_ofList, List.cons_append, List.dropWhile_cons_of_neg (by simp [hc]),
    ← List.cons_append, List.rdropWhile_concat_neg _ _ _ hneg]

theorem trimSpace_markedKey (tok : Token) :
    trimSpace (markedKey.v4Sign tok) = markedKey.v4Sign tok :=
  trimSpace_marked (by decide) (by decide)

def State.start : State :=
  ⟨.initial (2 * minute) 0, fun _ => none, fun _ => "", fun _ => .idle, [], []⟩

def zeroBytes : Vector UInt8 nonceSizeBytes := Vector.replicate nonceSizeBytes 0

/-- A command asks for a token and calls with it. -/
def loginRun (k : Nat) (exp : Time) (err : Option RpcError) : List Action :=
  [.nonce k zeroBytes, .sign k exp, .respond k k, .server (.consume k), .server (.mint k), .reply k,
    .deliver k err, .resume k]

/-- The first command is let through and fails in the handler, so its token is
kept. The second comes a day later. -/
theorem stop_calls_expired : ∃ s : State,
    ((∀ a ∈ s.history, a.Honest markedKey s) ∧ ∀ k, OneRetry (attempts s k)) ∧
      s.history.map (fun a => (a.command, a.login, a.err)) =
        [(1, some 1, none), (1, none, some .unauthenticated), (0, some 0, some .internal)] ∧
      s.commands 1 = .ended none := by
  obtain ⟨s, hs, hp⟩ := Reachable.of_run (S := botSystem markedKey)
    (p := fun s => decide (s.history.map (fun a => (a.command, a.login, a.err)) =
        [(1, some 1, none), (1, none, some .unauthenticated), (0, some 0, some .internal)] ∧
      s.commands 1 = .ended none))
    ([.createSession "station", .stop 0 "station"] ++ loginRun 0 hour (some .other) ++
      [.server (.tick (25 * hour)), .stop 1 "station", .deliver 1 none, .resume 1] ++
      loginRun 1 (26 * hour) none)
    (show (botSystem markedKey).init .start from ⟨_, _, _, rfl⟩) (by decide +kernel)
  exact ⟨s, stop_calls markedKey trimSpace_markedKey hs, of_decide_eq_true hp⟩

def zeroNonce : String := hexEncodeToString zeroBytes.toList

/-- The passkey is in time, but is handled three minutes after the nonce was
issued. -/
theorem login_answered_late : ∃ s : State,
    s.commands 0 = .awaiting zeroNonce (markedKey.v4Sign (signNonce hour zeroNonce)) 0 ∧
      s.server.calls 0 = .returned (some .unauthenticated) "" ∧
      SignedFor markedKey s.server.log zeroNonce (markedKey.v4Sign (signNonce hour zeroNonce)) ∧
        (some Code.unauthenticated = none ∧
          (∃ mintedAt, MintedFor markedKey s.server.log 0 zeroNonce "" mintedAt) ∨
        some Code.unauthenticated = some .unauthenticated ∧
          Refused markedKey s.server 0 zeroNonce
            (markedKey.v4Sign (signNonce hour zeroNonce))) := by
  obtain ⟨s, hs, hp⟩ := Reachable.of_run (S := botSystem markedKey)
    (p := fun s => decide (
      s.commands 0 = .awaiting zeroNonce (markedKey.v4Sign (signNonce hour zeroNonce)) 0 ∧
      s.server.calls 0 = .returned (some .unauthenticated) ""))
    [.stop 0 "station", .nonce 0 zeroBytes, .sign 0 hour, .respond 0 0,
      .server (.tick (3 * minute)), .server (.consume 0)]
    (show (botSystem markedKey).init .start from ⟨_, _, _, rfl⟩) (by decide +kernel)
  obtain ⟨hc, hret⟩ := of_decide_eq_true hp
  exact ⟨s, hc, hret, login_answered markedKey trimSpace_markedKey hs hc hret⟩

end RadioJockey.BotAuth
