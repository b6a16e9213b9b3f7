import Mathlib.Data.List.AList
import Mathlib.Logic.Function.Basic
import RadioJockey.Connect
import RadioJockey.Lib.Transition

/-!
# Admin tokens (`connect/auth/auth.go`, `connect/interceptor.go`, `cmd/signnonce`)

The server hands out a nonce, the holder of the secret key signs it into a
passkey, and the server takes the passkey back, consumes the nonce and mints a
token. Passkeys and tokens are PASETO tokens under the same key, and
`authInterceptor` asks only for a token that verifies.

1. `passkey_admits`: a passkey is itself accepted as an admin token, with its
   nonce never consumed.
2. `admin_minted_iff`: in every run, every admitted admin call carries a token
   that was minted for a consumed nonce if and only if no admin call presents an
   unexpired passkey.
-/

namespace RadioJockey.AdminTokens

open Transition

/-! ## PASETO -/

/-- Nanoseconds, for instants and for durations. -/
abbrev Time := Nat

def second : Time := 1000000000

def minute : Time := 60 * second

def hour : Time := 60 * minute

/-- The claims that the server looks at. -/
structure Token where
  exp : Option Time
  nonce : Option String
  deriving DecidableEq, Repr

namespace Token

/-- `paseto.NewToken`: no claims. -/
def empty : Token := ⟨none, none⟩

/-- The claim is written as an RFC 3339 string without a fraction of a second. -/
def setExpiration (t : Token) (exp : Time) : Token :=
  { t with exp := some (exp - exp % second) }

def setNonce (t : Token) (nonce : String) : Token := { t with nonce := some nonce }

/-- The rule that `paseto.NewParser` starts with. It fails without the claim. -/
def notExpired (t : Token) (now : Time) : Bool :=
  match t.exp with
  | none => false
  | some exp => now ≤ exp

end Token

/-- A key pair. The claims can be read off the signed string. -/
structure V4AsymmetricSecretKey where
  v4Sign : Token → String
  injective : Function.Injective v4Sign

variable (key : V4AsymmetricSecretKey)

/-- Verification under the public key. Only the holders of the secret key can
sign, so what verifies is what they have signed so far. -/
def parseV4Public (signed : List Token) (now : Time) (s : String) : Option Token :=
  (signed.find? fun t => key.v4Sign t = s).filter fun t => t.notExpired now

/-! ## `auth.go` -/

def tokenTTL : Time := 24 * hour

def nonceSizeBytes : Nat := 16

structure Auth where
  nonces : AList fun _ : String => Time
  nonceTTL : Time

/-- `hex.EncodeToString`. -/
def hexEncodeToString (b : List UInt8) : String :=
  String.ofList (b.flatMap fun x => [Nat.digitChar (x.toNat / 16), Nat.digitChar (x.toNat % 16)])

namespace Auth

def issueNonce (a : Auth) (now : Time) (b : Vector UInt8 nonceSizeBytes) : String × Auth :=
  let nonce := hexEncodeToString b.toList
  (nonce, { a with nonces := a.nonces.insert nonce (now + a.nonceTTL) })

/-- The locked section of `ConsumeNonce`. -/
def consumeNonce (a : Auth) (now : Time) (raw : String) : Option Auth :=
  match a.nonces.lookup raw with
  | none => none
  | some exp => if exp < now then none else some { a with nonces := a.nonces.erase raw }

end Auth

/-- What `ConsumeNonce` reads from a passkey before it locks. -/
def passKeyNonce (signed : List Token) (now : Time) (passKey : String) : Option String :=
  (parseV4Public key signed now passKey).bind Token.nonce

/-- The claims of the token that `NewToken` signs. -/
def newToken (now : Time) : Token := Token.empty.setExpiration (now + tokenTTL)

def verifyToken (signed : List Token) (now : Time) (tokenStr : String) : Bool :=
  (parseV4Public key signed now tokenStr).isSome

/-- The token of an `authorization` header; an absent header reads as `""`. -/
def bearerToken (header : String) : String := trimPrefix header "Bearer "

/-- `none` lets the request through to its handler. -/
def authInterceptor (signed : List Token) (now : Time) (proc : Procedure) (header : String) :
    Option Code :=
  if proc ∈ authenticatedProcedures then
    if verifyToken key signed now (bearerToken header) then none else some .unauthenticated
  else none

/-! ## Signers -/

/-- `cmd/signnonce`. -/
def signnonce (now : Time) (nonce : String) : Token :=
  (Token.empty.setExpiration (now + 2 * minute)).setNonce nonce

/-- `signNonce` of the bot. The library it signs with puts in an `exp`, which has
milliseconds. -/
def signNonce (exp : Time) (nonce : String) : Token :=
  ({ Token.empty with exp := some exp } : Token).setNonce nonce

/-! ## Runs -/

/-- What has happened. `called` is a request at the interceptor with the answer
it gives; `n` numbers the `RespondNonce` calls. -/
inductive Event
  | issued (nonce : String) (exp : Time)
  | signedPasskey (t : Token)
  | consumed (n : Nat) (nonce : String) (now : Time)
  | minted (n : Nat) (t : Token)
  | called (proc : Procedure) (header : String) (now : Time) (err : Option Code)
  deriving DecidableEq

/-- Where a `RespondNonce` call is. `consuming` has parsed its passkey, and
`minting` has consumed its nonce. -/
inductive RespondNonce
  | idle
  | consuming (raw : String)
  | minting
  | returned (err : Option Code) (authToken : String)
  deriving DecidableEq

def Event.passkey : Event → Option Token
  | .signedPasskey t => some t
  | _ => none

def Event.signature : Event → Option Token
  | .signedPasskey t => some t
  | .minted _ t => some t
  | _ => none

/-- The passkeys in circulation. -/
def passkeys (log : List Event) : List Token := log.filterMap Event.passkey

/-- Everything signed with the key. -/
def signed (log : List Event) : List Token := log.filterMap Event.signature

structure State where
  auth : Auth
  now : Time
  calls : Nat → RespondNonce
  log : List Event

inductive Action
  | tick (d : Time)
  | signnonce (nonce : String)
  | signNonce (exp : Time) (nonce : String)
  /-- `none` when `rand.Read` fails. -/
  | requestNonce (b : Option (Vector UInt8 nonceSizeBytes))
  | respondNonce (n : Nat) (passKey : String)
  | consume (n : Nat)
  | mint (n : Nat)
  | call (proc : Procedure) (header : String)

def State.setCall (s : State) (n : Nat) (c : RespondNonce) : State :=
  { s with calls := Function.update s.calls n c }

def State.happens (s : State) (e : Event) : State := { s with log := e :: s.log }

def State.step (s : State) : Action → Option State
  | .tick d => some { s with now := s.now + d }
  | .signnonce nonce => some (s.happens (.signedPasskey (AdminTokens.signnonce s.now nonce)))
  | .signNonce exp nonce => some (s.happens (.signedPasskey (AdminTokens.signNonce exp nonce)))
  | .requestNonce none => some s
  | .requestNonce (some b) =>
    let (nonce, auth) := s.auth.issueNonce s.now b
    some ({ s with auth := auth }.happens (.issued nonce (s.now + s.auth.nonceTTL)))
  | .respondNonce n passKey =>
    match s.calls n with
    | .idle =>
      match passKeyNonce key (signed s.log) s.now (trimSpace passKey) with
      | none => some (s.setCall n (.returned (some .unauthenticated) ""))
      | some raw => some (s.setCall n (.consuming raw))
    | _ => none
  | .consume n =>
    match s.calls n with
    | .consuming raw =>
      match s.auth.consumeNonce s.now raw with
      | none => some (s.setCall n (.returned (some .unauthenticated) ""))
      | some auth =>
        some (({ s with auth := auth }.setCall n .minting).happens (.consumed n raw s.now))
    | _ => none
  | .mint n =>
    match s.calls n with
    | .minting =>
      let t := newToken s.now
      some ((s.setCall n (.returned none (key.v4Sign t))).happens (.minted n t))
    | _ => none
  | .call proc header =>
    some (s.happens (.called proc header s.now
      (authInterceptor key (signed s.log) s.now proc header)))

/-- A server that has just started, with any `nonceTTL` at any time. -/
def State.initial (nonceTTL now : Time) : State := ⟨⟨∅, nonceTTL⟩, now, fun _ => .idle, []⟩

def authSystem : System State Action where
  init := fun s => ∃ nonceTTL now, s = .initial nonceTTL now
  step := State.step key

/-! ## What an admin call carries -/

/-- The nonces that have been issued and not consumed since, each with its
expiry: the last entry about a nonce decides. -/
def outstanding : List Event → String → Option Time
  | [], _ => none
  | .issued nonce exp :: log, m => if nonce = m then some exp else outstanding log m
  | .consumed _ nonce _ :: log, m => if nonce = m then none else outstanding log m
  | _ :: log, m => outstanding log m

/-- Call `n` has consumed a nonce that was outstanding and not expired. -/
def HasConsumed (n : Nat) (log : List Event) : Prop :=
  ∃ nonce now before, (.consumed n nonce now :: before) <:+ log ∧
    ∃ exp, outstanding before nonce = some exp ∧ now ≤ exp

/-- `tokenStr` is what `NewToken` returned to a `RespondNonce` call that had
consumed a nonce. -/
def FromNonce (log : List Event) (tokenStr : String) : Prop :=
  ∃ n t before, (.minted n t :: before) <:+ log ∧ key.v4Sign t = tokenStr ∧ HasConsumed n before

/-- An admin call that is let through carries a token minted before. -/
def CarriesMinted : Event → List Event → Prop
  | .called proc header _ none, before =>
    proc ∈ authenticatedProcedures → FromNonce key before (bearerToken header)
  | _, _ => True

/-- The bearer token of an admin call is no unexpired passkey. -/
def NoPasskey : Event → List Event → Prop
  | .called proc header now _, before =>
    proc ∈ authenticatedProcedures →
      ∀ t ∈ passkeys before, key.v4Sign t = bearerToken header → t.notExpired now = false
  | _, _ => True

instance : ∀ e before, Decidable (NoPasskey key e before)
  | .called proc header now _, before => inferInstanceAs (Decidable
      (proc ∈ authenticatedProcedures → ∀ t ∈ passkeys before,
        key.v4Sign t = bearerToken header → t.notExpired now = false))
  | .issued _ _, _ | .signedPasskey _, _ | .consumed _ _ _, _ | .minted _ _, _ => .isTrue trivial

/-- Why an entry may stand where it does. -/
def Justified : Event → List Event → Prop
  | .issued _ _, _ => True
  | .signedPasskey t, _ => t.nonce.isSome = true
  | .consumed _ nonce now, before => ∃ exp, outstanding before nonce = some exp ∧ now ≤ exp
  | .minted n t, before => t.nonce = none ∧ HasConsumed n before
  | .called proc header now err, before =>
    err = authInterceptor key (signed before) now proc header

/-- The map holds the outstanding nonces, a call that is about to mint has
consumed one, and every entry of the log is justified. -/
structure AuthInv (s : State) : Prop where
  nonces : ∀ nonce, s.auth.nonces.lookup nonce = outstanding s.log nonce
  minting : ∀ n, s.calls n = .minting → HasConsumed n s.log
  log : Each (Justified key) s.log

namespace AdminTokensLemmas

variable {key : V4AsymmetricSecretKey}

theorem parseV4Public_eq_some {sg : List Token} {now : Time} {str : String} {t : Token}
    (h : parseV4Public key sg now str = some t) :
    t ∈ sg ∧ key.v4Sign t = str ∧ t.notExpired now = true := by
  obtain ⟨hfind, hexp⟩ := Option.filter_eq_some_iff.mp h
  exact ⟨List.mem_of_find?_eq_some hfind, by simpa using List.find?_some hfind, hexp⟩

/-- Two signed tokens with one string are one token, so what was signed is what
is found. -/
theorem parseV4Public_sign {sg : List Token} {now : Time} {t : Token} (hmem : t ∈ sg)
    (hexp : t.notExpired now = true) : parseV4Public key sg now (key.v4Sign t) = some t := by
  have hfind : sg.find? (fun t' => key.v4Sign t' = key.v4Sign t) = some t := by
    cases hf : sg.find? (fun t' => key.v4Sign t' = key.v4Sign t) with
    | none => simpa using List.find?_eq_none.mp hf t hmem
    | some t' =>
      have heq : key.v4Sign t' = key.v4Sign t := by simpa using List.find?_some hf
      rw [key.injective heq]
  unfold parseV4Public
  rw [hfind]
  simp [hexp]

theorem consumeNonce_eq_some {a b : Auth} {now : Time} {raw : String}
    (h : a.consumeNonce now raw = some b) :
    ∃ exp, a.nonces.lookup raw = some exp ∧ now ≤ exp ∧
      b = { a with nonces := a.nonces.erase raw } := by
  unfold Auth.consumeNonce at h
  split at h
  · cases h
  · next exp hl =>
    split at h
    · cases h
    · next hexp =>
      cases h
      exact ⟨exp, hl, Nat.le_of_not_lt hexp, rfl⟩

theorem consume_eq_some {s t : State} {n : Nat} (h : s.step key (.consume n) = some t) :
    ∃ raw, s.calls n = .consuming raw ∧
      ((s.auth.consumeNonce s.now raw = none ∧
        t = s.setCall n (.returned (some .unauthenticated) "")) ∨
      (∃ a, s.auth.consumeNonce s.now raw = some a ∧
        t = ({ s with auth := a }.setCall n .minting).happens (.consumed n raw s.now))) := by
  simp only [State.step] at h
  split at h
  · next raw hcall =>
    refine ⟨raw, hcall, ?_⟩
    split at h
    · next ha => cases h; exact .inl ⟨ha, rfl⟩
    · next a ha => cases h; exact .inr ⟨a, ha, rfl⟩
  · cases h

theorem mint_eq_some {s t : State} {n : Nat} (h : s.step key (.mint n) = some t) :
    s.calls n = .minting ∧
      t = (s.setCall n (.returned none (key.v4Sign (newToken s.now)))).happens
        (.minted n (newToken s.now)) := by
  simp only [State.step] at h
  split at h
  · next hcall => cases h; exact ⟨hcall, rfl⟩
  · cases h

theorem authInterceptor_eq_none {sg : List Token} {now : Time} {proc : Procedure} {header : String}
    (hproc : proc ∈ authenticatedProcedures) :
    authInterceptor key sg now proc header = none ↔
      ∃ t ∈ sg, key.v4Sign t = bearerToken header ∧ t.notExpired now = true := by
  unfold authInterceptor verifyToken
  rw [if_pos hproc]
  constructor
  · intro h
    split at h
    · next hv =>
      obtain ⟨t, ht⟩ := Option.isSome_iff_exists.mp hv
      exact ⟨t, parseV4Public_eq_some ht⟩
    · cases h
  · rintro ⟨t, hmem, hstr, hexp⟩
    rw [← hstr, parseV4Public_sign hmem hexp]
    rfl

theorem mem_passkeys {log : List Event} {t : Token} :
    t ∈ passkeys log ↔ Event.signedPasskey t ∈ log := by
  unfold passkeys
  rw [List.mem_filterMap]
  constructor
  · rintro ⟨e, hmem, he⟩
    cases e <;> cases he
    exact hmem
  · exact fun h => ⟨_, h, rfl⟩

/-- The key signs passkeys and minted tokens, and nothing else. -/
theorem mem_signed {log : List Event} {t : Token} :
    t ∈ signed log ↔ Event.signedPasskey t ∈ log ∨ ∃ n, Event.minted n t ∈ log := by
  unfold signed
  rw [List.mem_filterMap]
  constructor
  · rintro ⟨e, hmem, he⟩
    cases e <;> cases he
    · exact .inl hmem
    · exact .inr ⟨_, hmem⟩
  · rintro (h | ⟨n, h⟩)
    · exact ⟨_, h, rfl⟩
    · exact ⟨_, h, rfl⟩

theorem exists_suffix {log : List Event} {e : Event} (h : e ∈ log) :
    ∃ before, (e :: before) <:+ log := by
  obtain ⟨after, before, rfl⟩ := List.append_of_mem h
  exact ⟨before, List.suffix_append after _⟩

theorem hasConsumed_cons {n : Nat} {log : List Event} (e : Event) (h : HasConsumed n log) :
    HasConsumed n (e :: log) := by
  obtain ⟨nonce, now, before, hsuf, hexp⟩ := h
  exact ⟨nonce, now, before, hsuf.trans (List.suffix_cons e log), hexp⟩

/-! ### The invariant -/

/-- A step that neither writes to the log nor touches the nonces, and brings no
call to the point of minting. -/
theorem authInv_silent {s t : State} (hinv : AuthInv key s) (hauth : t.auth = s.auth)
    (hlog : t.log = s.log) (hcalls : ∀ n, t.calls n = .minting → s.calls n = .minting) :
    AuthInv key t where
  nonces nonce := by rw [hauth, hlog]; exact hinv.nonces nonce
  minting n hn := by rw [hlog]; exact hinv.minting n (hcalls n hn)
  log := by rw [hlog]; exact hinv.log

/-- A step that logs `e`. -/
theorem authInv_logs {s t : State} {e : Event} (hinv : AuthInv key s) (hlog : t.log = e :: s.log)
    (he : Justified key e s.log)
    (hnonces : ∀ nonce, t.auth.nonces.lookup nonce = outstanding (e :: s.log) nonce)
    (hcalls : ∀ n, t.calls n = .minting → s.calls n = .minting ∨ HasConsumed n (e :: s.log)) :
    AuthInv key t where
  nonces nonce := by rw [hlog]; exact hnonces nonce
  minting n hn := by
    rw [hlog]
    exact (hcalls n hn).elim (fun h => hasConsumed_cons e (hinv.minting n h)) id
  log := by rw [hlog]; exact ⟨he, hinv.log⟩

theorem minting_of_update {f : Nat → RespondNonce} {n m : Nat} {c : RespondNonce}
    (hc : c ≠ .minting) (h : Function.update f n c m = .minting) : f m = .minting := by
  by_cases hm : m = n
  · subst hm
    rw [Function.update_self] at h
    exact absurd h hc
  · rwa [Function.update_of_ne hm] at h

theorem authInv_requestNonce {s : State} (hinv : AuthInv key s) (nonce : String) (exp : Time) :
    AuthInv key ({ s with auth := { s.auth with nonces := s.auth.nonces.insert nonce exp } }.happens
      (.issued nonce exp)) := by
  refine authInv_logs hinv rfl trivial ?_ fun n hn => .inl hn
  intro m
  show (s.auth.nonces.insert nonce exp).lookup m = if nonce = m then some exp else _
  split
  · next hm => rw [← hm, AList.lookup_insert]
  · next hm => rw [AList.lookup_insert_ne (Ne.symm hm), hinv.nonces]

theorem authInv_consume {s : State} {a : Auth} {n : Nat} {raw : String} (hinv : AuthInv key s)
    (h : s.auth.consumeNonce s.now raw = some a) :
    AuthInv key (({ s with auth := a }.setCall n .minting).happens (.consumed n raw s.now)) := by
  obtain ⟨exp, hl, hexp, rfl⟩ := consumeNonce_eq_some h
  have hout : outstanding s.log raw = some exp := (hinv.nonces raw).symm.trans hl
  refine authInv_logs hinv rfl ⟨exp, hout, hexp⟩ ?_ ?_
  · intro m
    show (s.auth.nonces.erase raw).lookup m = if raw = m then none else _
    split
    · next hm => rw [← hm, AList.lookup_erase]
    · next hm => rw [AList.lookup_erase_ne (Ne.symm hm), hinv.nonces]
  · intro m hm
    by_cases hmn : m = n
    · subst hmn
      exact .inr ⟨raw, s.now, s.log, List.suffix_rfl, exp, hout, hexp⟩
    · refine .inl ?_
      change Function.update s.calls n .minting m = .minting at hm
      rwa [Function.update_of_ne hmn] at hm

end AdminTokensLemmas

open AdminTokensLemmas

theorem authInv_step {s t : State} {a : Action} (hinv : AuthInv key s)
    (h : s.step key a = some t) : AuthInv key t := by
  cases a with
  | tick d =>
    cases h
    exact authInv_silent hinv rfl rfl fun _ => id
  | signnonce nonce | signNonce exp nonce =>
    cases h
    exact authInv_logs hinv rfl rfl hinv.nonces fun _ => .inl
  | requestNonce b =>
    cases b with
    | none => cases h; exact hinv
    | some b => cases h; exact authInv_requestNonce hinv _ _
  | respondNonce n passKey =>
    simp only [State.step] at h
    split at h
    · split at h
      · cases h
        exact authInv_silent hinv rfl rfl fun _ => minting_of_update nofun
      · cases h
        exact authInv_silent hinv rfl rfl fun _ => minting_of_update nofun
    · cases h
  | consume n =>
    obtain ⟨raw, -, ⟨-, rfl⟩ | ⟨a, ha, rfl⟩⟩ := consume_eq_some h
    · exact authInv_silent hinv rfl rfl fun _ => minting_of_update nofun
    · exact authInv_consume hinv ha
  | mint n =>
    obtain ⟨hn, rfl⟩ := mint_eq_some h
    refine authInv_logs hinv rfl ⟨rfl, hinv.minting n hn⟩ hinv.nonces fun m hm => .inl ?_
    change Function.update s.calls n _ m = _ at hm
    exact minting_of_update (c := .returned none _) nofun hm
  | call proc header =>
    cases h
    exact authInv_logs hinv rfl rfl hinv.nonces fun _ => .inl

theorem authInv_reachable {s : State} (h : Reachable (authSystem key) s) : AuthInv key s := by
  refine h.invariant (I := AuthInv key) ?_ fun _ _ _ _ hinv _ hs => authInv_step key hinv hs
  rintro s ⟨nonceTTL, now, rfl⟩
  exact ⟨fun _ => rfl, fun _ hn => (nomatch hn), trivial⟩

/-- A minted token comes from the nonce that its call consumed. -/
theorem fromNonce_of_minted {before : List Event} (hlog : Each (Justified key) before) {n : Nat}
    {t : Token} (h : .minted n t ∈ before) : FromNonce key before (key.v4Sign t) := by
  obtain ⟨earlier, hsuf⟩ := exists_suffix h
  exact ⟨n, t, earlier, hsuf, rfl, (hlog.of_suffix hsuf).2⟩

/-- A passkey does not: it has a nonce claim, and a minted token has none. -/
theorem not_fromNonce_of_passkey {before : List Event} (hlog : Each (Justified key) before)
    {t : Token} (h : .signedPasskey t ∈ before) : ¬ FromNonce key before (key.v4Sign t) := by
  rintro ⟨n, t', earlier, hsuf, hstr, -⟩
  obtain rfl : t' = t := key.injective hstr
  obtain ⟨earlier', hsuf'⟩ := exists_suffix h
  have hnonce : t'.nonce.isSome = true := hlog.of_suffix hsuf'
  have hnone : t'.nonce = none := (hlog.of_suffix hsuf).1
  rw [hnone] at hnonce
  cases hnonce

theorem carriesMinted_iff {e : Event} {before : List Event} (hlog : Each (Justified key) before)
    (he : Justified key e before) : CarriesMinted key e before ↔ NoPasskey key e before := by
  cases e with
  | issued | signedPasskey | consumed | minted => exact Iff.rfl
  | called proc header now err =>
    by_cases hproc : proc ∈ authenticatedProcedures
    · have hcall : err = none ↔
          ∃ t ∈ signed before, key.v4Sign t = bearerToken header ∧ t.notExpired now = true := by
        rw [show err = _ from he]
        exact authInterceptor_eq_none hproc
      constructor
      · intro hminted _ t ht hstr
        rw [← Bool.not_eq_true]
        intro hexp
        have hkey := mem_passkeys.mp ht
        obtain rfl := hcall.mpr ⟨t, mem_signed.mpr (.inl hkey), hstr, hexp⟩
        exact not_fromNonce_of_passkey key hlog hkey (hstr ▸ hminted hproc)
      · intro hpass
        cases err with
        | some c => trivial
        | none =>
          intro _
          obtain ⟨t, ht, hstr, hexp⟩ := hcall.mp rfl
          rcases mem_signed.mp ht with hkey | ⟨n, hmint⟩
          · rw [hpass hproc t (mem_passkeys.mpr hkey) hstr] at hexp
            cases hexp
          · exact hstr ▸ fromNonce_of_minted key hlog hmint
    · refine iff_of_true ?_ fun h => absurd h hproc
      cases err with
      | some c => trivial
      | none => exact fun h => absurd h hproc

/-- In every run, the admin calls that `authInterceptor` lets through all carry a
token minted for a consumed nonce if and only if no admin call presents an
unexpired passkey. -/
theorem admin_minted_iff {s : State} (h : Reachable (authSystem key) s) :
    Each (CarriesMinted key) s.log ↔ Each (NoPasskey key) s.log := by
  have hlog := (authInv_reachable key h).log
  constructor
  · exact hlog.imp fun e before hb he => (carriesMinted_iff key hb he).mp
  · exact hlog.imp fun e before hb he => (carriesMinted_iff key hb he).mpr

/-! ## Runs that can be evaluated -/

def plainExp : Option Time → List Char
  | none => []
  | some exp => Nat.toDigits 10 exp

def plainNonce : Option String → List Char
  | none => []
  | some nonce => '=' :: nonce.toList

/-- The claims in the clear. -/
def plainClaims (t : Token) : List Char := plainExp t.exp ++ '.' :: plainNonce t.nonce

theorem plainExp_ne_dot (exp : Option Time) : ∀ c ∈ plainExp exp, (c != '.') = true := by
  intro c hc
  cases exp with
  | none => cases hc
  | some exp =>
    have hdigit : c.isDigit = true := Nat.isDigit_of_mem_toDigits (by decide) (by decide) hc
    rw [bne_iff_ne]
    rintro rfl
    cases hdigit

theorem plainExp_injective : Function.Injective plainExp := by
  rintro (_ | a) (_ | b) h
  · rfl
  · exact absurd h.symm Nat.toDigits_ne_nil
  · exact absurd h Nat.toDigits_ne_nil
  · have hdigits : Nat.ofDigitChars 10 (Nat.toDigits 10 a) 0 =
        Nat.ofDigitChars 10 (Nat.toDigits 10 b) 0 := congrArg (Nat.ofDigitChars 10 · 0) h
    rw [Nat.ofDigitChars_ten_toDigits, Nat.ofDigitChars_ten_toDigits] at hdigits
    rw [hdigits]

theorem plainNonce_injective : Function.Injective plainNonce := by
  rintro (_ | a) (_ | b) h
  · rfl
  · cases h
  · cases h
  · rw [String.toList_injective (List.cons.inj h).2]

/-- The digits end at the first dot. -/
theorem plainClaims_injective : Function.Injective plainClaims := by
  intro t u h
  have hexp := congrArg (List.takeWhile (· != '.')) h
  have hnonce := congrArg (List.dropWhile (· != '.')) h
  simp only [plainClaims, List.takeWhile_append_of_pos (plainExp_ne_dot _),
    List.dropWhile_append_of_pos (plainExp_ne_dot _)] at hexp hnonce
  have he : t.exp = u.exp := plainExp_injective (by simpa using hexp)
  have hn : t.nonce = u.nonce := plainNonce_injective (by simpa using hnonce)
  cases t
  cases u
  cases he
  cases hn
  rfl

/-- A key whose signatures are the claims: enough where nobody forges. -/
def plainKey : V4AsymmetricSecretKey where
  v4Sign t := String.ofList ("v4.public.".toList ++ plainClaims t)
  injective _ _ h := plainClaims_injective (List.append_cancel_left (String.ofList_injective h))

/-- The nonce of sixteen zero bytes. -/
def zeroNonce : String := hexEncodeToString (List.replicate nonceSizeBytes 0)

def zeroPasskey : String := plainKey.v4Sign (signnonce 0 zeroNonce)

/-- `signnonce` answers a nonce, and its passkey goes into the `authorization`
header of a `DeleteSessionAuth` call. -/
def passkeyRun : List Action :=
  [.requestNonce (some (Vector.replicate nonceSizeBytes 0)), .signnonce zeroNonce,
    .call .deleteSessionAuth ("Bearer " ++ zeroPasskey)]

/-- The same nonce, consumed in exchange for a token. -/
def tokenRun : List Action :=
  [.requestNonce (some (Vector.replicate nonceSizeBytes 0)), .signnonce zeroNonce,
    .respondNonce 0 zeroPasskey, .consume 0, .mint 0,
    .call .deleteSessionAuth ("Bearer " ++ plainKey.v4Sign (newToken 0))]

example : hexEncodeToString [0, 15, 160, 255] = "000fa0ff" := by decide

/-- The passkey is let through, and no token has been minted at all. -/
theorem passkey_admits :
    ¬ ∀ s, Reachable (authSystem plainKey) s → Each (CarriesMinted plainKey) s.log := by
  intro hall
  obtain ⟨s, hs, hp⟩ := Reachable.of_run (S := authSystem plainKey)
    (p := fun s => decide (s.log = [.called .deleteSessionAuth ("Bearer " ++ zeroPasskey) 0 none,
      .signedPasskey (signnonce 0 zeroNonce), .issued zeroNonce (2 * minute)]))
    passkeyRun ⟨2 * minute, 0, rfl⟩ (by decide +kernel)
  have hlog := of_decide_eq_true hp
  have heach := hall s hs
  rw [hlog] at heach
  obtain ⟨n, t, before, hsuf, -⟩ := heach.1 (by decide)
  simpa using hsuf.subset List.mem_cons_self

theorem admin_minted_exchange :
    ∃ s, Reachable (authSystem plainKey) s ∧ Each (CarriesMinted plainKey) s.log ∧
      .called .deleteSessionAuth ("Bearer " ++ plainKey.v4Sign (newToken 0)) 0 none ∈ s.log := by
  obtain ⟨s, hs, hp⟩ := Reachable.of_run (S := authSystem plainKey)
    (p := fun s => decide (s.log = [
      .called .deleteSessionAuth ("Bearer " ++ plainKey.v4Sign (newToken 0)) 0 none,
      .minted 0 (newToken 0), .consumed 0 zeroNonce 0,
      .signedPasskey (signnonce 0 zeroNonce), .issued zeroNonce (2 * minute)]))
    tokenRun ⟨2 * minute, 0, rfl⟩ (by decide +kernel)
  have hlog := of_decide_eq_true hp
  refine ⟨s, hs, (admin_minted_iff plainKey hs).mpr ?_, hlog ▸ List.mem_cons_self⟩
  rw [hlog]
  decide +kernel

end RadioJockey.AdminTokens
