import RadioJockey.AdminTokens
import RadioJockey.Lib.Base64Url
import RadioJockey.Lib.Runes

/-!
# The keys and the login (`connect/auth/auth.go`, `cmd/genkeys`, `cmd/signnonce`)

`genkeys` prints a key pair for the environment. The server reads both keys from
there, and `signnonce`, wherever it is run, the secret one.

1. `genkeys_read`: what `genkeys` prints is read back as the key pair, by both
   programs, with line breaks anywhere in the keys.
2. `login_iff`: for all texts in the two environments and all times, a login with
   `signnonce` gets through to an admin call exactly if the texts spell one key
   pair and no step comes late.
-/

namespace RadioJockey.Keys

open AdminTokens

abbrev Bytes := Base64Url.Bytes

/-- What the code uses of `go-paseto`. `verify` only looks at the signature, and
`IsPair` says which public key fits a secret one: a secret key may be made from
any bytes of the right length. -/
structure Paseto where
  SecretKey : Type
  PublicKey : Type
  secretFromBytes : Bytes → Option SecretKey
  publicFromBytes : Bytes → Option PublicKey
  secretBytes : SecretKey → Bytes
  publicBytes : PublicKey → Bytes
  publicKey : SecretKey → PublicKey
  v4Sign : SecretKey → Token → String
  verify : PublicKey → String → Option Token
  IsPair : SecretKey → PublicKey → Prop

/-- A key is made from the bytes that it exports, a token verifies under the
public keys that fit its signer's, and its text has no blanks in it. -/
structure Paseto.Lawful (P : Paseto) : Prop where
  secret : ∀ b k, P.secretFromBytes b = some k ↔ P.secretBytes k = b
  publics : ∀ b k, P.publicFromBytes b = some k ↔ P.publicBytes k = b
  verify : ∀ sk pk t u, P.verify pk (P.v4Sign sk t) = some u ↔ P.IsPair sk pk ∧ u = t
  plain : ∀ sk t, ∀ c ∈ (P.v4Sign sk t).toList, isSpace c = false

/-! ## Reading the keys -/

/-- Why a key is not read. -/
inductive KeyError
  | expectedPrefix (pre : String)
  | corruptInput
  | keyLength
  deriving DecidableEq

def decodeString (s : String) : Except KeyError Bytes :=
  (Base64Url.decode s.toList).elim (.error .corruptInput) .ok

def parsePASERK (pre paserk : String) : Except KeyError Bytes :=
  if pre.toList.isPrefixOf paserk.toList then decodeString (trimPrefix paserk pre)
  else .error (.expectedPrefix pre)

variable (P : Paseto)

def newSecretKey (b : Bytes) : Except KeyError P.SecretKey :=
  (P.secretFromBytes b).elim (.error .keyLength) .ok

def newPublicKey (b : Bytes) : Except KeyError P.PublicKey :=
  (P.publicFromBytes b).elim (.error .keyLength) .ok

/-- The nonces, as in `AdminTokens`, and the keys. -/
structure Auth extends AdminTokens.Auth where
  secretKey : P.SecretKey
  publicKey : P.PublicKey

def newAuth (privatePASERK publicPASERK : String) (nonceTTL : Time) :
    Except KeyError (Auth P) := do
  let skBytes ← parsePASERK "k4.secret." privatePASERK
  let sk ← newSecretKey P skBytes
  let pkBytes ← parsePASERK "k4.public." publicPASERK
  let pk ← newPublicKey P pkBytes
  return ⟨⟨∅, nonceTTL⟩, sk, pk⟩

/-- `cmd/genkeys`: `PRIVATE_PASETO_KEY` and `PUBLIC_PASETO_KEY`. -/
def genkeys (sk : P.SecretKey) : String × String :=
  ("k4.secret." ++ String.ofList (Base64Url.encode (P.secretBytes sk)),
    "k4.public." ++ String.ofList (Base64Url.encode (P.publicBytes (P.publicKey sk))))

/-- Why `cmd/signnonce` exits with 1. -/
inductive SignnonceError
  | usage
  | notSet
  | invalidKey (err : KeyError)
  deriving DecidableEq

/-- The key in `cmd/signnonce`, which takes it without its first part too. -/
def signingKey (paserk : String) : Except SignnonceError P.SecretKey :=
  if paserk = "" then .error .notSet
  else (decodeString (trimPrefix paserk "k4.secret.") >>= newSecretKey P).mapError .invalidKey

/-- What `cmd/signnonce` prints. -/
def signnonce (args : List String) (paserk : String) (now : Time) :
    Except SignnonceError String :=
  match args with
  | [nonce] => (signingKey P paserk).map fun sk =>
      P.v4Sign sk (AdminTokens.signnonce now nonce) ++ "\n"
  | _ => .error .usage

/-- A text without its line breaks. -/
def unbroken (s : String) : String :=
  String.ofList (s.toList.filter fun c => !Base64Url.isNewline c)

/-! ## Tokens -/

/-- The times of a login, in the order of its steps. -/
structure Times where
  issued : Time
  signed : Time
  parsed : Time
  locked : Time
  minted : Time
  used : Time

variable {P}

def parseV4Public (pk : P.PublicKey) (now : Time) (s : String) : Option Token :=
  (P.verify pk s).filter fun t => t.notExpired now

namespace Auth

variable (a : Auth P)

/-- The parser looks at the clock first, and the locked section once more. -/
def consumeNonce (parsed locked : Time) (passKey : String) : Option (Auth P) :=
  ((parseV4Public a.publicKey parsed passKey).bind Token.nonce).bind fun raw =>
    (a.toAuth.consumeNonce locked raw).map fun nonces => { a with toAuth := nonces }

def newToken (now : Time) : String := P.v4Sign a.secretKey (AdminTokens.newToken now)

def verifyToken (now : Time) (tokenStr : String) : Bool :=
  (parseV4Public a.publicKey now tokenStr).isSome

/-- The RPC, behind `stripInterceptor`. -/
def respondNonce (parsed locked minted : Time) (passKey : String) :
    Except Code (String × Auth P) :=
  match a.consumeNonce parsed locked (trimSpace passKey) with
  | none => .error .unauthenticated
  | some a' => .ok (a'.newToken minted, a')

/-- `none` lets the request through to its handler. -/
def authInterceptor (now : Time) (proc : Procedure) (header : String) : Option Code :=
  if proc ∈ authenticatedProcedures then
    if a.verifyToken now (bearerToken header) then none else some .unauthenticated
  else none

/-- A nonce is asked for, `signnonce` is run with the text `paserk` for its key,
what it prints is sent, and the answer goes into the header of an admin call. -/
def LogsIn (paserk : String) (b : Vector UInt8 nonceSizeBytes) (t : Times) : Prop :=
  ∃ passKey authToken a',
    signnonce P [(a.toAuth.issueNonce t.issued b).1] paserk t.signed = .ok passKey ∧
      { a with toAuth := (a.toAuth.issueNonce t.issued b).2 }.respondNonce t.parsed t.locked
        t.minted passKey = .ok (authToken, a') ∧
          a'.authInterceptor t.used .deleteSessionAuth ("Bearer " ++ authToken) = none

end Auth

/-! ## What is said of the texts -/

/-- The text of a key: its kind, then its bytes. -/
def IsPASERK (pre : String) (b : Bytes) (text : String) : Prop :=
  ∃ s, text = pre ++ s ∧ Base64Url.Spells b s.toList

/-- A text that `cmd/signnonce` takes for the key. -/
def IsSigningText (b : Bytes) (text : String) : Prop :=
  text ≠ "" ∧ (IsPASERK "k4.secret." b text ∨ Base64Url.Spells b text.toList)

/-- The keys of the server belong together, and the key of `signnonce` fits. -/
def KeysFit (P : Paseto) (privatePASERK publicPASERK paserk : String) : Prop :=
  ∃ sk pk signer, IsPASERK "k4.secret." (P.secretBytes sk) privatePASERK ∧
    IsPASERK "k4.public." (P.publicBytes pk) publicPASERK ∧
    IsSigningText (P.secretBytes signer) paserk ∧ P.IsPair sk pk ∧ P.IsPair signer pk

/-- An `exp` claim has no fraction of a second. -/
def wholeSeconds (t : Time) : Time := t - t % second

def Times.InTime (t : Times) (nonceTTL : Time) : Prop :=
  t.parsed ≤ wholeSeconds (t.signed + 2 * minute) ∧ t.locked ≤ t.issued + nonceTTL ∧
    t.used ≤ wholeSeconds (t.minted + tokenTTL)

namespace KeysLemmas

/-! ## The texts -/

theorem digitChar_ne_dot : ∀ d, Base64Url.digitChar d ≠ '.' := by decide +kernel

theorem bind_eq_ok {ε α β : Type} {x : Except ε α} {f : α → Except ε β} {b : β} :
    x >>= f = .ok b ↔ ∃ a, x = .ok a ∧ f a = .ok b := by
  cases x <;> simp [bind, Except.bind]

theorem decodeString_eq_ok {s : String} {b : Bytes} :
    decodeString s = .ok b ↔ Base64Url.Spells b s.toList := by
  rw [← Base64Url.decode_eq_some_iff, decodeString]
  cases Base64Url.decode s.toList <;> simp

theorem eq_append_of_isPrefixOf {pre text : String}
    (h : pre.toList.isPrefixOf text.toList = true) : ∃ s, text = pre ++ s := by
  obtain ⟨cs, hcs⟩ := List.isPrefixOf_iff_prefix.mp h
  refine ⟨String.ofList cs, String.toList_injective ?_⟩
  rw [String.toList_append, String.toList_ofList, hcs]

theorem isPrefixOf_append (pre s : String) :
    pre.toList.isPrefixOf (pre ++ s).toList = true := by
  rw [String.toList_append]
  exact List.isPrefixOf_iff_prefix.mpr (List.prefix_append _ _)

theorem parsePASERK_eq_ok {pre paserk : String} {b : Bytes} :
    parsePASERK pre paserk = .ok b ↔ IsPASERK pre b paserk := by
  rw [parsePASERK]
  constructor
  · intro h
    split at h
    · next hpre =>
      obtain ⟨s, rfl⟩ := eq_append_of_isPrefixOf hpre
      rw [trimPrefix_append] at h
      exact ⟨s, rfl, decodeString_eq_ok.mp h⟩
    · cases h
  · rintro ⟨s, rfl, hs⟩
    rw [if_pos (isPrefixOf_append pre s), trimPrefix_append]
    exact decodeString_eq_ok.mpr hs

/-- There is no dot in a text without its first part. -/
theorem spells_trimPrefix {b : Bytes} {paserk : String} :
    Base64Url.Spells b (trimPrefix paserk "k4.secret.").toList ↔
      IsPASERK "k4.secret." b paserk ∨ Base64Url.Spells b paserk.toList := by
  cases hpre : "k4.secret.".toList.isPrefixOf paserk.toList with
  | true =>
    obtain ⟨s, rfl⟩ := eq_append_of_isPrefixOf hpre
    rw [trimPrefix_append]
    constructor
    · exact fun hs => .inl ⟨s, rfl, hs⟩
    · rintro (⟨s', heq, hs⟩ | hs)
      · rwa [(String.append_right_inj _).mp heq]
      · have hdot : '.' ∈ ("k4.secret." ++ s).toList := by
          rw [String.toList_append]
          exact List.mem_append_left _ (by decide)
        rcases Base64Url.char_of_spells hs hdot with hline | ⟨d, hd⟩
        · cases hline
        · exact absurd hd (digitChar_ne_dot d)
  | false =>
    rw [trimPrefix, hpre, if_neg Bool.false_ne_true]
    refine (or_iff_right ?_).symm
    rintro ⟨s, rfl, -⟩
    rw [isPrefixOf_append] at hpre
    cases hpre

theorem isPASERK_of_unbroken {pre s : String} {b : Bytes}
    (h : pre ++ unbroken s = pre ++ String.ofList (Base64Url.encode b)) :
    IsPASERK pre b (pre ++ s) := by
  have hs : s.toList.filter (fun c => !Base64Url.isNewline c) = Base64Url.encode b :=
    String.ofList_injective ((String.append_right_inj _).mp h)
  exact ⟨s, rfl, 0, Base64Url.spare_pos b, hs⟩

variable {P : Paseto}

theorem respondNonce_eq_ok {a a' : Auth P} {parsed locked minted : Time}
    {passKey authToken : String} :
    a.respondNonce parsed locked minted passKey = .ok (authToken, a') ↔
      a.consumeNonce parsed locked (trimSpace passKey) = some a' ∧
        authToken = a'.newToken minted := by
  rw [Auth.respondNonce]
  cases a.consumeNonce parsed locked (trimSpace passKey) with
  | none => simp
  | some a'' =>
    simp only [Except.ok.injEq, Prod.mk.injEq, Option.some.injEq]
    constructor
    · rintro ⟨rfl, rfl⟩
      exact ⟨rfl, rfl⟩
    · rintro ⟨rfl, rfl⟩
      exact ⟨rfl, rfl⟩

theorem signnonce_eq_ok {nonce paserk passKey : String} {now : Time} :
    signnonce P [nonce] paserk now = .ok passKey ↔ ∃ signer, signingKey P paserk = .ok signer ∧
      passKey = P.v4Sign signer (AdminTokens.signnonce now nonce) ++ "\n" := by
  rw [signnonce]
  cases signingKey P paserk <;> simp [Except.map, eq_comm]

section Lawful

variable (hP : P.Lawful)
include hP

theorem newSecretKey_eq_ok {b : Bytes} {sk : P.SecretKey} :
    newSecretKey P b = .ok sk ↔ P.secretBytes sk = b := by
  rw [← hP.secret, newSecretKey]
  cases P.secretFromBytes b <;> simp

theorem newPublicKey_eq_ok {b : Bytes} {pk : P.PublicKey} :
    newPublicKey P b = .ok pk ↔ P.publicBytes pk = b := by
  rw [← hP.publics, newPublicKey]
  cases P.publicFromBytes b <;> simp

theorem newAuth_eq_ok {privatePASERK publicPASERK : String} {nonceTTL : Time} {a : Auth P} :
    newAuth P privatePASERK publicPASERK nonceTTL = .ok a ↔
      IsPASERK "k4.secret." (P.secretBytes a.secretKey) privatePASERK ∧
        IsPASERK "k4.public." (P.publicBytes a.publicKey) publicPASERK ∧
          a.toAuth = ⟨∅, nonceTTL⟩ := by
  simp only [newAuth, bind_eq_ok, newSecretKey_eq_ok hP, newPublicKey_eq_ok hP, parsePASERK_eq_ok]
  constructor
  · rintro ⟨_, hsk, sk, rfl, _, hpk, pk, rfl, ha⟩
    cases ha
    exact ⟨hsk, hpk, rfl⟩
  · rintro ⟨hsk, hpk, hnonces⟩
    refine ⟨_, hsk, a.secretKey, rfl, _, hpk, a.publicKey, rfl, ?_⟩
    rw [← hnonces]
    rfl

theorem signingKey_eq_ok {paserk : String} {sk : P.SecretKey} :
    signingKey P paserk = .ok sk ↔ IsSigningText (P.secretBytes sk) paserk := by
  have hdecode : (decodeString (trimPrefix paserk "k4.secret.") >>= newSecretKey P) = .ok sk ↔
      IsPASERK "k4.secret." (P.secretBytes sk) paserk ∨
        Base64Url.Spells (P.secretBytes sk) paserk.toList := by
    rw [← spells_trimPrefix]
    simp only [bind_eq_ok, decodeString_eq_ok, newSecretKey_eq_ok hP, exists_eq_right']
  rw [signingKey, IsSigningText, ← hdecode]
  split
  · next hempty => exact iff_of_false (fun h => nomatch h) fun h => h.1 hempty
  · next hne =>
    rw [and_iff_right hne]
    cases decodeString (trimPrefix paserk "k4.secret.") >>= newSecretKey P <;>
      simp [Except.mapError]

/-! ## The login -/

theorem parseV4Public_sign {sk : P.SecretKey} {pk : P.PublicKey} {now : Time} {t u : Token} :
    parseV4Public pk now (P.v4Sign sk t) = some u ↔
      P.IsPair sk pk ∧ u = t ∧ t.notExpired now = true := by
  rw [parseV4Public, Option.filter_eq_some_iff, hP.verify, and_assoc]
  constructor
  · rintro ⟨hpair, rfl, hexp⟩
    exact ⟨hpair, rfl, hexp⟩
  · rintro ⟨hpair, rfl, hexp⟩
    exact ⟨hpair, rfl, hexp⟩

theorem verifyToken_sign {a : Auth P} {sk : P.SecretKey} {now : Time} {t : Token} :
    a.verifyToken now (P.v4Sign sk t) = true ↔
      P.IsPair sk a.publicKey ∧ t.notExpired now = true := by
  rw [Auth.verifyToken, Option.isSome_iff_exists]
  simp only [parseV4Public_sign hP]
  constructor
  · rintro ⟨u, hpair, -, hexp⟩
    exact ⟨hpair, hexp⟩
  · exact fun ⟨hpair, hexp⟩ => ⟨t, hpair, rfl, hexp⟩

/-- The nonce in the passkey was issued for `exp`. -/
theorem consumeNonce_sign {a a' : Auth P} {sk : P.SecretKey} {parsed locked exp : Time}
    {t : Token} {nonce : String} (ht : t.nonce = some nonce)
    (hnonce : a.nonces.lookup nonce = some exp) :
    a.consumeNonce parsed locked (P.v4Sign sk t) = some a' ↔
      (P.IsPair sk a.publicKey ∧ t.notExpired parsed = true) ∧ locked ≤ exp ∧
        a' = { a with nonces := a.nonces.erase nonce } := by
  have hraw (raw : String) : (parseV4Public a.publicKey parsed (P.v4Sign sk t)).bind Token.nonce =
      some raw ↔ (P.IsPair sk a.publicKey ∧ t.notExpired parsed = true) ∧ raw = nonce := by
    simp only [Option.bind_eq_some_iff, parseV4Public_sign hP]
    constructor
    · rintro ⟨u, ⟨hpair, rfl, hexp⟩, hu⟩
      exact ⟨⟨hpair, hexp⟩, Option.some_inj.mp (hu.symm.trans ht)⟩
    · rintro ⟨⟨hpair, hexp⟩, rfl⟩
      exact ⟨t, ⟨hpair, rfl, hexp⟩, ht⟩
  rw [Auth.consumeNonce, Option.bind_eq_some_iff]
  simp only [hraw, AdminTokens.Auth.consumeNonce]
  constructor
  · rintro ⟨_, ⟨hpair, rfl⟩, h⟩
    rw [hnonce] at h
    dsimp only at h
    split at h
    · cases h
    · next hexp =>
      cases h
      exact ⟨hpair, Nat.le_of_not_lt hexp, rfl⟩
  · rintro ⟨hpair, hexp, rfl⟩
    refine ⟨nonce, ⟨hpair, rfl⟩, ?_⟩
    rw [hnonce]
    dsimp only
    rw [if_neg (Nat.not_lt.mpr hexp)]
    rfl

theorem trimSpace_sign (sk : P.SecretKey) (t : Token) :
    trimSpace (P.v4Sign sk t ++ "\n") = P.v4Sign sk t := by
  have hline := trimSpace_line (hP.plain sk t)
  rwa [String.ofList_toList] at hline

theorem authInterceptor_sign {a : Auth P} {sk : P.SecretKey} {now : Time} {t : Token} :
    a.authInterceptor now .deleteSessionAuth ("Bearer " ++ P.v4Sign sk t) = none ↔
      P.IsPair sk a.publicKey ∧ t.notExpired now = true := by
  rw [← verifyToken_sign hP, Auth.authInterceptor, if_pos (by decide), bearerToken,
    trimPrefix_append]
  cases a.verifyToken now (P.v4Sign sk t) <;> simp

theorem logsIn_iff {a : Auth P} {paserk : String} {b : Vector UInt8 nonceSizeBytes}
    {t : Times} : a.LogsIn paserk b t ↔
      (∃ signer, signingKey P paserk = .ok signer ∧ P.IsPair signer a.publicKey) ∧
        P.IsPair a.secretKey a.publicKey ∧ t.InTime a.nonceTTL := by
  constructor
  · rintro ⟨passKey, authToken, a', hsign, hrespond, hcall⟩
    obtain ⟨signer, hsigner, rfl⟩ := signnonce_eq_ok.mp hsign
    obtain ⟨hconsume, rfl⟩ := respondNonce_eq_ok.mp hrespond
    rw [trimSpace_sign hP] at hconsume
    obtain ⟨⟨hpair, hparsed⟩, hlocked, rfl⟩ :=
      (consumeNonce_sign hP rfl (AList.lookup_insert _)).mp hconsume
    obtain ⟨hown, hused⟩ := (authInterceptor_sign hP).mp hcall
    exact ⟨⟨signer, hsigner, hpair⟩, hown, of_decide_eq_true hparsed, hlocked,
      of_decide_eq_true hused⟩
  · rintro ⟨⟨signer, hsigner, hpair⟩, hown, hparsed, hlocked, hused⟩
    have hfresh : (AdminTokens.signnonce t.signed (a.issueNonce t.issued b).1).notExpired t.parsed =
        true := decide_eq_true hparsed
    have hconsume := (consumeNonce_sign hP (a := { a with toAuth := (a.issueNonce t.issued b).2 })
      rfl (AList.lookup_insert _)).mpr ⟨⟨hpair, hfresh⟩, hlocked, rfl⟩
    rw [← trimSpace_sign hP] at hconsume
    exact ⟨_, _, _, signnonce_eq_ok.mpr ⟨signer, hsigner, rfl⟩,
      respondNonce_eq_ok.mpr ⟨hconsume, rfl⟩,
      (authInterceptor_sign hP).mpr ⟨hown, decide_eq_true hused⟩⟩

end Lawful

end KeysLemmas

open KeysLemmas

variable {P : Paseto}

/-- For every key pair, and line breaks anywhere in the bytes. -/
theorem genkeys_read (hP : P.Lawful) (sk : P.SecretKey) (nonceTTL : Time) {s p : String}
    (hgen : ("k4.secret." ++ unbroken s, "k4.public." ++ unbroken p) = genkeys P sk) :
    newAuth P ("k4.secret." ++ s) ("k4.public." ++ p) nonceTTL =
        .ok ⟨⟨∅, nonceTTL⟩, sk, P.publicKey sk⟩ ∧
      signingKey P ("k4.secret." ++ s) = .ok sk := by
  obtain ⟨hs, hp⟩ := Prod.mk.inj hgen
  have hsecret := isPASERK_of_unbroken hs
  have hpublic := isPASERK_of_unbroken hp
  have hne : "k4.secret." ++ s ≠ "" := by
    intro hempty
    have hlength := congrArg String.length hempty
    rw [String.length_append] at hlength
    exact absurd hlength (by simp)
  exact ⟨(newAuth_eq_ok hP).mpr ⟨hsecret, hpublic, rfl⟩,
    (signingKey_eq_ok hP).mpr ⟨hne, .inl hsecret⟩⟩

/-- For all texts in the two environments, and all times. -/
theorem login_iff (hP : P.Lawful) (privatePASERK publicPASERK paserk : String) (nonceTTL : Time)
    (b : Vector UInt8 nonceSizeBytes) (t : Times) :
    (∃ a, newAuth P privatePASERK publicPASERK nonceTTL = .ok a ∧ a.LogsIn paserk b t) ↔
      KeysFit P privatePASERK publicPASERK paserk ∧ t.InTime nonceTTL := by
  constructor
  · rintro ⟨a, ha, hlogs⟩
    obtain ⟨hsk, hpk, hnonces⟩ := (newAuth_eq_ok hP).mp ha
    obtain ⟨⟨signer, hsigner, hpair⟩, hown, htime⟩ := (logsIn_iff hP).mp hlogs
    rw [hnonces] at htime
    exact ⟨⟨a.secretKey, a.publicKey, signer, hsk, hpk, (signingKey_eq_ok hP).mp hsigner, hown,
      hpair⟩, htime⟩
  · rintro ⟨⟨sk, pk, signer, hsk, hpk, hsigner, hown, hpair⟩, htime⟩
    exact ⟨⟨⟨∅, nonceTTL⟩, sk, pk⟩, (newAuth_eq_ok hP).mpr ⟨hsk, hpk, rfl⟩,
      (logsIn_iff hP).mpr ⟨⟨signer, (signingKey_eq_ok hP).mpr hsigner, hpair⟩, hown, htime⟩⟩

/-! ## Keys that can be evaluated -/

def readExp (cs : List Char) : Option Time :=
  if cs = [] then none else some (Nat.ofDigitChars 10 cs 0)

def readNonce : List Char → Option String
  | '.' :: '=' :: cs => some (String.ofList cs)
  | _ => none

def readClaims (cs : List Char) : Token :=
  ⟨readExp (cs.takeWhile (· != '.')), readNonce (cs.dropWhile (· != '.'))⟩

theorem readClaims_plainClaims (t : Token) : readClaims (plainClaims t) = t := by
  obtain ⟨exp, nonce⟩ := t
  have htake : (plainClaims ⟨exp, nonce⟩).takeWhile (· != '.') = plainExp exp := by
    simp [plainClaims, List.takeWhile_append_of_pos (plainExp_ne_dot exp)]
  have hdrop : (plainClaims ⟨exp, nonce⟩).dropWhile (· != '.') = '.' :: plainNonce nonce := by
    simp [plainClaims, List.dropWhile_append_of_pos (plainExp_ne_dot exp)]
  have hexp : readExp (plainExp exp) = exp := by
    cases exp with
    | none => rfl
    | some exp =>
      rw [readExp, plainExp, if_neg Nat.toDigits_ne_nil, Nat.ofDigitChars_ten_toDigits]
  have hnonce : readNonce ('.' :: plainNonce nonce) = nonce := by
    cases nonce with
    | none => rfl
    | some nonce => exact congrArg some String.ofList_toList
  rw [readClaims, htake, hdrop, hexp, hnonce]

/-- Keys with the public half at the end of the secret one, and that half in the
place of a signature. -/
def plainPaseto : Paseto where
  SecretKey := { b : Bytes // b.length = 64 }
  PublicKey := { b : Bytes // b.length = 32 }
  secretFromBytes b := if h : b.length = 64 then some ⟨b, h⟩ else none
  publicFromBytes b := if h : b.length = 32 then some ⟨b, h⟩ else none
  secretBytes sk := sk.val
  publicBytes pk := pk.val
  publicKey sk := ⟨sk.val.drop 32, by rw [List.length_drop, sk.property]⟩
  v4Sign sk t := String.ofList ("v4.public.".toList ++
    Base64Url.encode (sk.val.drop 32 ++ Runes.encode (plainClaims t)))
  verify pk s := (Base64Url.decode (s.toList.drop 10)).bind fun b =>
    if b.take 32 = pk.val then some (readClaims (Runes.runes (b.drop 32))) else none
  IsPair sk pk := sk.val.drop 32 = pk.val

theorem digitChar_not_space : ∀ d, isSpace (Base64Url.digitChar d) = false := by decide +kernel

theorem dite_eq_some_iff {n : Nat} {b : Bytes} {k : { b : Bytes // b.length = n }} :
    (if h : b.length = n then some ⟨b, h⟩ else none) = some k ↔ k.val = b := by
  obtain ⟨b', rfl⟩ := k
  constructor
  · intro h
    split at h
    · cases h
      rfl
    · cases h
  · rintro rfl
    exact dif_pos rfl

theorem plainPaseto_lawful : plainPaseto.Lawful where
  secret _ _ := dite_eq_some_iff
  publics _ _ := dite_eq_some_iff
  verify sk pk t u := by
    have hlength : (sk.val.drop 32).length = 32 := by rw [List.length_drop, sk.property]
    show ((Base64Url.decode ((String.ofList _).toList.drop 10)).bind _) = some u ↔ _
    rw [String.toList_ofList, List.drop_left' (by decide), Base64Url.decode_encode,
      Option.bind_some, List.take_left' hlength, List.drop_left' hlength, Runes.runes_encode,
      readClaims_plainClaims]
    constructor
    · intro h
      obtain ⟨hpair, hu⟩ := Option.ite_none_right_eq_some.mp h
      exact ⟨hpair, (Option.some_inj.mp hu).symm⟩
    · rintro ⟨hpair, rfl⟩
      exact if_pos hpair
  plain sk t c hc := by
    have hmem : c ∈ "v4.public.".toList ++ Base64Url.encode _ :=
      String.toList_ofList ▸ hc
    rcases List.mem_append.mp hmem with hc | hc
    · exact of_decide_eq_true (List.all_eq_true.mp (by decide +kernel :
        "v4.public.".toList.all (fun c => decide (isSpace c = false)) = true) c hc)
    · obtain ⟨d, -, rfl⟩ := List.mem_map.mp hc
      exact digitChar_not_space d

def zeroKey : plainPaseto.SecretKey := ⟨List.replicate 64 0, by decide⟩

/-- A line break after each key. -/
theorem genkeys_read_zeroKey :
    newAuth plainPaseto
        ("k4.secret." ++ String.ofList (Base64Url.encode (List.replicate 64 0) ++ ['\n']))
        ("k4.public." ++ String.ofList (Base64Url.encode (List.replicate 32 0) ++ ['\n']))
        (2 * minute) =
      .ok ⟨⟨∅, 2 * minute⟩, zeroKey, plainPaseto.publicKey zeroKey⟩ ∧
    signingKey plainPaseto
        ("k4.secret." ++ String.ofList (Base64Url.encode (List.replicate 64 0) ++ ['\n'])) =
      .ok zeroKey :=
  genkeys_read plainPaseto_lawful zeroKey (2 * minute) (by decide +kernel)

/-- The nonce is answered in the last moment, with the key without its first part. -/
theorem login_iff_zeroKey :
    ∃ a, newAuth plainPaseto (genkeys plainPaseto zeroKey).1 (genkeys plainPaseto zeroKey).2
        (2 * minute) = .ok a ∧
      a.LogsIn (String.ofList (Base64Url.encode (List.replicate 64 0)))
        (Vector.replicate nonceSizeBytes 0)
        ⟨0, second, 2 * minute, 2 * minute, 2 * minute, 24 * hour⟩ := by
  refine (login_iff plainPaseto_lawful _ _ _ _ _ _).mpr
    ⟨⟨zeroKey, plainPaseto.publicKey zeroKey, zeroKey, ⟨_, rfl, ?_⟩, ⟨_, rfl, ?_⟩,
      ⟨by decide +kernel, .inr ?_⟩, rfl, rfl⟩, by decide, by decide, by decide⟩
  all_goals
    rw [String.toList_ofList]
    exact Base64Url.spells_encode _

end RadioJockey.Keys
