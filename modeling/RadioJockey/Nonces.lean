import RadioJockey.AdminTokens

/-!
# Nonces (`connect/auth/auth.go`, `connect/rpc.go`)

`ConsumeNonce` looks a nonce up, tests its expiry and deletes it under one lock.
What the passkey says is left to a verifier that may answer anything.

* `single_use`: in every run, a nonce is accepted at most as often as it was
  issued, and no later than `nonceTTL` after its latest issue. Every token that
  `RespondNonce` hands out has an acceptance of its own, and a call that is
  refused leaves the nonces as they are.
-/

namespace RadioJockey.AdminTokens

open Transition AdminTokensLemmas

variable (key : V4AsymmetricSecretKey)

/-- The nonce claim of a passkey, if it verifies: of what was signed, when it is
asked, and the string. -/
abbrev Verifier := List Token → Time → String → Option String

/-- The server with `verify` in the place of the PASETO parser. -/
def State.stepWith (verify : Verifier) (s : State) : Action → Option State
  | .respondNonce n passKey =>
    match s.calls n with
    | .idle =>
      match verify (signed s.log) s.now (trimSpace passKey) with
      | none => some (s.setCall n (.returned (some .unauthenticated) ""))
      | some raw => some (s.setCall n (.consuming raw))
    | _ => none
  | a => s.step key a

def nonceSystem (verify : Verifier) : System State Action where
  init := (authSystem key).init
  step := State.stepWith key verify

/-- The parser is one such verifier. -/
theorem nonceSystem_passKeyNonce : nonceSystem key (passKeyNonce key) = authSystem key := by
  unfold nonceSystem authSystem
  congr
  funext s a
  cases a <;> rfl

def Action.verifies : Action → Bool
  | .respondNonce _ _ => true
  | _ => false

/-- All other steps are the same. -/
theorem step_of_stepWith {verify : Verifier} {s t : State} {a : Action}
    (ha : a.verifies = false) (h : s.stepWith key verify a = some t) : s.step key a = some t := by
  cases a with
  | respondNonce => cases ha
  | tick | signnonce | signNonce | requestNonce | consume | mint | call => exact h

/-! ## What the log says about a nonce -/

def Event.issuedAt (nonceTTL : Time) (nonce : String) : Event → Option Time
  | .issued m exp => if m = nonce then some (exp - nonceTTL) else none
  | _ => none

def Event.acceptedBy (nonce : String) : Event → Option Nat
  | .consumed n m _ => if m = nonce then some n else none
  | _ => none

/-- When a nonce was issued, newest first. An issue logs the expiry. -/
def issues (nonceTTL : Time) (log : List Event) (nonce : String) : List Time :=
  log.filterMap (Event.issuedAt nonceTTL nonce)

/-- The calls that were accepted for a nonce. -/
def acceptances (log : List Event) (nonce : String) : List Nat :=
  log.filterMap (Event.acceptedBy nonce)

def Event.accepted : Event → Option Nat
  | .consumed n _ _ => some n
  | _ => none

/-- All accepted calls. -/
def acceptedCalls (log : List Event) : List Nat := log.filterMap Event.accepted

/-- The call comes in time after the latest issue of its nonce. -/
def InTime (nonceTTL : Time) : Event → List Event → Prop
  | .consumed _ nonce now, before =>
    ∃ issuedAt ∈ (issues nonceTTL before nonce).head?, now ≤ issuedAt + nonceTTL
  | _, _ => True

structure SingleUse (verify : Verifier) (s : State) : Prop where
  count : ∀ nonce, (acceptances s.log nonce).length ≤ (issues s.auth.nonceTTL s.log nonce).length
  inTime : Each (InTime s.auth.nonceTTL) s.log
  /-- No call is accepted twice, and a call that returned a token is accepted. -/
  distinct : (acceptedCalls s.log).Nodup
  accepted : ∀ n authToken, s.calls n = .returned none authToken → n ∈ acceptedCalls s.log
  /-- A step of a call that does not accept its nonce. -/
  refused : ∀ a t n, s.stepWith key verify a = some t → t.calls n ≠ s.calls n →
    t.calls n ≠ .minting → t.auth = s.auth

/-! ## One log -/

namespace NoncesLemmas

theorem issues_cons_none {e : Event} {nonceTTL : Time} {nonce : String}
    (h : e.issuedAt nonceTTL nonce = none) (log : List Event) :
    issues nonceTTL (e :: log) nonce = issues nonceTTL log nonce := List.filterMap_cons_none h

theorem acceptances_cons_none {e : Event} {nonce : String} (h : e.acceptedBy nonce = none)
    (log : List Event) : acceptances (e :: log) nonce = acceptances log nonce :=
  List.filterMap_cons_none h

theorem issues_cons_issued (nonceTTL : Time) (nonce : String) (exp : Time) (log : List Event) :
    issues nonceTTL (.issued nonce exp :: log) nonce =
      (exp - nonceTTL) :: issues nonceTTL log nonce := List.filterMap_cons_some (if_pos rfl)

theorem acceptances_cons_consumed (n : Nat) (nonce : String) (now : Time) (log : List Event) :
    acceptances (.consumed n nonce now :: log) nonce = n :: acceptances log nonce :=
  List.filterMap_cons_some (if_pos rfl)

/-- An outstanding nonce has the expiry of its latest issue. -/
theorem issues_of_outstanding (nonceTTL : Time) {nonce : String} {log : List Event} {exp : Time}
    (h : outstanding log nonce = some exp) :
    .issued nonce exp ∈ log ∧ (issues nonceTTL log nonce).head? = some (exp - nonceTTL) := by
  induction log with
  | nil => cases h
  | cons e log ih =>
    have older : outstanding log nonce = some exp → e.issuedAt nonceTTL nonce = none →
        .issued nonce exp ∈ e :: log ∧
          (issues nonceTTL (e :: log) nonce).head? = some (exp - nonceTTL) := fun h he => by
      obtain ⟨hmem, hhead⟩ := ih h
      exact ⟨List.mem_cons_of_mem _ hmem, issues_cons_none he log ▸ hhead⟩
    cases e with
    | issued m exp' =>
      simp only [outstanding] at h
      split at h
      · next hm =>
        cases h
        cases hm
        rw [issues_cons_issued]
        exact ⟨List.mem_cons_self, rfl⟩
      · next hm => exact older h (if_neg hm)
    | consumed n m now =>
      simp only [outstanding] at h
      split at h
      · cases h
      · exact older h rfl
    | signedPasskey | minted | called => exact older h rfl

/-- Each acceptance has an issue to itself, and an outstanding nonce has one
left. -/
theorem acceptances_add_outstanding_le {nonceTTL : Time} (nonce : String) {log : List Event}
    (h : Each (Justified key) log) :
    (acceptances log nonce).length + (if (outstanding log nonce).isSome then 1 else 0) ≤
      (issues nonceTTL log nonce).length := by
  induction log with
  | nil => exact Nat.le_refl _
  | cons e log ih =>
    obtain ⟨he, hlog⟩ := h
    have hle := ih hlog
    cases e with
    | issued m exp =>
      rw [acceptances_cons_none rfl]
      rcases eq_or_ne m nonce with rfl | hne
      · rw [issues_cons_issued, outstanding, if_pos rfl]
        simp only [Option.isSome_some, if_true, List.length_cons]
        omega
      · have hother : (Event.issued m exp).issuedAt nonceTTL nonce = none := if_neg hne
        rwa [issues_cons_none hother, outstanding, if_neg hne]
    | consumed n m now =>
      rw [issues_cons_none rfl]
      rcases eq_or_ne m nonce with rfl | hne
      · obtain ⟨exp, hexp, -⟩ := he
        rw [acceptances_cons_consumed, outstanding, if_pos rfl]
        rw [hexp] at hle
        exact hle
      · have hother : (Event.consumed n m now).acceptedBy nonce = none := if_neg hne
        rwa [acceptances_cons_none hother, outstanding, if_neg hne]
    | signedPasskey | minted | called => exact hle

theorem inTime_of_justified {nonceTTL : Time} {log : List Event}
    (hissued : ∀ nonce exp, .issued nonce exp ∈ log → nonceTTL ≤ exp)
    (h : Each (Justified key) log) : Each (InTime nonceTTL) log := by
  induction log with
  | nil => trivial
  | cons e log ih =>
    refine ⟨?_, ih (fun nonce exp hmem => hissued nonce exp (List.mem_cons_of_mem _ hmem)) h.2⟩
    cases e with
    | consumed n nonce now =>
      obtain ⟨exp, hout, hle⟩ := h.1
      obtain ⟨hmem, hhead⟩ := issues_of_outstanding nonceTTL hout
      have httl := hissued nonce exp (List.mem_cons_of_mem _ hmem)
      refine ⟨exp - nonceTTL, hhead, ?_⟩
      rwa [Nat.sub_add_cancel httl]
    | issued | signedPasskey | minted | called => trivial

end NoncesLemmas

/-! ## The invariant -/

/-- The call has been accepted. -/
def RespondNonce.accepted : RespondNonce → Bool
  | .minting | .returned none _ => true
  | _ => false

structure NonceInv (s : State) : Prop where
  auth : AuthInv key s
  issued : ∀ nonce exp, .issued nonce exp ∈ s.log → s.auth.nonceTTL ≤ exp
  distinct : (acceptedCalls s.log).Nodup
  accepted : ∀ n, n ∈ acceptedCalls s.log ↔ (s.calls n).accepted = true

namespace NoncesLemmas

variable {key : V4AsymmetricSecretKey}

theorem accepted_update {s : State} {n : Nat} {c : RespondNonce}
    (h : c.accepted = (s.calls n).accepted) (m : Nat) :
    (Function.update s.calls n c m).accepted = (s.calls m).accepted := by
  rcases eq_or_ne m n with rfl | hne
  · rw [Function.update_self, h]
  · rw [Function.update_of_ne hne]

/-- What the verifier says decides between the two ways to go on. -/
theorem respondNonce_eq_some {verify : Verifier} {s t : State} {n : Nat} {passKey : String}
    (h : s.stepWith key verify (.respondNonce n passKey) = some t) :
    s.calls n = .idle ∧
      (t = s.setCall n (.returned (some .unauthenticated) "") ∨
      ∃ raw, t = s.setCall n (.consuming raw)) := by
  simp only [State.stepWith] at h
  split at h
  · next hcall =>
    refine ⟨hcall, ?_⟩
    split at h
    · cases h; exact .inl rfl
    · next raw _ => cases h; exact .inr ⟨raw, rfl⟩
  · cases h

/-- A step that neither issues nor accepts. -/
theorem nonceInv_frame {s t : State} (hinv : NonceInv key s) (hauth : AuthInv key t)
    (httl : t.auth.nonceTTL = s.auth.nonceTTL)
    (hlog : t.log = s.log ∨ ∃ e, t.log = e :: s.log ∧ e.accepted = none ∧
      ∀ nonce exp, e = .issued nonce exp → s.auth.nonceTTL ≤ exp)
    (hcalls : ∀ m, (t.calls m).accepted = (s.calls m).accepted) : NonceInv key t := by
  have hsame : acceptedCalls t.log = acceptedCalls s.log := by
    rcases hlog with hlog | ⟨e, hlog, he, -⟩
    · rw [hlog]
    · rw [hlog]
      exact List.filterMap_cons_none he
  refine ⟨hauth, fun nonce exp hmem => ?_, hsame ▸ hinv.distinct, fun n => ?_⟩
  · rw [httl]
    rcases hlog with hlog | ⟨e, hlog, -, he⟩
    · exact hinv.issued nonce exp (hlog ▸ hmem)
    · rw [hlog] at hmem
      exact (List.mem_cons.mp hmem).elim (fun h => he nonce exp h.symm) (hinv.issued nonce exp)
  · rw [hsame, hcalls]
    exact hinv.accepted n

theorem nonceInv_consume {s : State} {a : Auth} {n : Nat} {raw : String} (hinv : NonceInv key s)
    (hcall : s.calls n = .consuming raw) (h : s.auth.consumeNonce s.now raw = some a) :
    NonceInv key (({ s with auth := a }.setCall n .minting).happens (.consumed n raw s.now)) where
  auth := authInv_consume hinv.auth h
  issued := by
    obtain ⟨-, -, -, rfl⟩ := consumeNonce_eq_some h
    intro nonce exp hmem
    exact hinv.issued nonce exp ((List.mem_cons.mp hmem).resolve_left nofun)
  distinct := by
    refine List.nodup_cons.mpr ⟨fun hmem => ?_, hinv.distinct⟩
    have := (hinv.accepted n).mp hmem
    rw [hcall] at this
    cases this
  accepted m := by
    show m ∈ n :: acceptedCalls s.log ↔ (Function.update s.calls n .minting m).accepted = true
    rcases eq_or_ne m n with rfl | hne
    · rw [Function.update_self]
      exact iff_of_true List.mem_cons_self rfl
    · rw [Function.update_of_ne hne, List.mem_cons, ← hinv.accepted m]
      exact or_iff_right hne

end NoncesLemmas

open NoncesLemmas

theorem nonceInv_step {verify : Verifier} {s t : State} {a : Action} (hinv : NonceInv key s)
    (h : s.stepWith key verify a = some t) : NonceInv key t := by
  cases a with
  | tick d =>
    cases h
    exact nonceInv_frame hinv (authInv_step key hinv.auth (a := .tick d) rfl) rfl (.inl rfl)
      fun _ => rfl
  | signnonce nonce | signNonce exp nonce | call proc header =>
    have hauth := authInv_step key hinv.auth (step_of_stepWith key rfl h)
    cases h
    exact nonceInv_frame hinv hauth rfl (.inr ⟨_, rfl, rfl, nofun⟩) fun _ => rfl
  | requestNonce b =>
    have hauth := authInv_step key hinv.auth (step_of_stepWith key rfl h)
    cases b with
    | none => cases h; exact hinv
    | some b =>
      cases h
      refine nonceInv_frame hinv hauth rfl (.inr ⟨_, rfl, rfl, fun nonce exp h => ?_⟩) fun _ => rfl
      cases h
      exact Nat.le_add_left _ _
  | respondNonce n passKey =>
    obtain ⟨hcall, rfl | ⟨raw, rfl⟩⟩ := respondNonce_eq_some h
    · exact nonceInv_frame hinv (authInv_silent hinv.auth rfl rfl fun _ => minting_of_update nofun)
        rfl (.inl rfl) (accepted_update (by rw [hcall]; rfl))
    · exact nonceInv_frame hinv (authInv_silent hinv.auth rfl rfl fun _ => minting_of_update nofun)
        rfl (.inl rfl) (accepted_update (by rw [hcall]; rfl))
  | consume n =>
    have hstep := step_of_stepWith key rfl h
    have hauth := authInv_step key hinv.auth hstep
    obtain ⟨raw, hcall, ⟨-, rfl⟩ | ⟨a, ha, rfl⟩⟩ := consume_eq_some hstep
    · exact nonceInv_frame hinv hauth rfl (.inl rfl) (accepted_update (by rw [hcall]; rfl))
    · exact nonceInv_consume hinv hcall ha
  | mint n =>
    have hstep := step_of_stepWith key rfl h
    have hauth := authInv_step key hinv.auth hstep
    obtain ⟨hcall, rfl⟩ := mint_eq_some hstep
    exact nonceInv_frame hinv hauth rfl (.inr ⟨_, rfl, rfl, nofun⟩)
      (accepted_update (by rw [hcall]; rfl))

/-- Only `ConsumeNonce` changes the nonces for a call, and only if it accepts. -/
theorem auth_of_refused {verify : Verifier} {s t : State} {a : Action} {n : Nat}
    (h : s.stepWith key verify a = some t) (hcall : t.calls n ≠ s.calls n)
    (hrefused : t.calls n ≠ .minting) : t.auth = s.auth := by
  cases a with
  | tick | signnonce | signNonce | call =>
    cases h
    rfl
  | requestNonce b =>
    cases b with
    | none => cases h; rfl
    | some b => cases h; exact absurd rfl hcall
  | respondNonce m passKey =>
    obtain ⟨-, rfl | ⟨raw, rfl⟩⟩ := respondNonce_eq_some h
    · rfl
    · rfl
  | consume m =>
    obtain ⟨raw, -, ⟨-, rfl⟩ | ⟨a, -, rfl⟩⟩ := consume_eq_some (step_of_stepWith key rfl h)
    · rfl
    · rcases eq_or_ne n m with rfl | hne
      · exact absurd (Function.update_self ..) hrefused
      · exact absurd (Function.update_of_ne hne ..) hcall
  | mint m =>
    obtain ⟨-, rfl⟩ := mint_eq_some (step_of_stepWith key rfl h)
    rfl

/-! ## Main result -/

/-- Whatever the verifier says, and in whatever order the clients ask. -/
theorem single_use {verify : Verifier} {s : State} (h : Reachable (nonceSystem key verify) s) :
    SingleUse key verify s := by
  have hinv : NonceInv key s := by
    refine h.invariant (I := NonceInv key) ?_ fun _ _ _ _ hinv _ hs => nonceInv_step key hinv hs
    rintro _ ⟨nonceTTL, now, rfl⟩
    exact ⟨⟨fun _ => rfl, fun _ hn => (nomatch hn), trivial⟩, fun _ _ hmem => (nomatch hmem),
      .nil, fun n => iff_of_false nofun nofun⟩
  exact {
    count := fun nonce =>
      Nat.le_of_add_right_le (acceptances_add_outstanding_le key nonce hinv.auth.log)
    inTime := inTime_of_justified key hinv.issued hinv.auth.log
    distinct := hinv.distinct
    accepted := fun n authToken hn => (hinv.accepted n).mpr (by rw [hn]; rfl)
    refused := fun a t n => auth_of_refused key }

/-- Two calls with one passkey, both of which have verified it before either
locks. -/
theorem single_use_replayed :
    ∃ s : State, SingleUse plainKey (passKeyNonce plainKey) s ∧
      s.calls 0 = .returned none (plainKey.v4Sign (newToken 0)) ∧
      s.calls 1 = .returned (some .unauthenticated) "" ∧ acceptances s.log zeroNonce = [0] := by
  obtain ⟨s, hs, hp⟩ := Reachable.of_run (S := nonceSystem plainKey (passKeyNonce plainKey))
    (p := fun s => decide (s.calls 0 = .returned none (plainKey.v4Sign (newToken 0)) ∧
      s.calls 1 = .returned (some .unauthenticated) "" ∧ acceptances s.log zeroNonce = [0]))
    [.requestNonce (some (Vector.replicate nonceSizeBytes 0)), .signnonce zeroNonce,
      .respondNonce 0 zeroPasskey, .respondNonce 1 zeroPasskey, .consume 0, .consume 1, .mint 0]
    (show (nonceSystem plainKey (passKeyNonce plainKey)).init (.initial (2 * minute) 0) from
      ⟨_, _, rfl⟩) (by decide +kernel)
  exact ⟨s, single_use plainKey hs, of_decide_eq_true hp⟩

end RadioJockey.AdminTokens
