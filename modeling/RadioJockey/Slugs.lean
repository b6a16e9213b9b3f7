import Mathlib.Data.List.Chain
import RadioJockey.Lib.JsString

/-!
# Session ids from names (`stations/create/+page.svelte`, `util/helpers.ts`)

A station is created under the slug of the name that was typed in. The bot puts
the slug of the server's name before the id of the guild. How letters beyond
ASCII are put into lower case is a parameter.

`session_ids`: every slug is empty or of the form `[a-z0-9]+(-[a-z0-9]+)*`, and
is its own slug; the two programs have the same slugs; two guilds never have the
same session id.
-/

namespace RadioJockey.Slugs

open JsString

def hyphen : CodeUnit := 0x2d

/-- `[a-z0-9]`. -/
def isSlugUnit (c : CodeUnit) : Bool := isDigit c || 0x61 ≤ c.toNat && c.toNat ≤ 0x7a

def isHyphen (c : CodeUnit) : Bool := c == hyphen

variable (other : JsString → CodeUnit → JsString → JsString)

def slugify (input : JsString) : JsString :=
  stripEnds isHyphen (replaceRuns (fun c => !isSlugUnit c) [hyphen] (toLowerCase other input))

/-- `interaction.guild?.name`, and the id, which is null outside of a guild. -/
structure Interaction where
  guildName : Option JsString
  guildId : Option JsString

def serverName (i : Interaction) : JsString := i.guildName.getD (ofString "unknown")

def getSessionId (i : Interaction) : JsString :=
  let slug := stripEnds isHyphen
    (replaceRuns (fun c => !isSlugUnit c) [hyphen] (toLowerCase other (serverName i)))
  slug ++ hyphen :: i.guildId.getD (ofString "null")

/-- `[a-z0-9]+`. -/
def IsWord (w : JsString) : Prop := w ≠ [] ∧ ∀ c ∈ w, isSlugUnit c = true

/-- `[a-z0-9]+(-[a-z0-9]+)*`. -/
inductive Words : JsString → Prop
  | word {w : JsString} : IsWord w → Words w
  | join {w s : JsString} : IsWord w → Words s → Words (w ++ hyphen :: s)

/-- No two hyphens are next to each other. -/
def Spaced (s : JsString) : Prop := s.IsChain fun a b => a = hyphen → b ≠ hyphen

/-- `[0-9]+`. -/
def IsGuildId (id : JsString) : Prop := id ≠ [] ∧ ∀ c ∈ id, isDigit c = true

/-! ## Well formed -/

variable {other}

theorem ne_hyphen {c : CodeUnit} (h : isSlugUnit c = true) : c ≠ hyphen := by
  rintro rfl
  exact absurd h (by decide)

/-- What comes of a replacement: no two hyphens in a row, and none first where a
run continues. -/
theorem spaced_replaceRunsFrom (s : JsString) (inRun : Bool) :
    Spaced (replaceRunsFrom (fun c => !isSlugUnit c) [hyphen] inRun s) ∧
      (inRun = true →
        ∀ c ∈ (replaceRunsFrom (fun c => !isSlugUnit c) [hyphen] inRun s).head?, c ≠ hyphen) := by
  induction s generalizing inRun with
  | nil => exact ⟨.nil, fun _ c hc => by cases hc⟩
  | cons c cs ih =>
    rw [replaceRunsFrom]
    split
    · obtain ⟨hspaced, hhead⟩ := ih true
      cases inRun with
      | true => exact ⟨hspaced, hhead⟩
      | false => exact ⟨hspaced.cons fun b hb _ => hhead rfl b hb, fun h => by cases h⟩
    · next hc =>
      have hunit : isSlugUnit c = true := by simpa using hc
      refine ⟨(ih false).1.cons fun b _ heq => absurd heq (ne_hyphen hunit), fun _ b hb => ?_⟩
      cases hb
      exact ne_hyphen hunit

theorem units_replaceRunsFrom (s : JsString) (inRun : Bool) :
    ∀ c ∈ replaceRunsFrom (fun c => !isSlugUnit c) [hyphen] inRun s,
      isSlugUnit c = true ∨ c = hyphen := by
  induction s generalizing inRun with
  | nil => exact fun c hc => by cases hc
  | cons c cs ih =>
    intro b hb
    rw [replaceRunsFrom] at hb
    split at hb
    · rcases List.mem_append.mp hb with hb | hb
      · cases inRun with
        | true => cases hb
        | false => exact .inr (List.mem_singleton.mp hb)
      · exact ih true b hb
    · next hc =>
      rcases List.mem_cons.mp hb with rfl | hb
      · exact .inl (by simpa using hc)
      · exact ih false b hb

theorem Words.cons {c : CodeUnit} {s : JsString} (hc : isSlugUnit c = true) (h : Words s) :
    Words (c :: s) := by
  have hword : ∀ {w : JsString}, IsWord w → IsWord (c :: w) := fun hw =>
    ⟨List.cons_ne_nil _ _, List.forall_mem_cons.mpr ⟨hc, hw.2⟩⟩
  cases h with
  | word hw => exact .word (hword hw)
  | join hw hs => exact .join (hword hw) hs

theorem isWord_singleton {c : CodeUnit} (hc : isSlugUnit c = true) : IsWord [c] :=
  ⟨List.cons_ne_nil _ _, by simpa using hc⟩

/-- From a hyphen on, or from anywhere else, a spaced text that does not end with
a hyphen goes on with words. -/
theorem words_of_spaced {s : JsString} (hunits : ∀ c ∈ s, isSlugUnit c = true ∨ c = hyphen)
    (hspaced : Spaced s) (hlast : s.getLast? ≠ some hyphen) :
    s = [] ∨ Words s ∨ ∃ t, s = hyphen :: t ∧ Words t := by
  induction s with
  | nil => exact .inl rfl
  | cons c cs ih =>
    rw [List.forall_mem_cons] at hunits
    rw [Spaced, List.isChain_cons] at hspaced
    have hlast' : cs.getLast? ≠ some hyphen := by
      intro h
      rw [List.getLast?_cons, h] at hlast
      exact hlast rfl
    obtain hc | rfl := hunits.1
    · obtain rfl | hwords | ⟨t, rfl, ht⟩ := ih hunits.2 hspaced.2 hlast'
      · exact .inr (.inl (.word (isWord_singleton hc)))
      · exact .inr (.inl (hwords.cons hc))
      · exact .inr (.inl (.join (isWord_singleton hc) ht))
    · obtain rfl | hwords | ⟨t, rfl, -⟩ := ih hunits.2 hspaced.2 hlast'
      · exact absurd rfl hlast
      · exact .inr (.inr ⟨cs, rfl, hwords⟩)
      · exact absurd rfl (hspaced.1 hyphen rfl rfl)

theorem isInfix_stripEnds (p : CodeUnit → Bool) (s : JsString) : stripEnds p s <:+: s :=
  ((List.rdropWhile_prefix _ _).isInfix).trans (List.dropWhile_suffix _).isInfix

theorem head?_stripEnds (p : CodeUnit → Bool) (s : JsString) :
    ∀ c ∈ (stripEnds p s).head?, p c = false := by
  intro c hc
  obtain ⟨rest, hrest⟩ := List.rdropWhile_prefix p (s.dropWhile p)
  have hhead : (s.dropWhile p).head? = some c := by
    rw [← hrest, List.head?_append, show (List.rdropWhile p (s.dropWhile p)).head? = some c from hc]
    rfl
  have hnot := List.head?_dropWhile_not p s
  rw [hhead] at hnot
  exact hnot

theorem getLast?_stripEnds (p : CodeUnit → Bool) (s : JsString) :
    ∀ c ∈ (stripEnds p s).getLast?, p c = false := by
  intro c hc
  have hne : stripEnds p s ≠ [] := fun h => by rw [h] at hc; cases hc
  rw [List.getLast?_eq_some_getLast hne, Option.mem_some_iff] at hc
  rw [← hc]
  exact Bool.eq_false_iff.mpr (List.rdropWhile_last_not p _ hne)

/-- No hyphen is first or last, and no two are next to each other. -/
structure NoStrayHyphen (s : JsString) : Prop where
  first : s.head? ≠ some hyphen
  last : s.getLast? ≠ some hyphen
  spaced : Spaced s

theorem noStrayHyphen_stripEnds {s : JsString} (hspaced : Spaced s) :
    NoStrayHyphen (stripEnds isHyphen s) where
  first h := absurd (head?_stripEnds isHyphen s hyphen h) (by decide)
  last h := absurd (getLast?_stripEnds isHyphen s hyphen h) (by decide)
  spaced := List.IsChain.infix hspaced (isInfix_stripEnds isHyphen s)

theorem words_stripEnds {s : JsString} (hunits : ∀ c ∈ s, isSlugUnit c = true ∨ c = hyphen)
    (hspaced : Spaced s) : stripEnds isHyphen s = [] ∨ Words (stripEnds isHyphen s) := by
  have hstray := noStrayHyphen_stripEnds hspaced
  have hunits' : ∀ c ∈ stripEnds isHyphen s, isSlugUnit c = true ∨ c = hyphen := fun c hc =>
    hunits c ((isInfix_stripEnds isHyphen s).subset hc)
  obtain h | h | ⟨t, ht, -⟩ := words_of_spaced hunits' hstray.spaced hstray.last
  · exact .inl h
  · exact .inr h
  · exact absurd (by rw [ht]; rfl) hstray.first

theorem words_slugify (input : JsString) :
    slugify other input = [] ∨ Words (slugify other input) :=
  words_stripEnds (units_replaceRunsFrom _ false) (spaced_replaceRunsFrom _ false).1

/-! ## The slug of a slug -/

theorem lowerFrom_eq_self {s : JsString} (before : JsString)
    (h : ∀ c ∈ s, isSlugUnit c = true ∨ c = hyphen) : lowerFrom other before s = s := by
  induction s generalizing before with
  | nil => rfl
  | cons c cs ih =>
    rw [List.forall_mem_cons] at h
    have hc : c.toNat < 0x80 ∧ lowerAscii c = c := by
      obtain hc | rfl := h.1
      · simp only [isSlugUnit, isDigit, Bool.or_eq_true, Bool.and_eq_true, decide_eq_true_eq] at hc
        refine ⟨by omega, ?_⟩
        rw [lowerAscii, if_neg (by omega)]
      · decide
    rw [lowerFrom, if_pos hc.1, hc.2, ih _ h.2]
    rfl

theorem Words.units {s : JsString} (h : Words s) : ∀ c ∈ s, isSlugUnit c = true ∨ c = hyphen := by
  induction h with
  | word hw => exact fun c hc => .inl (hw.2 c hc)
  | join hw _ ih =>
    intro c hc
    rcases List.mem_append.mp hc with hc | hc
    · exact .inl (hw.2 c hc)
    · exact (List.mem_cons.mp hc).elim .inr (ih c)

/-- A word is left as it is, also where a run has just been replaced. -/
theorem replaceRunsFrom_word {w : JsString} (hw : IsWord w) (inRun : Bool) (s : JsString) :
    replaceRunsFrom (fun c => !isSlugUnit c) [hyphen] inRun (w ++ s) =
      w ++ replaceRunsFrom (fun c => !isSlugUnit c) [hyphen] false s := by
  obtain ⟨hne, hunits⟩ := hw
  induction w generalizing inRun with
  | nil => exact absurd rfl hne
  | cons c cs ih =>
    rw [List.forall_mem_cons] at hunits
    rw [List.cons_append, replaceRunsFrom, hunits.1, List.cons_append]
    refine congrArg (c :: ·) ?_
    cases cs with
    | nil => rfl
    | cons d ds => exact ih false (List.cons_ne_nil _ _) hunits.2

theorem replaceRunsFrom_words {s : JsString} (h : Words s) (inRun : Bool) :
    replaceRunsFrom (fun c => !isSlugUnit c) [hyphen] inRun s = s := by
  induction h generalizing inRun with
  | @word w hw =>
    have hword := replaceRunsFrom_word hw inRun []
    rwa [List.append_nil, replaceRunsFrom, List.append_nil] at hword
  | join hw _ ih =>
    rw [replaceRunsFrom_word hw, replaceRunsFrom, ih true]
    rfl

theorem Words.head {s : JsString} (h : Words s) : ∃ c cs, s = c :: cs ∧ isSlugUnit c = true := by
  have hword : ∀ {w : JsString}, IsWord w → ∃ c cs, w = c :: cs ∧ isSlugUnit c = true := by
    intro w hw
    obtain ⟨c, cs, rfl⟩ := List.exists_cons_of_ne_nil hw.1
    exact ⟨c, cs, rfl, hw.2 c List.mem_cons_self⟩
  cases h with
  | word hw => exact hword hw
  | join hw _ =>
    obtain ⟨c, cs, rfl, hc⟩ := hword hw
    exact ⟨c, _, rfl, hc⟩

theorem Words.last {s : JsString} (h : Words s) : ∃ cs c, s = cs ++ [c] ∧ isSlugUnit c = true := by
  induction h with
  | @word w hw =>
    exact ⟨w.dropLast, w.getLast hw.1, (List.dropLast_append_getLast hw.1).symm,
      hw.2 _ (List.getLast_mem hw.1)⟩
  | @join w _ hw _ ih =>
    obtain ⟨cs, c, rfl, hc⟩ := ih
    exact ⟨w ++ hyphen :: cs, c, by simp, hc⟩

theorem stripEnds_words {s : JsString} (h : Words s) : stripEnds isHyphen s = s := by
  have hnot : ∀ {c : CodeUnit}, isSlugUnit c = true → isHyphen c = false := fun hc =>
    beq_false_of_ne (ne_hyphen hc)
  have hhead : s.dropWhile isHyphen = s := by
    obtain ⟨c, cs, rfl, hc⟩ := h.head
    rw [List.dropWhile_cons, hnot hc]
    rfl
  obtain ⟨cs, c, rfl, hc⟩ := h.last
  rw [stripEnds, hhead, List.rdropWhile_concat, hnot hc]
  rfl

theorem slugify_words {s : JsString} (h : Words s) : slugify other s = s := by
  rw [slugify, toLowerCase, lowerFrom_eq_self [] h.units, replaceRuns, replaceRunsFrom_words h,
    stripEnds_words h]

theorem slugify_slugify (input : JsString) :
    slugify other (slugify other input) = slugify other input := by
  obtain h | h : slugify other input = [] ∨ Words (slugify other input) := words_slugify input
  · rw [h]
    rfl
  · exact slugify_words h

/-! ## The ids of two guilds -/

theorem notMem_guildId {id : JsString} (h : IsGuildId id) : hyphen ∉ id := by
  intro hmem
  exact absurd (h.2 hyphen hmem) (by decide)

/-- What follows the last hyphen. -/
theorem eq_of_append_hyphen {a b id id' : JsString} (h : hyphen ∉ id) (h' : hyphen ∉ id')
    (heq : a ++ hyphen :: id = b ++ hyphen :: id') : id = id' := by
  rcases List.append_eq_append_iff.mp heq with ⟨mid, -, hmid⟩ | ⟨mid, -, hmid⟩
  · cases mid with
    | nil => exact (List.cons.inj hmid).2
    | cons c mid =>
      rw [(List.cons.inj hmid).2] at h
      exact absurd (List.mem_append_right mid List.mem_cons_self) h
  · cases mid with
    | nil => exact (List.cons.inj hmid).2.symm
    | cons c mid =>
      rw [(List.cons.inj hmid).2] at h'
      exact absurd (List.mem_append_right mid List.mem_cons_self) h'

/-- For every name, and for all guilds under any names. -/
theorem session_ids (other : JsString → CodeUnit → JsString → JsString) :
    (∀ input, (slugify other input = [] ∨ Words (slugify other input)) ∧
      NoStrayHyphen (slugify other input) ∧
      slugify other (slugify other input) = slugify other input) ∧
    (∀ i, getSessionId other i =
      slugify other (serverName i) ++ hyphen :: i.guildId.getD (ofString "null")) ∧
    ∀ i j id id', i.guildId = some id → j.guildId = some id' → IsGuildId id → IsGuildId id' →
      id ≠ id' → getSessionId other i ≠ getSessionId other j := by
  refine ⟨fun input => ⟨words_slugify input, ?_, slugify_slugify input⟩, fun i => rfl, ?_⟩
  · exact noStrayHyphen_stripEnds (spaced_replaceRunsFrom _ false).1
  · intro i j id id' hi hj hid hid' hne heq
    rw [getSessionId, getSessionId, hi, hj, Option.getD_some, Option.getD_some] at heq
    exact hne (eq_of_append_hyphen (notMem_guildId hid) (notMem_guildId hid') heq)

example : slugify (fun _ c _ => [c]) (ofString "  DJ -- Café №1! ") = ofString "dj-caf-1" := by
  decide +kernel

end RadioJockey.Slugs
