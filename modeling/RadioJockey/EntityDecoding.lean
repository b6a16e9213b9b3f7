import RadioJockey.HtmlEntities

/-!
# What is decoded (`api/youtube-search/+server.ts`)

`decodeHtmlEntities` against the pattern as a grammar.

1. `decode_fails`: a number that is no code point makes it throw, and the name
   of a member that every object has is replaced by the text of a function.
2. `conservative_iff`: for every text, its references and nothing else are
   replaced by what they stand for if and only if no such number and no such
   name is in it.
3. `decode_escape`: for every text, decoding undoes escaping.
-/

namespace RadioJockey.YouTubeSearch

open JsString

/-- What the group of the pattern matches, alternative by alternative. -/
inductive IsGroup : JsString → Entity → Prop
  | decimal {digits : JsString} : nonEmpty isDigit digits = true →
      IsGroup (numberSign :: digits) (.decimal digits)
  | hexadecimal {digits : JsString} : nonEmpty isHexDigit digits = true →
      IsGroup (numberSign :: lowercaseX :: digits) (.hexadecimal digits)
  | named {name : JsString} : nonEmpty isAlphanumeric name = true → IsGroup name (.named name)

def reference (body : JsString) : JsString := ampersand :: body ++ [semicolon]

/-- What a reference stands for: a character, or itself. -/
def intended (matched : JsString) : Entity → JsString
  | .decimal digits => (fromCodePoint (parseDigits 10 digits)).getD matched
  | .hexadecimal digits => (fromCodePoint (parseDigits 16 digits)).getD matched
  | .named name => (NAMED_ENTITIES.lookup name).getD matched

/-- No reference begins where the text does. -/
def NoReference (text : JsString) : Prop :=
  ∀ body e rest, IsGroup body e → text ≠ reference body ++ rest

/-- The references, from left to right, are replaced by what they stand for, and
everything else is left as it is. -/
inductive Decoded : JsString → JsString → Prop
  | nil : Decoded [] []
  | reference {body rest out : JsString} {e : Entity} : IsGroup body e → Decoded rest out →
      Decoded (reference body ++ rest) (intended (reference body) e ++ out)
  | unit {c : CodeUnit} {cs out : JsString} : NoReference (c :: cs) → Decoded cs out →
      Decoded (c :: cs) (c :: out)

/-- Nothing is thrown, and the result is the intended one. -/
def Conservative (text : JsString) : Prop :=
  ∃ out, decodeHtmlEntities text = some out ∧ Decoded text out

/-- A reference is somewhere in the text. -/
def Refers (text : JsString) (e : Entity) : Prop :=
  ∃ before body rest, IsGroup body e ∧ text = before ++ (reference body ++ rest)

/-- A number that is a code point, or a name that no object inherits. -/
def Harmless : Entity → Prop
  | .decimal digits => parseDigits 10 digits ≤ maxCodePoint
  | .hexadecimal digits => parseDigits 16 digits ≤ maxCodePoint
  | .named name => objectPrototype.lookup name = none

/-! ## Where the pattern matches -/

theorem alphanumeric_of_hex {c : CodeUnit} (h : isHexDigit c = true) :
    isAlphanumeric c = true := by
  simp only [isHexDigit, isAlphanumeric, isDigit, Bool.or_eq_true, Bool.and_eq_true,
    decide_eq_true_eq] at h ⊢
  omega

theorem alphanumeric_of_digit {c : CodeUnit} (h : isDigit c = true) : isAlphanumeric c = true := by
  rw [isAlphanumeric, h]
  rfl

theorem all_of_nonEmpty {p : CodeUnit → Bool} {s : JsString} (h : nonEmpty p s = true) :
    ∀ c ∈ s, p c = true := by
  rw [nonEmpty, Bool.and_eq_true, List.all_eq_true] at h
  exact h.2

theorem IsGroup.units {body : JsString} {e : Entity} (h : IsGroup body e) :
    ∀ c ∈ body, c ≠ ampersand ∧ c ≠ semicolon := by
  have hplain : ∀ c, c = numberSign ∨ isAlphanumeric c = true → c ≠ ampersand ∧ c ≠ semicolon := by
    rintro c hc
    constructor <;> rintro rfl <;> revert hc <;> decide
  have hx : isAlphanumeric lowercaseX = true := by decide
  intro c hc
  refine hplain c ?_
  cases h with
  | decimal hdigits =>
    exact (List.mem_cons.mp hc).imp_right fun hc =>
      alphanumeric_of_digit (all_of_nonEmpty hdigits c hc)
  | hexadecimal hdigits =>
    refine (List.mem_cons.mp hc).imp_right fun hc => ?_
    rcases List.mem_cons.mp hc with rfl | hc
    · exact hx
    · exact alphanumeric_of_hex (all_of_nonEmpty hdigits c hc)
  | named hname => exact .inr (all_of_nonEmpty hname c hc)

theorem entity?_of_group {body : JsString} {e : Entity} (h : IsGroup body e) :
    entity? body = some e := by
  cases h with
  | @decimal digits hdigits => simp [entity?, hdigits]
  | @hexadecimal digits hdigits =>
    have hx : isDigit lowercaseX = false := by decide
    have hdecimal : nonEmpty isDigit (lowercaseX :: digits) = false := by simp [nonEmpty, hx]
    simp [entity?, hdecimal, hdigits]
  | named hname =>
    cases body with
    | nil => cases hname
    | cons c cs =>
      have hc : c ≠ numberSign := by
        rintro rfl
        exact absurd (all_of_nonEmpty hname _ List.mem_cons_self) (by decide)
      simp [entity?, hc, hname]

theorem group_of_entity? {body : JsString} {e : Entity} (h : entity? body = some e) :
    IsGroup body e := by
  unfold entity? at h
  split at h
  · cases h
  · next c cs =>
    split at h
    · next hc =>
      subst hc
      split at h
      · next hdigits =>
        cases h
        exact .decimal hdigits
      · split at h
        · cases h
        · next x digits _ =>
          split at h
          · next hx =>
            obtain ⟨rfl, hdigits⟩ := hx
            cases h
            exact .hexadecimal hdigits
          · cases h
    · split at h
      · next hname =>
        cases h
        exact .named hname
      · cases h

theorem match?_of_group {body : JsString} {e : Entity} (h : IsGroup body e) (rest : JsString) :
    match? (body ++ semicolon :: rest) = some (e, reference body, rest) := by
  have hbody : ∀ c ∈ body, decide (c ≠ semicolon) = true := fun c hc =>
    decide_eq_true (h.units c hc).2
  rw [match?, List.takeWhile_append_of_pos hbody, List.dropWhile_append_of_pos hbody]
  simp [entity?_of_group h, reference]

theorem group_of_match? {text matched rest : JsString} {e : Entity}
    (h : match? text = some (e, matched, rest)) :
    ∃ body, IsGroup body e ∧ matched = reference body ∧
      ampersand :: text = reference body ++ rest := by
  unfold match? at h
  dsimp only at h
  split at h
  · cases h
  · next c rest' hdrop =>
    obtain ⟨e', he, heq⟩ := Option.map_eq_some_iff.mp h
    cases heq
    refine ⟨_, group_of_entity? he, rfl, ?_⟩
    have hc : c = semicolon := by
      have hnot := List.head?_dropWhile_not (· ≠ semicolon) text
      rw [hdrop] at hnot
      simpa using hnot
    have htext := List.takeWhile_append_dropWhile (p := (· ≠ semicolon)) (l := text)
    rw [hdrop, hc] at htext
    simpa [reference] using htext.symm

/-! ## One replacement after the other -/

theorem scan_of_noReference {c : CodeUnit} {cs : JsString} (h : NoReference (c :: cs)) :
    (if c = ampersand then match? cs else none) = none := by
  split
  · next hc =>
    cases hm : match? cs with
    | none => rfl
    | some m =>
      obtain ⟨e, matched, rest⟩ := m
      obtain ⟨body, hbody, -, htext⟩ := group_of_match? hm
      exact absurd (hc ▸ htext) (h body e rest hbody)
  · rfl

theorem scan_eq_some {c : CodeUnit} {cs matched rest : JsString} {e : Entity}
    (h : (if c = ampersand then match? cs else none) = some (e, matched, rest)) :
    ∃ body, IsGroup body e ∧ matched = reference body ∧ c :: cs = reference body ++ rest := by
  split at h
  · next hc => exact hc ▸ group_of_match? h
  · cases h

theorem noReference_of_scan {c : CodeUnit} {cs : JsString}
    (h : (if c = ampersand then match? cs else none) = none) : NoReference (c :: cs) := by
  intro body e rest hbody heq
  rw [reference, List.append_assoc, List.cons_append, List.cons.injEq] at heq
  obtain ⟨rfl, rfl⟩ := heq
  rw [if_pos rfl, List.singleton_append, match?_of_group hbody] at h
  cases h

/-- Fuel for every unit of the text is enough. -/
theorem decodeFrom_enough (n m : Nat) (text : JsString) (hn : text.length ≤ n)
    (hm : text.length ≤ m) : decodeFrom n text = decodeFrom m text := by
  induction n generalizing m text with
  | zero =>
    obtain rfl := List.length_eq_zero_iff.mp (Nat.le_zero.mp hn)
    cases m <;> rfl
  | succ n ih =>
    cases text with
    | nil => cases m <;> rfl
    | cons c cs =>
      cases m with
      | zero => cases hm
      | succ m =>
        rw [List.length_cons, Nat.add_le_add_iff_right] at hn hm
        rw [decodeFrom, decodeFrom]
        cases hscan : if c = ampersand then match? cs else none with
        | none => rw [ih m cs hn hm]
        | some scanned =>
          obtain ⟨e, matched, rest⟩ := scanned
          obtain ⟨body, -, -, htext⟩ := scan_eq_some hscan
          have hlength := congrArg List.length htext
          rw [List.length_append, reference, List.length_append, List.length_cons,
            List.length_cons] at hlength
          dsimp only
          rw [ih m rest (by omega) (by omega)]

theorem decode_unit {c : CodeUnit} {cs : JsString} (h : NoReference (c :: cs)) :
    decodeHtmlEntities (c :: cs) = (decodeHtmlEntities cs).map (c :: ·) := by
  rw [decodeHtmlEntities, List.length_cons, decodeFrom, scan_of_noReference h]
  rfl

theorem decode_reference {body : JsString} {e : Entity} (h : IsGroup body e) (rest : JsString) :
    decodeHtmlEntities (reference body ++ rest) =
      (replacement (reference body) e).bind fun r => (decodeHtmlEntities rest).map (r ++ ·) := by
  have htext : reference body ++ rest = ampersand :: (body ++ semicolon :: rest) := by
    simp [reference]
  have hfuel := decodeFrom_enough (body ++ semicolon :: rest).length rest.length rest
    (by simp only [List.length_append, List.length_cons]; omega) (Nat.le_refl _)
  rw [htext, decodeHtmlEntities, List.length_cons, decodeFrom, if_pos rfl, match?_of_group h]
  simp only [hfuel, decodeHtmlEntities]
  cases replacement (reference body) e with
  | none => rfl
  | some r => cases decodeFrom rest.length rest <;> rfl

/-- A text is empty, or begins with a reference, or begins with a unit where no
reference begins. -/
theorem text_induction {P : JsString → Prop} (nil : P [])
    (reference : ∀ body e rest, IsGroup body e → P rest → P (reference body ++ rest))
    (unit : ∀ c cs, NoReference (c :: cs) → P cs → P (c :: cs)) (text : JsString) : P text := by
  induction hn : text.length using Nat.strongRecOn generalizing text with
  | ind n ih =>
    cases text with
    | nil => exact nil
    | cons c cs =>
      cases hscan : if c = ampersand then match? cs else none with
      | none =>
        refine unit c cs (noReference_of_scan hscan) (ih cs.length ?_ cs rfl)
        rw [← hn, List.length_cons]
        exact Nat.lt_succ_self _
      | some scanned =>
        obtain ⟨e, matched, rest⟩ := scanned
        obtain ⟨body, hbody, -, htext⟩ := scan_eq_some hscan
        rw [htext] at hn ⊢
        refine reference body e rest hbody (ih rest.length ?_ rest rfl)
        rw [← hn, List.length_append, YouTubeSearch.reference, List.length_append,
          List.length_cons]
        omega

/-! ## What a reference stands for -/

theorem fromCodePoint_of_le {code : Nat} (h : code ≤ maxCodePoint) (matched : JsString) :
    fromCodePoint code = some ((fromCodePoint code).getD matched) := by
  unfold fromCodePoint
  rw [if_neg (Nat.not_lt_of_le h)]
  split <;> rfl

theorem le_of_fromCodePoint {code : Nat} {r : JsString} (h : fromCodePoint code = some r) :
    code ≤ maxCodePoint := by
  unfold fromCodePoint at h
  split at h
  · cases h
  · next hle => exact Nat.le_of_not_lt hle

theorem replacement_of_harmless {e : Entity} (h : Harmless e) (matched : JsString) :
    replacement matched e = some (intended matched e) := by
  cases e with
  | decimal digits => exact fromCodePoint_of_le h matched
  | hexadecimal digits => exact fromCodePoint_of_le h matched
  | named name => rw [replacement, lookupEntity, show objectPrototype.lookup name = none from h,
      Option.or_none, intended]

theorem mem_of_lookup {κ : Type} [BEq κ] [LawfulBEq κ] {l : List (κ × JsString)} {k : κ}
    {v : JsString} (h : l.lookup k = some v) : (k, v) ∈ l := by
  obtain ⟨l₁, l₂, hl, -⟩ := List.lookup_eq_some_iff.mp h
  rw [hl]
  exact List.mem_append_right _ List.mem_cons_self

/-- An inherited name is not in the table, and what it stands for begins with an
`f`. -/
theorem lookup_inherited {name text : JsString} (h : objectPrototype.lookup name = some text) :
    NAMED_ENTITIES.lookup name = none ∧ text.head? = some 0x66 := by
  have hall : ∀ p ∈ objectPrototype,
      NAMED_ENTITIES.lookup p.1 = none ∧ p.2.head? = some 0x66 := by decide +kernel
  exact hall (name, text) (mem_of_lookup h)

/-- What replaces a reference is intended, or begins with an `f` for an `&`. -/
theorem harmless_of_replacement {e : Entity} {matched r : JsString}
    (h : replacement matched e = some r) :
    Harmless e ∨ r.head? = some 0x66 ∧ intended matched e = matched := by
  cases e with
  | decimal digits => exact .inl (le_of_fromCodePoint h)
  | hexadecimal digits => exact .inl (le_of_fromCodePoint h)
  | named name =>
    cases hinherited : objectPrototype.lookup name with
    | none => exact .inl hinherited
    | some text =>
      obtain ⟨hnamed, hhead⟩ := lookup_inherited hinherited
      rw [replacement, lookupEntity, hnamed, hinherited] at h
      cases h
      exact .inr ⟨hhead, by rw [intended, hnamed]; rfl⟩

/-! ## The references of a text -/

theorem reference_inj {a b rest rest' : JsString} {e e' : Entity} (ha : IsGroup a e)
    (hb : IsGroup b e') (h : reference a ++ rest = reference b ++ rest') :
    e = e' ∧ rest = rest' := by
  have hmatch : ∀ {body rest : JsString}, reference body ++ rest =
      ampersand :: (body ++ semicolon :: rest) := by simp [reference]
  rw [hmatch, hmatch, List.cons.injEq] at h
  have heq := match?_of_group ha rest
  rw [h.2, match?_of_group hb rest', Option.some_inj, Prod.mk.injEq, Prod.mk.injEq] at heq
  exact ⟨heq.1.symm, heq.2.2.symm⟩

theorem refers_unit {c : CodeUnit} {cs : JsString} (h : NoReference (c :: cs)) {e : Entity}
    (hr : Refers (c :: cs) e) : Refers cs e := by
  obtain ⟨before, body, rest, hbody, htext⟩ := hr
  cases before with
  | nil => exact absurd htext (h body e rest hbody)
  | cons b before => exact ⟨before, body, rest, hbody, (List.cons.inj htext).2⟩

/-- The `&` of another reference is behind the first one. -/
theorem refers_reference {body rest : JsString} {e e' : Entity} (h : IsGroup body e)
    (hr : Refers (reference body ++ rest) e') : e = e' ∨ Refers rest e' := by
  obtain ⟨before, body', rest', hbody', htext⟩ := hr
  cases before with
  | nil => exact .inl (reference_inj h hbody' htext).1
  | cons b before =>
    refine .inr ?_
    rw [reference, List.cons_append, List.cons_append, List.cons_append, List.cons.injEq] at htext
    have hnot : ampersand ∉ body ++ [semicolon] := by
      rw [List.mem_append, not_or]
      exact ⟨fun hm => (h.units _ hm).1 rfl, by decide⟩
    rcases List.append_eq_append_iff.mp htext.2 with ⟨mid, -, hmid⟩ | ⟨mid, hmid, hrest⟩
    · exact ⟨mid, body', rest', hbody', hmid⟩
    · cases mid with
      | nil => exact ⟨[], body', rest', hbody', hrest.symm⟩
      | cons c mid =>
        rw [reference, List.cons_append, List.cons_append, List.cons_append, List.cons.injEq]
          at hrest
        rw [hmid, ← hrest.1] at hnot
        exact absurd (List.mem_append_right _ List.mem_cons_self) hnot

/-! ## The two results -/

theorem conservative_of_harmless (text : JsString) (h : ∀ e, Refers text e → Harmless e) :
    Conservative text := by
  induction text using text_induction with
  | nil => exact ⟨[], rfl, .nil⟩
  | reference body e rest hbody ih =>
    obtain ⟨out, hout, hdecoded⟩ := ih fun e' he' => by
      obtain ⟨before, body', rest', hbody', rfl⟩ := he'
      exact h e' ⟨reference body ++ before, body', rest', hbody', by simp⟩
    refine ⟨_, ?_, .reference hbody hdecoded⟩
    rw [decode_reference hbody, replacement_of_harmless (h e ⟨[], body, rest, hbody, rfl⟩), hout]
    rfl
  | unit c cs hno ih =>
    obtain ⟨out, hout, hdecoded⟩ := ih fun e' he' => by
      obtain ⟨before, body', rest', hbody', rfl⟩ := he'
      exact h e' ⟨c :: before, body', rest', hbody', rfl⟩
    exact ⟨_, by rw [decode_unit hno, hout]; rfl, .unit hno hdecoded⟩

theorem harmless_of_decoded {text out : JsString} (hd : Decoded text out)
    (h : decodeHtmlEntities text = some out) : ∀ e, Refers text e → Harmless e := by
  induction hd with
  | nil =>
    rintro e ⟨before, body, rest, -, htext⟩
    cases before <;> cases htext
  | @reference body rest out e hbody _ ih =>
    rw [decode_reference hbody, Option.bind_eq_some_iff] at h
    obtain ⟨r, hr, hrest⟩ := h
    obtain ⟨out', hout', heq⟩ := Option.map_eq_some_iff.mp hrest
    obtain hharmless | ⟨hhead, hintended⟩ := harmless_of_replacement hr
    · rw [replacement_of_harmless hharmless, Option.some_inj] at hr
      rw [← hr, List.append_cancel_left_eq] at heq
      intro e' he'
      obtain rfl | he' := refers_reference hbody he'
      · exact hharmless
      · exact ih (heq ▸ hout') e' he'
    · -- an `f` is not the `&` of a reference that is left as it is
      rw [hintended] at heq
      have hfirst := congrArg List.head? heq
      rw [List.head?_append, hhead] at hfirst
      exact absurd hfirst (by simp [reference, ampersand])
  | unit hno _ ih =>
    rw [decode_unit hno] at h
    obtain ⟨out', hout', heq⟩ := Option.map_eq_some_iff.mp h
    intro e he
    exact ih ((List.cons.inj heq).2 ▸ hout') e (refers_unit hno he)

/-- A number that is no code point is thrown at, and `toString` is what every
object has. -/
theorem decode_fails :
    decodeHtmlEntities (ofString "&#1114112;") = none ∧
      decodeHtmlEntities (ofString "&toString;") =
        some (ofString "function toString() \x7b [native code] \x7d") ∧
      ¬ Conservative (ofString "&#1114112;") ∧ ¬ Conservative (ofString "&toString;") := by
  have hthrows : decodeHtmlEntities (ofString "&#1114112;") = none := by decide +kernel
  have hname : nonEmpty isAlphanumeric (ofString "toString") = true := by decide
  refine ⟨hthrows, by decide +kernel, ?_, ?_⟩
  · rintro ⟨out, hout, -⟩
    cases hthrows.symm.trans hout
  · rintro ⟨out, hout, hd⟩
    have hrefers : Refers (ofString "&toString;") (.named (ofString "toString")) :=
      ⟨[], ofString "toString", [], .named hname, by decide⟩
    have hharmless := harmless_of_decoded hd hout _ hrefers
    exact absurd hharmless (by unfold Harmless; decide +kernel)

/-- For every text. -/
theorem conservative_iff (text : JsString) :
    Conservative text ↔ ∀ e, Refers text e → Harmless e :=
  ⟨fun ⟨_, hout, hd⟩ => harmless_of_decoded hd hout, conservative_of_harmless text⟩

/-! ## Escaping -/

/-- What stands for a unit in escaped text, as the body of a reference. -/
def escapes : List (CodeUnit × JsString) :=
  [(0x26, "amp"), (0x3c, "lt"), (0x3e, "gt"), (0x22, "quot"), (0x27, "#39")].map
    fun e => (e.1, ofString e.2)

def escape (s : JsString) : JsString :=
  s.flatMap fun c => ((escapes.lookup c).map reference).getD [c]

theorem replacement_escape {c : CodeUnit} {body : JsString} (h : escapes.lookup c = some body) :
    ∃ e, IsGroup body e ∧ replacement (reference body) e = some [c] := by
  have hall : ∀ p ∈ escapes,
      (entity? p.2).bind (replacement (reference p.2)) = some [p.1] := by decide +kernel
  obtain ⟨e, he, hreplacement⟩ := Option.bind_eq_some_iff.mp (hall (c, body) (mem_of_lookup h))
  exact ⟨e, group_of_entity? he, hreplacement⟩

/-- A unit that is not escaped is not the `&` of a reference. -/
theorem noReference_of_plain {c : CodeUnit} (h : escapes.lookup c = none) (cs : JsString) :
    NoReference (c :: cs) := by
  rintro body e rest - heq
  obtain rfl : c = ampersand := (List.cons.inj heq).1
  exact absurd h (by decide)

/-- For every text, also one that looks as if it had been escaped. -/
theorem decode_escape (s : JsString) : decodeHtmlEntities (escape s) = some s := by
  induction s with
  | nil => rfl
  | cons c cs ih =>
    rw [escape, List.flatMap_cons]
    cases hc : escapes.lookup c with
    | none => exact (decode_unit (noReference_of_plain hc (escape cs))).trans (by rw [ih]; rfl)
    | some body =>
      obtain ⟨e, hbody, hreplacement⟩ := replacement_escape hc
      refine (decode_reference hbody (escape cs)).trans ?_
      rw [hreplacement, ih]
      rfl

example : escape (ofString "&lt; it's") = ofString "&amp;lt; it&#39;s" := by decide

end RadioJockey.YouTubeSearch
