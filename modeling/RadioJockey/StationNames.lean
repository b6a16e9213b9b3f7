import RadioJockey.Slugs
import RadioJockey.StreamURL

/-!
# The ids that the clients make (`stations/create/+page.svelte`, `util/helpers.ts`)

`CreateSession` takes any id, and not every id is one that Icecast can be asked
to stream to, or that its URL leads to. The station page and the bot make their
ids from names, and theirs are.

`made_ids`: for every name that is typed in, and for every interaction with the
bot, in a server or outside of one, the id passes the interceptors as it is, the
handshake with Icecast is the one `PUT` that it is meant to be, and the advertised
URL is that of the stream, and of no other id that is made.
-/

namespace RadioJockey.StationNames

open JsString Slugs Handshake StreamURL

def isHighSurrogate (c : CodeUnit) : Bool := 0xD800 ≤ c.toNat && c.toNat < 0xDC00

def isLowSurrogate (c : CodeUnit) : Bool := 0xDC00 ≤ c.toNat && c.toNat < 0xE000

/-- A unit on its own. No character begins with a lone surrogate. -/
def decodeUnit (c : CodeUnit) : Char :=
  if isHighSurrogate c || isLowSurrogate c then '\uFFFD' else Char.ofNat c.toNat

/-- The characters of a string in a message. -/
def decode : JsString → List Char
  | [] => []
  | [c] => [decodeUnit c]
  | c :: d :: cs =>
    if isHighSurrogate c && isLowSurrogate d then
      Char.ofNat (0x10000 + (c.toNat - 0xD800) * 0x400 + (d.toNat - 0xDC00)) :: decode cs
    else decodeUnit c :: decode (d :: cs)

/-- The id as the server receives it. -/
def sessionID (id : JsString) : SessionID := String.ofList (decode id)

example : sessionID (ofString "dj-🎵") = "dj-🎵" := by decide

variable (other : JsString → CodeUnit → JsString → JsString)

/-- An id that one of the clients sends. `handleSubmit` refuses the empty one, and
an interaction outside of a server has no guild id. -/
inductive Made : JsString → Prop
  | station (name : JsString) : slugify other name ≠ [] → Made (slugify other name)
  | guild (i : Interaction) : (∀ id, i.guildId = some id → IsGuildId id) →
    Made (getSessionId other i)

namespace StationNamesLemmas

variable {other}

/-- `[a-z0-9-]`. -/
def isIdUnit (c : CodeUnit) : Bool := isSlugUnit c || c == hyphen

theorem lt_of_isIdUnit {c : CodeUnit} (h : isIdUnit c = true) : c.toNat < 0x80 := by
  rw [isIdUnit, Bool.or_eq_true, beq_iff_eq, isSlugUnit, isDigit] at h
  rcases h with h | rfl
  · simp only [Bool.or_eq_true, Bool.and_eq_true, decide_eq_true_eq] at h
    omega
  · decide

/-- The characters of an id are plain in every respect. -/
theorem decodeUnit_plain {c : CodeUnit} (h : isIdUnit c = true) :
    isSpace (decodeUnit c) = false ∧ HttpGrammar.visibleChar (decodeUnit c) = true ∧
      decodeUnit c ≠ '/' ∧ decodeUnit c ≠ '.' := by
  have hascii : ∀ n < 0x80, isIdUnit (UInt16.ofNat n) = true →
      isSpace (decodeUnit (UInt16.ofNat n)) = false ∧
        HttpGrammar.visibleChar (decodeUnit (UInt16.ofNat n)) = true ∧
          decodeUnit (UInt16.ofNat n) ≠ '/' ∧ decodeUnit (UInt16.ofNat n) ≠ '.' := by
    decide +kernel
  have := hascii c.toNat (lt_of_isIdUnit h)
  rw [UInt16.ofNat_toNat] at this
  exact this h

theorem decodeUnit_injective {c d : CodeUnit} (hc : isIdUnit c = true) (hd : isIdUnit d = true)
    (h : decodeUnit c = decodeUnit d) : c = d := by
  have hascii : ∀ n < 0x80, (decodeUnit (UInt16.ofNat n)).toNat = n := by decide +kernel
  have hc' := hascii c.toNat (lt_of_isIdUnit hc)
  have hd' := hascii d.toNat (lt_of_isIdUnit hd)
  rw [UInt16.ofNat_toNat] at hc' hd'
  exact UInt16.toNat_inj.mp (hc'.symm.trans ((congrArg Char.toNat h).trans hd'))

theorem decode_eq_map {id : JsString} (h : ∀ c ∈ id, isIdUnit c = true) :
    decode id = id.map decodeUnit := by
  fun_induction decode id with
  | case1 => rfl
  | case2 c => rfl
  | case3 c d cs hpair ih =>
    have hhigh : isHighSurrogate c = true := (Bool.and_eq_true_iff.mp hpair).1
    rw [isHighSurrogate, Bool.and_eq_true, decide_eq_true_eq] at hhigh
    exact absurd (lt_of_isIdUnit (h c List.mem_cons_self)) (by omega)
  | case4 c d cs hpair ih =>
    rw [ih fun e he => h e (List.mem_cons_of_mem c he)]
    rfl

theorem slugify_units (name : JsString) : ∀ c ∈ slugify other name, isIdUnit c = true := by
  obtain hnil | hwords : slugify other name = [] ∨ Words (slugify other name) :=
    words_slugify name
  · rw [hnil]
    exact fun c hc => nomatch hc
  · intro c hc
    rcases hwords.units c hc with hunit | rfl
    · rw [isIdUnit, hunit, Bool.true_or]
    · decide

/-- What stands behind the hyphen is the guild id, or `null`. -/
theorem guildId_units {i : Interaction} (h : ∀ id, i.guildId = some id → IsGuildId id) :
    ∀ c ∈ i.guildId.getD (ofString "null"), isIdUnit c = true := by
  cases hid : i.guildId with
  | none => exact List.all_eq_true.mp (by decide)
  | some id =>
    intro c hc
    rw [isIdUnit, isSlugUnit, (h id hid).2 c hc, Bool.true_or, Bool.true_or]

theorem made_units {id : JsString} (h : Made other id) :
    id ≠ [] ∧ ∀ c ∈ id, isIdUnit c = true := by
  cases h with
  | station name hne => exact ⟨hne, slugify_units name⟩
  | guild i hid =>
    have hsession : getSessionId other i =
        slugify other (serverName i) ++ hyphen :: i.guildId.getD (ofString "null") := rfl
    rw [hsession]
    refine ⟨by simp, fun c hc => ?_⟩
    rcases List.mem_append.mp hc with hc | hc
    · exact slugify_units _ c hc
    · rcases List.mem_cons.mp hc with rfl | hc
      · decide
      · exact guildId_units hid c hc

theorem toList_sessionID {id : JsString} (h : Made other id) :
    (sessionID id).toList = id.map decodeUnit := by
  rw [sessionID, String.toList_ofList, decode_eq_map (made_units h).2]

/-- Each character of the id is that of one of its units. -/
theorem forall_sessionID {id : JsString} (h : Made other id) {p : Char → Prop}
    (hp : ∀ c, isIdUnit c = true → p (decodeUnit c)) : ∀ c ∈ (sessionID id).toList, p c := by
  rw [toList_sessionID h]
  intro c hc
  obtain ⟨u, hu, rfl⟩ := List.mem_map.mp hc
  exact hp u ((made_units h).2 u hu)

theorem sessionID_injective {id id' : JsString} (h : Made other id) (h' : Made other id')
    (heq : sessionID id = sessionID id') : id = id' := by
  have hmap := congrArg String.toList heq
  rw [toList_sessionID h, toList_sessionID h'] at hmap
  have hunits := (made_units h).2
  have hunits' := (made_units h').2
  clear heq h h'
  induction id generalizing id' with
  | nil => exact (List.map_eq_nil_iff.mp hmap.symm).symm
  | cons c cs ih =>
    cases id' with
    | nil => cases hmap
    | cons d ds =>
      rw [List.map_cons, List.map_cons, List.cons.injEq] at hmap
      rw [List.forall_mem_cons] at hunits hunits'
      rw [decodeUnit_injective hunits.1 hunits'.1 hmap.1, ih hmap.2 hunits.2 hunits'.2]

/-! ## What the id meets on its way -/

theorem trimSpace_sessionID {id : JsString} (h : Made other id) :
    trimSpace (sessionID id) = sessionID id := by
  have hplain := forall_sessionID h (p := fun c => isSpace c = false)
    fun c hc => (decodeUnit_plain hc).1
  have htrim := trimSpace_plain hplain
  rwa [String.ofList_toList] at htrim

theorem visible_sessionID {id : JsString} (h : Made other id) :
    (sessionID id).toList.all HttpGrammar.visibleChar = true :=
  List.all_eq_true.mpr (forall_sessionID h fun _ hc => (decodeUnit_plain hc).2.1)

/-- The id is one segment of a path. -/
theorem plainID_sessionID {id : JsString} (h : Made other id) : PlainID (sessionID id) := by
  have hslash : '/' ∉ (sessionID id).toList := fun hmem =>
    forall_sessionID h (p := (· ≠ '/')) (fun c hc => (decodeUnit_plain hc).2.2.1) _ hmem rfl
  have hdot : '.' ∉ (sessionID id).toList := fun hmem =>
    forall_sessionID h (p := (· ≠ '.')) (fun c hc => (decodeUnit_plain hc).2.2.2) _ hmem rfl
  have hne : (sessionID id).toList ≠ [] := by
    rw [toList_sessionID h]
    exact mt List.map_eq_nil_iff.mp (made_units h).1
  intro seg hseg
  rw [CleanPath.segments, List.splitOn_eq_singleton hslash, List.mem_singleton] at hseg
  rw [hseg]
  refine ⟨hne, fun heq => hdot ?_, fun heq => hdot ?_⟩
  · rw [heq]
    exact List.mem_cons_self
  · rw [heq]
    exact List.mem_cons_self

theorem isSourcePut_sessionID (icecastPassword : HttpGrammar.Bytes) {id : JsString}
    (h : Made other id) :
    IsSourcePut icecastPassword (sessionID id) (handshake icecastPassword (sessionID id)) := by
  have hvisible := visible_sessionID h
  refine ⟨sourcePut icecastPassword (sessionID id) hvisible, ?_, by rw [sourcePut],
    by rw [sourcePut], by simp [sourcePut, contentType, authorization]⟩
  rw [handshake, trimSpace_sessionID h, icecastConnection_eq_render icecastPassword hvisible]
  have hrender :=
    HttpGrammar.parseRequest_render (sourcePut icecastPassword (sessionID id) hvisible) []
  rwa [List.append_nil] at hrender

end StationNamesLemmas

open StationNamesLemmas StreamURLLemmas

/-- Whatever the password of the source and the base URL. -/
theorem made_ids (other : JsString → CodeUnit → JsString → JsString)
    (icecastPassword : HttpGrammar.Bytes) (streamBaseURL : String) {id : JsString}
    (h : Made other id) :
    trimSpace (sessionID id) = sessionID id ∧
      IsSourcePut icecastPassword (sessionID id) (handshake icecastPassword (sessionID id)) ∧
        streamURL streamBaseURL (sessionID id) = servedAt streamBaseURL (sessionID id) ∧
          ∀ id', Made other id' → id ≠ id' →
            streamURL streamBaseURL (sessionID id) ≠ streamURL streamBaseURL (sessionID id') := by
  have hurl := (streamURL_eq_iff streamBaseURL (sessionID id)).mpr (plainID_sessionID h)
  refine ⟨trimSpace_sessionID h, isSourcePut_sessionID icecastPassword h, hurl,
    fun id' h' hne heq => ?_⟩
  have hurl' := (streamURL_eq_iff streamBaseURL (sessionID id')).mpr (plainID_sessionID h')
  rw [hurl, hurl', servedAt, servedAt, String.append_right_inj] at heq
  exact hne (sessionID_injective h h' (mountpoint_injective heq))

/-- The bot on a server with an ampersand and a dot in its name. -/
theorem made_ids_guild : ∃ id, sessionID id = "dj-co-42" ∧
    IsSourcePut (HttpGrammar.bytes "hackme") (sessionID id)
      (handshake (HttpGrammar.bytes "hackme") (sessionID id)) ∧
    streamURL "http://icecast:9999" (sessionID id) =
      servedAt "http://icecast:9999" (sessionID id) := by
  have hguild : IsGuildId (ofString "42") := ⟨by decide, List.all_eq_true.mp (by decide)⟩
  obtain ⟨-, hput, hurl, -⟩ := made_ids (fun _ c _ => [c]) (HttpGrammar.bytes "hackme")
    "http://icecast:9999" (.guild ⟨some (ofString "DJ & Co."), some (ofString "42")⟩
      fun _ hid => Option.some_inj.mp hid ▸ hguild)
  exact ⟨_, by decide +kernel, hput, hurl⟩

end RadioJockey.StationNames
