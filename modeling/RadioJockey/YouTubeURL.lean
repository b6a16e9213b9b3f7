import RadioJockey.Lib.NetURL
import RadioJockey.Lib.Runes
import RadioJockey.YouTube

/-!
# The URLs that are let through (`music/youtube.go`)

A URL that `IsYouTubeURL` accepts goes to yt-dlp as it was sent, as the last
argument, and no `--` stands before it. The option parser of yt-dlp is a
parameter, with what is documented of it.

1. `isYouTubeURL_iff`: exactly the references with an authority are accepted
   whose host is one of seven names, in any case and escaped or not. The Kelvin
   sign passes for a `k` and the dotted capital `I` for an `i`.
2. `ytdlp_operands`: an accepted URL is the one operand of yt-dlp.
-/

namespace RadioJockey.YouTube

open NetURL Runes

def youTubeHosts : List String :=
  ["youtube.com", "www.youtube.com", "m.youtube.com", "music.youtube.com", "youtu.be",
    "youtube-nocookie.com", "www.youtube-nocookie.com"]

section

-- `netip.ParseAddr`, and `unicode.ToLower` where it gives no ASCII letter
variable (ipLiteral : NetURL.Bytes → Bool) (other : Char → Char)

/-- `strings.ToLower(parsed.Hostname())`. -/
def lowerHostname (rawURL : String) : Option String :=
  (NetURL.hostname ipLiteral rawURL.toList).map fun host => String.ofList (toLower other host)

/-- The host of the reference stands for `name`. -/
def Spells (r : Reference) (name : String) : Prop :=
  ∃ s, unescape hostAllowed r.host = some (encode s) ∧ List.Forall₂ Folds s name.toList

end

/-! ## The arguments of yt-dlp -/

/-- What `peekSourceID` runs yt-dlp with. -/
def peekArgs (url : String) : List String :=
  ["--skip-download", "--no-playlist", "--print", "id", url]

/-- What `ytdlp` runs yt-dlp with; `output` is the template of the path. -/
def ytdlpArgs (output url : String) : List String :=
  ["-x", "--audio-format", "opus", "--no-playlist", "--embed-metadata", "--print", "id",
    "--print", "duration", "--print", "after_move:filepath", "-o", output, url]

/-- Of the options that are used, those without a value. -/
def flags : List String := ["-x", "--no-playlist", "--embed-metadata", "--skip-download"]

/-- Those with a value, and the values they get. The path after `-o` is not one of
these. -/
def valued : List (String × String) :=
  [("--audio-format", "opus"), ("--print", "id"), ("--print", "duration"),
    ("--print", "after_move:filepath")]

/-- What is documented of the parser, which gives the operands, or nothing when it
refuses the arguments: it goes from left to right, an option with a value takes the
next argument for it, and what does not begin with a dash is an operand. -/
structure Documented (parse : List String → Option (List String)) : Prop where
  nil : parse [] = some []
  flag : ∀ arg ∈ flags, ∀ args, parse (arg :: args) = parse args
  valued : ∀ arg value, (arg, value) ∈ valued → ∀ args, parse (arg :: value :: args) = parse args
  output : ∀ path args, parse ("-o" :: path :: args) = parse args
  operand : ∀ (arg : String) args, arg.toList.head? ≠ some '-' →
    parse (arg :: args) = (parse args).map (arg :: ·)

namespace YouTubeURLLemmas

open NetURLLemmas

variable {ipLiteral : NetURL.Bytes → Bool} {other : Char → Char}

theorem isYouTubeURL_eq (hostname : String → Option String) (rawURL : String) :
    isYouTubeURL hostname rawURL = true ↔ ∃ name ∈ youTubeHosts, hostname rawURL = some name := by
  rw [isYouTubeURL]
  split
  · next h => simp [h]
  · next host h => simp [h, youTubeHosts]

theorem youTubeHosts_ascii : ∀ name ∈ youTubeHosts,
    name.toList ≠ [] ∧ ':' ∉ name.toList ∧ ∀ d ∈ name.toList, d.toNat < 0x80 := by
  have hcheck : ∀ name ∈ youTubeHosts, name.toList ≠ [] ∧ ':' ∉ name.toList ∧
      name.toList.all (fun d => decide (d.toNat < 0x80)) = true := by decide
  intro name hname
  obtain ⟨hne, hcolon, hall⟩ := hcheck name hname
  exact ⟨hne, hcolon, fun d hd => of_decide_eq_true (List.all_eq_true.mp hall d hd)⟩

theorem encode_ne_nil {s name : List Char} (hs : List.Forall₂ Folds s name) (hne : name ≠ []) :
    encode s ≠ [] := by
  cases hs with
  | nil => exact absurd rfl hne
  | @cons c _ _ _ hc hs =>
    intro h
    have hlength : c.utf8Size = 0 := by
      rw [← String.length_utf8EncodeChar, (List.append_eq_nil_iff.mp h).1, List.length_nil]
    exact absurd c.utf8Size_pos (by omega)

/-- Only a colon folds to a colon. -/
theorem colon_notMem_encode {s name : List Char} (hs : List.Forall₂ Folds s name)
    (hcolon : ':' ∉ name) : NetURL.colon ∉ encode s := by
  induction hs with
  | nil => exact List.not_mem_nil
  | @cons c d s name hc hs ih =>
    obtain ⟨hd, hname⟩ := not_or.mp (mt List.mem_cons.mpr hcolon)
    rw [encode, List.flatMap_cons, List.mem_append, not_or]
    refine ⟨fun hmem => ?_, ih hname⟩
    rcases Nat.lt_or_ge c.toNat 0x80 with hascii | hhigh
    · rw [utf8EncodeChar_ascii hascii, List.mem_singleton] at hmem
      obtain rfl : ':' = c := toByte_inj (by decide) hascii hmem
      rcases hc with hc | ⟨hc, -⟩ | ⟨hc, -⟩
      · exact hd hc
      · exact absurd hc (by decide)
      · exact absurd hc (by decide)
    · exact absurd (le_of_mem_utf8EncodeChar hhigh hmem) (by decide)

/-! ## The arguments -/

/-- An accepted URL begins with a letter or a slash. -/
theorem head?_of_reference {r : Reference} {url : String} (h : r.text = url.toList) :
    url.toList.head? ≠ some '-' := by
  obtain ⟨c, cs, htext, hc⟩ := text_head r
  rw [← h, htext, List.head?_cons]
  rintro ⟨⟩
  rcases hc with hc | hc <;> exact absurd hc (by decide)

theorem parse_url {parse : List String → Option (List String)} (hparse : Documented parse)
    {url : String} (h : url.toList.head? ≠ some '-') : parse [url] = some [url] := by
  rw [hparse.operand url [] h, hparse.nil, Option.map_some]

/-! ## Accepted URLs -/

theorem accepted_of_reference (hip : ∀ b, ipLiteral b = true → NetURL.colon ∈ b)
    (hother : ∀ c, 0x80 ≤ c.toNat → 0x80 ≤ (other c).toNat) {rawURL : String} {r : Reference}
    (htext : r.text = rawURL.toList) {name : String} (hname : name ∈ youTubeHosts)
    (hr : Spells r name) : isYouTubeURL (lowerHostname ipLiteral other) rawURL = true := by
  obtain ⟨s, hr, hs⟩ := hr
  obtain ⟨hne, hcolon, hascii⟩ := youTubeHosts_ascii name hname
  have hhost : NetURL.hostname ipLiteral rawURL.toList = some (encode s) :=
    (hostname_eq_some_iff hip (encode_ne_nil hs hne) (colon_notMem_encode hs hcolon)).mpr
      ⟨r, htext, hr⟩
  have hlower := (toLower_eq_iff hother hascii).mpr ⟨s, rfl, hs⟩
  refine (isYouTubeURL_eq _ _).mpr ⟨name, hname, ?_⟩
  rw [lowerHostname, hhost, Option.map_some, hlower, String.ofList_toList]

theorem reference_of_accepted (hip : ∀ b, ipLiteral b = true → NetURL.colon ∈ b)
    (hother : ∀ c, 0x80 ≤ c.toNat → 0x80 ≤ (other c).toNat) {rawURL : String}
    (h : isYouTubeURL (lowerHostname ipLiteral other) rawURL = true) :
    ∃ r : Reference, r.text = rawURL.toList ∧ ∃ name ∈ youTubeHosts, Spells r name := by
  obtain ⟨name, hname, hraw⟩ := (isYouTubeURL_eq _ _).mp h
  obtain ⟨hne, hcolon, hascii⟩ := youTubeHosts_ascii name hname
  obtain ⟨host, hhost, hlower⟩ := Option.map_eq_some_iff.mp hraw
  have hlower : toLower other host = name.toList := by rw [← hlower, String.toList_ofList]
  obtain ⟨s, rfl, hs⟩ := (toLower_eq_iff hother hascii).mp hlower
  obtain ⟨r, htext, hr⟩ := (hostname_eq_some_iff hip (encode_ne_nil hs hne)
    (colon_notMem_encode hs hcolon)).mp hhost
  exact ⟨r, htext, name, hname, s, hr, hs⟩

end YouTubeURLLemmas

open YouTubeURLLemmas

variable {ipLiteral : NetURL.Bytes → Bool} {other : Char → Char}

/-- For every string. The text of an IPv6 address has a colon in it. -/
theorem isYouTubeURL_iff (hip : ∀ b, ipLiteral b = true → NetURL.colon ∈ b)
    (hother : ∀ c, 0x80 ≤ c.toNat → 0x80 ≤ (other c).toNat) (rawURL : String) :
    isYouTubeURL (lowerHostname ipLiteral other) rawURL = true ↔
      ∃ r : Reference, r.text = rawURL.toList ∧ ∃ name ∈ youTubeHosts, Spells r name := by
  constructor
  · exact reference_of_accepted hip hother
  · rintro ⟨r, htext, name, hname, hr⟩
    exact accepted_of_reference hip hother htext hname hr

/-- Stands for the address parser. -/
def isLoopback (b : NetURL.Bytes) : Bool := b == [0x3a, 0x3a, 0x31]

theorem colon_mem_of_isLoopback (b : NetURL.Bytes) (h : isLoopback b = true) :
    NetURL.colon ∈ b := by
  obtain rfl := beq_iff_eq.mp h
  decide

/-- With a user, a port and all other parts, and an escaped Kelvin sign in the
host. -/
def kelvinReference : Reference where
  scheme := some "HTTPS".toList
  userinfo := some "a@b".toList
  host := "YouTube-noCoo%E2%84%aaie.com".toList
  port := some "443".toList
  path := some "embed/%20".toList
  query := some "v=%".toList
  fragment := some "t=1".toList
  scheme_ok := by decide
  userinfo_ok := by decide
  host_ok := by decide +kernel
  port_ok := by decide
  path_ok := by decide
  query_ok := by decide
  fragment_ok := by decide

theorem spells_kelvinReference : Spells kelvinReference "youtube-nocookie.com" := by
  refine ⟨"YouTube-noCoo\u212Aie.com".toList, by decide +kernel, ?_⟩
  simp [Folds]

theorem isYouTubeURL_iff_kelvin : isYouTubeURL (lowerHostname isLoopback id)
    "HTTPS://a@b@YouTube-noCoo%E2%84%aaie.com:443/embed/%20?v=%#t=1" = true :=
  (isYouTubeURL_iff colon_mem_of_isLoopback (fun _ h => h) _).mpr
    ⟨kelvinReference, by decide +kernel, "youtube-nocookie.com", by decide, spells_kelvinReference⟩

/-- For every accepted URL, whatever the directory of the music. -/
theorem ytdlp_operands {parse : List String → Option (List String)} (hparse : Documented parse)
    (hip : ∀ b, ipLiteral b = true → NetURL.colon ∈ b)
    (hother : ∀ c, 0x80 ≤ c.toNat → 0x80 ≤ (other c).toNat) {url : String}
    (h : isYouTubeURL (lowerHostname ipLiteral other) url = true) (output : String) :
    parse (peekArgs url) = some [url] ∧ parse (ytdlpArgs output url) = some [url] := by
  obtain ⟨r, htext, -⟩ := reference_of_accepted hip hother h
  have hurl := parse_url hparse (head?_of_reference htext)
  constructor
  · rw [peekArgs, hparse.flag _ (by decide), hparse.flag _ (by decide),
      hparse.valued _ _ (by decide), hurl]
  · rw [ytdlpArgs, hparse.flag _ (by decide), hparse.valued _ _ (by decide),
      hparse.flag _ (by decide), hparse.flag _ (by decide), hparse.valued _ _ (by decide),
      hparse.valued _ _ (by decide), hparse.valued _ _ (by decide), hparse.output, hurl]

def valuedNames : List String := "-o" :: valued.map Prod.fst

/-- A parser that knows these options only. -/
def parseArgs : List String → Option (List String)
  | [] => some []
  | [arg] =>
    if flags.contains arg then some []
    else if arg.toList.head? = some '-' then none
    else some [arg]
  | arg :: value :: args =>
    if flags.contains arg then parseArgs (value :: args)
    else if valuedNames.contains arg then parseArgs args
    else if arg.toList.head? = some '-' then none
    else (parseArgs (value :: args)).map (arg :: ·)

theorem parseArgs_valued {arg : String} (harg : arg ∈ valuedNames) (value : String)
    (args : List String) : parseArgs (arg :: value :: args) = parseArgs args := by
  have hflag : ¬ flags.contains arg = true := by
    have hcheck : ∀ arg ∈ valuedNames, flags.contains arg = false := by decide
    rw [hcheck arg harg]
    exact Bool.noConfusion
  rw [parseArgs, if_neg hflag, if_pos (List.contains_iff_mem.mpr harg)]

theorem documented_parseArgs : Documented parseArgs where
  nil := rfl
  flag arg harg args := by
    have hflag : flags.contains arg = true := List.contains_iff_mem.mpr harg
    cases args with
    | nil => rw [show parseArgs [] = some [] from rfl, parseArgs, if_pos hflag]
    | cons value args => rw [parseArgs, if_pos hflag]
  valued arg value harg :=
    parseArgs_valued (List.mem_cons_of_mem _ (List.mem_map_of_mem harg)) value
  output := parseArgs_valued List.mem_cons_self
  operand arg args harg := by
    have hdash : ∀ arg' ∈ flags ++ valuedNames, arg'.toList.head? = some '-' := by decide
    have hnone : ∀ l ⊆ flags ++ valuedNames, ¬ l.contains arg = true := by
      intro l hl hmem
      exact harg (hdash arg (hl (List.contains_iff_mem.mp hmem)))
    have hflag := hnone flags (List.subset_append_left _ _)
    have hvalued := hnone valuedNames (List.subset_append_right _ _)
    cases args with
    | nil => rw [show parseArgs [] = some [] from rfl, parseArgs, if_neg hflag, if_neg harg,
        Option.map_some]
    | cons value args => rw [parseArgs, if_neg hflag, if_neg hvalued, if_neg harg]

theorem ytdlp_operands_kelvin :
    parseArgs (peekArgs "HTTPS://a@b@YouTube-noCoo%E2%84%aaie.com:443/embed/%20?v=%#t=1") =
        some ["HTTPS://a@b@YouTube-noCoo%E2%84%aaie.com:443/embed/%20?v=%#t=1"] ∧
      parseArgs (ytdlpArgs "/music/youtube/%(id)s.opus"
          "HTTPS://a@b@YouTube-noCoo%E2%84%aaie.com:443/embed/%20?v=%#t=1") =
        some ["HTTPS://a@b@YouTube-noCoo%E2%84%aaie.com:443/embed/%20?v=%#t=1"] :=
  ytdlp_operands documented_parseArgs colon_mem_of_isLoopback
    (show ∀ c : Char, 0x80 ≤ c.toNat → 0x80 ≤ (id c).toNat from fun _ h => h)
    (accepted_of_reference colon_mem_of_isLoopback (fun _ h => h) (r := kelvinReference)
      (by decide +kernel) (by decide) spells_kelvinReference) _

end RadioJockey.YouTube
