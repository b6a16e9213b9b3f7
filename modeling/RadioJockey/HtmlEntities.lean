import RadioJockey.Lib.JsString

/-!
# Decoding the titles (`api/youtube-search/+server.ts`)

YouTube's snippets are HTML-escaped. `decodeHtmlEntities` replaces each match of
`/&(#\d+|#x[0-9a-fA-F]+|[a-zA-Z0-9]+);/` from left to right, none of them twice.
-/

namespace RadioJockey.YouTubeSearch

open JsString

def ampersand : CodeUnit := 0x26
def semicolon : CodeUnit := 0x3b
def numberSign : CodeUnit := 0x23
def lowercaseX : CodeUnit := 0x78

/-- What the group of the pattern matches. -/
inductive Entity
  | decimal (digits : JsString)
  | hexadecimal (digits : JsString)
  | named (name : JsString)
  deriving DecidableEq, Repr

def nonEmpty (p : CodeUnit → Bool) (s : JsString) : Bool := !s.isEmpty && s.all p

/-- The three alternatives of the group, on what is between `&` and `;`. -/
def entity? (body : JsString) : Option Entity :=
  match body with
  | [] => none
  | c :: cs =>
    if c = numberSign then
      if nonEmpty isDigit cs then some (.decimal cs)
      else match cs with
        | [] => none
        | x :: digits =>
          if x = lowercaseX ∧ nonEmpty isHexDigit digits then some (.hexadecimal digits) else none
    else if nonEmpty isAlphanumeric body then some (.named body)
    else none

def NAMED_ENTITIES : List (JsString × JsString) :=
  [("amp", "&"), ("lt", "<"), ("gt", ">"), ("quot", "\""), ("apos", "'"), ("#39", "'")].map
    fun e => (ofString e.1, ofString e.2)

/-- What an object literal inherits under an alphanumeric name. -/
def objectPrototype : List (JsString × JsString) :=
  [("constructor", "Object"), ("hasOwnProperty", "hasOwnProperty"),
    ("isPrototypeOf", "isPrototypeOf"), ("propertyIsEnumerable", "propertyIsEnumerable"),
    ("toLocaleString", "toLocaleString"), ("toString", "toString"), ("valueOf", "valueOf")].map
    fun e => (ofString e.1, ofString ("function " ++ e.2 ++ "() \x7b [native code] \x7d"))

/-- `NAMED_ENTITIES[entity]`, as the text that `replace` makes of it. The lookup
goes through to the prototype. -/
def lookupEntity (name : JsString) : Option JsString :=
  (NAMED_ENTITIES.lookup name).or (objectPrototype.lookup name)

/-- The callback of `replace`, for a match: `none` when it throws. -/
def replacement (matched : JsString) : Entity → Option JsString
  | .decimal digits => fromCodePoint (parseDigits 10 digits)
  | .hexadecimal digits => fromCodePoint (parseDigits 16 digits)
  | .named name => some ((lookupEntity name).getD matched)

/-- A match that begins with an `&` before `text`: the entity, the text that is
matched and the text behind it. No `;` is in the group, so the first one ends
the match. -/
def match? (text : JsString) : Option (Entity × JsString × JsString) :=
  let body := text.takeWhile (· ≠ semicolon)
  match text.dropWhile (· ≠ semicolon) with
  | [] => none
  | _ :: rest => (entity? body).map fun e => (e, ampersand :: body ++ [semicolon], rest)

/-- `replace`, on a text of at most `fuel` code units. -/
def decodeFrom : Nat → JsString → Option JsString
  | 0, _ | _, [] => some []
  | fuel + 1, c :: cs =>
    match if c = ampersand then match? cs else none with
    | none => (decodeFrom fuel cs).map (c :: ·)
    | some (e, matched, rest) => do
      let r ← replacement matched e
      let decoded ← decodeFrom fuel rest
      return r ++ decoded

/-- `none` when it throws. -/
def decodeHtmlEntities (text : JsString) : Option JsString := decodeFrom text.length text

example : decodeHtmlEntities (ofString "Simon &amp; Garfunkel&#39;s &#x266b; &foo; &") =
    some (ofString "Simon & Garfunkel's ♫ &foo; &") := by decide +kernel

example : decodeHtmlEntities (ofString "&#1114112;") = none := by decide +kernel

end RadioJockey.YouTubeSearch
