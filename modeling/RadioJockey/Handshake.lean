import RadioJockey.Connect
import RadioJockey.Lib.Base64
import RadioJockey.Lib.HttpGrammar

/-!
# The handshake with Icecast (`icecast.go`)

`icecastConnection` formats the mountpoint of a session into an HTTP request.
The id comes from the `CreateSession` RPC with its leading and trailing
whitespace trimmed, and with nothing else checked.

1. `request_injected`: an id with a space and line ends in it makes two
   requests out of the one.
2. `one_put_iff`: for every id and every password, the bytes are exactly the one
   request they are meant to be if and only if the trimmed id has neither a
   space nor an ASCII control character in it.
-/

namespace RadioJockey.Handshake

open HttpGrammar

def streamPathPrefix : String := "stream"

/-- The mountpoint that `streamSession` connects to. -/
def mountpoint (sessionID : SessionID) : String := streamPathPrefix ++ "/" ++ sessionID

/-- `[]byte("source:" + i.icecastPassword)`, encoded. A password may be any bytes. -/
def auth (icecastPassword : Bytes) : Bytes :=
  Base64.encode (bytes "source:" ++ icecastPassword)

/-- The bytes that `icecastConnection` writes to the connection. -/
def icecastConnection (icecastPassword : Bytes) (mountpoint : String) : Bytes :=
  bytes "PUT /" ++ bytes mountpoint ++
    bytes " HTTP/1.1\r\nContent-Type: audio/ogg\r\nAuthorization: Basic " ++
    auth icecastPassword ++ bytes "\r\n\r\n"

/-- What is written for a `CreateSession` request with the id `sessionID`. -/
def handshake (icecastPassword : Bytes) (sessionID : String) : Bytes :=
  icecastConnection icecastPassword (mountpoint (trimSpace sessionID))

/-- The bytes are one request, with nothing after it, that puts a stream at the
mountpoint of the session with the credentials of the source. -/
def IsSourcePut (icecastPassword : Bytes) (sessionID : SessionID) (written : Bytes) : Prop :=
  ∃ r : Request, parseRequest written = some (r, []) ∧
    r.method = bytes "PUT" ∧ r.target = bytes ("/" ++ mountpoint sessionID) ∧
    r.headers.map (fun h => (h.name, h.value)) =
      [(bytes "Content-Type", bytes "audio/ogg"),
        (bytes "Authorization", bytes "Basic " ++ auth icecastPassword)]

/-! ## The request that is meant -/

theorem auth_visible (icecastPassword : Bytes) : (auth icecastPassword).all visible = true :=
  Base64.encode_all (by decide +kernel) (by decide) _

theorem auth_ne_nil (icecastPassword : Bytes) : auth icecastPassword ≠ [] :=
  Base64.encode_ne_nil (by simp [bytes])

def contentType : Header where
  name := bytes "Content-Type"
  value := bytes "audio/ogg"
  name_token := by decide
  value_field := by decide
  value_trimmed := by decide

theorem credentials_field (icecastPassword : Bytes) :
    (bytes "Basic " ++ auth icecastPassword).all fieldByte = true := by
  have hauth : (auth icecastPassword).all fieldByte = true := by
    rw [List.all_eq_true]
    exact fun b hb => fieldByte_of_visible (List.all_eq_true.mp (auth_visible icecastPassword) b hb)
  rw [List.all_append, hauth]
  decide

/-- The value begins with a `B` and ends with a digit of the encoding. -/
theorem credentials_trimmed (icecastPassword : Bytes) :
    trimOws (bytes "Basic " ++ auth icecastPassword) = bytes "Basic " ++ auth icecastPassword := by
  have hbasic : bytes "Basic " = 66 :: [97, 115, 105, 99, 32] := by decide
  have hne : auth icecastPassword ≠ [] := auth_ne_nil icecastPassword
  have hlast : (bytes "Basic " ++ auth icecastPassword).getLast (by simp [hne]) =
      (auth icecastPassword).getLast hne :=
    List.getLast_append_of_ne_nil _ hne
  have hvisible := List.all_eq_true.mp (auth_visible icecastPassword) _ (List.getLast_mem hne)
  rw [← hlast] at hvisible
  simp only [hbasic, List.cons_append] at hvisible ⊢
  exact trimOws_eq_self (by decide) hvisible

def authorization (icecastPassword : Bytes) : Header where
  name := bytes "Authorization"
  value := bytes "Basic " ++ auth icecastPassword
  name_token := by decide
  value_field := credentials_field icecastPassword
  value_trimmed := credentials_trimmed icecastPassword

def sourcePut (icecastPassword : Bytes) (sessionID : SessionID)
    (h : sessionID.toList.all visibleChar = true) : Request where
  method := bytes "PUT"
  target := bytes ("/" ++ mountpoint sessionID)
  version := bytes "HTTP/1.1"
  headers := [contentType, authorization icecastPassword]
  method_token := by decide
  target_visible := by
    have hid : (bytes sessionID).all visible = true := (visible_bytes sessionID).trans h
    rw [mountpoint, isTarget]
    simp only [bytes_append, List.all_append, hid]
    rfl
  version_digits := by decide

/-- With an id of visible characters, the format string is the request written
out. -/
theorem icecastConnection_eq_render (icecastPassword : Bytes) {sessionID : SessionID}
    (h : sessionID.toList.all visibleChar = true) :
    icecastConnection icecastPassword (mountpoint sessionID) =
      (sourcePut icecastPassword sessionID h).render := by
  have hline : bytes "PUT /" = bytes "PUT" ++ sp :: bytes "/" := by decide
  have hheaders : bytes " HTTP/1.1\r\nContent-Type: audio/ogg\r\nAuthorization: Basic " =
      sp :: (bytes "HTTP/1.1" ++ cr :: lf :: (contentType.render ++ cr :: lf ::
        (bytes "Authorization" ++ colon :: sp :: bytes "Basic "))) := by decide
  have hend : bytes "\r\n\r\n" = cr :: lf :: [cr, lf] := by decide
  rw [icecastConnection, hline, hheaders, hend]
  simp [Request.render, Request.requestLine, sourcePut, renderHeaders, Header.render,
    authorization, bytes_append]

/-- The request is the one that is meant if and only if the id, trimmed, has no
space and no control character in it. -/
theorem one_put_iff (icecastPassword : Bytes) (sessionID : String) :
    IsSourcePut icecastPassword (trimSpace sessionID) (handshake icecastPassword sessionID) ↔
      (trimSpace sessionID).toList.all visibleChar = true := by
  constructor
  · rintro ⟨r, -, -, htarget, -⟩
    have hvisible := all_of_isTarget r.target_visible
    rw [htarget, mountpoint, bytes_append, bytes_append, List.all_append, List.all_append,
      Bool.and_eq_true, Bool.and_eq_true, visible_bytes (trimSpace sessionID)] at hvisible
    exact hvisible.2.2
  · intro h
    refine ⟨sourcePut icecastPassword (trimSpace sessionID) h, ?_, by rw [sourcePut],
      by rw [sourcePut], by simp [sourcePut, contentType, authorization]⟩
    rw [handshake, icecastConnection_eq_render icecastPassword h]
    have hrender := parseRequest_render (sourcePut icecastPassword (trimSpace sessionID) h) []
    rwa [List.append_nil] at hrender

/-! ## An injected request -/

def injectingID : String := "a HTTP/1.1\r\n\r\nDELETE /b"

/-- What the id leaves of the request: no credentials and another mountpoint. -/
def strippedPut : Request where
  method := bytes "PUT"
  target := bytes "/stream/a"
  version := bytes "HTTP/1.1"
  headers := []
  method_token := by decide
  target_visible := by decide
  version_digits := by decide

/-- What it puts behind it, with the credentials of the source. -/
def injectedDelete : Request where
  method := bytes "DELETE"
  target := bytes "/b"
  version := bytes "HTTP/1.1"
  headers := [contentType, authorization (bytes "hackme")]
  method_token := by decide
  target_visible := by decide
  version_digits := by decide

theorem request_injected :
    parseRequest (handshake (bytes "hackme") injectingID) =
        some (strippedPut, injectedDelete.render) ∧
      parseRequest injectedDelete.render = some (injectedDelete, []) ∧
      ¬ IsSourcePut (bytes "hackme") (trimSpace injectingID)
        (handshake (bytes "hackme") injectingID) := by
  have hwritten : handshake (bytes "hackme") injectingID =
      strippedPut.render ++ injectedDelete.render := by
    decide +kernel
  have hfirst : parseRequest (handshake (bytes "hackme") injectingID) =
      some (strippedPut, injectedDelete.render) := by
    rw [hwritten, parseRequest_render]
  have hsecond : parseRequest injectedDelete.render = some (injectedDelete, []) := by
    have hrender := parseRequest_render injectedDelete []
    rwa [List.append_nil] at hrender
  refine ⟨hfirst, hsecond, ?_⟩
  rintro ⟨r, hr, -⟩
  rw [hfirst] at hr
  have hrest : injectedDelete.render = [] := (Prod.mk.inj (Option.some.inj hr)).2
  exact absurd hrest (by decide)

end RadioJockey.Handshake
