import ModCluster.Workers

/-!
# Sessions

The part of `common.c` that finds the session id of a request, and the request
itself as far as the proxy modules read and write it.
-/

open CString Slotmem

namespace ModCluster

/-- A string of a request in its place in memory. -/
structure Text where
  /-- The byte in front of the string. -/
  before : Byte
  mem : Mem
deriving DecidableEq

namespace Text

def str (t : Text) : Str := strAt t.mem 0

/-- A string on its own. -/
def ofStr (s : Str) : Text := ⟨0, s⟩

/-- The pointer `t + n`. -/
def advance (t : Text) (n : Nat) : Text := ⟨byteAt (t.before :: t.mem) n, t.mem.drop n⟩

end Text

/-- One entry of what the context search returns. An entry with node -1 ends it. -/
structure NodeContext where
  node : Int
  context : Int
deriving DecidableEq

/-- The entries of `r->notes` and `r->subprocess_env` that the modules read. -/
structure Notes where
  sessionId : Option Str
  sessionRoute : Option Str
  sessionSticky : Option Str
  clusterDomain : Option Str
  proxyContext : Option (List NodeContext)
  sessionDomainOk : Bool
  noContextError : Bool
  /-- `BALANCER_CONTEXT_ID`. The empty string is no id. -/
  contextId : Option Int
  routeChanged : Bool
  workerName : Option Str
  workerRoute : Option Str
deriving DecidableEq

def Notes.empty : Notes where
  sessionId := none
  sessionRoute := none
  sessionSticky := none
  clusterDomain := none
  proxyContext := none
  sessionDomainOk := false
  noContextError := false
  contextId := none
  routeChanged := false
  workerName := none
  workerRoute := none

structure Request where
  uri : Text
  unparsedUri : Text
  filename : Option Text
  /-- The Cookie header. -/
  cookie : Option Mem
  /-- `ap_get_server_name`. -/
  serverName : Str
  notes : Notes
deriving DecidableEq

/-! ## Session ids -/

def startsCookie (cookies : Mem) (p : Nat) : Bool :=
  p == 0 || byteAt cookies (p - 1) == ch ';' || byteAt cookies (p - 1) == ch ',' ||
    isSpace (byteAt cookies (p - 1))

def skipSpaces (m : Mem) : (fuel : Nat) → (p : Nat) → Nat
  | 0, p => p
  | fuel + 1, p => if isSpace (byteAt m p) then skipSpaces m fuel (p + 1) else p

/-- The value of a cookie, without its quotes. -/
def cookieValue (s : Str) : Str :=
  let cookie := (s.takeWhile (· != ch ';')).takeWhile (· != ch ',')
  if cookie.head? = some (ch '"') ∧ cookie.getLast? = some (ch '"') then (cookie.drop 1).dropLast else cookie

/-- The loop from `start` on. The pointer may walk past the end of the header, into
what stands behind it. -/
def cookieLoop (cookies : Mem) (name : Str) : (fuel : Nat) → (start : Nat) → Option Str
  | 0, _ => none
  | fuel + 1, start =>
    match strstr (strAt cookies start) name with
    | none => none
    | some k =>
      let p := start + k
      if startsCookie cookies p then
        let q := skipSpaces cookies cookies.length (p + name.length)
        if byteAt cookies q = ch '=' ∧ byteAt cookies (q + 1) ≠ 0 then some (cookieValue (strAt cookies (q + 1)))
        else cookieLoop cookies name fuel (q + 1)
      else cookieLoop cookies name fuel (p + 1)

def getCookieParam (cookie : Option Mem) (name : Str) : Option Str :=
  match cookie with
  | some cookies => cookieLoop cookies name (cookies.length + 1) 0
  | none => none

def pathdelims : Str := ascii ";?&"

def pathLoop (url : Text) (name : Str) : (fuel : Nat) → (start : Nat) → Option Str
  | 0, _ => none
  | fuel + 1, start =>
    match strstr (strAt url.mem start) name with
    | none => none
    | some k =>
      let p := start + k
      if byteAt (url.before :: url.mem) p = ch ';' then
        let q := p + name.length
        if byteAt url.mem q = ch '=' then
          if byteAt url.mem (q + 1) ≠ 0 then strtok pathdelims (strAt url.mem (q + 1))
          else pathLoop url name fuel (q + 2)
        else pathLoop url name fuel (q + 1)
      else pathLoop url name fuel (p + 1)

def getPathParam (url : Text) (name : Str) : Option Str := pathLoop url name (url.mem.length + 1) 0

/-- The session id and the name it was found under. The names are told apart by the
first bar. -/
def clusterGetSessionid (r : Request) (stickyval : Str) (uri : Text) : Option Str × Str :=
  let sticky := stickyval.takeWhile (· != ch '|')
  let stickyPath := (after (ch '|') stickyval).getD stickyval
  match getCookieParam r.cookie sticky with
  | some route => (some route, stickyPath)
  | none => (getPathParam uri stickyPath, sticky)

def ProxyBalancer.stickyval (b : ProxyBalancer) : Str := b.sticky ++ ascii "|" ++ b.stickyPath

/-- What the workers call the route: all behind the first dot. -/
def sessionRouteOf (sessionid : Str) : Option Str := after (ch '.') sessionid

/-! ## Removing the session -/

/-- Cut the parameter `name` out of the file name. -/
def removePathLoop (url : Text) (name : Str) : (fuel : Nat) → (pos : Nat) → Option Text
  | 0, _ => none
  | fuel + 1, pos =>
    match strstr (strAt url.mem pos) name with
    | none => none
    | some k =>
      let p := pos + k
      let start := if byteAt (url.before :: url.mem) p = ch '&' then p - 1 else p
      let q := p + name.length
      if byteAt url.mem q = ch '=' then
        if byteAt url.mem (q + 1) ≠ 0 then
          some (Text.ofStr (url.str.take start ++ (strAt url.mem (q + 1)).dropWhile (· != ch '&')))
        else removePathLoop url name fuel (q + 2)
      else removePathLoop url name fuel (q + 1)

/-- Cut the cookie `name` out of the header. `buf` is the copy that is searched and
`cookies` the header as it stands, which is `buf` itself until the first cut. -/
def removeCookieLoop (buf : Mem) (name : Str) : (fuel : Nat) → (pos : Nat) → (cookies : Option Str) → Option Str
  | 0, _, cookies => cookies
  | fuel + 1, pos, cookies =>
    match strstr (strAt buf pos) name with
    | none => cookies
    | some k =>
      let p := pos + k
      if startsCookie buf p ∧ (p ≠ 0 ∨ cookies = none) then
        let start := if p ≠ 0 then p - 1 else p
        let q := skipSpaces buf buf.length (p + name.length)
        if byteAt buf q = ch '=' ∧ byteAt buf (q + 1) ≠ 0 then
          let rest := strAt buf (q + 1)
          let tail := match rest.dropWhile (· != ch ';') with
            | [] => rest.dropWhile (· != ch ',')
            | tail => tail
          let kept := match cookies with
            | none => (strAt buf 0).take start
            | some cookies => cookies
          removeCookieLoop buf name fuel (q + 2) (some (kept ++ tail))
        else removeCookieLoop buf name fuel (q + 1) cookies
      else removeCookieLoop buf name fuel (p + 1) cookies

def removeSessionRoute (r : Request) (name : Str) : Request :=
  match r.filename.bind fun url => removePathLoop url name (url.mem.length + 1) 0 with
  | some filename => { r with filename := some filename }
  | none =>
    match r.cookie with
    | none => r
    | some cookies =>
      match removeCookieLoop cookies name (cookies.length + 1) 0 none with
      | none => r
      | some cookies => { r with cookie := some cookies }

end ModCluster
