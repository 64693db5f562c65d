import ModCluster.Httpd

/-!
# MCMP messages

How `mod_manager.c` reads the fields of a message. `process_buff` leaves the
tokens of a message in one buffer, and the field handlers write into it: a list
is split by putting NULs over its commas. So a message is that memory and the
offsets of its tokens, and the lists of aliases and contexts are offsets too.
-/

open CString Slotmem

namespace ModCluster

structure Argv where
  mem : Mem
  ptr : List Nat
deriving DecidableEq

/-! ## Splitting -/

def isSeparator (b : Byte) : Bool := b == ch '&' || b == ch '='

/-- The offsets behind the separators of a body from offset `pos` on. -/
def tokenStarts (pos : Nat) : Str → List Nat
  | [] => []
  | b :: rest => if isSeparator b then (pos + 1) :: tokenStarts (pos + 1) rest else tokenStarts (pos + 1) rest

def hexDigit (b : Byte) : Byte :=
  if isDigit b then b - 48 else if 97 ≤ b then b - 87 else b - 55

def modManagerHex2c (a b : Byte) : Byte := hexDigit a * 16 + hexDigit b

/-- The characters that no token may hold once it is decoded. -/
def isForbidden (b : Byte) : Bool :=
  b == ch '<' || b == ch '>' || b == ch '"' || b == ch '\'' || b == 13 || b == 10

/-- The character that `b` stands for when `rest` follows it, and how many of those
it uses up. -/
def decodeChar (b : Byte) (rest : Str) : Byte × Nat :=
  match rest with
  | x :: y :: _ => if b == ch '%' && isXDigit x && isXDigit y then (modManagerHex2c x y, 2) else (b, 0)
  | _ => (b, 0)

def decodeStr (skip : Nat) : Str → Option (List Byte)
  | [] => some []
  | b :: rest =>
    match skip with
    | n + 1 => decodeStr n rest
    | 0 =>
      let c := decodeChar b rest
      if isForbidden c.1 then none else (decodeStr c.2 rest).map (c.1 :: ·)

def decodeenc (mem : Mem) : List Nat → Option Mem
  | [] => some mem
  | p :: ptr =>
    match decodeStr 0 (strAt mem p) with
    | some t => decodeenc (write mem p (t ++ [0])) ptr
    | none => none

/-- Split a buffer, up to its first NUL, into its tokens and decode them in place. -/
def processBuff (buff : Mem) : Option Argv :=
  let text := strAt buff 0
  let ptr := 0 :: tokenStarts 0 text
  let mem := write buff 0 (text.map fun b => if isSeparator b then 0 else b)
  (decodeenc mem ptr).map fun mem => { mem := mem, ptr := ptr }

/-! ## Errors -/

inductive CapacityError where
  | mhostui (host : Str)
  | mcontui (context host : Str)
deriving DecidableEq

inductive McmpError where
  | smespar
  | sbalbig
  | sbafbig
  | sroubig
  | sroubad
  | sdombig
  | shosbig
  | sporbig
  | stypbig
  | salibig
  | sconbig
  | sflubad
  | spngbad
  | sttlbad
  | stimbad
  | salibad
  | sconbad
  | noconal
  | sbadfld (field : Str)
  | smisfld
  | scmduns
  | sreader (method : Str)
  | badLoad
  | noRoute
  | badScheme (scheme : Str)
  | emptyAlias
  | emptyContext
  | nodeExists (route : Str)
  | mnodeet
  | mbalaui (route : Str)
  | mnodeui (route : Str)
  | mnoderd (route : Str)
  | capacity (route : Str) (errors : List CapacityError)
deriving DecidableEq

def CapacityError.text (route : Str) : CapacityError → Str
  | .mhostui a =>
    ascii "MEM: Can't update or insert host alias for node with \"" ++ route ++ ascii "\" JVMRoute (" ++
      a ++ ascii ")"
  | .mcontui c a =>
    ascii "MEM: Can't update or insert context for node with \"" ++ route ++ ascii "\" JVMRoute (" ++
      c ++ ascii " and alias: " ++ a ++ ascii ")"

namespace McmpError

def text : McmpError → Str
  | smespar => ascii
      "SYNTAX: Can't parse MCMP message. It might have contained illegal symbols or unknown elements."
  | sbalbig => ascii "SYNTAX: Balancer field too big"
  | sbafbig => ascii "SYNTAX: A field is too big"
  | sroubig => ascii "SYNTAX: JVMRoute field too big"
  | sroubad => ascii "SYNTAX: JVMRoute can't be empty"
  | sdombig => ascii "SYNTAX: LBGroup field too big"
  | shosbig => ascii "SYNTAX: Host field too big"
  | sporbig => ascii "SYNTAX: Port field too big"
  | stypbig => ascii "SYNTAX: Type field too big"
  | salibig => ascii "SYNTAX: Alias field too big"
  | sconbig => ascii "SYNTAX: Context field too big"
  | sflubad => ascii "SYNTAX: Flushwait field has bad value"
  | spngbad => ascii "SYNTAX: Ping field has bad value"
  | sttlbad => ascii "SYNTAX: TTL field has bad value"
  | stimbad => ascii "SYNTAX: Timeout field has bad value"
  | salibad => ascii "SYNTAX: Alias without Context"
  | sconbad => ascii "SYNTAX: Context without Alias"
  | noconal => ascii "SYNTAX: No Context and Alias in APP command"
  | sbadfld field => ascii "SYNTAX: Invalid field \"" ++ field ++ ascii "\" in message"
  | smisfld => ascii "SYNTAX: Mandatory field(s) missing in message"
  | scmduns => ascii "SYNTAX: Command is not supported"
  | sreader method => ascii "SYNTAX: " ++ method ++ ascii " can't read POST data"
  | badLoad => ascii "TODO: Bad value for Load"
  | noRoute => ascii "TODO: No JVMRoute given!"
  | badScheme scheme => ascii "PING Unsupported scheme: " ++ scheme
  | emptyAlias => ascii "TODO: Empty Alias is not allowed"
  | emptyContext => ascii "TODO: Empty Context is not allowed"
  | nodeExists route => ascii "MEM: Node with \"" ++ route ++ ascii "\" JVMRoute already exists"
  | mnodeet => ascii "MEM: Another for the same worker already exist"
  | mbalaui route =>
    ascii "MEM: Can't update or insert balancer for node with \"" ++ route ++ ascii "\" JVMRoute"
  | mnodeui route => ascii "MEM: Can't update or insert node with \"" ++ route ++ ascii "\" JVMRoute"
  | mnoderd route => ascii "MEM: Can't read node with \"" ++ route ++ ascii "\" JVMRoute"
  | capacity route errors => (ascii ", ").intercalate (errors.map (·.text route))

end McmpError

/-! ## The configuration a message is read under -/

/-- The part of `mod_manager_config` that CONFIG reads. -/
structure Mconf where
  balancername : Option Str
  ajpSecret : Option Str
  enableWsTunnel : Bool
  wsUpgradeHeader : Option Str
  responseFieldSize : Int
deriving DecidableEq

def Mconf.default : Mconf :=
  { balancername := none, ajpSecret := none, enableWsTunnel := false, wsUpgradeHeader := none,
    responseFieldSize := 0 }

/-- The tokens of a message as `process_buff` lays them out, when none had to be decoded. -/
def Argv.ofTokens (tokens : List Str) : Argv where
  mem := tokens.flatMap (· ++ [0])
  ptr := (tokens.foldl (fun (acc : List Nat × Nat) t => (acc.1 ++ [acc.2], acc.2 + t.length + 1)) ([], 0)).1

def processConfigBalancerDefaults (mconf : Mconf) : Balancerinfo :=
  { (default : Balancerinfo) with
    balancer := match mconf.balancername with
      | some name => truncate (BALANCERSZ - 1) (lower name)
      | none => ascii "mycluster"
    stickySession := true
    stickySessionForce := true
    stickySessionRemove := false
    stickySessionCookie := ascii "JSESSIONID"
    stickySessionPath := ascii "jsessionid"
    maxattempts := 1
    timeout := 0 }

def processConfigNodeDefaults (httpd : Httpd) (mconf : Mconf) : Nodeinfo :=
  { (default : Nodeinfo) with
    mess := { (default : Nodemess) with
      balancer := match mconf.balancername with
        | some name => truncate (BALANCERSZ - 1) (lower name)
        | none => ascii "mycluster"
      host := ascii "localhost"
      port := ascii "8009"
      type := ascii "ajp"
      flushpackets := 0
      flushwait := httpd.flushWait
      ping := 10 * 1000000
      smax := -1
      ttl := 60 * 1000000
      timeout := 0
      id := -1 } }

/-! ## Fields -/

def processBooleanParameter (val : Str) : Option Bool :=
  if caseEq val (ascii "yes") || caseEq val (ascii "on") then some true
  else if caseEq val (ascii "no") || caseEq val (ascii "off") then some false
  else none

/-- What has been read of a CONFIG message so far. -/
structure Parsing where
  mem : Mem
  node : Nodeinfo
  balancer : Balancerinfo
  contexts : List Nat
  aliases : List Nat
deriving DecidableEq

/-- Drop the zone of an address that starts with a bracket, and all but `]` behind it. -/
def stripZone (flag : Bool) : Str → Str
  | [] => []
  | b :: rest =>
    if (b == ch '%' || flag) && b != ch ']' then stripZone true rest else b :: stripZone flag rest

def setBalancer (st : Parsing) (f : Balancerinfo → Balancerinfo) : Parsing :=
  { st with balancer := f st.balancer }

def setMess (st : Parsing) (f : Nodemess → Nodemess) : Parsing :=
  { st with node := { st.node with mess := f st.node.mess } }

/-- The balancer's name, in lower case in the message too. -/
def setBalancerName (st : Parsing) (val : Nat) (name : Str) : Parsing :=
  setMess (setBalancer { st with mem := write st.mem val name } fun b =>
    { b with balancer := truncate (BALANCERSZ - 1) name }) fun m =>
      { m with balancer := truncate (BALANCERSZ - 1) name }

/-- What is done with a field: it gets the value, its offset, and what was read before. -/
abbrev Handler := Str → Nat → Parsing → Except McmpError Parsing

/-- The names are distinct, so of the comparisons made one after the other at most one
is true. -/
def runHandler (handlers : List (Str × Handler)) (key val : Nat) (st : Parsing) :
    Except McmpError Parsing :=
  match handlers.find? fun h => caseEq (strAt st.mem key) h.1 with
  | some h => h.2 (strAt st.mem val) val st
  | none => .ok st

def balancerHandlers : List (Str × Handler) :=
  [(ascii "Balancer", fun v val st =>
      if v.length ≥ BALANCERSZ then .error .sbalbig else .ok (setBalancerName st val (lower v))),
    (ascii "StickySession", fun v _ st => .ok (setBalancer st fun b => { b with
      stickySession := (processBooleanParameter v).getD b.stickySession })),
    (ascii "StickySessionCookie", fun v _ st =>
      if v.length ≥ COOKNAMESZ then .error .sbafbig
      else .ok (setBalancer st fun b => { b with stickySessionCookie := v })),
    (ascii "StickySessionPath", fun v _ st =>
      if v.length ≥ PATHNAMESZ then .error .sbafbig
      else .ok (setBalancer st fun b => { b with stickySessionPath := v })),
    (ascii "StickySessionRemove", fun v _ st => .ok (setBalancer st fun b => { b with
      stickySessionRemove := (processBooleanParameter v).getD b.stickySessionRemove })),
    (ascii "StickySessionForce", fun v _ st => .ok (setBalancer st fun b => { b with
      stickySessionForce := (processBooleanParameter v).getD b.stickySessionForce })),
    (ascii "WaitWorker", fun v _ st => .ok (setBalancer st fun b => { b with
      timeout := toInt32 (atoi v * 1000000) })),
    (ascii "Maxattempts", fun v _ st => .ok (setBalancer st fun b => { b with
      maxattempts := atoi v }))]

def processConfigBalancer (key val : Nat) (st : Parsing) : Except McmpError Parsing :=
  runHandler balancerHandlers key val st

/-- A field that is copied when it is shorter than its buffer. -/
def copyField (st : Parsing) (v : Str) (size : Nat) (big : McmpError) (set : Nodemess → Nodemess) :
    Except McmpError Parsing :=
  if v.length ≥ size then .error big else .ok (setMess st set)

/-- A field that `ap_timeout_parameter_parse` reads. -/
def timeField (httpd : Httpd) (st : Parsing) (v unit : Str) (bad : McmpError)
    (set : Int → Nodemess → Nodemess) : Except McmpError Parsing :=
  match httpd.timeoutParameterParse v unit with
  | some t => .ok (setMess st (set t))
  | none => .error bad

/-- An address in brackets loses its zone, in the message too. -/
def hostField (st : Parsing) (val : Nat) (v : Str) : Parsing :=
  if v.head? = some (ch '[') then
    setMess { st with mem := write st.mem val (stripZone false v ++ [0]) } fun m =>
      { m with host := stripZone false v }
  else setMess st fun m => { m with host := v }

def flushpacketsField (v : Str) (old : Int) : Int :=
  match processBooleanParameter v with
  | some true => 1
  | some false => 0
  | none => if caseEq v (ascii "auto") then 2 else old

def nodeHandlers (httpd : Httpd) : List (Str × Handler) :=
  [(ascii "JVMRoute", fun v _ st =>
      copyField st v httpd.routeSize .sroubig fun m => { m with jvmRoute := v }),
    (ascii "Domain", fun v _ st => copyField st v DOMAINNDSZ .sdombig fun m => { m with domain := v }),
    (ascii "Host", fun v val st =>
      if v.length ≥ HOSTNODESZ then .error .shosbig else .ok (hostField st val v)),
    (ascii "Port", fun v _ st => copyField st v PORTNODESZ .sporbig fun m => { m with port := v }),
    (ascii "Type", fun v _ st => copyField st v SCHEMENDSZ .stypbig fun m => { m with type := v }),
    (ascii "Reversed", fun v _ st => .ok (setMess st fun m => { m with
      reversed := (processBooleanParameter v).getD m.reversed })),
    (ascii "flushpackets", fun v _ st => .ok (setMess st fun m => { m with
      flushpackets := flushpacketsField v m.flushpackets })),
    (ascii "flushwait", fun v _ st =>
      timeField httpd st v (ascii "ms") .sflubad fun t m => { m with flushwait := toInt32 t }),
    (ascii "ping", fun v _ st =>
      timeField httpd st v (ascii "s") .spngbad fun t m => { m with ping := t }),
    (ascii "smax", fun v _ st => .ok (setMess st fun m => { m with smax := atoi v })),
    (ascii "ttl", fun v _ st =>
      timeField httpd st v (ascii "s") .sttlbad fun t m => { m with ttl := t }),
    (ascii "Timeout", fun v _ st =>
      timeField httpd st v (ascii "s") .stimbad fun t m => { m with timeout := t })]

def processConfigNode (httpd : Httpd) (key val : Nat) (st : Parsing) : Except McmpError Parsing :=
  runHandler (nodeHandlers httpd) key val st

/-! ## Lists -/

/-- What `parse_list_to_array_with_checks` does: the offsets it pushes, the offsets
it puts a NUL at, and what it returns. -/
structure Split where
  starts : List Nat
  nuls : List Nat
  ret : Int
deriving DecidableEq

def Split.push (start nul : Nat) (s : Split) : Split :=
  { s with starts := start :: s.starts, nuls := nul :: s.nuls }

/-- The loop over `rest`, the memory from offset `current` on. -/
def parseListLoop (lenLimit : Nat) : (rest : List Byte) → (current start len : Nat) → Split
  | [], _, start, len => stop start len
  | b :: rest, current, start, len =>
    if b = 0 then stop start len
    else if b = ch ',' then
      -- The loop's own step then passes the byte behind the comma unseen, a NUL too.
      if lenLimit = 0 then { starts := [start], nuls := [current], ret := 1 }
      else match rest with
        | [] => (stop (current + 1) 0).push start current
        | _ :: rest => (parseListLoop lenLimit rest (current + 2) (current + 1) 0).push start current
    else if len + 1 ≥ lenLimit then { starts := [], nuls := [], ret := 1 }
    else parseListLoop lenLimit rest (current + 1) start (len + 1)
where
  stop (start len : Nat) : Split :=
    if len ≥ lenLimit then { starts := [], nuls := [], ret := 1 }
    else if len = 0 then { starts := [], nuls := [], ret := -1 }
    else { starts := [start], nuls := [], ret := 0 }

def parseListToArrayWithChecks (m : Mem) (val lenLimit : Nat) : Split :=
  parseListLoop lenLimit (m.drop val) val val 0

def putNuls (m : Mem) (nuls : List Nat) : Mem := nuls.foldl (fun m p => m.set p 0) m

/-- The memory, contexts and aliases behind one field. -/
structure Lists where
  mem : Mem
  contexts : List Nat
  aliases : List Nat
deriving DecidableEq

def processContextAlias (key val : Nat) (st : Lists) : Except McmpError Lists :=
  let k := strAt st.mem key
  if caseEq k (ascii "Alias") then
    let mem := write st.mem val (lower (strAt st.mem val))
    let s := parseListToArrayWithChecks mem val HOSTALIASZ
    if s.ret = 0 then .ok { st with mem := putNuls mem s.nuls, aliases := st.aliases ++ s.starts }
    else if s.ret = 1 then .error .salibig
    else .error .emptyAlias
  else if caseEq k (ascii "Context") then
    let s := parseListToArrayWithChecks st.mem val CONTEXTSZ
    if s.ret = 0 then .ok { st with mem := putNuls st.mem s.nuls, contexts := st.contexts ++ s.starts }
    else if s.ret = 1 then .error .sconbig
    else .error .emptyContext
  else .ok st

/-! ## Whole messages -/

/-- What CONFIG takes from its message. -/
structure ConfigArgs where
  node : Nodeinfo
  balancer : Balancerinfo
  aliases : List Str
  contexts : List Str
deriving DecidableEq

def configField (httpd : Httpd) (key val : Nat) (st : Parsing) : Except McmpError Parsing :=
  match processConfigBalancer key val st with
  | .error e => .error e
  | .ok st =>
    match processConfigNode httpd key val st with
    | .error e => .error e
    | .ok st =>
      match processContextAlias key val
          { mem := st.mem, contexts := st.contexts, aliases := st.aliases } with
      | .error e => .error e
      | .ok ls => .ok { st with mem := ls.mem, contexts := ls.contexts, aliases := ls.aliases }

def configFields (httpd : Httpd) : List Nat → Parsing → Except McmpError Parsing
  | [], st => .ok st
  | [_], _ => .error .smespar
  | key :: val :: rest, st =>
    if strAt st.mem val = [] then .error .smespar
    else match configField httpd key val st with
      | .ok st => configFields httpd rest st
      | .error e => .error e

/-- The secret or the upgrade that the server's configuration adds. -/
def typeExtras (mconf : Mconf) (m : Nodemess) : Nodemess :=
  if m.type = ascii "ajp" then
    match mconf.ajpSecret with
    | some secret => { m with ajpSecret := truncate (AJPSECRETSZ - 1) secret }
    | none => m
  else if mconf.enableWsTunnel then
    { m with
      type := if m.type = ascii "http" then ascii "ws"
        else if m.type = ascii "https" then ascii "wss" else m.type
      upgrade := match mconf.wsUpgradeHeader with
        | some header => truncate (SCHEMENDSZ - 1) header
        | none => ascii "websocket" }
  else m

def fieldSizeExtra (mconf : Mconf) (m : Nodemess) : Nodemess :=
  if m.type ≠ ascii "ajp" ∧ mconf.responseFieldSize ≠ 0 then
    { m with responseFieldSize := mconf.responseFieldSize }
  else m

def nodeExtras (mconf : Mconf) (m : Nodemess) : Nodemess := fieldSizeExtra mconf (typeExtras mconf m)

def parseConfig (httpd : Httpd) (mconf : Mconf) (argv : Argv) : Except McmpError ConfigArgs :=
  match configFields httpd argv.ptr
      { mem := argv.mem
        node := processConfigNodeDefaults httpd mconf
        balancer := processConfigBalancerDefaults mconf
        contexts := []
        aliases := [] } with
  | .error e => .error e
  | .ok st =>
    if st.node.mess.jvmRoute = [] then .error .sroubad
    else if st.aliases ≠ [] ∧ st.contexts = [] then .error .salibad
    else if st.aliases = [] ∧ st.contexts ≠ [] then .error .sconbad
    else .ok {
      node := { st.node with mess := nodeExtras mconf st.node.mess }
      balancer := st.balancer
      aliases := st.aliases.map (strAt st.mem)
      contexts := st.contexts.map (strAt st.mem) }

/-- What an application command takes from its message. -/
structure AppArgs where
  jvmRoute : Str
  aliases : List Str
  contexts : List Str
deriving DecidableEq

/-- A handler returns an error, or the code has no defined behaviour from there on. -/
inductive Stop where
  | error (e : McmpError)
  | undefined
deriving DecidableEq

def appFields (httpd : Httpd) : List Nat → Str → Lists → Except Stop (Str × Lists)
  | [], route, st => .ok (route, st)
  -- A key without a value: its NULL is used as a string, or the NULL at the end is passed.
  | [_], _, _ => .error .undefined
  | key :: val :: rest, route, st =>
    let isRoute := caseEq (strAt st.mem key) (ascii "JVMRoute")
    let v := strAt st.mem val
    if isRoute ∧ v.length ≥ httpd.routeSize then .error (.error .sroubig)
    else match processContextAlias key val st with
      | .ok st => appFields httpd rest (if isRoute then v else route) st
      | .error e => .error (.error e)

/-- The fields and the checks an application command makes before it locks. -/
def parseApp (httpd : Httpd) (glob : Bool) (argv : Argv) : Except Stop AppArgs :=
  match appFields httpd argv.ptr [] { mem := argv.mem, contexts := [], aliases := [] } with
  | .error e => .error e
  | .ok (route, st) =>
    if route = [] then .error (.error .sroubad)
    else if !glob ∧ st.contexts = [] ∧ st.aliases = [] then .error (.error .noconal)
    else if !glob ∧ st.contexts = [] then .error (.error .salibad)
    else if !glob ∧ st.aliases = [] then .error (.error .sconbad)
    else .ok {
      jvmRoute := route
      aliases := st.aliases.map (strAt st.mem)
      contexts := st.contexts.map (strAt st.mem) }

end ModCluster
