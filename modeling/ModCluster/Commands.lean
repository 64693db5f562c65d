import ModCluster.App
import ModCluster.WorkerUpdate

/-!
# STATUS and PING

`process_status` and `process_ping` of `mod_manager.c`, and what they end in,
`proxy_node_isup` and `proxy_host_isup` of `mod_proxy_cluster.c`. The first creates the
workers of the node in every server, looks one up and sets its load, the second looks
for a worker with the address. Both ask the worker they find over one of its
connections, which may put it into the error state or take it out.
-/

open CString Slotmem

namespace ModCluster

/-- What httpd's connection to a worker leaves in its area, and whether the worker answered. -/
structure Contact where
  status : UInt32
  errorTime : Int
  retries : Nat
  up : Bool

/-- What the handlers do not compute themselves. -/
structure Surroundings where
  now : Int
  creatBal : CreatBal
  restartTime : Nat
  /-- The directive `EnableOptions`. -/
  enableOptions : Bool
  /-- `ap_proxy_ssl_enable(NULL)`. -/
  sslEnable : Bool
  /-- `ap_proxy_acquire_connection`, `ap_proxy_connect_backend` and the ping on the connection. -/
  contact : WorkerShared → Contact
  /-- The AJP ping of `proxy_host_isup`, on a socket of its own. -/
  ajpPing : Str → Int → Bool
  /-- What the stack holds where `process_status` has its `nodeinfo`. -/
  stack : Nodeinfo

/-! ## Fields of STATUS -/

/-- `sscanf(v, "%d", &load)`. Without a digit nothing is stored. -/
def scanInt (v : Str) (load : Int) : Int :=
  let rest := v.dropWhile isSpace
  let number := if rest.head? = some (ch '-') ∨ rest.head? = some (ch '+') then rest.drop 1 else rest
  if (number.head?.map isDigit).getD false then atoi v else load

structure StatusArgs where
  nodeinfo : Nodeinfo
  load : Int

def setRoute (n : Nodeinfo) (route : Str) : Nodeinfo :=
  { n with mess := { n.mess with jvmRoute := route, id := -1 } }

def statusField (httpd : Httpd) (key v : Str) (st : StatusArgs) : Except McmpError StatusArgs :=
  if caseEq key (ascii "JVMRoute") then
    if v.length ≥ httpd.routeSize then .error .sroubig else .ok { st with nodeinfo := setRoute st.nodeinfo v }
  else if caseEq key (ascii "Load") then
    let load := scanInt v st.load
    if load < -1 ∨ load > 100 then .error .badLoad else .ok { st with load := load }
  else .error (.sbadfld key)

/-- The fields that STATUS reads. -/
def isStatusField (key : Str) : Bool := caseEq key (ascii "JVMRoute") || caseEq key (ascii "Load")

def statusFields (httpd : Httpd) (mem : Mem) : List Nat → StatusArgs → Except Stop StatusArgs
  | [], st => .ok st
  -- The NULL behind the last key is handed to `strlen` or `sscanf`.
  | [key], _ => if isStatusField (strAt mem key) then .error .undefined else .error (.error (.sbadfld (strAt mem key)))
  | key :: val :: rest, st =>
    match statusField httpd (strAt mem key) (strAt mem val) st with
    | .ok st => statusFields httpd mem rest st
    | .error e => .error (.error e)

/-! ## The node is up -/

/-- `add_balancers_workers` with the record in slot `i`, from the main server on. -/
def addBalancersWorkers (httpd : Httpd) (env : Surroundings) (i : Nat) :
    (main : Bool) → List Server → Tables → Tables × List Server
  | _, [], ts => (ts, [])
  | main, sv :: rest, ts =>
    let r := isupServer httpd env.creatBal main env.now ts sv i
    let q := addBalancersWorkers httpd env i false rest r.1
    (q.1, r.2 :: q.2)

structure Searched where
  tables : Tables
  servers : List Server
  /-- Where the worker is: server, balancer, worker. -/
  found : Option WorkerRef
  crashed : Bool
  locks : List LockOp

/-- The servers one after the other, each under the lock, until one has the worker. -/
def searchServers (id : Int) (i : Nat) : (k : Nat) → List Server → Tables → Searched
  | _, [], ts => ⟨ts, [], none, false, []⟩
  | k, sv :: rest, ts =>
    let r := getWorkerFromIdStat ts sv id i
    match r.2.2 with
    | .found b j => ⟨r.1, r.2.1 :: rest, some ⟨k, b, j⟩, false, [.lock, .unlock]⟩
    | .crashed => ⟨r.1, r.2.1 :: rest, none, true, [.lock]⟩
    | _ =>
      let q := searchServers id i (k + 1) rest r.1
      { q with servers := r.2.1 :: q.servers, locks := .lock :: .unlock :: q.locks }

def workerLoad (load : Int) (s : WorkerShared) : WorkerShared :=
  if load = -1 then { s with status := s.status ||| PROXY_WORKER_IN_ERROR, lbfactor := load }
  else if load = 0 then
    { s with status := s.status &&& ~~~PROXY_WORKER_IN_ERROR ||| PROXY_WORKER_HOT_STANDBY, lbfactor := load }
  else { s with
    status := s.status &&& ~~~PROXY_WORKER_IN_ERROR &&& ~~~PROXY_WORKER_STOPPED &&& ~~~PROXY_WORKER_DISABLED &&&
      ~~~PROXY_WORKER_HOT_STANDBY
    lbfactor := load }

def setWorkerLoad (load : Int) (s : WorkerShared) : WorkerShared :=
  if load < -1 ∨ load > 100 then s else workerLoad load s

def WorkerShared.contacted (s : WorkerShared) (c : Contact) : WorkerShared :=
  { s with status := c.status, errorTime := c.errorTime, retries := c.retries }

def isSslScheme (scheme : Str) : Bool := caseEq scheme (ascii "HTTPS") || caseEq scheme (ascii "WSS")

/-- `proxy_cluster_try_pingpong`: what it leaves in the area, and whether it is `APR_SUCCESS`. -/
def tryPingpong (env : Surroundings) (s : WorkerShared) : WorkerShared × Bool :=
  if (isSslScheme s.scheme || caseEq s.scheme (ascii "WS") || caseEq s.scheme (ascii "HTTP")) && !env.enableOptions then
    (s, true)
  else if isSslScheme s.scheme && !env.sslEnable then (s, false)
  else (s.contacted (env.contact s), (env.contact s).up)

/-- The area of the worker after the node was asked, and whether it is up. -/
def probe (httpd : Httpd) (env : Surroundings) (load : Int) (s : WorkerShared) : WorkerShared × Bool :=
  if load ≥ 0 ∨ load = -2 then
    if httpd.hcheck then
      if s.status &&& PROXY_WORKER_NOT_USABLE_BITMAP ≠ 0 then (s, false) else (setWorkerLoad load s, true)
    else
      let q := tryPingpong env { s with errorTime := 0 }
      if q.2 then (setWorkerLoad load q.1, true) else (markError q.1, false)
  else (setWorkerLoad load s, true)

structure IsupResult where
  tables : Tables
  proxy : Proxy
  up : Bool
  crashed : Bool
  locks : List LockOp

def proxyNodeIsup (httpd : Httpd) (env : Surroundings) (ts : Tables) (px : Proxy) (id load : Int) : IsupResult :=
  match getNode ts.nodes id with
  | none => ⟨ts, px, false, false, []⟩
  | some i =>
    if (ts.nodes.peek i).mess.remove then ⟨ts, px, false, false, []⟩
    else
      let r := addBalancersWorkers httpd env i true px.servers ts
      let q := searchServers id i 0 r.2 r.1
      let locks := .lock :: .unlock :: q.locks
      match q.found.bind fun ref => ((⟨q.servers⟩ : Proxy).worker? ref).map fun w => (ref, w) with
      | none => ⟨q.tables, ⟨q.servers⟩, false, q.crashed, locks⟩
      | some (ref, w) =>
        let p := probe httpd env load (w.area q.tables)
        let u := w.write q.tables fun _ => p.1
        ⟨u.1, (⟨q.servers⟩ : Proxy).setWorker ref u.2, p.2, false, locks⟩

/-! ## STATUS -/

structure CommandResult where
  tables : Tables
  proxy : Option Proxy
  outcome : Outcome
  response : Option Str
  locks : List LockOp

def printStatusResponse (httpd : Httpd) (env : Surroundings) (jvmRoute : Str) (up : Bool) : Str :=
  ascii "Type=STATUS-RSP&JVMRoute=" ++ jvmRoute.take httpd.routeSize ++
    (if up then ascii "&State=OK" else ascii "&State=NOTOK") ++ ascii "&id=" ++ decimal env.restartTime ++ [10]

def isnodeUp (httpd : Httpd) (env : Surroundings) (ts : Tables) (px : Option Proxy) (id load : Int) (route : Str) :
    CommandResult :=
  match px with
  | none => ⟨ts, none, .done, some (printStatusResponse httpd env route true), [.lock, .unlock]⟩
  | some px =>
    let r := proxyNodeIsup httpd env ts px id load
    if r.crashed then ⟨r.tables, some r.proxy, .undefined, none, [.lock, .unlock] ++ r.locks⟩
    else ⟨r.tables, some r.proxy, .done, some (printStatusResponse httpd env route r.up), [.lock, .unlock] ++ r.locks⟩

def processStatus (httpd : Httpd) (env : Surroundings) (ts : Tables) (px : Option Proxy) (argv : Argv) :
    CommandResult :=
  match statusFields httpd argv.mem argv.ptr ⟨env.stack, -2⟩ with
  | .error (.error e) => ⟨ts, px, .failed e, none, []⟩
  | .error .undefined => ⟨ts, px, .undefined, none, []⟩
  | .ok args =>
    let route := args.nodeinfo.mess.jvmRoute
    if route = [] then ⟨ts, px, .failed .noRoute, none, []⟩
    else
      match (readNode ts.nodes args.nodeinfo).1 with
      | none => ⟨ts, px, .failed (.mnoderd route), none, [.lock, .unlock]⟩
      | some i => isnodeUp httpd env ts px (ts.nodes.peek i).mess.id args.load route

/-! ## PING -/

structure PingArgs where
  jvmRoute : Str
  scheme : Option Str
  host : Option Str
  port : Option Str

def isPingScheme (scheme : Str) : Bool :=
  caseEq scheme (ascii "ajp") || caseEq scheme (ascii "http") || caseEq scheme (ascii "https") ||
    caseEq scheme (ascii "ws") || caseEq scheme (ascii "wss")

def pingField (httpd : Httpd) (key v : Str) (st : PingArgs) : Except McmpError PingArgs :=
  if caseEq key (ascii "JVMRoute") then
    if v.length ≥ httpd.routeSize then .error .sroubig else .ok { st with jvmRoute := v }
  else if caseEq key (ascii "Scheme") then
    if isPingScheme v then .ok { st with scheme := some v } else .error (.badScheme v)
  else if caseEq key (ascii "Host") then .ok { st with host := some v }
  else if caseEq key (ascii "Port") then .ok { st with port := some v }
  else .error (.sbadfld key)

def isPingField (key : Str) : Bool :=
  caseEq key (ascii "JVMRoute") || caseEq key (ascii "Scheme") || caseEq key (ascii "Host") ||
    caseEq key (ascii "Port")

/-- The fields up to the first that has no name. -/
def pingFields (httpd : Httpd) (mem : Mem) : List Nat → PingArgs → Except Stop PingArgs
  | [], st => .ok st
  | [key], st =>
    if strAt mem key = [] then .ok st
    else if isPingField (strAt mem key) then .error .undefined
    else .error (.error (.sbadfld (strAt mem key)))
  | key :: val :: rest, st =>
    if strAt mem key = [] then .ok st
    else
      match pingField httpd (strAt mem key) (strAt mem val) st with
      | .ok st => pingFields httpd mem rest st
      | .error e => .error (.error e)

def printPingResponse (httpd : Httpd) (env : Surroundings) (jvmRoute : Str) (up : Bool) : Str :=
  ascii "Type=PING-RSP" ++
    (if jvmRoute = [] then [] else ascii "&JVMRoute=" ++ jvmRoute.take httpd.routeSize) ++
    (if up then ascii "&State=OK" else ascii "&State=NOTOK") ++ ascii "&id=" ++ decimal env.restartTime ++ [10]

/-- `strncasecmp` with "HTTP" or "WS". -/
def isWebScheme (scheme : Str) : Bool :=
  caseEq (scheme.take 4) (ascii "HTTP") || caseEq (scheme.take 2) (ascii "WS")

/-- The worker with the area is one of the address. -/
def servesAddress (host port : Str) (s : WorkerShared) : Bool :=
  (s.port : Int) == atoi port && isWebScheme s.scheme && compareHostname s.hostname host

def workerOfAddress (ts : Tables) (host port : Str) (b : ProxyBalancer) : Option Nat :=
  b.workers.findIdx? fun w => servesAddress host port (w.area ts)

def balancerOfAddress (ts : Tables) (host port : Str) : (j : Nat) → List ProxyBalancer → Option (Nat × Nat)
  | _, [] => none
  | j, b :: rest =>
    match workerOfAddress ts host port b with
    | some k => some (j, k)
    | none => balancerOfAddress ts host port (j + 1) rest

/-- The first worker with the address, from the main server on. -/
def refOfAddress (ts : Tables) (host port : Str) : (i : Nat) → List Server → Option WorkerRef
  | _, [] => none
  | i, sv :: rest =>
    match balancerOfAddress ts host port 0 sv.balancers with
    | some (j, k) => some ⟨i, j, k⟩
    | none => refOfAddress ts host port (i + 1) rest

structure HostResult where
  tables : Tables
  proxy : Proxy
  up : Bool

/-- `proxy_cluster_try_pingpong` on the worker, when its scheme makes a URL of the address. -/
def pingWorker (httpd : Httpd) (env : Surroundings) (ts : Tables) (px : Proxy) (host port : Str) (ref : WorkerRef)
    (w : Worker) : HostResult :=
  match normalizeWorkername httpd ((w.area ts).scheme ++ ascii "://" ++ host ++ ascii ":" ++ port) with
  | none => ⟨ts, px, false⟩
  | some _ =>
    let q := tryPingpong env (w.area ts)
    let u := w.write ts fun _ => q.1
    ⟨u.1, px.setWorker ref u.2, q.2⟩

def proxyHostIsup (httpd : Httpd) (env : Surroundings) (ts : Tables) (px : Proxy) (scheme host port : Str) :
    HostResult :=
  if caseEq scheme (ascii "AJP") then ⟨ts, px, env.ajpPing host (atoi port)⟩
  else if isWebScheme scheme then
    match (refOfAddress ts host port 0 px.servers).bind fun ref => (px.worker? ref).map fun w => (ref, w) with
    | none => ⟨ts, px, false⟩
    | some (ref, w) => pingWorker httpd env ts px host port ref w
  else ⟨ts, px, true⟩

/-- Without `balancerhandler` every address is up. -/
def ishostUp (httpd : Httpd) (env : Surroundings) (ts : Tables) (px : Option Proxy) (route scheme host port : Str)
    (locks : List LockOp) : CommandResult :=
  match px with
  | none => ⟨ts, none, .done, some (printPingResponse httpd env route true), locks⟩
  | some px =>
    let r := proxyHostIsup httpd env ts px scheme host port
    ⟨r.tables, some r.proxy, .done, some (printPingResponse httpd env route r.up), locks⟩

/-- Without any address the answer is yes. -/
def answerPing (httpd : Httpd) (env : Surroundings) (ts : Tables) (px : Option Proxy) (route : Str)
    (scheme host port : Option Str) (locks : List LockOp) : CommandResult :=
  match scheme, host, port with
  | none, none, none => ⟨ts, px, .done, some (printPingResponse httpd env route true), locks⟩
  | some scheme, some host, some port => ishostUp httpd env ts px route scheme host port locks
  | _, _, _ => ⟨ts, px, .failed .smisfld, none, locks⟩

def processPing (httpd : Httpd) (env : Surroundings) (ts : Tables) (px : Option Proxy) (argv : Argv) : CommandResult :=
  match pingFields httpd argv.mem argv.ptr ⟨[], none, none, none⟩ with
  | .error (.error e) => ⟨ts, px, .failed e, none, []⟩
  | .error .undefined => ⟨ts, px, .undefined, none, []⟩
  | .ok args =>
    if args.jvmRoute = [] then answerPing httpd env ts px [] args.scheme args.host args.port []
    else
      match (readNode ts.nodes (routeNode args.jvmRoute (-1))).1 with
      | none => ⟨ts, px, .failed (.mnoderd args.jvmRoute), none, [.lock, .unlock]⟩
      | some i =>
        let m := (ts.nodes.peek i).mess
        answerPing httpd env ts px args.jvmRoute (some m.type) (some m.host) (some m.port) [.lock, .unlock]

end ModCluster
