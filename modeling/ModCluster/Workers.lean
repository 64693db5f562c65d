import ModCluster.Httpd
import ModCluster.Storage

/-!
# Balancers and workers of a process

The part of `mod_proxy_cluster.c` that looks workers up and pairs them with nodes.
Each child process has its own balancers and workers. The pointer `worker->s`
leads to the `stat` area of a node's slot or to the area the worker was created
with, which is also what `helper->shared` points to.
-/

open CString Slotmem

namespace ModCluster

inductive Loc where
  | slot (i : Nat)
  | priv
deriving DecidableEq

/-- `proxy_cluster_helper`. -/
structure Helper where
  countActive : Int
  index : Int
  isinnodes : Bool
deriving DecidableEq

structure Worker where
  s : Loc
  priv : WorkerShared
  /-- NULL for a `BalancerMember`. -/
  context : Option Helper
deriving DecidableEq

structure ProxyBalancer where
  name : Str
  lbpname : Str
  sticky : Str
  stickyPath : Str
  stickyForce : Bool
  timeout : Int
  maxAttempts : Int
  workers : List Worker
deriving DecidableEq

structure Server where
  balancers : List ProxyBalancer
deriving DecidableEq

/-- The servers of a process, the main server first. -/
structure Proxy where
  servers : List Server
deriving DecidableEq

structure WorkerRef where
  server : Nat
  balancer : Nat
  worker : Nat
deriving DecidableEq

namespace Proxy

def worker? (px : Proxy) (r : WorkerRef) : Option Worker :=
  match px.servers[r.server]? with
  | some sv =>
    match sv.balancers[r.balancer]? with
    | some b => b.workers[r.worker]?
    | none => none
  | none => none

def setWorker (px : Proxy) (r : WorkerRef) (w : Worker) : Proxy :=
  ⟨px.servers.modify r.server fun sv =>
    ⟨sv.balancers.modify r.balancer fun b => { b with workers := b.workers.set r.worker w }⟩⟩

/-- The workers of all servers, in the order the code visits them. -/
def workers (px : Proxy) : List Worker :=
  px.servers.flatMap fun sv => sv.balancers.flatMap (·.workers)

end Proxy

/-- What `worker->s` points to. -/
def Worker.area (ts : Tables) (w : Worker) : WorkerShared :=
  match w.s with
  | .slot i => (ts.nodes.peek i).stat
  | .priv => w.priv

/-- Write into the `stat` area of slot `i`. -/
def pokeStat (ts : Tables) (i : Nat) (f : WorkerShared → WorkerShared) : Tables :=
  { ts with nodes := ts.nodes.poke i { ts.nodes.peek i with stat := f (ts.nodes.peek i).stat } }

/-- `compare_hostname(...) == 0`. The brackets of an IPv6 address are skipped. -/
def compareHostname (proxyhostname nodehostname : Str) : Bool :=
  match nodehostname with
  | [] => caseEq proxyhostname []
  | b :: rest =>
    if b = ch '[' then
      if rest = [] then proxyhostname.isEmpty
      else caseEq (rest.take (rest.length - 1)) (proxyhostname.take (rest.length - 1))
    else caseEq proxyhostname (b :: rest)

def isWorkerEmpty (ts : Tables) (w : Worker) : Bool :=
  (w.area ts).port == 0 || (w.area ts).scheme.isEmpty || (w.area ts).hostname.isEmpty

/-! ## Lookup -/

def BALANCER_PREFIX : Str := ascii "balancer://"

def normalizeWorkername (httpd : Httpd) (url : Str) : Option Uri :=
  match httpd.uriParse url with
  | some uri =>
    if uri.scheme.isNone then none
    else if uri.port ≠ 0 ∧ some uri.port = uri.scheme.map httpd.portOfScheme then some { uri with port := 0 }
    else some uri
  | none => none

/-- The three places a worker keeps its index, in the order they are asked. -/
def workerIndex (ts : Tables) (w : Worker) : Option Int :=
  if (w.area ts).index ≠ -1 then some (w.area ts).index
  else match w.context with
    | some helper => if helper.index ≠ -1 then some helper.index else some w.priv.index
    | none => none

def searchworker (httpd : Httpd) (ts : Tables) (bal url : Str) :
    (servers : List Server) → (k : Nat) → Option (WorkerRef × Int)
  | [], _ => none
  | sv :: rest, k =>
    match httpd.getBalancer (sv.balancers.map (·.name)) bal with
    | some b =>
      match sv.balancers[b]? with
      | some balancer =>
        match httpd.getWorker (balancer.workers.map (·.area ts)) url with
        | some j =>
          match balancer.workers[j]? with
          | some w => (workerIndex ts w).map fun id => ({ server := k, balancer := b, worker := j }, id)
          | none => searchworker httpd ts bal url rest (k + 1)
        | none => searchworker httpd ts bal url rest (k + 1)
      | none => searchworker httpd ts bal url rest (k + 1)
    | none => searchworker httpd ts bal url rest (k + 1)

/-- The worker and the id found for a node. `none` stands for no `balancerhandler`. -/
def proxyNodeGetid (httpd : Httpd) (ts : Tables) (px : Option Proxy) (m : Nodemess) :
    Option WorkerRef × Int :=
  match px with
  | none => (none, -1)
  | some px =>
    let url := m.type ++ ascii "://" ++ m.host ++ ascii ":" ++ m.port
    match normalizeWorkername httpd url with
    | none => (none, -1)
    | some _ =>
      match searchworker httpd ts (BALANCER_PREFIX ++ m.balancer) url px.servers 0 with
      | some (r, id) => (some r, id)
      | none => (none, -1)

/-- The ids that a worker keeps from being given out. -/
def workerIds (ts : Tables) (size : Nat) (w : Worker) : List Int :=
  if (w.area ts).index ≥ size then []
  else
    (if (w.area ts).index ≠ -1 then [(w.area ts).index] else []) ++
      match w.context with
      | some helper => if helper.index ≠ -1 then [helper.index] else []
      | none => []

def proxyNodeGetFreeId (ts : Tables) (px : Option Proxy) (size : Nat) : Int :=
  match px with
  | none => -1
  | some px =>
    let ids := getIdsUsedNode ts.nodes ++ px.workers.flatMap (workerIds ts size)
    match (List.range size).find? fun (i : Nat) => !ids.contains (i : Int) with
    | some i => (i : Int)
    | none => -1

/-! ## Pairing -/

def initProxyWorker (now : Int) (m : Nodemess) (s : WorkerShared) : WorkerShared :=
  { s with
    status := PROXY_WORKER_INITIALIZED
    route := m.jvmRoute
    upgrade := m.upgrade
    secret := m.ajpSecret
    responseFieldSize := if m.responseFieldSize > 0 then some m.responseFieldSize else none
    redirect := []
    lbstatus := 0
    lbfactor := -1
    busy := 0
    index := m.id
    updated := now }

/-- Point the worker at slot `i`. The node it is paired with is `nodeinfo`, a local
record of the caller, so the increment of its `has_workers` is not kept. -/
def reenableProxyWorker (now : Int) (ts : Tables) (px : Proxy) (r : WorkerRef)
    (w : Worker) (helper : Helper) (i : Nat) (nodeinfo : Nodeinfo) : Tables × Proxy :=
  let helper := { helper with countActive := 0, isinnodes := true }
  (pokeStat ts i (initProxyWorker now nodeinfo.mess),
    px.setWorker r { w with s := .slot i, context := some helper })

end ModCluster
