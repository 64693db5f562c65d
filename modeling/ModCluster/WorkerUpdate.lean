import ModCluster.Workers

/-!
# Workers follow the nodes

The part of `mod_proxy_cluster.c` that creates workers for nodes, looks them up by
their node and takes them away from nodes that are being removed. All of it runs in
one process and under the node lock. A node record that is handed over is either
the one in shared memory or a copy; only in the first case a change of its
`has_workers` is kept, so the functions that pair return how often they did.
-/

open CString Slotmem

namespace ModCluster

/-! ## Creating workers -/

inductive CreatBal where
  | all
  | none
  | root
deriving DecidableEq

def MC_STICKY : Str := ascii "MC"

def MC_NOT_STICKY : Str := ascii "MC_NS"

def MC_REMOVE_SESSION : Str := ascii "MC_R"

def MC_NO_FAILOVER : Str := ascii "MC_NF"

def normalizeHostname (hostname : Str) : Str := lower hostname

def createWorkerBuildName (httpd : Httpd) (m : Nodemess) : Option Str :=
  let url := m.type ++ ascii "://" ++ normalizeHostname m.host ++ ascii ":" ++ m.port
  match httpd.uriParse url with
  | some { scheme := some scheme, port } =>
    if port ≠ 0 ∧ port = httpd.portOfScheme scheme then
      some (m.type ++ ascii "://" ++ normalizeHostname m.host)
    else some url
  | _ => none

/-- The area of a worker that points to a recreated slot. -/
def restartArea (now : Int) (m : Nodemess) (s : WorkerShared) : WorkerShared :=
  { s with
    status := PROXY_WORKER_INITIALIZED
    route := m.jvmRoute
    upgrade := m.upgrade
    secret := m.ajpSecret
    responseFieldSize := if m.responseFieldSize > 0 then some m.responseFieldSize else none
    redirect := []
    lbstatus := 0
    lbfactor := -1
    busy := 0
    updated := now }

def arrangeSharedMem (now : Int) (m : Nodemess) (shared s : WorkerShared) : WorkerShared :=
  { s with
    index := m.id
    name := shared.name
    hostname := shared.hostname
    hostnameEx := shared.hostnameEx
    scheme := shared.scheme
    port := shared.port
    hmax := shared.hmax
    route := m.jvmRoute
    upgrade := m.upgrade
    responseFieldSize := if m.responseFieldSize > 0 then some m.responseFieldSize else none
    secret := m.ajpSecret
    redirect := []
    smax := m.smax
    ttl := m.ttl
    timeout := if m.timeout ≠ 0 then some m.timeout else s.timeout
    flushPackets := m.flushpackets
    flushWait := m.flushwait
    pingTimeout := m.ping
    updated := now }

/-- What a new worker finds in an area without a status. -/
def blankArea (s : WorkerShared) : WorkerShared :=
  if s.status = 0 then
    { s with status := PROXY_WORKER_INITIALIZED, redirect := [], lbstatus := 0, lbfactor := -1, busy := 0 }
  else s

def setIndex (index : Int) (s : WorkerShared) : WorkerShared := { s with index := index }

def setUpdated (now : Int) (s : WorkerShared) : WorkerShared := { s with updated := now }

def setStatus0 (s : WorkerShared) : WorkerShared := { s with status := 0 }

def ProxyBalancer.setWorker (b : ProxyBalancer) (j : Nat) (w : Worker) : ProxyBalancer :=
  { b with workers := b.workers.set j w }

def ProxyBalancer.addWorker (b : ProxyBalancer) (w : Worker) : ProxyBalancer :=
  { b with workers := b.workers ++ [w] }

/-- Worker `j` of the balancer exists. The last part counts the calls of
`pair_worker_node`. -/
def createWorkerReuse (httpd : Httpd) (now : Int) (ts : Tables) (b : ProxyBalancer) (j : Nat) (w : Worker)
    (m : Nodemess) (i : Nat) : Tables × ProxyBalancer × Nat :=
  match w.context with
  | none => (ts, b, 0)
  | some helper =>
    if helper.index = -1 then (ts, b, 0)
    else if helper.index = m.id ∧ w.s = .slot i then
      if (w.area ts).status = 0 then (pokeStat ts i (restartArea now m), b, 0) else (ts, b, 0)
    else
      let b := b.setWorker j { w with s := .slot i, context := some { helper with isinnodes := true, index := m.id } }
      let ok := (httpd.initializeWorker (setStatus0 (ts.nodes.peek i).stat)).2
      let ts := pokeStat ts i fun s => (httpd.initializeWorker (setStatus0 s)).1
      if ok then (pokeStat ts i (setUpdated now ∘ setIndex m.id), b, 1) else (ts, b, 0)

/-- A worker that was just defined. It is paired twice when the slot still has the
name of another worker. -/
def createWorkerNew (httpd : Httpd) (now : Int) (ts : Tables) (b : ProxyBalancer) (shared : WorkerShared)
    (m : Nodemess) (i : Nat) : Tables × ProxyBalancer × Nat :=
  let b := b.addWorker {
    s := .slot i
    priv := shared
    context := some { countActive := 0, index := m.id, isinnodes := true } }
  let renamed := (ts.nodes.peek i).stat.name ≠ shared.name
  let ts := if renamed then pokeStat ts i (arrangeSharedMem now m shared) else ts
  let ok := (httpd.initializeWorker (ts.nodes.peek i).stat).2
  let ts := pokeStat ts i fun s => (httpd.initializeWorker s).1
  if ok then (pokeStat ts i (blankArea ∘ setIndex m.id), b, if renamed then 2 else 1)
  else (ts, b, if renamed then 1 else 0)

/-- `node` is the record handed over and `i` the slot `ptr_node` points to. -/
def createWorker (httpd : Httpd) (now : Int) (ts : Tables) (b : ProxyBalancer) (m : Nodemess) (i : Nat) :
    Tables × ProxyBalancer × Nat :=
  match createWorkerBuildName httpd m with
  | none => (ts, b, 0)
  | some url =>
    match (httpd.getWorker (b.workers.map (·.area ts)) url).bind fun j => (b.workers[j]?).map fun w => (j, w) with
    | some (j, w) => createWorkerReuse httpd now ts b j w m i
    | none =>
      match httpd.defineWorker url with
      | none => (ts, b, 0)
      | some shared => createWorkerNew httpd now ts b shared m i

/-! ## Balancers -/

def readBalancerName (ts : Tables) (name : Str) : Option Balancerinfo :=
  (getIdsUsedBalancer ts.balancers).findSome? fun id =>
    match ts.balancers.dptr id with
    | some i => if (ts.balancers.peek i).balancer == name then some (ts.balancers.peek i) else none
    | none => none

def setLbpname (b : ProxyBalancer) (name : Str) : ProxyBalancer := { b with lbpname := name }

def setSticky (b : ProxyBalancer) (balan : Balancerinfo) : ProxyBalancer :=
  { b with
    sticky := balan.stickySessionCookie
    stickyPath := balan.stickySessionPath
    timeout := balan.timeout
    maxAttempts := balan.maxattempts }

/-- A balancer that was just pushed, with what shared memory knows of it. -/
def addBalancerNode (ts : Tables) (m : Nodemess) : ProxyBalancer :=
  let b : ProxyBalancer := {
    name := BALANCER_PREFIX ++ m.balancer
    lbpname := []
    sticky := []
    stickyPath := []
    stickyForce := false
    timeout := 0
    maxAttempts := 0
    workers := [] }
  match readBalancerName ts m.balancer with
  | none => b
  | some balan =>
    let b := setLbpname b (if balan.stickySession then MC_STICKY else MC_NOT_STICKY)
    let b := if balan.stickySessionRemove then setLbpname b MC_REMOVE_SESSION else b
    let b := if balan.stickySessionForce then { setLbpname b MC_NO_FAILOVER with stickyForce := true } else b
    setSticky b balan

def reuseBalancer (ts : Tables) (b : ProxyBalancer) : ProxyBalancer :=
  match readBalancerName ts (b.name.drop BALANCER_PREFIX.length) with
  | none => b
  | some balan =>
    let b := if b.lbpname.take 2 ≠ ascii "MC" then setLbpname b MC_STICKY else b
    let b := if balan.stickySessionForce ∧ ¬ b.stickyForce then
        { setLbpname b MC_NO_FAILOVER with stickyForce := true } else b
    let b := if ¬ balan.stickySessionForce ∧ b.stickyForce then
        { setLbpname b MC_STICKY with stickyForce := false } else b
    let b := if balan.stickySessionForce ∧ b.lbpname ≠ MC_NO_FAILOVER then setLbpname b MC_NO_FAILOVER else b
    let b := if balan.stickySessionRemove ∧ b.lbpname ≠ MC_REMOVE_SESSION then
        setLbpname b MC_REMOVE_SESSION else b
    let b := if ¬ balan.stickySession ∧ b.lbpname ≠ MC_NOT_STICKY then setLbpname b MC_NOT_STICKY else b
    setSticky b balan

def addBalancersWorkersForServer (httpd : Httpd) (creatBal : CreatBal) (main : Bool) (now : Int) (ts : Tables)
    (sv : Server) (m : Nodemess) (i : Nat) : Tables × Server × Nat :=
  match (httpd.getBalancer (sv.balancers.map (·.name)) (BALANCER_PREFIX ++ m.balancer)).bind fun k =>
      (sv.balancers[k]?).map fun b => (k, b) with
  | some (k, b) =>
    let r := createWorker httpd now ts (reuseBalancer ts b) m i
    (r.1, ⟨sv.balancers.set k r.2.1⟩, r.2.2)
  | none =>
    if creatBal = .none ∨ (creatBal = .root ∧ ¬ main) then (ts, sv, 0)
    else
      let r := createWorker httpd now ts (addBalancerNode ts m) m i
      (r.1, ⟨sv.balancers ++ [r.2.1]⟩, r.2.2)

/-- One line of a `proxy_node_table`: the id, a copy of the record and where it was. -/
structure NodeEntry where
  node : Int
  info : Nodeinfo
  ptr : Option Nat
deriving DecidableEq

def readNodeTable (ts : Tables) : List NodeEntry :=
  (getIdsUsedNode ts.nodes).map fun id =>
    match getNode ts.nodes id with
    | some i => { node := id, info := ts.nodes.peek i, ptr := some i }
    | none => { node := id, info := default, ptr := none }

/-- The copies are paired, so the counts are lost. -/
def updateWorkersNode (httpd : Httpd) (creatBal : CreatBal) (main : Bool) (now : Int) :
    List NodeEntry → Tables → Server → Tables × Server
  | [], ts, sv => (ts, sv)
  | ou :: rest, ts, sv =>
    if ou.info.mess.remove then updateWorkersNode httpd creatBal main now rest ts sv
    else match ou.ptr with
      | none => updateWorkersNode httpd creatBal main now rest ts sv
      | some i =>
        let r := addBalancersWorkersForServer httpd creatBal main now ts sv ou.info.mess i
        updateWorkersNode httpd creatBal main now rest r.1 r.2.1

/-! ## Looking up the worker of a node -/

/-- Write through `worker->s`. -/
def Worker.write (ts : Tables) (w : Worker) (f : WorkerShared → WorkerShared) : Tables × Worker :=
  match w.s with
  | .slot i => (pokeStat ts i f, w)
  | .priv => (ts, { w with priv := f w.priv })

def decHasWorkers (n : Nodeinfo) : Nodeinfo :=
  { n with mess := { n.mess with hasWorkers := n.mess.hasWorkers - 1 } }

def addHasWorkers (k : Nat) (n : Nodeinfo) : Nodeinfo :=
  { n with mess := { n.mess with hasWorkers := n.mess.hasWorkers + k } }

def pokeNode (ts : Tables) (i : Nat) (f : Nodeinfo → Nodeinfo) : Tables :=
  { ts with nodes := ts.nodes.poke i (f (ts.nodes.peek i)) }

/-- `i` is the slot of the node. -/
def unpairWorkerNode (ts : Tables) (w : Worker) (i : Nat) : Tables × Worker :=
  let r := w.write ts (setIndex (-1))
  (pokeNode r.1 i decHasWorkers, r.2)

inductive Lookup where
  | missing
  | empty
  | found (balancer worker : Nat)
  /-- The lookup followed the helper of a `BalancerMember`, which is NULL. -/
  | crashed
deriving DecidableEq

def Lookup.next : Lookup → Lookup
  | .found b j => .found b (j + 1)
  | l => l

def Lookup.nextBalancer : Lookup → Lookup
  | .found b j => .found (b + 1) j
  | l => l

/-- The workers of one balancer, until the one that has the id and points to slot
`i`. A worker with the id that points elsewhere is unpaired, each time it is met. -/
def lookupWorkers (id : Int) (i : Nat) : Tables → List Worker → Tables × List Worker × Lookup
  | ts, [] => (ts, [], .missing)
  | ts, w :: rest =>
    match w.context with
    | none => (ts, w :: rest, .crashed)
    | some helper =>
      if w.s = .slot i ∧ helper.index = id then
        (ts, w :: rest, if isWorkerEmpty ts w then .empty else .found 0 0)
      else
        let r := if helper.index = id then unpairWorkerNode ts w i else (ts, w)
        let q := lookupWorkers id i r.1 rest
        (q.1, r.2 :: q.2.1, q.2.2.next)

def lookupBalancers (id : Int) (i : Nat) : Tables → List ProxyBalancer → Tables × List ProxyBalancer × Lookup
  | ts, [] => (ts, [], .missing)
  | ts, b :: rest =>
    let r := lookupWorkers id i ts b.workers
    let b := { b with workers := r.2.1 }
    if r.2.2 = .missing then
      let q := lookupBalancers id i r.1 rest
      (q.1, b :: q.2.1, q.2.2.nextBalancer)
    else (r.1, b :: rest, r.2.2)

def getWorkerFromIdStat (ts : Tables) (sv : Server) (id : Int) (i : Nat) : Tables × Server × Lookup :=
  let r := lookupBalancers id i ts sv.balancers
  (r.1, ⟨r.2.1⟩, r.2.2)

def Server.worker? (sv : Server) (b j : Nat) : Option Worker :=
  (sv.balancers[b]?).bind fun bal => bal.workers[j]?

def Server.setWorker (sv : Server) (b j : Nat) (w : Worker) : Server :=
  ⟨sv.balancers.modify b fun bal => bal.setWorker j w⟩

/-! ## Taking workers away -/

def stopHcheck (httpd : Httpd) (s : WorkerShared) : WorkerShared :=
  if httpd.hcheck then { s with updated := 0, status := s.status ||| PROXY_WORKER_STOPPED } else s

def markError (s : WorkerShared) : WorkerShared := { s with status := s.status ||| PROXY_WORKER_IN_ERROR }

def setLastcleantry (now : Int) (n : Nodeinfo) : Nodeinfo :=
  { n with mess := { n.mess with lastcleantry := now } }

/-- The worker goes back to its own area. -/
def Worker.detach (httpd : Httpd) (w : Worker) (helper : Helper) (index : Int) : Worker :=
  { w with
    s := .priv
    priv := stopHcheck httpd (setIndex index w.priv)
    context := some { helper with isinnodes := false } }

/-- `none` stands for an assert that failed or a NULL that was followed. -/
def removeWorkersNode (httpd : Httpd) (now : Int) (ts : Tables) (sv : Server) (i : Nat) :
    Option (Tables × Server) :=
  let r := getWorkerFromIdStat ts sv (ts.nodes.peek i).mess.id i
  match r.2.2 with
  | .missing => some (r.1, r.2.1)
  | .empty => some (r.1, r.2.1)
  | .crashed => none
  | .found b j =>
    match r.2.1.worker? b j with
    | none => none
    | some w =>
      match w.context with
      | none => none
      | some helper =>
        let ts := pokeStat r.1 i markError
        if helper.countActive ≠ 0 then some (pokeNode ts i (setLastcleantry now), r.2.1)
        else if w.priv.port = 0 then none
        else some (ts, r.2.1.setWorker b j (w.detach httpd helper (ts.nodes.peek i).stat.index))

def removeWorkersLoop (httpd : Httpd) (now : Int) : List Int → Tables → Server → Option (Tables × Server)
  | [], ts, sv => some (ts, sv)
  | id :: ids, ts, sv =>
    match getNode ts.nodes id with
    | none => removeWorkersLoop httpd now ids ts sv
    | some i =>
      if (ts.nodes.peek i).mess.remove then
        match removeWorkersNode httpd now ts sv i with
        | some (ts, sv) => removeWorkersLoop httpd now ids ts sv
        | none => none
      else removeWorkersLoop httpd now ids ts sv

def removeWorkersNodes (httpd : Httpd) (now : Int) (ts : Tables) (sv : Server) : Option (Tables × Server) :=
  removeWorkersLoop httpd now (getIdsUsedNode ts.nodes) ts sv

/-- A worker whose slot was wiped or given to another node goes back to its own area. -/
def checkWorkerArea (httpd : Httpd) (ts : Tables) (w : Worker) : Option Worker :=
  match w.context with
  | none => none
  | some helper =>
    if isWorkerEmpty ts w || (w.area ts).port != w.priv.port || (w.area ts).scheme != w.priv.scheme ||
        (w.area ts).hostname != w.priv.hostname then
      if w.priv.port = 0 then none
      else some { w with
        s := .priv
        priv := stopHcheck httpd w.priv
        context := some { helper with countActive := 0, isinnodes := false } }
    else some w

def checkWorkersOf (httpd : Httpd) (ts : Tables) : List Worker → Option (List Worker)
  | [] => some []
  | w :: rest =>
    match checkWorkerArea httpd ts w, checkWorkersOf httpd ts rest with
    | some w, some rest => some (w :: rest)
    | _, _ => none

def checkBalancers (httpd : Httpd) (ts : Tables) : List ProxyBalancer → Option (List ProxyBalancer)
  | [] => some []
  | b :: rest =>
    match checkWorkersOf httpd ts b.workers, checkBalancers httpd ts rest with
    | some workers, some rest => some ({ b with workers := workers } :: rest)
    | _, _ => none

def checkWorkers (httpd : Httpd) (ts : Tables) (sv : Server) : Option Server :=
  (checkBalancers httpd ts sv.balancers).map Server.mk

/-! ## STATUS -/

/-- The creating part of `proxy_node_isup`, in one server. The record is the one in
shared memory, so the pairs are counted. -/
def isupServer (httpd : Httpd) (creatBal : CreatBal) (main : Bool) (now : Int) (ts : Tables) (sv : Server)
    (i : Nat) : Tables × Server :=
  let r := addBalancersWorkersForServer httpd creatBal main now ts sv (ts.nodes.peek i).mess i
  (pokeNode r.1 i (addHasWorkers r.2.2), r.2.1)

end ModCluster
