import ModCluster.Routing
import Mathlib.Data.List.Sort

/-!
# Choosing a worker

The part of `mod_proxy_cluster.c` that picks the worker of a request: by the route
of its session, or else by an election among the workers whose node serves the
request. Mutexes are taken to work. NULL pointers that are followed and arrays
that are left end in `crashed`.
-/

open CString Slotmem

namespace ModCluster

/-- The directives, and whether the server of the request is the main server. -/
structure Settings where
  useAlias : Bool
  deterministicFailover : Bool
  cacheShareFor : Bool
  creatBal : CreatBal
  main : Bool
  responsecodeWhenNoContext : Nat

/-- What the threads of a process share: the tables, and the balancers of a server. -/
structure World where
  tables : Tables
  server : Server

structure Handling where
  world : World
  request : Request

/-- What other threads and processes do before a try, and what they leave for it. -/
structure Turn where
  now : Int
  needUpdate : Bool
  others : World → World

inductive Found where
  | worker (j : Nat)
  | missing
  | crashed
  /-- The code has not come to an end within the given fuel. -/
  | running
deriving DecidableEq

namespace World

/-- What `worker->s` of worker `j` of balancer `b` points to. -/
def area (w : World) (b j : Nat) : WorkerShared :=
  match w.server.worker? b j with
  | some worker => worker.area w.tables
  | none => default

/-- Write through `worker->s`. -/
def write (w : World) (b j : Nat) (f : WorkerShared → WorkerShared) : World :=
  match w.server.worker? b j with
  | some worker =>
    let q := worker.write w.tables f
    ⟨q.1, w.server.setWorker b j q.2⟩
  | none => w

def workers (w : World) (b : Nat) : List Nat :=
  match w.server.balancers[b]? with
  | some balancer => List.range balancer.workers.length
  | none => []

end World

/-- New workers for the nodes of the snapshot. `none` stands for an assert that failed. -/
def refreshWorkers (httpd : Httpd) (cfg : Settings) (s : Snapshot) (turn : Turn) (w : World) : Option World :=
  let q := if turn.needUpdate then
      updateWorkersNode httpd cfg.creatBal cfg.main turn.now s.nodes w.tables w.server
    else (w.tables, w.server)
  (checkWorkers httpd q.1 q.2).map fun sv => ⟨q.1, sv⟩

/-- The node with the id, if it is the one the worker with this area was made for. -/
def readNodeWorker (ts : Tables) (id : Int) (area : WorkerShared) : Option Nat :=
  match getNode ts.nodes id with
  | none => none
  | some i =>
    let m := (ts.nodes.peek i).mess
    if area.scheme ≠ m.type ∨ ¬ compareHostname area.hostname m.host ∨ decimal area.port ≠ m.port then none
    else some i

def Request.setContextId (r : Request) (id : Option Int) : Request :=
  { r with notes := { r.notes with contextId := id } }

def Handling.setRequest (h : Handling) (r : Request) : Handling := { h with request := r }

def Handling.write (h : Handling) (b j : Nat) (f : WorkerShared → WorkerShared) : Handling :=
  { h with world := h.world.write b j f }

section Choose

variable (httpd : Httpd) (cfg : Settings) (s : Snapshot) (b : Nat)

/-! ## By route -/

def retried (area : WorkerShared) : WorkerShared :=
  { area with status := (httpd.retryWorker area).1, retries := (httpd.retryWorker area).2 }

/-- Worker `j` is the answer if node `index` serves the request. -/
def checkContext (index : Int) (j : Nat) (h : Handling) : Handling × Found :=
  match h.world.server.balancers[b]? with
  | none => (h, .missing)
  | some balancer =>
    match contextHostOk cfg.useAlias s h.world.server.balancers h.request balancer index with
    | (r, some nodecontext) => (h.setRequest (r.setContextId (some nodecontext.context)), .worker j)
    | (r, none) => (h.setRequest r, .missing)

def answer (q : Handling × Found) : Handling × Option Found := (q.1, some q.2)

/-- The worker that is redirected to is taken if the node of the first one serves
the request. If it is not usable, the first one is retried. -/
def takeRedirect (index : Int) (j k : Nat) (h : Handling) : Handling × Option Found :=
  let h := if (h.world.area b k).isUsable then h else h.write b j (retried httpd)
  if (h.world.area b k).isUsable then
    match getNode h.world.tables.nodes index with
    | none => (h, some .missing)
    | some _ => answer (checkContext cfg s b index k h)
  else (h, none)

/-- The worker with the route is not usable. -/
def routeRetry (redirect : Str → Handling → Handling × Found) (index : Int) (j : Nat) (h : Handling) :
    Handling × Option Found :=
  let h := h.write b j (retried httpd)
  if (h.world.area b j).isUsable then
    match getNode h.world.tables.nodes index with
    | none => (h, some .missing)
    | some _ => answer (checkContext cfg s b index j h)
  else if (h.world.area b j).redirect = [] then (h, none)
  else
    match redirect (h.world.area b j).redirect h with
    | (h, .worker k) => takeRedirect httpd cfg s b index j k h
    | (h, .missing) => (h, none)
    | (h, other) => (h, some other)

/-- Worker `j` in a pass. Without an answer the pass goes on. -/
def routeStep (redirect : Str → Handling → Handling × Found) (checkingStandby : Bool) (route : Str) (j : Nat)
    (h : Handling) : Handling × Option Found :=
  match h.world.server.worker? b j with
  | none => (h, none)
  | some worker =>
    match worker.context with
    | none => (h, some .crashed)
    | some helper =>
      let area := worker.area h.world.tables
      if area.index ≠ helper.index ∨ area.index = -1 ∨ area.isStandby ≠ checkingStandby then (h, none)
      else if area.route = [] ∨ area.route ≠ route then (h, none)
      else if area.isUsable then
        match readNodeWorker h.world.tables area.index area with
        | none => (h, some .missing)
        | some _ => answer (checkContext cfg s b area.index j h)
      else routeRetry httpd cfg s b redirect area.index j h

def routePass (redirect : Str → Handling → Handling × Found) (checkingStandby : Bool) (route : Str) :
    List Nat → Handling → Handling × Option Found
  | [], h => (h, none)
  | j :: js, h =>
    match routeStep httpd cfg s b redirect checkingStandby route j h with
    | (h, some found) => (h, some found)
    | (h, none) => routePass redirect checkingStandby route js h

/-- The fuel bounds how often a worker is redirected. -/
def findRouteWorker : (fuel : Nat) → Str → Handling → Handling × Found
  | 0, _, h => (h, .running)
  | fuel + 1, route, h =>
    match routePass httpd cfg s b (findRouteWorker fuel) false route (h.world.workers b) h with
    | (h, some found) => (h, found)
    | (h, none) =>
      match routePass httpd cfg s b (findRouteWorker fuel) true route (h.world.workers b) h with
      | (h, some found) => (h, found)
      | (h, none) => (h, .missing)

structure SessionRoute where
  worker : Found
  route : Option Str
  sticky : Option Str
  domain : Option Str

def Request.changeRoute (r : Request) : Request := { r with notes := { r.notes with routeChanged := true } }

def findSessionRoute (fuel : Nat) (balancer : ProxyBalancer) (h : Handling) : Handling × SessionRoute :=
  if balancer.sticky = [] ∨ balancer.stickyPath = [] ∨ balancer.lbpname = MC_NOT_STICKY then
    (h, ⟨.missing, none, none, none⟩)
  else
    match h.request.notes.sessionRoute with
    | none => (h, ⟨.missing, none, none, none⟩)
    | some [] => (h, ⟨.missing, some [], none, none⟩)
    | some route =>
      let notes := h.request.notes
      let q := findRouteWorker httpd cfg s b fuel route h
      let h := match q.2 with
        | .worker j => if (q.1.world.area b j).route = route then q.1 else q.1.setRequest q.1.request.changeRoute
        | _ => q.1
      (h, ⟨q.2, some route, notes.sessionSticky, notes.clusterDomain⟩)

/-! ## By election -/

def isnodeDomainOk (node : Nodeinfo) (domain : Option Str) : Bool :=
  match domain with
  | none => true
  | some domain => node.mess.domain == domain

structure Election where
  mycandidate : Option Nat
  mynodecontext : Option NodeContext
  /-- The workers that could serve the request, as they are stored in the array. -/
  workers : List Nat

def Election.choose (e : Election) (j : Nat) (nodecontext : NodeContext) : Election :=
  { e with mycandidate := some j, mynodecontext := some nodecontext }

/-- The load, in the unsigned arithmetic of `elected`. -/
def lbstatusOf (area : WorkerShared) (oldelected : Nat) : Int :=
  let served := (area.elected + 2 ^ 64 - oldelected % 2 ^ 64) % 2 ^ 64
  toInt32 ((served * 1000 % 2 ^ 64 / area.lbfactor.toNat : Nat) + area.lbstatus)

/-- Worker `j`, which node `i` belongs to, against the candidate `k`. -/
def compareCandidate (w : World) (e : Election) (k j i : Nat) (best1 : NodeContext) : Election :=
  match getNode w.tables.nodes (w.area b k).index with
  | none => { e with mycandidate := none }
  | some n =>
    if (w.area b k).lbfactor > 0 ∧ (w.area b j).lbfactor ≠ 0 ∧
        lbstatusOf (w.area b k) (w.tables.nodes.peek n).mess.oldelected >
          lbstatusOf (w.area b j) (w.tables.nodes.peek i).mess.oldelected then
      e.choose j best1
    else e

/-- The second part is false for a worker that cannot serve the request. -/
def internalProcessWorker (checkingStandby checkedDomain : Bool) (domain : Option Str) (best : List NodeContext)
    (w : World) (e : Election) (j : Nat) : Election × Bool :=
  match w.server.worker? b j with
  | none => (e, false)
  | some worker =>
    match worker.context with
    | none => (e, false)
    | some helper =>
      let area := worker.area w.tables
      if area.index = -1 ∨ helper.index ≠ area.index then (e, false)
      else if area.lbfactor < 0 ∨ (area.lbfactor = 0 ∧ ¬ checkingStandby) then (e, false)
      else if ¬ area.isUsable then (e, false)
      else
        match findEntry area.index best with
        | none => (e, false)
        | some best1 =>
          match readNodeWorker w.tables area.index area with
          | none => (e, false)
          | some i =>
            if worker.s ≠ .slot i then (e, false)
            else if ¬ checkedDomain ∧ ¬ isnodeDomainOk (w.tables.nodes.peek i) domain then (e, false)
            else if area.lbfactor = 0 ∧ checkingStandby then (e.choose j best1, true)
            else
              match e.mycandidate with
              | none => (e.choose j best1, true)
              | some k => (compareCandidate b w e k j i best1, true)

def electPass (checkingStandby checkedDomain : Bool) (domain : Option Str) (best : List NodeContext) (w : World) :
    List Nat → Election → Election
  | [], e => e
  | j :: js, e =>
    match internalProcessWorker b checkingStandby checkedDomain domain best w e j with
    | (e, false) => electPass checkingStandby checkedDomain domain best w js e
    | (e, true) =>
      let e := { e with workers := e.workers ++ [j] }
      if (w.area b j).lbfactor = 0 ∧ checkingStandby then e
      else electPass checkingStandby checkedDomain domain best w js e

inductive Pick where
  | keep
  | pick (j : Nat)
  | outside

/-- The sum of the signed bytes, as an `int`. -/
def sessionHash (sessionId : Str) : Int :=
  sessionId.foldl (fun hash c => toInt32 (hash + (c.toNat : Int).bmod 256)) 0

def strLe (a b : Str) : Bool := decide (a ≤ b)

/-- The target of deterministic failover among the workers of the passes so far. -/
def failoverTarget (w : World) (r : Request) (workers : List Nat) : Pick :=
  match cfg.deterministicFailover, r.notes.sessionId with
  | true, some sessionIdWithRoute =>
    match strtok (ascii ".") sessionIdWithRoute with
    | none => .keep
    | some sessionId =>
      if sessionIdWithRoute.contains (ch '.') ∧ workers ≠ [] then
        let sorted := workers.insertionSort fun j k => strLe (w.area b j).route (w.area b k).route
        let index := (sessionHash sessionId).tmod workers.length
        if index < 0 then .outside
        else match sorted[index.toNat]? with
          | some j => .pick j
          | none => .outside
      else .keep
  | _, _ => .keep

/-- The passes of the election: whether standby workers are asked, and whether the
domain does not matter any more. -/
def electionPasses (domain : Option Str) (failoverdomain : Bool) : List (Bool × Bool) :=
  let passes := (if domain.getD [] ≠ [] then [(false, false)] else []) ++ [(false, true), (true, true)]
  if failoverdomain then passes.take 1 else passes

inductive Elected where
  | worker (j : Nat) (checkedDomain : Bool) (nodecontext : NodeContext)
  | missing
  | crashed

def electLoop (domain : Option Str) (best : List NodeContext) (w : World) (r : Request) :
    List (Bool × Bool) → Election → Elected
  | [], _ => .missing
  | (checkingStandby, checkedDomain) :: rest, e =>
    let e := electPass b checkingStandby checkedDomain domain best w (w.workers b) e
    let candidate := match failoverTarget cfg b w r e.workers with
      | .keep => e.mycandidate.map some
      | .pick j => some (some j)
      | .outside => some none
    match candidate, e.mynodecontext with
    | none, _ => electLoop domain best w r rest e
    | some (some j), some nodecontext => .worker j checkedDomain nodecontext
    | some _, _ => .crashed

def electedOnce (area : WorkerShared) : WorkerShared := { area with elected := area.elected + 1 }

def Request.setDomainOk (r : Request) : Request := { r with notes := { r.notes with sessionDomainOk := true } }

def Request.setNoContextError (r : Request) : Request := { r with notes := { r.notes with noContextError := true } }

/-- The election among the workers of the balancer, on the world as it is after the
update of the workers. -/
def electWorker (domain : Option Str) (failoverdomain : Bool) (balancer : ProxyBalancer) (h : Handling) :
    Handling × Found :=
  match findNodeContextHost cfg.useAlias s h.world.server.balancers h.request (some balancer)
      h.request.notes.sessionRoute with
  | (r, none) =>
    (h.setRequest (if hasContexts cfg.useAlias s h.request (some balancer) then r.setNoContextError else r), .missing)
  | (r, some best) =>
    match electLoop cfg b domain best h.world r (electionPasses domain failoverdomain) ⟨none, none, []⟩ with
    | .crashed => (h.setRequest r, .crashed)
    | .missing => (h.setRequest (r.setContextId none), .missing)
    | .worker j checkedDomain nodecontext =>
      let r := if checkedDomain then r else r.setDomainOk
      ((h.setRequest (r.setContextId (some nodecontext.context))).write b j electedOnce, .worker j)

/-- The entries of `workers` are allocated before the workers are updated. Those that are
stored past the last one come to lie behind the array, where the update had its texts. -/
def workersAllocated (h : Handling) : Nat := (h.world.workers b).length

def internalFindBestByrequests (turn : Turn) (domain : Option Str) (failoverdomain : Bool) (h : Handling) :
    Handling × Found :=
  match if cfg.cacheShareFor then some h.world else refreshWorkers httpd cfg s turn h.world with
  | none => (h, .crashed)
  | some w =>
    match w.server.balancers[b]? with
    | none => (h, .crashed)
    | some balancer => electWorker cfg s b domain failoverdomain balancer { h with world := w }

/-- The tries after a timeout was set for the balancer. -/
def waitLoop (turns : Nat → Turn) (domain : Option Str) (failoverdomain : Bool) (timeout step : Int) :
    (fuel : Nat) → (k : Nat) → (tval : Int) → Handling → Handling × Found
  | 0, _, _, h => (h, .running)
  | fuel + 1, k, tval, h =>
    if tval < timeout then
      match internalFindBestByrequests httpd cfg s b (turns k) domain failoverdomain
          { h with world := (turns k).others h.world } with
      | (h, .missing) => waitLoop turns domain failoverdomain timeout step fuel (k + 1) (tval + step) h
      | q => q
    else (h, .missing)

def findBestWorker (turns : Nat → Turn) (fuel : Nat) (domain : Option Str) (failoverdomain : Bool) (h : Handling) :
    Handling × Found :=
  match internalFindBestByrequests httpd cfg s b (turns 0) domain failoverdomain h with
  | (h, .missing) =>
    match h.world.server.balancers[b]? with
    | none => (h, .missing)
    | some balancer =>
      if balancer.timeout ≠ 0 then
        waitLoop httpd cfg s b turns domain failoverdomain balancer.timeout (balancer.timeout.tdiv 100) fuel 1 0 h
      else (h, .missing)
  | q => q

end Choose

end ModCluster
