import ModCluster.Election

/-!
# The worker of a request

`proxy_cluster_pre_request` of `mod_proxy_cluster.c`, which finds the balancer of a
request, chooses a worker and counts the request in.
-/

open CString Slotmem

namespace ModCluster

inductive AccessStatus where
  | ok (j : Nat)
  | declined
  | status (code : Nat)
  | crashed
  | running
deriving DecidableEq

def HTTP_SERVICE_UNAVAILABLE : Nat := 503

/-! ## Counting -/

def addRequests (val : Int) (c : Contextinfo) : Contextinfo := { c with nbrequests := c.nbrequests + val }

def updContextCount (ts : Tables) (id : Option Int) (val : Int) : Tables :=
  match id.bind (getContext ts.contexts) with
  | some i => { ts with contexts := ts.contexts.poke i (addRequests val (ts.contexts.peek i)) }
  | none => ts

def busyOnce (area : WorkerShared) : WorkerShared := { area with busy := area.busy + 1 }

def Handling.setTables (h : Handling) (ts : Tables) : Handling := { h with world := { h.world with tables := ts } }

/-- The helper of worker `j`. `none` stands for a NULL that was followed. -/
def Handling.updateHelper (h : Handling) (b j : Nat) (f : Helper → Helper) : Option Handling :=
  match h.world.server.worker? b j with
  | none => none
  | some worker =>
    match worker.context with
    | none => none
    | some helper =>
      some { h with world := { h.world with
        server := h.world.server.setWorker b j { worker with context := some (f helper) } } }

def Helper.count (val : Int) (helper : Helper) : Helper := { helper with countActive := helper.countActive + val }

/-- Undo the counts of the try before this one. -/
def releasePrevious (httpd : Httpd) (b : Nat) (h : Handling) : Option Handling :=
  match h.request.notes.workerName with
  | none => some h
  | some [] => some h
  | some workerName =>
    let h := h.setTables (updContextCount h.world.tables h.request.notes.contextId (-1))
    match (h.world.workers b).find? fun j => match h.world.server.worker? b j with
        | some worker => httpd.hashfunc worker.priv.name == httpd.hashfunc workerName
        | none => false with
    | none => some h
    | some j => h.updateHelper b j fun helper => if helper.countActive > 0 then helper.count (-1) else helper

/-- The name of the worker in place of the one of the balancer. -/
def rewriteUrl (name url : Str) : Str :=
  match strstr url (ascii "://") with
  | none => name
  | some k => name ++ ((url.drop (k + 3)).dropWhile (· != ch '/'))

def Request.setWorker (r : Request) (area : WorkerShared) : Request :=
  { r with notes := { r.notes with workerName := some area.name, workerRoute := some area.route } }

/-- The request goes to worker `j`. -/
def dispatch (b j : Nat) (url : Str) (h : Handling) : Handling × AccessStatus × Str :=
  let h := h.write b j busyOnce
  let h := h.setTables (updContextCount h.world.tables h.request.notes.contextId 1)
  match h.updateHelper b j (Helper.count 1) with
  | none => (h, .crashed, url)
  | some h =>
    let area := h.world.area b j
    (h.setRequest (h.request.setWorker area), .ok j, rewriteUrl area.name url)

/-! ## Choosing -/

section PreRequest

variable (httpd : Httpd) (cfg : Settings) (s : Snapshot)

def findBalancer (w : World) (url : Str) : Option Nat :=
  httpd.getBalancer (w.server.balancers.map (·.name)) url

/-- The balancer of the url. The workers are updated if it is not there yet. -/
def resolveBalancer (turn : Turn) (url : Str) (w : World) : Option (World × Option Nat) :=
  match findBalancer httpd w url with
  | some b => some (w, some b)
  | none => (refreshWorkers httpd cfg s turn w).map fun w => (w, findBalancer httpd w url)

/-- The notes of a request whose worker was elected. `none` stands for a NULL name. -/
def noteElection (balancer : ProxyBalancer) (route sticky : Option Str) (r : Request) : Option Request :=
  let r := if balancer.sticky ≠ [] then r.changeRoute else r
  if route.isSome ∧ balancer.lbpname = MC_REMOVE_SESSION ∧ ¬ r.notes.sessionDomainOk then
    sticky.map (removeSessionRoute r)
  else some r

/-- The session has no worker. -/
def failover (turns : Nat → Turn) (fuel b : Nat) (balancer : ProxyBalancer) (session : SessionRoute) (h : Handling) :
    Handling × AccessStatus :=
  if session.route.isSome ∧ balancer.stickyForce ∧ session.domain = none then
    (h, .status HTTP_SERVICE_UNAVAILABLE)
  else
    let failoverdomain := session.route.isSome && balancer.stickyForce
    match findBestWorker httpd cfg s b turns fuel session.domain failoverdomain h with
    | (h, .crashed) => (h, .crashed)
    | (h, .running) => (h, .running)
    | (h, .missing) =>
      (h, .status (if h.request.notes.noContextError then cfg.responsecodeWhenNoContext
        else HTTP_SERVICE_UNAVAILABLE))
    | (h, .worker j) =>
      match noteElection ((h.world.server.balancers[b]?).getD balancer) session.route session.sticky h.request with
      | none => (h, .crashed)
      | some r => (h.setRequest r, .ok j)

def chooseWorker (turns : Nat → Turn) (fuel b : Nat) (balancer : ProxyBalancer) (h : Handling) : Handling × AccessStatus :=
  let q := findSessionRoute httpd cfg s b fuel balancer h
  match q.2.worker with
  | .crashed => (q.1, .crashed)
  | .running => (q.1, .running)
  | .worker j => (q.1.write b j electedOnce, .ok j)
  | .missing => failover httpd cfg s turns fuel b balancer q.2 q.1

/-- From the balancer on. -/
def routeRequest (turns : Nat → Turn) (fuel b : Nat) (url : Str) (h : Handling) : Handling × AccessStatus × Str :=
  match h.world.server.balancers[b]? with
  | none => (h, .declined, url)
  | some balancer =>
    match chooseWorker httpd cfg s turns fuel b balancer h with
    | (h, .ok j) => dispatch b j url h
    | (h, status) => (h, status, url)

/-- `given` is the balancer of the try before, and none on the first. -/
def preRequest (turn : Turn) (turns : Nat → Turn) (fuel : Nat) (given : Option Nat) (url : Str) (h : Handling) :
    Handling × Option Nat × AccessStatus × Str :=
  match given with
  | some b =>
    match releasePrevious httpd b h with
    | none => (h, some b, .crashed, url)
    | some h =>
      let q := routeRequest httpd cfg s turns fuel b url h
      (q.1, some b, q.2)
  | none =>
    match resolveBalancer httpd cfg s turn url h.world with
    | none => (h, none, .crashed, url)
    | some (w, none) => ({ h with world := w }, none, .declined, url)
    | some (w, some b) =>
      let q := routeRequest httpd cfg s turns fuel b url { h with world := w }
      (q.1, some b, q.2)

end PreRequest

end ModCluster
