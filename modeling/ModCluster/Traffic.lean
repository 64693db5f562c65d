import ModCluster.PreRequest
import ModCluster.Processes

/-!
# Requests on their way

Requests are counted twice: in the helper of the worker they go to, which is memory
of one process, and in the record of their context, which all processes share. A
request is counted in when `proxy_cluster_pre_request` has chosen its worker and
counted out when it is tried again or has ended. Between these steps the tables and
the workers change in any way the commands, the watchdogs and the other requests
change them.
-/

open CString Slotmem Slotmem.Table

namespace ModCluster

/-- The part of `proxy_cluster_post_request` that counts. -/
def postRequest (b j : Nat) (h : Handling) : Option Handling :=
  (h.setTables (updContextCount h.world.tables h.request.notes.contextId (-1))).updateHelper b j
    fun helper => if helper.countActive > 0 then helper.count (-1) else helper

/-! ## The state -/

/-- A record of the context table: its slot, and how often the slot had been filled by then. -/
structure Incarnation where
  slot : Nat
  birth : Nat
deriving DecidableEq

/-- A request that was given a worker. -/
structure Flight where
  proc : Nat
  ref : WorkerRef
  /-- Where `BALANCER_WORKER_NAME` points. The name is not copied. -/
  name : Loc
  /-- The record whose slot number is in `BALANCER_CONTEXT_ID`. -/
  context : Option Incarnation
deriving DecidableEq

structure Traffic where
  cluster : Cluster
  /-- How often each slot of the context table was filled. No part of the program. -/
  births : Nat → Nat
  flights : List Flight

theorem countP_erase_add {α : Type} [DecidableEq α] {l : List α} {a : α} (h : a ∈ l) (p : α → Bool) :
    l.countP p = (l.erase a).countP p + if p a then 1 else 0 := by
  rw [(List.perm_cons_erase h).countP_eq, List.countP_cons]

def Worker.active (w : Worker) : Int :=
  match w.context with
  | some helper => helper.countActive
  | none => 0

def Server.active (sv : Server) (b j : Nat) : Int :=
  match sv.worker? b j with
  | some w => w.active
  | none => 0

/-- `helper->count_active` of a worker. -/
def Cluster.active (c : Cluster) (p : Nat) (r : WorkerRef) : Int :=
  match c.server? p r.server with
  | some sv => sv.active r.balancer r.worker
  | none => 0

/-- The requests that are dispatched to a worker. -/
def Traffic.dispatched (t : Traffic) (p : Nat) (r : WorkerRef) : Nat :=
  t.flights.countP fun f => f.proc == p && f.ref == r

/-- The requests that are dispatched to the context record in slot `i`. -/
def Traffic.serving (t : Traffic) (i : Nat) : Nat :=
  t.flights.countP fun f => f.context == some ⟨i, t.births i⟩

/-! ## What the steps depend on -/

/-- The name that `BALANCER_WORKER_NAME` leads to now. -/
def Flight.workerName (f : Flight) (ts : Tables) (w : Worker) : Str :=
  match f.name with
  | .slot i => (ts.nodes.peek i).stat.name
  | .priv => w.priv.name

/-- The request as the next try or the end finds it. -/
def Flight.notes (f : Flight) (ts : Tables) (w : Worker) (r : Request) : Request :=
  { r with notes := { r.notes with
    workerName := some (f.workerName ts w), contextId := f.context.map fun n => (n.slot : Int) } }

/-- `check_workers` finds that the slot is not the worker's any more. -/
def isWorkerChanged (ts : Tables) (w : Worker) : Bool :=
  isWorkerEmpty ts w || (w.area ts).port != w.priv.port || (w.area ts).scheme != w.priv.scheme ||
    (w.area ts).hostname != w.priv.hostname

/-- The worker of the node of a CONFIG is not paired with the node. -/
def PairedAgain (httpd : Httpd) (ts : Tables) (px : Proxy) (args : ConfigArgs) (r : WorkerRef) : Prop :=
  let node := readNode ts.nodes args.node
  let w := proxyNodeGetid httpd ts (some px) node.2.mess
  w.1 = some r ∧ w.2 ≠ -1 ∧ ¬ (node.1.isSome ∧ workerNodeId ts.nodes node.1 = w.2)

/-- The name leads to the worker itself: it is its own, and no worker before it has the same. -/
def NameLeads (httpd : Httpd) (ts : Tables) (sv : Server) (f : Flight) (w : Worker) : Prop :=
  f.workerName ts w ≠ [] ∧ f.workerName ts w = w.priv.name ∧
    ∀ j w', j < f.ref.worker → sv.worker? f.ref.balancer j = some w' →
      httpd.hashfunc w'.priv.name ≠ httpd.hashfunc w.priv.name

/-- The slot is empty, or it still has the record the request was dispatched to. -/
def Traffic.Current (t : Traffic) (context : Option Incarnation) : Prop :=
  ∀ n, context = some n → t.cluster.tables.contexts.used n.slot ≠ none → t.births n.slot = n.birth

/-! ## Steps -/

/-- The slots that a step has filled count one more. -/
def bump (before after : Table Contextinfo) (births : Nat → Nat) (i : Nat) : Nat :=
  if (before.used i).isNone && (after.used i).isSome then births i + 1 else births i

def Traffic.move (t : Traffic) (c : Cluster) (flights : List Flight) : Traffic where
  cluster := c
  births := bump t.cluster.tables.contexts c.tables.contexts t.births
  flights := flights

/-- The steps of a run. The `steady` ones do not set a count to 0, and do not count out another
worker, while requests are dispatched. The `current` ones do not count in a slot that was
filled again. -/
inductive TrafficStep (httpd : Httpd) (steady current : Prop) (t : Traffic) : Traffic → Prop
  /-- The end of `proxy_cluster_pre_request`. The tables of the request may be old. -/
  | starts (p k b j : Nat) (sv : Server) (hsv : t.cluster.server? p k = some sv) (w : Worker)
      (hw : sv.worker? b j = some w) (r : Request) (context : Option Incarnation)
      (hcontext : r.notes.contextId = context.map fun n => (n.slot : Int))
      (hold : ∀ n, context = some n → n.birth ≤ t.births n.slot) (url url' : Str) (h : Handling)
      (hrun : dispatch b j url ⟨⟨t.cluster.tables, sv⟩, r⟩ = (h, .ok j, url'))
      (hcurrent : current → t.Current context) :
      TrafficStep httpd steady current t
        (t.move (t.cluster.setServer h.world.tables p k h.world.server) (⟨p, ⟨k, b, j⟩, w.s, context⟩ :: t.flights))
  /-- The start of `proxy_cluster_pre_request` on another try. -/
  | retries (f : Flight) (hf : f ∈ t.flights) (sv : Server) (hsv : t.cluster.server? f.proc f.ref.server = some sv)
      (w : Worker) (hw : sv.worker? f.ref.balancer f.ref.worker = some w) (r : Request) (h : Handling)
      (hrun : releasePrevious httpd f.ref.balancer ⟨⟨t.cluster.tables, sv⟩, f.notes t.cluster.tables w r⟩ = some h)
      (hsteady : steady → NameLeads httpd t.cluster.tables sv f w)
      (hcurrent : current → f.workerName t.cluster.tables w ≠ [] ∧ t.Current f.context) :
      TrafficStep httpd steady current t
        (t.move (t.cluster.setServer h.world.tables f.proc f.ref.server h.world.server) (t.flights.erase f))
  | ends (f : Flight) (hf : f ∈ t.flights) (sv : Server) (hsv : t.cluster.server? f.proc f.ref.server = some sv)
      (w : Worker) (hw : sv.worker? f.ref.balancer f.ref.worker = some w) (r : Request) (h : Handling)
      (hrun : postRequest f.ref.balancer f.ref.worker
        ⟨⟨t.cluster.tables, sv⟩, f.notes t.cluster.tables w r⟩ = some h)
      (hcurrent : current → t.Current f.context) :
      TrafficStep httpd steady current t
        (t.move (t.cluster.setServer h.world.tables f.proc f.ref.server h.world.server) (t.flights.erase f))
  /-- What elections, retries of workers and `mod_proxy` write into the area of a worker. -/
  | writes (p k b j : Nat) (sv : Server) (hsv : t.cluster.server? p k = some sv) (f : WorkerShared → WorkerShared) :
      TrafficStep httpd steady current t
        (t.move (t.cluster.setServer (World.write ⟨t.cluster.tables, sv⟩ b j f).tables p k
          (World.write ⟨t.cluster.tables, sv⟩ b j f).server) t.flights)
  | readNodeTable (p : Nat) :
      TrafficStep httpd steady current t
        (t.move { t.cluster with procs := t.cluster.procs.modify p fun q =>
          { q with seen := readNodeTable t.cluster.tables ++ q.seen } } t.flights)
  | addWorkers (p k : Nat) (q : Process) (sv : Server) (hq : t.cluster.procs[p]? = some q)
      (hsv : t.cluster.server? p k = some sv) (creatBal : CreatBal) (main : Bool) (now : Int) (ou : NodeEntry)
      (hou : ou ∈ q.seen) (hremove : ou.info.mess.remove = false) (i : Nat) (hptr : ou.ptr = some i) :
      TrafficStep httpd steady current t
        (t.move (t.cluster.setServer
          (addBalancersWorkersForServer httpd creatBal main now t.cluster.tables sv ou.info.mess i).1 p k
          (addBalancersWorkersForServer httpd creatBal main now t.cluster.tables sv ou.info.mess i).2.1) t.flights)
  | checkWorkers (p k : Nat) (sv sv' : Server) (hsv : t.cluster.server? p k = some sv)
      (hcheck : checkWorkers httpd t.cluster.tables sv = some sv')
      (hsteady : steady → ∀ b j w, sv.worker? b j = some w → isWorkerChanged t.cluster.tables w = true →
        t.dispatched p ⟨k, b, j⟩ = 0) :
      TrafficStep httpd steady current t (t.move (t.cluster.setServer t.cluster.tables p k sv') t.flights)
  | removeWorkers (p k : Nat) (sv : Server) (hsv : t.cluster.server? p k = some sv) (now : Int) (i : Nat)
      (ts' : Tables) (sv' : Server) (hrun : removeWorkersNode httpd now t.cluster.tables sv i = some (ts', sv')) :
      TrafficStep httpd steady current t (t.move (t.cluster.setServer ts' p k sv') t.flights)
  | lookup (p k : Nat) (sv : Server) (hsv : t.cluster.server? p k = some sv) (id : Int) (i : Nat) :
      TrafficStep httpd steady current t
        (t.move (t.cluster.setServer (getWorkerFromIdStat t.cluster.tables sv id i).1 p k
          (getWorkerFromIdStat t.cluster.tables sv id i).2.1) t.flights)
  | isup (p k : Nat) (sv : Server) (hsv : t.cluster.server? p k = some sv) (creatBal : CreatBal) (main : Bool)
      (now : Int) (i : Nat) :
      TrafficStep httpd steady current t
        (t.move (t.cluster.setServer (isupServer httpd creatBal main now t.cluster.tables sv i).1 p k
          (isupServer httpd creatBal main now t.cluster.tables sv i).2) t.flights)
  | config (p : Nat) (q : Process) (hq : t.cluster.procs[p]? = some q) (mconf : Mconf) (now : Int) (argv : Argv)
      (px : Proxy) (hpx : (processConfig httpd mconf now t.cluster.tables (some q.proxy) argv).proxy = some px)
      (hsteady : steady → ∀ args r, parseConfig httpd mconf argv = .ok args →
        PairedAgain httpd t.cluster.tables q.proxy args r → t.dispatched p r = 0) :
      TrafficStep httpd steady current t
        (t.move (t.cluster.setProxy (processConfig httpd mconf now t.cluster.tables (some q.proxy) argv).tables p px)
          t.flights)
  /-- The application commands, the watchdogs and the bookkeeping of other processes. -/
  | tables (ts : Tables) (h : Step httpd False t.cluster.tables ts) :
      TrafficStep httpd steady current t (t.move { t.cluster with tables := ts } t.flights)

def TrafficRun (httpd : Httpd) (steady current : Prop) : Traffic → Traffic → Prop :=
  Relation.ReflTransGen (TrafficStep httpd steady current)

/-- The processes start without workers of the module. -/
def Traffic.Initial (t : Traffic) : Prop :=
  (∃ sz, t.cluster.tables = emptyTables sz) ∧
    (∀ q ∈ t.cluster.procs, q.seen = [] ∧ ∀ w ∈ q.proxy.workers, w.context = none) ∧ t.flights = []

end ModCluster
