import ModCluster.WorkerUpdate
import ModCluster.Run

/-!
# Child processes

Any number of child processes work on the shared tables, each with its own workers.
A step is what one process does under the node lock: one line of a node table, one
node that is being removed, one lookup, one walk of `remove_removed_node`, one
command, or the start or end of a request. The loops of a watchdog tick are runs of
such steps, so the runs below contain all interleavings of ticks.
-/

open CString Slotmem Slotmem.Table

namespace ModCluster

/-- A child process. Its node tables were read some time ago. -/
structure Process where
  proxy : Proxy
  seen : List NodeEntry

structure Cluster where
  tables : Tables
  procs : List Process

/-! ## Who points where -/

def pointsTo (i : Nat) (w : Worker) : Bool := w.s == .slot i

def attachedIn (i : Nat) (ws : List Worker) : Nat := ws.countP (pointsTo i)

def Server.attached (sv : Server) (i : Nat) : Nat := (sv.balancers.map fun b => attachedIn i b.workers).sum

def Proxy.attached (px : Proxy) (i : Nat) : Nat := (px.servers.map fun sv => sv.attached i).sum

/-- The number of workers of all processes whose `s` points into slot `i`. -/
def Cluster.attached (c : Cluster) (i : Nat) : Nat := (c.procs.map fun p => p.proxy.attached i).sum

/-- Workers of a server that have the id but point elsewhere: a lookup unpairs them. -/
def isStray (id : Int) (i : Nat) (w : Worker) : Bool :=
  !pointsTo i w && (match w.context with | some helper => helper.index == id | none => false)

def Server.strays (sv : Server) (id : Int) (i : Nat) : Nat :=
  (sv.balancers.map fun b => b.workers.countP (isStray id i)).sum

/-! ## Steps -/

/-- Put process `p`, server `k` and the tables in place. -/
def Cluster.setServer (c : Cluster) (ts : Tables) (p k : Nat) (sv : Server) : Cluster where
  tables := ts
  procs := c.procs.modify p fun q => { q with proxy := ⟨q.proxy.servers.set k sv⟩ }

def Cluster.server? (c : Cluster) (p k : Nat) : Option Server :=
  (c.procs[p]?).bind fun q => q.proxy.servers[k]?

def Cluster.setProxy (c : Cluster) (ts : Tables) (p : Nat) (px : Proxy) : Cluster where
  tables := ts
  procs := c.procs.modify p fun q => { q with proxy := px }

/-- The record of slot `i` has the reserved name. -/
def CalledRemoved (ts : Tables) (i : Nat) : Prop := (ts.nodes.peek i).mess.jvmRoute = REMOVED

/-- What a lookup of node `i` leaves of its count still covers the workers that point
into its slot. -/
def LookupOk (c : Cluster) (sv : Server) (i : Nat) : Prop :=
  CalledRemoved c.tables i → c.attached i ≤
    (c.tables.nodes.peek i).mess.hasWorkers - sv.strays (c.tables.nodes.peek i).mess.id i

/-- The nodes whose turn it is to be renamed have all workers counted that still
point into their slots. -/
def RetireOk (wait now : Int) (c : Cluster) : Prop :=
  ∀ i n, c.tables.nodes.used i = some n → n.mess.jvmRoute ≠ REMOVED → n.mess.remove = true →
    now - n.updatetime ≥ wait → now - n.mess.lastcleantry ≥ wait → c.attached i ≤ n.mess.hasWorkers

/-- What requests and the other parts of the modules write into the record of a node. -/
structure NodeNote (a n : Nodeinfo) : Prop extends Bookkeeping a n where
  hasWorkers : n.mess.hasWorkers = a.mess.hasWorkers

inductive ClusterStep (httpd : Httpd) (guarded : Prop) : Cluster → Cluster → Prop
  | readNodeTable {c : Cluster} (p : Nat) :
      ClusterStep httpd guarded c { c with procs := c.procs.modify p fun q =>
        { q with seen := readNodeTable c.tables ++ q.seen } }
  /-- One line of `update_workers_node`. -/
  | addWorkers {c : Cluster} (p k : Nat) (q : Process) (sv : Server) (hq : c.procs[p]? = some q)
      (hsv : c.server? p k = some sv) (creatBal : CreatBal) (main : Bool) (now : Int) (ou : NodeEntry)
      (hou : ou ∈ q.seen) (hremove : ou.info.mess.remove = false) (i : Nat) (hptr : ou.ptr = some i)
      (hguard : guarded → ¬ CalledRemoved c.tables i) :
      ClusterStep httpd guarded c
        (c.setServer (addBalancersWorkersForServer httpd creatBal main now c.tables sv ou.info.mess i).1 p k
          (addBalancersWorkersForServer httpd creatBal main now c.tables sv ou.info.mess i).2.1)
  | checkWorkers {c : Cluster} (p k : Nat) (sv sv' : Server) (hsv : c.server? p k = some sv)
      (hcheck : checkWorkers httpd c.tables sv = some sv') :
      ClusterStep httpd guarded c (c.setServer c.tables p k sv')
  /-- One node of `remove_workers_nodes`. -/
  | removeWorkers {c : Cluster} (p k : Nat) (sv : Server) (hsv : c.server? p k = some sv) (now : Int)
      (i : Nat) (n : Nodeinfo) (hn : c.tables.nodes.used i = some n) (hremove : n.mess.remove = true)
      (ts' : Tables) (sv' : Server) (hrun : removeWorkersNode httpd now c.tables sv i = some (ts', sv'))
      (hguard : guarded → LookupOk c sv i) :
      ClusterStep httpd guarded c (c.setServer ts' p k sv')
  /-- A lookup of `update_workers_lbstatus` or of `proxy_node_isup`. -/
  | lookup {c : Cluster} (p k : Nat) (sv : Server) (hsv : c.server? p k = some sv) (i : Nat) (n : Nodeinfo)
      (hn : c.tables.nodes.used i = some n) (hguard : guarded → LookupOk c sv i) :
      ClusterStep httpd guarded c
        (c.setServer (getWorkerFromIdStat c.tables sv n.mess.id i).1 p k
          (getWorkerFromIdStat c.tables sv n.mess.id i).2.1)
  | removeRemovedNode {c : Cluster} (wait now : Int) (hguard : guarded → RetireOk wait now c) :
      ClusterStep httpd guarded c { c with tables := removeRemovedNode httpd wait now c.tables }
  /-- The workers that STATUS creates in one server. -/
  | isup {c : Cluster} (p k : Nat) (sv : Server) (hsv : c.server? p k = some sv) (creatBal : CreatBal)
      (main : Bool) (now : Int) (i : Nat) (n : Nodeinfo) (hn : c.tables.nodes.used i = some n)
      (hremove : n.mess.remove = false) (hguard : guarded → ¬ CalledRemoved c.tables i) :
      ClusterStep httpd guarded c
        (c.setServer (isupServer httpd creatBal main now c.tables sv i).1 p k
          (isupServer httpd creatBal main now c.tables sv i).2)
  /-- The start or the end of a request on worker `r`. -/
  | request {c : Cluster} (p : Nat) (q : Process) (hq : c.procs[p]? = some q) (r : WorkerRef) (w : Worker)
      (hw : q.proxy.worker? r = some w) (helper : Helper) (hhelper : w.context = some helper) (starts : Bool) :
      ClusterStep httpd guarded c (c.setProxy c.tables p (q.proxy.setWorker r { w with
        context := some { helper with countActive := helper.countActive + if starts then 1 else -1 } }))
  | config {c : Cluster} (p : Nat) (q : Process) (hq : c.procs[p]? = some q) (mconf : Mconf) (now : Int)
      (argv : Argv) (px : Proxy) (res : ConfigResult)
      (hres : processConfig httpd mconf now c.tables (some q.proxy) argv = res) (hpx : res.proxy = some px)
      (hguard : guarded → ∀ args, parseConfig httpd mconf argv = .ok args →
        args.node.mess.jvmRoute ≠ REMOVED) :
      ClusterStep httpd guarded c (c.setProxy res.tables p px)
  | app {c : Cluster} (now : Int) (filename : Str) (argv : Argv) (cmd : ContextStatus) :
      ClusterStep httpd guarded c { c with tables := (processAppCmd httpd now c.tables filename argv cmd).tables }
  | note {c : Cluster} (i : Nat) (a n : Nodeinfo) (ha : c.tables.nodes.used i = some a) (hnote : NodeNote a n) :
      ClusterStep httpd guarded c { c with tables := { c.tables with nodes := c.tables.nodes.poke i n } }

/-- Processes start with workers in their own areas. -/
def Cluster.Initial (c : Cluster) : Prop :=
  (∃ sz, c.tables = emptyTables sz) ∧
    ∀ q ∈ c.procs, q.seen = [] ∧ ∀ w ∈ q.proxy.workers, w.s = .priv

def ClusterReachable (httpd : Httpd) (guarded : Prop) (c : Cluster) : Prop :=
  ∃ c₀ : Cluster, c₀.Initial ∧ Relation.ReflTransGen (ClusterStep httpd guarded) c₀ c

/-! ## The calls of `remove_node` -/

def removeRemovedCalls (httpd : Httpd) (wait now : Int) : List Int → Tables → List Int
  | [], _ => []
  | id :: ids, ts =>
    (removeRemovedStep httpd wait now ts id).2.toList ++
      removeRemovedCalls httpd wait now ids (removeRemovedStep httpd wait now ts id).1

/-- No slot that a walk of `remove_removed_node` frees has a worker pointing into it. -/
def RemovalSafe (httpd : Httpd) (c : Cluster) : Prop :=
  ∀ (wait now : Int), ∀ id ∈ removeRemovedCalls httpd wait now (getIdsUsedNode c.tables.nodes) c.tables,
    ∀ q ∈ c.procs, ∀ w ∈ q.proxy.workers, ∀ i : Nat, w.s = .slot i → id ≠ i

end ModCluster
