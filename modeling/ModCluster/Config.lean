import ModCluster.Message
import ModCluster.Workers

/-!
# CONFIG

`process_config` of `mod_manager.c`: it reads the message, checks it against the
tables without the node lock, and then stores balancer, node, hosts and contexts
under it. The check phase already renames a slot it finds being removed.
-/

open CString Slotmem

namespace ModCluster

inductive Outcome where
  | done
  | failed (e : McmpError)
  /-- `ap_assert` ended the process. -/
  | aborted
  | undefined
deriving DecidableEq

inductive LockOp where
  | lock
  | unlock
deriving DecidableEq

structure ConfigResult where
  tables : Tables
  proxy : Option Proxy
  outcome : Outcome
  locks : List LockOp
deriving DecidableEq

/-! ## Checks -/

def isSameNode (nodeinfo node : Nodeinfo) : Bool :=
  nodeinfo.mess.balancer == node.mess.balancer && nodeinfo.mess.host == node.mess.host &&
    nodeinfo.mess.port == node.mess.port && nodeinfo.mess.type == node.mess.type &&
    nodeinfo.mess.reversed == node.mess.reversed && nodeinfo.mess.smax == node.mess.smax &&
    nodeinfo.mess.ttl == node.mess.ttl

def sameWorkerLoop (m : Table Nodeinfo) (node : Nodeinfo) : List Int → Bool
  | [] => false
  | id :: ids =>
    match getNode m id with
    | some i =>
      let ou := m.peek i
      if isSameNode ou node then
        if ou.mess.jvmRoute == node.mess.jvmRoute then false
        else if ou.mess.remove && ou.mess.jvmRoute == REMOVED then false
        else true
      else sameWorkerLoop m node ids
    | none => sameWorkerLoop m node ids

def isSameWorkerExisting (m : Table Nodeinfo) (node : Nodeinfo) : Bool :=
  sameWorkerLoop m node (getIdsUsedNode m)

def setJvmRoute (m : Table Nodeinfo) (i : Nat) (route : Str) : Table Nodeinfo :=
  m.poke i { m.peek i with mess := { (m.peek i).mess with jvmRoute := route } }

/-- Take back a slot that is being removed. -/
def revive (m : Table Nodeinfo) (i : Nat) (route : Str) : Table Nodeinfo :=
  m.poke i { m.peek i with mess := { (m.peek i).mess with
    jvmRoute := route, remove := false, numRemoveCheck := 0 } }

def markNodeRemoved (now : Int) (m : Table Nodeinfo) (i : Nat) : Table Nodeinfo :=
  m.poke i { m.peek i with
    mess := { (m.peek i).mess with jvmRoute := REMOVED, remove := true, numRemoveCheck := 0 }
    updatetime := now }

def readNodeById (m : Table Nodeinfo) (id : Int) : Option Nat :=
  (readNode m (routeNode [] id)).1

/-- What the check phase hands to the commit phase. -/
structure Plan where
  nodes : Table Nodeinfo
  nodeinfo : Nodeinfo
  id : Int
  clean : Bool
  removed : Int
  worker : Option WorkerRef

inductive Checked where
  | go (plan : Plan)
  | fail (e : McmpError)
  | abort (nodes : Table Nodeinfo)

/-- The node of the worker's slot, read when no node has the message's route. -/
def workerNode (m : Table Nodeinfo) (node : Option Nat) (id : Int) : Option Nat :=
  if node.isNone then readNodeById m id else none

/-- The worker's slot belongs to another node. -/
def isTaken (m : Table Nodeinfo) (route : Str) : Option Nat → Bool
  | some i =>
    (m.peek i).mess.jvmRoute != REMOVED && (m.peek i).mess.jvmRoute != [] &&
      (m.peek i).mess.jvmRoute != route
  | none => false

def renameRemoved (m : Table Nodeinfo) (route : Str) : Option Nat → Table Nodeinfo
  | some i => if (m.peek i).mess.jvmRoute = REMOVED then setJvmRoute m i route else m
  | none => m

/-- Take over what the worker knows, unless its area has been wiped. -/
def reuseWorker (ts : Tables) (px : Option Proxy) (nodes : Table Nodeinfo) (nodeinfo : Nodeinfo)
    (worker : Option WorkerRef) (id removed : Int) : Checked :=
  match px, worker with
  | some px, some r =>
    match px.worker? r with
    | some w =>
      if (w.area ts).port = 0 then .abort nodes
      else .go {
        nodes := nodes
        nodeinfo := { nodeinfo with stat := w.area ts }
        id := id
        clean := false
        removed := removed
        worker := some r }
    | none => .abort nodes
  | _, _ => .abort nodes

/-- The worker exists but its slot does not hold the node: put the node there. -/
def checkWorker (ts : Tables) (px : Option Proxy) (node : Option Nat) (nodeinfo : Nodeinfo)
    (worker : Option WorkerRef) (id : Int) : Checked :=
  let workernode := workerNode ts.nodes node id
  if isTaken ts.nodes nodeinfo.mess.jvmRoute workernode then .fail .mnodeet
  else reuseWorker ts px (renameRemoved ts.nodes nodeinfo.mess.jvmRoute workernode) nodeinfo worker id
    (if workernode.isSome then id else -1)

def reviveRemoved (m : Table Nodeinfo) (route : Str) : Option Nat → Table Nodeinfo
  | some i => if (m.peek i).mess.jvmRoute = REMOVED then revive m i route else m
  | none => m

def workerNodeId (m : Table Nodeinfo) : Option Nat → Int
  | some i => (m.peek i).mess.id
  | none => -1

/-- No worker has an id for the node: look for its Host and Port, then for a free id. -/
def checkHostPort (ts : Tables) (px : Option Proxy) (nodeinfo : Nodeinfo) : Checked :=
  let workernode := findNodeByhostport ts.nodes nodeinfo.mess.host nodeinfo.mess.port
  let nodes := reviveRemoved ts.nodes nodeinfo.mess.jvmRoute workernode
  let id := workerNodeId ts.nodes workernode
  .go {
    nodes := nodes
    nodeinfo := nodeinfo
    id := if id = -1 then proxyNodeGetFreeId { ts with nodes := nodes } px ts.nodes.size else id
    clean := true
    removed := -1
    worker := none }

/-- A node has the message's route and is not the same node. -/
def isOtherNode (m : Table Nodeinfo) (nodeinfo : Nodeinfo) : Option Nat → Bool
  | some i => !isSameNode (m.peek i) nodeinfo
  | none => false

def routeOf (m : Table Nodeinfo) : Option Nat → Str
  | some i => (m.peek i).mess.jvmRoute
  | none => []

def checkConfig (httpd : Httpd) (ts : Tables) (px : Option Proxy) (args : ConfigArgs) : Checked :=
  let r := readNode ts.nodes args.node
  let node := r.1
  let nodeinfo := r.2
  if isOtherNode ts.nodes nodeinfo node then .fail (.nodeExists (routeOf ts.nodes node))
  else if isSameWorkerExisting ts.nodes nodeinfo then .fail .mnodeet
  else
    let w := proxyNodeGetid httpd ts px nodeinfo.mess
    if w.2 = -1 then checkHostPort ts px nodeinfo
    else if node.isSome ∧ workerNodeId ts.nodes node = w.2 then
      .go { nodes := ts.nodes, nodeinfo := nodeinfo, id := w.2, clean := true, removed := -1, worker := w.1 }
    else checkWorker ts px node nodeinfo w.1 w.2

/-! ## Hosts and contexts -/

def insertUpdateHostHelper (now : Int) (m : Table Hostinfo) (info : Hostinfo) (host : Str) :
    Option (Table Hostinfo × Hostinfo) :=
  insertUpdateHost now m { info with host := truncate HOSTALIASZ host }

def readRemoveContext (m : Table Contextinfo) (context : Contextinfo) : Table Contextinfo :=
  match readContext m context with
  | some i => removeContext m (m.peek i).id
  | none => m

def insertUpdateContextHelper (now : Int) (m : Table Contextinfo) (info : Contextinfo) (context : Str)
    (status : ContextStatus) : Option (Table Contextinfo) :=
  let info := { info with id := 0, context := truncate CONTEXTSZ context }
  if status = .remove then some (readRemoveContext m info) else insertUpdateContext now m info

/-- A local `hostinfo_t`, as the commands fill it in. -/
def hostRecord (node vhost : Int) (host : Str) : Hostinfo :=
  { id := 0, host := host, vhost := vhost, node := node, updatetime := 0 }

def contextRecord (node vhost : Int) (status : ContextStatus) : Contextinfo :=
  { id := 0, context := [], vhost := vhost, node := node, status := status, nbrequests := 0, updatetime := 0 }

def addContexts (now id vid : Int) (host : Str) :
    List Str → Table Contextinfo → Table Contextinfo × List CapacityError
  | [], m => (m, [])
  | context :: rest, m =>
    match insertUpdateContextHelper now m (contextRecord id vid .stopped) context .stopped with
    | some m' => addContexts now id vid host rest m'
    | none =>
      let r := addContexts now id vid host rest m
      (r.1, .mcontui context host :: r.2)

/-- Store the aliases and their contexts. Only an alias that was stored uses up a
vhost number. -/
def addAliases (now id : Int) (contexts : List Str) :
    (aliases : List Str) → (vid : Int) → Tables → Tables × List CapacityError
  | [], _, ts => (ts, [])
  | host :: rest, vid, ts =>
    match insertUpdateHostHelper now ts.hosts (hostRecord id vid []) host with
    | none =>
      let r := addAliases now id contexts rest vid ts
      (r.1, .mhostui host :: r.2)
    | some (hosts, _) =>
      let c := addContexts now id vid host contexts ts.contexts
      let r := addAliases now id contexts rest (vid + 1) { ts with hosts := hosts, contexts := c.1 }
      (r.1, c.2 ++ r.2)

/-! ## Storing -/

/-- Undo what can be undone when the node could not be stored. -/
def rollback (now : Int) (ts : Tables) (removed : Int) (old : Option Balancerinfo) : Tables :=
  { ts with
    nodes := if removed = -1 then ts.nodes
      else match readNodeById ts.nodes removed with
        | some i => markNodeRemoved now ts.nodes i
        | none => ts.nodes
    balancers := match old with
      | some old => ((insertUpdateBalancer now ts.balancers old).map (·.1)).getD ts.balancers
      | none => ts.balancers }

/-- Hand the stored node to the worker. The asserts guard every pointer used. -/
def pairWorker (now : Int) (ts : Tables) (px : Option Proxy) (plan : Plan) (nodeinfo : Nodeinfo)
    (id : Int) : Option (Tables × Option Proxy) :=
  if plan.clean then some (ts, px)
  else
    match readNodeById ts.nodes id, px, plan.worker with
    | some i, some px, some r =>
      match px.worker? r with
      | some w =>
        match w.context with
        | some helper =>
          if (ts.nodes.peek i).mess.id = id then
            let p := reenableProxyWorker now ts px r w helper i nodeinfo
            some (p.1, some p.2)
          else none
        | none => none
      | none => none
    | _, _, _ => none

/-- The locked part. -/
def commitConfig (now : Int) (ts : Tables) (px : Option Proxy) (args : ConfigArgs) (plan : Plan) :
    ConfigResult :=
  let ts := { ts with nodes := plan.nodes }
  let b := readBalancer ts.balancers args.balancer
  let old := b.1.map ts.balancers.peek
  let route := plan.nodeinfo.mess.jvmRoute
  match insertUpdateBalancer now ts.balancers b.2 with
  | none =>
    { tables := ts, proxy := px, outcome := .failed (.mbalaui route), locks := [.lock, .unlock] }
  | some (balancers, _) =>
    let ts := { ts with balancers := balancers }
    match insertUpdateNode now ts.nodes plan.nodeinfo plan.id plan.clean with
    | none =>
      { tables := rollback now ts plan.removed old
        proxy := px
        outcome := .failed (.mnodeui route)
        locks := [.lock, .unlock] }
    | some (nodes, nodeinfo, id) =>
      let ts := { ts with nodes := nodes }
      match pairWorker now ts px plan nodeinfo id with
      | none => { tables := ts, proxy := px, outcome := .aborted, locks := [.lock] }
      | some (ts, px) =>
        let r := addAliases now id args.contexts args.aliases 1 (incVersionNode ts)
        { tables := r.1
          proxy := px
          outcome := if r.2 = [] then .done else .failed (.capacity route r.2)
          locks := [.lock, .unlock] }

def processConfig (httpd : Httpd) (mconf : Mconf) (now : Int) (ts : Tables) (px : Option Proxy)
    (argv : Argv) : ConfigResult :=
  match parseConfig httpd mconf argv with
  | .error e => { tables := ts, proxy := px, outcome := .failed e, locks := [] }
  | .ok args =>
    match checkConfig httpd ts px args with
    | .fail e => { tables := ts, proxy := px, outcome := .failed e, locks := [.unlock] }
    | .abort nodes =>
      { tables := { ts with nodes := nodes }, proxy := px, outcome := .aborted, locks := [] }
    | .go plan => commitConfig now ts px args plan

end ModCluster
