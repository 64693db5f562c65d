import ModCluster.Records

/-!
# Storage

The functions of `node.c`, `host.c`, `context.c`, `balancer.c` and `domain.c`. A
function that writes into its caller's record returns that record too. `now` is
what `apr_time_now` answers, in microseconds.
-/

open CString Slotmem

namespace ModCluster

def aprTimeSec (t : Int) : Int := t / 1000000

/-! ## node.c -/

namespace Node

def withId (n : Nodeinfo) (id : Int) : Nodeinfo := { n with mess := { n.mess with id := id } }

/-- `ou` with everything but its id and `stat` area from `inn`. -/
def merge (now : Int) (ou inn : Nodeinfo) : Nodeinfo :=
  { ou with mess := { inn.mess with id := ou.mess.id }, updatetime := now }

def update (now : Int) (ou inn : Nodeinfo) : Status × Nodeinfo × Nodeinfo :=
  if inn.mess.jvmRoute == ou.mess.jvmRoute then (.eexist, merge now ou inn, withId inn ou.mess.id)
  else (.success, ou, inn)

def locReadNode (ou inn : Nodeinfo) : Status × Nodeinfo × Nodeinfo :=
  if inn.mess.jvmRoute == ou.mess.jvmRoute then (.eexist, ou, withId inn ou.mess.id)
  else (.success, ou, inn)

def locReadNodeByhostport (ou inn : Nodeinfo) : Status × Nodeinfo × Nodeinfo :=
  if inn.mess.host == ou.mess.host && inn.mess.port == ou.mess.port then
    (.eexist, ou, withId inn ou.mess.id)
  else (.success, ou, inn)

end Node

/-- What `insert_update_node` writes into the slot it takes. -/
def freshNode (now : Int) (node : Nodeinfo) (clean : Bool) (i : Nat) : Nodeinfo :=
  { mess := { node.mess with id := i }
    updatetime := now
    stat := if clean then default else node.stat }

def insertUpdateNode (now : Int) (m : Table Nodeinfo) (node : Nodeinfo) (id : Int) (clean : Bool) :
    Option (Table Nodeinfo × Nodeinfo × Int) :=
  match m.doall (Node.update now) node with
  | (.eexist, m', node') => some (m', node', node'.mess.id)
  | (_, m', node') =>
    if id = -1 then
      m'.grab.map fun r => (r.2.poke r.1 (freshNode now node' clean r.1), node', (r.1 : Int))
    else
      (m'.fgrab id).map fun m'' => (m''.poke id.toNat (freshNode now node' clean id.toNat), node', id)

def readNode (m : Table Nodeinfo) (node : Nodeinfo) : Option Nat × Nodeinfo :=
  if node.mess.id = -1 then m.readBy Node.locReadNode (·.mess.id) node
  else (m.dptr node.mess.id, node)

def getNode (m : Table Nodeinfo) (id : Int) : Option Nat := m.dptr id

def removeNode (m : Table Nodeinfo) (id : Int) : Table Nodeinfo := m.release id

-- Local `nodeinfo_t` variables of which a few fields are set.
def routeNode (route : Str) (id : Int) : Nodeinfo :=
  { (default : Nodeinfo) with mess := { (default : Nodemess) with jvmRoute := route, id := id } }

def hostPortNode (host port : Str) : Nodeinfo :=
  { (default : Nodeinfo) with mess := { (default : Nodemess) with host := host, port := port } }

def findNodeByhostport (m : Table Nodeinfo) (host port : Str) : Option Nat :=
  (m.readBy Node.locReadNodeByhostport (·.mess.id)
    (hostPortNode (truncate (HOSTNODESZ - 1) host) (truncate (PORTNODESZ - 1) port))).1

def getIdsUsedNode (m : Table Nodeinfo) : List Int :=
  (m.doall (fun ou ids => (.success, ou, ids ++ [ou.mess.id])) []).2.2

/-! ## host.c -/

namespace Host

def update (now : Int) (ou inn : Hostinfo) : Status × Hostinfo × Hostinfo :=
  if inn.host == ou.host && inn.vhost == ou.vhost && inn.node == ou.node then
    (.eexist, { inn with id := ou.id, updatetime := aprTimeSec now }, { inn with id := ou.id })
  else (.success, ou, inn)

def locReadHost (ou inn : Hostinfo) : Status × Hostinfo × Hostinfo :=
  if inn.host == ou.host && inn.node == ou.node then (.eexist, ou, { inn with id := ou.id })
  else (.success, ou, inn)

end Host

def insertUpdateHost (now : Int) (m : Table Hostinfo) (host : Hostinfo) :
    Option (Table Hostinfo × Hostinfo) :=
  m.insertUpdate (Host.update now) host fun i => { host with id := i, updatetime := aprTimeSec now }

def readHost (m : Table Hostinfo) (host : Hostinfo) : Option Nat × Hostinfo :=
  if host.id = 0 then m.readBy Host.locReadHost (·.id) host else (m.dptr host.id, host)

def getHost (m : Table Hostinfo) (id : Int) : Option Nat := m.dptr id

def removeHost (m : Table Hostinfo) (id : Int) : Table Hostinfo := m.release id

def getIdsUsedHost (m : Table Hostinfo) : List Int :=
  (m.doall (fun ou ids => (.success, ou, ids ++ [ou.id])) []).2.2

/-! ## context.c -/

namespace Context

/-- The one `update` that leaves its caller's record, and `nbrequests`, alone. -/
def update (now : Int) (ou inn : Contextinfo) : Status × Contextinfo × Contextinfo :=
  if inn.context == ou.context && inn.vhost == ou.vhost && inn.node == ou.node then
    (.eexist, { ou with status := inn.status, updatetime := aprTimeSec now }, inn)
  else (.success, ou, inn)

def locReadContext (ou inn : Contextinfo) : Status × Contextinfo × Contextinfo :=
  if inn.context == ou.context && inn.vhost == ou.vhost && ou.node == inn.node then
    (.eexist, ou, { inn with id := ou.id })
  else (.success, ou, inn)

end Context

def insertUpdateContext (now : Int) (m : Table Contextinfo) (context : Contextinfo) :
    Option (Table Contextinfo) :=
  (m.insertUpdate (Context.update now) context fun i =>
    { context with id := i, nbrequests := 0, updatetime := aprTimeSec now }).map (·.1)

def readContext (m : Table Contextinfo) (context : Contextinfo) : Option Nat :=
  if context.id = 0 then (m.readBy Context.locReadContext (·.id) context).1 else m.dptr context.id

def getContext (m : Table Contextinfo) (id : Int) : Option Nat := m.dptr id

def removeContext (m : Table Contextinfo) (id : Int) : Table Contextinfo := m.release id

def getIdsUsedContext (m : Table Contextinfo) : List Int :=
  (m.doall (fun ou ids => (.success, ou, ids ++ [ou.id])) []).2.2

/-! ## balancer.c -/

namespace Balancer

def update (now : Int) (ou inn : Balancerinfo) : Status × Balancerinfo × Balancerinfo :=
  if inn.balancer == ou.balancer then
    (.eexist, { inn with id := ou.id, updatetime := aprTimeSec now }, { inn with id := ou.id })
  else (.success, ou, inn)

def locReadBalancer (ou inn : Balancerinfo) : Status × Balancerinfo × Balancerinfo :=
  if inn.balancer == ou.balancer then (.eexist, ou, { inn with id := ou.id })
  else (.success, ou, inn)

end Balancer

def insertUpdateBalancer (now : Int) (m : Table Balancerinfo) (balancer : Balancerinfo) :
    Option (Table Balancerinfo × Balancerinfo) :=
  m.insertUpdate (Balancer.update now) balancer fun i =>
    { balancer with id := i, updatetime := aprTimeSec now }

def readBalancer (m : Table Balancerinfo) (balancer : Balancerinfo) : Option Nat × Balancerinfo :=
  if balancer.id = 0 then m.readBy Balancer.locReadBalancer (·.id) balancer
  else (m.dptr balancer.id, balancer)

def getIdsUsedBalancer (m : Table Balancerinfo) : List Int :=
  (m.doall (fun ou ids => (.success, ou, ids ++ [ou.id])) []).2.2

/-! ## domain.c -/

namespace Domain

def update (now : Int) (ou inn : Domaininfo) : Status × Domaininfo × Domaininfo :=
  if inn.jvmRoute == ou.jvmRoute && inn.balancer == ou.balancer then
    (.eexist, { inn with id := ou.id, updatetime := aprTimeSec now }, { inn with id := ou.id })
  else (.success, ou, inn)

end Domain

def insertUpdateDomain (now : Int) (m : Table Domaininfo) (domain : Domaininfo) :
    Option (Table Domaininfo) :=
  (m.insertUpdate (Domain.update now) domain fun i =>
    { domain with id := i, updatetime := aprTimeSec now }).map (·.1)

/-- The record of slot 0 is searched with the address of a pointer to it, so what is
released, if anything, is up to stray memory: `stray` says. -/
def removeDomain (stray : Table Domaininfo → Option Int) (m : Table Domaininfo) (domain : Domaininfo) :
    Table Domaininfo :=
  if domain.id ≠ 0 then m.release domain.id
  else match stray m with
    | some id => m.release id
    | none => m

def getIdsUsedDomain (m : Table Domaininfo) : List Int :=
  (m.doall (fun ou ids => (.success, ou, ids ++ [ou.id])) []).2.2

/-! ## mod_manager.c -/

def locRemoveHostContext (node : Int) (ts : Tables) : Tables :=
  if ts.hosts.size = 0 then ts
  else { ts with
    hosts := ts.hosts.sweep (·.id) (fun ou => ou.node == node) (getIdsUsedHost ts.hosts)
    contexts := ts.contexts.sweep (·.id) (fun ou => ou.node == node) (getIdsUsedContext ts.contexts) }

def incVersionNode (ts : Tables) : Tables := { ts with version := ts.version + 1 }

end ModCluster
