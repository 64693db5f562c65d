import ModCluster.Storage
import ModCluster.Httpd

/-!
# Removal by the watchdogs

`remove_removed_node` of `mod_proxy_cluster.c` and of `mod_lbmethod_cluster.c`.
The first renames a node, waits, and frees its slot later; the second frees it at
once. `wait` is `wait_for_remove`.
-/

open CString Slotmem

namespace ModCluster

/-! ## mod_proxy_cluster -/

def TIMEDOMAIN : Int := 300

def removeTimeoutDomain (httpd : Httpd) (now : Int) (m : Table Domaininfo) : List Int → Table Domaininfo
  | [] => m
  | id :: ids =>
    match m.dptr id with
    | some i =>
      let ou := m.peek i
      removeTimeoutDomain httpd now
        (if ou.updatetime < aprTimeSec now - TIMEDOMAIN then removeDomain httpd.strayDomain m ou else m) ids
    | none => removeTimeoutDomain httpd now m ids

/-- Keep the domain of a node that goes away. -/
def storeDomain (httpd : Httpd) (now : Int) (m : Table Domaininfo) (ou : Nodemess) : Table Domaininfo :=
  if ou.domain = [] then m
  else
    let dom := { (default : Domaininfo) with
      jvmRoute := ou.jvmRoute, balancer := ou.balancer, domain := ou.domain }
    match insertUpdateDomain now m dom with
    | some m' => m'
    | none =>
      let m := removeTimeoutDomain httpd now m (getIdsUsedDomain m)
      (insertUpdateDomain now m dom).getD m

def nodeHasWorkers (ou : Nodeinfo) : Bool := ou.mess.hasWorkers > 0

def bumpRemoveCheck (n : Nodeinfo) : Nodeinfo :=
  { n with mess := { n.mess with numRemoveCheck := n.mess.numRemoveCheck + 1 } }

/-- The node gives up its name and its domain. -/
def retire (now : Int) (n : Nodeinfo) : Nodeinfo :=
  { n with mess := { n.mess with jvmRoute := REMOVED, domain := [], numRemoveCheck := 0 }, updatetime := now }

/-- One node of the walk. The second part is what `remove_node` is called with. -/
def removeRemovedStep (httpd : Httpd) (wait now : Int) (ts : Tables) (id : Int) : Tables × Option Int :=
  match getNode ts.nodes id with
  | none => (ts, none)
  | some i =>
    let ou := ts.nodes.peek i
    if ou.mess.jvmRoute = REMOVED ∧ now - ou.updatetime ≥ wait then
      if nodeHasWorkers ou then
        ({ ts with nodes := ts.nodes.poke i { ou with updatetime := now } }, none)
      else
        let nodes := ts.nodes.poke i (bumpRemoveCheck ou)
        if ou.mess.numRemoveCheck + 1 > 10 then
          ({ ts with nodes := removeNode nodes ou.mess.id }, some ou.mess.id)
        else ({ ts with nodes := nodes }, none)
    else if ou.mess.remove ∧ now - ou.updatetime ≥ wait ∧ now - ou.mess.lastcleantry ≥ wait then
      let ts := { ts with domains := storeDomain httpd now ts.domains ou.mess }
      let ts := locRemoveHostContext ou.mess.id ts
      ({ ts with nodes := ts.nodes.poke i (retire now ou) }, none)
    else (ts, none)

def removeRemovedLoop (httpd : Httpd) (wait now : Int) : List Int → Tables → Tables
  | [], ts => ts
  | id :: ids, ts => removeRemovedLoop httpd wait now ids (removeRemovedStep httpd wait now ts id).1

def removeRemovedNode (httpd : Httpd) (wait now : Int) (ts : Tables) : Tables :=
  removeRemovedLoop httpd wait now (getIdsUsedNode ts.nodes) ts

/-! ## mod_lbmethod_cluster -/

def lbRemoveStep (wait now : Int) (ts : Tables) (id : Int) : Tables :=
  match getNode ts.nodes id with
  | none => ts
  | some i =>
    let ou := ts.nodes.peek i
    if ou.mess.remove ∧ now - ou.updatetime ≥ wait ∧ now - ou.mess.lastcleantry ≥ wait then
      let ts := locRemoveHostContext ou.mess.id ts
      { ts with nodes := removeNode ts.nodes ou.mess.id }
    else ts

/-- The ids come from a node table read before the lock was taken, so they may be of
slots that have changed since. -/
def lbRemoveRemovedNode (wait now : Int) : (nodeTable : List Int) → Tables → Tables
  | [], ts => ts
  | id :: ids, ts => lbRemoveRemovedNode wait now ids (lbRemoveStep wait now ts id)

end ModCluster
