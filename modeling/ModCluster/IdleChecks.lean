import ModCluster.Election
import ModCluster.Run

/-!
# Idle checks

`update_workers_lbstatus` and `check_proxy_worker` of `mod_proxy_cluster.c`, and the
loop of `mc_watchdog_callback` of `mod_lbmethod_cluster.c`. A node without traffic is
checked, the failures are counted in its slot, and a node that fails too often is
marked for removal. Each part that runs under the lock is one step here: between two
of them any process can do anything.
-/

open CString Slotmem

namespace ModCluster

/-! ## Counting -/

def addFailure (n : Nodeinfo) : Nodeinfo :=
  { n with mess := { n.mess with numFailureIdle := n.mess.numFailureIdle + 1 } }

def clearFailures (n : Nodeinfo) : Nodeinfo := { n with mess := { n.mess with numFailureIdle := 0 } }

def giveUp (now : Int) (n : Nodeinfo) : Nodeinfo :=
  { n with mess := { n.mess with remove := true }, updatetime := now }

/-- What all three places do with the outcome of a check. -/
def countCheck (now : Int) (failed : Bool) (ou : Nodeinfo) : Nodeinfo :=
  if failed then
    if (addFailure ou).mess.numFailureIdle > 60 then giveUp now (addFailure ou) else addFailure ou
  else clearFailures ou

/-- What a slot sees of the checks. -/
inductive IdleEvent where
  | failed
  | passed
  /-- A tick that found traffic. -/
  | traffic
  /-- A CONFIG stored a node in the slot. -/
  | stored
deriving DecidableEq

def checkEvent (failed : Bool) : IdleEvent := if failed then .failed else .passed

/-! ## The worker of a node -/

/-- The worker has scheme, host and port of the node. -/
def workerMatches (s : WorkerShared) (node : Nodemess) : Bool :=
  s.scheme == node.type && compareHostname s.hostname node.host && decimal s.port == node.port

/-! ## mod_proxy_cluster -/

/-- What a locked part leaves: the tables, what it counted and for which slot, and
whether the node has still to be checked. -/
structure LbTick where
  tables : Tables
  event : Option (Nat × IdleEvent)
  check : Bool

def LbTick.skip (ts : Tables) : LbTick := ⟨ts, none, false⟩

/-- The part of `check_proxy_worker` behind the ping. -/
def checkProxyWorker (now : Int) (failed : Bool) (ts : Tables) (w : Worker) (id : Int) : LbTick :=
  match readNodeWorker ts id (w.area ts) with
  | none => LbTick.skip ts
  | some i =>
    let ts := if failed then (w.write ts markError).1 else ts
    ⟨pokeNode ts i (countCheck now failed), some (i, checkEvent failed), false⟩

def updateLbstatusHcheck (hctemplate : Bool) (now : Int) (ts : Tables) (sv : Server) (id : Int) (i : Nat) : LbTick :=
  let r := getWorkerFromIdStat ts sv id i
  match r.2.2 with
  | .found b j =>
    match r.2.1.worker? b j with
    | none => LbTick.skip r.1
    | some w =>
      if workerMatches (w.area r.1) (r.1.nodes.peek i).mess then
        if hctemplate then
          let failed := (w.area r.1).status &&& PROXY_WORKER_NOT_USABLE_BITMAP != 0
          ⟨pokeNode r.1 i (countCheck now failed), some (i, checkEvent failed), false⟩
        else ⟨r.1, none, true⟩
      else LbTick.skip r.1
  | _ => LbTick.skip r.1

/-- In the `int` arithmetic of the ticks. -/
def lbstatusSince (elected oldelected : Nat) (lbfactor : Int) : Int :=
  (toInt32 ((toInt32 elected - toInt32 oldelected) * 1000)).tdiv lbfactor

def noteElected (now : Int) (elected : Nat) (n : Nodeinfo) : Nodeinfo :=
  { n with mess := { n.mess with updatetimelb := now, oldelected := (toInt32 elected % 2 ^ 64).toNat } }

def noteRead (n : Nodeinfo) : Nodeinfo := { n with mess := { n.mess with oldread := n.stat.read } }

def setLbstatus (elected oldelected : Nat) (s : WorkerShared) : WorkerShared :=
  if s.lbfactor > 0 then { s with lbstatus := lbstatusSince elected oldelected s.lbfactor } else s

def noteLbstatus (now : Int) (n : Nodeinfo) : Nodeinfo :=
  { noteRead (noteElected now n.stat.elected n) with
    stat := setLbstatus n.stat.elected n.mess.oldelected n.stat }

/-- One node of the loop of `update_workers_lbstatus`, in the process whose server is
`sv`. The worker is looked up twice. `recalc` is `lbstatus_recalc_time`. -/
def updateWorkersLbstatus (hctemplate : Bool) (recalc now : Int) (sv : Server) (ts : Tables) (id : Int) : LbTick :=
  match getNode ts.nodes id with
  | none => LbTick.skip ts
  | some i =>
    let ou := ts.nodes.peek i
    if ou.mess.remove then LbTick.skip ts
    else if ou.mess.updatetimelb < now - recalc then
      let ts := pokeNode ts i (noteLbstatus now)
      if ou.stat.read = ou.mess.oldread then
        let r := getWorkerFromIdStat ts sv id i
        updateLbstatusHcheck hctemplate now r.1 r.2.1 id i
      else ⟨pokeNode ts i clearFailures, some (i, .traffic), false⟩
    else LbTick.skip ts

/-! ## mod_lbmethod_cluster -/

/-- One worker of the loop of `mc_watchdog_callback`. `node` is the record the process
has of the worker's node in its own table, `elected` what the worker showed before the
lock. -/
def mcWatchdogWorker (recalc now : Int) (node : Nodemess) (elected : Nat) (w : Worker) (ts : Tables) (id : Int) :
    LbTick :=
  if node.remove then LbTick.skip ts
  else if node.updatetimelb < now - recalc then
    match getNode ts.nodes id with
    | none => LbTick.skip ts
    | some i =>
      if (ts.nodes.peek i).mess.remove then LbTick.skip ts
      else
        let ts := pokeNode ts i (noteElected now elected)
        let ts := (w.write ts (setLbstatus elected node.oldelected)).1
        if toInt32 elected = toInt32 node.oldelected then
          let failed := (w.area ts).status &&& PROXY_WORKER_HC_FAIL != 0
          ⟨pokeNode ts i (countCheck now failed), some (i, checkEvent failed), false⟩
        else ⟨pokeNode ts i clearFailures, some (i, .traffic), false⟩
  else LbTick.skip ts

/-! ## CONFIG -/

/-- The slot that a CONFIG stores its node in. -/
def storedSlot (httpd : Httpd) (mconf : Mconf) (now : Int) (ts : Tables) (px : Option Proxy) (argv : Argv) :
    Option Int :=
  match parseConfig httpd mconf argv with
  | .error _ => none
  | .ok args =>
    match checkConfig httpd ts px args with
    | .go plan =>
      match insertUpdateBalancer now ts.balancers (readBalancer ts.balancers args.balancer).2 with
      | none => none
      | some _ => (insertUpdateNode now plan.nodes plan.nodeinfo plan.id plan.clean).map (·.2.2)
    | _ => none

/-! ## Runs -/

/-- A check on its way to the thread pool or in it. -/
structure PendingCheck where
  id : Int
  now : Int
deriving DecidableEq

/-- The tables, the ids that processes have read from them, the checks under way, and
what each slot has seen, last event first. -/
structure Watch where
  tables : Tables
  read : List Int
  pending : List PendingCheck
  history : Nat → List IdleEvent

namespace Watch

def log (history : Nat → List IdleEvent) : Option (Nat × IdleEvent) → Nat → List IdleEvent
  | none => history
  | some (i, e) => fun j => if j = i then e :: history j else history j

/-- `check` is what to do should the tick ask for the node to be checked. -/
def ticked (s : Watch) (check : PendingCheck) (t : LbTick) : Watch where
  tables := t.tables
  read := s.read
  pending := if t.check then check :: s.pending else s.pending
  history := log s.history t.event

def config (httpd : Httpd) (mconf : Mconf) (now : Int) (px : Option Proxy) (argv : Argv) (s : Watch) : Watch :=
  { s with
    tables := (processConfig httpd mconf now s.tables px argv).tables
    history := log s.history
      ((storedSlot httpd mconf now s.tables px argv).map fun id => (id.toNat, .stored)) }

end Watch

/-- What the rest of the modules writes into the record of a slot. -/
structure IdleNote (a n : Nodeinfo) : Prop extends Bookkeeping a n where
  numFailureIdle : n.mess.numFailureIdle = a.mess.numFailureIdle
  unmarked : n.mess.remove = a.mess.remove

/-- One step of any process. It is told apart whether a watchdog takes it. -/
inductive WatchStep (httpd : Httpd) : (watchdog : Bool) → Watch → Watch → Prop
  | config {s : Watch} (mconf : Mconf) (now : Int) (px : Option Proxy) (argv : Argv) :
      WatchStep httpd false s (s.config httpd mconf now px argv)
  | app {s : Watch} (now : Int) (filename : Str) (argv : Argv) (cmd : ContextStatus) :
      WatchStep httpd false s { s with tables := (processAppCmd httpd now s.tables filename argv cmd).tables }
  | note {s : Watch} (watchdog : Bool) (i : Nat) (n : Nodeinfo) (hnote : IdleNote (s.tables.nodes.peek i) n) :
      WatchStep httpd watchdog s { s with tables := { s.tables with nodes := s.tables.nodes.poke i n } }
  | readIds {s : Watch} (watchdog : Bool) :
      WatchStep httpd watchdog s { s with read := getIdsUsedNode s.tables.nodes ++ s.read }
  | tick {s : Watch} (hctemplate : Bool) (recalc now : Int) (sv : Server) (id : Int) (hid : id ∈ s.read) :
      WatchStep httpd true s
        (s.ticked ⟨id, now⟩ (updateWorkersLbstatus hctemplate recalc now sv s.tables id))
  /-- The ping of a check is over. The worker is the one of the check as it stands now. -/
  | complete {s : Watch} (c : PendingCheck) (hc : c ∈ s.pending) (failed : Bool) (w : Worker) :
      WatchStep httpd true s
        ({ s with pending := s.pending.erase c }.ticked c (checkProxyWorker c.now failed s.tables w c.id))
  /-- The child is told to stop. -/
  | abandon {s : Watch} (c : PendingCheck) : WatchStep httpd true s { s with pending := s.pending.erase c }
  | lbTick {s : Watch} (recalc now : Int) (node : Nodemess) (elected : Nat) (w : Worker) (id : Int)
      (hid : id ∈ s.read) :
      WatchStep httpd true s
        (s.ticked ⟨id, now⟩ (mcWatchdogWorker recalc now node elected w s.tables id))
  | removeRemoved {s : Watch} (wait now : Int) :
      WatchStep httpd true s { s with tables := removeRemovedNode httpd wait now s.tables }
  | lbRemoveRemoved {s : Watch} (wait now : Int) (nodeTable : List Int) :
      WatchStep httpd true s { s with tables := lbRemoveRemovedNode wait now nodeTable s.tables }

def Watch.start (sz : Sizes) : Watch := ⟨emptyTables sz, [], [], fun _ => []⟩

def WatchReachable (httpd : Httpd) (s : Watch) : Prop :=
  ∃ sz, Relation.ReflTransGen (fun s s' => ∃ watchdog, WatchStep httpd watchdog s s') (Watch.start sz) s

end ModCluster
