import ModCluster.Config

/-!
# Application commands

`process_app_cmd` of `mod_manager.c`, which serves ENABLE-, DISABLE-, STOP- and
REMOVE-APP, and `process_node_cmd` for the wildcard form. A command is wildcard
when the request's file name says so.
-/

open CString Slotmem

namespace ModCluster

def NODE_COMMAND : Str := ascii "/NODE_COMMAND"

structure AppResult where
  tables : Tables
  outcome : Outcome
  response : Option Str
  locks : List LockOp
deriving DecidableEq

/-! ## Wildcard commands -/

def setStatus (c : Contextinfo) (status : ContextStatus) : Contextinfo := { c with status := status }

/-- The contexts of one host of the node. -/
def nodeCmdContexts (now : Int) (status : ContextStatus) (vhost node : Int) (m : Table Contextinfo) :
    List Int → Table Contextinfo
  | [] => m
  | id :: ids =>
    match getContext m id with
    | some i =>
      let context := m.peek i
      if context.vhost = vhost ∧ context.node = node then
        if status ≠ .remove then
          let m := m.poke i (setStatus context status)
          nodeCmdContexts now status vhost node
            ((insertUpdateContext now m (setStatus context status)).getD m) ids
        else nodeCmdContexts now status vhost node (removeContext m context.id) ids
      else nodeCmdContexts now status vhost node m ids
    | none => nodeCmdContexts now status vhost node m ids

def nodeCmdHosts (now : Int) (status : ContextStatus) (node : Int) (ts : Tables) : List Int → Tables
  | [] => ts
  | id :: ids =>
    match getHost ts.hosts id with
    | some i =>
      let ou := ts.hosts.peek i
      if ou.node ≠ node then nodeCmdHosts now status node ts ids
      else
        let contexts :=
          nodeCmdContexts now status ou.vhost ou.node ts.contexts (getIdsUsedContext ts.contexts)
        let hosts := if status = .remove then removeHost ts.hosts ou.id else ts.hosts
        nodeCmdHosts now status node { ts with hosts := hosts, contexts := contexts } ids
    | none => nodeCmdHosts now status node ts ids

def markRemove (n : Nodeinfo) : Nodeinfo := { n with mess := { n.mess with remove := true } }

/-- Mark the node of slot `i` for removal. The record is updated from itself: the
`id` the update finds is written back through the same pointer. -/
def removeMark (now : Int) (m : Table Nodeinfo) (i : Nat) : Table Nodeinfo :=
  let m := m.poke i (markRemove (m.peek i))
  -- The id passed on is not initialised. It is not read: the node is in the table.
  match insertUpdateNode now m (m.peek i) 0 false with
  | some (m', node, _) => m'.poke i (Node.withId (m'.peek i) node.mess.id)
  | none => m

def processNodeCmd (now : Int) (status : ContextStatus) (ts : Tables) (i : Nat) : Tables :=
  if ts.hosts.size = 0 then ts
  else
    let ts := nodeCmdHosts now status (ts.nodes.peek i).mess.id ts (getIdsUsedHost ts.hosts)
    if status = .remove then { ts with nodes := removeMark now ts.nodes i } else ts

/-! ## Commands on aliases and contexts -/

/-- The greatest vhost number of the node's hosts, or `vid` when that is greater. -/
def maxVhost (m : Table Hostinfo) (node vid : Int) : List Int → Int
  | [] => vid
  | id :: ids =>
    match getHost m id with
    | some i =>
      let ou := m.peek i
      maxVhost m node (if ou.node = node ∧ ou.vhost > vid then ou.vhost else vid) ids
    | none => maxVhost m node vid ids

/-- The host an alias stands for: found, or made. It comes with the hosts and the
last vhost number used. -/
def appHost (now : Int) (cmd : ContextStatus) (m : Table Hostinfo) (node vid : Int) (host : Str) :
    Option Nat × Table Hostinfo × Int :=
  match (readHost m (hostRecord node vid (truncate HOSTALIASZ host))).1 with
  | some i => (some i, m, vid)
  | none =>
    if cmd = .remove then (none, m, vid)
    else
      let vid := maxVhost m node vid (getIdsUsedHost m) + 1
      match insertUpdateHost now m (hostRecord node vid (truncate HOSTALIASZ host)) with
      | none => (none, m, vid)
      | some (m, hostinfo) => ((readHost m hostinfo).1, m, vid)

/-- The contexts of the message on one host, and which of them were stored. -/
def appContexts (now : Int) (cmd : ContextStatus) (node vhost : Int) :
    List Str → Table Contextinfo → Table Contextinfo × List Bool
  | [], m => (m, [])
  | context :: rest, m =>
    match insertUpdateContextHelper now m (contextRecord node vhost cmd) context cmd with
    | some m =>
      let r := appContexts now cmd node vhost rest m
      (r.1, true :: r.2)
    | none =>
      let r := appContexts now cmd node vhost rest m
      (r.1, false :: r.2)

def hasContext (m : Table Contextinfo) (node vhost : Int) : Bool :=
  (getIdsUsedContext m).any fun id =>
    match getContext m id with
    | some i => (m.peek i).vhost == vhost && (m.peek i).node == node
    | none => false

/-- Drop the hosts of a vhost that has no context left. -/
def dropHosts (ts : Tables) (node vhost : Int) : Tables :=
  if hasContext ts.contexts node vhost then ts
  else { ts with
    hosts := ts.hosts.sweep (·.id) (fun ou => ou.vhost == vhost && ou.node == node)
      (getIdsUsedHost ts.hosts) }

def appAliases (now : Int) (cmd : ContextStatus) (node : Int) (contexts : List Str) :
    (aliases : List Str) → (vid : Int) → Tables → Tables × List (List Bool)
  | [], _, ts => (ts, [])
  | host :: rest, vid, ts =>
    match appHost now cmd ts.hosts node vid host with
    | (none, hosts, vid) =>
      let r := appAliases now cmd node contexts rest vid { ts with hosts := hosts }
      (r.1, contexts.map (fun _ => false) :: r.2)
    | (some i, hosts, vid) =>
      let vhost := (hosts.peek i).vhost
      let c := appContexts now cmd node vhost contexts ts.contexts
      let ts := { ts with hosts := hosts, contexts := c.1 }
      let ts := if cmd = .remove then dropHosts ts node vhost else ts
      let r := appAliases now cmd node contexts rest vid ts
      (r.1, c.2 :: r.2)

/-! ## Response -/

/-- The contexts of one alias that were touched, behind `str`. -/
def responseContexts : (str : Str) → List (Str × Bool) → Str
  | str, [] => if str.head? = some (ch ',') then [10] else []
  | str, (context, updated) :: rest =>
    if updated then str ++ context ++ responseContexts (ascii ",") rest
    else responseContexts str rest

def printAppCmdResponse (httpd : Httpd) (cmd : ContextStatus) (jvmRoute : Str)
    (aliases contexts : List Str) (updated : List (List Bool)) : Str :=
  (match cmd with
    | .enabled => ascii "Type=ENABLE-APP-RSP"
    | .stopped => ascii "Type=STOP-APP-RSP"
    | .disabled => ascii "Type=DISABLE-APP-RSP"
    | _ => ascii "Type=REMOVE-APP-RSP") ++
  [10] ++ ascii "JvmRoute=" ++ jvmRoute.take httpd.routeSize ++
  (aliases.zip updated).flatMap (fun a =>
    responseContexts ([10] ++ ascii "Alias=" ++ a.1.take HOSTALIASZ ++ ascii " Contexts=")
      (contexts.zip a.2)) ++ [10]

/-! ## The command -/

def processAppCmd (httpd : Httpd) (now : Int) (ts : Tables) (filename : Str) (argv : Argv)
    (cmd : ContextStatus) : AppResult :=
  let glob := filename == NODE_COMMAND
  match parseApp httpd glob argv with
  | .error (.error e) => { tables := ts, outcome := .failed e, response := none, locks := [] }
  | .error .undefined => { tables := ts, outcome := .undefined, response := none, locks := [] }
  | .ok args =>
    let unread : AppResult :=
      { tables := ts, outcome := .failed (.mnoderd args.jvmRoute), response := none,
        locks := [.lock, .unlock] }
    match (readNode ts.nodes (routeNode args.jvmRoute (-1))).1 with
    | none => unread
    | some i =>
      if (ts.nodes.peek i).mess.remove then unread
      else if glob then
        { tables := processNodeCmd now cmd (incVersionNode ts) i
          outcome := .done
          response := none
          locks := [.lock, .unlock] }
      else
        let r := appAliases now cmd (ts.nodes.peek i).mess.id args.contexts args.aliases 0
          (incVersionNode ts)
        { tables := r.1
          outcome := .done
          response := some (printAppCmdResponse httpd cmd args.jvmRoute args.aliases args.contexts r.2)
          locks := [.lock, .unlock] }

end ModCluster
