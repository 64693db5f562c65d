import ModCluster.Message
import ModCluster.Storage

/-!
# The DUMP command

`process_dump` prints the tables, as XML or as text. A string is printed up to the size
of its field, and times as an `int` of their unit.
-/

open CString Slotmem

namespace ModCluster

def XML_CONTENT_TYPE : Str := ascii "text/xml"

inductive DumpType where
  | xml
  | plain
deriving DecidableEq, Repr

/-- The type is chosen by the Accept header. -/
def dumpType (accept : Option Str) : DumpType :=
  match accept with
  | some header => if (strstr header XML_CONTENT_TYPE).isSome then .xml else .plain
  | none => .plain

/-- `%.*s`. -/
def printed (size : Nat) (s : Str) : Str := s.take size

/-- `%d` of a flag. -/
def flag (b : Bool) : Str := if b then ascii "1" else ascii "0"

def contextStatusToString : ContextStatus → Str
  | .enabled => ascii "ENABLED"
  | .disabled => ascii "DISABLED"
  | .stopped => ascii "STOPPED"
  | .unset | .remove => ascii "REMOVED"

def contextStatusCode : ContextStatus → Int
  | .unset => 0
  | .enabled => 1
  | .disabled => 2
  | .stopped => 3
  | .remove => 4

/-- `(int)apr_time_sec(t)`. -/
def seconds (t : Int) : Int := toInt32 (t.tdiv 1000000)

/-- `t / 1000` of an `int`. -/
def milliseconds (t : Int) : Int := t.tdiv 1000

/-- Every record that an id leads to. -/
def dumpTable {α : Type} [Inhabited α] (m : Table α) (ids : List Int) (entry : Int → α → Str) : Str :=
  ids.flatMap fun id =>
    match m.dptr id with
    | some i => entry id (m.peek i)
    | none => []

def dumpBalancer (type : DumpType) (id : Int) (ou : Balancerinfo) : Str :=
  match type with
  | .xml =>
    ascii "<Balancer id=\"" ++ decimalInt id ++ ascii "\" name=\"" ++ printed BALANCERSZ ou.balancer ++ ascii "\">" ++
    ascii "<StickySession>" ++
    ascii "<Enabled>" ++ flag ou.stickySession ++ ascii "</Enabled>" ++
    ascii "<Cookie>" ++ printed COOKNAMESZ ou.stickySessionCookie ++ ascii "</Cookie>" ++
    ascii "<Path>" ++ printed PATHNAMESZ ou.stickySessionPath ++ ascii "</Path>" ++
    ascii "<Remove>" ++ flag ou.stickySessionRemove ++ ascii "</Remove>" ++
    ascii "<Force>" ++ flag ou.stickySessionForce ++ ascii "</Force>" ++
    ascii "</StickySession>" ++
    (ascii "<Timeout>" ++ decimalInt (seconds ou.timeout) ++ ascii "</Timeout>") ++
    ascii "<MaxAttempts>" ++ decimalInt ou.maxattempts ++ ascii "</MaxAttempts>" ++
    ascii "</Balancer>"
  | .plain =>
    ascii "balancer: [" ++ decimalInt id ++ ascii "] Name: " ++ printed BALANCERSZ ou.balancer ++
    ascii " Sticky: " ++ flag ou.stickySession ++ ascii " [" ++ printed COOKNAMESZ ou.stickySessionCookie ++
    ascii "]/[" ++ printed PATHNAMESZ ou.stickySessionPath ++ ascii "] remove: " ++ flag ou.stickySessionRemove ++
    ascii " force: " ++ flag ou.stickySessionForce ++
    (ascii " Timeout: " ++ decimalInt (seconds ou.timeout)) ++
    ascii " maxAttempts: " ++ decimalInt ou.maxattempts ++ ascii "\n"

def dumpNode (httpd : Httpd) (type : DumpType) (id : Int) (ou : Nodeinfo) : Str :=
  match type with
  | .xml =>
    ascii "<Node id=\"" ++ decimalInt ou.mess.id ++ ascii "\">" ++
    ascii "<Balancer>" ++ printed BALANCERSZ ou.mess.balancer ++ ascii "</Balancer>" ++
    ascii "<JVMRoute>" ++ printed httpd.routeSize ou.mess.jvmRoute ++ ascii "</JVMRoute>" ++
    ascii "<LBGroup>" ++ printed DOMAINNDSZ ou.mess.domain ++ ascii "</LBGroup>" ++
    ascii "<Host>" ++ printed HOSTNODESZ ou.mess.host ++ ascii "</Host>" ++
    ascii "<Port>" ++ printed PORTNODESZ ou.mess.port ++ ascii "</Port>" ++
    ascii "<Type>" ++ printed SCHEMENDSZ ou.mess.type ++ ascii "</Type>" ++
    ascii "<FlushPackets>" ++ decimalInt ou.mess.flushpackets ++ ascii "</FlushPackets>" ++
    (ascii "<FlushWait>" ++ decimalInt (milliseconds ou.mess.flushwait) ++ ascii "</FlushWait>" ++
    ascii "<Ping>" ++ decimalInt (seconds ou.mess.ping) ++ ascii "</Ping>" ++
    ascii "<Smax>" ++ decimalInt ou.mess.smax ++ ascii "</Smax>" ++
    ascii "<Ttl>" ++ decimalInt (seconds ou.mess.ttl) ++ ascii "</Ttl>" ++
    ascii "<Timeout>" ++ decimalInt (seconds ou.mess.timeout) ++ ascii "</Timeout>") ++
    ascii "</Node>"
  | .plain =>
    ascii "node: [" ++ decimalInt id ++ ascii ":" ++ decimalInt ou.mess.id ++ ascii "],Balancer: " ++
    printed BALANCERSZ ou.mess.balancer ++ ascii ",JVMRoute: " ++ printed httpd.routeSize ou.mess.jvmRoute ++
    ascii ",LBGroup: [" ++ printed DOMAINNDSZ ou.mess.domain ++ ascii "],Host: " ++
    printed HOSTNODESZ ou.mess.host ++ ascii ",Port: " ++ printed PORTNODESZ ou.mess.port ++
    ascii ",Type: " ++ printed SCHEMENDSZ ou.mess.type ++
    ascii ",flushpackets: " ++ decimalInt ou.mess.flushpackets ++
    (ascii ",flushwait: " ++ decimalInt (milliseconds ou.mess.flushwait) ++
    ascii ",ping: " ++ decimalInt (seconds ou.mess.ping) ++
    ascii ",smax: " ++ decimalInt ou.mess.smax ++
    ascii ",ttl: " ++ decimalInt (seconds ou.mess.ttl) ++
    ascii ",timeout: " ++ decimalInt (seconds ou.mess.timeout)) ++ ascii "\n"

/-- The line breaks of the source are in the string, and so are the blanks behind them. -/
def dumpHost (type : DumpType) (id : Int) (ou : Hostinfo) : Str :=
  match type with
  | .xml =>
    ascii "<Host id=\"" ++ decimalInt id ++ ascii "\" alias=\"" ++ printed HOSTALIASZ ou.host ++ ascii "\">" ++
    (List.replicate 31 32 ++ ascii "<Vhost>" ++ decimalInt ou.vhost ++ ascii "</Vhost>") ++
    (List.replicate 31 32 ++ ascii "<Node>" ++ decimalInt ou.node ++ ascii "</Node>") ++
    (List.replicate 27 32 ++ ascii "</Host>")
  | .plain =>
    ascii "host: " ++ decimalInt id ++ ascii " [" ++ printed HOSTALIASZ ou.host ++ ascii "] vhost: " ++
    decimalInt ou.vhost ++ ascii " node: " ++ decimalInt ou.node ++ ascii "\n"

def dumpContext (type : DumpType) (id : Int) (ou : Contextinfo) : Str :=
  match type with
  | .xml =>
    ascii "<Context id=\"" ++ decimalInt id ++ ascii "\" path=\"" ++ printed CONTEXTSZ ou.context ++ ascii "\">" ++
    ascii "<Vhost>" ++ decimalInt ou.vhost ++ ascii "</Vhost>" ++
    ascii "<Node>" ++ decimalInt ou.node ++ ascii "</Node>" ++
    ascii "<Status id=\"" ++ decimalInt (contextStatusCode ou.status) ++ ascii "\">" ++
    contextStatusToString ou.status ++ ascii "</Status>" ++
    ascii "</Context>"
  | .plain =>
    ascii "context: " ++ decimalInt id ++ ascii " [" ++ printed CONTEXTSZ ou.context ++ ascii "] vhost: " ++
    decimalInt ou.vhost ++ ascii " node: " ++ decimalInt ou.node ++ ascii " status: " ++
    decimalInt (contextStatusCode ou.status) ++ ascii "\n"

/-- A tag, which only XML has. -/
def tag (type : DumpType) (s : String) : Str :=
  match type with
  | .xml => ascii s
  | .plain => []

/-- The body of the response. Without room for a balancer it ends after its first line. -/
def processDump (httpd : Httpd) (ts : Tables) (accept : Option Str) : Str :=
  let type := dumpType accept
  tag type "<?xml version=\"1.0\" standalone=\"yes\" ?>\n" ++
  if ts.balancers.size = 0 then []
  else
    tag type "<Dump><Balancers>" ++
    dumpTable ts.balancers (getIdsUsedBalancer ts.balancers) (dumpBalancer type) ++
    tag type "</Balancers>" ++ tag type "<Nodes>" ++
    dumpTable ts.nodes (getIdsUsedNode ts.nodes) (dumpNode httpd type) ++
    tag type "</Nodes><Hosts>" ++
    dumpTable ts.hosts (getIdsUsedHost ts.hosts) (dumpHost type) ++
    tag type "</Hosts><Contexts>" ++
    dumpTable ts.contexts (getIdsUsedContext ts.contexts) (dumpContext type) ++
    tag type "</Contexts></Dump>"

end ModCluster
