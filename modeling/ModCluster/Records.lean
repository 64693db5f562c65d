import ModCluster.Lib.CString
import ModCluster.Lib.Slotmem

/-!
# The records in shared memory

The records of `node.h`, `host.h`, `context.h`, `balancer.h` and `domain.h`, and
the part of httpd's `proxy_worker_shared` that the modules read or write. Ids and
`index` fields are signed: -1 is "none".
-/

open CString Slotmem

namespace ModCluster

/-! ## Sizes of `mod_clustersize.h` -/

def HOSTALIASZ : Nat := 255

def CONTEXTSZ : Nat := 80

def BALANCERSZ : Nat := 40

def DOMAINNDSZ : Nat := 20

def HOSTNODESZ : Nat := 64

def PORTNODESZ : Nat := 7

def SCHEMENDSZ : Nat := 16

def AJPSECRETSZ : Nat := 64

def COOKNAMESZ : Nat := 30

def PATHNAMESZ : Nat := 30

/-! ## Workers -/

/-- `proxy_worker_shared`. One sits in the `stat` area of every node, one belongs to
every worker. -/
structure WorkerShared where
  name : Str
  hostname : Str
  hostnameEx : Str
  scheme : Str
  port : Nat
  hmax : Int
  route : Str
  upgrade : Str
  secret : Str
  redirect : Str
  responseFieldSize : Option Int
  smax : Int
  ttl : Int
  timeout : Option Int
  flushPackets : Int
  flushWait : Int
  pingTimeout : Int
  index : Int
  status : UInt32
  lbstatus : Int
  lbfactor : Int
  elected : Nat
  read : Nat
  busy : Nat
  errorTime : Int
  retries : Nat
  updated : Int
deriving DecidableEq, Inhabited

-- The bits of `status`, as `mod_proxy.h` numbers them.
def PROXY_WORKER_INITIALIZED : UInt32 := 0x0001

def PROXY_WORKER_DISABLED : UInt32 := 0x0020

def PROXY_WORKER_STOPPED : UInt32 := 0x0040

def PROXY_WORKER_IN_ERROR : UInt32 := 0x0080

def PROXY_WORKER_HOT_STANDBY : UInt32 := 0x0100

def PROXY_WORKER_HC_FAIL : UInt32 := 0x0400

def PROXY_WORKER_NOT_USABLE_BITMAP : UInt32 :=
  PROXY_WORKER_DISABLED ||| PROXY_WORKER_STOPPED ||| PROXY_WORKER_IN_ERROR ||| PROXY_WORKER_HC_FAIL

namespace WorkerShared

/-- `PROXY_WORKER_IS_USABLE`. -/
def isUsable (s : WorkerShared) : Bool :=
  s.status &&& PROXY_WORKER_NOT_USABLE_BITMAP == 0 && s.status &&& PROXY_WORKER_INITIALIZED != 0

/-- `PROXY_WORKER_IS_STANDBY`. -/
def isStandby (s : WorkerShared) : Bool := s.status &&& PROXY_WORKER_HOT_STANDBY != 0

end WorkerShared

/-! ## Nodes -/

structure Nodemess where
  id : Int
  balancer : Str
  jvmRoute : Str
  domain : Str
  host : Str
  port : Str
  type : Str
  upgrade : Str
  ajpSecret : Str
  reversed : Bool
  remove : Bool
  responseFieldSize : Int
  hasWorkers : Nat
  flushpackets : Int
  flushwait : Int
  ping : Int
  smax : Int
  ttl : Int
  timeout : Int
  updatetimelb : Int
  numFailureIdle : Int
  oldelected : Nat
  oldread : Nat
  lastcleantry : Int
  numRemoveCheck : Int
deriving DecidableEq, Inhabited

structure Nodeinfo where
  mess : Nodemess
  updatetime : Int
  stat : WorkerShared
deriving DecidableEq, Inhabited

/-- The name a node gets when its hosts and contexts are gone. -/
def REMOVED : Str := ascii "REMOVED"

/-! ## Hosts and contexts -/

structure Hostinfo where
  id : Int
  host : Str
  vhost : Int
  node : Int
  updatetime : Int
deriving DecidableEq, Inhabited

inductive ContextStatus where
  | unset
  | enabled
  | disabled
  | stopped
  | remove
deriving DecidableEq, Inhabited

structure Contextinfo where
  id : Int
  context : Str
  vhost : Int
  node : Int
  status : ContextStatus
  nbrequests : Int
  updatetime : Int
deriving DecidableEq, Inhabited

/-! ## Balancers and domains -/

structure Balancerinfo where
  id : Int
  balancer : Str
  stickySession : Bool
  stickySessionCookie : Str
  stickySessionPath : Str
  stickySessionRemove : Bool
  stickySessionForce : Bool
  timeout : Int
  maxattempts : Int
  updatetime : Int
deriving DecidableEq, Inhabited

structure Domaininfo where
  id : Int
  domain : Str
  jvmRoute : Str
  balancer : Str
  updatetime : Int
deriving DecidableEq, Inhabited

/-! ## Shared memory -/

/-- The tables every process sees, and the counter that says they have changed. -/
structure Tables where
  nodes : Table Nodeinfo
  hosts : Table Hostinfo
  contexts : Table Contextinfo
  balancers : Table Balancerinfo
  domains : Table Domaininfo
  version : Nat
deriving DecidableEq

end ModCluster
