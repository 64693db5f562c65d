import ModCluster.Records

/-!
# What httpd provides

The constants and functions of httpd and APR that the modules call and whose code
is not theirs. Every result holds for any `Httpd`.
-/

open CString Slotmem

namespace ModCluster

structure Uri where
  scheme : Option Str
  port : Nat
deriving DecidableEq

structure Httpd where
  /-- `PROXY_WORKER_MAX_ROUTE_SIZE`, the size of a stored JVMRoute with its NUL. -/
  routeSize : Nat
  /-- `PROXY_FLUSH_WAIT`. -/
  flushWait : Int
  timeoutParameterParse : Str → Str → Option Int
  uriParse : Str → Option Uri
  portOfScheme : Str → Nat
  /-- `ap_proxy_get_balancer` among the balancers with these names. -/
  getBalancer : List Str → Str → Option Nat
  /-- `ap_proxy_get_worker` among the workers with these shared areas. -/
  getWorker : List WorkerShared → Str → Option Nat
  /-- `ap_proxy_define_worker`: the private area of the new worker. -/
  defineWorker : Str → Option WorkerShared
  /-- `ap_proxy_initialize_worker`: the area it leaves, and whether it succeeded. -/
  initializeWorker : WorkerShared → WorkerShared × Bool
  /-- `ap_proxy_retry_worker`: the status and the number of retries it leaves. -/
  retryWorker : WorkerShared → UInt32 × Nat
  /-- Both hashes of a worker's name. -/
  hashfunc : Str → Nat × Nat
  /-- A health check template is set. The fields it fills are not among those kept here. -/
  hcheck : Bool
  /-- What `remove_domain` ends up releasing for slot 0. -/
  strayDomain : Table Domaininfo → Option Int

/-! ## httpd on plain inputs

An `Httpd` to run the model with. It agrees with httpd 2.4 on the urls and names
that the examples use: `scheme://host:port`, and workers and balancers that are
asked for by the name they have. -/

def plainUri (url : Str) : Option Uri :=
  let rest := (url.dropWhile (· != ch ':')).drop 3
  some {
    scheme := some (url.takeWhile (· != ch ':'))
    port := digits 0 ((rest.dropWhile (· != ch ':')).drop 1) }

def plainWorker (url : Str) : WorkerShared :=
  { (default : WorkerShared) with
    name := url
    scheme := url.takeWhile (· != ch ':')
    hostname := ((url.dropWhile (· != ch ':')).drop 3).takeWhile (· != ch ':')
    port := digits 0 ((((url.dropWhile (· != ch ':')).drop 3).dropWhile (· != ch ':')).drop 1) }

/-- The url of a balancer without its path. -/
def plainBalancer (url : Str) : Str := url.take 11 ++ (url.drop 11).takeWhile (· != ch '/')

def plainHttpd : Httpd where
  routeSize := 64
  flushWait := 10000
  timeoutParameterParse v _ := some (digits 0 v * 1000000)
  uriParse := plainUri
  portOfScheme _ := 80
  getBalancer names url := names.findIdx? (caseEq (plainBalancer url))
  getWorker areas url := areas.findIdx? (·.name == url)
  defineWorker url := some (plainWorker url)
  initializeWorker s := ({ s with status := s.status ||| PROXY_WORKER_INITIALIZED }, true)
  retryWorker s := (s.status &&& ~~~PROXY_WORKER_IN_ERROR, s.retries + 1)
  hashfunc name := (digits 0 name, name.length)
  hcheck := false
  strayDomain _ := none

end ModCluster
