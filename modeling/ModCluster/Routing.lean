import ModCluster.Session
import ModCluster.WorkerUpdate

/-!
# The context search

The part of `common.c` that finds the nodes that can serve a request. It works on a
snapshot of the tables, which a request keeps from its translation on. The result
of the search is stored in the notes of the request and returned by all later
searches.
-/

open CString Slotmem

namespace ModCluster

/-- The tables as a request sees them. -/
structure Snapshot where
  vhosts : List Hostinfo
  contexts : List Contextinfo
  nodes : List NodeEntry
  /-- The ids of contexts are slots. -/
  nodup : (contexts.map (·.id)).Nodup

def tableGetNode (nodes : List NodeEntry) (id : Int) : Option Nodeinfo :=
  (nodes.find? fun n => n.node == id).map (·.info)

/-- The balancer is called `name`, which is without its prefix. -/
def ProxyBalancer.isFor (b : ProxyBalancer) (name : Str) : Bool :=
  b.name.length > BALANCER_PREFIX.length && caseEq (b.name.drop BALANCER_PREFIX.length) name

/-- Where a session id is looked for: `proxy:` is skipped. -/
def Request.sessionUri (r : Request) : Text :=
  match r.filename with
  | some filename => filename.advance 6
  | none => r.unparsedUri

/-- `conf` are the balancers of the server. -/
def hassessionByname (conf : List ProxyBalancer) (nodes : List NodeEntry) (r : Request) (nodeid : Int)
    (route : Option Str) : Bool :=
  if route.getD [] ≠ [] then true
  else
    match tableGetNode nodes nodeid with
    | none => false
    | some node =>
      match conf.find? (·.isFor node.mess.balancer) with
      | none => false
      | some balancer => (clusterGetSessionid r balancer.stickyval r.sessionUri).1.isSome

/-! ## find_node_context_host -/

/-- The path up to its first question mark, or else up to its first semicolon. -/
def cutUri (luri : Str) : Str :=
  if luri.contains (ch '?') then luri.takeWhile (· != ch '?') else luri.takeWhile (· != ch ';')

def hostOk (useAlias : Bool) (hostname : Str) (vhosts : List Hostinfo) (c : Contextinfo) : Bool :=
  !useAlias || vhosts.any fun v => v.host == hostname && c.vhost == v.vhost && c.node == v.node

def balancerOk (balancer : Option ProxyBalancer) (nodes : List NodeEntry) (c : Contextinfo) : Bool :=
  match balancer with
  | none => true
  | some b =>
    match tableGetNode nodes c.node with
    | none => false
    | some node => b.isFor node.mess.balancer

def pathMatches (uri context : Str) : Bool :=
  context.isPrefixOf uri &&
    (uri.length == context.length || byteAt uri context.length == ch '/' || context.length == 1)

/-- The context takes part in the search. -/
def considered (useAlias : Bool) (s : Snapshot) (r : Request) (balancer : Option ProxyBalancer) (c : Contextinfo) :
    Bool :=
  hostOk useAlias r.serverName s.vhosts c && balancerOk balancer s.nodes c

/-- `length[j]`: zero for a context that does not match. -/
def matchLength (useAlias : Bool) (s : Snapshot) (r : Request) (balancer : Option ProxyBalancer) (c : Contextinfo) :
    Nat :=
  if considered useAlias s r balancer c && pathMatches (cutUri r.uri.str) c.context then c.context.length else 0

def maxLength : List Nat → Nat
  | [] => 0
  | n :: rest => max n (maxLength rest)

def statusOk (conf : List ProxyBalancer) (s : Snapshot) (r : Request) (route : Option Str) (c : Contextinfo) : Bool :=
  match c.status with
  | .enabled => true
  | .disabled => hassessionByname conf s.nodes r c.node route
  | _ => false

/-- The search itself. -/
def searchNodes (useAlias : Bool) (s : Snapshot) (conf : List ProxyBalancer) (r : Request)
    (balancer : Option ProxyBalancer) (route : Option Str) : Option (List NodeContext) :=
  let max := maxLength (s.contexts.map (matchLength useAlias s r balancer))
  if max = 0 then none
  else
    let best := s.contexts.filter fun c =>
      matchLength useAlias s r balancer c == max && statusOk conf s r route c
    if best = [] then none else some (best.map fun c => { node := c.node, context := c.id })

def Request.setProxyContext (r : Request) (best : Option (List NodeContext)) : Request :=
  { r with notes := { r.notes with proxyContext := best } }

def findNodeContextHost (useAlias : Bool) (s : Snapshot) (conf : List ProxyBalancer) (r : Request)
    (balancer : Option ProxyBalancer) (route : Option Str) : Request × Option (List NodeContext) :=
  match r.notes.proxyContext with
  | some best => (r, some best)
  | none =>
    match searchNodes useAlias s conf r balancer route with
    | none => (r, none)
    | some best => (r.setProxyContext (some best), some best)

/-- What the search sets `has_contexts` for. -/
def hasContexts (useAlias : Bool) (s : Snapshot) (r : Request) (balancer : Option ProxyBalancer) : Bool :=
  r.notes.proxyContext.isNone && s.contexts.any (considered useAlias s r balancer)

/-- The entry of a node. The first entry with node -1 ends the list. -/
def findEntry (node : Int) : List NodeContext → Option NodeContext
  | [] => none
  | e :: rest => if e.node = -1 then none else if e.node = node then some e else findEntry node rest

/-! ## Who asks -/

def findNodedomain (nodes : List NodeEntry) (route balancer : Str) : Option (Option Str) :=
  (nodes.find? fun n => n.info.mess.jvmRoute == route && caseEq balancer n.info.mess.balancer).map fun n =>
    if n.info.mess.domain = [] then none else some n.info.mess.domain

def Request.setSessionId (r : Request) (sessionid : Str) : Request :=
  { r with notes := { r.notes with sessionId := some sessionid } }

/-- The notes of a request whose route is known. -/
def Request.setRoute (r : Request) (route sticky : Str) (domain : Option Str) : Request :=
  { r with notes := { r.notes with
      sessionRoute := some route
      sessionSticky := some sticky
      clusterDomain := domain.or r.notes.clusterDomain } }

/-- The balancer is asked for a session. -/
def ProxyBalancer.isSticky (b : ProxyBalancer) : Bool :=
  !b.sticky.isEmpty && !b.stickyPath.isEmpty && b.name.length > BALANCER_PREFIX.length && b.lbpname.take 2 == ascii "MC"

/-- One balancer of the loop. -/
def routeBalancerStep (useAlias : Bool) (s : Snapshot) (conf : List ProxyBalancer) (balancer : ProxyBalancer)
    (r : Request) : Request × Option Str :=
  if balancer.isSticky then
    match clusterGetSessionid r balancer.stickyval r.uri with
    | (none, _) => (r, none)
    | (some sessionid, stickyUsed) =>
      let r := r.setSessionId sessionid
      match sessionRouteOf sessionid with
      | none => (r, none)
      | some route =>
        if route = [] then (r, none)
        else
          match findNodeContextHost useAlias s conf r (some balancer) (some route) with
          | (r, none) => (r, none)
          | (r, some _) =>
            match findNodedomain s.nodes route (balancer.name.drop BALANCER_PREFIX.length) with
            | none => (r, none)
            | some domain =>
              (r.setRoute route stickyUsed domain, some (balancer.name.drop BALANCER_PREFIX.length))
  else (r, none)

def routeBalancerLoop (useAlias : Bool) (s : Snapshot) (conf : List ProxyBalancer) :
    (rest : List ProxyBalancer) → Request → Request × Option Str
  | [], r => (r, none)
  | b :: rest, r =>
    match routeBalancerStep useAlias s conf b r with
    | (r, some name) => (r, some name)
    | (r, none) => routeBalancerLoop useAlias s conf rest r

def getRouteBalancer (useAlias : Bool) (s : Snapshot) (conf : List ProxyBalancer) (r : Request) :
    Request × Option Str :=
  routeBalancerLoop useAlias s conf conf r

/-- The first node of the search whose balancer the server has. -/
def servedBalancer (httpd : Httpd) (s : Snapshot) (conf : List ProxyBalancer) : List NodeContext → Option Str
  | [] => none
  | e :: rest =>
    if e.node = -1 then none
    else
      match tableGetNode s.nodes e.node with
      | none => servedBalancer httpd s conf rest
      | some node =>
        if node.mess.balancer ≠ [] ∧
            (httpd.getBalancer (conf.map (·.name)) (BALANCER_PREFIX ++ node.mess.balancer)).isSome then
          some node.mess.balancer
        else servedBalancer httpd s conf rest

def getContextHostBalancer (httpd : Httpd) (useAlias : Bool) (s : Snapshot) (conf : List ProxyBalancer)
    (r : Request) : Request × Option Str :=
  match findNodeContextHost useAlias s conf r none none with
  | (r, none) => (r, none)
  | (r, some best) => (r, servedBalancer httpd s conf best)

def contextHostOk (useAlias : Bool) (s : Snapshot) (conf : List ProxyBalancer) (r : Request)
    (balancer : ProxyBalancer) (node : Int) : Request × Option NodeContext :=
  match findNodeContextHost useAlias s conf r (some balancer) r.notes.sessionRoute with
  | (r, none) => (r, none)
  | (r, some best) => (r, findEntry node best)

end ModCluster
