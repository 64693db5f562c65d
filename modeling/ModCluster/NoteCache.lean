import ModCluster.RoutingSpec

/-!
# The stored result of the context search

The note is not keyed by anything. It is transparent as long as all later calls
serve the same contexts as the call it comes from.
-/

open CString Slotmem

namespace ModCluster

/-- A call of `find_node_context_host`. The file name is the one the request has by
then, and `conf` are the balancers the server has by then. -/
structure Call where
  conf : List ProxyBalancer
  filename : Option Text
  balancer : Option ProxyBalancer
  route : Option Str

def Request.at (r : Request) (call : Call) : Request := { r with filename := call.filename }

/-- The results of the calls, one after the other. -/
def runCalls (useAlias : Bool) (s : Snapshot) : List Call → Request → List (Option (List NodeContext))
  | [], _ => []
  | call :: rest, r =>
    let q := findNodeContextHost useAlias s call.conf (r.at call) call.balancer call.route
    q.2 :: runCalls useAlias s rest q.1

/-- The result of a call that finds no note. -/
def freshCall (useAlias : Bool) (s : Snapshot) (r : Request) (call : Call) : Option (List NodeContext) :=
  (findNodeContextHost useAlias s call.conf ((r.at call).setProxyContext none) call.balancer call.route).2

def Call.Serves (useAlias : Bool) (s : Snapshot) (r : Request) (call : Call) (c : Contextinfo) : Prop :=
  ModCluster.Serves useAlias s call.conf (r.at call) call.balancer call.route c

/-- After the first call that serves any context, all calls serve the same contexts
as it does. -/
def CallsAgree (useAlias : Bool) (s : Snapshot) (r : Request) (calls : List Call) : Prop :=
  ∀ before first later, calls = before ++ first :: later →
    (∀ call ∈ before, ∀ c ∈ s.contexts, ¬ call.Serves useAlias s r c) →
    (∃ c ∈ s.contexts, first.Serves useAlias s r c) →
    ∀ call ∈ later, ∀ c ∈ s.contexts, call.Serves useAlias s r c ↔ first.Serves useAlias s r c

variable {useAlias : Bool} {s : Snapshot} {r : Request} {call : Call} {calls rest : List Call}

/-! ## With a note and without -/

def Call.search (useAlias : Bool) (s : Snapshot) (r : Request) (call : Call) : Option (List NodeContext) :=
  searchNodes useAlias s call.conf (r.at call) call.balancer call.route

theorem freshCall_eq : freshCall useAlias s r call = call.search useAlias s r := by
  have hsearch : searchNodes useAlias s call.conf ((r.at call).setProxyContext none) call.balancer call.route =
      call.search useAlias s r := rfl
  have hnote : ((r.at call).setProxyContext none).notes.proxyContext = none := rfl
  unfold freshCall findNodeContextHost
  rw [hnote, hsearch]
  cases call.search useAlias s r <;> rfl

theorem search_eq_none : call.search useAlias s r = none ↔ ∀ c ∈ s.contexts, ¬ call.Serves useAlias s r c :=
  searchNodes_eq_none

theorem search_eq_iff {call' : Call} : call.search useAlias s r = call'.search useAlias s r ↔
    ∀ c ∈ s.contexts, call.Serves useAlias s r c ↔ call'.Serves useAlias s r c :=
  searchNodes_eq_iff

theorem runCalls_at : runCalls useAlias s calls (r.at call) = runCalls useAlias s calls r := by
  cases calls <;> rfl

theorem runCalls_note {best : List NodeContext} (h : r.notes.proxyContext = some best) :
    runCalls useAlias s calls r = calls.map fun _ => some best := by
  induction calls generalizing r with
  | nil => rfl
  | cons call rest ih =>
    have hat : (r.at call).notes.proxyContext = some best := h
    unfold runCalls findNodeContextHost
    rw [hat]
    simp only
    rw [ih hat, List.map_cons]

theorem runCalls_cons_none (hnote : r.notes.proxyContext = none) (h : call.search useAlias s r = none) :
    runCalls useAlias s (call :: rest) r = none :: runCalls useAlias s rest r := by
  have hat : (r.at call).notes.proxyContext = none := hnote
  rw [runCalls, findNodeContextHost, hat]
  simp only
  rw [← Call.search, h]
  simp only
  rw [runCalls_at]

theorem runCalls_cons_some (hnote : r.notes.proxyContext = none) {best : List NodeContext}
    (h : call.search useAlias s r = some best) :
    runCalls useAlias s (call :: rest) r = some best :: rest.map fun _ => some best := by
  have hat : (r.at call).notes.proxyContext = none := hnote
  rw [runCalls, findNodeContextHost, hat]
  simp only
  rw [← Call.search, h]
  simp only
  rw [runCalls_note rfl]

/-! ## Agreement -/

theorem callsAgree_cons_none (h : call.search useAlias s r = none) :
    CallsAgree useAlias s r (call :: rest) ↔ CallsAgree useAlias s r rest := by
  have hnone := search_eq_none.mp h
  constructor
  · intro hagree before first later heq hbefore hfirst
    refine hagree (call :: before) first later (by rw [heq]; rfl) ?_ hfirst
    intro call' hmem
    rcases List.mem_cons.mp hmem with rfl | hmem
    · exact hnone
    · exact hbefore call' hmem
  · intro hagree before first later heq hbefore hfirst
    cases before with
    | nil =>
      -- The call itself serves nothing, so it is not the first one that does.
      cases heq
      obtain ⟨c, hc, hserves⟩ := hfirst
      exact absurd hserves (hnone c hc)
    | cons b before =>
      cases heq
      exact hagree before first later rfl (fun call' hmem => hbefore call' (List.mem_cons_of_mem _ hmem)) hfirst

theorem callsAgree_cons_some (h : call.search useAlias s r ≠ none) :
    CallsAgree useAlias s r (call :: rest) ↔
      ∀ call' ∈ rest, call'.search useAlias s r = call.search useAlias s r := by
  have hserves : ∃ c ∈ s.contexts, call.Serves useAlias s r c := by
    by_contra hno
    refine h (search_eq_none.mpr fun c hc hs => hno ⟨c, hc, hs⟩)
  constructor
  · intro hagree call' hmem
    rw [search_eq_iff]
    exact hagree [] call rest rfl (fun _ hnil => by cases hnil) hserves call' hmem
  · intro hall before first later heq hbefore hfirst
    cases before with
    | nil =>
      cases heq
      intro call' hmem
      exact search_eq_iff.mp (hall call' hmem)
    | cons b before =>
      cases heq
      obtain ⟨c, hc, hs⟩ := hserves
      exact absurd hs (hbefore call List.mem_cons_self c hc)

/-- The note is transparent to a sequence of calls if and only if they agree. -/
theorem noteTransparent_iff (useAlias : Bool) (s : Snapshot) (r : Request) (calls : List Call)
    (hnote : r.notes.proxyContext = none) :
    runCalls useAlias s calls r = calls.map (freshCall useAlias s r) ↔ CallsAgree useAlias s r calls := by
  have hfresh : calls.map (freshCall useAlias s r) = calls.map (Call.search useAlias s r) :=
    List.map_congr_left fun _ _ => freshCall_eq
  rw [hfresh]
  clear hfresh
  induction calls with
  | nil =>
    refine ⟨fun _ before first later heq => ?_, fun _ => rfl⟩
    simp at heq
  | cons call rest ih =>
    cases hs : call.search useAlias s r with
    | none =>
      rw [runCalls_cons_none hnote hs, List.map_cons, hs, callsAgree_cons_none hs]
      simp only [List.cons.injEq, true_and]
      exact ih
    | some best =>
      rw [runCalls_cons_some hnote hs, List.map_cons, hs, callsAgree_cons_some (by rw [hs]; simp)]
      simp only [List.cons.injEq, true_and, List.map_inj_left]
      constructor
      · intro h call' hmem
        rw [hs]
        exact (h call' hmem).symm
      · intro h call' hmem
        rw [h call' hmem, hs]

/-! ## Two balancers with a context each -/

section Example

def contextOf (id node : Int) : Contextinfo := ⟨id, ascii "/app", 1, node, .enabled, 0, 0⟩

def nodeOf (id : Int) (balancer route : String) : NodeEntry where
  node := id
  info := { (default : Nodeinfo) with
    mess := { (default : Nodemess) with id := id, balancer := ascii balancer, jvmRoute := ascii route } }
  ptr := some id.toNat

def balancerOf (name : String) : ProxyBalancer where
  name := ascii "balancer://" ++ ascii name
  lbpname := MC_STICKY
  sticky := ascii "JSESSIONID"
  stickyPath := ascii "jsessionid"
  stickyForce := false
  timeout := 0
  maxAttempts := 1
  workers := []

/-- Node 0 in balancer a and node 1 in balancer b have the same context. -/
def twoNodes : Snapshot where
  vhosts := []
  contexts := [contextOf 0 0, contextOf 1 1]
  nodes := [nodeOf 0 "a" "r0", nodeOf 1 "b" "r1"]
  nodup := by decide

/-- A request with the session of node 1. -/
def sessionRequest : Request where
  uri := Text.ofStr (ascii "/app")
  unparsedUri := Text.ofStr (ascii "/app")
  filename := none
  cookie := some (ascii "JSESSIONID=id.r1")
  serverName := ascii "localhost"
  notes := Notes.empty

/-- The calls of `get_route_balancer`: the session of the request is asked for in
both balancers, and only the second knows its route. -/
def routeCalls : List Call :=
  [balancerOf "a", balancerOf "b"].map fun b =>
    ⟨[balancerOf "a", balancerOf "b"], none, some b, some (ascii "r1")⟩

def soleNode : Snapshot where
  vhosts := []
  contexts := [contextOf 0 0]
  nodes := [nodeOf 0 "a" "r0"]
  nodup := by decide

/-- The calls of `get_route_balancer`, `get_context_host_balancer` and the election,
where all nodes are in one balancer. -/
def soleCalls : List Call :=
  [⟨[balancerOf "a"], none, some (balancerOf "a"), some (ascii "r1")⟩, ⟨[balancerOf "a"], none, none, none⟩,
    ⟨[balancerOf "a"], some (Text.ofStr (ascii "proxy:balancer://a/app")), some (balancerOf "a"), none⟩]

theorem soleCalls_transparent :
    runCalls false soleNode soleCalls sessionRequest = soleCalls.map (freshCall false soleNode sessionRequest) := by
  rw [noteTransparent_iff false soleNode sessionRequest soleCalls rfl, soleCalls,
    callsAgree_cons_some (by decide +kernel)]
  decide +kernel

/-- The second balancer is served with the node of the first. -/
theorem note_not_transparent :
    ¬ ∀ (useAlias : Bool) (s : Snapshot) (r : Request) (calls : List Call), r.notes.proxyContext = none →
        runCalls useAlias s calls r = calls.map (freshCall useAlias s r) := by
  intro h
  have heq := h false twoNodes sessionRequest routeCalls rfl
  have hrun : runCalls false twoNodes routeCalls sessionRequest = [some [⟨0, 0⟩], some [⟨0, 0⟩]] := by decide +kernel
  have hfresh : routeCalls.map (freshCall false twoNodes sessionRequest) = [some [⟨0, 0⟩], some [⟨1, 1⟩]] := by
    decide +kernel
  rw [hrun, hfresh] at heq
  revert heq
  decide

example : getRouteBalancer false twoNodes [balancerOf "a", balancerOf "b"] sessionRequest =
    (((sessionRequest.setSessionId (ascii "id.r1")).setProxyContext (some [⟨0, 0⟩])).setRoute (ascii "r1")
      (ascii "jsessionid") none, some (ascii "b")) := by decide +kernel

end Example

end ModCluster
