import ModCluster.Keys
import ModCluster.Receive
import ModCluster.Reports
import ModCluster.UnsetNode
import ModCluster.WorkerCounts

/-!
# The handler of the manager

`manager_handler` takes a request from the page or reads the body of an MCMP message,
and calls the function of the method. Nothing else brings a command into the tables, so
what it keeps holds whatever is sent.
-/

open CString Slotmem Slotmem.Table Markup

namespace ModCluster

/-! ## Requests and answers -/

structure ManagerConf where
  enableMcmpReceive : Bool
  buffer : BufferConf
  mconf : Mconf
  page : PageConf

structure ManagerRequest where
  handler : Str
  isGet : Bool
  method : Str
  filename : Str
  accept : Option Str
  args : Option Str
  /-- The memory behind the copy of the query. -/
  behind : Mem
  /-- The virtual host it came in on. -/
  server : Nat
  input : Input

inductive Answer where
  | declined
  | page (status : Nat) (outcome : Option Outcome)
  | sent (response : Option Str)
  /-- `HTTP_INTERNAL_SERVER_ERROR`, and what `process_error` says. -/
  | refused (e : McmpError)
  /-- The process came to its end, or nothing can be said. -/
  | gone
deriving DecidableEq

def isOurMethod (method : Str) : Bool :=
  [ascii "CONFIG", ascii "ENABLE-APP", ascii "DISABLE-APP", ascii "STOP-APP", ascii "REMOVE-APP", ascii "STATUS",
    ascii "DUMP", ascii "INFO", ascii "PING", ascii "VERSION"].any (caseEq method)

structure Reply where
  tables : Tables
  proxy : Option Proxy
  answer : Answer

def answerOf (outcome : Outcome) (response : Option Str) : Answer :=
  match outcome with
  | .done => .sent response
  | .failed e => .refused e
  | .aborted | .undefined => .gone

/-- `conf` of the server the request came in on. -/
def requestServer (px : Option Proxy) (server : Nat) : Server :=
  (px.bind fun px => px.servers[server]?).getD ⟨[]⟩

/-! ## The handler -/

section Handler

variable (httpd : Httpd) (u : Unescaper) (conf : ManagerConf) (env : Surroundings)
  (transferred : WorkerShared → Nat) (ts : Tables) (px : Option Proxy) (r : ManagerRequest)

/-- The function of the method. -/
def processMessage (argv : Argv) : Reply :=
  if caseEq r.method (ascii "CONFIG") then
    let q := processConfig httpd conf.mconf env.now ts px argv
    ⟨q.tables, q.proxy, answerOf q.outcome none⟩
  else if caseEq r.method (ascii "STATUS") then
    let q := processStatus httpd env ts px argv
    ⟨q.tables, q.proxy, answerOf q.outcome q.response⟩
  else if caseEq r.method (ascii "DUMP") then ⟨ts, px, .sent (some (processDump httpd ts r.accept))⟩
  else if caseEq r.method (ascii "INFO") then
    ⟨ts, px, .sent (some (processInfo httpd transferred ts (requestServer px r.server) r.accept))⟩
  else if caseEq r.method (ascii "PING") then
    let q := processPing httpd env ts px argv
    ⟨q.tables, q.proxy, answerOf q.outcome q.response⟩
  else if caseEq r.method (ascii "VERSION") then ⟨ts, px, .sent (some (processVersion r.accept))⟩
  else match applStatus r.method with
    | some cmd =>
      let q := processAppCmd httpd env.now ts r.filename argv cmd
      ⟨q.tables, px, answerOf q.outcome q.response⟩
    | none => ⟨ts, px, .refused .scmduns⟩

def managerHandler : Reply :=
  if r.handler = ascii "mod_cluster-manager" then
    if !r.isGet then ⟨ts, px, .declined⟩
    else
      let q := managerInfo httpd u conf.page env.now ts r.filename r.args r.behind
      ⟨q.tables, px, .page q.status q.outcome⟩
  else if !conf.enableMcmpReceive then ⟨ts, px, .declined⟩
  else if !isOurMethod r.method then ⟨ts, px, .declined⟩
  else
    match receiveArgv httpd conf.buffer r.method r.input with
    | .error e => ⟨ts, px, .refused e⟩
    | .ok argv => processMessage httpd conf env transferred ts px r argv

end Handler

/-- At most the state of one worker has changed: its status, error time and retries. -/
def Contacted (ts : Tables) (px : Option Proxy) (ts' : Tables) (px' : Option Proxy) : Prop :=
  (ts' = ts ∧ px' = px) ∨
    ∃ p ref w c, px = some p ∧ p.worker? ref = some w ∧ ts' = (w.write ts (·.contacted c)).1 ∧
      px' = some (p.setWorker ref (w.write ts (·.contacted c)).2)

/-! ## What the functions keep -/

section Keeps

variable {httpd : Httpd} {u : Unescaper} {conf : ManagerConf} {env : Surroundings}
  {transferred : WorkerShared → Nat} {ts : Tables} {px : Option Proxy} {r : ManagerRequest} {argv : Argv}

theorem addHasWorkers_write (k : Nat) : NodeWrite 0 (addHasWorkers k) where
  id _ := rfl
  balancer _ := rfl
  jvmRoute _ := rfl
  remove _ := rfl
  hasWorkers n := by
    unfold addHasWorkers
    simp

theorem isupServer_edits (creatBal : CreatBal) (main : Bool) (now : Int) (ts : Tables) (sv : Server) (i : Nat) :
    Edits False ts (isupServer httpd creatBal main now ts sv i).1 :=
  have hadd : StatWrites ts (addBalancersWorkersForServer httpd creatBal main now ts sv (ts.nodes.peek i).mess i).1 :=
    addBalancersWorkersForServer_spec.1
  hadd.edits.tail (pokeNode_edit (addHasWorkers_write _) i)

theorem addBalancersWorkers_edits (i : Nat) (servers : List Server) {main : Bool} :
    Edits False ts (addBalancersWorkers httpd env i main servers ts).1 := by
  induction servers generalizing main ts with
  | nil => exact Edits.refl
  | cons sv rest ih => exact (isupServer_edits _ _ _ _ _ _).trans ih

theorem searchServers_edits (id : Int) (i : Nat) (servers : List Server) {k : Nat} :
    Edits False ts (searchServers id i k servers ts).tables := by
  induction servers generalizing k ts with
  | nil => exact Edits.refl
  | cons sv rest ih =>
    have hlookup : Edits False ts (getWorkerFromIdStat ts sv id i).1 :=
      (lookupBalancers_spec id i sv.balancers ts).1.edits
    unfold searchServers
    simp only
    split
    · exact hlookup
    · exact hlookup
    · exact hlookup.trans ih

theorem proxyNodeIsup_edits {p : Proxy} {id load : Int} :
    Edits False ts (proxyNodeIsup httpd env ts p id load).tables := by
  unfold proxyNodeIsup
  split
  · exact Edits.refl
  rename_i i hi
  split
  · exact Edits.refl
  have hadd : Edits False ts (addBalancersWorkers httpd env i true p.servers ts).1 := addBalancersWorkers_edits i p.servers
  have hsearch := hadd.trans (searchServers_edits id i (addBalancersWorkers httpd env i true p.servers ts).2 (k := 0))
  simp only
  split
  · exact hsearch
  · exact hsearch.trans (Worker.write_spec _ _).1.edits

theorem processStatus_edits : Edits False ts (processStatus httpd env ts px argv).tables := by
  unfold processStatus
  split
  · exact Edits.refl
  · exact Edits.refl
  simp only
  split
  · exact Edits.refl
  split
  · exact Edits.refl
  unfold isnodeUp
  split
  · exact Edits.refl
  simp only
  split
  · exact proxyNodeIsup_edits
  · exact proxyNodeIsup_edits

theorem Worker.write_area (w : Worker) (f : WorkerShared → WorkerShared) :
    (w.write ts fun _ => f (w.area ts)) = w.write ts f := by
  unfold Worker.write Worker.area
  cases w.s with
  | slot i => rfl
  | priv => rfl

theorem tryPingpong_contacts (s : WorkerShared) : ∃ c, (tryPingpong env s).1 = s.contacted c := by
  unfold tryPingpong
  split
  · exact ⟨⟨s.status, s.errorTime, s.retries, true⟩, rfl⟩
  split
  · exact ⟨⟨s.status, s.errorTime, s.retries, false⟩, rfl⟩
  · exact ⟨env.contact s, rfl⟩

theorem pingWorker_contacts {p : Proxy} {host port : Str} {ref : WorkerRef} {w : Worker} (hw : p.worker? ref = some w) :
    Contacted ts (some p) (pingWorker httpd env ts p host port ref w).tables
      (some (pingWorker httpd env ts p host port ref w).proxy) := by
  unfold pingWorker
  split
  · exact .inl ⟨rfl, rfl⟩
  obtain ⟨c, hc⟩ := @tryPingpong_contacts env (w.area ts)
  have hwrite : (w.write ts fun _ => (tryPingpong env (w.area ts)).1) = w.write ts (·.contacted c) := by
    rw [hc]
    exact w.write_area (·.contacted c)
  simp only [hwrite]
  exact .inr ⟨p, ref, w, c, rfl, hw, rfl, rfl⟩

theorem proxyHostIsup_contacts {p : Proxy} {scheme host port : Str} :
    Contacted ts (some p) (proxyHostIsup httpd env ts p scheme host port).tables
      (some (proxyHostIsup httpd env ts p scheme host port).proxy) := by
  unfold proxyHostIsup
  split
  · exact .inl ⟨rfl, rfl⟩
  split
  · split
    · exact .inl ⟨rfl, rfl⟩
    · rename_i ref w hfound
      obtain ⟨ref', -, hworker⟩ := Option.bind_eq_some_iff.1 hfound
      obtain ⟨w', hw', heq⟩ := Option.map_eq_some_iff.1 hworker
      cases heq
      exact pingWorker_contacts hw'
  · exact .inl ⟨rfl, rfl⟩

theorem processPing_contacts :
    Contacted ts px (processPing httpd env ts px argv).tables (processPing httpd env ts px argv).proxy := by
  have hhost : ∀ route scheme host port locks,
      Contacted ts px (ishostUp httpd env ts px route scheme host port locks).tables
        (ishostUp httpd env ts px route scheme host port locks).proxy := by
    intro route scheme host port locks
    unfold ishostUp
    split
    · exact .inl ⟨rfl, rfl⟩
    · exact proxyHostIsup_contacts
  have hanswer : ∀ route scheme host port locks,
      Contacted ts px (answerPing httpd env ts px route scheme host port locks).tables
        (answerPing httpd env ts px route scheme host port locks).proxy := by
    intro route scheme host port locks
    unfold answerPing
    split
    · exact .inl ⟨rfl, rfl⟩
    · exact hhost _ _ _ _ _
    · exact .inl ⟨rfl, rfl⟩
  unfold processPing
  split
  · exact .inl ⟨rfl, rfl⟩
  · exact .inl ⟨rfl, rfl⟩
  split
  · exact hanswer _ _ _ _ _
  split
  · exact .inl ⟨rfl, rfl⟩
  · exact hanswer _ _ _ _ _

theorem Contacted.statWrites {ts' : Tables} {px' : Option Proxy} (h : Contacted ts px ts' px') : StatWrites ts ts' := by
  rcases h with ⟨rfl, -⟩ | ⟨p, ref, w, c, -, -, rfl, -⟩
  · exact .refl
  · exact (w.write_spec _).1

theorem domainNode_edits {now : Int} {filename : Str} {cmd : Option ContextStatus} {ptr : List Nat} {w : Walk}
    (route : Str) (hok : IdsOk w.tables) :
    Edits False w.tables (domainNode httpd now filename cmd ptr w route).tables := by
  unfold domainNode
  split
  · exact Edits.refl
  · exact processAppCmd_edits httpd now filename _ _ hok False.elim

theorem processDomain_edits {now : Int} {filename : Str} {cmd : Option ContextStatus} {ptr : List Nat}
    {domain : Option Str} (ids : List Int) {w : Walk} (hok : IdsOk w.tables) :
    Edits False w.tables (processDomain httpd now filename cmd ptr domain ids w).tables := by
  induction ids generalizing w with
  | nil => exact Edits.refl
  | cons id ids ih =>
    unfold processDomain
    split
    · exact ih hok
    split
    · exact Edits.refl
    split
    · exact ih hok
    · rename_i i _ _ _ _
      have hnode : Edits False w.tables
          (domainNode httpd now filename cmd ptr w (w.tables.nodes.peek i).mess.jvmRoute).tables :=
        domainNode_edits _ hok
      exact hnode.trans (ih (hnode.idsOk hok))

theorem processParams_edits {page : PageConf} {now : Int} {filename : Str} {mem : Mem} {params : List Entry}
    (hok : IdsOk ts) : Edits False ts (processParams httpd page now ts filename mem params).1 := by
  unfold processParams
  split
  · exact Edits.refl
  split
  · exact Edits.refl
  split
  · exact Edits.refl
  split
  · exact Edits.refl
  simp only
  split
  · split
    · exact Edits.refl
    · exact processDomain_edits (w := { tables := ts, mem := mem, outcome := .done }) _ hok
  · split
    · exact Edits.refl
    · exact processAppCmd_edits httpd now filename _ _ hok False.elim

theorem managerInfo_edits {page : PageConf} {now : Int} {filename : Str} {args : Option Str} {behind : Mem}
    (hok : IdsOk ts) : Edits False ts (managerInfo httpd u page now ts filename args behind).tables := by
  unfold managerInfo
  split
  · exact Edits.refl
  split
  · exact Edits.refl
  · exact processParams_edits hok

theorem processMessage_edits (hok : IdsOk ts) :
    Edits False ts (processMessage httpd conf env transferred ts px r argv).tables := by
  unfold processMessage
  split
  · exact processConfig_edits httpd conf.mconf env.now px argv hok False.elim
  split
  · exact processStatus_edits
  split
  · exact Edits.refl
  split
  · exact Edits.refl
  split
  · exact processPing_contacts.statWrites.edits
  split
  · exact Edits.refl
  split
  · exact processAppCmd_edits httpd env.now r.filename argv _ hok False.elim
  · exact Edits.refl

theorem managerHandler_edits (hok : IdsOk ts) :
    Edits False ts (managerHandler httpd u conf env transferred ts px r).tables := by
  unfold managerHandler
  split
  · split
    · exact Edits.refl
    · exact managerInfo_edits hok
  split
  · exact Edits.refl
  split
  · exact Edits.refl
  split
  · exact Edits.refl
  · exact processMessage_edits hok

end Keeps

/-! ## Runs of requests -/

/-- A request, on whichever process, or what goes on beside the requests. -/
inductive HttpStep (httpd : Httpd) : Tables → Tables → Prop
  | request {ts : Tables} (u : Unescaper) (conf : ManagerConf) (env : Surroundings) (transferred : WorkerShared → Nat)
      (px : Option Proxy) (r : ManagerRequest) : HttpStep httpd ts (managerHandler httpd u conf env transferred ts px r).tables
  | watchdog {ts : Tables} (wait now : Int) : HttpStep httpd ts (removeRemovedNode httpd wait now ts)
  | lbWatchdog {ts : Tables} (wait now : Int) (nodeTable : List Int) :
      HttpStep httpd ts (lbRemoveRemovedNode wait now nodeTable ts)
  | bookkeeping {ts : Tables} (i : Nat) (a n : Nodeinfo) (hused : ts.nodes.used i = some a) (hkeep : Bookkeeping a n) :
      HttpStep httpd ts { ts with nodes := ts.nodes.poke i n }

def HttpReach (httpd : Httpd) (ts : Tables) : Prop :=
  ∃ sz, Relation.ReflTransGen (HttpStep httpd) (emptyTables sz) ts

/-- What no request can break. -/
structure Sound (ts : Tables) : Prop where
  ids : IdsOk ts
  named : Named ts
  keyed : Keyed ts
  hosted : ∀ i c, ts.contexts.used i = some c → HostUsed ts c.node c.vhost
  balanced : ∀ i n, ts.nodes.used i = some n → BalancerUsed ts n.mess.balancer

section Runs

variable {httpd : Httpd} {strict : Prop} {ts ts' : Tables}

theorem HttpStep.edits (h : HttpStep httpd ts ts') (hok : IdsOk ts) : Edits False ts ts' := by
  cases h with
  | request u conf env transferred px r => exact managerHandler_edits hok
  | watchdog wait now => exact removeRemovedNode_edits httpd wait now hok False.elim
  | lbWatchdog wait now nodeTable => exact lbRemoveRemovedNode_edits wait now nodeTable hok False.elim
  | bookkeeping i a n hused hkeep =>
    have hstep : Step httpd False ts { ts with nodes := ts.nodes.poke i n } := .bookkeeping i a n hused hkeep
    exact hstep.edits hok False.elim

theorem Edit.hosted (he : Edit strict ts ts') (h : ∀ i c, ts.contexts.used i = some c → HostUsed ts c.node c.vhost) :
    ∀ i c, ts'.contexts.used i = some c → HostUsed ts' c.node c.vhost := by
  cases he with
  | host i a x hused hid hkey => exact fun j c hc => (h j c hc).poke hused hkey
  | hostInsert i x hlt hfree hid hnew hnode => exact fun j c hc => (h j c hc).store hfree
  | hostsFree hosts p hused hempty =>
    intro j c hc
    obtain ⟨k, x, hx, hnode, hvhost⟩ := h j c hc
    refine ⟨k, x, (used_of_filter hused).mpr ⟨hx, ?_⟩, hnode, hvhost⟩
    cases hp : p x with
    | false => rfl
    | true => exact absurd ⟨hnode.symm, hvhost.symm⟩ (hempty k x hx hp j c hc)
  | context i a c hused hid hkey =>
    obtain ⟨-, hv, hn⟩ := sameContext_iff.mp hkey
    intro j y hy
    rcases used_of_poke hy with ⟨rfl, rfl, -⟩ | ⟨-, hy⟩
    · rw [hn, hv]
      exact h j a hused
    · exact h j y hy
  | contextInsert i c hlt hfree hid hnew hhost =>
    intro j y hy
    rcases used_of_store hy with ⟨rfl, rfl⟩ | ⟨-, hy⟩
    · exact hhost
    · exact h j y hy
  | contextsFree contexts p hused => exact fun j c hc => h j c ((used_of_filter hused).mp hc).1
  | purge hosts contexts id hhosts hcontexts =>
    intro j c hc
    obtain ⟨hold, hkept⟩ := (used_of_filter hcontexts).mp hc
    obtain ⟨k, x, hx, hnode, hvhost⟩ := h j c hold
    exact ⟨k, x, (used_of_filter hhosts).mpr ⟨hx, by rw [hnode]; exact hkept⟩, hnode, hvhost⟩
  | _ => exact h

theorem Edit.balanced (he : Edit strict ts ts')
    (h : ∀ i n, ts.nodes.used i = some n → BalancerUsed ts n.mess.balancer) :
    ∀ i n, ts'.nodes.used i = some n → BalancerUsed ts' n.mess.balancer := by
  cases he with
  | node i n hid hremove hbalancer hname hroute =>
    intro j a ha
    rcases used_of_poke ha with ⟨rfl, rfl, a', ha'⟩ | ⟨-, ha⟩
    · rcases hbalancer with hb | hb
      · rw [hb, peek_of_used ha']
        exact h j a' ha'
      · exact hb
    · exact h j a ha
  | nodeStore i n hlt hid hbalancer hname hroute =>
    intro j a ha
    rcases used_of_store ha with ⟨rfl, rfl⟩ | ⟨-, ha⟩
    · exact hbalancer
    · exact h j a ha
  | nodeFree i hunlinked => exact fun j a ha => h j a (used_of_free ha).2
  | balancer i a b hused hid hkey => exact fun j n hn => (h j n hn).poke hused hkey
  | balancerInsert i b hlt hfree hid hnew => exact fun j n hn => (h j n hn).store hfree
  | _ => exact h

theorem sound_empty (sz : Sizes) : Sound (emptyTables sz) where
  ids := idsOk_empty sz
  named i n h := by simp [emptyTables, used_empty] at h
  keyed := keyed_empty sz
  hosted i c h := by simp [emptyTables, used_empty] at h
  balanced i n h := by simp [emptyTables, used_empty] at h

theorem Edits.sound (he : Edits strict ts ts') (h : Sound ts) : Sound ts' where
  ids := he.idsOk h.ids
  named := he.named h.named
  keyed := he.induct Edit.keyed h.keyed
  hosted := he.induct Edit.hosted h.hosted
  balanced := he.induct Edit.balanced h.balanced

theorem Reachable.sound (h : Reachable httpd False ts) : Sound ts := by
  obtain ⟨sz, h⟩ := h
  induction h with
  | refl => exact sound_empty sz
  | tail _ hstep ih => exact (hstep.edits ih.ids False.elim).sound ih

theorem HttpReach.sound (h : HttpReach httpd ts) : Sound ts := by
  obtain ⟨sz, h⟩ := h
  induction h with
  | refl => exact sound_empty sz
  | tail _ hstep ih => exact (hstep.edits ih.ids).sound ih

/-- Whatever is sent, on the page or as a message: every record knows its slot, a node has
a name and its balancer is stored, a context has its host, and no two hosts, contexts or
balancers are the same. -/
theorem served_sound (httpd : Httpd) (ts : Tables) (h : HttpReach httpd ts) :
    (∀ i n, ts.nodes.used i = some n →
      n.mess.id = i ∧ n.mess.jvmRoute ≠ [] ∧ ∃ j b, ts.balancers.used j = some b ∧ b.balancer = n.mess.balancer) ∧
    (∀ i x, ts.hosts.used i = some x → x.id = i) ∧
    (∀ i c, ts.contexts.used i = some c →
      c.id = i ∧ ∃ j x, ts.hosts.used j = some x ∧ x.node = c.node ∧ x.vhost = c.vhost) ∧
    (∀ i b, ts.balancers.used i = some b → b.id = i) ∧
    ts.hosts.Distinct Hostinfo.key ∧ ts.contexts.Distinct Contextinfo.key ∧ ts.balancers.Distinct (·.balancer) := by
  have hs := h.sound
  exact ⟨fun i n hn => ⟨hs.ids.nodes i n hn, hs.named i n hn, hs.balanced i n hn⟩, hs.ids.hosts,
    fun i c hc => ⟨hs.ids.contexts i c hc, hs.hosted i c hc⟩, hs.ids.balancers, hs.keyed.hosts, hs.keyed.contexts,
    hs.keyed.balancers⟩

/-! ### A node that registers -/

def openManager : ManagerConf := ⟨true, smallestBuffer, Mconf.default, openPage⟩

def registerRequest : ManagerRequest where
  handler := ascii "mod-cluster"
  isGet := false
  method := ascii "CONFIG"
  filename := ascii "/"
  accept := none
  args := none
  behind := []
  server := 0
  input := registration

theorem registerRequest_tables :
    (managerHandler plainHttpd apUnescapeUrl openManager noAnswers (fun _ => 0) (emptyTables ⟨2, 2, 2, 2, 2⟩) none
      registerRequest).tables = oneNode := by
  decide +kernel

theorem oneNode_httpReach : HttpReach plainHttpd oneNode := by
  refine ⟨⟨2, 2, 2, 2, 2⟩, Relation.ReflTransGen.single ?_⟩
  rw [← registerRequest_tables]
  exact HttpStep.request apUnescapeUrl openManager noAnswers (fun _ => 0) none registerRequest

theorem oneNode_sound :
    ∃ n j b, oneNode.nodes.used 0 = some n ∧ oneNode.balancers.used j = some b ∧ b.balancer = n.mess.balancer := by
  have hused : (oneNode.nodes.used 0).isSome = true := by decide +kernel
  obtain ⟨n, hn⟩ := Option.isSome_iff_exists.mp hused
  obtain ⟨-, -, j, b, hb, hname⟩ := (served_sound plainHttpd oneNode oneNode_httpReach).1 0 n hn
  exact ⟨n, j, b, hn, hb, hname⟩

/-- As XML, DUMP and INFO are read back exactly when there is room in their first table
and no string gets in the way. -/
theorem served_reports_read {accept : Option Str} (transferred : WorkerShared → Nat) (sv : Server)
    (h : HttpReach httpd ts) (hxml : dumpType accept = .xml) :
    (dumpReport.read (processDump httpd ts accept) = some (dumpValues httpd ts) ↔
      ts.balancers.size ≠ 0 ∧ DumpSafe httpd ts) ∧
    (infoReport.read (processInfo httpd transferred ts sv accept) =
        some (infoValues httpd (proxyStat transferred ts sv) ts) ↔
      ts.nodes.size ≠ 0 ∧ InfoSafe httpd ts) :=
  ⟨dump_read h.sound.ids hxml, info_read h.sound.ids hxml⟩

/-- A query of the page. -/
def queryRequest (query : Str) : ManagerRequest where
  handler := ascii "mod_cluster-manager"
  isGet := true
  method := ascii "GET"
  filename := ascii "/mod_cluster_manager"
  accept := none
  args := some query
  behind := []
  server := 0
  input := ⟨[], .eos⟩

theorem enabledBy_httpReach (context : String) : HttpReach plainHttpd (enabledBy context) := by
  obtain ⟨sz, hreach⟩ := oneNode_httpReach
  refine ⟨sz, hreach.tail ?_⟩
  exact HttpStep.request apUnescapeUrl openManager noAnswers (fun _ => 0) none (queryRequest (enableQuery context))

theorem markup_unread :
    dumpReport.read (processDump plainHttpd (enabledBy "%2F%3Cb%3E") (some XML_CONTENT_TYPE)) ≠
      some (dumpValues plainHttpd (enabledBy "%2F%3Cb%3E")) := by
  have hxml : dumpType (some XML_CONTENT_TYPE) = .xml := by decide +kernel
  intro hread
  have hsafe := ((served_reports_read (fun _ => 0) ⟨[]⟩ (enabledBy_httpReach "%2F%3Cb%3E") hxml).1.mp hread).2
  obtain ⟨c, hc, hcontext⟩ := Option.map_eq_some_iff.mp page_facts.2.2.2.2
  have hquoted := hsafe.contexts c (mem_records.2 ⟨1, hc⟩)
  rw [hcontext] at hquoted
  exact absurd hquoted (by decide)

end Runs

/-! ## What an answer tells -/

section Answers

variable {httpd : Httpd} {u : Unescaper} {conf : ManagerConf} {env : Surroundings}
  {transferred : WorkerShared → Nat} {ts : Tables} {px : Option Proxy} {r : ManagerRequest} {argv : Argv} {e : McmpError}

def Reply.Unchanged (ts : Tables) (px : Option Proxy) (h : Reply) : Prop := h.tables = ts ∧ h.proxy = px

theorem caseEq_unique {s a b : Str} (h : caseEq s a = true) (hne : lower a ≠ lower b) : caseEq s b = false := by
  unfold caseEq at h ⊢
  rw [beq_iff_eq] at h
  rw [h]
  exact beq_eq_false_iff_ne.mpr hne

end Answers

/-! ## Reports of tables that were filled by messages -/

def nodeStrings (httpd : Httpd) (m : Nodemess) : List Str :=
  [printed BALANCERSZ m.balancer, printed httpd.routeSize m.jvmRoute, printed DOMAINNDSZ m.domain,
    printed HOSTNODESZ m.host, printed PORTNODESZ m.port, printed SCHEMENDSZ m.type]

/-- The strings that INFO prints of the records. -/
def infoStrings (httpd : Httpd) (ts : Tables) : List Str :=
  ts.nodes.records.flatMap (fun n => nodeStrings httpd n.mess) ++
    (ts.hosts.records.map (fun h => printed HOSTALIASZ h.host) ++
      ts.contexts.records.map fun c => printed CONTEXTSZ c.context)

/-- DUMP has those of the balancers too. -/
def dumpStrings (httpd : Httpd) (ts : Tables) : List Str :=
  ts.balancers.records.flatMap (fun b => [printed BALANCERSZ b.balancer, printed COOKNAMESZ b.stickySessionCookie,
    printed PATHNAMESZ b.stickySessionPath]) ++ infoStrings httpd ts

section Filled

variable {httpd : Httpd} {careful : Prop} {ts ts' : Tables}

theorem records_of_all {α : Type} {P : α → Prop} {m : Table α} (h : m.All P) : ∀ a ∈ m.records, P a := by
  intro a ha
  obtain ⟨i, hi⟩ := mem_records.1 ha
  exact h.used hi

theorem McmpStep.edits {D : Demand} (h : McmpStep httpd D ts ts') (hok : IdsOk ts) : Edits False ts ts' := by
  cases h with
  | config mconf now px input argv hsent hc hm => exact processConfig_edits httpd mconf now px argv hok False.elim
  | app now filename cmd input argv hsent hm => exact processAppCmd_edits httpd now filename argv cmd hok False.elim
  | watchdog wait now => exact removeRemovedNode_edits httpd wait now hok False.elim
  | lbWatchdog wait now nodeTable => exact lbRemoveRemovedNode_edits wait now nodeTable hok False.elim
  | bookkeeping i a n hused hkeep =>
    have hstep : Step httpd False ts { ts with nodes := ts.nodes.poke i n } := .bookkeeping i a n hused hkeep
    exact hstep.edits hok False.elim

theorem RequestStep.idsOk (h : RequestStep httpd careful ts ts') (hok : IdsOk ts) : IdsOk ts' := by
  cases h with
  | mcmp h => exact (h.edits hok).idsOk hok
  | page conf now filename args behind hkept => exact (managerInfo_edits hok).idsOk hok

theorem RequestsReach.keeps (h : RequestsReach httpd True ts) : IdsOk ts ∧ ts.Spelled cleanAlphabet := by
  obtain ⟨sz, h⟩ := h
  induction h with
  | refl => exact ⟨idsOk_empty sz, spelled_empty sz⟩
  | tail _ hstep ih => exact ⟨hstep.idsOk ih.1, hstep.spells ih.2⟩

theorem clean_printed {s : Str} (h : cleanAlphabet.Spells s) (k : Nat) :
    (Quoted (printed k s) ↔ ch '&' ∉ printed k s) ∧ (Data (printed k s) ↔ ch '&' ∉ printed k s) := by
  have hbyte : ∀ b : Byte, isForbidden b = false →
      (isQuoted b = true ↔ b ≠ ch '&') ∧ (isData b = true ↔ b ≠ ch '&') := forall_byte (by decide +kernel)
  have hclean : ∀ b ∈ printed k s, isForbidden b = false := fun b hb => spells_clean.mp h b (List.mem_of_mem_take hb)
  have hamp : ch '&' ∉ printed k s ↔ ∀ b ∈ printed k s, b ≠ ch '&' :=
    ⟨fun h b hb heq => h (heq ▸ hb), fun h hb => h _ hb rfl⟩
  rw [hamp]
  exact ⟨forall₂_congr fun b hb => (hbyte b (hclean b hb)).1, forall₂_congr fun b hb => (hbyte b (hclean b hb)).2⟩

theorem node_clean {m : Nodemess} (h : m.Spelled cleanAlphabet) :
    (Data (printed BALANCERSZ m.balancer) ∧ Data (printed httpd.routeSize m.jvmRoute) ∧
        Data (printed DOMAINNDSZ m.domain) ∧ Data (printed HOSTNODESZ m.host) ∧ Data (printed PORTNODESZ m.port) ∧
        Data (printed SCHEMENDSZ m.type) ↔
      ∀ s ∈ nodeStrings httpd m, ch '&' ∉ s) ∧
    (Quoted (printed httpd.routeSize m.jvmRoute) ∧ Data (printed BALANCERSZ m.balancer) ∧
        Data (printed DOMAINNDSZ m.domain) ∧ Data (printed HOSTNODESZ m.host) ∧ Data (printed PORTNODESZ m.port) ∧
        Data (printed SCHEMENDSZ m.type) ↔
      ∀ s ∈ nodeStrings httpd m, ch '&' ∉ s) := by
  unfold nodeStrings
  rw [(clean_printed h.balancer _).2, (clean_printed h.jvmRoute _).2, (clean_printed h.jvmRoute _).1,
    (clean_printed h.domain _).2, (clean_printed h.host _).2, (clean_printed h.port _).2, (clean_printed h.type _).2]
  simp only [List.forall_mem_cons, List.not_mem_nil, false_implies, implies_true, and_true]
  exact ⟨trivial, and_left_comm⟩

theorem info_clean (h : ts.Spelled cleanAlphabet) :
    InfoSafe httpd ts ↔ ∀ s ∈ infoStrings httpd ts, ch '&' ∉ s := by
  have hspelled : ∀ n ∈ ts.nodes.records, n.mess.Spelled cleanAlphabet := records_of_all h.nodes
  have hnodes := forall₂_congr fun n hn => (@node_clean httpd n.mess (hspelled n hn)).2
  have haliases : ∀ x ∈ ts.hosts.records, cleanAlphabet.Spells x.host := records_of_all h.hosts
  have hpaths : ∀ c ∈ ts.contexts.records, cleanAlphabet.Spells c.context := records_of_all h.contexts
  have hhosts := forall₂_congr fun x hx => (clean_printed (haliases x hx) HOSTALIASZ).1
  have hcontexts := forall₂_congr fun c hc => (clean_printed (hpaths c hc) CONTEXTSZ).2
  simp only [infoStrings, List.forall_mem_append, List.forall_mem_flatMap, List.forall_mem_map]
  rw [← hnodes, ← hhosts, ← hcontexts]
  exact ⟨fun h => ⟨h.nodes, h.hosts, h.contexts⟩, fun h => ⟨h.1, h.2.1, h.2.2⟩⟩

theorem dump_clean (h : ts.Spelled cleanAlphabet) :
    DumpSafe httpd ts ↔ ∀ s ∈ dumpStrings httpd ts, ch '&' ∉ s := by
  have hspelled : ∀ n ∈ ts.nodes.records, n.mess.Spelled cleanAlphabet := records_of_all h.nodes
  have hnodes := forall₂_congr fun n hn => (@node_clean httpd n.mess (hspelled n hn)).1
  have haliases : ∀ x ∈ ts.hosts.records, cleanAlphabet.Spells x.host := records_of_all h.hosts
  have hpaths : ∀ c ∈ ts.contexts.records, cleanAlphabet.Spells c.context := records_of_all h.contexts
  have hhosts := forall₂_congr fun x hx => (clean_printed (haliases x hx) HOSTALIASZ).1
  have hcontexts := forall₂_congr fun c hc => (clean_printed (hpaths c hc) CONTEXTSZ).1
  have hbalancers : ∀ b ∈ ts.balancers.records, (Quoted (printed BALANCERSZ b.balancer) ∧
      Data (printed COOKNAMESZ b.stickySessionCookie) ∧ Data (printed PATHNAMESZ b.stickySessionPath) ↔
      ∀ s ∈ [printed BALANCERSZ b.balancer, printed COOKNAMESZ b.stickySessionCookie,
        printed PATHNAMESZ b.stickySessionPath], ch '&' ∉ s) := by
    intro b hb
    have hspelled : b.Spelled cleanAlphabet := records_of_all h.balancers b hb
    rw [(clean_printed hspelled.balancer _).1, (clean_printed hspelled.cookie _).2, (clean_printed hspelled.path _).2]
    simp only [List.forall_mem_cons, List.not_mem_nil, false_implies, implies_true, and_true]
  simp only [dumpStrings, infoStrings, List.forall_mem_append, List.forall_mem_flatMap, List.forall_mem_map]
  rw [← forall₂_congr hbalancers, ← hnodes, ← hhosts, ← hcontexts]
  exact ⟨fun h => ⟨h.balancers, h.nodes, h.hosts, h.contexts⟩, fun h => ⟨h.1, h.2.1, h.2.2.1, h.2.2.2⟩⟩

/-- Where no list runs past its end, DUMP and INFO can be read back until somebody
registers an ampersand. -/
theorem reachable_reports_read {accept : Option Str} (transferred : WorkerShared → Nat) (sv : Server)
    (h : RequestsReach httpd True ts) (hxml : dumpType accept = .xml) :
    (dumpReport.read (processDump httpd ts accept) = some (dumpValues httpd ts) ↔
      ts.balancers.size ≠ 0 ∧ ∀ s ∈ dumpStrings httpd ts, ch '&' ∉ s) ∧
    (infoReport.read (processInfo httpd transferred ts sv accept) =
        some (infoValues httpd (proxyStat transferred ts sv) ts) ↔
      ts.nodes.size ≠ 0 ∧ ∀ s ∈ infoStrings httpd ts, ch '&' ∉ s) := by
  obtain ⟨hok, hspelled⟩ := h.keeps
  rw [dump_read hok hxml, info_read hok hxml, dump_clean hspelled, info_clean hspelled]
  exact ⟨Iff.rfl, Iff.rfl⟩

end Filled

theorem oneNode_reports_read :
    dumpReport.read (processDump plainHttpd oneNode (some XML_CONTENT_TYPE)) =
      some (dumpValues plainHttpd oneNode) := by
  have hxml : dumpType (some XML_CONTENT_TYPE) = .xml := by decide +kernel
  have hstrings : oneNode.balancers.size ≠ 0 ∧ ∀ s ∈ dumpStrings plainHttpd oneNode, ch '&' ∉ s := by decide +kernel
  exact (reachable_reports_read (fun _ => 0) ⟨[]⟩ (oneNode_requests True) hxml).1.mpr hstrings

end ModCluster
