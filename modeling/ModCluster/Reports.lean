import ModCluster.Lib.Markup
import ModCluster.Dump
import ModCluster.Sanitation

/-!
# INFO, VERSION, and what the reports say

`process_info` and `process_version` print next to `process_dump`. As XML, DUMP and INFO
are reports without escaping, and can be read back as long as no string of a record gets
in the way.
-/

open CString Slotmem Slotmem.Table Markup

namespace ModCluster

/-! ## INFO -/

/-- `sscanf(s, "%u", &port)`, as the `int` it is stored in. -/
def scanUnsigned (s : Str) : Option Int :=
  let rest := s.dropWhile isSpace
  let number := if rest.head? = some (ch '-') ∨ rest.head? = some (ch '+') then rest.drop 1 else rest
  if (number.head?.map isDigit).getD false then
    let value := digits 0 number
    -- `strtoul` gives its limit, whose low bits are all set.
    if value ≥ 2 ^ 64 then some (-1)
    else some (toInt32 (if rest.head? = some (ch '-') then -value else value))
  else none

/-- The area of the first worker of the node in the server of the request. -/
def readSharedByNode (ts : Tables) (sv : Server) (node : Nodemess) : Option WorkerShared :=
  (scanUnsigned node.port).bind fun port =>
    sv.balancers.findSome? fun balancer =>
      if balancer.name ≠ BALANCER_PREFIX ++ node.balancer then none
      else (balancer.workers.map (·.area ts)).find? fun s =>
        decide ((s.port : Int) = port) && s.hostname == node.host && s.route == node.jvmRoute

/-- `flush_off` is 0, `flush_on` 1 and `flush_auto` 2. -/
def flushToStr (flush : Int) : Str :=
  if flush = 1 then ascii "On" else if flush = 2 then ascii "Auto" else ascii "Off"

/-- What INFO prints of a `proxy_worker_shared`. -/
structure ProxyStat where
  elected : Nat
  read : Nat
  transferred : Nat
  busy : Nat
  lbfactor : Int

/-- httpd counts `transferred`, and the modules read it here only. -/
def proxyStat (transferred : WorkerShared → Nat) (ts : Tables) (sv : Server) (node : Nodemess) : ProxyStat :=
  match readSharedByNode ts sv node with
  | some s => ⟨s.elected, s.read, transferred s, s.busy, s.lbfactor⟩
  | none => ⟨0, 0, 0, 0, 0⟩

def infoNode (httpd : Httpd) (stat : Nodemess → ProxyStat) (type : DumpType) (id : Int) (ou : Nodeinfo) : Str :=
  let proxystat := stat ou.mess
  match type with
  | .xml =>
    ascii "<Node id=\"" ++ decimalInt id ++ ascii "\" name=\"" ++ printed httpd.routeSize ou.mess.jvmRoute ++
    ascii "\">" ++
    ascii "<Balancer>" ++ printed BALANCERSZ ou.mess.balancer ++ ascii "</Balancer>" ++
    ascii "<LBGroup>" ++ printed DOMAINNDSZ ou.mess.domain ++ ascii "</LBGroup>" ++
    ascii "<Host>" ++ printed HOSTNODESZ ou.mess.host ++ ascii "</Host>" ++
    ascii "<Port>" ++ printed PORTNODESZ ou.mess.port ++ ascii "</Port>" ++
    ascii "<Type>" ++ printed SCHEMENDSZ ou.mess.type ++ ascii "</Type>" ++
    (ascii "<Flushpackets>" ++ flushToStr ou.mess.flushpackets ++ ascii "</Flushpackets>" ++
    ascii "<Flushwait>" ++ decimalInt (milliseconds ou.mess.flushwait) ++ ascii "</Flushwait>" ++
    ascii "<Ping>" ++ decimalInt (seconds ou.mess.ping) ++ ascii "</Ping>" ++
    ascii "<Smax>" ++ decimalInt ou.mess.smax ++ ascii "</Smax>" ++
    ascii "<Ttl>" ++ decimalInt (seconds ou.mess.ttl) ++ ascii "</Ttl>") ++
    (ascii "<Elected>" ++ decimalInt (toInt32 proxystat.elected) ++ ascii "</Elected>" ++
    ascii "<Read>" ++ decimalInt (toInt32 proxystat.read) ++ ascii "</Read>" ++
    ascii "<Transfered>" ++ decimalInt (toInt32 proxystat.transferred) ++ ascii "</Transfered>" ++
    ascii "<Connected>" ++ decimalInt (toInt32 proxystat.busy) ++ ascii "</Connected>" ++
    ascii "<Load>" ++ decimalInt proxystat.lbfactor ++ ascii "</Load>" ++
    ascii "</Node>")
  | .plain =>
    ascii "Node: [" ++ decimalInt id ++ ascii "],Name: " ++ printed httpd.routeSize ou.mess.jvmRoute ++
    ascii ",Balancer: " ++ printed BALANCERSZ ou.mess.balancer ++ ascii ",LBGroup: " ++
    printed DOMAINNDSZ ou.mess.domain ++ ascii ",Host: " ++ printed HOSTNODESZ ou.mess.host ++ ascii ",Port: " ++
    printed PORTNODESZ ou.mess.port ++ ascii ",Type: " ++ printed SCHEMENDSZ ou.mess.type ++
    (ascii ",Flushpackets: " ++ flushToStr ou.mess.flushpackets ++ ascii ",Flushwait: " ++
    decimalInt (milliseconds ou.mess.flushwait) ++ ascii ",Ping: " ++ decimalInt (seconds ou.mess.ping) ++
    ascii ",Smax: " ++ decimalInt ou.mess.smax ++ ascii ",Ttl: " ++ decimalInt (seconds ou.mess.ttl)) ++
    (ascii ",Elected: " ++ decimalInt (toInt32 proxystat.elected) ++ ascii ",Read: " ++
    decimalInt (toInt32 proxystat.read) ++ ascii ",Transfered: " ++ decimalInt (toInt32 proxystat.transferred) ++
    ascii ",Connected: " ++ decimalInt (toInt32 proxystat.busy) ++ ascii ",Load: " ++
    decimalInt proxystat.lbfactor ++ ascii "\n")

def infoHost (type : DumpType) (id : Int) (ou : Hostinfo) : Str :=
  match type with
  | .xml =>
    ascii "<Vhost id=\"" ++ decimalInt ou.vhost ++ ascii "\" alias=\"" ++ printed HOSTALIASZ ou.host ++ ascii "\">" ++
    ascii "<Node id=\"" ++ decimalInt ou.node ++ ascii "\"/>" ++ ascii "</Vhost>"
  | .plain =>
    ascii "Vhost: [" ++ decimalInt ou.node ++ ascii ":" ++ decimalInt ou.vhost ++ ascii ":" ++ decimalInt id ++
    ascii "], Alias: " ++ printed HOSTALIASZ ou.host ++ ascii "\n"

def infoContext (type : DumpType) (id : Int) (ou : Contextinfo) : Str :=
  match type with
  | .xml =>
    ascii "<Context id=\"" ++ decimalInt id ++ ascii "\">" ++
    ascii "<Status id=\"" ++ decimalInt (contextStatusCode ou.status) ++ ascii "\">" ++
    contextStatusToString ou.status ++ ascii "</Status>" ++
    ascii "<Context>" ++ printed CONTEXTSZ ou.context ++ ascii "</Context>" ++
    ascii "<Node id=\"" ++ decimalInt ou.node ++ ascii "\"/>" ++
    ascii "<Vhost id=\"" ++ decimalInt ou.vhost ++ ascii "\"/>" ++ ascii "</Context>"
  | .plain =>
    ascii "Context: [" ++ decimalInt ou.node ++ ascii ":" ++ decimalInt ou.vhost ++ ascii ":" ++ decimalInt id ++
    ascii "], Context: " ++ printed CONTEXTSZ ou.context ++ ascii ", Status: " ++ contextStatusToString ou.status ++
    ascii "\n"

/-- The body of the response. Without room for a node it ends after its first line. -/
def processInfo (httpd : Httpd) (transferred : WorkerShared → Nat) (ts : Tables) (sv : Server) (accept : Option Str) :
    Str :=
  let type := dumpType accept
  tag type "<?xml version=\"1.0\" standalone=\"yes\" ?>\n" ++
  if ts.nodes.size = 0 then []
  else
    tag type "<Info><Nodes>" ++
    dumpTable ts.nodes (getIdsUsedNode ts.nodes) (infoNode httpd (proxyStat transferred ts sv) type) ++
    tag type "</Nodes>" ++ tag type "<Vhosts>" ++
    dumpTable ts.hosts (getIdsUsedHost ts.hosts) (infoHost type) ++
    tag type "</Vhosts>" ++ tag type "<Contexts>" ++
    dumpTable ts.contexts (getIdsUsedContext ts.contexts) (infoContext type) ++
    tag type "</Contexts></Info>"

/-! ## VERSION -/

def MOD_CLUSTER_EXPOSED_VERSION : Str := ascii "mod_proxy_cluster/2.0.0.Dev"

def VERSION_PROTOCOL : Str := ascii "0.2.1"

def processVersion (accept : Option Str) : Str :=
  (match dumpType accept with
  | .xml =>
    ascii "<?xml version=\"1.0\" standalone=\"yes\" ?>\n" ++
    ascii "<version><release>" ++ MOD_CLUSTER_EXPOSED_VERSION ++ ascii "</release><protocol>" ++ VERSION_PROTOCOL ++
    ascii "</protocol></version>"
  | .plain => ascii "release: " ++ MOD_CLUSTER_EXPOSED_VERSION ++ ascii ", protocol: " ++ VERSION_PROTOCOL) ++
  ascii "\n"

/-! ## The form of the reports -/

def xmlProlog : Str := ascii "<?xml version=\"1.0\" standalone=\"yes\" ?>\n"

def plainField (name : String) : Part := .field (ascii name) []

def dumpBalancerRow : List Part :=
  [.opening (ascii "Balancer") [ascii "id", ascii "name"], .opening (ascii "StickySession") [], plainField "Enabled",
    plainField "Cookie", plainField "Path", plainField "Remove", plainField "Force", .closing (ascii "StickySession"),
    plainField "Timeout", plainField "MaxAttempts", .closing (ascii "Balancer")]

def dumpBalancerValues (ou : Balancerinfo) : List Str :=
  [decimalInt ou.id, printed BALANCERSZ ou.balancer, flag ou.stickySession, printed COOKNAMESZ ou.stickySessionCookie,
    printed PATHNAMESZ ou.stickySessionPath, flag ou.stickySessionRemove, flag ou.stickySessionForce,
    decimalInt (seconds ou.timeout), decimalInt ou.maxattempts]

def dumpNodeRow : List Part :=
  [.opening (ascii "Node") [ascii "id"], plainField "Balancer", plainField "JVMRoute", plainField "LBGroup",
    plainField "Host", plainField "Port", plainField "Type", plainField "FlushPackets", plainField "FlushWait",
    plainField "Ping", plainField "Smax", plainField "Ttl", plainField "Timeout", .closing (ascii "Node")]

def dumpNodeValues (httpd : Httpd) (ou : Nodeinfo) : List Str :=
  [decimalInt ou.mess.id, printed BALANCERSZ ou.mess.balancer, printed httpd.routeSize ou.mess.jvmRoute,
    printed DOMAINNDSZ ou.mess.domain, printed HOSTNODESZ ou.mess.host, printed PORTNODESZ ou.mess.port,
    printed SCHEMENDSZ ou.mess.type, decimalInt ou.mess.flushpackets, decimalInt (milliseconds ou.mess.flushwait),
    decimalInt (seconds ou.mess.ping), decimalInt ou.mess.smax, decimalInt (seconds ou.mess.ttl),
    decimalInt (seconds ou.mess.timeout)]

def dumpHostRow : List Part :=
  [.opening (ascii "Host") [ascii "id", ascii "alias"], .blank (List.replicate 31 32), plainField "Vhost",
    .blank (List.replicate 31 32), plainField "Node", .blank (List.replicate 27 32), .closing (ascii "Host")]

def dumpHostValues (ou : Hostinfo) : List Str :=
  [decimalInt ou.id, printed HOSTALIASZ ou.host, decimalInt ou.vhost, decimalInt ou.node]

def dumpContextRow : List Part :=
  [.opening (ascii "Context") [ascii "id", ascii "path"], plainField "Vhost", plainField "Node",
    .field (ascii "Status") [ascii "id"], .closing (ascii "Context")]

def dumpContextValues (ou : Contextinfo) : List Str :=
  [decimalInt ou.id, printed CONTEXTSZ ou.context, decimalInt ou.vhost, decimalInt ou.node,
    decimalInt (contextStatusCode ou.status), contextStatusToString ou.status]

def dumpReport : Report where
  prolog := xmlProlog
  root := ascii "Dump"
  sections := [⟨ascii "Balancers", dumpBalancerRow, .intro _ _ _ _ (by decide)⟩,
    ⟨ascii "Nodes", dumpNodeRow, .intro _ _ _ _ (by decide)⟩,
    ⟨ascii "Hosts", dumpHostRow, .intro _ _ _ _ (by decide)⟩,
    ⟨ascii "Contexts", dumpContextRow, .intro _ _ _ _ (by decide)⟩]

/-- The records in slot order, with what is printed of each. -/
def dumpValues (httpd : Httpd) (ts : Tables) : List (List (List Str)) :=
  [ts.balancers.records.map dumpBalancerValues, ts.nodes.records.map (dumpNodeValues httpd),
    ts.hosts.records.map dumpHostValues, ts.contexts.records.map dumpContextValues]

def proxyStatRow : List Part :=
  [plainField "Elected", plainField "Read", plainField "Transfered", plainField "Connected", plainField "Load"]

def proxyStatValues (proxystat : ProxyStat) : List Str :=
  [decimalInt (toInt32 proxystat.elected), decimalInt (toInt32 proxystat.read),
    decimalInt (toInt32 proxystat.transferred), decimalInt (toInt32 proxystat.busy), decimalInt proxystat.lbfactor]

def infoNodeRow : List Part :=
  [.opening (ascii "Node") [ascii "id", ascii "name"], plainField "Balancer", plainField "LBGroup", plainField "Host",
    plainField "Port", plainField "Type", plainField "Flushpackets", plainField "Flushwait", plainField "Ping",
    plainField "Smax", plainField "Ttl"] ++ (proxyStatRow ++ [.closing (ascii "Node")])

def infoNodeValues (httpd : Httpd) (stat : Nodemess → ProxyStat) (ou : Nodeinfo) : List Str :=
  [decimalInt ou.mess.id, printed httpd.routeSize ou.mess.jvmRoute, printed BALANCERSZ ou.mess.balancer,
    printed DOMAINNDSZ ou.mess.domain, printed HOSTNODESZ ou.mess.host, printed PORTNODESZ ou.mess.port,
    printed SCHEMENDSZ ou.mess.type, flushToStr ou.mess.flushpackets, decimalInt (milliseconds ou.mess.flushwait),
    decimalInt (seconds ou.mess.ping), decimalInt ou.mess.smax, decimalInt (seconds ou.mess.ttl)] ++
    (proxyStatValues (stat ou.mess) ++ [])

def infoHostRow : List Part :=
  [.opening (ascii "Vhost") [ascii "id", ascii "alias"], .single (ascii "Node") [ascii "id"], .closing (ascii "Vhost")]

def infoHostValues (ou : Hostinfo) : List Str :=
  [decimalInt ou.vhost, printed HOSTALIASZ ou.host, decimalInt ou.node]

def infoContextRow : List Part :=
  [.opening (ascii "Context") [ascii "id"], .field (ascii "Status") [ascii "id"], plainField "Context",
    .single (ascii "Node") [ascii "id"], .single (ascii "Vhost") [ascii "id"], .closing (ascii "Context")]

def infoContextValues (ou : Contextinfo) : List Str :=
  [decimalInt ou.id, decimalInt (contextStatusCode ou.status), contextStatusToString ou.status,
    printed CONTEXTSZ ou.context, decimalInt ou.node, decimalInt ou.vhost]

def infoReport : Report where
  prolog := xmlProlog
  root := ascii "Info"
  sections := [⟨ascii "Nodes", infoNodeRow, .intro _ _ _ _ (by decide)⟩,
    ⟨ascii "Vhosts", infoHostRow, .intro _ _ _ _ (by decide)⟩,
    ⟨ascii "Contexts", infoContextRow, .intro _ _ _ _ (by decide)⟩]

def infoValues (httpd : Httpd) (stat : Nodemess → ProxyStat) (ts : Tables) : List (List (List Str)) :=
  [ts.nodes.records.map (infoNodeValues httpd stat), ts.hosts.records.map infoHostValues,
    ts.contexts.records.map infoContextValues]

/-! ## What is printed is a report -/

section Printed

variable {httpd : Httpd} {ts : Tables} {accept : Option Str}

theorem getIdsUsedBalancer_eq (m : Table Balancerinfo) : getIdsUsedBalancer m = m.records.map (·.id) := by
  simp [getIdsUsedBalancer, doall_collect]

theorem dumpTable_records {α : Type} [Inhabited α] {m : Table α} {idOf : α → Int} (hids : m.IdsMatch idOf)
    (entry : Int → α → Str) : dumpTable m (m.records.map idOf) entry = m.records.flatMap fun a => entry (idOf a) a := by
  unfold dumpTable
  rw [List.flatMap_map]
  refine List.flatMap_congr fun a ha => ?_
  obtain ⟨i, hi⟩ := mem_records.1 ha
  have hd : m.dptr (idOf a) = some i := by
    rw [hids i a hi, dptr_ofNat (used_lt hi)]
  simp only [hd, peek_of_used hi]

/-! Both sides are brought to literals and values in turn. -/

theorem ascii_ascii (s t : String) : ascii s ++ ascii t = ascii (s ++ t) := by
  simp [ascii]

theorem ascii_ascii_append (s t : String) (x : Str) : ascii s ++ (ascii t ++ x) = ascii (s ++ t) ++ x := by
  rw [← List.append_assoc, ascii_ascii]

theorem writeRow_dumpBalancer (ou : Balancerinfo) :
    dumpBalancer .xml ou.id ou = writeRow dumpBalancerRow (dumpBalancerValues ou) := by
  unfold dumpBalancer
  simp [dumpBalancerRow, dumpBalancerValues, plainField, ascii_ascii, ascii_ascii_append]

theorem writeRow_dumpNode (httpd : Httpd) (ou : Nodeinfo) :
    dumpNode httpd .xml ou.mess.id ou = writeRow dumpNodeRow (dumpNodeValues httpd ou) := by
  unfold dumpNode
  simp [dumpNodeRow, dumpNodeValues, plainField, ascii_ascii, ascii_ascii_append]

theorem writeRow_dumpHost (ou : Hostinfo) : dumpHost .xml ou.id ou = writeRow dumpHostRow (dumpHostValues ou) := by
  unfold dumpHost
  simp [dumpHostRow, dumpHostValues, plainField, ascii_ascii, ascii_ascii_append]

theorem writeRow_dumpContext (ou : Contextinfo) :
    dumpContext .xml ou.id ou = writeRow dumpContextRow (dumpContextValues ou) := by
  unfold dumpContext
  simp [dumpContextRow, dumpContextValues, plainField, ascii_ascii, ascii_ascii_append]

theorem writeRow_proxyStat (elected read transferred busy load : Str) :
    writeRow proxyStatRow [elected, read, transferred, busy, load] =
      ascii "<Elected>" ++ elected ++ ascii "</Elected>" ++ ascii "<Read>" ++ read ++ ascii "</Read>" ++
      ascii "<Transfered>" ++ transferred ++ ascii "</Transfered>" ++ ascii "<Connected>" ++ busy ++
      ascii "</Connected>" ++ ascii "<Load>" ++ load ++ ascii "</Load>" := by
  simp [proxyStatRow, plainField, ascii_ascii, ascii_ascii_append]

theorem writeRow_infoNode (httpd : Httpd) (stat : Nodemess → ProxyStat) (ou : Nodeinfo) :
    infoNode httpd stat .xml ou.mess.id ou = writeRow infoNodeRow (infoNodeValues httpd stat ou) := by
  unfold infoNode infoNodeRow infoNodeValues proxyStatValues
  rw [writeRow_append (by rfl), writeRow_append (by rfl), writeRow_proxyStat]
  simp [plainField, ascii_ascii, ascii_ascii_append]

theorem writeRow_infoHost (ou : Hostinfo) : infoHost .xml ou.id ou = writeRow infoHostRow (infoHostValues ou) := by
  unfold infoHost
  simp [infoHostRow, infoHostValues, ascii_ascii, ascii_ascii_append]

theorem writeRow_infoContext (ou : Contextinfo) :
    infoContext .xml ou.id ou = writeRow infoContextRow (infoContextValues ou) := by
  unfold infoContext
  simp [infoContextRow, infoContextValues, plainField, ascii_ascii, ascii_ascii_append]

theorem dumpTable_section {α : Type} [Inhabited α] {m : Table α} {idOf : α → Int} (hids : m.IdsMatch idOf)
    {entry : Int → α → Str} {row : List Part} {values : α → List Str}
    (hentry : ∀ a, entry (idOf a) a = writeRow row (values a)) :
    dumpTable m (m.records.map idOf) entry = (m.records.map values).flatMap (writeRow row) := by
  rw [dumpTable_records hids, List.flatMap_map]
  exact List.flatMap_congr fun a _ => hentry a

theorem processDump_write (hok : IdsOk ts) (hxml : dumpType accept = .xml) (hsize : ts.balancers.size ≠ 0) :
    processDump httpd ts accept = dumpReport.write (dumpValues httpd ts) := by
  have hb := dumpTable_section hok.balancers writeRow_dumpBalancer
  have hn := dumpTable_section hok.nodes (writeRow_dumpNode httpd)
  have hh := dumpTable_section hok.hosts writeRow_dumpHost
  have hc := dumpTable_section hok.contexts writeRow_dumpContext
  unfold processDump
  rw [getIdsUsedBalancer_eq, getIdsUsedNode_eq, getIdsUsedHost_eq, getIdsUsedContext_eq, hxml]
  simp only
  rw [if_neg hsize, hb, hn, hh, hc]
  simp [tag, Report.write, dumpReport, dumpValues, xmlProlog, writeSections, Section.write, ascii_ascii,
    ascii_ascii_append]

theorem processInfo_write {transferred : WorkerShared → Nat} {sv : Server} (hok : IdsOk ts)
    (hxml : dumpType accept = .xml) (hsize : ts.nodes.size ≠ 0) :
    processInfo httpd transferred ts sv accept =
      infoReport.write (infoValues httpd (proxyStat transferred ts sv) ts) := by
  have hn := dumpTable_section hok.nodes (writeRow_infoNode httpd (proxyStat transferred ts sv))
  have hh := dumpTable_section hok.hosts writeRow_infoHost
  have hc := dumpTable_section hok.contexts writeRow_infoContext
  unfold processInfo
  rw [getIdsUsedNode_eq, getIdsUsedHost_eq, getIdsUsedContext_eq, hxml]
  simp only
  rw [if_neg hsize, hn, hh, hc]
  simp [tag, Report.write, infoReport, infoValues, xmlProlog, writeSections, Section.write, ascii_ascii,
    ascii_ascii_append]

theorem read_prolog (report : Report) (hprolog : report.prolog = xmlProlog) : report.read xmlProlog = none := by
  have hend : ∀ (lit : Str) (s : Str), s ≠ [] → expect (lit ++ s) lit = none := by
    intro lit s hs
    induction lit with
    | nil => cases s <;> simp_all [expect]
    | cons b lit ih => simpa [expect] using ih
  unfold Report.read
  rw [hprolog, hend xmlProlog _ (by simp [ascii])]
  rfl

end Printed

/-! ## What can be read back -/

section Readable

variable {httpd : Httpd} {ts : Tables} {accept : Option Str}

theorem quoted_digits {s : Str} (h : ∀ b ∈ s, isDigit b = true) : Quoted s := by
  have hone : ∀ b : Byte, isDigit b = true → isQuoted b = true := forall_byte (by decide +kernel)
  exact fun b hb => hone b (h b hb)

@[simp]
theorem quoted_decimalInt (n : Int) : Quoted (decimalInt n) := by
  unfold decimalInt
  split
  · intro b hb
    rcases List.mem_cons.1 hb with rfl | hb
    · decide
    · exact quoted_digits (isDigit_decimal _) b hb
  · exact quoted_digits (isDigit_decimal _)

@[simp]
theorem data_decimalInt (n : Int) : Data (decimalInt n) := (quoted_decimalInt n).data

@[simp]
theorem data_flag (b : Bool) : Data (flag b) := by
  cases b <;> decide

@[simp]
theorem data_contextStatus (status : ContextStatus) : Data (contextStatusToString status) := by
  cases status <;> decide

@[simp]
theorem data_flush (flush : Int) : Data (flushToStr flush) := by
  unfold flushToStr
  split
  · decide
  split <;> decide

/-- No string that DUMP prints gets in the way of its markup. -/
structure DumpSafe (httpd : Httpd) (ts : Tables) : Prop where
  balancers : ∀ b ∈ ts.balancers.records, Quoted (printed BALANCERSZ b.balancer) ∧
    Data (printed COOKNAMESZ b.stickySessionCookie) ∧ Data (printed PATHNAMESZ b.stickySessionPath)
  nodes : ∀ n ∈ ts.nodes.records, Data (printed BALANCERSZ n.mess.balancer) ∧
    Data (printed httpd.routeSize n.mess.jvmRoute) ∧ Data (printed DOMAINNDSZ n.mess.domain) ∧
    Data (printed HOSTNODESZ n.mess.host) ∧ Data (printed PORTNODESZ n.mess.port) ∧
    Data (printed SCHEMENDSZ n.mess.type)
  hosts : ∀ h ∈ ts.hosts.records, Quoted (printed HOSTALIASZ h.host)
  contexts : ∀ c ∈ ts.contexts.records, Quoted (printed CONTEXTSZ c.context)

theorem dumpBalancer_safe (ou : Balancerinfo) : RowSafe dumpBalancerRow (dumpBalancerValues ou) ↔
    Quoted (printed BALANCERSZ ou.balancer) ∧ Data (printed COOKNAMESZ ou.stickySessionCookie) ∧
      Data (printed PATHNAMESZ ou.stickySessionPath) := by
  simp [dumpBalancerRow, dumpBalancerValues, plainField]

theorem dumpNode_safe (ou : Nodeinfo) : RowSafe dumpNodeRow (dumpNodeValues httpd ou) ↔
    Data (printed BALANCERSZ ou.mess.balancer) ∧
    Data (printed httpd.routeSize ou.mess.jvmRoute) ∧ Data (printed DOMAINNDSZ ou.mess.domain) ∧
    Data (printed HOSTNODESZ ou.mess.host) ∧ Data (printed PORTNODESZ ou.mess.port) ∧
    Data (printed SCHEMENDSZ ou.mess.type) := by
  simp [dumpNodeRow, dumpNodeValues, plainField]

theorem dumpHost_safe (ou : Hostinfo) :
    RowSafe dumpHostRow (dumpHostValues ou) ↔ Quoted (printed HOSTALIASZ ou.host) := by
  simp [dumpHostRow, dumpHostValues, plainField]

theorem dumpContext_safe (ou : Contextinfo) :
    RowSafe dumpContextRow (dumpContextValues ou) ↔ Quoted (printed CONTEXTSZ ou.context) := by
  simp [dumpContextRow, dumpContextValues, plainField]

theorem dump_safe_iff : dumpReport.Safe (dumpValues httpd ts) ↔ DumpSafe httpd ts := by
  simp only [Report.Safe, dumpReport, dumpValues, List.forall₂_cons, Section.Safe, List.forall_mem_map,
    dumpBalancer_safe, dumpNode_safe, dumpHost_safe, dumpContext_safe]
  exact ⟨fun h => ⟨h.1, h.2.1, h.2.2.1, h.2.2.2.1⟩, fun h => ⟨h.balancers, h.nodes, h.hosts, h.contexts, .nil⟩⟩

theorem dump_fits : dumpReport.Fits (dumpValues httpd ts) := by
  simp only [Report.Fits, dumpReport, dumpValues, List.forall₂_cons, Section.Fits, List.forall_mem_map]
  exact ⟨fun _ _ => rfl, fun _ _ => rfl, fun _ _ => rfl, fun _ _ => rfl, .nil⟩

/-- DUMP as XML is read back as the records are, exactly when there is room for a balancer
and no string gets in the way. -/
theorem dump_read (hok : IdsOk ts) (hxml : dumpType accept = .xml) :
    dumpReport.read (processDump httpd ts accept) = some (dumpValues httpd ts) ↔
      ts.balancers.size ≠ 0 ∧ DumpSafe httpd ts := by
  by_cases hsize : ts.balancers.size = 0
  · have htext : processDump httpd ts accept = xmlProlog := by
      unfold processDump
      rw [hxml]
      simp only
      rw [if_pos hsize, List.append_nil]
      rfl
    rw [htext, read_prolog dumpReport rfl]
    simp [hsize]
  · rw [processDump_write hok hxml hsize, Report.read_write_iff _ dump_fits, dump_safe_iff]
    exact (and_iff_right hsize).symm

/-- No string that INFO prints gets in the way of its markup. -/
structure InfoSafe (httpd : Httpd) (ts : Tables) : Prop where
  nodes : ∀ n ∈ ts.nodes.records, Quoted (printed httpd.routeSize n.mess.jvmRoute) ∧
    Data (printed BALANCERSZ n.mess.balancer) ∧ Data (printed DOMAINNDSZ n.mess.domain) ∧
    Data (printed HOSTNODESZ n.mess.host) ∧ Data (printed PORTNODESZ n.mess.port) ∧
    Data (printed SCHEMENDSZ n.mess.type)
  hosts : ∀ h ∈ ts.hosts.records, Quoted (printed HOSTALIASZ h.host)
  contexts : ∀ c ∈ ts.contexts.records, Data (printed CONTEXTSZ c.context)

section Info

variable {stat : Nodemess → ProxyStat}

theorem proxyStat_safe {elected read transferred busy load : Str} :
    RowSafe proxyStatRow [elected, read, transferred, busy, load] ↔
      Data elected ∧ Data read ∧ Data transferred ∧ Data busy ∧ Data load := by
  simp [proxyStatRow, plainField]

theorem infoNode_safe (ou : Nodeinfo) : RowSafe infoNodeRow (infoNodeValues httpd stat ou) ↔
    Quoted (printed httpd.routeSize ou.mess.jvmRoute) ∧
    Data (printed BALANCERSZ ou.mess.balancer) ∧ Data (printed DOMAINNDSZ ou.mess.domain) ∧
    Data (printed HOSTNODESZ ou.mess.host) ∧ Data (printed PORTNODESZ ou.mess.port) ∧
    Data (printed SCHEMENDSZ ou.mess.type) := by
  unfold infoNodeRow infoNodeValues proxyStatValues
  rw [rowSafe_append (by rfl), rowSafe_append (by rfl), proxyStat_safe]
  simp [plainField]

theorem infoHost_safe (ou : Hostinfo) :
    RowSafe infoHostRow (infoHostValues ou) ↔ Quoted (printed HOSTALIASZ ou.host) := by
  simp [infoHostRow, infoHostValues]

theorem infoContext_safe (ou : Contextinfo) :
    RowSafe infoContextRow (infoContextValues ou) ↔ Data (printed CONTEXTSZ ou.context) := by
  simp [infoContextRow, infoContextValues, plainField]

theorem info_safe_iff : infoReport.Safe (infoValues httpd stat ts) ↔ InfoSafe httpd ts := by
  simp only [Report.Safe, infoReport, infoValues, List.forall₂_cons, Section.Safe, List.forall_mem_map, infoNode_safe,
    infoHost_safe, infoContext_safe]
  exact ⟨fun h => ⟨h.1, h.2.1, h.2.2.1⟩, fun h => ⟨h.nodes, h.hosts, h.contexts, .nil⟩⟩

theorem info_fits : infoReport.Fits (infoValues httpd stat ts) := by
  simp only [Report.Fits, infoReport, infoValues, List.forall₂_cons, Section.Fits, List.forall_mem_map]
  refine ⟨fun _ _ => ?_, fun _ _ => rfl, fun _ _ => rfl, .nil⟩
  simp [infoNodeRow, infoNodeValues, proxyStatRow, proxyStatValues, plainField]

end Info

theorem info_read {transferred : WorkerShared → Nat} {sv : Server} (hok : IdsOk ts) (hxml : dumpType accept = .xml) :
    infoReport.read (processInfo httpd transferred ts sv accept) =
        some (infoValues httpd (proxyStat transferred ts sv) ts) ↔
      ts.nodes.size ≠ 0 ∧ InfoSafe httpd ts := by
  by_cases hsize : ts.nodes.size = 0
  · have htext : processInfo httpd transferred ts sv accept = xmlProlog := by
      unfold processInfo
      rw [hxml]
      simp only
      rw [if_pos hsize, List.append_nil]
      rfl
    rw [htext, read_prolog infoReport rfl]
    simp [hsize]
  · rw [processInfo_write hok hxml hsize, Report.read_write_iff _ info_fits, info_safe_iff]
    exact (and_iff_right hsize).symm

end Readable

end ModCluster
