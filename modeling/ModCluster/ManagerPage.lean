import ModCluster.App

/-!
# The manager page

`manager_info` of `mod_manager.c`: a GET on the `mod_cluster-manager` handler brings
a command in its query. The command goes to the function that serves MCMP too, with
the parameters of the query as its message.
-/

open CString Slotmem

namespace ModCluster

def OK : Nat := 0

def HTTP_BAD_REQUEST : Nat := 400

def HTTP_NOT_FOUND : Nat := 404

/-- `ap_unescape_url`: the text it leaves in place, and its status. -/
structure Unescaper where
  run : Str → Str × Nat
  plain : ∀ s, ch '%' ∉ s → run s = (s, OK)

/-! ## File names -/

/-- What `manager_trans` makes of a request: the handler it goes to and its file name. -/
inductive Translated where
  | page (filename : Str)
  | mcmp (filename : Str)
  | declined
deriving DecidableEq

structure Trans where
  /-- The handler of the directory is `mod_cluster-manager`. -/
  pageHandler : Bool
  isGet : Bool
  /-- The method is none that httpd knows. -/
  invalid : Bool
  enableMcmpReceive : Bool
  isOurMethod : Bool
  uri : Str

def isWildcard (uri : Str) : Bool := uri == ascii "*" || (ascii "*/").isPrefixOf uri.reverse

def managerTrans (r : Trans) : Translated :=
  if r.pageHandler ∧ r.isGet then .page r.uri
  else if !r.invalid then .declined
  else if !r.enableMcmpReceive then .declined
  else if r.isOurMethod then .mcmp (if isWildcard r.uri then NODE_COMMAND else r.uri)
  else .declined

/-! ## The query -/

/-- A parameter: its key, its value as it stands in the query, and unescaped. -/
structure Param where
  key : Str
  raw : Str
  val : Str
deriving DecidableEq

def parseArgs (u : Unescaper) : (fuel : Nat) → (args : Str) → Except Nat (List Param)
  | 0, _ => .ok []
  | fuel + 1, args =>
    if args = [] then .ok []
    else match after (ch '=') args with
      | none => .error HTTP_BAD_REQUEST
      | some rest =>
        let key := args.takeWhile (· != ch '=')
        let raw := rest.takeWhile (· != ch '&')
        let status := (u.run raw).2
        -- A context may hold a slash, which the unescaping reports.
        if status ≠ OK ∧ (key ≠ ascii "Context" ∨ status ≠ HTTP_NOT_FOUND) then .error status
        else (parseArgs u fuel ((after (ch '&') rest).getD [])).map (⟨key, raw, (u.run raw).1⟩ :: ·)

/-- The bytes of the copied query that a parameter takes. -/
def Param.mem (p : Param) : Mem := p.key ++ [0] ++ write (p.raw ++ [0]) 0 (p.val ++ [0])

/-- The copy of the query once it is parsed, and the memory `behind` it. -/
def argsMem (args : Str) (params : List Param) (behind : Mem) : Mem :=
  params.flatMap Param.mem ++ (if args.getLast? = some (ch '&') then [0] else []) ++ behind

/-- An entry of an `apr_table_t`, by the offsets of its key and its value. -/
structure Entry where
  key : Nat
  val : Nat
deriving DecidableEq

def paramEntries (pos : Nat) : List Param → List Entry
  | [] => []
  | p :: rest => ⟨pos, pos + p.key.length + 1⟩ :: paramEntries (pos + p.mem.length) rest

def aprTableSetn (mem : Mem) : List Entry → Entry → List Entry
  | [], e => [e]
  | x :: rest, e =>
    if caseEq (strAt mem x.key) (strAt mem e.key) then { x with val := e.val } :: rest
    else x :: aprTableSetn mem rest e

def aprTableGet (mem : Mem) (entries : List Entry) (key : Str) : Option Str :=
  (entries.find? fun e => caseEq (strAt mem e.key) key).map fun e => strAt mem e.val

/-! ## Commands of the page -/

/-- The command that `process_appl` knows by this name. -/
def applStatus (cmd : Str) : Option ContextStatus :=
  if caseEq cmd (ascii "ENABLE-APP") then some .enabled
  else if caseEq cmd (ascii "DISABLE-APP") then some .disabled
  else if caseEq cmd (ascii "STOP-APP") then some .stopped
  else if caseEq cmd (ascii "REMOVE-APP") then some .remove
  else none

/-- What `process_context_alias` leaves of the message, also when it fails. -/
def contextAliasMem (key val : Nat) (mem : Mem) : Mem :=
  if caseEq (strAt mem key) (ascii "Alias") then
    let mem := write mem val (lower (strAt mem val))
    putNuls mem (parseListToArrayWithChecks mem val HOSTALIASZ).nuls
  else if caseEq (strAt mem key) (ascii "Context") then
    putNuls mem (parseListToArrayWithChecks mem val CONTEXTSZ).nuls
  else mem

/-- What the fields of an application command leave of the message. -/
def fieldsMem (httpd : Httpd) : List Nat → Mem → Mem
  | [], mem => mem
  | [_], mem => mem
  | key :: val :: rest, mem =>
    if caseEq (strAt mem key) (ascii "JVMRoute") ∧ (strAt mem val).length ≥ httpd.routeSize then mem
    else match processContextAlias key val { mem := mem, contexts := [], aliases := [] } with
      | .ok _ => fieldsMem httpd rest (contextAliasMem key val mem)
      | .error _ => contextAliasMem key val mem

/-- The message with a JVMRoute behind it. -/
def withRoute (argv : Argv) (route : Str) : Argv where
  mem := argv.mem ++ (ascii "JVMRoute" ++ [0] ++ (route ++ [0]))
  ptr := argv.ptr ++ [argv.mem.length, argv.mem.length + 9]

/-- What a walk over the nodes of a domain has come to. -/
structure Walk where
  tables : Tables
  mem : Mem
  /-- Of the last node. -/
  outcome : Outcome
deriving DecidableEq

/-- `process_appl` for one node of the domain. -/
def domainNode (httpd : Httpd) (now : Int) (filename : Str) (cmd : Option ContextStatus) (ptr : List Nat)
    (w : Walk) (route : Str) : Walk :=
  match cmd with
  | none => w
  | some cmd =>
    let argv := withRoute { mem := w.mem, ptr := ptr } route
    let r := processAppCmd httpd now w.tables filename argv cmd
    { tables := r.tables
      mem := (fieldsMem httpd argv.ptr argv.mem).take w.mem.length
      outcome := r.outcome }

def processDomain (httpd : Httpd) (now : Int) (filename : Str) (cmd : Option ContextStatus) (ptr : List Nat)
    (domain : Option Str) : List Int → Walk → Walk
  | [], w => w
  | id :: ids, w =>
    match getNode w.tables.nodes id with
    | none => processDomain httpd now filename cmd ptr domain ids w
    | some i =>
      match domain with
      -- A NULL is compared.
      | none => { w with outcome := .undefined }
      | some d =>
        if (w.tables.nodes.peek i).mess.domain ≠ d then processDomain httpd now filename cmd ptr domain ids w
        else
          processDomain httpd now filename cmd ptr domain ids
            (domainNode httpd now filename cmd ptr w (w.tables.nodes.peek i).mess.jvmRoute)

/-! ## The page -/

/-- Text that stands for itself in a query and in the body of a message. -/
def Plain (s : Str) : Prop := ∀ b ∈ s, b ≠ 0 ∧ b ≠ ch '%' ∧ b ≠ ch '&' ∧ b ≠ ch '='

instance (s : Str) : Decidable (Plain s) := List.decidableBAll _ s

/-- The part of `mod_manager_config` the page reads, and the nonce, a formatted UUID. -/
structure PageConf where
  nonce : Bool
  balancerNonce : Str
  plain : Plain balancerNonce
  allowCmd : Bool

inductive Range where
  | context
  | node
  | domain
deriving DecidableEq

def rangeOf (range : Str) : Range :=
  if caseEq range (ascii "NODE") then .node
  else if caseEq range (ascii "DOMAIN") then .domain
  else .context

structure PageResult where
  tables : Tables
  /-- The status of a page that was refused. -/
  status : Nat
  /-- How the command went, when there was one. -/
  outcome : Option Outcome
deriving DecidableEq

def processParams (httpd : Httpd) (conf : PageConf) (now : Int) (ts : Tables) (filename : Str) (mem : Mem)
    (params : List Entry) : Tables × Option Outcome :=
  match aprTableGet mem params (ascii "Cmd") with
  | none => (ts, none)
  | some cmd =>
    if caseEq cmd (ascii "DUMP") ∨ caseEq cmd (ascii "INFO") then (ts, none)
    else match aprTableGet mem params (ascii "Range") with
      | none => (ts, none)
      | some range =>
        if !conf.allowCmd then (ts, none)
        else
          let ptr := params.flatMap fun e => [e.key, e.val]
          match rangeOf range with
          | .domain =>
            if ts.nodes.size = 0 then (ts, none)
            else
              let w := processDomain httpd now filename (applStatus cmd) ptr
                (aprTableGet mem params (ascii "Domain")) (getIdsUsedNode ts.nodes)
                { tables := ts, mem := mem, outcome := .done }
              (w.tables, some w.outcome)
          -- For both a command is wildcard when the file name says so.
          | _ =>
            match applStatus cmd with
            | none => (ts, some (.failed .scmduns))
            | some cmd =>
              let r := processAppCmd httpd now ts filename { mem := mem, ptr := ptr } cmd
              (r.tables, some r.outcome)

def managerInfo (httpd : Httpd) (u : Unescaper) (conf : PageConf) (now : Int) (ts : Tables) (filename : Str)
    (args : Option Str) (behind : Mem) : PageResult :=
  match args with
  | none => { tables := ts, status := OK, outcome := none }
  | some args =>
    match parseArgs u (args.length + 1) args with
    | .error status => { tables := ts, status := status, outcome := none }
    | .ok params =>
      let mem := argsMem args params behind
      let entries := (paramEntries 0 params).foldl (aprTableSetn mem) []
      let entries :=
        if conf.nonce ∧ aprTableGet mem entries (ascii "nonce") ≠ some conf.balancerNonce then [] else entries
      let r := processParams httpd conf now ts filename mem entries
      { tables := r.1, status := OK, outcome := r.2 }

end ModCluster
