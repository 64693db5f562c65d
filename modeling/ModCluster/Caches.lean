import ModCluster.Version
import ModCluster.WorkerUpdate

/-!
# The tick of a child

A tick of `proxy_cluster_watchdog_func` reads the version without the lock, gets a
node table under the lock, updates the workers from it and records the version. With
`CacheShareFor` the table is the one in the cache, which is filled again when it is old
enough. Between these steps the tables change in any way the other processes change
them.
-/

open CString Slotmem Slotmem.Table

namespace ModCluster

/-! ## A child -/

/-- The cached tables. -/
structure Cache where
  vhosts : List Hostinfo
  contexts : List Contextinfo
  nodes : List NodeEntry

def readVhostTable (ts : Tables) : List Hostinfo :=
  (getIdsUsedHost ts.hosts).map fun id => ((getHost ts.hosts id).map ts.hosts.peek).getD default

def readContextTable (ts : Tables) : List Contextinfo :=
  (getIdsUsedContext ts.contexts).map fun id => ((getContext ts.contexts id).map ts.contexts.peek).getD default

def readCache (ts : Tables) : Cache := ⟨readVhostTable ts, readContextTable ts, readNodeTable ts⟩

/-- Where a tick is. -/
inductive Tick where
  | idle
  | began (last : Nat)
  | walking (last : Nat) (nodeTable : List NodeEntry)
deriving DecidableEq

structure Child where
  tableversion : Nat
  lastCached : Int
  cache : Cache
  /-- The version when the cache was filled. No part of the program. -/
  filled : Nat
  tick : Tick

/-- `loc_worker_nodes_need_update`. The version is cut to an `unsigned`. -/
def needUpdate (ts : Tables) (tableversion : Nat) : Nat :=
  if ts.nodes.size = 0 then 0
  else
    let last := ts.version % 2 ^ 32
    if last ≠ tableversion then last else 0

/-- The child that `proxy_cluster_child_init` leaves. -/
def Child.init (ts : Tables) : Child where
  tableversion := 0
  lastCached := 0
  cache := readCache ts
  filled := ts.version
  tick := .idle

/-- The cache is old enough to be filled again. -/
def Child.due (c : Child) (cacheShareFor now : Int) : Prop := now ≥ c.lastCached + cacheShareFor

instance (c : Child) (cacheShareFor now : Int) : Decidable (c.due cacheShareFor now) :=
  inferInstanceAs (Decidable (_ ≥ _))

/-- The node table of the tick. -/
def Child.fill (cacheShareFor now : Int) (ts : Tables) (last : Nat) (c : Child) : Child :=
  if cacheShareFor = 0 then { c with tick := .walking last (readNodeTable ts) }
  else if c.due cacheShareFor now then
    { c with
      lastCached := now
      cache := readCache ts
      filled := ts.version
      tick := .walking last (readNodeTable ts) }
  else { c with tick := .walking last c.cache.nodes }

/-! ## Steps -/

/-- Commits that still stand, with the version that each of them led to. -/
abbrev Commits := List (Str × Nat)

structure Shared where
  tables : Tables
  child : Child
  commits : Commits

def routeUsed (ts : Tables) (route : Str) : Bool := ts.nodes.records.any fun n => n.mess.jvmRoute == route

/-- The nodes that are gone are dropped. -/
def standing (ts : Tables) (commits : Commits) : Commits := commits.filter fun c => routeUsed ts c.1

/-- The commit that a CONFIG makes. -/
def committed (httpd : Httpd) (mconf : Mconf) (argv : Argv) (ts ts' : Tables) : Commits :=
  match parseConfig httpd mconf argv with
  | .ok args => if ts'.version = ts.version then [] else [(args.node.mess.jvmRoute, ts'.version)]
  | .error _ => []

def Shared.update (s : Shared) (ts : Tables) (new : Commits) : Shared :=
  { s with tables := ts, commits := standing ts (s.commits ++ new) }

def Shared.start (sz : Sizes) : Shared := ⟨emptyTables sz, Child.init (emptyTables sz), []⟩

/-- A step that changes the tables, with the commit it makes. The `announced` ones do not
change behind the version's back what is cached. -/
inductive TableStep (httpd : Httpd) (announced : Prop) (ts : Tables) : Tables → Commits → Prop
  | config (mconf : Mconf) (now : Int) (px : Option Proxy) (argv : Argv)
      (hfits : announced → RenameFits httpd mconf ts px argv)
      (hrun : announced → (processConfig httpd mconf now ts px argv).outcome ≠ .aborted) :
      TableStep httpd announced ts (processConfig httpd mconf now ts px argv).tables
        (committed httpd mconf argv ts (processConfig httpd mconf now ts px argv).tables)
  | app (now : Int) (filename : Str) (argv : Argv) (cmd : ContextStatus) :
      TableStep httpd announced ts (processAppCmd httpd now ts filename argv cmd).tables []
  | watchdog (wait now : Int) (hdue : announced → ∀ i n, ts.nodes.used i = some n → ¬ RemovalDue wait now n) :
      TableStep httpd announced ts (removeRemovedNode httpd wait now ts) []
  | lbWatchdog (wait now : Int) (nodeTable : List Int)
      (hdue : announced → ∀ id ∈ nodeTable, ¬ LbRemovalDue wait now ts id) :
      TableStep httpd announced ts (lbRemoveRemovedNode wait now nodeTable ts) []
  | bookkeeping (i : Nat) (a n : Nodeinfo) (hused : ts.nodes.used i = some a) (hkeep : Bookkeeping a n)
      (hremove : announced → n.mess.remove = a.mess.remove) :
      TableStep httpd announced ts { ts with nodes := ts.nodes.poke i n } []

/-- A step of the child's tick. A `timely` one does not take a table from the cache that is
older than the version it has read. -/
inductive TickStep (cacheShareFor : Int) (timely : Prop) (ts : Tables) (c : Child) : Child → Prop
  | begins (hidle : c.tick = .idle) (hneed : needUpdate ts c.tableversion ≠ 0) :
      TickStep cacheShareFor timely ts c { c with tick := .began (needUpdate ts c.tableversion) }
  | fills (now : Int) (last : Nat) (htick : c.tick = .began last)
      (htimely : timely → cacheShareFor = 0 ∨ c.due cacheShareFor now ∨ last ≤ c.filled) :
      TickStep cacheShareFor timely ts c (c.fill cacheShareFor now ts last)
  | records (last : Nat) (nodeTable : List NodeEntry) (htick : c.tick = .walking last nodeTable) :
      TickStep cacheShareFor timely ts c { c with tableversion := last, tick := .idle }
  /-- The child is stopping. -/
  | stops : TickStep cacheShareFor timely ts c { c with tick := .idle }

inductive SharedStep (httpd : Httpd) (cacheShareFor : Int) (announced timely : Prop) : Shared → Shared → Prop
  | tables {s : Shared} {ts : Tables} {new : Commits} (h : TableStep httpd announced s.tables ts new) :
      SharedStep httpd cacheShareFor announced timely s (s.update ts new)
  | tick {s : Shared} {c : Child} (h : TickStep cacheShareFor timely s.tables s.child c) :
      SharedStep httpd cacheShareFor announced timely s { s with child := c }
  /-- A new child takes the place of the one we look at. -/
  | childInit {s : Shared} : SharedStep httpd cacheShareFor announced timely s { s with child := Child.init s.tables }

def SharedRun (httpd : Httpd) (cacheShareFor : Int) (announced timely : Prop) : Shared → Shared → Prop :=
  Relation.ReflTransGen (SharedStep httpd cacheShareFor announced timely)

/-! ## What a step does to the tables -/

section Tables

variable {httpd : Httpd} {announced : Prop} {ts ts' : Tables} {new : Commits}

structure Updated (announced : Prop) (ts ts' : Tables) (new : Commits) : Prop where
  edits : Edits False ts ts'
  version : ts.version ≤ ts'.version
  commits : ∀ c ∈ new, ts.version < c.2
  shown : announced → SameShown ts ts' ∨ ts.version < ts'.version

theorem committed_new {mconf : Mconf} {argv : Argv} (hversion : ts.version ≤ ts'.version) :
    ∀ c ∈ committed httpd mconf argv ts ts', ts.version < c.2 := by
  intro c hc
  unfold committed at hc
  split at hc
  · split at hc
    · cases hc
    · rw [List.mem_singleton.1 hc]
      show ts.version < ts'.version
      omega
  · cases hc

theorem TableStep.updated (h : TableStep httpd announced ts ts' new) (hok : IdsOk ts) :
    Updated announced ts ts' new := by
  cases h with
  | config mconf now px argv hfits hrun =>
    have hversion := processConfig_version httpd mconf now ts px argv
    have hle : ts.version ≤ (processConfig httpd mconf now ts px argv).tables.version := by omega
    refine ⟨processConfig_edits httpd mconf now px argv hok fun h => h.elim, hle, committed_new hle, fun hann => ?_⟩
    rcases processConfig_announced hok (hfits hann) (hrun hann) with hsame | hcount
    · exact Or.inl hsame
    · exact Or.inr (by omega)
  | app now filename argv cmd =>
    have hedits : Edits False ts (processAppCmd httpd now ts filename argv cmd).tables :=
      processAppCmd_edits httpd now filename argv cmd hok nofun
    rcases processAppCmd_version httpd now ts filename argv cmd with hsame | hcount
    · rw [hsame] at hedits ⊢
      exact ⟨hedits, Nat.le_refl _, nofun, fun _ => Or.inl SameShown.refl⟩
    · exact ⟨hedits, by omega, nofun, fun _ => Or.inr (by omega)⟩
  | watchdog wait now hdue =>
    refine ⟨removeRemovedNode_edits httpd wait now hok nofun, ?_, nofun, fun hann => ?_⟩
    · exact Nat.le_of_eq (removeRemovedLoop_version _ _).symm
    · exact Or.inl (removeRemovedNode_shown hok (hdue hann))
  | lbWatchdog wait now nodeTable hdue =>
    refine ⟨lbRemoveRemovedNode_edits wait now nodeTable hok nofun, ?_, nofun, fun hann => ?_⟩
    · exact Nat.le_of_eq (lbRemoveRemovedNode_version _ _).symm
    · rw [lbRemoveRemovedNode_quiet _ (hdue hann)]
      exact Or.inl SameShown.refl
  | bookkeeping i a n hused hkeep hremove =>
    refine ⟨(@Step.bookkeeping httpd False ts i a n hused hkeep).edits hok nofun, Nat.le_refl _, nofun,
      fun hann => Or.inl (poke_shown hused ?_)⟩
    unfold Nodeinfo.shown
    rw [hkeep.id, hkeep.jvmRoute, hremove hann]

end Tables

/-! ## What is read -/

section Read

variable {ts ts' : Tables}

theorem readVhostTable_eq (hok : IdsOk ts) : readVhostTable ts = ts.hosts.records := by
  unfold readVhostTable
  rw [getIdsUsedHost_eq]
  exact read_ids hok.hosts

theorem readContextTable_eq (hok : IdsOk ts) : readContextTable ts = ts.contexts.records := by
  unfold readContextTable
  rw [getIdsUsedContext_eq]
  exact read_ids hok.contexts

theorem readNodeTable_eq (hok : IdsOk ts) : (readNodeTable ts).map (·.info) = ts.nodes.records := by
  rw [← read_ids hok.nodes, ← getIdsUsedNode_eq, readNodeTable, List.map_map]
  refine List.map_congr_left fun id _ => ?_
  rw [Function.comp_apply, ← getNode]
  cases getNode ts.nodes id <;> rfl

/-- The cached tables show what the shared ones show. -/
structure Coherent (cache : Cache) (ts : Tables) : Prop where
  hosts : cache.vhosts.map Hostinfo.shown = ts.hosts.records.map Hostinfo.shown
  contexts : cache.contexts.map Contextinfo.shown = ts.contexts.records.map Contextinfo.shown
  nodes : cache.nodes.map (·.info.shown) = ts.nodes.records.map Nodeinfo.shown

theorem coherent_read (hok : IdsOk ts) : Coherent (readCache ts) ts where
  hosts := congrArg _ (readVhostTable_eq hok)
  contexts := congrArg _ (readContextTable_eq hok)
  nodes := by
    rw [← readNodeTable_eq hok, List.map_map]
    rfl

theorem Coherent.same {cache : Cache} (h : Coherent cache ts) (hsame : SameShown ts ts') : Coherent cache ts' where
  hosts := by rw [h.hosts, records_view, records_view, hsame.hosts]
  contexts := by rw [h.contexts, records_view, records_view, hsame.contexts]
  nodes := by rw [h.nodes, records_view, records_view, hsame.nodes]

theorem readNodeTable_route (hok : IdsOk ts) {route : Str} (h : routeUsed ts route = true) :
    ∃ e ∈ readNodeTable ts, e.info.mess.jvmRoute = route := by
  rw [routeUsed, ← readNodeTable_eq hok, List.any_map, List.any_eq_true] at h
  obtain ⟨e, he, hroute⟩ := h
  exact ⟨e, he, by simpa using hroute⟩

end Read

/-! ## The recorded version and the cache -/

section Runs

variable {httpd : Httpd} {cacheShareFor : Int} {s s' : Shared}

/-- What the cache shows, as long as nothing changes behind the version's back. -/
structure Cached (s : Shared) : Prop where
  idsOk : IdsOk s.tables
  filled : s.child.filled ≤ s.tables.version
  coherent : s.child.filled = s.tables.version → Coherent s.child.cache s.tables
  recorded : s.child.tableversion ≤ s.child.filled
  began : ∀ last, s.child.tick = .began last → last ≤ s.tables.version
  walking : ∀ last table, s.child.tick = .walking last table → last ≤ s.child.filled

theorem Cached.init {ts : Tables} {commits : Commits} (hok : IdsOk ts) : Cached ⟨ts, Child.init ts, commits⟩ where
  idsOk := hok
  filled := Nat.le_refl _
  coherent _ := coherent_read hok
  recorded := Nat.zero_le _
  began := nofun
  walking := nofun

theorem Cached.tables {ts : Tables} {new : Commits} (h : Cached s) (hup : Updated True s.tables ts new) :
    Cached (s.update ts new) where
  idsOk := hup.edits.idsOk h.idsOk
  filled := Nat.le_trans h.filled hup.version
  coherent heq := by
    have hfilled : s.child.filled = ts.version := heq
    have hle := h.filled
    have hversion := hup.version
    rcases hup.shown trivial with hsame | hcount
    · exact (h.coherent (by omega)).same hsame
    · omega
  recorded := h.recorded
  began last htick := Nat.le_trans (h.began last htick) hup.version
  walking := h.walking

theorem needUpdate_le (ts : Tables) (tableversion : Nat) : needUpdate ts tableversion ≤ ts.version := by
  unfold needUpdate
  split
  · exact Nat.zero_le _
  simp only
  split
  · exact Nat.mod_le _ _
  · exact Nat.zero_le _

theorem Cached.tick {c : Child} (hshare : cacheShareFor ≠ 0) (h : Cached s)
    (hstep : TickStep cacheShareFor True s.tables s.child c) : Cached { s with child := c } := by
  cases hstep with
  | begins hidle hneed =>
    refine ⟨h.idsOk, h.filled, h.coherent, h.recorded, fun last htick => ?_, nofun⟩
    rw [← Tick.began.inj htick]
    exact needUpdate_le _ _
  | fills now last htick htimely =>
    have hlast := h.began last htick
    unfold Child.fill
    rw [if_neg hshare]
    split
    · refine ⟨h.idsOk, Nat.le_refl _, fun _ => coherent_read h.idsOk, Nat.le_trans h.recorded h.filled, nofun, ?_⟩
      intro last' table htick'
      rw [← (Tick.walking.inj htick').1]
      exact hlast
    · rename_i hdue
      refine ⟨h.idsOk, h.filled, h.coherent, h.recorded, nofun, fun last' table htick' => ?_⟩
      rw [← (Tick.walking.inj htick').1]
      exact ((htimely trivial).resolve_left hshare).resolve_left hdue
  | records last table htick =>
    exact ⟨h.idsOk, h.filled, h.coherent, h.walking last table htick, nofun, nofun⟩
  | stops => exact ⟨h.idsOk, h.filled, h.coherent, h.recorded, nofun, nofun⟩

theorem Cached.run (hshare : cacheShareFor ≠ 0) (h : Cached s) (hrun : SharedRun httpd cacheShareFor True True s s') :
    Cached s' := by
  induction hrun with
  | refl => exact h
  | tail _ hstep ih =>
    cases hstep with
    | tables hts => exact ih.tables (hts.updated ih.idsOk)
    | tick htick => exact ih.tick hshare htick
    | childInit => exact Cached.init ih.idsOk

/-! ## Runs of one child -/

def Shared.config (s : Shared) (argv : Argv) : Shared :=
  s.update (processConfig plainHttpd Mconf.default 0 s.tables none argv).tables
    (committed plainHttpd Mconf.default argv s.tables
      (processConfig plainHttpd Mconf.default 0 s.tables none argv).tables)

def Shared.removeApp (s : Shared) (argv : Argv) : Shared :=
  s.update (processAppCmd plainHttpd 0 s.tables NODE_COMMAND argv .remove).tables []

def Shared.watchdog (s : Shared) (wait now : Int) : Shared :=
  s.update (removeRemovedNode plainHttpd wait now s.tables) []

/-- A tick up to the table it walks. -/
def Shared.fetch (s : Shared) (cacheShareFor now : Int) : Shared :=
  { s with
    child := Child.fill cacheShareFor now s.tables (needUpdate s.tables s.child.tableversion)
      { s.child with tick := .began (needUpdate s.tables s.child.tableversion) } }

/-- A whole tick. -/
def Shared.walk (s : Shared) (cacheShareFor now : Int) : Shared :=
  { s.fetch cacheShareFor now with
    child := { (s.fetch cacheShareFor now).child with
      tableversion := needUpdate s.tables s.child.tableversion
      tick := .idle } }

theorem Shared.config_run {announced timely : Prop} (argv : Argv)
    (hroom : ∃ j, j < s.tables.balancers.size ∧ s.tables.balancers.used j = none)
    (hrun : (processConfig plainHttpd Mconf.default 0 s.tables none argv).outcome ≠ .aborted) :
    SharedRun plainHttpd cacheShareFor announced timely s (s.config argv) := by
  refine Relation.ReflTransGen.single (SharedStep.tables ?_)
  exact TableStep.config Mconf.default 0 none argv (fun _ _ _ _ _ => Or.inr hroom) fun _ => hrun

theorem Shared.fetch_run {announced timely : Prop} {now : Int} (hidle : s.child.tick = .idle)
    (hneed : needUpdate s.tables s.child.tableversion ≠ 0)
    (htimely : timely → s.child.due cacheShareFor now) :
    SharedRun httpd cacheShareFor announced timely s (s.fetch cacheShareFor now) := by
  refine (Relation.ReflTransGen.single (SharedStep.tick (TickStep.begins hidle hneed))).tail ?_
  refine SharedStep.tick (TickStep.fills now _ rfl fun ht => Or.inr (Or.inl ?_))
  exact htimely ht

theorem Child.fill_tick (cacheShareFor now : Int) (ts : Tables) (last : Nat) (c : Child) :
    ∃ table, (c.fill cacheShareFor now ts last).tick = .walking last table := by
  unfold Child.fill
  split
  · exact ⟨_, rfl⟩
  split
  · exact ⟨_, rfl⟩
  · exact ⟨_, rfl⟩

theorem Shared.walk_run {announced timely : Prop} {now : Int} (hidle : s.child.tick = .idle)
    (hneed : needUpdate s.tables s.child.tableversion ≠ 0) (htimely : timely → s.child.due cacheShareFor now) :
    SharedRun httpd cacheShareFor announced timely s (s.walk cacheShareFor now) := by
  obtain ⟨table, htick⟩ := Child.fill_tick cacheShareFor now s.tables _
    { s.child with tick := .began (needUpdate s.tables s.child.tableversion) }
  exact (Shared.fetch_run hidle hneed htimely).tail (SharedStep.tick (TickStep.records _ table htick))

def joinArgv (route port : Str) : Argv := Argv.ofTokens [ascii "JVMRoute", route, ascii "Port", port]

/-- A child that has walked the table with the node. -/
def cachedOnce : Shared := ((Shared.start ⟨2, 1, 1, 2, 1⟩).config (joinArgv (ascii "node1") (ascii "8009"))).walk 10 100

/-- A child that is about to read the node. -/
def registeredOnce : Shared := (Shared.start ⟨2, 1, 1, 2, 1⟩).config (joinArgv (ascii "node1") (ascii "8009"))

theorem cachedOnce_facts :
    (processConfig plainHttpd Mconf.default 0 (Shared.start ⟨2, 1, 1, 2, 1⟩).tables none
        (joinArgv (ascii "node1") (ascii "8009"))).outcome ≠ .aborted ∧
      needUpdate registeredOnce.tables registeredOnce.child.tableversion ≠ 0 ∧
      registeredOnce.commits = [(ascii "node1", 1)] ∧
      cachedOnce.child.cache.nodes.length = 1 ∧ cachedOnce.tables.version < 2 ^ 32 ∧
      cachedOnce.child.tableversion = cachedOnce.tables.version % 2 ^ 32 := by
  decide +kernel

theorem registeredOnce_run (announced timely : Prop) :
    SharedRun plainHttpd 10 announced timely (Shared.start ⟨2, 1, 1, 2, 1⟩) registeredOnce :=
  Shared.config_run (joinArgv (ascii "node1") (ascii "8009")) ⟨0, by decide, by decide⟩ cachedOnce_facts.1

theorem cachedOnce_run (announced timely : Prop) :
    SharedRun plainHttpd 10 announced timely (Shared.start ⟨2, 1, 1, 2, 1⟩) cachedOnce := by
  refine (registeredOnce_run announced timely).trans (Shared.walk_run rfl cachedOnce_facts.2.1 fun _ => ?_)
  show (100 : Int) ≥ 0 + 10
  decide

/-- A child that has recorded the current version has the current tables in its cache. -/
theorem recorded_coherent (httpd : Httpd) (cacheShareFor : Int) (hshare : cacheShareFor ≠ 0) (sz : Sizes) (s : Shared)
    (hrun : SharedRun httpd cacheShareFor True True (Shared.start sz) s) (hcount : s.tables.version < 2 ^ 32)
    (hrecorded : s.child.tableversion = s.tables.version % 2 ^ 32) : Coherent s.child.cache s.tables := by
  have h := Cached.run hshare (Cached.init (idsOk_empty sz)) hrun
  have hle := h.filled
  have hrec := h.recorded
  rw [Nat.mod_eq_of_lt hcount] at hrecorded
  exact h.coherent (by omega)

theorem recorded_coherent_cachedOnce :
    cachedOnce.child.cache.nodes.length = 1 ∧ Coherent cachedOnce.child.cache cachedOnce.tables :=
  ⟨cachedOnce_facts.2.2.2.1,
    recorded_coherent plainHttpd 10 (by decide) ⟨2, 1, 1, 2, 1⟩ cachedOnce (cachedOnce_run True True)
      cachedOnce_facts.2.2.2.2.1 cachedOnce_facts.2.2.2.2.2⟩

/-- The node has left, and the child has walked over it. -/
def leftOnce : Shared := cachedOnce.removeApp (joinArgv (ascii "node1") (ascii "8009"))

theorem leftOnce_facts :
    needUpdate leftOnce.tables leftOnce.child.tableversion ≠ 0 ∧
      ((leftOnce.walk 10 200).watchdog 10 300).child.tableversion =
        ((leftOnce.walk 10 200).watchdog 10 300).tables.version % 2 ^ 32 ∧
      (((leftOnce.walk 10 200).watchdog 10 300).child.cache.nodes.map (·.info.shown)).map (fun n => n.2.1) ≠
        (((leftOnce.walk 10 200).watchdog 10 300).tables.nodes.records.map Nodeinfo.shown).map (fun n => n.2.1) := by
  decide +kernel

/-- The walk that gives the node's name up is not counted. -/
theorem not_recorded_coherent :
    ∃ s, SharedRun plainHttpd 10 False True (Shared.start ⟨2, 1, 1, 2, 1⟩) s ∧
      s.child.tableversion = s.tables.version % 2 ^ 32 ∧ ¬ Coherent s.child.cache s.tables := by
  obtain ⟨hneed, hrecorded, hroutes⟩ := leftOnce_facts
  refine ⟨(leftOnce.walk 10 200).watchdog 10 300, ?_, hrecorded, fun h => ?_⟩
  · have hremove : SharedRun plainHttpd 10 False True cachedOnce leftOnce :=
      Relation.ReflTransGen.single (SharedStep.tables (TableStep.app 0 NODE_COMMAND _ .remove))
    have hwalk : SharedRun plainHttpd 10 False True leftOnce (leftOnce.walk 10 200) := by
      refine Shared.walk_run rfl hneed fun _ => ?_
      show (200 : Int) ≥ 100 + 10
      decide
    refine (((cachedOnce_run False True).trans hremove).trans hwalk).tail ?_
    exact SharedStep.tables (TableStep.watchdog 10 300 nofun)
  · exact hroutes (congrArg (List.map fun n => n.2.1) h.nodes)

/-! ## What a tick walks -/

/-- Every commit up to a version is in the table. -/
def Holds (commits : Commits) (last : Nat) (table : List NodeEntry) : Prop :=
  ∀ c ∈ commits, c.2 ≤ last → ∃ e ∈ table, e.info.mess.jvmRoute = c.1

structure Walked (s : Shared) : Prop where
  idsOk : IdsOk s.tables
  used : ∀ c ∈ s.commits, routeUsed s.tables c.1 = true
  filled : s.child.filled ≤ s.tables.version
  cached : Holds s.commits s.child.filled s.child.cache.nodes
  began : ∀ last, s.child.tick = .began last → last ≤ s.tables.version
  walking : ∀ last table, s.child.tick = .walking last table → last ≤ s.tables.version ∧ Holds s.commits last table

theorem Walked.read (h : Walked s) (last : Nat) : Holds s.commits last (readNodeTable s.tables) :=
  fun c hc _ => readNodeTable_route h.idsOk (h.used c hc)

theorem Holds.update {last : Nat} {table : List NodeEntry} {ts : Tables} {new : Commits} {announced : Prop}
    (h : Holds s.commits last table) (hlast : last ≤ s.tables.version) (hup : Updated announced s.tables ts new) :
    Holds (s.update ts new).commits last table := by
  intro c hc hle
  have hmem : c ∈ s.commits ++ new := List.mem_of_mem_filter hc
  rcases List.mem_append.1 hmem with hold | hnew
  · exact h c hold hle
  · have hlater := hup.commits c hnew
    omega

theorem Walked.tables {ts : Tables} {new : Commits} {announced : Prop} (h : Walked s)
    (hup : Updated announced s.tables ts new) : Walked (s.update ts new) where
  idsOk := hup.edits.idsOk h.idsOk
  used c hc := (List.mem_filter.1 hc).2
  filled := Nat.le_trans h.filled hup.version
  cached := h.cached.update h.filled hup
  began last htick := Nat.le_trans (h.began last htick) hup.version
  walking last table htick := by
    obtain ⟨hlast, hholds⟩ := h.walking last table htick
    exact ⟨Nat.le_trans hlast hup.version, hholds.update hlast hup⟩

theorem Walked.tick {c : Child} (h : Walked s) (hstep : TickStep cacheShareFor True s.tables s.child c) :
    Walked { s with child := c } := by
  cases hstep with
  | begins hidle hneed =>
    refine ⟨h.idsOk, h.used, h.filled, h.cached, fun last htick => ?_, nofun⟩
    rw [← Tick.began.inj htick]
    exact needUpdate_le _ _
  | fills now last htick htimely =>
    have hlast := h.began last htick
    have hwalking {last' : Nat} {table table' : List NodeEntry} (hholds : Holds s.commits last table)
        (htick' : Tick.walking last table = .walking last' table') :
        last' ≤ s.tables.version ∧ Holds s.commits last' table' := by
      cases htick'
      exact ⟨hlast, hholds⟩
    unfold Child.fill
    split
    · exact ⟨h.idsOk, h.used, h.filled, h.cached, nofun, fun _ _ => hwalking (h.read last)⟩
    rename_i hshare
    split
    · exact ⟨h.idsOk, h.used, Nat.le_refl _, h.read _, nofun, fun _ _ => hwalking (h.read last)⟩
    · rename_i hdue
      have hfilled : last ≤ s.child.filled := ((htimely trivial).resolve_left hshare).resolve_left hdue
      have hholds : Holds s.commits last s.child.cache.nodes :=
        fun c hc hle => h.cached c hc (Nat.le_trans hle hfilled)
      exact ⟨h.idsOk, h.used, h.filled, h.cached, nofun, fun _ _ => hwalking hholds⟩
  | records last table htick => exact ⟨h.idsOk, h.used, h.filled, h.cached, nofun, nofun⟩
  | stops => exact ⟨h.idsOk, h.used, h.filled, h.cached, nofun, nofun⟩

theorem Walked.childInit (h : Walked s) : Walked { s with child := Child.init s.tables } :=
  ⟨h.idsOk, h.used, Nat.le_refl _, h.read _, nofun, nofun⟩

theorem Walked.run {announced : Prop} (h : Walked s) (hrun : SharedRun httpd cacheShareFor announced True s s') :
    Walked s' := by
  induction hrun with
  | refl => exact h
  | tail _ hstep ih =>
    cases hstep with
    | tables hts => exact ih.tables (hts.updated ih.idsOk)
    | tick htick => exact ih.tick htick
    | childInit => exact ih.childInit

/-- The table that a tick walks has every node that was committed up to the version it records. -/
theorem walked_commits (httpd : Httpd) (cacheShareFor : Int) (sz : Sizes) (s : Shared) (last : Nat)
    (table : List NodeEntry) (hrun : SharedRun httpd cacheShareFor False True (Shared.start sz) s)
    (htick : s.child.tick = .walking last table) : Holds s.commits last table := by
  have hstart : Walked (Shared.start sz) :=
    ⟨idsOk_empty sz, nofun, Nat.le_refl _, nofun, nofun, nofun⟩
  exact ((hstart.run hrun).walking last table htick).2

theorem walked_commits_fetched :
    ((Shared.start ⟨2, 1, 1, 2, 1⟩).config (joinArgv (ascii "node1") (ascii "8009"))).commits = [(ascii "node1", 1)] ∧
      ∃ e ∈ cachedOnce.child.cache.nodes, e.info.mess.jvmRoute = ascii "node1" := by
  have hdue : (100 : Int) ≥ 0 + 10 := by decide
  have hcommits := cachedOnce_facts.2.2.1
  have hrun : SharedRun plainHttpd 10 False True (Shared.start ⟨2, 1, 1, 2, 1⟩) (registeredOnce.fetch 10 100) :=
    (registeredOnce_run False True).trans (Shared.fetch_run rfl cachedOnce_facts.2.1 fun _ => hdue)
  have hmem : (ascii "node1", 1) ∈ (registeredOnce.fetch 10 100).commits := by
    show (ascii "node1", 1) ∈ registeredOnce.commits
    rw [hcommits]
    exact List.mem_cons_self
  exact ⟨hcommits, walked_commits plainHttpd 10 ⟨2, 1, 1, 2, 1⟩ _ 1 _ hrun (by decide +kernel) (ascii "node1", 1) hmem
    (Nat.le_refl _)⟩

/-- A new node, and the tick that finds the cache too young. -/
def cachedTwice : Shared := (cachedOnce.config (joinArgv (ascii "node2") (ascii "8010"))).fetch 10 101

theorem cachedTwice_facts :
    cachedTwice.child.tick = .walking 2 cachedOnce.child.cache.nodes ∧
      (1 < cachedOnce.tables.balancers.size ∧ cachedOnce.tables.balancers.used 1 = none) ∧
      (processConfig plainHttpd Mconf.default 0 cachedOnce.tables none
        (joinArgv (ascii "node2") (ascii "8010"))).outcome ≠ .aborted ∧
      needUpdate (cachedOnce.config (joinArgv (ascii "node2") (ascii "8010"))).tables
        (cachedOnce.config (joinArgv (ascii "node2") (ascii "8010"))).child.tableversion ≠ 0 ∧
      ¬ Holds cachedTwice.commits 2 cachedOnce.child.cache.nodes := by
  unfold Holds
  decide +kernel

theorem not_walked_commits :
    SharedRun plainHttpd 10 False False (Shared.start ⟨2, 1, 1, 2, 1⟩) cachedTwice ∧
      cachedTwice.child.tick = .walking 2 cachedOnce.child.cache.nodes ∧
      ¬ Holds cachedTwice.commits 2 cachedOnce.child.cache.nodes := by
  obtain ⟨htick, hroom, hrun, hneed, hlost⟩ := cachedTwice_facts
  refine ⟨?_, htick, hlost⟩
  have hjoin := @Shared.config_run 10 cachedOnce False False (joinArgv (ascii "node2") (ascii "8010")) ⟨1, hroom⟩ hrun
  exact ((cachedOnce_run False False).trans hjoin).trans (Shared.fetch_run rfl hneed nofun)

end Runs

end ModCluster
