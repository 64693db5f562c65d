import ModCluster.Batches
import ModCluster.Keys
import ModCluster.PageDomain

/-!
# What a wildcard command changes

`process_node_cmd` walks over the hosts of the node and, for each, over all contexts.
It gives up when the table of hosts has no slots. `manager_init` makes that table no
smaller than the table of nodes, so there is a slot whenever there is a node.
-/

open CString Slotmem Slotmem.Table

namespace ModCluster

/-- The sizes that `manager_init` creates the tables with, for what the directives ask. -/
def startSizes (maxnode maxhost maxcontext : Nat) : Sizes where
  nodes := maxnode
  hosts := max maxhost maxnode
  contexts := max maxcontext (max maxhost maxnode)
  balancers := max maxhost maxnode
  domains := maxnode

/-- The tables a server can come to from the ones it starts with. -/
def Served (httpd : Httpd) (ts : Tables) : Prop :=
  ∃ maxnode maxhost maxcontext,
    Relation.ReflTransGen (Step httpd False) (emptyTables (startSizes maxnode maxhost maxcontext)) ts

section Sizes

variable {httpd : Httpd} {strict : Prop} {ts ts' : Tables} {now : Int} {cmd : ContextStatus}

theorem Served.reachable (h : Served httpd ts) : Reachable httpd False ts := by
  obtain ⟨maxnode, maxhost, maxcontext, hruns⟩ := h
  exact ⟨_, hruns⟩

/-! ## The table of hosts keeps its size -/

theorem insertUpdateHost_size {m m' : Table Hostinfo} {host host' : Hostinfo}
    (h : insertUpdateHost now m host = some (m', host')) : m'.size = m.size := by
  rcases insertUpdateHost_cases h with ⟨i, a, -, -, rfl, -⟩ | ⟨i, -, -, -, rfl, -⟩
  · exact size_poke _ _ _
  · exact size_store _ _ _

theorem addAliases_size (id : Int) (contexts aliases : List Str) (vid : Int) (ts : Tables) :
    (addAliases now id contexts aliases vid ts).1.hosts.size = ts.hosts.size := by
  induction aliases generalizing vid ts with
  | nil => rfl
  | cons host rest ih =>
    unfold addAliases
    split
    · exact ih vid ts
    · rename_i hosts x hm
      exact (ih (vid + 1) _).trans (insertUpdateHost_size hm)

theorem processConfig_size (mconf : Mconf) (now : Int) (ts : Tables) (px : Option Proxy) (argv : Argv) :
    (processConfig httpd mconf now ts px argv).tables.hosts.size = ts.hosts.size := by
  unfold processConfig
  split
  · rfl
  split
  · rfl
  · rfl
  rename_i args _ _ plan _
  have hcommit := commitConfig_committed now ts px args plan
  generalize commitConfig now ts px args plan = r at hcommit ⊢
  cases hcommit with
  | noBalancer hb => rfl
  | noNode balancers b hb hn => rfl
  | aborted balancers b nodes nodeinfo id hb hn hp => rfl
  | stored balancers b nodes nodeinfo id ts₁ px₁ stored hb hn hp hr =>
    rw [hr]
    rw [addAliases_size]
    show ts₁.hosts.size = ts.hosts.size
    rw [pairWorker_hosts hp]

theorem appHost_size {node vid vid' : Int} {host : Str} {m m' : Table Hostinfo} {r : Option Nat}
    (h : appHost now cmd m node vid host = (r, m', vid')) : m'.size = m.size := by
  unfold appHost at h
  simp only at h
  split at h
  · cases h
    rfl
  · split at h
    · cases h
      rfl
    · split at h
      · cases h
        rfl
      · rename_i x hx
        cases h
        exact insertUpdateHost_size hx

theorem dropHosts_size (ts : Tables) (node vhost : Int) : (dropHosts ts node vhost).hosts.size = ts.hosts.size := by
  unfold dropHosts
  split
  · rfl
  · exact size_sweep _ _ _ _

theorem appAliases_size (node : Int) (contexts aliases : List Str) (vid : Int) (ts : Tables) :
    (appAliases now cmd node contexts aliases vid ts).1.hosts.size = ts.hosts.size := by
  induction aliases generalizing vid ts with
  | nil => rfl
  | cons host rest ih =>
    unfold appAliases
    split
    · rename_i hh
      exact (ih _ _).trans (appHost_size hh)
    · rename_i hh
      refine (ih _ _).trans ?_
      split
      · exact (dropHosts_size _ _ _).trans (appHost_size hh)
      · exact appHost_size hh

theorem processNodeCmd_size (ts : Tables) (i : Nat) : (processNodeCmd now cmd ts i).hosts.size = ts.hosts.size := by
  unfold processNodeCmd
  split
  · rfl
  · simp only
    split
    · exact nodeCmdHosts_size _ _
    · exact nodeCmdHosts_size _ _

theorem processAppCmd_size (ts : Tables) (filename : Str) (argv : Argv) :
    (processAppCmd httpd now ts filename argv cmd).tables.hosts.size = ts.hosts.size := by
  unfold processAppCmd
  simp only
  split
  · rfl
  · rfl
  split
  · rfl
  split
  · rfl
  split
  · exact processNodeCmd_size _ _
  · exact appAliases_size _ _ _ _ _

theorem locRemoveHostContext_size (node : Int) (ts : Tables) :
    (locRemoveHostContext node ts).hosts.size = ts.hosts.size := by
  unfold locRemoveHostContext
  split
  · rfl
  · exact size_sweep _ _ _ _

theorem removeRemovedStep_size (wait now : Int) (ts : Tables) (id : Int) :
    (removeRemovedStep httpd wait now ts id).1.hosts.size = ts.hosts.size := by
  unfold removeRemovedStep
  split
  · rfl
  simp only
  split
  · split
    · rfl
    · split
      · rfl
      · rfl
  · split
    · exact locRemoveHostContext_size _ _
    · rfl

theorem lbRemoveStep_size (wait now : Int) (ts : Tables) (id : Int) :
    (lbRemoveStep wait now ts id).hosts.size = ts.hosts.size := by
  unfold lbRemoveStep
  split
  · rfl
  simp only
  split
  · exact locRemoveHostContext_size _ _
  · rfl

theorem removeRemovedLoop_size (wait now : Int) (ids : List Int) (ts : Tables) :
    (removeRemovedLoop httpd wait now ids ts).hosts.size = ts.hosts.size := by
  induction ids generalizing ts with
  | nil => rfl
  | cons id ids ih => exact (ih _).trans (removeRemovedStep_size wait now ts id)

theorem lbRemoveRemovedNode_size (wait now : Int) (ids : List Int) (ts : Tables) :
    (lbRemoveRemovedNode wait now ids ts).hosts.size = ts.hosts.size := by
  induction ids generalizing ts with
  | nil => rfl
  | cons id ids ih => exact (ih _).trans (lbRemoveStep_size wait now ts id)

theorem Step.size_hosts (h : Step httpd strict ts ts') : ts'.hosts.size = ts.hosts.size := by
  cases h with
  | config mconf now px argv hroute => exact processConfig_size mconf now ts px argv
  | app now filename argv cmd hroute => exact processAppCmd_size ts filename argv
  | watchdog wait now => exact removeRemovedLoop_size wait now _ ts
  | lbWatchdog wait now nodeTable => exact lbRemoveRemovedNode_size wait now nodeTable ts
  | bookkeeping i a n hused hkeep => rfl

theorem Served.sizes (h : Served httpd ts) : ts.nodes.size ≤ ts.hosts.size := by
  obtain ⟨maxnode, maxhost, maxcontext, hruns⟩ := h
  suffices hinv : ts.nodes.size ≤ ts.hosts.size ∧ Reachable httpd False ts from hinv.1
  induction hruns with
  | refl =>
    refine ⟨?_, .empty _⟩
    simp only [emptyTables, startSizes, Table.empty, Table.size, List.length_replicate]
    exact le_max_right _ _
  | tail _ hstep ih =>
    obtain ⟨hle, hreach⟩ := ih
    refine ⟨?_, hreach.step hstep⟩
    rw [hstep.size_hosts, (hstep.edits hreach.idsOk False.elim).size_nodes]
    exact hle

end Sizes

/-! ## The walk -/

section Walk

variable {ts : Tables} {now : Int} {cmd : ContextStatus}

/-- What a command makes of a context it is for. -/
def commanded (now : Int) (cmd : ContextStatus) (c : Contextinfo) : Contextinfo :=
  { c with status := cmd, updatetime := aprTimeSec now }

theorem setStatus_stored {m : Table Contextinfo} {i : Nat} {c : Contextinfo} (hkeyed : m.Distinct Contextinfo.key)
    (hc : m.used i = some c) :
    insertUpdateContext now (m.poke i (setStatus c cmd)) (setStatus c cmd) =
      some (m.poke i (commanded now cmd c)) := by
  have hset := used_poke_self (setStatus c cmd) hc
  have hdistinct : (m.poke i (setStatus c cmd)).Distinct Contextinfo.key := hkeyed.poke hc rfl
  have hself : sameContext (setStatus c cmd) (setStatus c cmd) = true := Contextinfo.key_eq.1 rfl
  cases hput : insertUpdateContext now (m.poke i (setStatus c cmd)) (setStatus c cmd) with
  | none =>
    have hmiss := first_eq_none.1 (insertUpdateContext_eq_none.1 hput).1 i _ hset
    rw [hself] at hmiss
    cases hmiss
  | some m' =>
    rcases insertUpdateContext_cases hput with ⟨k, a, hfirst, ha, rfl⟩ | ⟨k, hfirst, -⟩
    · obtain ⟨a', ha', hsame, -⟩ := first_eq_some hfirst
      cases ha.symm.trans ha'
      have hk : i = k := hdistinct i k _ _ hset ha (Contextinfo.key_eq.2 hsame)
      subst hk
      cases hset.symm.trans ha
      rw [poke_poke]
      rfl
    · have hmiss := first_eq_none.1 hfirst i _ hset
      rw [hself] at hmiss
      cases hmiss

theorem nodeCmdContexts_used (hcmd : cmd ≠ .remove) (vhost node : Int) {m : Table Contextinfo} (ids : List Int)
    (hkeyed : m.Distinct Contextinfo.key) (hids : IdsUsed m ids) (j : Nat) :
    (nodeCmdContexts now cmd vhost node m ids).used j =
      (m.used j).map fun c =>
        if (j : Int) ∈ ids ∧ c.vhost = vhost ∧ c.node = node then commanded now cmd c else c := by
  induction ids generalizing m with
  | nil => simp [nodeCmdContexts]
  | cons id ids ih =>
    obtain ⟨i, c, hc, rfl⟩ := hids.used id (by simp)
    have hni : (i : Int) ∉ ids := (List.nodup_cons.1 hids.nodup).1
    have hd : getContext m (i : Int) = some i := dptr_ofNat (used_lt hc)
    simp only [nodeCmdContexts, hd, peek_of_used hc]
    by_cases hkey : c.vhost = vhost ∧ c.node = node
    · rw [if_pos hkey, if_pos hcmd, setStatus_stored hkeyed hc, Option.getD_some]
      have hsame : (commanded now cmd c).key = c.key := rfl
      rw [ih (hkeyed.poke hc hsame) (hids.tail.poke _ _)]
      by_cases hj : i = j
      · subst hj
        rw [used_poke_self _ hc, hc]
        simp [hni, hkey]
      · rw [used_poke_ne _ hj]
        simp [show (j : Int) ≠ i by omega]
    · rw [if_neg hkey, ih hkeyed hids.tail]
      by_cases hj : i = j
      · subst hj
        rw [hc]
        simp [hni, hkey]
      · simp [show (j : Int) ≠ i by omega]

/-- The vhosts of the node among the hosts with these ids. -/
def vhostsOf (m : Table Hostinfo) (node : Int) (ids : List Int) : List Int :=
  ids.filterMap fun id =>
    match getHost m id with
    | some i => if (m.peek i).node = node then some (m.peek i).vhost else none
    | none => none

theorem vhostsOf_free (m : Table Hostinfo) (i : Nat) (node : Int) (ids : List Int) :
    vhostsOf (m.setInuse i false) node ids = vhostsOf m node ids := by
  unfold vhostsOf getHost dptr
  simp only [size_setInuse, peek_setInuse]

theorem mem_vhostsOf {m : Table Hostinfo} {i : Nat} {x : Hostinfo} {node : Int} (hids : m.IdsMatch (·.id))
    (hx : m.used i = some x) (hnode : x.node = node) : x.vhost ∈ vhostsOf m node (getIdsUsedHost m) := by
  have hd : getHost m (i : Int) = some i := dptr_ofNat (used_lt hx)
  unfold vhostsOf
  rw [List.mem_filterMap]
  refine ⟨i, ?_, ?_⟩
  · rw [getIdsUsedHost_eq, mem_ids hids]
    exact ⟨i, x, hx, rfl⟩
  · simp only [hd, peek_of_used hx, if_pos hnode]

theorem nodeCmdHosts_used (hcmd : cmd ≠ .remove) {node : Int} (ids : List Int) (hok : IdsOk ts) (hkeyed : Keyed ts)
    (hids : IdsUsed ts.hosts ids) :
    (nodeCmdHosts now cmd node ts ids).hosts = ts.hosts ∧
      ∀ j, (nodeCmdHosts now cmd node ts ids).contexts.used j =
        (ts.contexts.used j).map fun c =>
          if c.node = node ∧ c.vhost ∈ vhostsOf ts.hosts node ids then commanded now cmd c else c := by
  induction ids generalizing ts with
  | nil => exact ⟨rfl, fun j => by simp [nodeCmdHosts, vhostsOf]⟩
  | cons id ids ih =>
    obtain ⟨i, x, hx, rfl⟩ := hids.used id (by simp)
    have hd : getHost ts.hosts (i : Int) = some i := dptr_ofNat (used_lt hx)
    simp only [nodeCmdHosts, hd, peek_of_used hx]
    by_cases hnode : x.node = node
    swap
    · have hvhosts : vhostsOf ts.hosts node ((i : Int) :: ids) = vhostsOf ts.hosts node ids := by
        unfold vhostsOf
        rw [List.filterMap_cons]
        simp only [hd, peek_of_used hx, if_neg hnode]
      rw [if_pos hnode, hvhosts]
      exact ih hok hkeyed hids.tail
    · have hvhosts : vhostsOf ts.hosts node ((i : Int) :: ids) = x.vhost :: vhostsOf ts.hosts node ids := by
        unfold vhostsOf
        rw [List.filterMap_cons]
        simp only [hd, peek_of_used hx, if_pos hnode]
      rw [if_neg (not_not_intro hnode), hvhosts]
      simp only [if_neg hcmd]
      have hall : IdsUsed ts.contexts (getIdsUsedContext ts.contexts) := by
        rw [getIdsUsedContext_eq]
        exact idsUsed_records hok.contexts
      have he : Edits False ts
          { ts with contexts := nodeCmdContexts now cmd x.vhost x.node ts.contexts (getIdsUsedContext ts.contexts) } :=
        nodeCmdContexts_edits hcmd _ hall ⟨i, x, hx, rfl, rfl⟩
      obtain ⟨hhosts, hused⟩ := ih (he.idsOk hok) (he.induct Edit.keyed hkeyed) hids.tail
      refine ⟨hhosts, fun j => ?_⟩
      rw [hused j]
      simp only
      rw [nodeCmdContexts_used hcmd _ _ _ hkeyed.contexts hall]
      cases hc : ts.contexts.used j with
      | none => rfl
      | some c =>
        have hj : (j : Int) ∈ getIdsUsedContext ts.contexts := by
          rw [getIdsUsedContext_eq, mem_ids hok.contexts]
          exact ⟨j, c, hc, rfl⟩
        -- Writing the status twice is writing it once.
        simp only [Option.map_some, hj, true_and, hnode, List.mem_cons]
        by_cases hkey : c.vhost = x.vhost ∧ c.node = node
        · have hboth : c.node = node ∧ (c.vhost = x.vhost ∨ c.vhost ∈ vhostsOf ts.hosts node ids) :=
            ⟨hkey.2, Or.inl hkey.1⟩
          rw [if_pos hkey, if_pos hboth]
          split
          · rfl
          · rfl
        · rw [if_neg hkey]
          by_cases hrest : c.node = node ∧ c.vhost ∈ vhostsOf ts.hosts node ids
          · rw [if_pos hrest, if_pos ⟨hrest.1, Or.inr hrest.2⟩]
          · rw [if_neg hrest, if_neg]
            rintro ⟨hn, hv | hv⟩
            · exact hkey ⟨hv, hn⟩
            · exact hrest ⟨hn, hv⟩

theorem nodeCmdHosts_removed {node : Int} (ids : List Int) (hok : IdsOk ts) (hids : IdsUsed ts.hosts ids) :
    (∀ j, (nodeCmdHosts now .remove node ts ids).hosts.used j =
      (ts.hosts.used j).filter fun x => !(x.node == node && decide ((j : Int) ∈ ids))) ∧
    ∀ j, (nodeCmdHosts now .remove node ts ids).contexts.used j =
      (ts.contexts.used j).filter fun c => !(c.node == node && decide (c.vhost ∈ vhostsOf ts.hosts node ids)) := by
  induction ids generalizing ts with
  | nil =>
    have hkeep {α : Type} (o : Option α) : o = o.filter fun _ => true := by cases o <;> rfl
    refine ⟨fun j => ?_, fun j => ?_⟩
    · simpa [nodeCmdHosts] using hkeep (ts.hosts.used j)
    · simpa [nodeCmdHosts, vhostsOf] using hkeep (ts.contexts.used j)
  | cons id ids ih =>
    obtain ⟨i, x, hx, rfl⟩ := hids.used id (by simp)
    have hd : getHost ts.hosts (i : Int) = some i := dptr_ofNat (used_lt hx)
    have hni : (i : Int) ∉ ids := (List.nodup_cons.1 hids.nodup).1
    simp only [nodeCmdHosts, hd, peek_of_used hx]
    by_cases hnode : x.node = node
    swap
    · have hvhosts : vhostsOf ts.hosts node ((i : Int) :: ids) = vhostsOf ts.hosts node ids := by
        unfold vhostsOf
        rw [List.filterMap_cons]
        simp only [hd, peek_of_used hx, if_neg hnode]
      rw [if_pos hnode, hvhosts]
      obtain ⟨hhosts, hcontexts⟩ := ih hok hids.tail
      refine ⟨fun j => ?_, hcontexts⟩
      rw [hhosts j]
      by_cases hj : i = j
      · subst hj
        have hkeep : (x.node == node) = false := beq_eq_false_iff_ne.2 hnode
        simp [hx, hni, Option.filter, hkeep]
      · simp [show (j : Int) ≠ i by omega]
    · have hvhosts : vhostsOf ts.hosts node ((i : Int) :: ids) = x.vhost :: vhostsOf ts.hosts node ids := by
        unfold vhostsOf
        rw [List.filterMap_cons]
        simp only [hd, peek_of_used hx, if_pos hnode]
      rw [if_neg (not_not_intro hnode), hvhosts]
      simp only [if_true, hok.hosts i x hx, removeHost, release_ofNat]
      have hfree (j : Nat) : (nodeCmdContexts now .remove x.vhost x.node ts.contexts
          (getIdsUsedContext ts.contexts)).used j =
            (ts.contexts.used j).filter fun c => !(c.vhost == x.vhost && c.node == x.node) := by
        rw [nodeCmdContexts_remove, getIdsUsedContext_eq, sweep_used _ hok.contexts]
      have hok' : IdsOk { ts with
          hosts := ts.hosts.setInuse i false
          contexts := nodeCmdContexts now .remove x.vhost x.node ts.contexts (getIdsUsedContext ts.contexts) } :=
        ⟨hok.nodes, hok.stale, hok.hosts.free i, hok.contexts.filter hfree, hok.balancers⟩
      obtain ⟨hhosts, hcontexts⟩ := ih hok' hids.free
      refine ⟨fun j => ?_, fun j => ?_⟩
      · rw [hhosts j]
        simp only
        by_cases hj : i = j
        · subst hj
          simp [hx, Option.filter, hnode, used_free_self]
        · rw [used_setInuse_ne _ hj]
          simp [show (j : Int) ≠ i by omega]
      · rw [hcontexts j]
        simp only
        rw [hfree, vhostsOf_free]
        cases hc : ts.contexts.used j with
        | none => rfl
        | some c =>
          by_cases hn : c.node = node
          · by_cases hv : c.vhost = x.vhost
            · simp [Option.filter, hn, hv, hnode]
            · simp [Option.filter, hn, hv, hnode]
          · simp [Option.filter, hn, hnode]

end Walk

/-! ## The command -/

section Command

variable {httpd : Httpd} {ts : Tables} {i : Nat}

/-- Every context of node `i` has a host of that node with its vhost. -/
def HostsLinked (ts : Tables) (i : Nat) : Prop :=
  ∀ j c, ts.contexts.used j = some c → c.node = i → HostUsed ts i c.vhost

/-- The contexts of node `i` have the status, and nothing else is changed. -/
structure StatusGiven (now : Int) (cmd : ContextStatus) (ts : Tables) (i : Nat) (ts' : Tables) : Prop where
  contexts : ∀ j, ts'.contexts.used j =
    (ts.contexts.used j).map fun c => if c.node = (i : Int) then commanded now cmd c else c
  hosts : ts'.hosts = ts.hosts
  nodes : ts'.nodes = ts.nodes
  balancers : ts'.balancers = ts.balancers
  domains : ts'.domains = ts.domains

/-- Node `i` is marked for removal and has no host and no context left. All else is
as before. -/
structure NodeEmptied (now : Int) (ts : Tables) (i : Nat) (ts' : Tables) : Prop where
  contexts : ∀ j, ts'.contexts.used j = (ts.contexts.used j).filter fun c => c.node != (i : Int)
  hosts : ∀ j, ts'.hosts.used j = (ts.hosts.used j).filter fun x => x.node != (i : Int)
  node : ts'.nodes.used i = (ts.nodes.used i).map (removedAt now)
  nodes : ∀ j, i ≠ j → ts'.nodes.used j = ts.nodes.used j
  balancers : ts'.balancers = ts.balancers
  domains : ts'.domains = ts.domains

theorem filter_eq_filter {α : Type} {o : Option α} {p q : α → Bool} (h : ∀ a, o = some a → p a = q a) :
    o.filter p = o.filter q := by
  cases o with
  | none => rfl
  | some a => rw [Option.filter_some, Option.filter_some, h a rfl]

theorem nodeCmdHosts_rest {now node : Int} {cmd : ContextStatus} (ids : List Int) (ts : Tables) :
    (nodeCmdHosts now cmd node ts ids).balancers = ts.balancers ∧
      (nodeCmdHosts now cmd node ts ids).domains = ts.domains := by
  induction ids generalizing ts with
  | nil => exact ⟨rfl, rfl⟩
  | cons id ids ih =>
    unfold nodeCmdHosts
    split
    · simp only
      split
      · exact ih ts
      · exact ih _
    · exact ih ts

theorem Addressed.node {route : Str} (h : Addressed ts route i) (hids : ts.nodes.IdsMatch (·.mess.id)) :
    ∃ a, ts.nodes.used i = some a ∧ ts.nodes.first (hasRoute a.mess.jvmRoute) = some i ∧ a.mess.id = i := by
  have hfound := h.found
  cases hf : ts.nodes.first (hasRoute route) with
  | none =>
    rw [readNode_none rfl hf] at hfound
    cases hfound
  | some j =>
    rw [readNode_some hids rfl hf] at hfound
    cases hfound
    obtain ⟨a, ha, hroute, -⟩ := first_eq_some hf
    refine ⟨a, ha, ?_, hids i a ha⟩
    rw [hasRoute_iff.1 hroute]
    exact hf

theorem processNodeCmd_effect {now : Int} {cmd : ContextStatus} {a : Nodeinfo} (hok : IdsOk ts) (hkeyed : Keyed ts)
    (hroom : ts.nodes.size ≤ ts.hosts.size) (hlinked : HostsLinked ts i) (ha : ts.nodes.used i = some a)
    (hf : ts.nodes.first (hasRoute a.mess.jvmRoute) = some i) (hid : a.mess.id = i) :
    (cmd ≠ .remove → StatusGiven now cmd ts i (processNodeCmd now cmd (incVersionNode ts) i)) ∧
      (cmd = .remove → NodeEmptied now ts i (processNodeCmd now cmd (incVersionNode ts) i)) := by
  have hok' : IdsOk (incVersionNode ts) := ⟨hok.nodes, hok.stale, hok.hosts, hok.contexts, hok.balancers⟩
  have hkeyed' : Keyed (incVersionNode ts) := ⟨hkeyed.contexts, hkeyed.hosts, hkeyed.balancers⟩
  have hsize : (incVersionNode ts).hosts.size ≠ 0 := by
    have hlt := used_lt ha
    show ts.hosts.size ≠ 0
    omega
  have hpeek : ((incVersionNode ts).nodes.peek i).mess.id = i := (congrArg (·.mess.id) (peek_of_used ha)).trans hid
  have hall : IdsUsed (incVersionNode ts).hosts (getIdsUsedHost (incVersionNode ts).hosts) := by
    rw [getIdsUsedHost_eq]
    exact idsUsed_records hok.hosts
  have hreached (j : Nat) (c : Contextinfo) (hc : ts.contexts.used j = some c) (hn : c.node = i) :
      c.vhost ∈ vhostsOf (incVersionNode ts).hosts i (getIdsUsedHost (incVersionNode ts).hosts) := by
    obtain ⟨k, x, hx, hnode, hvhost⟩ := hlinked j c hc hn
    rw [← hvhost]
    exact mem_vhostsOf hok.hosts hx hnode
  obtain ⟨hbalancers, hdomains⟩ :=
    @nodeCmdHosts_rest now i cmd (getIdsUsedHost (incVersionNode ts).hosts) (incVersionNode ts)
  unfold processNodeCmd
  rw [if_neg hsize, hpeek]
  constructor
  · intro hcmd
    simp only
    rw [if_neg hcmd]
    obtain ⟨hhosts, hcontexts⟩ :=
      @nodeCmdHosts_used (incVersionNode ts) now cmd hcmd i _ hok' hkeyed' hall
    refine ⟨fun j => ?_, hhosts, nodeCmdHosts_nodes _, hbalancers, hdomains⟩
    refine (hcontexts j).trans (Option.map_congr fun c hc => ?_)
    by_cases hn : c.node = i
    · rw [if_pos hn, if_pos ⟨hn, hreached j c hc hn⟩]
    · rw [if_neg hn, if_neg fun h => hn h.1]
  · rintro rfl
    simp only
    rw [if_pos trivial]
    obtain ⟨hhosts, hcontexts⟩ :=
      @nodeCmdHosts_removed (incVersionNode ts) now i _ hok' hall
    have hnodes : removeMark now ts.nodes i = ts.nodes.poke i (removedAt now a) := removeMark_eq hf ha
    refine ⟨fun j => ?_, fun j => ?_, ?_, fun j hj => ?_, hbalancers, hdomains⟩
    · refine (hcontexts j).trans (filter_eq_filter fun c hc => ?_)
      by_cases hn : c.node = i
      · simp [hn, hreached j c hc hn]
      · simp [hn, bne]
    · refine (hhosts j).trans (filter_eq_filter fun x hx => ?_)
      have hj : (j : Int) ∈ getIdsUsedHost (incVersionNode ts).hosts := by
        rw [getIdsUsedHost_eq]
        exact (mem_ids hok.hosts).2 ⟨j, x, hx, rfl⟩
      simp [hj, bne]
    · rw [nodeCmdHosts_nodes, ha]
      exact (congrArg (·.used i) hnodes).trans (used_poke_self _ ha)
    · rw [nodeCmdHosts_nodes]
      exact (congrArg (·.used j) hnodes).trans (used_poke_ne _ hj)

/-- A wildcard command on a node that is there and not marked gives its contexts the
status. REMOVE-APP takes its hosts and contexts away and marks it. The other nodes, and
what belongs to them, are left alone. -/
theorem wildcard_effect (httpd : Httpd) (ts : Tables) (hok : IdsOk ts) (hkeyed : Keyed ts)
    (hroom : ts.nodes.size ≤ ts.hosts.size) (i : Nat) (hlinked : HostsLinked ts i) (now : Int) (argv : Argv)
    (args : AppArgs) (hargs : parseApp httpd true argv = .ok args) (hnode : Addressed ts args.jvmRoute i)
    (cmd : ContextStatus) :
    (processAppCmd httpd now ts NODE_COMMAND argv cmd).outcome = .done ∧
    (cmd ≠ .remove → StatusGiven now cmd ts i (processAppCmd httpd now ts NODE_COMMAND argv cmd).tables) ∧
    (cmd = .remove → NodeEmptied now ts i (processAppCmd httpd now ts NODE_COMMAND argv cmd).tables) := by
  obtain ⟨a, ha, hf, hid⟩ := hnode.node hok.nodes
  have hglob : (NODE_COMMAND == NODE_COMMAND) = true := BEq.rfl
  unfold processAppCmd
  simp only [hglob, hargs, hnode.found, hnode.unmarked, Bool.false_eq_true, if_false, if_true, true_and]
  exact processNodeCmd_effect hok hkeyed hroom hlinked ha hf hid

end Command

/-! ### The wildcard commands on a node with one context -/

theorem oneNode_served : Served plainHttpd oneNode :=
  ⟨2, 2, 2, Relation.ReflTransGen.single (Step.config _ _ _ _ False.elim)⟩

theorem oneNode_hostsLinked : HostsLinked oneNode 0 := by
  intro j c hc hn
  obtain ⟨k, x, hx, hnode, hvhost⟩ := (reachable_references plainHttpd oneNode oneNode_reachable).1 j c hc
  exact ⟨k, x, hx, hnode.trans hn, hvhost⟩

def routeOnly : Argv := Argv.ofTokens [ascii "JVMRoute", ascii "n1"]

theorem routeOnly_parse : (parseApp plainHttpd true routeOnly).map (fun args => decide (args.jvmRoute = ascii "n1")) =
      .ok true ∧
    (readNode oneNode.nodes (routeNode (ascii "n1") (-1))).1 = some 0 ∧ (oneNode.nodes.peek 0).mess.remove = false := by
  decide +kernel

/-- Its context is enabled by ENABLE-APP, and REMOVE-APP leaves neither context nor host. -/
theorem oneNode_wildcards :
    StatusGiven 7000000 .enabled oneNode 0
        (processAppCmd plainHttpd 7000000 oneNode NODE_COMMAND routeOnly .enabled).tables ∧
      NodeEmptied 7000000 oneNode 0
        (processAppCmd plainHttpd 7000000 oneNode NODE_COMMAND routeOnly .remove).tables := by
  obtain ⟨hparse, hfound, hunmarked⟩ := routeOnly_parse
  obtain ⟨args, hargs, hroute⟩ := exists_of_map_ok hparse
  have hnode : Addressed oneNode args.jvmRoute 0 := by
    rw [of_decide_eq_true hroute]
    exact ⟨hfound, hunmarked⟩
  have hok : IdsOk oneNode := oneNode_served.reachable.idsOk
  have hkeyed : Keyed oneNode := oneNode_served.reachable.keyed
  exact ⟨(wildcard_effect plainHttpd oneNode hok hkeyed oneNode_served.sizes 0 oneNode_hostsLinked 7000000 routeOnly
      args hargs hnode .enabled).2.1 (by decide),
    (wildcard_effect plainHttpd oneNode hok hkeyed oneNode_served.sizes 0 oneNode_hostsLinked 7000000 routeOnly
      args hargs hnode .remove).2.2 rfl⟩

end ModCluster
