import ModCluster.Removal

/-!
# Runs of the child processes

The loops of a watchdog tick are runs of the steps, and what the steps keep holds in
every state that the processes reach.
-/

open CString Slotmem Slotmem.Table

namespace ModCluster

variable {httpd : Httpd} {c : Cluster} {p k : Nat}

/-! ## The loops of a tick -/

theorem Cluster.setServer_setServer (ts ts' : Tables) (sv sv' : Server) :
    (c.setServer ts p k sv).setServer ts' p k sv' = c.setServer ts' p k sv' := by
  unfold Cluster.setServer
  simp only [List.modify_modify_eq, Cluster.mk.injEq, true_and]
  congr 1
  funext q
  simp only [Function.comp_apply, List.set_set]

theorem Cluster.server?_setServer {sv : Server} (hsv : c.server? p k = some sv) (ts : Tables) (sv' : Server) :
    (c.setServer ts p k sv').server? p k = some sv' := by
  unfold Cluster.server? at hsv
  rw [Option.bind_eq_some_iff] at hsv
  obtain ⟨q, hq, hk⟩ := hsv
  unfold Cluster.server? Cluster.setServer
  simp only
  rw [List.getElem?_modify_eq, hq, Option.map_eq_map, Option.map_some, Option.bind_some]
  simp only
  rw [List.getElem?_set_self (List.getElem?_eq_some_iff.mp hk).1]

theorem Cluster.setServer_self {sv : Server} (hsv : c.server? p k = some sv) : c.setServer c.tables p k sv = c := by
  unfold Cluster.server? at hsv
  rw [Option.bind_eq_some_iff] at hsv
  obtain ⟨q, hq, hk⟩ := hsv
  obtain ⟨hlt, hget⟩ := List.getElem?_eq_some_iff.mp hk
  have hset : q.proxy.servers.set k sv = q.proxy.servers := by
    rw [← hget]
    exact List.set_getElem_self hlt
  have hprocs : (c.procs.modify p fun q => { q with proxy := ⟨q.proxy.servers.set k sv⟩ }) = c.procs := by
    apply List.ext_getElem?
    intro j
    by_cases hpj : p = j
    · subst hpj
      rw [List.getElem?_modify_eq, hq, Option.map_eq_map, Option.map_some, hset]
    · rw [List.getElem?_modify_ne _ _ hpj]
  unfold Cluster.setServer
  rw [hprocs]

/-- The lines of a node table, one after the other. -/
theorem updateWorkersNode_run {creatBal : CreatBal} {main : Bool} {now : Int} {q : Process} {sv : Server}
    (entries : List NodeEntry) (hq : c.procs[p]? = some q) (hsub : ∀ ou ∈ entries, ou ∈ q.seen)
    (hsv : c.server? p k = some sv) :
    Relation.ReflTransGen (ClusterStep httpd False) c
      (c.setServer (updateWorkersNode httpd creatBal main now entries c.tables sv).1 p k
        (updateWorkersNode httpd creatBal main now entries c.tables sv).2) := by
  induction entries generalizing c q sv with
  | nil =>
    rw [updateWorkersNode, Cluster.setServer_self hsv]
  | cons ou rest ih =>
    have hrest : ∀ x ∈ rest, x ∈ q.seen := fun x hx => hsub x (List.mem_cons_of_mem _ hx)
    unfold updateWorkersNode
    split
    · exact ih hq hrest hsv
    rename_i hremove
    split
    · exact ih hq hrest hsv
    rename_i i hptr
    simp only
    have hstep := @ClusterStep.addWorkers httpd False _ p k q sv hq hsv creatBal main now ou
      (hsub ou List.mem_cons_self) (by simpa using hremove) i hptr False.elim
    refine Relation.ReflTransGen.head hstep ?_
    generalize addBalancersWorkersForServer httpd creatBal main now c.tables sv ou.info.mess i = r
    have hnext := ih (c := c.setServer r.1 p k r.2.1) (q := { q with proxy := ⟨q.proxy.servers.set k r.2.1⟩ })
      (by simp only [Cluster.setServer, List.getElem?_modify_eq, hq, Option.map_eq_map, Option.map_some]) hrest
      (Cluster.server?_setServer hsv _ _)
    rw [Cluster.setServer_setServer] at hnext
    exact hnext

theorem removeWorkersLoop_run {now : Int} {sv sv' : Server} {ts' : Tables} (ids : List Int)
    (hsv : c.server? p k = some sv) (hids : IdsUsed c.tables.nodes ids)
    (h : removeWorkersLoop httpd now ids c.tables sv = some (ts', sv')) :
    Relation.ReflTransGen (ClusterStep httpd False) c (c.setServer ts' p k sv') := by
  induction ids generalizing c sv with
  | nil =>
    cases h
    rw [Cluster.setServer_self hsv]
  | cons id ids ih =>
    obtain ⟨i, n, hn, rfl⟩ := hids.used id List.mem_cons_self
    have hd : getNode c.tables.nodes (i : Int) = some i := dptr_ofNat (used_lt hn)
    unfold removeWorkersLoop at h
    rw [hd] at h
    simp only [peek_of_used hn] at h
    split at h
    · rename_i hremove
      split at h
      swap
      · cases h
      rename_i ts₁ sv₁ hrun
      have hstep := ClusterStep.removeWorkers p k sv hsv now i n hn hremove ts₁
        sv₁ hrun False.elim
      obtain ⟨hun, -⟩ := removeWorkersNode_spec hrun
      have hnext := ih (c := c.setServer ts₁ p k sv₁) (Cluster.server?_setServer hsv _ _)
        (hun.idsUsed ids hids.tail) h
      rw [Cluster.setServer_setServer] at hnext
      exact Relation.ReflTransGen.head hstep hnext
    · exact ih hsv hids.tail h

theorem removeWorkersNodes_run {now : Int} {sv sv' : Server} {ts' : Tables} (hok : IdsOk c.tables)
    (hsv : c.server? p k = some sv) (h : removeWorkersNodes httpd now c.tables sv = some (ts', sv')) :
    Relation.ReflTransGen (ClusterStep httpd False) c (c.setServer ts' p k sv') := by
  have hids := idsUsed_records hok.nodes
  rw [← getIdsUsedNode_eq] at hids
  exact removeWorkersLoop_run _ hsv hids h

/-! ## Safety -/

theorem attached_eq_zero (h : ∀ q ∈ c.procs, ∀ w ∈ q.proxy.workers, w.s = .priv) (i : Nat) : c.attached i = 0 := by
  rw [Cluster.attached, List.sum_eq_zero_iff]
  intro n hn
  obtain ⟨q, hq, rfl⟩ := List.mem_map.mp hn
  rw [Proxy.attached, List.sum_eq_zero_iff]
  intro n hn
  obtain ⟨sv, hsv, rfl⟩ := List.mem_map.mp hn
  rw [Server.attached, List.sum_eq_zero_iff]
  intro n hn
  obtain ⟨b, hb, rfl⟩ := List.mem_map.mp hn
  rw [attachedIn, List.countP_eq_zero]
  intro w hw
  have hmem : w ∈ q.proxy.workers := List.mem_flatMap.mpr ⟨sv, hsv, List.mem_flatMap.mpr ⟨b, hb, hw⟩⟩
  rw [pointsTo, h q hq w hmem]
  simp

theorem ClusterReachable.counted (h : ClusterReachable httpd True c) :
    IdsOk c.tables ∧ CountedBy c.tables c.attached := by
  obtain ⟨c₀, ⟨⟨sz, hts⟩, hpriv⟩, hrun⟩ := h
  induction hrun with
  | refl =>
    refine ⟨hts ▸ idsOk_empty sz, fun j _ => ?_⟩
    rw [attached_eq_zero fun q hq => (hpriv q hq).2]
    exact Nat.zero_le _
  | tail _ hstep ih => exact hstep.counted ih.1 ih.2

/-- No slot is freed under a worker, in all states of the runs whose steps keep to
their guards. -/
theorem reachable_removalSafe (httpd : Httpd) (c : Cluster) (h : ClusterReachable httpd True c) :
    RemovalSafe httpd c :=
  counted_removalSafe h.counted.1 h.counted.2

/-! ## A node that comes and goes -/

section Example

def noWorkers : Proxy := ⟨[⟨[]⟩]⟩

def nodeConfig : Argv := Argv.ofTokens [ascii "JVMRoute", ascii "node1"]

/-- Two processes that have just started. -/
def started : Cluster where
  tables := emptyTables ⟨1, 1, 1, 1, 1⟩
  procs := [⟨noWorkers, []⟩, ⟨noWorkers, []⟩]

def joined : Cluster :=
  started.setProxy (processConfig plainHttpd Mconf.default 0 started.tables (some noWorkers) nodeConfig).tables 0
    noWorkers

def joinedEntry : NodeEntry := ⟨0, joined.tables.nodes.peek 0, some 0⟩

def hasRead : Cluster :=
  { joined with procs := joined.procs.modify 0 fun q => { q with seen := readNodeTable joined.tables ++ q.seen } }

/-- The first process has a worker for the node. The second has none. -/
def working : Cluster :=
  hasRead.setServer
    (addBalancersWorkersForServer plainHttpd .all true 0 hasRead.tables ⟨[]⟩ joinedEntry.info.mess 0).1 0 0
    (addBalancersWorkersForServer plainHttpd .all true 0 hasRead.tables ⟨[]⟩ joinedEntry.info.mess 0).2.1

theorem started_initial : started.Initial := by
  refine ⟨⟨_, rfl⟩, fun q hq => ?_⟩
  have hqs : q = ⟨noWorkers, []⟩ := by
    have hq' : q ∈ [(⟨noWorkers, []⟩ : Process), ⟨noWorkers, []⟩] := hq
    simpa using hq'
  subst hqs
  exact ⟨rfl, fun w hw => by cases hw⟩

theorem working_facts :
    (parseConfig plainHttpd Mconf.default nodeConfig).map (·.node.mess.jvmRoute) = .ok (ascii "node1") ∧
      (processConfig plainHttpd Mconf.default 0 started.tables (some noWorkers) nodeConfig).proxy = some noWorkers ∧
      readNodeTable joined.tables = [joinedEntry] ∧ hasRead.server? 0 0 = some ⟨[]⟩ ∧
      joinedEntry.info.mess.remove = false ∧ ¬ CalledRemoved hasRead.tables 0 := by
  unfold CalledRemoved
  decide +kernel

theorem working_run (guarded : Prop) : Relation.ReflTransGen (ClusterStep plainHttpd guarded) started working := by
  obtain ⟨hname, hproxy, hseen, hserver, hremove, hcalled⟩ := working_facts
  have hroute : ∀ args, parseConfig plainHttpd Mconf.default nodeConfig = .ok args →
      args.node.mess.jvmRoute ≠ REMOVED := by
    intro args hparse
    rw [hparse] at hname
    have hroute : args.node.mess.jvmRoute = ascii "node1" := Except.ok.inj hname
    rw [hroute]
    decide
  have hconfig : ClusterStep plainHttpd guarded started joined :=
    ClusterStep.config 0 ⟨noWorkers, []⟩ rfl Mconf.default 0 nodeConfig noWorkers _ rfl hproxy fun _ => hroute
  have hread : ClusterStep plainHttpd guarded joined hasRead := ClusterStep.readNodeTable 0
  have hadd : ClusterStep plainHttpd guarded hasRead working :=
    ClusterStep.addWorkers 0 0 ⟨noWorkers, readNodeTable joined.tables ++ []⟩ ⟨[]⟩ rfl hserver .all true 0
      joinedEntry (by rw [hseen]; exact List.mem_cons_self) hremove 0 rfl fun _ => hcalled
  exact ((Relation.ReflTransGen.single hconfig).tail hread).tail hadd

/-- Any number of walks of `remove_removed_node`. -/
def Cluster.walks (c : Cluster) (wait now : Int) (n : Nat) : Cluster :=
  { c with tables := (removeRemovedNode plainHttpd wait now)^[n] c.tables }

theorem walks_run {guarded : Prop} (hguard : guarded → ∀ i, c.attached i = 0) (wait now : Int) (n : Nat) :
    Relation.ReflTransGen (ClusterStep plainHttpd guarded) c (c.walks wait now n) := by
  induction n with
  | zero => exact Relation.ReflTransGen.refl
  | succ n ih =>
    refine ih.tail ?_
    have hstep := @ClusterStep.removeRemovedNode plainHttpd guarded (c.walks wait now n) wait now fun hg i _ _ _ _ _ _ => by
        have hzero : (c.walks wait now n).attached i = 0 := hguard hg i
        rw [hzero]
        exact Nat.zero_le _
    unfold Cluster.walks at hstep ⊢
    rw [Function.iterate_succ_apply']
    exact hstep

def Cluster.removeApp (c : Cluster) : Cluster :=
  { c with tables := (processAppCmd plainHttpd 0 c.tables NODE_COMMAND nodeConfig .remove).tables }

theorem leaving_detached : (removeWorkersNode plainHttpd 0 working.removeApp.tables
    ((working.removeApp.server? 0 0).getD ⟨[]⟩) 0).isSome := by decide +kernel

/-- The worker is back in its own area. -/
def detached : Cluster :=
  working.removeApp.setServer (Option.get _ leaving_detached).1 0 0 (Option.get _ leaving_detached).2

theorem detached_facts :
    (∀ q ∈ detached.procs, ∀ w ∈ q.proxy.workers, w.s = .priv) ∧
      working.removeApp.server? 0 0 = some ((working.removeApp.server? 0 0).getD ⟨[]⟩) ∧
      working.removeApp.tables.nodes.used 0 = some (working.removeApp.tables.nodes.peek 0) ∧
      (working.removeApp.tables.nodes.peek 0).mess.remove = true ∧ ¬ CalledRemoved working.removeApp.tables 0 ∧
      removeRemovedCalls plainHttpd 10 200 [0] ((detached.walks 10 100 1).walks 10 200 10).tables = [0] := by
  unfold CalledRemoved
  decide +kernel

/-- The walk that frees the slot of a node whose worker was taken away. -/
theorem detached_removalSafe :
    removeRemovedCalls plainHttpd 10 200 [0] ((detached.walks 10 100 1).walks 10 200 10).tables = [0] ∧
      RemovalSafe plainHttpd ((detached.walks 10 100 1).walks 10 200 10) := by
  obtain ⟨hpriv, hserver, hused, hremove, hcalled, hcalls⟩ := detached_facts
  have happ : ClusterStep plainHttpd True working working.removeApp := ClusterStep.app 0 NODE_COMMAND nodeConfig _
  have hdetach : ClusterStep plainHttpd True working.removeApp detached :=
    ClusterStep.removeWorkers 0 0 ((working.removeApp.server? 0 0).getD ⟨[]⟩) hserver 0 0
      (working.removeApp.tables.nodes.peek 0) hused hremove _ _ (Option.some_get leaving_detached).symm
      fun _ hremoved => absurd hremoved hcalled
  have hrun := (((working_run True).tail happ).tail hdetach).trans
    ((walks_run (fun _ => attached_eq_zero hpriv) 10 100 1).trans
      (walks_run (c := detached.walks 10 100 1) (fun _ => attached_eq_zero hpriv) 10 200 10))
  exact ⟨hcalls, reachable_removalSafe plainHttpd _ ⟨started, started_initial, hrun⟩⟩

def workingProcess : Process := (working.procs[0]?).getD ⟨noWorkers, []⟩

def workingWorker : Worker := (workingProcess.proxy.worker? ⟨0, 0, 0⟩).getD ⟨.priv, default, none⟩

/-- A request runs on the worker. -/
def busy : Cluster :=
  working.setProxy working.tables 0 (workingProcess.proxy.setWorker ⟨0, 0, 0⟩ { workingWorker with
    context := some { countActive := 0 + if true then 1 else -1, index := 0, isinnodes := true } })

theorem busy_facts :
    workingProcess.proxy.worker? ⟨0, 0, 0⟩ = some workingWorker ∧ workingWorker.context = some ⟨0, 0, true⟩ ∧
      (∃ q ∈ busy.procs, ∃ w ∈ q.proxy.workers, w.s = .slot 0) ∧
      0 ∈ removeRemovedCalls plainHttpd 10 200 (getIdsUsedNode ((busy.removeApp.walks 10 100 1).walks 10 200 10).tables.nodes)
        ((busy.removeApp.walks 10 100 1).walks 10 200 10).tables := by
  decide +kernel

/-- The first process has a long request, the second walks: nobody has counted the
worker. -/
theorem removal_under_worker :
    ¬ ∀ (httpd : Httpd) (c : Cluster), ClusterReachable httpd False c → RemovalSafe httpd c := by
  intro h
  obtain ⟨hworker, hhelper, ⟨q, hq, w, hw, hs⟩, hcalls⟩ := busy_facts
  have hbegin : ClusterStep plainHttpd False working busy :=
    ClusterStep.request 0 workingProcess rfl ⟨0, 0, 0⟩ workingWorker hworker ⟨0, 0, true⟩ hhelper true
  have happ : ClusterStep plainHttpd False busy busy.removeApp := ClusterStep.app 0 NODE_COMMAND nodeConfig _
  have hrun := (((working_run False).tail hbegin).tail happ).trans
    ((walks_run False.elim 10 100 1).trans (walks_run False.elim 10 200 10))
  have hsafe := h plainHttpd _ ⟨started, started_initial, hrun⟩
  exact hsafe 10 200 0 hcalls q hq w hw 0 hs rfl

example : busy.attached 0 = 1 := by decide +kernel

end Example

end ModCluster
