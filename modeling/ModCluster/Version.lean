import ModCluster.ConfigAtomic

/-!
# The version of the tables

What a child process caches of the tables, and which steps that change it also
count up the version. The commands do, the watchdogs and a command that fails do not.
-/

open CString Slotmem Slotmem.Table

namespace ModCluster

/-! ## What is cached -/

def Hostinfo.shown (h : Hostinfo) : Int × Str × Int × Int := (h.id, h.host, h.vhost, h.node)

def Contextinfo.shown (c : Contextinfo) : Int × Str × Int × Int × ContextStatus :=
  (c.id, c.context, c.vhost, c.node, c.status)

def Nodeinfo.shown (n : Nodeinfo) : Int × Str × Bool := (n.mess.id, n.mess.jvmRoute, n.mess.remove)

structure SameShown (ts ts' : Tables) : Prop where
  hosts : ts'.hosts.view Hostinfo.shown = ts.hosts.view Hostinfo.shown
  contexts : ts'.contexts.view Contextinfo.shown = ts.contexts.view Contextinfo.shown
  nodes : ts'.nodes.view Nodeinfo.shown = ts.nodes.view Nodeinfo.shown

variable {httpd : Httpd} {ts ts' ts'' : Tables} {now : Int}

theorem SameShown.refl : SameShown ts ts := ⟨rfl, rfl, rfl⟩

theorem SameShown.trans (h : SameShown ts ts') (h' : SameShown ts' ts'') : SameShown ts ts'' :=
  ⟨h'.hosts.trans h.hosts, h'.contexts.trans h.contexts, h'.nodes.trans h.nodes⟩

/-! ## The version counts commands -/

theorem addAliases_version (id : Int) (contexts aliases : List Str) (vid : Int) (ts : Tables) :
    (addAliases now id contexts aliases vid ts).1.version = ts.version := by
  induction aliases generalizing vid ts with
  | nil => rfl
  | cons host rest ih =>
    unfold addAliases
    split
    · exact ih vid ts
    · exact ih (vid + 1) _

theorem pairWorker_version {px px' : Option Proxy} {plan : Plan} {nodeinfo : Nodeinfo} {id : Int}
    (h : pairWorker now ts px plan nodeinfo id = some (ts', px')) : ts'.version = ts.version := by
  unfold pairWorker at h
  split at h
  · cases h
    rfl
  · repeat' split at h
    all_goals cases h
    rfl

theorem nodeCmdHosts_version (cmd : ContextStatus) (node : Int) (ids : List Int) (ts : Tables) :
    (nodeCmdHosts now cmd node ts ids).version = ts.version := by
  induction ids generalizing ts with
  | nil => rfl
  | cons id rest ih =>
    unfold nodeCmdHosts
    split
    · simp only
      split
      · exact ih ts
      · exact ih _
    · exact ih ts

theorem processNodeCmd_version (cmd : ContextStatus) (ts : Tables) (i : Nat) :
    (processNodeCmd now cmd ts i).version = ts.version := by
  unfold processNodeCmd
  split
  · rfl
  simp only
  split
  · exact nodeCmdHosts_version _ _ _ _
  · exact nodeCmdHosts_version _ _ _ _

theorem dropHosts_version (ts : Tables) (node vhost : Int) : (dropHosts ts node vhost).version = ts.version := by
  unfold dropHosts
  split <;> rfl

theorem appAliases_version (cmd : ContextStatus) (node : Int) (contexts aliases : List Str) (vid : Int) (ts : Tables) :
    (appAliases now cmd node contexts aliases vid ts).1.version = ts.version := by
  induction aliases generalizing vid ts with
  | nil => rfl
  | cons host rest ih =>
    unfold appAliases
    split
    · exact ih _ _
    · simp only
      rw [ih]
      split
      · exact dropHosts_version _ _ _
      · rfl

theorem processAppCmd_version (httpd : Httpd) (now : Int) (ts : Tables) (filename : Str) (argv : Argv)
    (cmd : ContextStatus) :
    (processAppCmd httpd now ts filename argv cmd).tables = ts ∨
      (processAppCmd httpd now ts filename argv cmd).tables.version = ts.version + 1 := by
  unfold processAppCmd
  simp only
  split
  · exact Or.inl rfl
  · exact Or.inl rfl
  split
  · exact Or.inl rfl
  split
  · exact Or.inl rfl
  split
  · exact Or.inr (processNodeCmd_version _ _ _)
  · exact Or.inr (appAliases_version _ _ _ _ _ _)

theorem Committed.version {px : Option Proxy} {args : ConfigArgs} {plan : Plan} {r : ConfigResult}
    (h : Committed now ts px args plan r) : r.tables.version = ts.version ∨ r.tables.version = ts.version + 1 := by
  cases h with
  | noBalancer hb => exact Or.inl rfl
  | noNode balancers b hb hnone => exact Or.inl rfl
  | aborted balancers b nodes nodeinfo id hb hins hp => exact Or.inl rfl
  | stored balancers b nodes nodeinfo id ts' px' r hb hins hp hr =>
    subst hr
    have hv := pairWorker_version hp
    rw [addAliases_version]
    exact Or.inr (congrArg (· + 1) hv)

theorem processConfig_version (httpd : Httpd) (mconf : Mconf) (now : Int) (ts : Tables) (px : Option Proxy)
    (argv : Argv) :
    (processConfig httpd mconf now ts px argv).tables.version = ts.version ∨
      (processConfig httpd mconf now ts px argv).tables.version = ts.version + 1 := by
  unfold processConfig
  split
  · exact Or.inl rfl
  split
  · exact Or.inl rfl
  · exact Or.inl rfl
  · exact (commitConfig_committed now ts px _ _).version

/-! ## What changes without it -/

/-- A message that renames a slot has room for its balancer. -/
def RenameFits (httpd : Httpd) (mconf : Mconf) (ts : Tables) (px : Option Proxy) (argv : Argv) : Prop :=
  ∀ args, parseConfig httpd mconf argv = .ok args → Admitted ts args → Renames httpd ts px args →
    BalancerFits ts args.balancer.balancer

theorem shown_of_untimed {m m' : Table Nodeinfo} (h : m'.view Nodeinfo.untimed = m.view Nodeinfo.untimed) :
    m'.view Nodeinfo.shown = m.view Nodeinfo.shown := by
  have hcomp : Nodeinfo.shown = Nodeinfo.shown ∘ Nodeinfo.untimed := rfl
  rw [hcomp, view_comp, view_comp, h]

theorem processConfig_announced {mconf : Mconf} {px : Option Proxy} {argv : Argv} (hok : IdsOk ts)
    (hfits : RenameFits httpd mconf ts px argv) (hrun : (processConfig httpd mconf now ts px argv).outcome ≠ .aborted) :
    SameShown ts (processConfig httpd mconf now ts px argv).tables ∨
      (processConfig httpd mconf now ts px argv).tables.version = ts.version + 1 := by
  unfold processConfig at hrun ⊢
  split
  · exact Or.inl SameShown.refl
  rename_i args hparse
  have hargs := parseConfig_argsOk hparse
  simp only [hparse] at hrun
  by_cases hadm : Admitted ts args
  swap
  · obtain ⟨e, he⟩ := checkConfig_denied hadm
    rw [he]
    exact Or.inl SameShown.refl
  have hcheck := checkConfig_ok False httpd ts px args
    (by rw [← messageNode, messageNode_jvmRoute hok hargs]; exact hargs.route)
  cases hgo : checkConfig httpd ts px args with
  | fail e => exact Or.inl SameShown.refl
  | abort nodes =>
    rw [hgo] at hrun
    exact absurd rfl hrun
  | go plan =>
    rw [hgo] at hrun hcheck
    have hplanned := checkConfig_planned hadm hgo
    have hview := hplanned.view_nodes hok hargs
    have hcommit := commitConfig_committed now ts px args plan
    simp only at hrun ⊢
    generalize commitConfig now ts px args plan = r at hcommit hrun ⊢
    cases hcommit with
    | noBalancer hb =>
      have hfull : ¬ BalancerFits ts args.balancer.balancer := by
        rw [← messageBalancer_name hok hargs, ← insertUpdateBalancer_isSome_iff, hb]
        exact Bool.false_ne_true
      exact Or.inl ⟨rfl, rfl, shown_of_untimed (hview.mpr fun hren => hfull (hfits args hparse hadm hren))⟩
    | noNode balancers b hb hn =>
      have hroom := (hplanned.insert_none hok hargs).mp hn
      refine Or.inl ⟨rfl, rfl, shown_of_untimed ?_⟩
      rw [rollback_nodes hcheck.2.2 hn]
      exact hview.mpr hroom.not_renames
    | aborted balancers b nodes nodeinfo id hb hn hp => exact absurd rfl hrun
    | stored balancers b nodes nodeinfo id ts' px' r hb hn hp hr =>
      subst hr
      have hv := pairWorker_version hp
      rw [addAliases_version]
      exact Or.inr (congrArg (· + 1) hv)

/-- It is the node's turn in `remove_removed_node`: it loses its name, or its slot. -/
def RemovalDue (wait now : Int) (n : Nodeinfo) : Prop :=
  if n.mess.jvmRoute = REMOVED ∧ now - n.updatetime ≥ wait then
    nodeHasWorkers n = false ∧ n.mess.numRemoveCheck + 1 > 10
  else n.mess.remove = true ∧ now - n.updatetime ≥ wait ∧ now - n.mess.lastcleantry ≥ wait

theorem poke_shown {i : Nat} {a n : Nodeinfo} (ha : ts.nodes.used i = some a) (hshown : n.shown = a.shown) :
    SameShown ts { ts with nodes := ts.nodes.poke i n } := by
  refine ⟨rfl, rfl, (view_poke_iff (used_lt ha)).2 ?_⟩
  rw [peek_of_used ha]
  exact hshown

theorem removeRemovedStep_shown {wait : Int} {i : Nat} {n : Nodeinfo} (hn : ts.nodes.used i = some n)
    (hdue : ¬ RemovalDue wait now n) :
    SameShown ts (removeRemovedStep httpd wait now ts i).1 ∧
      ∀ j, j ≠ i → (removeRemovedStep httpd wait now ts i).1.nodes.used j = ts.nodes.used j := by
  have hd : getNode ts.nodes (i : Int) = some i := dptr_ofNat (used_lt hn)
  have hpoke {n' : Nodeinfo} (hshown : n'.shown = n.shown) :
      SameShown ts { ts with nodes := ts.nodes.poke i n' } ∧
        ∀ j, j ≠ i → (ts.nodes.poke i n').used j = ts.nodes.used j :=
    ⟨poke_shown hn hshown, fun j hj => used_poke_ne n' (Ne.symm hj)⟩
  unfold RemovalDue at hdue
  simp only [removeRemovedStep, hd, peek_of_used hn]
  split
  · rename_i hremoved
    rw [if_pos hremoved] at hdue
    split
    · exact hpoke rfl
    · rename_i hworkers
      split
      · rename_i hcheck
        exact absurd ⟨Bool.eq_false_iff.2 hworkers, hcheck⟩ hdue
      · exact hpoke rfl
  · rename_i hremoved
    rw [if_neg hremoved] at hdue
    rw [if_neg hdue]
    exact ⟨SameShown.refl, fun _ _ => rfl⟩

theorem removeRemovedLoop_shown {wait : Int} (ids : List Int) (hnodup : ids.Nodup)
    (hids : ∀ id ∈ ids, ∃ (i : Nat) (n : Nodeinfo), id = i ∧ ts.nodes.used i = some n ∧ ¬ RemovalDue wait now n) :
    SameShown ts (removeRemovedLoop httpd wait now ids ts) := by
  induction ids generalizing ts with
  | nil => exact SameShown.refl
  | cons id rest ih =>
    obtain ⟨i, n, rfl, hn, hdue⟩ := hids id (List.mem_cons_self ..)
    obtain ⟨hsame, hkeep⟩ := @removeRemovedStep_shown httpd ts now wait i n hn hdue
    refine hsame.trans (ih (List.nodup_cons.1 hnodup).2 fun id' hid' => ?_)
    obtain ⟨j, m, rfl, hm, hdue'⟩ := hids id' (List.mem_cons_of_mem _ hid')
    have hji : j ≠ i := by
      rintro rfl
      exact (List.nodup_cons.1 hnodup).1 hid'
    exact ⟨j, m, rfl, (hkeep j hji).trans hm, hdue'⟩

theorem removeRemovedNode_shown {wait : Int} (hok : IdsOk ts)
    (hdue : ∀ i n, ts.nodes.used i = some n → ¬ RemovalDue wait now n) :
    SameShown ts (removeRemovedNode httpd wait now ts) := by
  unfold removeRemovedNode
  rw [getIdsUsedNode_eq]
  refine removeRemovedLoop_shown _ (ids_nodup hok.nodes) fun id hid => ?_
  obtain ⟨i, n, hn, rfl⟩ := (mem_ids hok.nodes).1 hid
  exact ⟨i, n, rfl, hn, hdue i n hn⟩

theorem locRemoveHostContext_version (id : Int) (ts : Tables) :
    (locRemoveHostContext id ts).version = ts.version := by
  unfold locRemoveHostContext
  split <;> rfl

theorem removeRemovedLoop_version {wait : Int} (ids : List Int) (ts : Tables) :
    (removeRemovedLoop httpd wait now ids ts).version = ts.version := by
  induction ids generalizing ts with
  | nil => rfl
  | cons id rest ih =>
    unfold removeRemovedLoop
    rw [ih]
    unfold removeRemovedStep
    split
    · rfl
    simp only
    split
    · split
      · rfl
      · split <;> rfl
    split
    · exact locRemoveHostContext_version _ _
    · rfl

/-- The same for the walk of `mod_lbmethod_cluster.c`, which looks at the slots it was told. -/
def LbRemovalDue (wait now : Int) (ts : Tables) (id : Int) : Prop :=
  ∃ i, getNode ts.nodes id = some i ∧ (ts.nodes.peek i).mess.remove = true ∧
    now - (ts.nodes.peek i).updatetime ≥ wait ∧ now - (ts.nodes.peek i).mess.lastcleantry ≥ wait

theorem lbRemoveRemovedNode_quiet {wait : Int} (ids : List Int) (hdue : ∀ id ∈ ids, ¬ LbRemovalDue wait now ts id) :
    lbRemoveRemovedNode wait now ids ts = ts := by
  induction ids with
  | nil => rfl
  | cons id rest ih =>
    have hstep : lbRemoveStep wait now ts id = ts := by
      unfold lbRemoveStep
      split
      · rfl
      · rename_i i hi
        exact if_neg fun h => hdue id (List.mem_cons_self ..) ⟨i, hi, h⟩
    unfold lbRemoveRemovedNode
    rw [hstep]
    exact ih fun id' hid' => hdue id' (List.mem_cons_of_mem _ hid')

theorem lbRemoveRemovedNode_version {wait : Int} (ids : List Int) (ts : Tables) :
    (lbRemoveRemovedNode wait now ids ts).version = ts.version := by
  induction ids generalizing ts with
  | nil => rfl
  | cons id rest ih =>
    unfold lbRemoveRemovedNode
    rw [ih]
    unfold lbRemoveStep
    split
    · rfl
    simp only
    split
    · exact locRemoveHostContext_version _ _
    · rfl

end ModCluster
