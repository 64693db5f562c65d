import ModCluster.ConfigAtomic

/-!
# CONFIG and the node table

All that `process_config` can do to the node table: the check phase may give the
message's name to one slot called "REMOVED", and the commit phase writes the message's
node over the first slot with its name, or into a slot of its own.
-/

open CString Slotmem Slotmem.Table

namespace ModCluster

variable {httpd : Httpd} {ts ts' : Tables} {px px' : Option Proxy} {args : ConfigArgs} {now : Int} {plan : Plan}
  {m m' : Table Nodeinfo} {id : Int} {clean : Bool} {i : Nat} {n : Nodeinfo}

/-! ## The check phase -/

/-- The nodes as the check phase leaves them, the slot it has chosen for a new node,
and whether the slot's `stat` area is to be wiped. -/
inductive Prepared (httpd : Httpd) (ts : Tables) (px : Option Proxy) (args : ConfigArgs) :
    Table Nodeinfo → Int → Bool → Prop
  /-- No worker has an id, and slot `k` is the first with Host and Port of the message. -/
  | hostPort (k : Nat) (a : Nodeinfo) (hid : (workerFound httpd ts px args).2 = -1)
      (hfirst : ts.nodes.first (hasHostPort args.node.mess.host args.node.mess.port) = some k)
      (hused : ts.nodes.used k = some a) (hname : a.mess.jvmRoute ≠ REMOVED) :
      Prepared httpd ts px args ts.nodes k true
  | revived (k : Nat) (a : Nodeinfo) (hid : (workerFound httpd ts px args).2 = -1)
      (hfirst : ts.nodes.first (hasHostPort args.node.mess.host args.node.mess.port) = some k)
      (hused : ts.nodes.used k = some a) (hname : a.mess.jvmRoute = REMOVED) :
      Prepared httpd ts px args (revive ts.nodes k args.node.mess.jvmRoute) k true
  /-- Nothing is known of the node. -/
  | unknown (id : Int) (hid : (workerFound httpd ts px args).2 = -1)
      (hnone : ts.nodes.first (hasHostPort args.node.mess.host args.node.mess.port) = none)
      (hfree : ∀ i n, ts.nodes.used i = some n → id ≠ i) (hlocal : px = none → id = -1) :
      Prepared httpd ts px args ts.nodes id true
  /-- The worker's slot holds the node. -/
  | same (k : Nat) (hid : (workerFound httpd ts px args).2 = k)
      (hknown : ts.nodes.first (hasRoute args.node.mess.jvmRoute) = some k) :
      Prepared httpd ts px args ts.nodes k true
  /-- The worker's slot is another one than that of the node. -/
  | moved (id : Int) (k : Nat) (hid : (workerFound httpd ts px args).2 = id) (hne : id ≠ -1) (hk : id ≠ k)
      (hknown : ts.nodes.first (hasRoute args.node.mess.jvmRoute) = some k) :
      Prepared httpd ts px args ts.nodes id false
  /-- The node is new and goes into the worker's slot. -/
  | adopted (k : Nat) (hid : (workerFound httpd ts px args).2 = k) (hlt : k < ts.nodes.size)
      (hnew : ts.nodes.first (hasRoute args.node.mess.jvmRoute) = none)
      (hname : (ts.nodes.peek k).mess.jvmRoute ≠ REMOVED)
      (hfree : (ts.nodes.peek k).mess.jvmRoute ≠ [] →
        (ts.nodes.peek k).mess.jvmRoute = args.node.mess.jvmRoute) :
      Prepared httpd ts px args ts.nodes k false
  | renamed (k : Nat) (hid : (workerFound httpd ts px args).2 = k) (hlt : k < ts.nodes.size)
      (hnew : ts.nodes.first (hasRoute args.node.mess.jvmRoute) = none)
      (hname : (ts.nodes.peek k).mess.jvmRoute = REMOVED) :
      Prepared httpd ts px args (setJvmRoute ts.nodes k args.node.mess.jvmRoute) k false
  /-- The worker has a number that no slot has. -/
  | outside (id : Int) (hid : (workerFound httpd ts px args).2 = id) (hne : id ≠ -1)
      (hnew : ts.nodes.first (hasRoute args.node.mess.jvmRoute) = none) (hout : ts.nodes.dptr id = none) :
      Prepared httpd ts px args ts.nodes id false

section Check

variable (hok : IdsOk ts) (hargs : ArgsOk args)

include hok hargs

theorem checkHostPort_prepared (hid : (workerFound httpd ts px args).2 = -1)
    (h : checkHostPort ts px (messageNode ts args) = .go plan) :
    Prepared httpd ts px args plan.nodes plan.id plan.clean := by
  unfold checkHostPort at h
  rw [messageNode_hostPort hok hargs, findNodeByhostport_eq hok.nodes, messageNode_jvmRoute hok hargs] at h
  cases h
  cases hw : ts.nodes.first (hasHostPort args.node.mess.host args.node.mess.port) with
  | none =>
    simp only [reviveRemoved, workerNodeId, if_true]
    refine Prepared.unknown _ hid hw (fun i n hn => proxyNodeGetFreeId_free hok.nodes hn) ?_
    rintro rfl
    rfl
  | some k =>
    obtain ⟨a, ha, -, -⟩ := first_eq_some hw
    have hka : a.mess.id = k := hok.nodes k a ha
    have hkid : workerNodeId ts.nodes (some k) = k := by rw [workerNodeId, peek_of_used ha, hka]
    simp only [hkid, reviveRemoved, peek_of_used ha, if_neg (show ¬ (k : Int) = -1 by omega)]
    split
    · rename_i hname
      exact Prepared.revived k a hid hw ha hname
    · rename_i hname
      exact Prepared.hostPort k a hid hw ha hname

theorem renameRemoved_prepared (hid : (workerFound httpd ts px args).2 ≠ -1)
    (hother : ¬ ((knownNode ts args).isSome ∧
      workerNodeId ts.nodes (knownNode ts args) = (workerFound httpd ts px args).2))
    (htaken : ¬ isTaken ts.nodes args.node.mess.jvmRoute
      (workerNode ts.nodes (knownNode ts args) (workerFound httpd ts px args).2) = true) :
    Prepared httpd ts px args (renameRemoved ts.nodes args.node.mess.jvmRoute
      (workerNode ts.nodes (knownNode ts args) (workerFound httpd ts px args).2))
      (workerFound httpd ts px args).2 false := by
  have hknown := knownNode_eq hok.nodes hargs.id
  cases hk : ts.nodes.first (hasRoute args.node.mess.jvmRoute) with
  | some k =>
    obtain ⟨a, ha, -, -⟩ := first_eq_some hk
    have hka : a.mess.id = k := hok.nodes k a ha
    have hne : (workerFound httpd ts px args).2 ≠ k := by
      intro heq
      refine hother ⟨by rw [hknown, hk]; rfl, ?_⟩
      rw [hknown, hk, workerNodeId, peek_of_used ha, hka, heq]
    have hnone : workerNode ts.nodes (knownNode ts args) (workerFound httpd ts px args).2 = none := by
      rw [hknown, hk]
      rfl
    rw [hnone]
    exact Prepared.moved _ k rfl hid hne hk
  | none =>
    cases hw : workerNode ts.nodes (knownNode ts args) (workerFound httpd ts px args).2 with
    | none =>
      refine Prepared.outside _ rfl hid hk ?_
      unfold workerNode at hw
      rw [hknown, hk, if_pos Option.isNone_none, readNodeById, readNode_id hid] at hw
      exact hw
    | some k =>
      obtain ⟨-, hidk, hlt⟩ := (workerNode_eq_some hid).mp hw
      rw [hw] at htaken
      simp only [renameRemoved]
      rw [hidk]
      split
      · rename_i hname
        exact Prepared.renamed k hidk hlt hk hname
      · rename_i hname
        refine Prepared.adopted k hidk hlt hk hname fun hne => ?_
        by_contra hroute
        refine htaken ?_
        simp only [isTaken, Bool.and_eq_true, bne_iff_ne]
        exact ⟨⟨hname, hne⟩, hroute⟩

theorem checkConfig_prepared (h : checkConfig httpd ts px args = .go plan) :
    Admitted ts args ∧ Prepared httpd ts px args plan.nodes plan.id plan.clean ∧
      ∃ k, plan.nodeinfo.mess = { args.node.mess with id := k } := by
  by_cases hadm : Admitted ts args
  swap
  · obtain ⟨e, he⟩ := checkConfig_denied hadm
    rw [he] at h
    cases h
  obtain ⟨k, hmess⟩ := messageNode_mess hok.nodes hargs.id
  refine ⟨hadm, ?_⟩
  rw [checkConfig_admitted hadm] at h
  split at h
  · rename_i hid
    refine ⟨checkHostPort_prepared hok hargs hid h, k, ?_⟩
    cases h
    exact hmess
  rename_i hid
  split at h
  · rename_i hsame
    cases h
    refine ⟨?_, k, hmess⟩
    obtain ⟨hsome, hslot⟩ := hsame
    rw [knownNode_eq hok.nodes hargs.id] at hsome hslot
    obtain ⟨j, hj⟩ := Option.isSome_iff_exists.mp hsome
    obtain ⟨a, ha, -, -⟩ := first_eq_some hj
    have hja : a.mess.id = j := hok.nodes j a ha
    rw [hj, workerNodeId, peek_of_used ha, hja] at hslot
    simp only [← hslot]
    exact Prepared.same j hslot.symm hj
  rename_i hother
  unfold checkWorker at h
  simp only [messageNode_jvmRoute hok hargs] at h
  split at h
  · cases h
  rename_i htaken
  rcases reuseWorker_cases with habort | ⟨p, r, w, -, -, -, hgo⟩
  · rw [habort] at h
    cases h
  · rw [hgo] at h
    cases h
    exact ⟨renameRemoved_prepared hok hargs hid hother htaken, k, hmess⟩

theorem checkConfig_abort_prepared (h : checkConfig httpd ts px args = .abort m) :
    Admitted ts args ∧ ∃ id, Prepared httpd ts px args m id false := by
  by_cases hadm : Admitted ts args
  swap
  · obtain ⟨e, he⟩ := checkConfig_denied hadm
    rw [he] at h
    cases h
  refine ⟨hadm, ?_⟩
  rw [checkConfig_admitted hadm] at h
  split at h
  · cases h
  rename_i hid
  split at h
  · cases h
  rename_i hother
  unfold checkWorker at h
  simp only [messageNode_jvmRoute hok hargs] at h
  split at h
  · cases h
  rename_i htaken
  rcases reuseWorker_cases with habort | ⟨p, r, w, -, -, -, hgo⟩
  · rw [habort] at h
    cases h
    exact ⟨_, renameRemoved_prepared hok hargs hid hother htaken⟩
  · rw [hgo] at h
    cases h

omit hargs in
theorem Prepared.idsMatch (h : Prepared httpd ts px args m id clean) : m.IdsMatch (·.mess.id) := by
  cases h with
  | revived k a hid hfirst hused hname =>
    refine hok.nodes.poke fun b hb => ?_
    rw [peek_of_used hb]
  | renamed k hid hlt hnew hname =>
    refine hok.nodes.poke fun b hb => ?_
    rw [peek_of_used hb]
  | _ => exact hok.nodes

end Check

/-! ## The commit phase -/

/-- The record of slot `k` when it holds the node of the message. -/
def storedNode (now : Int) (args : ConfigArgs) (k : Nat) (s : WorkerShared) : Nodeinfo where
  mess := { args.node.mess with id := k }
  updatetime := now
  stat := s

/-- The node is stored in slot `k`, the first with its name or one of its own. -/
inductive NodeStored (now : Int) (args : ConfigArgs) (m : Table Nodeinfo) (id : Int) (clean : Bool) (k : Nat) :
    Table Nodeinfo → Prop
  | updated (a : Nodeinfo) (s : WorkerShared)
      (hfirst : m.first (hasRoute args.node.mess.jvmRoute) = some k) (hused : m.used k = some a)
      (hstat : clean = true → s = a.stat) :
      NodeStored now args m id clean k (m.poke k (storedNode now args k s))
  | inserted (s : WorkerShared)
      (hnew : m.first (hasRoute args.node.mess.jvmRoute) = none) (hlt : k < m.size)
      (hslot : id = -1 ∧ m.used k = none ∨ id = k) :
      NodeStored now args m id clean k (m.store k (storedNode now args k s))

theorem insertUpdateNode_stored {node node' : Nodeinfo} {id' : Int} (hids : m.IdsMatch (·.mess.id))
    (hmess : ∃ k, node.mess = { args.node.mess with id := k })
    (h : insertUpdateNode now m node id clean = some (m', node', id')) :
    ∃ k : Nat, id' = k ∧ NodeStored now args m id clean k m' := by
  obtain ⟨j, hmess⟩ := hmess
  have hroute : node.mess.jvmRoute = args.node.mess.jvmRoute := by rw [hmess]
  rcases insertUpdateNode_cases h with ⟨k, a, hf, ha, rfl, -, rfl⟩ | ⟨k, hf, hlt, rfl, -, rfl, hslot⟩
  · have hka : a.mess.id = k := hids k a ha
    have hstored : Node.merge now a node = storedNode now args k a.stat := by
      simp only [Node.merge, storedNode, hmess, hka]
    rw [hstored]
    exact ⟨k, hka, NodeStored.updated a _ (hroute ▸ hf) ha fun _ => rfl⟩
  · have hstored : freshNode now node clean k = storedNode now args k (if clean then default else node.stat) := by
      simp only [freshNode, storedNode, hmess]
    rw [hstored]
    refine ⟨k, rfl, NodeStored.inserted _ (hroute ▸ hf) hlt ?_⟩
    rcases hslot with ⟨hid, hfree, -⟩ | hid
    · exact Or.inl ⟨hid, hfree⟩
    · exact Or.inr hid

theorem NodeStored.pokeStat {k : Nat} (h : NodeStored now args m id false k m') (f : WorkerShared → WorkerShared) :
    NodeStored now args m id false k (m'.poke k { m'.peek k with stat := f (m'.peek k).stat }) := by
  cases h with
  | updated a s hfirst hused hstat =>
    rw [poke_poke, peek_poke_self _ (used_lt hused)]
    exact NodeStored.updated a _ hfirst hused nofun
  | inserted s hnew hlt hslot =>
    rw [peek_store_self _ hlt, store, poke_poke, ← store]
    exact NodeStored.inserted _ hnew hlt hslot

theorem pairWorker_stored {nodeinfo : Nodeinfo} {k : Nat}
    (h : NodeStored now args plan.nodes plan.id plan.clean k ts.nodes)
    (hp : pairWorker now ts px plan nodeinfo k = some (ts', px')) :
    NodeStored now args plan.nodes plan.id plan.clean k ts'.nodes := by
  unfold pairWorker at hp
  split at hp
  · cases hp
    exact h
  rename_i hclean
  rw [Bool.not_eq_true] at hclean
  repeat' split at hp
  all_goals cases hp
  rename_i i _ _ hread _ _ _ _ _ _ _ _
  rw [readNodeById, readNode_id (by omega)] at hread
  obtain ⟨hki, -⟩ := dptr_eq_some.mp hread
  have hik : i = k := by omega
  subst hik
  rw [hclean] at h ⊢
  exact h.pokeStat _

/-! ## The whole command -/

/-- The node table after a CONFIG whose message could be read. -/
inductive ConfigNodes (httpd : Httpd) (ts : Tables) (px : Option Proxy) (args : ConfigArgs) (now : Int) :
    Table Nodeinfo → Prop
  | refused : ConfigNodes httpd ts px args now ts.nodes
  | prepared (m : Table Nodeinfo) (id : Int) (clean : Bool) (hadm : Admitted ts args)
      (hprep : Prepared httpd ts px args m id clean) : ConfigNodes httpd ts px args now m
  | stored (m m' : Table Nodeinfo) (id : Int) (clean : Bool) (k : Nat) (hadm : Admitted ts args)
      (hprep : Prepared httpd ts px args m id clean) (hstored : NodeStored now args m id clean k m') :
      ConfigNodes httpd ts px args now m'

theorem Committed.nodes {r : ConfigResult} (h : Committed now ts px args plan r) (hadm : Admitted ts args)
    (hids : plan.nodes.IdsMatch (·.mess.id)) (hprep : Prepared httpd ts px args plan.nodes plan.id plan.clean)
    (hmess : ∃ k, plan.nodeinfo.mess = { args.node.mess with id := k })
    (hremoved : plan.removed ≠ -1 → plan.id = plan.removed ∧ ∃ i, plan.nodes.dptr plan.id = some i) :
    ConfigNodes httpd ts px args now r.tables.nodes := by
  cases h with
  | noBalancer hb => exact ConfigNodes.prepared _ _ _ hadm hprep
  | noNode balancers b hb hnone =>
    rw [rollback_nodes hremoved hnone]
    exact ConfigNodes.prepared _ _ _ hadm hprep
  | aborted balancers b nodes nodeinfo id hb hins hp =>
    obtain ⟨k, -, hstored⟩ := insertUpdateNode_stored hids hmess hins
    exact ConfigNodes.stored _ _ _ _ k hadm hprep hstored
  | stored balancers b nodes nodeinfo id ts' px' r hb hins hp hr =>
    obtain ⟨k, rfl, hstored⟩ := insertUpdateNode_stored hids hmess hins
    have hpaired := pairWorker_stored hstored hp
    subst hr
    rw [addAliases_nodes]
    exact ConfigNodes.stored _ _ _ _ k hadm hprep hpaired

theorem processConfig_nodes {mconf : Mconf} {argv : Argv} (hok : IdsOk ts)
    (hparse : parseConfig httpd mconf argv = .ok args) :
    ConfigNodes httpd ts px args now (processConfig httpd mconf now ts px argv).tables.nodes := by
  have hargs := parseConfig_argsOk hparse
  have hcheck := checkConfig_ok False httpd ts px args
    (by rw [← messageNode, messageNode_jvmRoute hok hargs]; exact hargs.route)
  unfold processConfig
  simp only [hparse]
  cases h : checkConfig httpd ts px args with
  | fail e => exact ConfigNodes.refused
  | abort nodes =>
    obtain ⟨hadm, id, hprep⟩ := checkConfig_abort_prepared hok hargs h
    exact ConfigNodes.prepared _ _ _ hadm hprep
  | go plan =>
    obtain ⟨hadm, hprep, hmess⟩ := checkConfig_prepared hok hargs h
    rw [h] at hcheck
    exact (commitConfig_committed now ts px args plan).nodes hadm (hprep.idsMatch hok) hprep hmess hcheck.2.2

theorem processConfig_unread {mconf : Mconf} {argv : Argv} {e : McmpError}
    (hparse : parseConfig httpd mconf argv = .error e) :
    (processConfig httpd mconf now ts px argv).tables = ts := by
  unfold processConfig
  rw [hparse]

end ModCluster
