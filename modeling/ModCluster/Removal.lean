import ModCluster.WorkerCounts
import ModCluster.ConfigFrame

/-!
# Removal under live workers

A slot is freed when its node is called "REMOVED" and its `has_workers` is zero. The
count covers the workers that point into the slot as long as it did so when the node
got that name, no worker is made for the slot afterwards and no lookup unpairs more
workers than were counted beyond them.
-/

open CString Slotmem Slotmem.Table

namespace ModCluster

variable {httpd : Httpd} {ts ts' : Tables} {now wait : Int}

/-! ## Commands -/

/-- Nothing new is called "REMOVED", and what is keeps its count. -/
def NoNewRemoved (m m' : Table Nodeinfo) : Prop :=
  ∀ j, (m'.peek j).mess.jvmRoute = REMOVED →
    (m.peek j).mess.jvmRoute = REMOVED ∧ (m'.peek j).mess.hasWorkers = (m.peek j).mess.hasWorkers

section Commands

variable {m m' : Table Nodeinfo}

theorem NoNewRemoved.refl : NoNewRemoved m m := fun _ h => ⟨h, rfl⟩

theorem NoNewRemoved.trans {m'' : Table Nodeinfo} (h : NoNewRemoved m m') (h' : NoNewRemoved m' m'') :
    NoNewRemoved m m'' := by
  intro j hj
  obtain ⟨hr', hc'⟩ := h' j hj
  obtain ⟨hr, hc⟩ := h j hr'
  exact ⟨hr, hc'.trans hc⟩

theorem NoNewRemoved.poke {i : Nat} {n : Nodeinfo} (h : n.mess.jvmRoute ≠ REMOVED) : NoNewRemoved m (m.poke i n) := by
  intro j hj
  rw [peek_poke_eq] at hj ⊢
  split at hj
  · exact absurd hj h
  · rename_i hij
    rw [if_neg hij]
    exact ⟨hj, rfl⟩

theorem NoNewRemoved.store {i : Nat} {n : Nodeinfo} (h : n.mess.jvmRoute ≠ REMOVED) :
    NoNewRemoved m (m.store i n) := by
  have hset : NoNewRemoved m (m.setInuse i true) := by
    intro j hj
    rw [peek_setInuse] at hj ⊢
    exact ⟨hj, rfl⟩
  exact hset.trans (NoNewRemoved.poke h)

theorem NoNewRemoved.of_mess (h : ∀ j, (m'.peek j).mess.jvmRoute = (m.peek j).mess.jvmRoute ∧
    (m'.peek j).mess.hasWorkers = (m.peek j).mess.hasWorkers) : NoNewRemoved m m' := by
  intro j hj
  rw [(h j).1] at hj
  exact ⟨hj, (h j).2⟩

theorem renameRemoved_counts {route : Str} (h : route ≠ REMOVED) (w : Option Nat) :
    NoNewRemoved m (renameRemoved m route w) := by
  unfold renameRemoved
  split
  · split
    · exact NoNewRemoved.poke h
    · exact NoNewRemoved.refl
  · exact NoNewRemoved.refl

theorem reviveRemoved_counts {route : Str} (h : route ≠ REMOVED) (w : Option Nat) :
    NoNewRemoved m (reviveRemoved m route w) := by
  unfold reviveRemoved
  split
  · split
    · exact NoNewRemoved.poke h
    · exact NoNewRemoved.refl
  · exact NoNewRemoved.refl

theorem insertUpdateNode_counts {node node' : Nodeinfo} {id id' : Int} {clean : Bool}
    (hroute : node.mess.jvmRoute ≠ REMOVED)
    (h : insertUpdateNode now m node id clean = some (m', node', id')) : NoNewRemoved m m' := by
  rcases insertUpdateNode_cases h with ⟨i, a, -, -, rfl, -⟩ | ⟨i, -, -, rfl, -⟩
  · exact NoNewRemoved.poke hroute
  · exact NoNewRemoved.store hroute

theorem checkConfig_counts {px : Option Proxy} {args : ConfigArgs} (hok : IdsOk ts) (hargs : ArgsOk args)
    (hroute : args.node.mess.jvmRoute ≠ REMOVED) :
    match checkConfig httpd ts px args with
    | .go plan => NoNewRemoved ts.nodes plan.nodes ∧ plan.nodeinfo.mess.jvmRoute ≠ REMOVED
    | .abort nodes => NoNewRemoved ts.nodes nodes
    | .fail _ => True := by
  have hname := messageNode_jvmRoute hok hargs
  by_cases hadm : Admitted ts args
  swap
  · obtain ⟨e, he⟩ := checkConfig_denied hadm
    rw [he]
    trivial
  rw [checkConfig_admitted hadm]
  by_cases hid : (workerFound httpd ts px args).2 = -1
  · rw [if_pos hid]
    exact ⟨reviveRemoved_counts (by rw [hname]; exact hroute) _, by rw [hname]; exact hroute⟩
  rw [if_neg hid]
  by_cases hsame : (knownNode ts args).isSome ∧
      workerNodeId ts.nodes (knownNode ts args) = (workerFound httpd ts px args).2
  · rw [if_pos hsame]
    exact ⟨NoNewRemoved.refl, by rw [hname]; exact hroute⟩
  rw [if_neg hsame]
  unfold checkWorker
  simp only
  by_cases htaken : isTaken ts.nodes (messageNode ts args).mess.jvmRoute
      (workerNode ts.nodes (knownNode ts args) (workerFound httpd ts px args).2) = true
  · rw [if_pos htaken]
    trivial
  rw [if_neg htaken]
  have hren := @renameRemoved_counts ts.nodes (messageNode ts args).mess.jvmRoute (by rw [hname]; exact hroute)
    (workerNode ts.nodes (knownNode ts args) (workerFound httpd ts px args).2)
  rcases reuseWorker_cases with habort | ⟨p, r, w, -, -, -, hgo⟩
  · rw [habort]
    exact hren
  · rw [hgo]
    exact ⟨hren, by rw [hname]; exact hroute⟩

theorem pairWorker_attached {px px' : Proxy} {plan : Plan} {nodeinfo : Nodeinfo} {id : Int} (hne : id ≠ -1)
    (h : pairWorker now ts (some px) plan nodeinfo id = some (ts', some px')) :
    StatWrites ts ts' ∧ ∀ j : Nat, id ≠ j → px'.attached j ≤ px.attached j := by
  unfold pairWorker at h
  split at h
  · cases h
    exact ⟨StatWrites.refl, fun _ _ => Nat.le_refl _⟩
  split at h
  swap
  · cases h
  rename_i i px₁ r hi hpx hr
  cases hpx
  split at h
  swap
  · cases h
  rename_i w hw
  split at h
  swap
  · cases h
  rename_i helper hhelper
  split at h
  swap
  · cases h
  rename_i hid
  simp only [Option.some.injEq, Prod.mk.injEq] at h
  obtain ⟨rfl, rfl⟩ := h
  refine ⟨StatWrites.refl.write, fun j hij => ?_⟩
  have hidi : id = i := by
    rw [readNodeById, readNode_id hne, dptr_eq_some] at hi
    exact hi.1
  refine Nat.le_of_add_le_add_right (b := if pointsTo j w then 1 else 0) ?_
  simp only [reenableProxyWorker]
  rw [Proxy.attached_setWorker hw, pointsTo_slot_ne (i := i) (by omega) rfl]
  exact Nat.add_le_add_left (Nat.zero_le _) _

theorem pairWorker_proxy {px : Proxy} {px' : Option Proxy} {plan : Plan} {nodeinfo : Nodeinfo} {id : Int}
    (h : pairWorker now ts (some px) plan nodeinfo id = some (ts', px')) : ∃ p, px' = some p := by
  unfold pairWorker at h
  split at h
  · cases h
    exact ⟨px, rfl⟩
  · repeat' split at h
    all_goals cases h
    exact ⟨_, rfl⟩

theorem processConfig_counts {px : Proxy} {mconf : Mconf} {argv : Argv} {res : ConfigResult} (hok : IdsOk ts)
    (hroute : ∀ args, parseConfig httpd mconf argv = .ok args → args.node.mess.jvmRoute ≠ REMOVED)
    (hres : processConfig httpd mconf now ts (some px) argv = res) :
    NoNewRemoved ts.nodes res.tables.nodes ∧
      ∀ px', res.proxy = some px' → ∀ j, (res.tables.nodes.peek j).mess.jvmRoute = REMOVED →
        px'.attached j ≤ px.attached j := by
  have hsame : ∀ px', some px = some px' → ∀ j, px'.attached j ≤ px.attached j := by
    intro px' h j
    cases h
    exact Nat.le_refl _
  unfold processConfig at hres
  cases hparse : parseConfig httpd mconf argv with
  | error e =>
    rw [hparse] at hres
    subst hres
    exact ⟨NoNewRemoved.refl, fun px' h j _ => hsame px' h j⟩
  | ok args =>
    have hargs := parseConfig_argsOk hparse
    have hcheck := @checkConfig_counts httpd _ (some px) _ hok hargs (hroute args hparse)
    rw [hparse] at hres
    simp only at hres
    have hedits := checkConfig_ok False httpd ts (some px) args
      (by rw [← messageNode, messageNode_jvmRoute hok hargs]; exact hargs.route)
    cases hgo : checkConfig httpd ts (some px) args with
    | fail e =>
      rw [hgo] at hres
      subst hres
      exact ⟨NoNewRemoved.refl, fun px' h j _ => hsame px' h j⟩
    | abort nodes =>
      rw [hgo] at hres hcheck
      subst hres
      exact ⟨hcheck, fun px' h j _ => hsame px' h j⟩
    | go plan =>
      rw [hgo] at hres hcheck hedits
      obtain ⟨hnodes, hplan⟩ := hcheck
      simp only at hres
      have hcommit := commitConfig_committed now ts (some px) args plan
      rw [hres] at hcommit
      cases hcommit with
      | noBalancer hb => exact ⟨hnodes, fun px' h j _ => hsame px' h j⟩
      | noNode balancers b hb hn =>
        rw [rollback_nodes hedits.2.2 hn]
        exact ⟨hnodes, fun px' h j _ => hsame px' h j⟩
      | aborted balancers b nodes nodeinfo id hb hn hp =>
        exact ⟨hnodes.trans (insertUpdateNode_counts hplan hn), fun px' h j _ => hsame px' h j⟩
      | stored balancers b nodes nodeinfo id ts' px' r hb hn hp hr =>
        have hstore := hnodes.trans (insertUpdateNode_counts hplan hn)
        have hidx : ∃ i : Nat, id = i ∧ (nodes.peek i).mess.jvmRoute ≠ REMOVED := by
          rcases insertUpdateNode_cases hn with ⟨i, a, -, ha, rfl, -, rfl⟩ | ⟨i, -, hlt, rfl, -, rfl, -⟩
          · refine ⟨i, (hedits.1.idsOk hok).nodes i a ha, ?_⟩
            rw [peek_poke_self _ (used_lt ha)]
            exact hplan
          · refine ⟨i, rfl, ?_⟩
            rw [peek_store_self _ hlt]
            exact hplan
        obtain ⟨i, rfl, hi⟩ := hidx
        obtain ⟨p, rfl⟩ := pairWorker_proxy hp
        obtain ⟨hwrites, hcount⟩ := pairWorker_attached (by omega) hp
        have hrnodes : r.1.nodes = ts'.nodes := by
          rw [hr, addAliases_nodes]
          rfl
        have hmess := hwrites.mess
        simp only at hmess
        constructor
        · rw [hrnodes]
          exact hstore.trans (NoNewRemoved.of_mess fun j => by rw [hmess j]; exact ⟨rfl, rfl⟩)
        · intro px' hpx' j hj
          cases hpx'
          refine hcount j fun hij => hi ?_
          have hij' : i = j := by omega
          rw [hrnodes, hmess, ← hij'] at hj
          exact hj

theorem appAliases_nodes {cmd : ContextStatus} {node : Int} {contexts : List Str} (aliases : List Str) {vid : Int} :
    (appAliases now cmd node contexts aliases vid ts).1.nodes = ts.nodes := by
  induction aliases generalizing ts vid with
  | nil => rfl
  | cons host rest ih =>
    unfold appAliases
    split
    · exact ih
    · simp only
      rw [ih]
      split
      · unfold dropHosts
        split <;> rfl
      · rfl

theorem processAppCmd_counts (httpd : Httpd) (now : Int) (filename : Str) (argv : Argv) (cmd : ContextStatus)
    (hok : IdsOk ts) : NoNewRemoved ts.nodes (processAppCmd httpd now ts filename argv cmd).tables.nodes := by
  unfold processAppCmd
  simp only
  split
  · exact NoNewRemoved.refl
  · exact NoNewRemoved.refl
  rename_i args hparse
  cases hf : ts.nodes.first (hasRoute args.jvmRoute) with
  | none =>
    rw [readNode_none rfl hf]
    exact NoNewRemoved.refl
  | some i =>
    obtain ⟨a, ha, hr, -⟩ := first_eq_some hf
    have hra : a.mess.jvmRoute = args.jvmRoute := hasRoute_iff.mp hr
    rw [readNode_some hok.nodes rfl hf]
    simp only
    split
    · exact NoNewRemoved.refl
    split
    · simp only [processNodeCmd]
      split
      · exact NoNewRemoved.refl
      split
      · -- The mark for removal keeps name and count.
        simp only [nodeCmdHosts_nodes]
        have hmark := @removeMark_eq now ((incVersionNode ts).nodes) _ _ (hra ▸ hf) ha
        rw [hmark]
        refine NoNewRemoved.of_mess fun j => ?_
        rw [peek_poke_eq]
        split
        · rename_i hij
          rw [← hij.1, peek_of_used ha]
          exact ⟨rfl, rfl⟩
        · exact ⟨rfl, rfl⟩
      · rw [nodeCmdHosts_nodes]
        exact NoNewRemoved.refl
    · rw [appAliases_nodes]
      exact NoNewRemoved.refl

end Commands

/-! ## The walk of `remove_removed_node` -/

section Walk

variable {count : Nat → Nat} {i : Nat} {n : Nodeinfo}

/-- `count` is covered by the counts of the nodes called "REMOVED". -/
def CountedBy (ts : Tables) (count : Nat → Nat) : Prop :=
  ∀ j, (ts.nodes.peek j).mess.jvmRoute = REMOVED → count j ≤ (ts.nodes.peek j).mess.hasWorkers

/-- It is time to rename the node. -/
def Retires (wait now : Int) (n : Nodeinfo) : Prop :=
  n.mess.jvmRoute ≠ REMOVED ∧ n.mess.remove = true ∧ now - n.updatetime ≥ wait ∧ now - n.mess.lastcleantry ≥ wait

/-- What the walk does to the node of slot `i`. -/
inductive WalkStep (wait now : Int) (m : Table Nodeinfo) (i : Nat) (n : Nodeinfo) : Table Nodeinfo → Option Int → Prop
  | skip : WalkStep wait now m i n m none
  | named (n' : Nodeinfo) (hroute : n'.mess.jvmRoute = REMOVED) (hcount : n'.mess.hasWorkers = n.mess.hasWorkers)
      (hold : n.mess.jvmRoute = REMOVED ∨ Retires wait now n) : WalkStep wait now m i n (m.poke i n') none
  | freed (n' : Nodeinfo) (hroute : n'.mess.jvmRoute = REMOVED) (hcount : n'.mess.hasWorkers = n.mess.hasWorkers)
      (hold : n.mess.jvmRoute = REMOVED) (hzero : n.mess.hasWorkers = 0) :
      WalkStep wait now m i n ((m.poke i n').setInuse i false) (some i)

theorem removeRemovedStep_walk (hok : IdsOk ts) (hn : ts.nodes.used i = some n) :
    WalkStep wait now ts.nodes i n (removeRemovedStep httpd wait now ts i).1.nodes
      (removeRemovedStep httpd wait now ts i).2 := by
  have hd : getNode ts.nodes (i : Int) = some i := dptr_ofNat (used_lt hn)
  have hid : n.mess.id = i := hok.nodes i n hn
  simp only [removeRemovedStep, hd, peek_of_used hn]
  split
  · rename_i hr
    split
    · exact WalkStep.named _ hr.1 rfl (Or.inl hr.1)
    · rename_i hzero
      have hzero' : n.mess.hasWorkers = 0 := by
        simp only [nodeHasWorkers, gt_iff_lt, decide_eq_true_eq] at hzero
        omega
      split
      · simp only [removeNode, hid, release_ofNat]
        exact WalkStep.freed _ hr.1 rfl hr.1 hzero'
      · exact WalkStep.named _ hr.1 rfl (Or.inl hr.1)
  · rename_i hr
    split
    · rename_i hrem
      simp only [locRemoveHostContext_nodes]
      exact WalkStep.named _ rfl rfl (Or.inr ⟨fun h => hr ⟨h, hrem.2.1⟩, hrem⟩)
    · exact WalkStep.skip

theorem WalkStep.peek_ne {m m' : Table Nodeinfo} {r : Option Int} (h : WalkStep wait now m i n m' r) {j : Nat}
    (hij : i ≠ j) : m'.peek j = m.peek j := by
  cases h with
  | skip => rfl
  | named n' => exact peek_poke_ne n' hij
  | freed n' => rw [peek_setInuse, peek_poke_ne n' hij]

theorem WalkStep.counted {r : Option Int} (h : WalkStep wait now ts.nodes i n ts'.nodes r)
    (hn : ts.nodes.used i = some n) (hcount : CountedBy ts count)
    (hretire : ∀ j a, ts.nodes.used j = some a → Retires wait now a → count j ≤ a.mess.hasWorkers) :
    CountedBy ts' count ∧
      ∀ j a, ts'.nodes.used j = some a → Retires wait now a → count j ≤ a.mess.hasWorkers := by
  have hlt := used_lt hn
  constructor
  · intro j hj
    by_cases hij : i = j
    · subst hij
      generalize ts'.nodes = m' at h hj ⊢
      have hcov : n.mess.jvmRoute = REMOVED ∨ Retires wait now n → count i ≤ n.mess.hasWorkers := by
        rintro (hold | hret)
        · have := hcount i (by rw [peek_of_used hn]; exact hold)
          rw [peek_of_used hn] at this
          exact this
        · exact hretire i n hn hret
      cases h with
      | skip => exact hcount i hj
      | named n' hroute hsame hold =>
        rw [peek_poke_self _ hlt, hsame]
        exact hcov hold
      | freed n' hroute hsame hold hzero =>
        rw [peek_setInuse, peek_poke_self _ hlt, hsame]
        exact hcov (Or.inl hold)
    · rw [h.peek_ne hij] at hj ⊢
      exact hcount j hj
  · intro j a ha hret
    generalize ts'.nodes = m' at h ha
    cases h with
    | skip => exact hretire j a ha hret
    | named n' hroute hsame hold =>
      rcases used_of_poke ha with ⟨rfl, rfl, -⟩ | ⟨-, ha'⟩
      · exact absurd hroute hret.1
      · exact hretire j a ha' hret
    | freed n' hroute hsame hold hzero =>
      rcases used_of_poke (used_of_free ha).2 with ⟨rfl, rfl, -⟩ | ⟨-, ha'⟩
      · exact absurd hroute hret.1
      · exact hretire j a ha' hret

theorem removeRemovedLoop_counted (ids : List Int) (hok : IdsOk ts) (hids : IdsUsed ts.nodes ids)
    (hcount : CountedBy ts count)
    (hretire : ∀ j a, ts.nodes.used j = some a → Retires wait now a → count j ≤ a.mess.hasWorkers) :
    CountedBy (removeRemovedLoop httpd wait now ids ts) count := by
  induction ids generalizing ts with
  | nil => exact hcount
  | cons id ids ih =>
    obtain ⟨i, n, hn, rfl⟩ := hids.used id (by simp)
    have he := @removeRemovedStep_edits False _ wait now httpd _ _ hok False.elim hn
    obtain ⟨hcount', hretire'⟩ := (removeRemovedStep_walk hok hn).counted
      hn hcount hretire
    exact ih (he.idsOk hok) (removeRemovedStep_idsUsed hok hn hids) hcount' hretire'

theorem removeRemovedCalls_spec (ids : List Int) (hok : IdsOk ts) (hids : IdsUsed ts.nodes ids) :
    ∀ id ∈ removeRemovedCalls httpd wait now ids ts, id ∈ ids ∧ ∃ i : Nat, id = i ∧
      (ts.nodes.peek i).mess.jvmRoute = REMOVED ∧ (ts.nodes.peek i).mess.hasWorkers = 0 := by
  induction ids generalizing ts with
  | nil =>
    intro id hid
    cases hid
  | cons id₀ ids ih =>
    obtain ⟨i, n, hn, rfl⟩ := hids.used id₀ (by simp)
    have he := @removeRemovedStep_edits False _ wait now httpd _ _ hok False.elim hn
    have hwalk := @removeRemovedStep_walk httpd _ now wait _ _ hok hn
    intro id hid
    rcases List.mem_append.mp hid with hid | hid
    · rw [Option.mem_toList] at hid
      have hid' : (removeRemovedStep httpd wait now ts i).2 = some id := hid
      rw [hid'] at hwalk
      generalize (removeRemovedStep httpd wait now ts i).1.nodes = m' at hwalk
      cases hwalk with
      | freed n' hroute hsame hold hzero =>
        refine ⟨by simp, i, rfl, ?_⟩
        rw [peek_of_used hn]
        exact ⟨hold, hzero⟩
    · obtain ⟨hmem, j, rfl, hroute, hzero⟩ := ih (he.idsOk hok) (removeRemovedStep_idsUsed hok hn hids) id hid
      have hij : i ≠ j := by
        rintro rfl
        exact (List.nodup_cons.mp hids.nodup).1 hmem
      rw [hwalk.peek_ne hij] at hroute hzero
      exact ⟨List.mem_cons_of_mem _ hmem, j, rfl, hroute, hzero⟩

end Walk

/-! ## Runs -/

theorem counted_removalSafe {c : Cluster} (hok : IdsOk c.tables) (h : CountedBy c.tables c.attached) :
    RemovalSafe httpd c := by
  intro wait now id hid q hq w hw i hs hidi
  rw [getIdsUsedNode_eq] at hid
  obtain ⟨-, j, hj, hroute, hzero⟩ := removeRemovedCalls_spec _ hok (idsUsed_records hok.nodes) id hid
  have hij : j = i := by omega
  subst hij
  have hpos := Cluster.attached_pos hq hw hs
  have hle := h j hroute
  omega

section Step

variable {c : Cluster} {p k i : Nat} {q : Process} {sv sv' : Server} {px : Proxy} {count count' : Nat → Nat}

theorem Unpairs.counted (h : Unpairs i k ts ts') (hcount : CountedBy ts count) (hle : ∀ j, count' j ≤ count j)
    (hown : (ts.nodes.peek i).mess.jvmRoute = REMOVED → count i ≤ (ts.nodes.peek i).mess.hasWorkers - k) :
    CountedBy ts' count' := by
  intro j hj
  rw [h.jvmRoute] at hj
  have hcj := hcount j hj
  have hlej := hle j
  by_cases hji : j = i
  · subst hji
    have hown' := hown hj
    have hkept := h.own
    omega
  · rw [h.other j hji]
    omega

/-- A step that makes workers for node `i`, which is not called "REMOVED". -/
theorem Unpairs.counted_of_name (h : Unpairs i 0 ts ts') (hcount : CountedBy ts count)
    (hle : ∀ j, j ≠ i → count' j ≤ count j) (hname : (ts.nodes.peek i).mess.jvmRoute ≠ REMOVED) :
    CountedBy ts' count' := by
  intro j hj
  rw [h.jvmRoute] at hj
  have hji : j ≠ i := by
    rintro rfl
    exact hname hj
  have hcj := hcount j hj
  have hlej := hle j hji
  rw [h.other j hji]
  omega

theorem NoNewRemoved.counted (h : NoNewRemoved ts.nodes ts'.nodes) (hcount : CountedBy ts count)
    (hle : ∀ j, (ts'.nodes.peek j).mess.jvmRoute = REMOVED → count' j ≤ count j) : CountedBy ts' count' := by
  intro j hj
  obtain ⟨hr, hsame⟩ := h j hj
  have hcj := hcount j hr
  have hlej := hle j hj
  omega

theorem Cluster.attached_setServer_le (hsv : c.server? p k = some sv) {j : Nat}
    (hle : sv'.attached j ≤ sv.attached j) : (c.setServer ts p k sv').attached j ≤ c.attached j := by
  have h := @Cluster.attached_setServer _ ts _ _ j _ sv' hsv
  omega

theorem Cluster.attached_setProxy_le (hq : c.procs[p]? = some q) {j : Nat}
    (hle : px.attached j ≤ q.proxy.attached j) : (c.setProxy ts p px).attached j ≤ c.attached j := by
  have h := @Cluster.attached_setProxy _ ts _ j _ px hq
  omega

theorem attached_readNodeTable (c : Cluster) (p j : Nat) :
    Cluster.attached { c with procs := c.procs.modify p fun q =>
      { q with seen := readNodeTable c.tables ++ q.seen } } j = c.attached j := by
  unfold Cluster.attached
  simp only
  generalize readNodeTable c.tables = entries
  cases hq : c.procs[p]? with
  | none => rw [List.modify_eq_self (by simpa using hq)]
  | some q =>
    have h := sum_map_modify (fun q : Process => q.proxy.attached j)
      (fun q => { q with seen := entries ++ q.seen }) c.procs p q hq
    simp only at h
    omega

end Step

theorem ClusterStep.counted {c c' : Cluster} (h : ClusterStep httpd True c c') (hok : IdsOk c.tables)
    (hcount : CountedBy c.tables c.attached) : IdsOk c'.tables ∧ CountedBy c'.tables c'.attached := by
  cases h with
  | readNodeTable p =>
    refine ⟨hok, fun j hj => ?_⟩
    rw [attached_readNodeTable]
    exact hcount j hj
  | addWorkers p k q sv hq hsv creatBal main now ou hou hremove i hptr hguard =>
    obtain ⟨hwrites, hle⟩ := addBalancersWorkersForServer_spec (m := ou.info.mess) (i := i)
    refine ⟨hwrites.edits.idsOk hok, hwrites.unpairs.counted_of_name hcount ?_ (hguard trivial)⟩
    intro j hji
    exact Cluster.attached_setServer_le hsv (hle j hji)
  | checkWorkers p k sv sv' hsv hcheck =>
    refine ⟨hok, fun j hj => ?_⟩
    exact Nat.le_trans (Cluster.attached_setServer_le hsv (checkWorkers_spec hcheck j)) (hcount j hj)
  | removeWorkers p k sv hsv now i n hn hremove ts' sv' hrun hguard =>
    obtain ⟨hun, hle⟩ := removeWorkersNode_spec hrun
    refine ⟨hun.edits.idsOk hok, hun.counted hcount ?_ (hguard trivial)⟩
    intro j
    exact Cluster.attached_setServer_le hsv (hle j)
  | lookup p k sv hsv i n hn hguard =>
    obtain ⟨hun, hsame⟩ := getWorkerFromIdStat_spec c.tables sv n.mess.id i
    refine ⟨hun.edits.idsOk hok, hun.counted hcount ?_ ?_⟩
    · intro j
      exact Cluster.attached_setServer_le hsv (Nat.le_of_eq (hsame j))
    · have hown := hguard trivial
      rw [LookupOk, CalledRemoved, peek_of_used hn] at hown
      rw [peek_of_used hn]
      exact hown
  | removeRemovedNode wait now hguard =>
    refine ⟨(removeRemovedNode_edits httpd wait now hok False.elim).idsOk hok, ?_⟩
    have hids := idsUsed_records hok.nodes
    rw [← getIdsUsedNode_eq] at hids
    refine removeRemovedLoop_counted _ hok hids hcount ?_
    intro j a ha hret
    exact hguard trivial j a ha hret.1 hret.2.1 hret.2.2.1 hret.2.2.2
  | isup p k sv hsv creatBal main now i n hn hremove hguard =>
    obtain ⟨hun, hle⟩ := isupServer_spec (i := i)
    refine ⟨hun.edits.idsOk hok, hun.counted_of_name hcount ?_ (hguard trivial)⟩
    intro j hji
    exact Cluster.attached_setServer_le hsv (hle j hji)
  | request p q hq r w hw helper hhelper starts =>
    refine ⟨hok, fun j hj => Nat.le_trans (Cluster.attached_setProxy_le hq ?_) (hcount j hj)⟩
    generalize hw' : { w with context := some { helper with
      countActive := helper.countActive + if starts then 1 else -1 } } = w'
    have h := @Proxy.attached_setWorker j _ _ _ w' hw
    have hs : w'.s = w.s := by rw [← hw']
    rw [pointsTo_congr hs] at h
    omega
  | config p q hq mconf now argv px res hres hpx hguard =>
    obtain ⟨hnew, hle⟩ := processConfig_counts hok (hguard trivial) hres
    have hedits := processConfig_edits httpd mconf now (some q.proxy) argv hok False.elim
    rw [hres] at hedits
    refine ⟨hedits.idsOk hok, hnew.counted hcount ?_⟩
    intro j hj
    exact Cluster.attached_setProxy_le hq (hle px hpx j hj)
  | app now filename argv cmd =>
    have hedits := processAppCmd_edits httpd now filename argv cmd hok False.elim
    refine ⟨hedits.idsOk hok, (processAppCmd_counts httpd now filename argv cmd hok).counted hcount ?_⟩
    intro j _
    exact Nat.le_refl _
  | note i a n ha hnote =>
    have hstep := @Step.bookkeeping httpd False _ i a n ha hnote.toBookkeeping
    refine ⟨(hstep.edits hok False.elim).idsOk hok, fun j hj => ?_⟩
    rw [peek_poke_eq] at hj ⊢
    split at hj
    · rename_i hij
      rw [if_pos hij, hnote.hasWorkers]
      obtain ⟨rfl, -⟩ := hij
      rw [hnote.jvmRoute] at hj
      have hci := hcount i (by rw [peek_of_used ha]; exact hj)
      rw [peek_of_used ha] at hci
      exact hci
    · rename_i hij
      rw [if_neg hij]
      exact hcount j hj

end ModCluster
