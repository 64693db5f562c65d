import ModCluster.ConfigAtomic
import ModCluster.Run

/-!
# The slot of a new node

A node that is new in every respect should get the first slot that nothing refers to.
`proxy_node_get_free_id` answers -1 when there is none, and -1 lets `insert_update_node`
take any slot that is not in use.
-/

open CString Slotmem Slotmem.Table

namespace ModCluster

/-! ## Statement -/

/-- A worker has the number of the slot. -/
def Worker.RefersTo (ts : Tables) (w : Worker) (i : Nat) : Prop :=
  (w.area ts).index = i ∨ ∃ helper, w.context = some helper ∧ helper.index = i

/-- The slot is not in use and no worker of any server has its number. -/
def Unreferred (ts : Tables) (px : Proxy) (i : Nat) : Prop :=
  i < ts.nodes.size ∧ ts.nodes.used i = none ∧ ∀ w ∈ px.workers, ¬ w.RefersTo ts i

def LeastUnreferred (ts : Tables) (px : Proxy) (i : Nat) : Prop :=
  Unreferred ts px i ∧ ∀ j < i, ¬ Unreferred ts px j

/-- No node in use has the route, no worker and no node in use the Host and the Port of the message. -/
structure NewNode (httpd : Httpd) (ts : Tables) (px : Option Proxy) (args : ConfigArgs) : Prop where
  route : knownNode ts args = none
  worker : (workerFound httpd ts px args).2 = -1
  hostPort : findNodeByhostport ts.nodes args.node.mess.host args.node.mess.port = none

/-- CONFIG fails and stores no node. -/
def StoresNone (ts : Tables) (r : ConfigResult) : Prop :=
  (∃ e, r.outcome = .failed e) ∧ r.tables.nodes = ts.nodes

/-- The node of the message is stored in slot `i`, and nothing else changes in the table. -/
def StoresAt (ts : Tables) (args : ConfigArgs) (r : ConfigResult) (i : Nat) : Prop :=
  ∃ n, r.tables.nodes = ts.nodes.store i n ∧ n.mess.jvmRoute = args.node.mess.jvmRoute ∧
    n.mess.host = args.node.mess.host ∧ n.mess.port = args.node.mess.port

/-- The node is stored in the least slot, or CONFIG fails and stores no node. -/
def GetsOwnSlot (ts : Tables) (px : Proxy) (args : ConfigArgs) (r : ConfigResult) : Prop :=
  (∀ i, LeastUnreferred ts px i → StoresAt ts args r i) ∧ ((∀ i, ¬ Unreferred ts px i) → StoresNone ts r)

/-- The balancer can be stored and no slot in front of the least one is taken for free, or there is nothing to take. -/
structure SlotAgreed (ts : Tables) (px : Proxy) (args : ConfigArgs) : Prop where
  least : ∀ i, LeastUnreferred ts px i → BalancerFits ts args.balancer.balancer ∧
    ∀ j < i, ts.nodes.used j = none → ∃ w ∈ px.workers, (w.area ts).index < ts.nodes.size ∧ w.RefersTo ts j
  full : (∀ i, ¬ Unreferred ts px i) →
    (∀ j < ts.nodes.size, ts.nodes.used j ≠ none) ∨ ¬ BalancerFits ts args.balancer.balancer

section Slots

variable {httpd : Httpd} {mconf : Mconf} {now : Int} {ts : Tables} {px : Proxy} {args : ConfigArgs} {argv : Argv}

/-! ## The free id -/

theorem mem_workerIds {size : Nat} {w : Worker} {i : Nat} :
    (i : Int) ∈ workerIds ts size w ↔ (w.area ts).index < size ∧ w.RefersTo ts i := by
  unfold workerIds Worker.RefersTo
  by_cases hskip : (w.area ts).index ≥ size
  · rw [if_pos hskip]
    exact iff_of_false List.not_mem_nil fun h => absurd h.1 (by omega)
  · rw [if_neg hskip, List.mem_append]
    have hlt : (w.area ts).index < size := by omega
    simp only [hlt, true_and]
    refine or_congr ?_ ?_
    · split
      · rw [List.mem_singleton, eq_comm]
      · rename_i hneg
        exact iff_of_false List.not_mem_nil fun h => by omega
    · cases w.context with
      | none => simp
      | some helper =>
        simp only [Option.some.injEq, exists_eq_left']
        split
        · rw [List.mem_singleton, eq_comm]
        · rename_i hneg
          exact iff_of_false List.not_mem_nil fun h => by omega

/-- The slot is taken by a node or kept by a worker whose number is in the table. -/
def Taken (ts : Tables) (px : Proxy) (i : Nat) : Prop :=
  ts.nodes.used i ≠ none ∨ ∃ w ∈ px.workers, (w.area ts).index < ts.nodes.size ∧ w.RefersTo ts i

theorem taken_iff (hids : ts.nodes.IdsMatch (·.mess.id)) (i : Nat) :
    (i : Int) ∈ getIdsUsedNode ts.nodes ++ px.workers.flatMap (workerIds ts ts.nodes.size) ↔ Taken ts px i := by
  unfold Taken
  rw [List.mem_append, List.mem_flatMap, getIdsUsedNode_eq, mem_ids hids]
  simp only [mem_workerIds]
  refine or_congr_left ?_
  constructor
  · rintro ⟨j, n, hn, hj⟩
    have hij : i = j := by omega
    rw [hij, hn]
    exact Option.some_ne_none n
  · intro hne
    obtain ⟨n, hn⟩ := Option.ne_none_iff_exists'.mp hne
    exact ⟨i, n, hn, rfl⟩

theorem proxyNodeGetFreeId_spec (hids : ts.nodes.IdsMatch (·.mess.id)) :
    (∃ i : Nat, proxyNodeGetFreeId ts (some px) ts.nodes.size = i ∧ i < ts.nodes.size ∧ ¬ Taken ts px i ∧
        ∀ j < i, Taken ts px j) ∨
      proxyNodeGetFreeId ts (some px) ts.nodes.size = -1 ∧ ∀ j < ts.nodes.size, Taken ts px j := by
  unfold proxyNodeGetFreeId
  simp only
  cases hfind : (List.range ts.nodes.size).find? fun (i : Nat) =>
      !(getIdsUsedNode ts.nodes ++ px.workers.flatMap (workerIds ts ts.nodes.size)).contains (i : Int) with
  | none =>
    refine Or.inr ⟨rfl, fun j hj => ?_⟩
    have hall := List.find?_range_eq_none.mp hfind j hj
    rw [Bool.not_not, List.contains_iff_mem, taken_iff hids] at hall
    exact hall
  | some i =>
    obtain ⟨hnot, hmem, hleast⟩ := List.find?_range_eq_some.mp hfind
    refine Or.inl ⟨i, rfl, List.mem_range.mp hmem, fun htaken => ?_, fun j hj => ?_⟩
    · rw [← taken_iff hids, ← List.contains_iff_mem] at htaken
      rw [htaken] at hnot
      cases hnot
    · have hall := hleast j hj
      rw [Bool.not_not, List.contains_iff_mem, taken_iff hids] at hall
      exact hall

/-! ## CONFIG for a new node -/

theorem sameWorkerLoop_false {m : Table Nodeinfo} (node : Nodeinfo)
    (hno : ∀ i n, m.used i = some n → isSameNode n node = false) (ids : List Int)
    (hids : ∀ id ∈ ids, ∃ (i : Nat) (n : Nodeinfo), m.used i = some n ∧ id = i) : sameWorkerLoop m node ids = false := by
  induction ids with
  | nil => rfl
  | cons id ids ih =>
    obtain ⟨i, n, hn, rfl⟩ := hids id List.mem_cons_self
    have hnext := ih fun id hid => hids id (List.mem_cons_of_mem _ hid)
    unfold sameWorkerLoop getNode
    rw [dptr_ofNat (used_lt hn)]
    simp only
    rw [peek_of_used hn, hno i n hn, if_neg Bool.false_ne_true]
    exact hnext

theorem NewNode.admitted (hok : IdsOk ts) (hargs : ArgsOk args) (hnew : NewNode httpd ts (some px) args) :
    Admitted ts args := by
  refine ⟨by rw [hnew.route]; rfl, sameWorkerLoop_false _ (fun i n hn => ?_) _ fun id hid => ?_⟩
  · have hnone := hnew.hostPort
    rw [findNodeByhostport_eq hok.nodes] at hnone
    have hfalse := first_eq_none.mp hnone i n hn
    obtain ⟨mid, hmess⟩ := messageNode_mess hok.nodes hargs.id
    by_contra hsame
    simp only [Bool.not_eq_false, isSameNode, Bool.and_eq_true, beq_iff_eq, hmess] at hsame
    obtain ⟨⟨⟨⟨⟨⟨-, hhost⟩, hport⟩, -⟩, -⟩, -⟩, -⟩ := hsame
    have htrue : hasHostPort args.node.mess.host args.node.mess.port n = true := by
      rw [hasHostPort, hhost, hport, truncate, truncate, List.take_of_length_le hargs.host,
        List.take_of_length_le hargs.port]
      simp
    rw [htrue] at hfalse
    cases hfalse
  · rw [getIdsUsedNode_eq] at hid
    obtain ⟨i, n, hn, heq⟩ := (mem_ids hok.nodes).mp hid
    exact ⟨i, n, hn, heq⟩

def newPlan (ts : Tables) (px : Option Proxy) (args : ConfigArgs) : Plan where
  nodes := ts.nodes
  nodeinfo := messageNode ts args
  id := proxyNodeGetFreeId ts px ts.nodes.size
  clean := true
  removed := -1
  worker := none

theorem processConfig_new (hok : IdsOk ts) (hparse : parseConfig httpd mconf argv = .ok args)
    (hnew : NewNode httpd ts (some px) args) :
    processConfig httpd mconf now ts (some px) argv = commitConfig now ts (some px) args (newPlan ts (some px) args) := by
  have hargs := parseConfig_argsOk hparse
  have hcheck : checkConfig httpd ts (some px) args = .go (newPlan ts (some px) args) := by
    rw [checkConfig_admitted (hnew.admitted hok hargs), if_pos hnew.worker]
    unfold checkHostPort
    rw [messageNode_hostPort hok hargs, hnew.hostPort]
    rfl
  unfold processConfig
  rw [hparse]
  simp only
  rw [hcheck]

theorem Committed.newNode {r : ConfigResult} (hok : IdsOk ts) (hargs : ArgsOk args)
    (hnew : NewNode httpd ts (some px) args) (h : Committed now ts (some px) args (newPlan ts (some px) args) r) :
    (¬ BalancerFits ts args.balancer.balancer → StoresNone ts r) ∧
      (BalancerFits ts args.balancer.balancer →
        proxyNodeGetFreeId ts (some px) ts.nodes.size = -1 ∧ ts.nodes.grab = none ∧ StoresNone ts r ∨
          ∃ i : Nat, (proxyNodeGetFreeId ts (some px) ts.nodes.size = -1 ∧ ts.nodes.grab.map (·.1) = some i ∨
            proxyNodeGetFreeId ts (some px) ts.nodes.size = i) ∧ StoresAt ts args r i) := by
  have hname := messageBalancer_name hok hargs
  obtain ⟨mid, hmess⟩ := messageNode_mess hok.nodes hargs.id
  have hroute : ts.nodes.first (hasRoute (messageNode ts args).mess.jvmRoute) = none := by
    rw [hmess, ← knownNode_eq hok.nodes hargs.id]
    exact hnew.route
  have hfits : ∀ b : Table Balancerinfo × Balancerinfo,
      insertUpdateBalancer now ts.balancers (messageBalancer ts args) = some b →
        BalancerFits ts args.balancer.balancer := fun b hb => by
    rw [← hname, ← insertUpdateBalancer_isSome_iff now, hb]
    rfl
  -- Where a node is put that is stored.
  have hstores : ∀ nodes nodeinfo id, insertUpdateNode now ts.nodes (messageNode ts args)
      (proxyNodeGetFreeId ts (some px) ts.nodes.size) true = some (nodes, nodeinfo, id) →
      ∃ i : Nat, (proxyNodeGetFreeId ts (some px) ts.nodes.size = -1 ∧ ts.nodes.grab.map (·.1) = some i ∨
        proxyNodeGetFreeId ts (some px) ts.nodes.size = i) ∧
          nodes = ts.nodes.store i (freshNode now (messageNode ts args) true i) := by
    intro nodes nodeinfo id hn
    rcases insertUpdateNode_cases hn with ⟨i, a, hi, -⟩ | ⟨i, -, -, hnodes, -, -, htarget⟩
    · rw [hroute] at hi
      cases hi
    · exact ⟨i, htarget.imp_left fun h => ⟨h.1, h.2.2⟩, hnodes⟩
  have hfresh : ∀ i, (freshNode now (messageNode ts args) true i).mess.jvmRoute = args.node.mess.jvmRoute ∧
      (freshNode now (messageNode ts args) true i).mess.host = args.node.mess.host ∧
        (freshNode now (messageNode ts args) true i).mess.port = args.node.mess.port := by
    intro i
    unfold freshNode
    rw [hmess]
    exact ⟨rfl, rfl, rfl⟩
  cases h with
  | noBalancer hb =>
    refine ⟨fun _ => ⟨⟨_, rfl⟩, rfl⟩, fun hbal => absurd hb ?_⟩
    rw [← hname] at hbal
    exact Option.isSome_iff_ne_none.mp ((insertUpdateBalancer_isSome_iff now).mpr hbal)
  | noNode balancers b hb hn =>
    refine ⟨fun hno => absurd (hfits _ hb) hno, fun _ => Or.inl ?_⟩
    obtain ⟨-, ⟨hid, hgrab⟩ | ⟨hid, hdptr⟩⟩ := insertUpdateNode_eq_none.mp hn
    · exact ⟨hid, hgrab, ⟨_, rfl⟩, rfl⟩
    · -- A free id is a slot of the table.
      obtain ⟨i, hlt, hi⟩ := (proxyNodeGetFreeId_range ts (some px) ts.nodes.size).resolve_left hid
      have hid' : (newPlan ts (some px) args).id = (i : Int) := hi
      rw [hid', newPlan, dptr_ofNat hlt] at hdptr
      cases hdptr
  | aborted balancers b nodes nodeinfo id hb hn hp => cases hp
  | stored balancers b nodes nodeinfo id ts' px' r hb hn hp hr =>
    refine ⟨fun hno => absurd (hfits _ hb) hno, fun _ => Or.inr ?_⟩
    obtain ⟨i, htarget, rfl⟩ := hstores nodes nodeinfo id hn
    refine ⟨i, htarget, freshNode now (messageNode ts args) true i, ?_, hfresh i⟩
    cases hp
    rw [hr, addAliases_nodes]
    rfl

theorem StoresAt.unique {r : ConfigResult} {i j : Nat} (hi : StoresAt ts args r i) (hj : StoresAt ts args r j)
    (hlt : i < ts.nodes.size) (hfree : ts.nodes.used i = none) : i = j := by
  obtain ⟨n, hn, -⟩ := hi
  obtain ⟨n', hn', -⟩ := hj
  by_contra hne
  have hused := used_store_self n hlt
  rw [← hn, hn', used_store_ne n' fun h => hne h.symm, hfree] at hused
  cases hused

theorem StoresAt.not_none {r : ConfigResult} {i : Nat} (hi : StoresAt ts args r i) (hlt : i < ts.nodes.size)
    (hfree : ts.nodes.used i = none) : ¬ StoresNone ts r := by
  rintro ⟨-, hsame⟩
  obtain ⟨n, hn, -⟩ := hi
  have hused := used_store_self n hlt
  rw [← hn, hsame, hfree] at hused
  cases hused

theorem Unreferred.not_taken {i : Nat} (h : Unreferred ts px i) : ¬ Taken ts px i := by
  rintro (hused | ⟨w, hw, -, hrefers⟩)
  · exact hused h.2.1
  · exact h.2.2 w hw hrefers

theorem target_free (hids : ts.nodes.IdsMatch (·.mess.id)) {i : Nat}
    (h : proxyNodeGetFreeId ts (some px) ts.nodes.size = -1 ∧ ts.nodes.grab.map (·.1) = some i ∨
      proxyNodeGetFreeId ts (some px) ts.nodes.size = i) : i < ts.nodes.size ∧ ts.nodes.used i = none := by
  rcases h with ⟨-, hgrab⟩ | hid
  · obtain ⟨⟨j, m⟩, hg, rfl⟩ := Option.map_eq_some_iff.mp hgrab
    obtain ⟨hlt, hfree, -⟩ := grab_eq_some hg
    exact ⟨hlt, hfree⟩
  · rcases @proxyNodeGetFreeId_spec _ px hids with ⟨j, hj, hlt, htaken, -⟩ | ⟨hneg, -⟩
    · have hij : i = j := by omega
      subst hij
      exact ⟨hlt, by_contra fun hne => htaken (Or.inl hne)⟩
    · omega

/-- A new node gets the least slot that nothing refers to if and only if its balancer fits, no slot in front of it is
free for the code, and a table without such a slot has no slot that is not in use. -/
theorem newNode_ownSlot_iff (httpd : Httpd) (mconf : Mconf) (now : Int) (ts : Tables) (px : Proxy) (argv : Argv)
    (args : ConfigArgs) (hok : IdsOk ts) (hparse : parseConfig httpd mconf argv = .ok args)
    (hnew : NewNode httpd ts (some px) args) :
    GetsOwnSlot ts px args (processConfig httpd mconf now ts (some px) argv) ↔ SlotAgreed ts px args := by
  have hargs := parseConfig_argsOk hparse
  rw [processConfig_new hok hparse hnew]
  have hcommit := commitConfig_committed now ts (some px) args (newPlan ts (some px) args)
  generalize commitConfig now ts (some px) args (newPlan ts (some px) args) = r at hcommit ⊢
  obtain ⟨hrefused, hstored⟩ := hcommit.newNode hok hargs hnew
  have hspec := @proxyNodeGetFreeId_spec _ px hok.nodes
  constructor
  · rintro ⟨hleast, hnone⟩
    constructor
    · intro i hi
      have hat := hleast i hi
      have hnot := hat.not_none hi.1.1 hi.1.2.1
      have hfits : BalancerFits ts args.balancer.balancer := by_contra fun hno => hnot (hrefused hno)
      refine ⟨hfits, fun j hj hfree => ?_⟩
      rcases hstored hfits with ⟨-, -, hno⟩ | ⟨k, htarget, hat'⟩
      · exact absurd hno hnot
      have hik := hat.unique hat' hi.1.1 hi.1.2.1
      have htaken : Taken ts px j := by
        rcases hspec with ⟨c, hc, -, -, hall⟩ | ⟨-, hall⟩
        · refine hall j ?_
          omega
        · exact hall j (Nat.lt_trans hj hi.1.1)
      exact htaken.resolve_left (not_not_intro hfree)
    · intro hno
      by_cases hfits : BalancerFits ts args.balancer.balancer
      · refine Or.inl fun j hj hfree => ?_
        rcases hstored hfits with ⟨-, hgrab, -⟩ | ⟨k, htarget, hat⟩
        · obtain ⟨a, ha⟩ := grab_eq_none hgrab j hj
          rw [hfree] at ha
          cases ha
        · obtain ⟨hlt, hfree'⟩ := target_free hok.nodes htarget
          exact hat.not_none hlt hfree' (hnone hno)
      · exact Or.inr hfits
  · rintro ⟨hleast, hfull⟩
    constructor
    · intro i hi
      obtain ⟨hfits, hfront⟩ := hleast i hi
      rcases hstored hfits with ⟨-, hgrab, -⟩ | ⟨k, htarget, hat⟩
      · obtain ⟨a, ha⟩ := grab_eq_none hgrab i hi.1.1
        rw [hi.1.2.1] at ha
        cases ha
      rcases hspec with ⟨c, hc, hlt, htaken, hall⟩ | ⟨-, hall⟩
      · have hck : k = c := by omega
        subst hck
        rcases Nat.lt_trichotomy k i with hki | rfl | hik
        · have hfree : ts.nodes.used k = none := by_contra fun hne => htaken (Or.inl hne)
          exact absurd (Or.inr (hfront k hki hfree)) htaken
        · exact hat
        · exact absurd (hall i hik) hi.1.not_taken
      · exact absurd (hall i hi.1.1) hi.1.not_taken
    · intro hno
      rcases hfull hno with hall | hfits
      · by_cases hfits : BalancerFits ts args.balancer.balancer
        · rcases hstored hfits with ⟨-, -, hnone⟩ | ⟨k, htarget, -⟩
          · exact hnone
          · obtain ⟨hlt, hfree⟩ := target_free hok.nodes htarget
            exact absurd hfree (hall k hlt)
        · exact hrefused hfits
      · exact hrefused hfits

end Slots

/-! ## A slot that a worker still refers to -/

section Example

def slotConfig : Argv := Argv.ofTokens [ascii "JVMRoute", ascii "n1"]

/-- Whether the message is new to the tables. -/
def newTo (ts : Tables) (px : Proxy) : Except McmpError (Bool × Bool × Bool) :=
  (parseConfig plainHttpd Mconf.default slotConfig).map fun args =>
    (decide (knownNode ts args = none), decide ((workerFound plainHttpd ts (some px) args).2 = -1),
      decide (findNodeByhostport ts.nodes args.node.mess.host args.node.mess.port = none))

theorem exists_of_newTo {ts : Tables} {px : Proxy} (h : newTo ts px = .ok (true, true, true)) :
    ∃ args, parseConfig plainHttpd Mconf.default slotConfig = .ok args ∧ NewNode plainHttpd ts (some px) args := by
  obtain ⟨args, hparse, hargs⟩ := exists_of_map_ok h
  simp only [Prod.mk.injEq, decide_eq_true_iff] at hargs
  exact ⟨args, hparse, hargs.1, hargs.2.1, hargs.2.2⟩

def twoSlots : Tables := emptyTables ⟨2, 1, 1, 1, 1⟩

theorem twoSlots_facts : newTo twoSlots ⟨[]⟩ = .ok (true, true, true) ∧ twoSlots.nodes.size = 2 ∧
    twoSlots.nodes.used 0 = none ∧ twoSlots.balancers.size = 1 ∧ twoSlots.balancers.used 0 = none := by
  decide +kernel

theorem twoSlots_ownSlot : ∃ args, parseConfig plainHttpd Mconf.default slotConfig = .ok args ∧
    GetsOwnSlot twoSlots ⟨[]⟩ args
      (processConfig plainHttpd Mconf.default 9 twoSlots (some ⟨[]⟩) slotConfig) := by
  obtain ⟨hnew, hsize, hused, hbalancers, hbalancer⟩ := twoSlots_facts
  obtain ⟨args, hparse, hnew⟩ := exists_of_newTo hnew
  have hfree : Unreferred twoSlots ⟨[]⟩ 0 := ⟨by rw [hsize]; decide, hused, List.forall_mem_nil _⟩
  refine ⟨args, hparse, (newNode_ownSlot_iff plainHttpd Mconf.default 9 twoSlots ⟨[]⟩ slotConfig args
    (idsOk_empty _) hparse hnew).mpr ⟨fun i hi => ?_, fun hno => absurd hfree (hno 0)⟩⟩
  have hi0 : i = 0 := by
    by_contra hne
    exact hi.2 0 (Nat.pos_of_ne_zero hne) hfree
  subst hi0
  exact ⟨Or.inr ⟨0, by rw [hbalancers]; decide, hbalancer⟩, fun j hj => absurd hj (Nat.not_lt_zero j)⟩

/-- The node of the only slot is gone, but a process has its worker. -/
def leftSlot : Tables :=
  { emptyTables ⟨1, 1, 1, 1, 1⟩ with nodes := ⟨[⟨false, { (default : Nodeinfo) with stat :=
      { plainWorker (ascii "ajp://gone:8009") with index := 0 } }⟩]⟩ }

def leftWorkers : Proxy :=
  ⟨[⟨[{ name := ascii "balancer://mycluster", lbpname := [], sticky := [], stickyPath := [], stickyForce := false,
        timeout := 0, maxAttempts := 1
        workers := [⟨.slot 0, plainWorker (ascii "ajp://gone:8009"), some ⟨0, 0, false⟩⟩] }]⟩]⟩

theorem leftSlot_facts : newTo leftSlot leftWorkers = .ok (true, true, true) ∧ leftSlot.nodes.size = 1 ∧
    leftWorkers.workers.map (fun w => (w.area leftSlot).index) = [0] ∧ leftSlot.nodes.used 0 = none ∧
    ((processConfig plainHttpd Mconf.default 9 leftSlot (some leftWorkers) slotConfig).tables.nodes.used 0).isSome = true ∧
    (processConfig plainHttpd Mconf.default 9 leftSlot (some leftWorkers) slotConfig).outcome = .done := by
  decide +kernel

/-- The new node is stored where the worker points to. -/
theorem leftSlot_reused : ∃ args, parseConfig plainHttpd Mconf.default slotConfig = .ok args ∧
    NewNode plainHttpd leftSlot (some leftWorkers) args ∧
    ¬ GetsOwnSlot leftSlot leftWorkers args
      (processConfig plainHttpd Mconf.default 9 leftSlot (some leftWorkers) slotConfig) := by
  obtain ⟨hnew, hsize, hindex, -, -, hdone⟩ := leftSlot_facts
  obtain ⟨args, hparse, hnew⟩ := exists_of_newTo hnew
  refine ⟨args, hparse, hnew, fun hown => ?_⟩
  have hno : ∀ i, ¬ Unreferred leftSlot leftWorkers i := by
    rintro i ⟨hlt, -, hrefers⟩
    rw [hsize] at hlt
    obtain rfl : i = 0 := Nat.lt_one_iff.mp hlt
    obtain ⟨w, hw, hzero⟩ := List.mem_map.mp (hindex ▸ List.mem_singleton_self (0 : Int))
    exact hrefers w hw (Or.inl hzero)
  obtain ⟨e, he⟩ := (hown.2 hno).1
  rw [hdone] at he
  cases he

end Example

end ModCluster
