import ModCluster.RemovalRuns
import Mathlib.Data.List.TakeWhile

/-!
# Counted workers

`has_workers` of a node is to be the number of workers whose `s` points into its slot. The
workers of one process are created, looked up and taken away, and CONFIG stores nodes. Each
of these steps has a condition under which it keeps the count, on what it finds.
-/

open CString Slotmem Slotmem.Table

namespace ModCluster

/-! ## Steps -/

/-- A process that has the tables for itself. -/
structure OneProcess where
  tables : Tables
  proxy : Proxy
deriving DecidableEq

def OneProcess.setServer (s : OneProcess) (ts : Tables) (k : Nat) (sv : Server) : OneProcess where
  tables := ts
  proxy := ⟨s.proxy.servers.set k sv⟩

def InUse (ts : Tables) (i : Nat) : Prop := (ts.nodes.used i).isSome = true

instance (ts : Tables) (i : Nat) : Decidable (InUse ts i) := inferInstanceAs (Decidable (_ = true))

/-- Server `k` is the one that works. -/
inductive CountOp where
  /-- A line of `update_workers_node`: the record `m` is a copy, read some time ago. -/
  | addWorkers (k : Nat) (creatBal : CreatBal) (main : Bool) (now : Int) (m : Nodemess) (i : Nat)
  /-- The creating part of `proxy_node_isup`: the record is the one in shared memory. -/
  | isup (k : Nat) (creatBal : CreatBal) (main : Bool) (now : Int) (i : Nat)
  | lookup (k : Nat) (i : Nat)
  | removeWorkers (k : Nat) (now : Int) (i : Nat)
  | config (mconf : Mconf) (now : Int) (argv : Argv)

/-- `none` where the process ends, or the step has nothing to work on. -/
def CountOp.run (httpd : Httpd) (s : OneProcess) : CountOp → Option OneProcess
  | .addWorkers k creatBal main now m i =>
    (s.proxy.servers[k]?).map fun sv =>
      let r := addBalancersWorkersForServer httpd creatBal main now s.tables sv m i
      s.setServer r.1 k r.2.1
  | .isup k creatBal main now i =>
    if InUse s.tables i then
      (s.proxy.servers[k]?).map fun sv =>
        let r := isupServer httpd creatBal main now s.tables sv i
        s.setServer r.1 k r.2
    else none
  | .lookup k i =>
    if InUse s.tables i then
      (s.proxy.servers[k]?).bind fun sv =>
        let r := getWorkerFromIdStat s.tables sv (s.tables.nodes.peek i).mess.id i
        if r.2.2 = .crashed then none else some (s.setServer r.1 k r.2.1)
    else none
  | .removeWorkers k now i =>
    if InUse s.tables i then
      (s.proxy.servers[k]?).bind fun sv =>
        (removeWorkersNode httpd now s.tables sv i).map fun r => s.setServer r.1 k r.2
    else none
  | .config mconf now argv =>
    let r := processConfig httpd mconf now s.tables (some s.proxy) argv
    if r.outcome = .aborted then none else r.proxy.map fun px => ⟨r.tables, px⟩

/-- Every node in use counts the workers that point into its slot. -/
def OneProcess.Balanced (s : OneProcess) : Prop :=
  ∀ i, InUse s.tables i → (s.tables.nodes.peek i).mess.hasWorkers = s.proxy.attached i

/-! ## Conditions -/

section Conditions

variable (httpd : Httpd) (now : Int) (ts : Tables)

/-- `create_worker_reuse` leaves the worker where it points. -/
def Unmoved (w : Worker) (m : Nodemess) (i : Nat) : Prop :=
  match w.context with
  | none => True
  | some helper => helper.index = -1 ∨ (helper.index = m.id ∧ w.s = .slot i)

/-- `counted` says whether the record that is paired is the one in shared memory. The worker
that moves leaves no node behind, and its new node is paired if and only if it is new there. -/
def ReuseOk (w : Worker) (m : Nodemess) (i : Nat) (counted : Bool) : Prop :=
  Unmoved w m i ∨
    (∀ j, InUse ts j → j ≠ i → w.s ≠ .slot j) ∧
    (InUse ts i → (w.s ≠ .slot i ↔
      counted = true ∧ (httpd.initializeWorker (setStatus0 (ts.nodes.peek i).stat)).2 = true))

/-- The area of the slot once a new worker has put its name there. -/
def namedArea (m : Nodemess) (shared : WorkerShared) (i : Nat) : WorkerShared :=
  if (ts.nodes.peek i).stat.name ≠ shared.name then arrangeSharedMem now m shared (ts.nodes.peek i).stat
  else (ts.nodes.peek i).stat

/-- Of the two calls of `pair_worker_node` for a new worker just one is made. -/
def NewOk (m : Nodemess) (shared : WorkerShared) (i : Nat) (counted : Bool) : Prop :=
  InUse ts i → counted = true ∧ ((ts.nodes.peek i).stat.name ≠ shared.name ↔
    (httpd.initializeWorker (namedArea now ts m shared i)).2 = false)

def CreateOk (b : ProxyBalancer) (m : Nodemess) (i : Nat) (counted : Bool) : Prop :=
  match createWorkerBuildName httpd m with
  | none => True
  | some url =>
    match (httpd.getWorker (b.workers.map (·.area ts)) url).bind fun j => (b.workers[j]?).map fun w => (j, w) with
    | some (_, w) => ReuseOk httpd ts w m i counted
    | none =>
      match httpd.defineWorker url with
      | none => True
      | some shared => NewOk httpd now ts m shared i counted

def ServerOk (creatBal : CreatBal) (main : Bool) (sv : Server) (m : Nodemess) (i : Nat) (counted : Bool) : Prop :=
  match (httpd.getBalancer (sv.balancers.map (·.name)) (BALANCER_PREFIX ++ m.balancer)).bind fun k =>
      (sv.balancers[k]?).map fun b => (k, b) with
  | some (_, b) => CreateOk httpd now ts (reuseBalancer ts b) m i counted
  | none => (creatBal = .none ∨ (creatBal = .root ∧ ¬ main)) ∨
      CreateOk httpd now ts (addBalancerNode ts m) m i counted

/-- The lookup ends at the worker. -/
def stopsAt (id : Int) (i : Nat) (w : Worker) : Bool :=
  match w.context with
  | none => true
  | some helper => pointsTo i w && helper.index == id

/-- The workers that a lookup unpairs on its way. -/
def Server.met (sv : Server) (id : Int) (i : Nat) : Nat :=
  ((sv.balancers.flatMap (·.workers)).takeWhile fun w => !stopsAt id i w).countP (isStray id i)

/-- The lookup unpairs nothing. -/
def LookupKeeps (sv : Server) (i : Nat) : Prop :=
  sv.met (ts.nodes.peek i).mess.id i = 0 ∨ (ts.nodes.peek i).mess.hasWorkers = 0

/-- Where a worker is taken away, its lookup has to unpair one. -/
def RemoveKeeps (sv : Server) (i : Nat) : Prop :=
  let r := getWorkerFromIdStat ts sv (ts.nodes.peek i).mess.id i
  match r.2.2 with
  | .found b j => ∀ w helper, r.2.1.worker? b j = some w → w.context = some helper →
      if helper.countActive = 0 then
        min (sv.met (ts.nodes.peek i).mess.id i) (ts.nodes.peek i).mess.hasWorkers = 1
      else LookupKeeps ts sv i
  | _ => LookupKeeps ts sv i

/-- A node that is stored comes without workers: none points into its slot, and none is handed over to it. -/
def ConfigKeeps (px : Proxy) (mconf : Mconf) (argv : Argv) : Prop :=
  ∀ args plan, parseConfig httpd mconf argv = .ok args → checkConfig httpd ts (some px) args = .go plan →
    (insertUpdateBalancer now ts.balancers (messageBalancer ts args)).isSome = true →
    ∀ nodes nodeinfo (i : Nat),
      insertUpdateNode now plan.nodes plan.nodeinfo plan.id plan.clean = some (nodes, nodeinfo, (i : Int)) →
      plan.clean = true ∧ px.attached i = 0

end Conditions

/-- What a step has to find. -/
def CountOp.Keeps (httpd : Httpd) (s : OneProcess) : CountOp → Prop
  | .addWorkers k creatBal main now m i => ∀ sv, s.proxy.servers[k]? = some sv →
      ServerOk httpd now s.tables creatBal main sv m i false
  | .isup k creatBal main now i => ∀ sv, s.proxy.servers[k]? = some sv →
      ServerOk httpd now s.tables creatBal main sv (s.tables.nodes.peek i).mess i true
  | .lookup k i => ∀ sv, s.proxy.servers[k]? = some sv → LookupKeeps s.tables sv i
  | .removeWorkers k _ i => ∀ sv, s.proxy.servers[k]? = some sv → RemoveKeeps s.tables sv i
  | .config mconf now argv => ConfigKeeps httpd now s.tables s.proxy mconf argv

/-! ## Creating -/

section Create

variable {httpd : Httpd} {now : Int} {ts ts' : Tables} {b : ProxyBalancer} {m : Nodemess} {i : Nat} {sv : Server}

/-- The workers that come to point into a slot are those its node counts. -/
def Counts (ts : Tables) (i : Nat) (counted : Bool) (before after : Nat → Nat) (pairs : Nat) : Prop :=
  ∀ j, InUse ts j → after j = before j + if counted = true ∧ i = j then pairs else 0

theorem counts_same (counted : Bool) (before : Nat → Nat) : Counts ts i counted before before 0 := by
  intro j _
  rw [ite_self, Nat.add_zero]

theorem createWorkerReuse_unmoved {k : Nat} {w : Worker} (h : Unmoved w m i) :
    (createWorkerReuse httpd now ts b k w m i).2 = (b, 0) := by
  unfold Unmoved at h
  unfold createWorkerReuse
  cases hcontext : w.context with
  | none => rfl
  | some helper =>
    rw [hcontext] at h
    simp only
    by_cases hremoved : helper.index = -1
    · rw [if_pos hremoved]
    · rw [if_neg hremoved, if_pos (h.resolve_left hremoved)]
      split <;> rfl

theorem createWorkerReuse_moved {k : Nat} {w : Worker} (h : ¬ Unmoved w m i) :
    ∃ w' : Worker, w'.s = .slot i ∧ (createWorkerReuse httpd now ts b k w m i).2 =
      (b.setWorker k w', if (httpd.initializeWorker (setStatus0 (ts.nodes.peek i).stat)).2 then 1 else 0) := by
  unfold Unmoved at h
  unfold createWorkerReuse
  cases hcontext : w.context with
  | none =>
    rw [hcontext] at h
    exact absurd trivial h
  | some helper =>
    rw [hcontext] at h
    simp only at h ⊢
    rw [if_neg fun hremoved => h (Or.inl hremoved), if_neg fun hthere => h (Or.inr hthere)]
    refine ⟨{ w with s := .slot i, context := some { helper with isinnodes := true, index := m.id } }, rfl, ?_⟩
    split <;> rfl

theorem pointsTo_iff {w : Worker} : pointsTo i w = true ↔ w.s = .slot i := by
  rw [pointsTo, beq_iff_eq]

theorem counts_moved_iff {counted : Bool} {before after : Nat → Nat} {pairs : Nat} {l : Loc}
    (hmoved : ∀ j, after j + (if l = .slot j then 1 else 0) = before j + if i = j then 1 else 0) :
    Counts ts i counted before after pairs ↔ (∀ j, InUse ts j → j ≠ i → l ≠ .slot j) ∧
      (InUse ts i → (if l = .slot i then 0 else 1) = if counted = true then pairs else 0) := by
  constructor
  · intro h
    refine ⟨fun j hj hne hslot => ?_, fun hi => ?_⟩
    · have hcount := h j hj
      have hstep := hmoved j
      rw [if_pos hslot, if_neg (Ne.symm hne)] at hstep
      rw [if_neg fun hc => hne hc.2.symm] at hcount
      omega
    · have hcount := h i hi
      have hstep := hmoved i
      rw [if_pos rfl] at hstep
      simp only [and_true] at hcount
      split at hstep
      · rw [if_pos (by assumption)]
        omega
      · rw [if_neg (by assumption)]
        omega
  · rintro ⟨hother, hown⟩ j hj
    have hstep := hmoved j
    by_cases hij : i = j
    · subst hij
      have hpairs := hown hj
      rw [if_pos rfl] at hstep
      simp only [and_true]
      split at hstep
      · rw [if_pos (by assumption)] at hpairs
        omega
      · rw [if_neg (by assumption)] at hpairs
        omega
    · rw [if_neg (hother j hj (Ne.symm hij)), if_neg hij] at hstep
      rw [if_neg fun hc => hij hc.2]
      omega

theorem createWorkerReuse_counts {k : Nat} {w : Worker} (hw : b.workers[k]? = some w) (counted : Bool) :
    Counts ts i counted (fun j => attachedIn j b.workers)
      (fun j => attachedIn j (createWorkerReuse httpd now ts b k w m i).2.1.workers)
      (createWorkerReuse httpd now ts b k w m i).2.2 ↔ ReuseOk httpd ts w m i counted := by
  unfold ReuseOk
  by_cases hunmoved : Unmoved w m i
  · rw [createWorkerReuse_unmoved hunmoved]
    exact iff_of_true (counts_same counted _) (Or.inl hunmoved)
  obtain ⟨w', hs, heq⟩ := @createWorkerReuse_moved httpd now ts b m i k w hunmoved
  have hmoved : ∀ j, attachedIn j (b.setWorker k w').workers + (if w.s = .slot j then 1 else 0) =
      attachedIn j b.workers + if i = j then 1 else 0 := by
    intro j
    have h := @attachedIn_set j _ _ _ w' hw
    have hw' : pointsTo j w' = true ↔ i = j := by rw [pointsTo_iff, hs, Loc.slot.injEq]
    simp only [hw', pointsTo_iff] at h
    exact h
  rw [heq, or_iff_right hunmoved, counts_moved_iff hmoved]
  refine and_congr_right fun _ => imp_congr_right fun _ => ?_
  cases counted <;> cases (httpd.initializeWorker (setStatus0 (ts.nodes.peek i).stat)).2 <;>
    by_cases hslot : w.s = .slot i
  all_goals simp [hslot]

theorem InUse.lt (h : InUse ts i) : i < ts.nodes.size := by
  obtain ⟨a, ha⟩ := Option.isSome_iff_exists.1 h
  exact used_lt ha

theorem createWorkerNew_worker (shared : WorkerShared) :
    ∃ w : Worker, w.s = .slot i ∧ (createWorkerNew httpd now ts b shared m i).2.1 = b.addWorker w := by
  unfold createWorkerNew
  simp only
  refine ⟨{ s := .slot i, priv := shared, context := some { countActive := 0, index := m.id, isinnodes := true } },
    rfl, ?_⟩
  split <;> split <;> rfl

theorem createWorkerNew_pairs (shared : WorkerShared) (hi : i < ts.nodes.size) :
    (createWorkerNew httpd now ts b shared m i).2.2 =
      (if (ts.nodes.peek i).stat.name ≠ shared.name then 1 else 0) +
        if (httpd.initializeWorker (namedArea now ts m shared i)).2 then 1 else 0 := by
  unfold createWorkerNew namedArea
  simp only
  by_cases hname : (ts.nodes.peek i).stat.name ≠ shared.name
  · have hstat : ((pokeStat ts i (arrangeSharedMem now m shared)).nodes.peek i).stat =
        arrangeSharedMem now m shared (ts.nodes.peek i).stat := by
      rw [pokeStat, peek_poke_self _ hi]
    simp only [if_pos hname, hstat]
    split <;> rfl
  · simp only [if_neg hname]
    split <;> rfl

theorem createWorkerNew_counts (shared : WorkerShared) (counted : Bool) :
    Counts ts i counted (fun j => attachedIn j b.workers)
      (fun j => attachedIn j (createWorkerNew httpd now ts b shared m i).2.1.workers)
      (createWorkerNew httpd now ts b shared m i).2.2 ↔ NewOk httpd now ts m shared i counted := by
  obtain ⟨w, hs, heq⟩ := @createWorkerNew_worker httpd now ts b m i shared
  have hmoved : ∀ j, attachedIn j (b.addWorker w).workers + (if Loc.priv = .slot j then 1 else 0) =
      attachedIn j b.workers + if i = j then 1 else 0 := by
    intro j
    have hw : pointsTo j w = true ↔ i = j := by rw [pointsTo_iff, hs, Loc.slot.injEq]
    simp only [ProxyBalancer.addWorker, attachedIn, List.countP_append, List.countP_singleton, hw, reduceCtorEq,
      if_false, Nat.add_zero]
  have hpriv : ∀ j, InUse ts j → j ≠ i → Loc.priv ≠ .slot j := by
    intro j _ _ h
    cases h
  rw [heq, counts_moved_iff hmoved, and_iff_right hpriv]
  unfold NewOk
  refine imp_congr_right fun hi => ?_
  rw [createWorkerNew_pairs shared hi.lt]
  cases counted <;> cases (httpd.initializeWorker (namedArea now ts m shared i)).2 <;>
    by_cases hname : (ts.nodes.peek i).stat.name = shared.name
  all_goals simp [hname]

theorem createWorker_counts (counted : Bool) :
    Counts ts i counted (fun j => attachedIn j b.workers)
      (fun j => attachedIn j (createWorker httpd now ts b m i).2.1.workers)
      (createWorker httpd now ts b m i).2.2 ↔ CreateOk httpd now ts b m i counted := by
  unfold createWorker CreateOk
  cases createWorkerBuildName httpd m with
  | none => exact iff_of_true (counts_same counted _) trivial
  | some url =>
    simp only
    cases hfound : (httpd.getWorker (b.workers.map (·.area ts)) url).bind fun j =>
        (b.workers[j]?).map fun w => (j, w) with
    | some jw =>
      obtain ⟨j, w⟩ := jw
      obtain ⟨j', -, hj'⟩ := Option.bind_eq_some_iff.1 hfound
      obtain ⟨w', hw', heq⟩ := Option.map_eq_some_iff.1 hj'
      cases heq
      exact createWorkerReuse_counts hw' counted
    | none =>
      simp only
      cases httpd.defineWorker url with
      | none => exact iff_of_true (counts_same counted _) trivial
      | some shared => exact createWorkerNew_counts shared counted

theorem addBalancersWorkersForServer_counts {creatBal : CreatBal} {main : Bool} (counted : Bool) :
    Counts ts i counted sv.attached (addBalancersWorkersForServer httpd creatBal main now ts sv m i).2.1.attached
      (addBalancersWorkersForServer httpd creatBal main now ts sv m i).2.2 ↔
        ServerOk httpd now ts creatBal main sv m i counted := by
  unfold addBalancersWorkersForServer ServerOk
  cases hfound : (httpd.getBalancer (sv.balancers.map (·.name)) (BALANCER_PREFIX ++ m.balancer)).bind fun k =>
      (sv.balancers[k]?).map fun b => (k, b) with
  | some kb =>
    obtain ⟨k, b⟩ := kb
    obtain ⟨k', -, hk'⟩ := Option.bind_eq_some_iff.1 hfound
    obtain ⟨b', hb', heq⟩ := Option.map_eq_some_iff.1 hk'
    cases heq
    simp only
    rw [← createWorker_counts]
    refine forall_congr' fun j => imp_congr_right fun _ => ?_
    have h := sum_map_set (fun b : ProxyBalancer => attachedIn j b.workers)
      (createWorker httpd now ts (reuseBalancer ts b) m i).2.1 sv.balancers k b hb'
    rw [reuseBalancer_workers]
    simp only [Server.attached]
    omega
  | none =>
    simp only
    by_cases hcreat : creatBal = .none ∨ (creatBal = .root ∧ ¬ main)
    · rw [if_pos hcreat]
      exact iff_of_true (counts_same counted _) (Or.inl hcreat)
    · rw [if_neg hcreat, or_iff_right hcreat, ← createWorker_counts]
      refine forall_congr' fun j => imp_congr_right fun _ => ?_
      have hzero : attachedIn j ([] : List Worker) = 0 := rfl
      rw [addBalancerNode_workers]
      simp only [hzero, Server.attached, List.map_append, List.sum_append, List.map_cons, List.map_nil, List.sum_cons,
        List.sum_nil]
      omega

end Create

/-! ## Looking up -/

section Lookup

variable {httpd : Httpd} {now : Int} {ts ts' : Tables} {sv sv' : Server} {i : Nat}

/-- The nodes in use stay in use, and of their counts only that of node `i` changes. -/
structure CountsFrom (i : Nat) (count : Nat) (ts ts' : Tables) : Prop where
  inUse : ∀ j, InUse ts' j ↔ InUse ts j
  other : ∀ j, j ≠ i → (ts'.nodes.peek j).mess.hasWorkers = (ts.nodes.peek j).mess.hasWorkers
  own : InUse ts i → (ts'.nodes.peek i).mess.hasWorkers = count

theorem inUse_poke (j : Nat) (n : Nodeinfo) :
    InUse { ts with nodes := ts.nodes.poke i n } j ↔ InUse ts j := by
  unfold InUse
  by_cases hij : i = j
  · subst hij
    cases hused : ts.nodes.used i with
    | none => rw [used_poke_none n hused]
    | some a => rw [used_poke_self n hused]; exact iff_of_true rfl rfl
  · rw [used_poke_ne n hij]

theorem StatWrites.inUse (h : StatWrites ts ts') (j : Nat) : InUse ts' j ↔ InUse ts j := by
  induction h with
  | refl => exact Iff.rfl
  | tail _ hw ih =>
    obtain ⟨k, f, rfl⟩ := hw
    exact (inUse_poke j _).trans ih

theorem StatWrites.counts (h : StatWrites ts ts') (i : Nat) :
    CountsFrom i (ts.nodes.peek i).mess.hasWorkers ts ts' where
  inUse := h.inUse
  other j _ := by rw [h.mess]
  own _ := by rw [h.mess]

theorem pokeNode_counts (ts : Tables) (i : Nat) (f : Nodeinfo → Nodeinfo) :
    CountsFrom i (f (ts.nodes.peek i)).mess.hasWorkers ts (pokeNode ts i f) where
  inUse j := inUse_poke j _
  other j hji := by rw [pokeNode, peek_poke_ne _ (Ne.symm hji)]
  own hi := by rw [pokeNode, peek_poke_self _ hi.lt]

theorem CountsFrom.trans {ts'' : Tables} {c c' : Nat} (h : CountsFrom i c ts ts') (h' : CountsFrom i c' ts' ts'') :
    CountsFrom i c' ts ts'' where
  inUse j := (h'.inUse j).trans (h.inUse j)
  other j hji := (h'.other j hji).trans (h.other j hji)
  own hi := h'.own ((h.inUse i).2 hi)

theorem unpairWorkerNode_counts (w : Worker) :
    CountsFrom i ((ts.nodes.peek i).mess.hasWorkers - 1) ts (unpairWorkerNode ts w i).1 := by
  obtain ⟨hwrites, -⟩ := @Worker.write_spec ts w (setIndex (-1))
  have hpoke := pokeNode_counts (w.write ts (setIndex (-1))).1 i decHasWorkers
  have hmess := hwrites.mess i
  have h := (hwrites.counts i).trans hpoke
  have hcount : (decHasWorkers ((w.write ts (setIndex (-1))).1.nodes.peek i)).mess.hasWorkers =
      (ts.nodes.peek i).mess.hasWorkers - 1 := by
    rw [decHasWorkers, hmess]
  rw [hcount] at h
  exact h

theorem lookup_next_missing {l : Lookup} : l.next = .missing ↔ l = .missing := by
  cases l <;> simp [Lookup.next]

theorem lookupWorkers_counts (id : Int) (hi : InUse ts i) (ws : List Worker) :
    CountsFrom i ((ts.nodes.peek i).mess.hasWorkers -
      (ws.takeWhile fun w => !stopsAt id i w).countP (isStray id i)) ts (lookupWorkers id i ts ws).1 ∧
    ((lookupWorkers id i ts ws).2.2 = .missing ↔ ∀ w ∈ ws, stopsAt id i w = false) := by
  induction ws generalizing ts with
  | nil => exact ⟨StatWrites.refl.counts i, iff_of_true rfl (List.forall_mem_nil _)⟩
  | cons w rest ih =>
    rw [lookupWorkers]
    cases hcontext : w.context with
    | none =>
      have hstop : stopsAt id i w = true := by rw [stopsAt, hcontext]
      rw [List.takeWhile_cons_of_neg (by rw [hstop]; decide)]
      refine ⟨StatWrites.refl.counts i, iff_of_false (fun h => by cases h) fun h => ?_⟩
      rw [h w List.mem_cons_self] at hstop
      cases hstop
    | some helper =>
      simp only
      by_cases hfound : w.s = .slot i ∧ helper.index = id
      · have hstop : stopsAt id i w = true := by
          simp only [stopsAt, hcontext, hfound.2, pointsTo_iff.2 hfound.1, beq_self_eq_true, Bool.and_self]
        rw [if_pos hfound, List.takeWhile_cons_of_neg (by rw [hstop]; decide)]
        refine ⟨StatWrites.refl.counts i, iff_of_false ?_ fun h => ?_⟩
        · simp only
          split <;> decide
        · rw [h w List.mem_cons_self] at hstop
          cases hstop
      · have hpass : stopsAt id i w = false := by
          simp only [stopsAt, hcontext]
          rw [← Bool.not_eq_true, Bool.and_eq_true_iff, pointsTo_iff, beq_iff_eq]
          exact hfound
        rw [if_neg hfound, List.takeWhile_cons_of_pos (by rw [hpass]; rfl), List.countP_cons, List.forall_mem_cons]
        by_cases hid : helper.index = id
        · have hstray : isStray id i w = true := by
            have hs : pointsTo i w = false := by
              rw [← Bool.not_eq_true, pointsTo_iff]
              exact fun hs => hfound ⟨hs, hid⟩
            simp only [isStray, hcontext, hid, hs, beq_self_eq_true, Bool.not_false, Bool.and_self]
          have hun := @unpairWorkerNode_counts ts i w
          obtain ⟨hcounts, hmissing⟩ := ih ((hun.inUse i).2 hi)
          simp only [if_pos hid, hstray, if_true]
          rw [hun.own hi, Nat.sub_sub, Nat.add_comm 1] at hcounts
          refine ⟨hun.trans hcounts, ?_⟩
          rw [lookup_next_missing, hmissing, and_iff_right hpass]
        · have hstray : isStray id i w = false := by
            simp only [isStray, hcontext, beq_eq_false_iff_ne.2 hid, Bool.and_false]
          obtain ⟨hcounts, hmissing⟩ := ih hi
          simp only [if_neg hid, hstray, Bool.false_eq_true, if_false, Nat.add_zero]
          refine ⟨hcounts, ?_⟩
          rw [lookup_next_missing, hmissing, and_iff_right hpass]

theorem lookupBalancers_counts (id : Int) (hi : InUse ts i) (bs : List ProxyBalancer) :
    CountsFrom i ((ts.nodes.peek i).mess.hasWorkers -
      ((bs.flatMap (·.workers)).takeWhile fun w => !stopsAt id i w).countP (isStray id i)) ts
        (lookupBalancers id i ts bs).1 := by
  induction bs generalizing ts with
  | nil => exact StatWrites.refl.counts i
  | cons b rest ih =>
    obtain ⟨hcounts, hmissing⟩ := lookupWorkers_counts id hi b.workers
    rw [lookupBalancers, List.flatMap_cons]
    simp only
    by_cases hnone : (lookupWorkers id i ts b.workers).2.2 = .missing
    · have hpass : ∀ w ∈ b.workers, (!stopsAt id i w) = true := by
        intro w hw
        rw [hmissing.1 hnone w hw]
        rfl
      have hrest := ih ((hcounts.inUse i).2 hi)
      rw [List.takeWhile_eq_self_iff.2 hpass] at hcounts
      rw [hcounts.own hi, Nat.sub_sub] at hrest
      rw [if_pos hnone, List.takeWhile_append_of_pos hpass, List.countP_append]
      exact hcounts.trans hrest
    · have hstop : ∃ w ∈ b.workers, ¬ (!stopsAt id i w) = true := by
        by_contra hall
        refine hnone (hmissing.2 fun w hw => ?_)
        by_contra hw'
        exact hall ⟨w, hw, by rw [Bool.not_eq_false] at hw'; rw [hw']; decide⟩
      have hshort : (b.workers ++ rest.flatMap (·.workers)).takeWhile (fun w => !stopsAt id i w) =
          b.workers.takeWhile fun w => !stopsAt id i w := by
        rw [List.takeWhile_append, if_neg]
        intro hlen
        obtain ⟨w, hw, hstopw⟩ := hstop
        have hself := (List.takeWhile_prefix (fun w => !stopsAt id i w)).eq_of_length hlen
        exact hstopw (List.takeWhile_eq_self_iff.1 hself w hw)
      rw [if_neg hnone, hshort]
      exact hcounts

theorem getWorkerFromIdStat_counts (id : Int) (hi : InUse ts i) (sv : Server) :
    CountsFrom i ((ts.nodes.peek i).mess.hasWorkers - sv.met id i) ts (getWorkerFromIdStat ts sv id i).1 :=
  lookupBalancers_counts id hi sv.balancers

theorem lookupWorkers_found {id : Int} {ws : List Worker} {b j : Nat}
    (h : (lookupWorkers id i ts ws).2.2 = .found b j) :
    b = 0 ∧ ∃ w, (lookupWorkers id i ts ws).2.1[j]? = some w ∧ w.s = .slot i := by
  induction ws generalizing ts j with
  | nil => cases h
  | cons w rest ih =>
    rw [lookupWorkers] at h ⊢
    cases hcontext : w.context with
    | none =>
      rw [hcontext] at h
      cases h
    | some helper =>
      simp only [hcontext] at h ⊢
      by_cases hfound : w.s = .slot i ∧ helper.index = id
      · simp only [if_pos hfound] at h ⊢
        split at h
        · cases h
        · cases h
          exact ⟨rfl, w, rfl, hfound.1⟩
      · simp only [if_neg hfound] at h ⊢
        cases hl : (lookupWorkers id i (if helper.index = id then unpairWorkerNode ts w i else (ts, w)).1 rest).2.2 with
        | found b' j' =>
          rw [hl] at h
          cases h
          exact ih hl
        | missing => rw [hl] at h; cases h
        | empty => rw [hl] at h; cases h
        | crashed => rw [hl] at h; cases h

theorem lookupBalancers_found {id : Int} {bs : List ProxyBalancer} {b j : Nat}
    (h : (lookupBalancers id i ts bs).2.2 = .found b j) :
    ∃ bal w, (lookupBalancers id i ts bs).2.1[b]? = some bal ∧ bal.workers[j]? = some w ∧ w.s = .slot i := by
  induction bs generalizing ts b with
  | nil => cases h
  | cons bal rest ih =>
    rw [lookupBalancers] at h ⊢
    simp only at h ⊢
    by_cases hnone : (lookupWorkers id i ts bal.workers).2.2 = .missing
    · rw [if_pos hnone] at h ⊢
      simp only at h ⊢
      cases hl : (lookupBalancers id i (lookupWorkers id i ts bal.workers).1 rest).2.2 with
      | found b' j' =>
        rw [hl] at h
        cases h
        exact ih hl
      | missing => rw [hl] at h; cases h
      | empty => rw [hl] at h; cases h
      | crashed => rw [hl] at h; cases h
    · rw [if_neg hnone] at h ⊢
      obtain ⟨rfl, w, hw, hs⟩ := lookupWorkers_found h
      exact ⟨_, w, rfl, hw, hs⟩

theorem getWorkerFromIdStat_found {id : Int} {b j : Nat} (h : (getWorkerFromIdStat ts sv id i).2.2 = .found b j) :
    ∃ w, (getWorkerFromIdStat ts sv id i).2.1.worker? b j = some w ∧ w.s = .slot i := by
  obtain ⟨bal, w, hbal, hw, hs⟩ := lookupBalancers_found h
  refine ⟨w, ?_, hs⟩
  have hserver : (getWorkerFromIdStat ts sv id i).2.1.balancers[b]? = some bal := hbal
  rw [Server.worker?, hserver]
  exact hw

theorem removeWorkersNode_counts (hi : InUse ts i)
    (h : removeWorkersNode httpd now ts sv i = some (ts', sv')) :
    CountsFrom i ((ts.nodes.peek i).mess.hasWorkers - sv.met (ts.nodes.peek i).mess.id i) ts ts' ∧
      ((RemoveKeeps ts sv i ↔ LookupKeeps ts sv i) ∧ (∀ j, sv'.attached j = sv.attached j) ∨
        (RemoveKeeps ts sv i ↔
          min (sv.met (ts.nodes.peek i).mess.id i) (ts.nodes.peek i).mess.hasWorkers = 1) ∧
        ∀ j, sv'.attached j + (if i = j then 1 else 0) = sv.attached j) := by
  have hcounts := getWorkerFromIdStat_counts (ts.nodes.peek i).mess.id hi sv
  obtain ⟨-, hsame⟩ := getWorkerFromIdStat_spec ts sv (ts.nodes.peek i).mess.id i
  unfold removeWorkersNode at h
  unfold RemoveKeeps
  obtain ⟨q, hq⟩ : ∃ q, getWorkerFromIdStat ts sv (ts.nodes.peek i).mess.id i = q := ⟨_, rfl⟩
  rw [hq] at hcounts hsame
  simp only [hq] at h ⊢
  cases hl : q.2.2 with
  | missing =>
    rw [hl] at h
    cases h
    exact ⟨hcounts, Or.inl ⟨Iff.rfl, hsame⟩⟩
  | empty =>
    rw [hl] at h
    cases h
    exact ⟨hcounts, Or.inl ⟨Iff.rfl, hsame⟩⟩
  | crashed =>
    rw [hl] at h
    cases h
  | found b j =>
    obtain ⟨w, hw, hs⟩ := getWorkerFromIdStat_found (by rw [hq]; exact hl)
    rw [hq] at hw
    simp only [hl, hw] at h ⊢
    cases hcontext : w.context with
    | none =>
      rw [hcontext] at h
      cases h
    | some helper =>
      have herr : StatWrites q.1 (pokeStat q.1 i markError) := StatWrites.refl.write
      have hmarked := hcounts.trans (herr.counts i)
      rw [hcounts.own hi] at hmarked
      simp only [hcontext] at h
      have hkeeps : ∀ p : Helper → Prop, (∀ w' helper', some w = some w' → w'.context = some helper' → p helper') ↔
          p helper := by
        intro p
        constructor
        · exact fun hp => hp w helper rfl hcontext
        · intro hp w' helper' hw' hcontext'
          cases hw'
          rw [hcontext] at hcontext'
          cases hcontext'
          exact hp
      rw [hkeeps fun helper => if helper.countActive = 0 then
        min (sv.met (ts.nodes.peek i).mess.id i) (ts.nodes.peek i).mess.hasWorkers = 1 else LookupKeeps ts sv i]
      by_cases hactive : helper.countActive = 0
      · rw [if_neg (not_not.2 hactive)] at h
        split at h
        · cases h
        · cases h
          refine ⟨hmarked, Or.inr ⟨by rw [if_pos hactive], fun j' => ?_⟩⟩
          rw [← hsame j']
          have hset := @Server.attached_setWorker j' _ _ _ _
            (w.detach httpd helper ((pokeStat q.1 i markError).nodes.peek i).stat.index) hw
          have hpriv : pointsTo j' (w.detach httpd helper
              ((pokeStat q.1 i markError).nodes.peek i).stat.index) = false := rfl
          have hpoints : pointsTo j' w = true ↔ i = j' := by rw [pointsTo_iff, hs, Loc.slot.injEq]
          simp only [hpriv, hpoints, Bool.false_eq_true, if_false, Nat.add_zero] at hset
          exact hset
      · rw [if_pos hactive] at h
        cases h
        refine ⟨?_, Or.inl ⟨by rw [if_neg hactive], hsame⟩⟩
        have h := hmarked.trans (pokeNode_counts (pokeStat q.1 i markError) i (setLastcleantry now))
        have hcount : (setLastcleantry now ((pokeStat q.1 i markError).nodes.peek i)).mess.hasWorkers =
            (ts.nodes.peek i).mess.hasWorkers - sv.met (ts.nodes.peek i).mess.id i := hmarked.own hi
        rw [hcount] at h
        exact h

end Lookup

/-! ## What a step keeps -/

section Steps

variable {httpd : Httpd} {now : Int} {s s' : OneProcess} {ts' : Tables} {sv sv' : Server} {i k : Nat}

theorem balanced_setServer_iff (hbal : s.Balanced) (hsv : s.proxy.servers[k]? = some sv) {count : Nat}
    (hcounts : CountsFrom i count s.tables ts') :
    (s.setServer ts' k sv').Balanced ↔ ∀ j, InUse s.tables j →
      (if i = j then count else (s.tables.nodes.peek j).mess.hasWorkers) + sv.attached j =
        (s.tables.nodes.peek j).mess.hasWorkers + sv'.attached j := by
  unfold OneProcess.Balanced
  refine forall_congr' fun j => ?_
  rw [show InUse (s.setServer ts' k sv').tables j ↔ InUse s.tables j from hcounts.inUse j]
  refine imp_congr_right fun hj => ?_
  have hcount : ((s.setServer ts' k sv').tables.nodes.peek j).mess.hasWorkers =
      if i = j then count else (s.tables.nodes.peek j).mess.hasWorkers := by
    by_cases hij : i = j
    · subst hij
      rw [if_pos rfl]
      exact hcounts.own hj
    · rw [if_neg hij]
      exact hcounts.other j (Ne.symm hij)
  have hset : (s.setServer ts' k sv').proxy.attached j + sv.attached j = s.proxy.attached j + sv'.attached j :=
    Proxy.attached_setServer hsv
  have hold := hbal j hj
  rw [hcount]
  omega

theorem addWorkers_balanced_iff {creatBal : CreatBal} {main : Bool} {m : Nodemess} (hbal : s.Balanced)
    (h : (CountOp.addWorkers k creatBal main now m i).run httpd s = some s') :
    s'.Balanced ↔ (CountOp.addWorkers k creatBal main now m i).Keeps httpd s := by
  obtain ⟨sv, hsv, rfl⟩ := Option.map_eq_some_iff.1 h
  obtain ⟨hwrites, -⟩ := @addBalancersWorkersForServer_spec httpd s.tables now m i creatBal main sv
  rw [balanced_setServer_iff hbal hsv (hwrites.counts i)]
  simp only [CountOp.Keeps, hsv, Option.some.injEq, forall_eq']
  rw [← addBalancersWorkersForServer_counts]
  refine forall_congr' fun j => imp_congr_right fun _ => ?_
  have hsame : (if i = j then (s.tables.nodes.peek i).mess.hasWorkers else
      (s.tables.nodes.peek j).mess.hasWorkers) = (s.tables.nodes.peek j).mess.hasWorkers := by
    by_cases hij : i = j
    · rw [if_pos hij, hij]
    · rw [if_neg hij]
  rw [hsame]
  simp only [Bool.false_eq_true, false_and, if_false]
  omega

theorem isup_balanced_iff {creatBal : CreatBal} {main : Bool} (hbal : s.Balanced)
    (h : (CountOp.isup k creatBal main now i).run httpd s = some s') :
    s'.Balanced ↔ (CountOp.isup k creatBal main now i).Keeps httpd s := by
  simp only [CountOp.run] at h
  split at h
  swap
  · cases h
  rename_i hi
  obtain ⟨sv, hsv, rfl⟩ := Option.map_eq_some_iff.1 h
  obtain ⟨hwrites, -⟩ := @addBalancersWorkersForServer_spec httpd s.tables now (s.tables.nodes.peek i).mess i
    creatBal main sv
  obtain ⟨r, hr⟩ : ∃ r, addBalancersWorkersForServer httpd creatBal main now s.tables sv
    (s.tables.nodes.peek i).mess i = r := ⟨_, rfl⟩
  have hcounts := (hwrites.counts i).trans (pokeNode_counts _ i (addHasWorkers r.2.2))
  simp only [isupServer]
  rw [hr] at hcounts hwrites ⊢
  have hcount : (addHasWorkers r.2.2 (r.1.nodes.peek i)).mess.hasWorkers =
      (s.tables.nodes.peek i).mess.hasWorkers + r.2.2 := by
    rw [addHasWorkers, hwrites.mess i]
  rw [hcount] at hcounts
  rw [balanced_setServer_iff hbal hsv hcounts]
  simp only [CountOp.Keeps, hsv, Option.some.injEq, forall_eq']
  rw [← addBalancersWorkersForServer_counts, hr]
  refine forall_congr' fun j => imp_congr_right fun _ => ?_
  by_cases hij : i = j
  · subst hij
    simp only [and_self, if_true]
    omega
  · simp only [hij, and_false, if_false]
    omega

theorem lookup_balanced_iff (hbal : s.Balanced) (h : (CountOp.lookup k i).run httpd s = some s') :
    s'.Balanced ↔ (CountOp.lookup k i).Keeps httpd s := by
  simp only [CountOp.run] at h
  split at h
  swap
  · cases h
  rename_i hi
  obtain ⟨sv, hsv, h⟩ := Option.bind_eq_some_iff.1 h
  split at h
  · cases h
  cases h
  obtain ⟨-, hsame⟩ := getWorkerFromIdStat_spec s.tables sv (s.tables.nodes.peek i).mess.id i
  rw [balanced_setServer_iff hbal hsv (getWorkerFromIdStat_counts _ hi sv)]
  simp only [CountOp.Keeps, hsv, Option.some.injEq, forall_eq', LookupKeeps, hsame]
  constructor
  · intro hall
    have hown := hall i hi
    rw [if_pos rfl] at hown
    omega
  · intro hkeeps j _
    by_cases hij : i = j
    · subst hij
      rw [if_pos rfl]
      omega
    · rw [if_neg hij]

theorem removeWorkers_balanced_iff (hbal : s.Balanced) (h : (CountOp.removeWorkers k now i).run httpd s = some s') :
    s'.Balanced ↔ (CountOp.removeWorkers k now i).Keeps httpd s := by
  simp only [CountOp.run] at h
  split at h
  swap
  · cases h
  rename_i hi
  obtain ⟨sv, hsv, h⟩ := Option.bind_eq_some_iff.1 h
  obtain ⟨r, hr, rfl⟩ := Option.map_eq_some_iff.1 h
  obtain ⟨hcounts, hcases⟩ := removeWorkersNode_counts hi hr
  rw [balanced_setServer_iff hbal hsv hcounts]
  simp only [CountOp.Keeps, hsv, Option.some.injEq, forall_eq']
  rcases hcases with ⟨hkeeps, hsame⟩ | ⟨hkeeps, hless⟩
  · rw [hkeeps]
    simp only [hsame, LookupKeeps]
    constructor
    · intro hall
      have hown := hall i hi
      rw [if_pos rfl] at hown
      omega
    · intro hnone j _
      by_cases hij : i = j
      · subst hij
        rw [if_pos rfl]
        omega
      · rw [if_neg hij]
  · rw [hkeeps]
    have hattached : sv.attached i ≤ (s.tables.nodes.peek i).mess.hasWorkers := by
      rw [hbal i hi]
      exact List.single_le_sum (fun _ _ => Nat.zero_le _) _
        (List.mem_map.mpr ⟨sv, List.mem_of_getElem? hsv, rfl⟩)
    have hone := hless i
    rw [if_pos rfl] at hone
    constructor
    · intro hall
      have hown := hall i hi
      rw [if_pos rfl] at hown
      omega
    · intro hmin j _
      have hj := hless j
      by_cases hij : i = j
      · subst hij
        rw [if_pos rfl]
        omega
      · rw [if_neg hij] at hj ⊢
        omega

end Steps

/-! ## CONFIG -/

section Config

variable {httpd : Httpd} {now : Int} {ts ts' : Tables} {px px' : Proxy} {m m' : Table Nodeinfo} {s s' : OneProcess}

/-- The nodes in use and their counts. -/
def SameCounts (m m' : Table Nodeinfo) : Prop :=
  ∀ j, (m'.used j).isSome = (m.used j).isSome ∧ (m'.peek j).mess.hasWorkers = (m.peek j).mess.hasWorkers

theorem SameCounts.refl : SameCounts m m := fun _ => ⟨rfl, rfl⟩

theorem SameCounts.poke {i : Nat} {n : Nodeinfo} (h : n.mess.hasWorkers = (m.peek i).mess.hasWorkers) :
    SameCounts m (m.poke i n) := by
  intro j
  constructor
  · by_cases hij : i = j
    · subst hij
      cases hused : m.used i with
      | none => rw [used_poke_none n hused]
      | some a => rw [used_poke_self n hused]; rfl
    · rw [used_poke_ne n hij]
  · rw [peek_poke_eq]
    split
    · rename_i hij
      rw [h, hij.1]
    · rfl

theorem renameRemoved_sameCounts (route : Str) (w : Option Nat) : SameCounts m (renameRemoved m route w) := by
  unfold renameRemoved
  split
  · split
    · exact SameCounts.poke rfl
    · exact SameCounts.refl
  · exact SameCounts.refl

theorem reviveRemoved_sameCounts (route : Str) (w : Option Nat) : SameCounts m (reviveRemoved m route w) := by
  unfold reviveRemoved
  split
  · split
    · exact SameCounts.poke rfl
    · exact SameCounts.refl
  · exact SameCounts.refl

theorem checkConfig_sameCounts {args : ConfigArgs} {plan : Plan}
    (h : checkConfig httpd ts (some px) args = .go plan) : SameCounts ts.nodes plan.nodes := by
  by_cases hadm : Admitted ts args
  swap
  · obtain ⟨e, he⟩ := @checkConfig_denied httpd ts (some px) args hadm
    rw [he] at h
    cases h
  rw [checkConfig_admitted hadm] at h
  split at h
  · cases h
    exact reviveRemoved_sameCounts _ _
  split at h
  · cases h
    exact SameCounts.refl
  · unfold checkWorker at h
    simp only at h
    split at h
    · cases h
    · rcases @reuseWorker_cases ts (some px) (renameRemoved ts.nodes (messageNode ts args).mess.jvmRoute
        (workerNode ts.nodes (knownNode ts args) (workerFound httpd ts (some px) args).2)) (messageNode ts args)
        (workerFound httpd ts (some px) args).1 (workerFound httpd ts (some px) args).2 _
        with habort | ⟨p, r, w, -, -, -, hgo⟩
      · rw [habort] at h
        cases h
      · rw [hgo] at h
        cases h
        exact renameRemoved_sameCounts _ _

theorem insertUpdateNode_hasWorkers {node node' : Nodeinfo} {id id' : Int} {clean : Bool}
    (hids : m.IdsMatch (·.mess.id)) (hzero : node.mess.hasWorkers = 0)
    (h : insertUpdateNode now m node id clean = some (m', node', id')) :
    ∃ i : Nat, id' = i ∧ (m'.used i).isSome = true ∧ (m'.peek i).mess.hasWorkers = 0 ∧
      ∀ j, j ≠ i → (m'.used j).isSome = (m.used j).isSome ∧
        (m'.peek j).mess.hasWorkers = (m.peek j).mess.hasWorkers := by
  rcases insertUpdateNode_cases h with ⟨i, a, -, ha, rfl, -, rfl⟩ | ⟨i, -, hlt, rfl, -, rfl, -⟩
  · refine ⟨i, hids i a ha, ?_, ?_, fun j hji => ⟨?_, ?_⟩⟩
    · rw [used_poke_self _ ha]
      rfl
    · rw [peek_poke_self _ (used_lt ha)]
      exact hzero
    · rw [used_poke_ne _ (Ne.symm hji)]
    · rw [peek_poke_ne _ (Ne.symm hji)]
  · refine ⟨i, rfl, ?_, ?_, fun j hji => ⟨?_, ?_⟩⟩
    · rw [used_store_self _ hlt]
      rfl
    · rw [peek_store_self _ hlt]
      exact hzero
    · rw [used_store_ne _ (Ne.symm hji)]
    · rw [peek_store_ne _ (Ne.symm hji)]

theorem pairWorker_hands {plan : Plan} {nodeinfo : Nodeinfo} {i : Nat} (hclean : plan.clean = false)
    (h : pairWorker now ts (some px) plan nodeinfo i = some (ts', some px')) :
    StatWrites ts ts' ∧ 0 < px'.attached i := by
  unfold pairWorker at h
  rw [if_neg (by rw [hclean]; decide)] at h
  split at h
  swap
  · cases h
  rename_i i' px₁ r hi hpx hr
  cases hpx
  split at h
  swap
  · cases h
  rename_i w hw
  split at h
  swap
  · cases h
  rename_i helper hhelper
  split at h
  swap
  · cases h
  simp only [Option.some.injEq, Prod.mk.injEq] at h
  obtain ⟨rfl, rfl⟩ := h
  have hidi : i = i' := by
    rw [readNodeById, readNode_id (by omega), dptr_eq_some] at hi
    exact Int.natCast_inj.1 hi.1
  subst hidi
  refine ⟨StatWrites.refl.write, ?_⟩
  have hset := @Proxy.attached_setWorker i _ _ _
    { w with s := .slot i, context := some { helper with countActive := 0, isinnodes := true } } hw
  have hpoints : pointsTo i { w with
      s := .slot i, context := some { helper with countActive := 0, isinnodes := true } } = true := pointsTo_iff.2 rfl
  rw [hpoints, if_pos rfl] at hset
  have haway := @Proxy.attached_setWorker i _ _ _ { w with s := .priv } hw
  have hpriv : pointsTo i { w with s := .priv } = false := rfl
  rw [hpriv] at haway
  simp only [Bool.false_eq_true, if_false] at haway
  simp only [reenableProxyWorker]
  omega

theorem balanced_of_sameCounts (hbal : s.Balanced) (h : SameCounts s.tables.nodes ts'.nodes) :
    (⟨ts', s.proxy⟩ : OneProcess).Balanced := by
  intro i hi
  have hi' : InUse s.tables i := by
    unfold InUse at hi ⊢
    rw [← (h i).1]
    exact hi
  rw [← hbal i hi']
  exact (h i).2

theorem config_balanced_iff {mconf : Mconf} {argv : Argv} (hok : IdsOk s.tables) (hbal : s.Balanced)
    (h : (CountOp.config mconf now argv).run httpd s = some s') :
    s'.Balanced ↔ ConfigKeeps httpd now s.tables s.proxy mconf argv := by
  obtain ⟨res, hres⟩ : ∃ res, processConfig httpd mconf now s.tables (some s.proxy) argv = res := ⟨_, rfl⟩
  simp only [CountOp.run, hres] at h
  split at h
  · cases h
  rename_i hlive
  obtain ⟨px', hpx, rfl⟩ := Option.map_eq_some_iff.1 h
  unfold processConfig at hres
  cases hparse : parseConfig httpd mconf argv with
  | error e =>
    rw [hparse] at hres
    subst hres
    cases hpx
    refine iff_of_true hbal fun args plan hargs => ?_
    rw [hparse] at hargs
    cases hargs
  | ok args =>
    have hargs := parseConfig_argsOk hparse
    have hedits := checkConfig_ok False httpd s.tables (some s.proxy) args
      (by rw [← messageNode, messageNode_jvmRoute hok hargs]; exact hargs.route)
    rw [hparse] at hres
    simp only at hres
    cases hgo : checkConfig httpd s.tables (some s.proxy) args with
    | fail e =>
      rw [hgo] at hres
      subst hres
      cases hpx
      refine iff_of_true hbal fun args' plan hargs' hplan => ?_
      rw [hparse] at hargs'
      cases hargs'
      rw [hgo] at hplan
      cases hplan
    | abort nodes =>
      rw [hgo] at hres
      subst hres
      exact absurd rfl hlive
    | go plan =>
      rw [hgo] at hres hedits
      have hnodes := checkConfig_sameCounts hgo
      have hzero : plan.nodeinfo.mess.hasWorkers = 0 := by
        obtain ⟨id, hid⟩ := readNode_mess s.tables.nodes args.node hok.nodes hargs.id
        rw [hedits.2.1, hid]
        exact hargs.hasWorkers
      -- The condition is about this message and this plan.
      have hkeeps : ∀ p : ConfigArgs → Plan → Prop,
          (∀ args' plan', parseConfig httpd mconf argv = .ok args' →
            checkConfig httpd s.tables (some s.proxy) args' = .go plan' → p args' plan') ↔ p args plan := by
        intro p
        constructor
        · exact fun hp => hp args plan hparse hgo
        · intro hp args' plan' hargs' hplan'
          rw [hparse] at hargs'
          cases hargs'
          rw [hgo] at hplan'
          cases hplan'
          exact hp
      unfold ConfigKeeps
      rw [hkeeps]
      simp only at hres
      have hcommit := commitConfig_committed now s.tables (some s.proxy) args plan
      rw [hres] at hcommit
      cases hcommit with
      | noBalancer hb =>
        cases hpx
        refine iff_of_true (balanced_of_sameCounts hbal hnodes) fun hsome => ?_
        rw [hb] at hsome
        cases hsome
      | noNode balancers b hb hn =>
        cases hpx
        refine iff_of_true (balanced_of_sameCounts hbal ?_) fun _ nodes nodeinfo i hsome => ?_
        · rw [rollback_nodes hedits.2.2 hn]
          exact hnodes
        · rw [hn] at hsome
          cases hsome
      | aborted balancers b nodes nodeinfo id hb hn hp => exact absurd rfl hlive
      | stored balancers b nodes nodeinfo id ts' px₁ r hb hn hp hr =>
        obtain ⟨i, rfl, hused, hcount, hother⟩ := insertUpdateNode_hasWorkers (hedits.1.idsOk hok).nodes hzero hn
        have hslot : ((insertUpdateBalancer now s.tables.balancers (messageBalancer s.tables args)).isSome = true →
            ∀ nodes' nodeinfo' (i' : Nat), insertUpdateNode now plan.nodes plan.nodeinfo plan.id plan.clean =
              some (nodes', nodeinfo', (i' : Int)) → plan.clean = true ∧ s.proxy.attached i' = 0) ↔
            plan.clean = true ∧ s.proxy.attached i = 0 := by
          constructor
          · exact fun hall => hall (by rw [hb]; rfl) _ _ i hn
          · intro hall _ nodes' nodeinfo' i' hn'
            rw [hn] at hn'
            simp only [Option.some.injEq, Prod.mk.injEq, Int.natCast_inj] at hn'
            rw [← hn'.2.2]
            exact hall
        have hrnodes : r.1.nodes = ts'.nodes := by
          rw [hr, addAliases_nodes]
          rfl
        have huse : ∀ ts'' : Tables, ts''.nodes = ts'.nodes → ∀ j, InUse ts'' j ↔ InUse ts' j := by
          intro ts'' heq j
          unfold InUse
          rw [heq]
        rw [hslot]
        cases hclean : plan.clean with
        | true =>
          unfold pairWorker at hp
          rw [if_pos hclean] at hp
          simp only [Option.some.injEq, Prod.mk.injEq] at hp
          obtain ⟨rfl, rfl⟩ := hp
          cases hpx
          simp only [true_and]
          constructor
          · intro hbal'
            have hi := hbal' i ((huse _ hrnodes i).2 hused)
            rw [← hi, hrnodes]
            exact hcount
          · intro hnone j hj
            have hj' : (nodes.used j).isSome = true := (huse _ hrnodes j).1 hj
            simp only [hrnodes]
            by_cases hij : j = i
            · subst hij
              rw [hcount, hnone]
            · obtain ⟨hu, hc⟩ := hother j hij
              rw [hc, (hnodes j).2]
              refine hbal j ?_
              rw [InUse, ← (hnodes j).1, ← hu]
              exact hj'
        | false =>
          obtain ⟨p, rfl⟩ := pairWorker_proxy hp
          cases hpx
          obtain ⟨hwrites, hpos⟩ := pairWorker_hands hclean hp
          refine iff_of_false (fun hbal' => ?_) (fun h => Bool.false_ne_true h.1)
          have hi := hbal' i ((huse _ hrnodes i).2 ((hwrites.inUse i).2 hused))
          rw [hrnodes, hwrites.mess i] at hi
          simp only [hcount] at hi
          omega

end Config

/-! ## Runs -/

/-- The tables are empty, and the workers are in their own areas. -/
def OneProcess.Initial (s : OneProcess) : Prop :=
  (∃ sz, s.tables = emptyTables sz) ∧ ∀ w ∈ s.proxy.workers, w.s = .priv

/-- A step that finds what it has to find. -/
def CountStep (httpd : Httpd) (s s' : OneProcess) : Prop := ∃ op : CountOp, op.run httpd s = some s' ∧ op.Keeps httpd s

section Runs

variable {httpd : Httpd} {s s' s₀ : OneProcess}

theorem CountOp.run_balanced_iff {op : CountOp} (hok : IdsOk s.tables) (hbal : s.Balanced)
    (h : op.run httpd s = some s') : s'.Balanced ↔ op.Keeps httpd s := by
  cases op with
  | addWorkers k creatBal main now m i => exact addWorkers_balanced_iff hbal h
  | isup k creatBal main now i => exact isup_balanced_iff hbal h
  | lookup k i => exact lookup_balanced_iff hbal h
  | removeWorkers k now i => exact removeWorkers_balanced_iff hbal h
  | config mconf now argv => exact config_balanced_iff hok hbal h

theorem CountOp.run_idsOk {op : CountOp} (hok : IdsOk s.tables) (h : op.run httpd s = some s') :
    IdsOk s'.tables := by
  cases op with
  | addWorkers k creatBal main now m i =>
    obtain ⟨sv, -, rfl⟩ := Option.map_eq_some_iff.1 h
    exact addBalancersWorkersForServer_spec.1.edits.idsOk hok
  | isup k creatBal main now i =>
    simp only [CountOp.run] at h
    split at h
    · obtain ⟨sv, -, rfl⟩ := Option.map_eq_some_iff.1 h
      exact isupServer_spec.1.edits.idsOk hok
    · cases h
  | lookup k i =>
    simp only [CountOp.run] at h
    split at h
    · obtain ⟨sv, -, h⟩ := Option.bind_eq_some_iff.1 h
      split at h
      · cases h
      · cases h
        exact (getWorkerFromIdStat_spec s.tables sv _ i).1.edits.idsOk hok
    · cases h
  | removeWorkers k now i =>
    simp only [CountOp.run] at h
    split at h
    · obtain ⟨sv, -, h⟩ := Option.bind_eq_some_iff.1 h
      obtain ⟨r, hr, rfl⟩ := Option.map_eq_some_iff.1 h
      exact (removeWorkersNode_spec hr).1.edits.idsOk hok
    · cases h
  | config mconf now argv =>
    simp only [CountOp.run] at h
    split at h
    · cases h
    · obtain ⟨px, -, rfl⟩ := Option.map_eq_some_iff.1 h
      exact (@processConfig_edits False s.tables httpd mconf now (some s.proxy) argv hok fun hs => hs.elim).idsOk hok

theorem OneProcess.Initial.counted (h : s.Initial) : IdsOk s.tables ∧ s.Balanced := by
  obtain ⟨⟨sz, htables⟩, hpriv⟩ := h
  constructor
  · rw [htables]
    exact idsOk_empty sz
  · intro i hi
    rw [htables, InUse, emptyTables, used_empty] at hi
    cases hi

/-- Over a run of steps that find what they have to find, every node in use counts its
workers, and any other step breaks the count. -/
theorem counted_run (httpd : Httpd) (s₀ s : OneProcess) (hstart : s₀.Initial)
    (hrun : Relation.ReflTransGen (CountStep httpd) s₀ s) :
    s.Balanced ∧ ∀ (op : CountOp) (s' : OneProcess), op.run httpd s = some s' →
      (s'.Balanced ↔ op.Keeps httpd s) := by
  have hinv : IdsOk s.tables ∧ s.Balanced := by
    induction hrun with
    | refl => exact hstart.counted
    | tail _ hstep ih =>
      obtain ⟨op, hop, hkeeps⟩ := hstep
      exact ⟨CountOp.run_idsOk ih.1 hop, (CountOp.run_balanced_iff ih.1 ih.2 hop).2 hkeeps⟩
  exact ⟨hinv.2, fun op s' hop => CountOp.run_balanced_iff hinv.1 hinv.2 hop⟩

/-! ## A node and its first worker -/

def startedAlone : OneProcess := ⟨emptyTables ⟨1, 1, 1, 1, 1⟩, noWorkers⟩

def joinedAlone : OneProcess := ⟨joined.tables, noWorkers⟩

/-- The worker that `update_workers_node` makes for the node. -/
def workingAlone : OneProcess :=
  ((CountOp.addWorkers 0 .all true 0 joinedEntry.info.mess 0).run plainHttpd joinedAlone).getD joinedAlone

theorem startedAlone_initial : startedAlone.Initial := ⟨⟨_, rfl⟩, fun w hw => by cases hw⟩

theorem workingAlone_facts :
    (CountOp.config Mconf.default 0 nodeConfig).run plainHttpd startedAlone = some joinedAlone ∧
      (CountOp.addWorkers 0 .all true 0 joinedEntry.info.mess 0).run plainHttpd joinedAlone = some workingAlone ∧
      (InUse joinedAlone.tables 0 ∧ joinedAlone.tables.nodes.size = 1 ∧
        (joinedAlone.tables.nodes.peek 0).mess.hasWorkers = 0) ∧
      InUse workingAlone.tables 0 ∧ (workingAlone.tables.nodes.peek 0).mess.hasWorkers = 0 ∧
      workingAlone.proxy.attached 0 = 1 := by
  decide +kernel

/-- The node comes without workers, and the step that gives it one breaks the count. -/
theorem joinedAlone_counted :
    (joinedAlone.tables.nodes.peek 0).mess.hasWorkers = joinedAlone.proxy.attached 0 ∧
      ¬ (CountOp.addWorkers 0 .all true 0 joinedEntry.info.mess 0).Keeps plainHttpd joinedAlone := by
  obtain ⟨hconfig, hadd, ⟨hjoined, hsize, hzero⟩, huse, hcount, hattached⟩ := workingAlone_facts
  have hbal : joinedAlone.Balanced := by
    intro i hi
    have hlt := hi.lt
    have hi0 : i = 0 := by omega
    subst hi0
    exact hzero
  have hstart := startedAlone_initial.counted
  have hkeeps := (CountOp.run_balanced_iff hstart.1 hstart.2 hconfig).1 hbal
  obtain ⟨hcounted, hbreaks⟩ := counted_run plainHttpd startedAlone joinedAlone startedAlone_initial
    (Relation.ReflTransGen.single ⟨_, hconfig, hkeeps⟩)
  refine ⟨hcounted 0 hjoined, fun h => ?_⟩
  have hworking := (hbreaks _ _ hadd).2 h 0 huse
  rw [hcount, hattached] at hworking
  cases hworking

/-- The node counts no worker, and one points into its slot. -/
theorem first_worker_not_counted :
    ¬ ∀ (httpd : Httpd) (s₀ s : OneProcess), s₀.Initial →
      Relation.ReflTransGen (fun a b => ∃ op : CountOp, op.run httpd a = some b) s₀ s → s.Balanced := by
  intro h
  obtain ⟨hconfig, hadd, -, huse, hcount, hattached⟩ := workingAlone_facts
  have hrun := (Relation.ReflTransGen.single (r := fun a b => ∃ op : CountOp, op.run plainHttpd a = some b)
    ⟨_, hconfig⟩).tail ⟨_, hadd⟩
  have hbal := h plainHttpd startedAlone workingAlone startedAlone_initial hrun 0 huse
  rw [hcount, hattached] at hbal
  cases hbal

end Runs

end ModCluster
