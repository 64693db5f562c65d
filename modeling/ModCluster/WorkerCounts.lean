import ModCluster.Processes
import Mathlib.Algebra.Order.BigOperators.Group.List
import Mathlib.Algebra.Order.Ring.Nat

/-!
# Counting workers

What the functions that create, look up and take away workers do to the number of
workers that point into a slot and to the `has_workers` of its node.
-/

open CString Slotmem Slotmem.Table

namespace ModCluster

/-! ## Counting -/

theorem sum_map_modify {α : Type} (f : α → Nat) (g : α → α) (l : List α) (k : Nat) (a : α)
    (h : l[k]? = some a) : ((l.modify k g).map f).sum + f a = (l.map f).sum + f (g a) := by
  induction l generalizing k with
  | nil => cases h
  | cons b rest ih =>
    cases k with
    | zero =>
      simp only [List.getElem?_cons_zero, Option.some.injEq] at h
      subst h
      simp only [List.modify_zero_cons, List.map_cons, List.sum_cons]
      omega
    | succ k =>
      have := ih k h
      simp only [List.modify_succ_cons, List.map_cons, List.sum_cons]
      omega

theorem sum_map_set {α : Type} (f : α → Nat) (b : α) (l : List α) (k : Nat) (a : α) (h : l[k]? = some a) :
    ((l.set k b).map f).sum + f a = (l.map f).sum + f b := by
  have heq : l.set k b = l.modify k fun _ => b := by
    apply List.ext_getElem?
    intro j
    rw [List.getElem?_set', List.getElem?_modify]
    split <;> cases l[j]? <;> rfl
  rw [heq]
  exact sum_map_modify f (fun _ => b) l k a h

theorem countP_set_add {α : Type} (p : α → Bool) (b : α) (l : List α) (k : Nat) (a : α) (h : l[k]? = some a) :
    (l.set k b).countP p + (if p a then 1 else 0) = l.countP p + if p b then 1 else 0 := by
  induction l generalizing k with
  | nil => cases h
  | cons c rest ih =>
    cases k with
    | zero =>
      simp only [List.getElem?_cons_zero, Option.some.injEq] at h
      subst h
      simp only [List.set_cons_zero, List.countP_cons]
      omega
    | succ k =>
      have := ih k h
      simp only [List.set_cons_succ, List.countP_cons]
      omega

section Attached

variable {c : Cluster} {ts : Tables} {p k i : Nat} {q : Process} {sv sv' : Server}

theorem attachedIn_set {ws : List Worker} {j : Nat} {w w' : Worker} (h : ws[j]? = some w) :
    attachedIn i (ws.set j w') + (if pointsTo i w then 1 else 0) =
      attachedIn i ws + if pointsTo i w' then 1 else 0 :=
  countP_set_add (pointsTo i) w' ws j w h

theorem Proxy.attached_setServer {px : Proxy} (h : px.servers[k]? = some sv) :
    Proxy.attached ⟨px.servers.set k sv'⟩ i + sv.attached i = px.attached i + sv'.attached i :=
  sum_map_set (fun sv => sv.attached i) sv' px.servers k sv h

theorem Cluster.attached_setServer (h : c.server? p k = some sv) :
    (c.setServer ts p k sv').attached i + sv.attached i = c.attached i + sv'.attached i := by
  unfold Cluster.server? at h
  rw [Option.bind_eq_some_iff] at h
  obtain ⟨q, hq, hsv⟩ := h
  have h1 : (c.setServer ts p k sv').attached i + q.proxy.attached i =
      c.attached i + Proxy.attached ⟨q.proxy.servers.set k sv'⟩ i :=
    sum_map_modify (fun q : Process => q.proxy.attached i)
      (fun q => { q with proxy := ⟨q.proxy.servers.set k sv'⟩ }) c.procs p q hq
  have h2 := @Proxy.attached_setServer _ i _ sv' _ hsv
  omega

theorem Cluster.attached_setProxy {px : Proxy} (h : c.procs[p]? = some q) :
    (c.setProxy ts p px).attached i + q.proxy.attached i = c.attached i + px.attached i :=
  sum_map_modify (fun q : Process => q.proxy.attached i) (fun q => { q with proxy := px }) c.procs p q h

theorem Server.attached_setWorker {b j : Nat} {w w' : Worker} (h : sv.worker? b j = some w) :
    (sv.setWorker b j w').attached i + (if pointsTo i w then 1 else 0) =
      sv.attached i + if pointsTo i w' then 1 else 0 := by
  unfold Server.worker? at h
  rw [Option.bind_eq_some_iff] at h
  obtain ⟨bal, hbal, hw⟩ := h
  have h1 : (sv.setWorker b j w').attached i + attachedIn i bal.workers =
      sv.attached i + attachedIn i (bal.workers.set j w') :=
    sum_map_modify (fun b : ProxyBalancer => attachedIn i b.workers)
      (fun bal => bal.setWorker j w') sv.balancers b bal hbal
  have h2 := @attachedIn_set i _ _ _ w' hw
  omega

theorem Proxy.attached_setWorker {px : Proxy} {r : WorkerRef} {w w' : Worker} (h : px.worker? r = some w) :
    (px.setWorker r w').attached i + (if pointsTo i w then 1 else 0) =
      px.attached i + if pointsTo i w' then 1 else 0 := by
  unfold Proxy.worker? at h
  split at h
  swap
  · cases h
  rename_i sv hsv
  split at h
  swap
  · cases h
  rename_i b hb
  have hw : sv.worker? r.balancer r.worker = some w := by
    rw [Server.worker?, hb]
    exact h
  have h1 : (px.setWorker r w').attached i + sv.attached i =
      px.attached i + (sv.setWorker r.balancer r.worker w').attached i :=
    sum_map_modify (fun sv : Server => sv.attached i)
      (fun sv => sv.setWorker r.balancer r.worker w') px.servers r.server sv hsv
  have h2 := @Server.attached_setWorker i _ _ _ _ w' hw
  omega

theorem Cluster.attached_pos (hq : q ∈ c.procs) {w : Worker} (hw : w ∈ q.proxy.workers) (hs : w.s = .slot i) :
    0 < c.attached i := by
  have hp : pointsTo i w = true := by simp [pointsTo, hs]
  unfold Proxy.workers at hw
  rw [List.mem_flatMap] at hw
  obtain ⟨sv, hsv, hw⟩ := hw
  rw [List.mem_flatMap] at hw
  obtain ⟨b, hb, hw⟩ := hw
  have h1 : 0 < attachedIn i b.workers := List.countP_pos_iff.mpr ⟨w, hw, hp⟩
  have h2 : attachedIn i b.workers ≤ sv.attached i :=
    List.single_le_sum (fun _ _ => Nat.zero_le _) _ (List.mem_map.mpr ⟨b, hb, rfl⟩)
  have h3 : sv.attached i ≤ q.proxy.attached i :=
    List.single_le_sum (fun _ _ => Nat.zero_le _) _ (List.mem_map.mpr ⟨sv, hsv, rfl⟩)
  have h4 : q.proxy.attached i ≤ c.attached i :=
    List.single_le_sum (fun _ _ => Nat.zero_le _) _ (List.mem_map.mpr ⟨q, hq, rfl⟩)
  omega

end Attached

/-! ## Writes into the areas of workers -/

variable {httpd : Httpd} {ts ts' : Tables} {now wait : Int}

theorem peek_poke_eq {α : Type} [Inhabited α] (m : Table α) (i j : Nat) (a : α) :
    (m.poke i a).peek j = if i = j ∧ i < m.size then a else m.peek j := by
  by_cases hij : i = j
  · subst hij
    by_cases hlt : i < m.size
    · rw [if_pos ⟨rfl, hlt⟩, peek_poke_self a hlt]
    · rw [if_neg fun h => hlt h.2, poke_of_le a (by omega)]
  · rw [if_neg fun h => hij h.1, peek_poke_ne a hij]

/-- Any number of writes into `stat` areas. -/
def StatWrites : Tables → Tables → Prop :=
  Relation.ReflTransGen fun a b => ∃ i f, b = pokeStat a i f

theorem StatWrites.refl : StatWrites ts ts := Relation.ReflTransGen.refl

theorem StatWrites.write {i : Nat} {f : WorkerShared → WorkerShared} (h : StatWrites ts ts') :
    StatWrites ts (pokeStat ts' i f) := Relation.ReflTransGen.tail h ⟨i, f, rfl⟩

theorem StatWrites.edits (h : StatWrites ts ts') : Edits False ts ts' := by
  induction h with
  | refl => exact Edits.refl
  | tail _ hw ih =>
    obtain ⟨i, f, rfl⟩ := hw
    exact ih.tail (pokeStat_edit _ i f)

theorem StatWrites.mess (h : StatWrites ts ts') (j : Nat) :
    (ts'.nodes.peek j).mess = (ts.nodes.peek j).mess := by
  induction h with
  | refl => rfl
  | tail _ hw ih =>
    obtain ⟨i, f, rfl⟩ := hw
    rw [← ih, pokeStat, peek_poke_eq]
    split
    · rename_i hij
      rw [hij.1]
    · rfl

theorem StatWrites.idsUsed (h : StatWrites ts ts') {ids : List Int} (hids : IdsUsed ts.nodes ids) :
    IdsUsed ts'.nodes ids := by
  induction h with
  | refl => exact hids
  | tail _ hw ih =>
    obtain ⟨i, f, rfl⟩ := hw
    exact ih.poke _ _

/-! ## Creating workers -/

section Create

variable {b : ProxyBalancer} {m : Nodemess} {i j : Nat}

/-- A worker that is made or reused points into the node's slot and nowhere else. -/
def OnlyTo (i : Nat) (before after : List Worker) : Prop := ∀ j, j ≠ i → attachedIn j after ≤ attachedIn j before

theorem pointsTo_slot_ne (hji : j ≠ i) {w : Worker} (hs : w.s = .slot i) : pointsTo j w = false := by
  rw [pointsTo, hs]
  simp only [beq_eq_false_iff_ne, ne_eq, Loc.slot.injEq]
  omega

theorem onlyTo_set {ws : List Worker} {k : Nat} {w w' : Worker} (hw : ws[k]? = some w) (hs : w'.s = .slot i) :
    OnlyTo i ws (ws.set k w') := by
  intro j hji
  have h := @attachedIn_set j _ _ _ w' hw
  rw [pointsTo_slot_ne hji hs] at h
  simp only [Bool.false_eq_true, if_false] at h
  omega

theorem createWorkerReuse_spec {k : Nat} {w : Worker} (hw : b.workers[k]? = some w) :
    StatWrites ts (createWorkerReuse httpd now ts b k w m i).1 ∧
      OnlyTo i b.workers (createWorkerReuse httpd now ts b k w m i).2.1.workers := by
  unfold createWorkerReuse
  split
  · exact ⟨StatWrites.refl, fun _ _ => Nat.le_refl _⟩
  split
  · exact ⟨StatWrites.refl, fun _ _ => Nat.le_refl _⟩
  split
  · split
    · exact ⟨StatWrites.refl.write, fun _ _ => Nat.le_refl _⟩
    · exact ⟨StatWrites.refl, fun _ _ => Nat.le_refl _⟩
  · simp only
    split
    · exact ⟨StatWrites.refl.write.write, onlyTo_set hw rfl⟩
    · refine ⟨?_, onlyTo_set hw rfl⟩
      dsimp only
      exact StatWrites.refl.write

theorem createWorkerNew_spec {shared : WorkerShared} :
    StatWrites ts (createWorkerNew httpd now ts b shared m i).1 ∧
      OnlyTo i b.workers (createWorkerNew httpd now ts b shared m i).2.1.workers := by
  have honly : OnlyTo i b.workers (b.workers ++ [{
      s := .slot i
      priv := shared
      context := some { countActive := 0, index := m.id, isinnodes := true } }]) := by
    intro j hji
    rw [attachedIn, List.countP_append, List.countP_singleton, pointsTo_slot_ne hji rfl]
    exact Nat.le_refl _
  unfold createWorkerNew
  simp only
  split
  · have hnamed : StatWrites ts (pokeStat ts i (arrangeSharedMem now m shared)) := StatWrites.refl.write
    split
    · exact ⟨hnamed.write.write, honly⟩
    · refine ⟨?_, honly⟩
      dsimp only
      exact hnamed.write
  · split
    · exact ⟨StatWrites.refl.write.write, honly⟩
    · refine ⟨?_, honly⟩
      dsimp only
      exact StatWrites.refl.write

theorem createWorker_spec :
    StatWrites ts (createWorker httpd now ts b m i).1 ∧
      OnlyTo i b.workers (createWorker httpd now ts b m i).2.1.workers := by
  unfold createWorker
  split
  · exact ⟨StatWrites.refl, fun _ _ => Nat.le_refl _⟩
  split
  · rename_i k w hfound
    rw [Option.bind_eq_some_iff] at hfound
    obtain ⟨k', -, hk'⟩ := hfound
    rw [Option.map_eq_some_iff] at hk'
    obtain ⟨w', hw', heq⟩ := hk'
    cases heq
    exact createWorkerReuse_spec hw'
  · split
    · exact ⟨StatWrites.refl, fun _ _ => Nat.le_refl _⟩
    · exact createWorkerNew_spec

theorem workers_ite {q : Prop} {_ : Decidable q} {b b' : ProxyBalancer} (h : b'.workers = b.workers) :
    (if q then b' else b).workers = b.workers := by
  split
  · exact h
  · rfl

theorem reuseBalancer_workers : (reuseBalancer ts b).workers = b.workers := by
  unfold reuseBalancer
  split
  · rfl
  · refine Eq.trans (workers_ite rfl) ?_
    refine Eq.trans (workers_ite rfl) ?_
    refine Eq.trans (workers_ite rfl) ?_
    refine Eq.trans (workers_ite rfl) ?_
    exact Eq.trans (workers_ite rfl) (workers_ite rfl)

theorem addBalancerNode_workers : (addBalancerNode ts m).workers = [] := by
  unfold addBalancerNode
  simp only
  split
  · rfl
  · exact Eq.trans (workers_ite rfl) (workers_ite rfl)

theorem addBalancersWorkersForServer_spec {creatBal : CreatBal} {main : Bool} {sv : Server} :
    StatWrites ts (addBalancersWorkersForServer httpd creatBal main now ts sv m i).1 ∧
      ∀ j, j ≠ i →
        (addBalancersWorkersForServer httpd creatBal main now ts sv m i).2.1.attached j ≤ sv.attached j := by
  unfold addBalancersWorkersForServer
  split
  · rename_i k b hfound
    rw [Option.bind_eq_some_iff] at hfound
    obtain ⟨k', -, hk'⟩ := hfound
    rw [Option.map_eq_some_iff] at hk'
    obtain ⟨b', hb', heq⟩ := hk'
    rw [Prod.mk.injEq] at heq
    obtain ⟨rfl, rfl⟩ := heq
    obtain ⟨hwrites, honly⟩ := createWorker_spec
      (b := reuseBalancer ts b') (m := m) (i := i)
    refine ⟨hwrites, fun j hji => ?_⟩
    have h := sum_map_set (fun b : ProxyBalancer => attachedIn j b.workers)
      (createWorker httpd now ts (reuseBalancer ts b') m i).2.1 sv.balancers k' b' hb'
    have hle := honly j hji
    rw [reuseBalancer_workers] at hle
    simp only [Server.attached]
    omega
  · split
    · exact ⟨StatWrites.refl, fun _ _ => Nat.le_refl _⟩
    · obtain ⟨hwrites, honly⟩ := createWorker_spec
        (b := addBalancerNode ts m) (m := m) (i := i)
      refine ⟨hwrites, fun j hji => ?_⟩
      have hle := honly j hji
      rw [addBalancerNode_workers] at hle
      have hzero : attachedIn j ([] : List Worker) = 0 := rfl
      simp only [Server.attached, List.map_append, List.sum_append, List.map_cons, List.map_nil,
        List.sum_cons, List.sum_nil]
      omega

end Create

/-! ## Lookups -/

/-- What looking up the node of slot `i` can do to the nodes: unpair at most `k`
workers from it. -/
structure Unpairs (i k : Nat) (ts ts' : Tables) : Prop where
  edits : Edits False ts ts'
  jvmRoute : ∀ j, (ts'.nodes.peek j).mess.jvmRoute = (ts.nodes.peek j).mess.jvmRoute
  id : ∀ j, (ts'.nodes.peek j).mess.id = (ts.nodes.peek j).mess.id
  other : ∀ j, j ≠ i → (ts'.nodes.peek j).mess.hasWorkers = (ts.nodes.peek j).mess.hasWorkers
  own : (ts.nodes.peek i).mess.hasWorkers - k ≤ (ts'.nodes.peek i).mess.hasWorkers
  idsUsed : ∀ ids, IdsUsed ts.nodes ids → IdsUsed ts'.nodes ids

theorem Unpairs.refl (i : Nat) (ts : Tables) : Unpairs i 0 ts ts :=
  ⟨Edits.refl, fun _ => rfl, fun _ => rfl, fun _ _ => rfl, Nat.le_refl _, fun _ h => h⟩

theorem Unpairs.trans {i k k' : Nat} {ts₁ ts₂ ts₃ : Tables} (h : Unpairs i k ts₁ ts₂) (h' : Unpairs i k' ts₂ ts₃) :
    Unpairs i (k + k') ts₁ ts₃ where
  edits := h.edits.trans h'.edits
  jvmRoute j := (h'.jvmRoute j).trans (h.jvmRoute j)
  id j := (h'.id j).trans (h.id j)
  other j hji := (h'.other j hji).trans (h.other j hji)
  own := by
    have := h.own
    have := h'.own
    omega
  idsUsed ids hids := h'.idsUsed ids (h.idsUsed ids hids)

theorem Unpairs.mono {i k k' : Nat} (h : Unpairs i k ts ts') (hk : k ≤ k') : Unpairs i k' ts ts' :=
  { h with own := by have := h.own; omega }

theorem StatWrites.unpairs {i : Nat} (h : StatWrites ts ts') : Unpairs i 0 ts ts' where
  edits := h.edits
  jvmRoute j := by rw [h.mess]
  id j := by rw [h.mess]
  other j _ := by rw [h.mess]
  own := by
    rw [h.mess]
    exact Nat.le_refl _
  idsUsed ids hids := h.idsUsed hids

theorem Worker.write_spec (w : Worker) (f : WorkerShared → WorkerShared) :
    StatWrites ts (w.write ts f).1 ∧ (w.write ts f).2.s = w.s := by
  unfold Worker.write
  split
  · exact ⟨StatWrites.refl.write, rfl⟩
  · exact ⟨StatWrites.refl, rfl⟩

/-- A write into the record of a node that keeps what names it. -/
structure NodeWrite (k : Nat) (f : Nodeinfo → Nodeinfo) : Prop where
  id : ∀ n, (f n).mess.id = n.mess.id
  balancer : ∀ n, (f n).mess.balancer = n.mess.balancer
  jvmRoute : ∀ n, (f n).mess.jvmRoute = n.mess.jvmRoute
  remove : ∀ n, (f n).mess.remove = n.mess.remove
  hasWorkers : ∀ n, n.mess.hasWorkers - k ≤ (f n).mess.hasWorkers

theorem pokeNode_edit {f : Nodeinfo → Nodeinfo} {k : Nat} (hf : NodeWrite k f) (i : Nat) :
    Edit False ts (pokeNode ts i f) := by
  refine Edit.node i _ (hf.id _) ?_ (Or.inl (hf.balancer _)) ?_ fun hs => hs.elim
  · rw [hf.remove]
    exact Or.inl
  · rw [hf.jvmRoute]
    exact fun h => h

theorem pokeNode_unpairs {f : Nodeinfo → Nodeinfo} {k : Nat} (hf : NodeWrite k f) (ts : Tables) (i : Nat) :
    Unpairs i k ts (pokeNode ts i f) where
  edits := (pokeNode_edit hf i).single
  jvmRoute j := by
    rw [pokeNode, peek_poke_eq]
    split
    · rename_i hij
      rw [← hij.1, hf.jvmRoute]
    · rfl
  id j := by
    rw [pokeNode, peek_poke_eq]
    split
    · rename_i hij
      rw [← hij.1, hf.id]
    · rfl
  other j hji := by
    rw [pokeNode, peek_poke_eq, if_neg fun h => hji h.1.symm]
  own := by
    rw [pokeNode, peek_poke_eq]
    split
    · exact hf.hasWorkers _
    · omega
  idsUsed ids hids := hids.poke _ _

theorem nodeWrite_dec : NodeWrite 1 decHasWorkers :=
  ⟨fun _ => rfl, fun _ => rfl, fun _ => rfl, fun _ => rfl, fun _ => Nat.le_refl _⟩

theorem nodeWrite_lastcleantry (now : Int) : NodeWrite 0 (setLastcleantry now) :=
  ⟨fun _ => rfl, fun _ => rfl, fun _ => rfl, fun _ => rfl, fun _ => Nat.le_refl _⟩

theorem nodeWrite_add (k : Nat) : NodeWrite 0 (addHasWorkers k) :=
  ⟨fun _ => rfl, fun _ => rfl, fun _ => rfl, fun _ => rfl, fun _ => Nat.le_add_right _ _⟩

theorem isupServer_spec {creatBal : CreatBal} {main : Bool} {sv : Server} {i : Nat} :
    Unpairs i 0 ts (isupServer httpd creatBal main now ts sv i).1 ∧
      ∀ j, j ≠ i → (isupServer httpd creatBal main now ts sv i).2.attached j ≤ sv.attached j := by
  obtain ⟨hwrites, hle⟩ := addBalancersWorkersForServer_spec (m := (ts.nodes.peek i).mess) (i := i)
  unfold isupServer
  exact ⟨hwrites.unpairs.trans (pokeNode_unpairs (nodeWrite_add _) _ i), hle⟩

theorem unpairWorkerNode_spec (w : Worker) (i : Nat) :
    Unpairs i 1 ts (unpairWorkerNode ts w i).1 ∧ (unpairWorkerNode ts w i).2.s = w.s := by
  obtain ⟨hw, hs⟩ := Worker.write_spec w (setIndex (-1))
  have h := hw.unpairs.trans (pokeNode_unpairs nodeWrite_dec (w.write ts (setIndex (-1))).1 i)
  exact ⟨h, hs⟩

theorem pointsTo_congr {j : Nat} {w w' : Worker} (h : w'.s = w.s) : pointsTo j w' = pointsTo j w := by
  unfold pointsTo
  rw [h]

theorem lookupWorkers_spec (id : Int) (i : Nat) (ws : List Worker) (ts : Tables) :
    Unpairs i (ws.countP (isStray id i)) ts (lookupWorkers id i ts ws).1 ∧
      ∀ j, attachedIn j (lookupWorkers id i ts ws).2.1 = attachedIn j ws := by
  induction ws generalizing ts with
  | nil => exact ⟨Unpairs.refl i ts, fun _ => rfl⟩
  | cons w rest ih =>
    unfold lookupWorkers
    split
    · exact ⟨(Unpairs.refl i ts).mono (Nat.zero_le _), fun _ => rfl⟩
    rename_i helper hhelper
    split
    · exact ⟨(Unpairs.refl i ts).mono (Nat.zero_le _), fun _ => rfl⟩
    rename_i hmiss
    by_cases hid : helper.index = id
    · -- The worker has the id and points elsewhere.
      have hstray : isStray id i w = true := by
        have hs : w.s ≠ .slot i := fun hs => hmiss ⟨hs, hid⟩
        simp [isStray, pointsTo, hs, hhelper, hid]
      obtain ⟨hun, hs⟩ := unpairWorkerNode_spec w i
      obtain ⟨hrest, hcount⟩ := ih (unpairWorkerNode ts w i).1
      simp only [if_pos hid]
      constructor
      · rw [List.countP_cons, hstray, if_pos rfl, Nat.add_comm]
        exact hun.trans hrest
      · intro j
        have := hcount j
        simp only [attachedIn, List.countP_cons, pointsTo_congr hs] at this ⊢
        omega
    · obtain ⟨hrest, hcount⟩ := ih ts
      simp only [if_neg hid]
      constructor
      · refine hrest.mono ?_
        rw [List.countP_cons]
        omega
      · intro j
        have := hcount j
        simp only [attachedIn, List.countP_cons] at this ⊢
        omega

theorem lookupBalancers_spec (id : Int) (i : Nat) (bs : List ProxyBalancer) (ts : Tables) :
    Unpairs i ((bs.map fun b => b.workers.countP (isStray id i)).sum) ts (lookupBalancers id i ts bs).1 ∧
      ∀ j, ((lookupBalancers id i ts bs).2.1.map fun b => attachedIn j b.workers).sum =
        (bs.map fun b => attachedIn j b.workers).sum := by
  induction bs generalizing ts with
  | nil => exact ⟨Unpairs.refl i ts, fun _ => rfl⟩
  | cons b rest ih =>
    obtain ⟨hun, hcount⟩ := lookupWorkers_spec id i b.workers ts
    unfold lookupBalancers
    simp only
    split
    · obtain ⟨hrest, hcounts⟩ := ih (lookupWorkers id i ts b.workers).1
      refine ⟨hun.trans hrest, fun j => ?_⟩
      have h1 := hcount j
      have h2 := hcounts j
      simp only [List.map_cons, List.sum_cons]
      omega
    · refine ⟨hun.mono ?_, fun j => ?_⟩
      · rw [List.map_cons, List.sum_cons]
        omega
      · have h1 := hcount j
        simp only [List.map_cons, List.sum_cons]
        omega

theorem getWorkerFromIdStat_spec (ts : Tables) (sv : Server) (id : Int) (i : Nat) :
    Unpairs i (sv.strays id i) ts (getWorkerFromIdStat ts sv id i).1 ∧
      ∀ j, (getWorkerFromIdStat ts sv id i).2.1.attached j = sv.attached j :=
  lookupBalancers_spec id i sv.balancers ts

/-! ## Taking workers away -/

theorem removeWorkersNode_spec {sv sv' : Server} {i : Nat}
    (h : removeWorkersNode httpd now ts sv i = some (ts', sv')) :
    Unpairs i (sv.strays (ts.nodes.peek i).mess.id i) ts ts' ∧ ∀ j, sv'.attached j ≤ sv.attached j := by
  obtain ⟨hun, hcount⟩ := getWorkerFromIdStat_spec ts sv (ts.nodes.peek i).mess.id i
  unfold removeWorkersNode at h
  simp only at h
  split at h
  · cases h
    exact ⟨hun, fun j => Nat.le_of_eq (hcount j)⟩
  · cases h
    exact ⟨hun, fun j => Nat.le_of_eq (hcount j)⟩
  · cases h
  split at h
  · cases h
  rename_i b j _ _ w hw
  split at h
  · cases h
  rename_i helper hhelper
  have herr : StatWrites (getWorkerFromIdStat ts sv (ts.nodes.peek i).mess.id i).1
      (pokeStat (getWorkerFromIdStat ts sv (ts.nodes.peek i).mess.id i).1 i markError) := StatWrites.refl.write
  split at h
  · cases h
    exact ⟨hun.trans (herr.unpairs.trans (pokeNode_unpairs (nodeWrite_lastcleantry now) _ i)),
      fun j => Nat.le_of_eq (hcount j)⟩
  split at h
  · cases h
  · cases h
    refine ⟨hun.trans herr.unpairs, fun j' => ?_⟩
    -- The worker points into its own area now.
    rw [← hcount j']
    refine Nat.le_of_add_le_add_right (b := if pointsTo j' w then 1 else 0) ?_
    rw [Server.attached_setWorker hw]
    have hpriv : pointsTo j' (w.detach httpd helper ((pokeStat (getWorkerFromIdStat ts sv
        (ts.nodes.peek i).mess.id i).1 i markError).nodes.peek i).stat.index) = false := rfl
    rw [hpriv]
    exact Nat.add_le_add_left (Nat.zero_le _) _

theorem checkWorkersOf_spec {ws ws' : List Worker} (h : checkWorkersOf httpd ts ws = some ws') (j : Nat) :
    attachedIn j ws' ≤ attachedIn j ws := by
  induction ws generalizing ws' with
  | nil =>
    cases h
    exact Nat.le_refl _
  | cons w rest ih =>
    unfold checkWorkersOf at h
    split at h
    swap
    · cases h
    rename_i w' rest' hw hrest
    cases h
    have hle := ih hrest
    have hpoint : pointsTo j w' = true → pointsTo j w = true := by
      unfold checkWorkerArea at hw
      split at hw
      · cases hw
      split at hw
      · split at hw
        · cases hw
        · cases hw
          intro hp
          cases hp
      · cases hw
        exact fun h => h
    simp only [attachedIn, List.countP_cons] at hle ⊢
    by_cases hp : pointsTo j w' = true
    · rw [if_pos hp, if_pos (hpoint hp)]
      omega
    · rw [if_neg hp]
      omega

theorem checkWorkers_spec {sv sv' : Server} (h : checkWorkers httpd ts sv = some sv') (j : Nat) :
    sv'.attached j ≤ sv.attached j := by
  unfold checkWorkers at h
  rw [Option.map_eq_some_iff] at h
  obtain ⟨bs, hbs, rfl⟩ := h
  unfold Server.attached
  generalize sv.balancers = l at hbs ⊢
  induction l generalizing bs with
  | nil =>
    cases hbs
    exact Nat.le_refl _
  | cons b rest ih =>
    unfold checkBalancers at hbs
    split at hbs
    swap
    · cases hbs
    rename_i workers rest' hw hrest
    cases hbs
    have h1 := checkWorkersOf_spec hw j
    have h2 := ih rest' hrest
    simp only [List.map_cons, List.sum_cons] at h2 ⊢
    omega

end ModCluster
