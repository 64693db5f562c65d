import ModCluster.ElectionClasses

/-!
# The other way to choose

`mod_lbmethod_cluster.c` asks all workers of a balancer in one pass. Nodes are found by
the route of the worker, in the tables of the request.
-/

open CString Slotmem

namespace ModCluster.LbMethod

def tableGetNodeRoute (nodes : List NodeEntry) (route : Str) : Option NodeEntry :=
  nodes.find? fun n => n.info.mess.jvmRoute == route

/-- The load, in the unsigned arithmetic of `elected` and then as an `int`. -/
def lbstatus (area : WorkerShared) (oldelected : Nat) : Int :=
  let served := (area.elected + 2 ^ 64 - oldelected % 2 ^ 64) % 2 ^ 64
  toInt32 (served * 1000 % 2 ^ 64 / area.lbfactor.toNat : Nat)

section Choose

variable (useAlias : Bool) (s : Snapshot) (b : Nat) (w : World)

/-- Worker `j`, which `node` was found for, against the candidate `k`. -/
def compare (k j : Nat) (node : NodeEntry) : Nat :=
  match tableGetNodeRoute s.nodes (w.area b k).route with
  | none => k
  | some node1 =>
    if (w.area b k).lbfactor > 0 ∧ (w.area b j).lbfactor > 0 then
      if lbstatus (w.area b k) node1.info.mess.oldelected > lbstatus (w.area b j) node.info.mess.oldelected then j
      else k
    else k

def bestStep (balancer : ProxyBalancer) (r : Request) (mycandidate : Option Nat) (j : Nat) : Request × Option Nat :=
  if ¬ (w.area b j).isUsable then (r, mycandidate)
  else
    match tableGetNodeRoute s.nodes (w.area b j).route with
    | none => (r, mycandidate)
    | some node =>
      match contextHostOk useAlias s w.server.balancers r balancer node.node with
      | (r, none) => (r, mycandidate)
      | (r, some _) =>
        match mycandidate with
        | none => (r, some j)
        | some k => (r, some (compare s b w k j node))

def bestLoop (balancer : ProxyBalancer) : List Nat → Request → Option Nat → Request × Option Nat
  | [], r, mycandidate => (r, mycandidate)
  | j :: js, r, mycandidate =>
    match bestStep useAlias s b w balancer r mycandidate j with
    | (r, mycandidate) => bestLoop balancer js r mycandidate

/-- The worker of balancer `b` that is returned. -/
def internalFindBestByrequests (r : Request) : Request × Option Nat :=
  match w.server.balancers[b]? with
  | none => (r, none)
  | some balancer => bestLoop useAlias s b w balancer (w.workers b) r none

end Choose

/-! ## Statement -/

/-- The worker is usable, and the node with its route serves the request. -/
structure Eligible (useAlias : Bool) (s : Snapshot) (b : Nat) (w : World) (r : Request) (j : Nat) : Prop where
  asked : j ∈ w.workers b
  usable : (w.area b j).isUsable = true
  serves : ∃ balancer node context, w.server.balancers[b]? = some balancer ∧
    tableGetNodeRoute s.nodes (w.area b j).route = some node ∧
      (contextHostOk useAlias s w.server.balancers r balancer node.node).2 = some context

/-- It has a load factor, too. -/
structure Active (useAlias : Bool) (s : Snapshot) (b : Nat) (w : World) (r : Request) (j : Nat) : Prop where
  eligible : Eligible useAlias s b w r j
  lbfactor : 0 < (w.area b j).lbfactor

/-- `oldelected` of the node with the worker's route. -/
def oldelected (s : Snapshot) (b : Nat) (w : World) (j : Nat) : Nat :=
  match tableGetNodeRoute s.nodes (w.area b j).route with
  | some node => node.info.mess.oldelected
  | none => 0

/-- The load in integers that do not wrap. -/
def exactLoad (s : Snapshot) (b : Nat) (w : World) (j : Nat) : Int :=
  (((w.area b j).elected - oldelected s b w j : Int) * 1000).tdiv (w.area b j).lbfactor

/-- The load that is compared. -/
def load (s : Snapshot) (b : Nat) (w : World) (j : Nat) : Int := lbstatus (w.area b j) (oldelected s b w j)

/-- What the method is to return. -/
structure LeastLoaded (useAlias : Bool) (s : Snapshot) (b : Nat) (w : World) (r : Request) (answer : Option Nat) :
    Prop where
  least : (∃ j, Active useAlias s b w r j) → ∃ j, answer = some j ∧ Active useAlias s b w r j ∧
    ∀ k, Active useAlias s b w r k → exactLoad s b w j ≤ exactLoad s b w k
  missing : answer = none ↔ ∀ j, ¬ Eligible useAlias s b w r j

/-- The first eligible worker has a load factor, and the loads as they are compared put
one of the least loaded workers in front of all others. -/
structure WellOrdered (useAlias : Bool) (s : Snapshot) (b : Nat) (w : World) (r : Request) : Prop where
  first : ∀ j, Eligible useAlias s b w r j → (∀ k < j, ¬ Eligible useAlias s b w r k) → 0 < (w.area b j).lbfactor
  front : ∃ j, Active useAlias s b w r j ∧ ∀ k, Active useAlias s b w r k →
    exactLoad s b w j ≤ exactLoad s b w k ∧
      (load s b w j < load s b w k ∨ load s b w j = load s b w k ∧ j ≤ k)

section Pass

variable {useAlias : Bool} {s : Snapshot} {b : Nat} {w : World} {r r' : Request} {balancer : ProxyBalancer}

/-! ## The search is made once -/

/-- Both requests get the same answer for every node. -/
def SameContexts (useAlias : Bool) (s : Snapshot) (w : World) (balancer : ProxyBalancer) (r r' : Request) : Prop :=
  ∀ node, (contextHostOk useAlias s w.server.balancers r' balancer node).2 =
    (contextHostOk useAlias s w.server.balancers r balancer node).2

theorem contextHostOk_same (node : Int) : SameContexts useAlias s w balancer r
    (contextHostOk useAlias s w.server.balancers r balancer node).1 := by
  intro n
  unfold contextHostOk findNodeContextHost
  cases hnote : r.notes.proxyContext with
  | some best => simp [hnote]
  | none =>
    simp only
    cases hsearch : searchNodes useAlias s w.server.balancers r (some balancer) r.notes.sessionRoute with
    | none => simp [hsearch, hnote]
    | some best => simp [Request.setProxyContext]

/-! ## The pass -/

/-- The checks of a worker. -/
def accepts (useAlias : Bool) (s : Snapshot) (b : Nat) (w : World) (balancer : ProxyBalancer) (r : Request) (j : Nat) :
    Bool :=
  (w.area b j).isUsable && (tableGetNodeRoute s.nodes (w.area b j).route).any fun node =>
    (contextHostOk useAlias s w.server.balancers r balancer node.node).2.isSome

/-- What becomes of the candidate. -/
def challenge (lbfactor load : Nat → Int) (mycandidate : Option Nat) (j : Nat) : Option Nat :=
  match mycandidate with
  | none => some j
  | some k => if 0 < lbfactor k ∧ 0 < lbfactor j ∧ load j < load k then some j else some k

theorem SameContexts.accepts (h : SameContexts useAlias s w balancer r r') (j : Nat) :
    accepts useAlias s b w balancer r' j = accepts useAlias s b w balancer r j := by
  unfold LbMethod.accepts
  simp only [h _]

/-- The node of the candidate is there. -/
def HasNode (s : Snapshot) (b : Nat) (w : World) (k : Nat) : Prop :=
  ∃ node, tableGetNodeRoute s.nodes (w.area b k).route = some node

theorem accepts_hasNode {j : Nat} (h : accepts useAlias s b w balancer r j = true) : HasNode s b w j := by
  unfold accepts at h
  cases hnode : tableGetNodeRoute s.nodes (w.area b j).route with
  | none => simp [hnode] at h
  | some node => exact ⟨node, hnode⟩

theorem compare_eq {k j : Nat} {node : NodeEntry} (hk : HasNode s b w k)
    (hj : tableGetNodeRoute s.nodes (w.area b j).route = some node) :
    some (compare s b w k j node) = challenge (fun j => (w.area b j).lbfactor) (load s b w) (some k) j := by
  obtain ⟨node1, hnode1⟩ := hk
  unfold compare challenge load oldelected
  simp only [hnode1, hj]
  split
  · rename_i hpos
    simp only [hpos.1, hpos.2, true_and]
    split <;> rfl
  · rename_i hpos
    rw [if_neg fun h => hpos ⟨h.1, h.2.1⟩]

theorem bestStep_eq {mycandidate : Option Nat} {j : Nat} (hc : ∀ k ∈ mycandidate, HasNode s b w k) :
    (bestStep useAlias s b w balancer r mycandidate j).2 =
        (if accepts useAlias s b w balancer r j then
          challenge (fun j => (w.area b j).lbfactor) (load s b w) mycandidate j
        else mycandidate) ∧
      SameContexts useAlias s w balancer r (bestStep useAlias s b w balancer r mycandidate j).1 := by
  unfold bestStep accepts
  cases husable : (w.area b j).isUsable with
  | false => simp [SameContexts]
  | true =>
    cases hnode : tableGetNodeRoute s.nodes (w.area b j).route with
    | none => simp [SameContexts]
    | some node =>
      have hsame := @contextHostOk_same useAlias s w r balancer node.node
      simp only [not_true_eq_false, if_false, Option.any_some, Bool.true_and]
      generalize contextHostOk useAlias s w.server.balancers r balancer node.node = q at hsame ⊢
      obtain ⟨r', context⟩ := q
      cases context with
      | none => simpa using hsame
      | some context =>
        cases mycandidate with
        | none => simpa [challenge] using hsame
        | some k =>
          have hcompare := compare_eq (hc k rfl) hnode
          simpa [hcompare] using hsame

theorem bestLoop_eq (js : List Nat) {mycandidate : Option Nat} (hc : ∀ k ∈ mycandidate, HasNode s b w k) :
    (bestLoop useAlias s b w balancer js r mycandidate).2 =
      (js.filter (accepts useAlias s b w balancer r)).foldl
        (challenge (fun j => (w.area b j).lbfactor) (load s b w)) mycandidate := by
  induction js generalizing r mycandidate with
  | nil => rfl
  | cons j js ih =>
    obtain ⟨hstep, hsame⟩ := @bestStep_eq useAlias s b w r balancer mycandidate j hc
    rw [bestLoop]
    generalize bestStep useAlias s b w balancer r mycandidate j = q at hstep hsame ⊢
    obtain ⟨r', candidate'⟩ := q
    simp only at hstep hsame ⊢
    subst hstep
    have haccepts : accepts useAlias s b w balancer r' = accepts useAlias s b w balancer r :=
      funext fun j => hsame.accepts j
    rw [ih, haccepts]
    · cases hacc : accepts useAlias s b w balancer r j <;> simp [hacc]
    · intro k hk
      split at hk
      · rename_i hacc
        unfold challenge at hk
        split at hk
        · cases hk
          exact accepts_hasNode hacc
        · split at hk
          · cases hk
            exact accepts_hasNode hacc
          · cases hk
            exact hc _ rfl
      · exact hc k hk

/-! ## The fold -/

section Fold

variable {lbfactor load : Nat → Int}

theorem foldl_challenge_idle (js : List Nat) {k : Nat} (hk : lbfactor k ≤ 0) :
    js.foldl (challenge lbfactor load) (some k) = some k := by
  induction js with
  | nil => rfl
  | cons j js ih =>
    have hstep : challenge lbfactor load (some k) j = some k := if_neg fun h => by omega
    rw [List.foldl_cons, hstep, ih]

theorem foldl_challenge_active (js : List Nat) {k : Nat} (hk : 0 < lbfactor k) :
    js.foldl (challenge lbfactor load) (some k) =
      (js.filter fun j => 0 < lbfactor j).foldl (List.argAux fun j k => load j < load k) (some k) := by
  induction js generalizing k with
  | nil => rfl
  | cons j js ih =>
    rw [List.foldl_cons]
    by_cases hj : 0 < lbfactor j
    · have hstep : challenge lbfactor load (some k) j = if load j < load k then some j else some k := by
        simp [challenge, hk, hj]
      rw [hstep, List.filter_cons_of_pos (by simpa using hj), List.foldl_cons]
      simp only [List.argAux]
      split
      · exact ih hj
      · exact ih hk
    · have hstep : challenge lbfactor load (some k) j = some k := if_neg fun h => hj h.2.1
      rw [hstep, List.filter_cons_of_neg (by simpa using hj)]
      exact ih hk

end Fold

/-- The eligible workers in their order. -/
def eligibles (useAlias : Bool) (s : Snapshot) (b : Nat) (w : World) (r : Request) : List Nat :=
  match w.server.balancers[b]? with
  | none => []
  | some balancer => (w.workers b).filter (accepts useAlias s b w balancer r)

def actives (useAlias : Bool) (s : Snapshot) (b : Nat) (w : World) (r : Request) : List Nat :=
  (eligibles useAlias s b w r).filter fun j => 0 < (w.area b j).lbfactor

/-- The first of the least loaded, in the loads that are compared. -/
def leastActive (useAlias : Bool) (s : Snapshot) (b : Nat) (w : World) (r : Request) : Option Nat :=
  (actives useAlias s b w r).foldl (List.argAux fun j k => load s b w j < load s b w k) none

theorem mem_eligibles {j : Nat} : j ∈ eligibles useAlias s b w r ↔ Eligible useAlias s b w r j := by
  unfold eligibles
  cases hb : w.server.balancers[b]? with
  | none =>
    simp only [List.not_mem_nil, false_iff]
    rintro ⟨-, -, balancer, -, -, hb', -⟩
    rw [hb] at hb'
    cases hb'
  | some balancer =>
    simp only [List.mem_filter, accepts, Bool.and_eq_true, Option.any_eq_true, Option.isSome_iff_exists]
    constructor
    · rintro ⟨hmem, husable, node, hnode, context, hcontext⟩
      exact ⟨hmem, husable, balancer, node, context, hb, hnode, hcontext⟩
    · rintro ⟨hmem, husable, balancer', node, context, hb', hnode, hcontext⟩
      rw [hb, Option.some.injEq] at hb'
      subst hb'
      exact ⟨hmem, husable, node, hnode, context, hcontext⟩

theorem mem_actives {j : Nat} : j ∈ actives useAlias s b w r ↔ Active useAlias s b w r j := by
  rw [actives, List.mem_filter, mem_eligibles, decide_eq_true_eq]
  exact ⟨fun h => ⟨h.1, h.2⟩, fun h => ⟨h.1, h.2⟩⟩

theorem eligibles_increase : (eligibles useAlias s b w r).Pairwise (· < ·) := by
  unfold eligibles
  split
  · exact List.Pairwise.nil
  · exact (workers_increase w b).filter _

theorem internalFindBestByrequests_eq :
    (internalFindBestByrequests useAlias s b w r).2 =
      match eligibles useAlias s b w r with
      | [] => none
      | j :: _ =>
        if 0 < (w.area b j).lbfactor then leastActive useAlias s b w r else some j := by
  have hfold : (internalFindBestByrequests useAlias s b w r).2 =
      (eligibles useAlias s b w r).foldl (challenge (fun j => (w.area b j).lbfactor) (load s b w)) none := by
    unfold internalFindBestByrequests eligibles
    cases w.server.balancers[b]? with
    | none => rfl
    | some balancer => exact bestLoop_eq _ (by simp)
  rw [hfold, leastActive, actives]
  cases eligibles useAlias s b w r with
  | nil => rfl
  | cons j js =>
    have hstart : challenge (fun j => (w.area b j).lbfactor) (load s b w) none j = some j := rfl
    rw [List.foldl_cons, hstart]
    by_cases hj : 0 < (w.area b j).lbfactor
    · rw [foldl_challenge_active js hj, List.filter_cons_of_pos (by simpa using hj)]
      simp only [if_pos hj]
      rfl
    · rw [foldl_challenge_idle js (by omega)]
      simp only [if_neg hj]

theorem leastActive_iff {j : Nat} : leastActive useAlias s b w r = some j ↔
    Active useAlias s b w r j ∧ ∀ k, Active useAlias s b w r k →
      load s b w j < load s b w k ∨ load s b w j = load s b w k ∧ j ≤ k := by
  have hincrease : (actives useAlias s b w r).Pairwise (· < ·) := eligibles_increase.filter _
  have hargmin : leastActive useAlias s b w r = (actives useAlias s b w r).argmin (load s b w) := rfl
  rw [hargmin, List.argmin_eq_some_iff, mem_actives]
  refine and_congr_right fun hj => ⟨fun ⟨hle, hfirst⟩ k hk => ?_, fun h => ⟨fun k hk => ?_, fun k hk hle => ?_⟩⟩
  · have hmem := mem_actives.2 hk
    have hle := hle k hmem
    have hfirst := hfirst k hmem
    rw [idxOf_le_iff hincrease (mem_actives.2 hj) hmem] at hfirst
    omega
  · have hk := h k (mem_actives.1 hk)
    omega
  · rw [idxOf_le_iff hincrease (mem_actives.2 hj) hk]
    have hk := h k (mem_actives.1 hk)
    omega

theorem leastActive_isSome (h : ∃ j, Active useAlias s b w r j) :
    ∃ j, leastActive useAlias s b w r = some j := by
  obtain ⟨j, hj⟩ := h
  refine Option.ne_none_iff_exists'.1 fun hnone => ?_
  have hargmin : leastActive useAlias s b w r = (actives useAlias s b w r).argmin (load s b w) := rfl
  rw [hargmin, List.argmin_eq_none] at hnone
  have hmem := mem_actives.2 hj
  rw [hnone] at hmem
  cases hmem

theorem missing_iff :
    (internalFindBestByrequests useAlias s b w r).2 = none ↔ ∀ j, ¬ Eligible useAlias s b w r j := by
  rw [internalFindBestByrequests_eq]
  simp only [← mem_eligibles]
  cases heligibles : eligibles useAlias s b w r with
  | nil => simp
  | cons j js =>
    have hnot : ¬ ∀ k, k ∉ j :: js := fun hno => hno j List.mem_cons_self
    simp only [iff_false, hnot]
    split
    · rename_i hj
      have hactive : Active useAlias s b w r j := ⟨mem_eligibles.1 (by simp [heligibles]), hj⟩
      obtain ⟨k, hk⟩ := leastActive_isSome ⟨j, hactive⟩
      simp [hk]
    · simp

end Pass

/-- The method returns a least loaded worker when nobody has a load factor, or the first
eligible worker has one and the loads wrap in no way that matters. -/
theorem least_loaded_iff (useAlias : Bool) (s : Snapshot) (b : Nat) (w : World) (r : Request) :
    LeastLoaded useAlias s b w r (internalFindBestByrequests useAlias s b w r).2 ↔
      (∀ j, Eligible useAlias s b w r j → (w.area b j).lbfactor ≤ 0) ∨ WellOrdered useAlias s b w r := by
  have hmissing := @missing_iff useAlias s b w r
  by_cases hnobody : ∀ j, Eligible useAlias s b w r j → (w.area b j).lbfactor ≤ 0
  · refine ⟨fun _ => Or.inl hnobody, fun _ => ⟨?_, hmissing⟩⟩
    rintro ⟨j, hj⟩
    have hle := hnobody j hj.eligible
    have hpos := hj.lbfactor
    omega
  have hsome : ∃ j, Active useAlias s b w r j := by
    by_contra hno
    exact hnobody fun j hj => Int.not_lt.1 fun hpos => hno ⟨j, hj, hpos⟩
  have hanswer := @internalFindBestByrequests_eq useAlias s b w r
  obtain ⟨first, hfirst⟩ : ∃ j, (eligibles useAlias s b w r).head? = some j := by
    obtain ⟨j, hj⟩ := hsome
    exact List.isSome_head?.2 (List.ne_nil_of_mem (mem_eligibles.2 hj.eligible)) |> Option.isSome_iff_exists.1
  have hhead := (head?_eq_some_iff eligibles_increase).1 hfirst
  obtain ⟨js, hjs⟩ := List.head?_eq_some_iff.1 hfirst
  rw [hjs] at hanswer
  simp only at hanswer
  constructor
  · rintro ⟨hleast, -⟩
    obtain ⟨j, hj, hactive, hle⟩ := hleast hsome
    have hpos : 0 < (w.area b first).lbfactor := by
      by_contra hneg
      rw [if_neg hneg, hj, Option.some.injEq] at hanswer
      exact hneg (hanswer ▸ hactive.lbfactor)
    rw [if_pos hpos, hj] at hanswer
    have hfront := leastActive_iff.1 hanswer.symm
    refine Or.inr ⟨fun k hk hnone => ?_, j, hactive, fun k hk => ⟨hle k hk, hfront.2 k hk⟩⟩
    have hsame : k = first := by
      have hnot := hhead.2 k
      have hnot' := hnone first
      rw [← mem_eligibles] at hk hnot'
      by_contra hne
      rcases Nat.lt_or_gt_of_ne hne with hlt | hlt
      · exact hnot hlt hk
      · exact hnot' hlt hhead.1
    rwa [hsame]
  · rintro (hno | ⟨hpos, j, hactive, hfront⟩)
    · exact absurd hno hnobody
    have hpos := hpos first (mem_eligibles.1 hhead.1) fun k hk => mem_eligibles.not.1 (hhead.2 k hk)
    rw [if_pos hpos, leastActive_iff.2 ⟨hactive, fun k hk => (hfront k hk).2⟩] at hanswer
    exact ⟨fun _ => ⟨j, hanswer, hactive, fun k hk => (hfront k hk).1⟩, hmissing⟩

/-! ## Loads that fit -/

/-- The counters are in order, and neither the product nor the quotient leaves its type. -/
structure Fits (s : Snapshot) (b : Nat) (w : World) (j : Nat) : Prop where
  counted : oldelected s b w j ≤ (w.area b j).elected
  product : ((w.area b j).elected - oldelected s b w j) * 1000 < 2 ^ 64
  quotient : ((w.area b j).elected - oldelected s b w j) * 1000 / (w.area b j).lbfactor.toNat < 2 ^ 31

theorem toInt32_of_lt {n : Nat} (h : n < 2 ^ 31) : toInt32 n = n := by
  unfold toInt32
  rw [Int.bmod_def]
  omega

theorem Fits.load_eq {s : Snapshot} {b : Nat} {w : World} {j : Nat} (h : Fits s b w j)
    (hpos : 0 < (w.area b j).lbfactor) : load s b w j = exactLoad s b w j := by
  obtain ⟨hcounted, hproduct, hquotient⟩ := h
  unfold load lbstatus exactLoad
  generalize oldelected s b w j = old at *
  generalize (w.area b j).elected = elected at *
  generalize (w.area b j).lbfactor = lbfactor at *
  have hserved : (elected + 2 ^ 64 - old % 2 ^ 64) % 2 ^ 64 = elected - old := by omega
  have hdiff : (elected : Int) - old = ((elected - old : Nat) : Int) := by omega
  have hfactor : lbfactor = (lbfactor.toNat : Int) := by omega
  simp only [hserved, Nat.mod_eq_of_lt hproduct, toInt32_of_lt hquotient]
  rw [hdiff, hfactor]
  rfl

/-- With such loads it all depends on the first eligible worker. -/
theorem least_loaded_of_fits (useAlias : Bool) (s : Snapshot) (b : Nat) (w : World) (r : Request)
    (hfits : ∀ j, Active useAlias s b w r j → Fits s b w j) (hsome : ∃ j, Active useAlias s b w r j) :
    LeastLoaded useAlias s b w r (internalFindBestByrequests useAlias s b w r).2 ↔
      ∀ j, Eligible useAlias s b w r j → (∀ k < j, ¬ Eligible useAlias s b w r k) → 0 < (w.area b j).lbfactor := by
  rw [least_loaded_iff]
  constructor
  · rintro (hno | hordered)
    · obtain ⟨j, hj⟩ := hsome
      have hle := hno j hj.eligible
      have hpos := hj.lbfactor
      omega
    · exact hordered.first
  · intro hfirst
    obtain ⟨j, hj⟩ := leastActive_isSome hsome
    obtain ⟨hactive, hfront⟩ := leastActive_iff.1 hj
    refine Or.inr ⟨hfirst, j, hactive, fun k hk => ⟨?_, hfront k hk⟩⟩
    have hle := hfront k hk
    rw [(hfits j hactive).load_eq hactive.lbfactor, (hfits k hk).load_eq hk.lbfactor] at hle
    omega

section Example

/-- The nodes of the routes `r0` and `r1`. -/
def twoRoutes : Snapshot where
  vhosts := []
  contexts := []
  nodes := [⟨0, { nodeRecord with mess := { nodeRecord.mess with jvmRoute := ascii "r0" } }, none⟩,
    ⟨1, { nodeRecord with mess := { nodeRecord.mess with jvmRoute := ascii "r1" } }, none⟩]
  nodup := List.nodup_nil

/-- The first worker is on standby. -/
def standbyFirst : World := electionWorld [electionArea 0 (ascii "r0") 0 5, electionArea 1 (ascii "r1") 100 3]

theorem standby_returned :
    ¬ ∀ (useAlias : Bool) (s : Snapshot) (b : Nat) (w : World) (r : Request),
      LeastLoaded useAlias s b w r (internalFindBestByrequests useAlias s b w r).2 := by
  intro h
  have hfacts : (internalFindBestByrequests false twoRoutes 0 standbyFirst (electionRequest none)).2 = some 0 ∧
      (1 ∈ standbyFirst.workers 0 ∧ (standbyFirst.area 0 1).isUsable = true ∧ 0 < (standbyFirst.area 0 1).lbfactor) ∧
      (tableGetNodeRoute twoRoutes.nodes (standbyFirst.area 0 1).route).map (·.node) = some 1 ∧
      (contextHostOk false twoRoutes standbyFirst.server.balancers (electionRequest none)
        (electionBalancer [electionArea 0 (ascii "r0") 0 5, electionArea 1 (ascii "r1") 100 3]) 1).2 = some ⟨1, 1⟩ ∧
      (standbyFirst.area 0 0).lbfactor = 0 := by
    decide +kernel
  obtain ⟨hanswer, ⟨hasked, husable, hpos⟩, hroute, hcontext, hzero⟩ := hfacts
  obtain ⟨node, hnode, hid⟩ := Option.map_eq_some_iff.1 hroute
  have hactive : Active false twoRoutes 0 standbyFirst (electionRequest none) 1 :=
    ⟨⟨hasked, husable, _, node, _, rfl, hnode, hid ▸ hcontext⟩, hpos⟩
  obtain ⟨j, hj, hpos, -⟩ := (h false twoRoutes 0 standbyFirst (electionRequest none)).least ⟨1, hactive⟩
  rw [hanswer, Option.some.injEq] at hj
  subst hj
  have hlb := hpos.lbfactor
  omega

end Example

end ModCluster.LbMethod
