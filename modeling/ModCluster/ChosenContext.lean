import ModCluster.DeterministicFailover

/-!
# The context that is recorded

With a worker the module records a context, whose requests are counted. The worker and
the context are kept apart: a redirection and deterministic failover change the one and
not the other.
-/

open CString Slotmem

namespace ModCluster

/-! ## Statement -/

/-- The context recorded with the request is in its list, for the node of worker `k`. -/
def RecordedFor (b : Nat) (h : Handling) (k : Nat) : Prop :=
  ∃ best, h.request.notes.proxyContext = some best ∧
    ∃ e ∈ best, e.node = (h.world.area b k).index ∧ h.request.notes.contextId = some e.context

/-- The list in the notes, if there is one, has no context twice. -/
def ContextsDistinct (r : Request) : Prop :=
  ∀ best, r.notes.proxyContext = some best → (best.map (·.context)).Nodup

/-- The worker that deterministic failover takes. -/
def ElectionClass.target (b : Nat) (domain : Option Str) (best : List NodeContext) (w : World) (c : ElectionClass)
    (sessionId : Str) : Option Nat :=
  if targetIndex sessionId (c.taken b domain best w) < 0 then none
  else ((c.taken b domain best w).insertionSort fun j k => strLe (w.area b j).route (w.area b k).route)[
    (targetIndex sessionId (c.taken b domain best w)).toNat]?

/-- If there is a target, it is on the node of the worker the class gives. -/
def TargetOnLeader (cfg : Settings) (b : Nat) (domain : Option Str) (best : List NodeContext) (w : World) (r : Request)
    (c : ElectionClass) : Prop :=
  ∀ sessionId j k, pickedBy cfg r = some sessionId → c.target b domain best w sessionId = some j →
    c.leader b domain best w = some k → (w.area b j).index = (w.area b k).index

section Recorded

variable {httpd : Httpd} {cfg : Settings} {s : Snapshot} {b : Nat} {r r' : Request} {h h' : Handling} {node : Int}

/-! ## The list -/

theorem findNodeContextHost_distinct {conf : List ProxyBalancer} {balancer : Option ProxyBalancer} {route : Option Str}
    {found : Option (List NodeContext)} (hd : ContextsDistinct r)
    (hfind : findNodeContextHost cfg.useAlias s conf r balancer route = (r', found)) :
    ContextsDistinct r' ∧ ∀ best, found = some best → r'.notes.proxyContext = some best := by
  unfold findNodeContextHost at hfind
  cases hnote : r.notes.proxyContext with
  | some best =>
    rw [hnote] at hfind
    cases hfind
    exact ⟨hd, fun best' hbest => by rw [hnote, ← hbest]⟩
  | none =>
    rw [hnote] at hfind
    cases hsearch : searchNodes cfg.useAlias s conf r balancer route with
    | none =>
      rw [hsearch] at hfind
      cases hfind
      exact ⟨hd, fun _ hbest => by cases hbest⟩
    | some best =>
      rw [hsearch] at hfind
      cases hfind
      refine ⟨fun best' hbest => ?_, fun best' hbest => ?_⟩
      · cases hbest
        unfold searchNodes at hsearch
        simp only at hsearch
        split at hsearch
        · cases hsearch
        split at hsearch
        · cases hsearch
        cases hsearch
        rw [List.map_map]
        exact (List.filter_sublist.map _).nodup s.nodup
      · cases hbest
        rfl

/-- The recorded context is the one that the list has for the node. -/
def Recorded (r : Request) (node : Int) : Prop :=
  ContextsDistinct r ∧ ∃ best e, r.notes.proxyContext = some best ∧ e ∈ best ∧ e.node = node ∧
    r.notes.contextId = some e.context

theorem Recorded.iff (hrec : Recorded h.request node) (k : Nat) :
    RecordedFor b h k ↔ (h.world.area b k).index = node := by
  obtain ⟨hd, best, e, hbest, he, hnode, hid⟩ := hrec
  constructor
  · rintro ⟨best', hbest', e', he', hnode', hid'⟩
    rw [hbest, Option.some.injEq] at hbest'
    subst hbest'
    rw [hid, Option.some.injEq] at hid'
    rw [← hnode', ← hnode, List.inj_on_of_nodup_map (hd best hbest) he' he hid'.symm]
  · intro hindex
    exact ⟨best, hbest, e, he, hnode.trans hindex.symm, hid⟩

/-! ## The search of a route -/

theorem distinct_rule : RouteRule httpd cfg s b (fun h => ContextsDistinct h.request) fun _ _ => True := by
  refine ⟨fun _ _ hd => hd, fun h index j hd => ?_, fun _ _ _ _ => trivial, fun _ _ _ _ => trivial,
    fun _ _ _ _ _ => trivial⟩
  unfold checkContext contextHostOk
  split
  · exact hd
  rename_i balancer _
  generalize hfind : findNodeContextHost cfg.useAlias s h.world.server.balancers h.request (some balancer)
    h.request.notes.sessionRoute = q
  obtain ⟨r, found⟩ := q
  obtain ⟨hd', -⟩ := findNodeContextHost_distinct hd hfind
  cases found with
  | none => exact hd'
  | some best =>
    simp only
    cases findEntry index best <;> exact hd'

theorem findRouteWorker_recorded {fuel : Nat} {route : Str} {k : Nat} (hd : ContextsDistinct h.request)
    (hfind : findRouteWorker httpd cfg s b fuel route h = (h', .worker k)) :
    ∃ j, RouteWalk httpd b (servesRequest cfg s b h) h.world route (h.world.visits b) h'.world (some (j, k)) ∧
      (RecordedFor b h' k ↔ (h.world.area b k).index = (h.world.area b j).index) := by
  have hd' : ContextsDistinct (findRouteWorker httpd cfg s b fuel route h).1.request :=
    (findRouteWorker_rule (@distinct_rule httpd cfg s b) fuel hd).1
  obtain ⟨found, hwalk, hfound, hnoted⟩ := findRouteWorker_walks fuel route h (Or.inr ⟨k, by rw [hfind]⟩)
  rw [hfind] at hd' hwalk hfound hnoted
  cases found with
  | none => cases hfound
  | some found =>
    obtain ⟨j, n⟩ := found
    cases hfound
    obtain ⟨best, e, hbest, hentry, hid⟩ := hnoted j k rfl
    obtain ⟨hmem, hnode⟩ := findEntry_mem hentry
    have hrec : Recorded h'.request (h.world.area b j).index := ⟨hd', best, e, hbest, hmem, hnode, hid⟩
    refine ⟨j, hwalk, ?_⟩
    rw [hrec.iff, hwalk.tried.keeps b k (·.index) fun _ => rfl]

end Recorded

section Elect

variable {httpd : Httpd} {cfg : Settings} {s : Snapshot} {b : Nat} {turn : Turn} {domain : Option Str}
  {failoverdomain : Bool} {h h' : Handling} {w : World} {balancer : ProxyBalancer} {r : Request}
  {best : List NodeContext} {c : ElectionClass} {j : Nat}

/-! ## The election -/

theorem settle_worker {checkedDomain : Bool} {nodecontext : NodeContext} (hne : c.taken b domain best w ≠ [])
    (hsettle : c.settle cfg b domain best w r = .worker j checkedDomain nodecontext) :
    ∃ k, c.leader b domain best w = some k ∧ contextFor b best w k = some nodecontext ∧
      (pickedBy cfg r = none → j = k) ∧
      ∀ sessionId, pickedBy cfg r = some sessionId → c.target b domain best w sessionId = some j := by
  obtain ⟨k, hk⟩ := Option.ne_none_iff_exists'.1 fun hnone => hne (leader_eq_none_iff.1 hnone)
  obtain ⟨-, nodecontext', hcontext⟩ := leader_spec hk
  unfold ElectionClass.settle at hsettle
  rw [failoverTarget_eq] at hsettle
  simp only [hk, Option.bind_some, hcontext] at hsettle
  cases hid : pickedBy cfg r with
  | none =>
    rw [hid] at hsettle
    cases hsettle
    exact ⟨j, hk, hcontext, fun _ => rfl, fun _ hno => by cases hno⟩
  | some sessionId =>
    rw [hid] at hsettle
    simp only at hsettle
    rw [if_neg hne] at hsettle
    by_cases hneg : targetIndex sessionId (c.taken b domain best w) < 0
    · rw [if_pos hneg] at hsettle
      cases hsettle
    · rw [if_neg hneg] at hsettle
      cases hget : ((c.taken b domain best w).insertionSort fun j k => strLe (w.area b j).route (w.area b k).route)[
          (targetIndex sessionId (c.taken b domain best w)).toNat]? with
      | none =>
        rw [hget] at hsettle
        cases hsettle
      | some t =>
        rw [hget] at hsettle
        cases hsettle
        refine ⟨k, hk, hcontext, by simp, fun sessionId' hsame => ?_⟩
        cases hsame
        rw [ElectionClass.target, if_neg hneg, hget]

theorem Elects.recorded_iff (he : Elects httpd cfg s b turn h w balancer r best) (hd : ContextsDistinct h.request)
    (hc : FirstClass b domain best w (classesTried domain failoverdomain) c)
    (hfound : internalFindBestByrequests httpd cfg s b turn domain failoverdomain h = (h', .worker j)) :
    RecordedFor b h' j ↔ TargetOnLeader cfg b domain best w r c := by
  have hfirst := firstTaken_iff.2 hc
  have hne : c.taken b domain best w ≠ [] := by simpa using List.find?_some hfirst
  rw [he.answer, settled, hfirst] at hfound
  simp only at hfound
  cases hsettle : c.settle cfg b domain best w r with
  | crashed =>
    rw [hsettle] at hfound
    cases hfound
  | missing =>
    rw [hsettle] at hfound
    cases hfound
  | worker j' checkedDomain nodecontext =>
    rw [hsettle] at hfound
    cases hfound
    obtain ⟨k, hk, hcontext, hplain, htarget⟩ := settle_worker hne hsettle
    obtain ⟨hd', hbest⟩ := findNodeContextHost_distinct hd he.contexts
    obtain ⟨⟨entry, i⟩, hentry, rfl⟩ := Option.map_eq_some_iff.1 hcontext
    obtain ⟨hmem, hnode⟩ := findEntry_mem (electionEntry_eq_some hentry).found
    have hrec : Recorded ((if checkedDomain then r else r.setDomainOk).setContextId (some entry.context))
        (w.area b k).index := by
      cases checkedDomain with
      | true => exact ⟨hd', best, entry, hbest best rfl, hmem, hnode, rfl⟩
      | false => exact ⟨hd', best, entry, hbest best rfl, hmem, hnode, rfl⟩
    have hiff := @Recorded.iff b ((Handling.setRequest ⟨w, r⟩ ((if checkedDomain then r else
      r.setDomainOk).setContextId (some entry.context))).write b j electedOnce) _ hrec j
    have hindex : (((Handling.setRequest ⟨w, r⟩ ((if checkedDomain then r else r.setDomainOk).setContextId
        (some entry.context))).write b j electedOnce).world.area b j).index = (w.area b j).index :=
      electedOnce_index w b j b j
    rw [hiff, hindex]
    cases hid : pickedBy cfg r with
    | none =>
      rw [hplain hid]
      refine iff_of_true rfl fun sessionId t k' hsome => ?_
      rw [hid] at hsome
      cases hsome
    | some sessionId =>
      constructor
      · intro hsame sessionId' t k' hsome ht hk'
        rw [hid, Option.some.injEq] at hsome
        subst hsome
        rw [htarget sessionId hid, Option.some.injEq] at ht
        rw [hk, Option.some.injEq] at hk'
        rw [← ht, ← hk', hsame]
      · intro hon
        exact hon sessionId j k hid (htarget sessionId hid) hk

end Elect

/-- The context of a worker found by its route is its own unless the walk ends with a
redirection to another node, and that of an elected worker is its own unless
deterministic failover took a worker of another node than the class gives. -/
theorem recorded_context_iff (httpd : Httpd) (cfg : Settings) (s : Snapshot) (b : Nat) (h : Handling)
    (hd : ContextsDistinct h.request) :
    (∀ route,
      (∀ fuel h' k, findRouteWorker httpd cfg s b fuel route h = (h', .worker k) → RecordedFor b h' k) ↔
        ∀ w' j k, RouteWalk httpd b (servesRequest cfg s b h) h.world route (h.world.visits b) w' (some (j, k)) →
          (h.world.area b k).index = (h.world.area b j).index) ∧
    ∀ turn domain failoverdomain w balancer r best c h' j, Elects httpd cfg s b turn h w balancer r best →
      FirstClass b domain best w (classesTried domain failoverdomain) c →
      internalFindBestByrequests httpd cfg s b turn domain failoverdomain h = (h', .worker j) →
        (RecordedFor b h' j ↔ TargetOnLeader cfg b domain best w r c) := by
  refine ⟨fun route => ⟨fun hall w' j k hwalk => ?_, fun hall fuel h' k hfind => ?_⟩,
    fun _ _ _ _ _ _ _ _ _ _ he hc hfound => he.recorded_iff hd hc hfound⟩
  · obtain ⟨fuel, h', hfind, rfl⟩ := hwalk.found
    obtain ⟨i, hwalk', hiff⟩ := findRouteWorker_recorded hd hfind
    obtain ⟨-, hsame⟩ := hwalk.unique hwalk'
    cases hsame
    exact hiff.1 (hall fuel h' k hfind)
  · obtain ⟨j, hwalk, hiff⟩ := findRouteWorker_recorded hd hfind
    exact hiff.2 (hall h'.world j k hwalk)

section Example

theorem electionRequest_distinct (sessionId : Option Str) : ContextsDistinct (electionRequest sessionId) := by
  rintro best ⟨⟩
  decide

/-- Without a session the context of the least loaded worker is recorded with it. -/
theorem plain_election_recorded :
    RecordedFor 0 (internalFindBestByrequests plainHttpd (electionSettings true) electionTables 0 quiet none false
      ⟨twoActive, electionRequest none⟩).1 1 := by
  have hfound : (internalFindBestByrequests plainHttpd (electionSettings true) electionTables 0 quiet none false
      ⟨twoActive, electionRequest none⟩).2 = .worker 1 := by decide +kernel
  exact ((recorded_context_iff plainHttpd (electionSettings true) electionTables 0 ⟨twoActive, electionRequest none⟩
    (electionRequest_distinct none)).2 quiet none false twoActive _ _ _ .active _ 1 ⟨rfl, rfl, rfl⟩
    (firstTaken_iff.1 twoActive_first.1) (Prod.ext rfl hfound)).2 fun _ _ _ hno => by cases hno

/-- The bytes of `ie` lead to the first worker, and the second is less loaded. -/
theorem target_without_context :
    ¬ ∀ (httpd : Httpd) (cfg : Settings) (s : Snapshot) (b : Nat) (h : Handling), ContextsDistinct h.request →
      (∀ fuel route h' k, findRouteWorker httpd cfg s b fuel route h = (h', .worker k) → RecordedFor b h' k) ∧
        ∀ turn domain failoverdomain h' j,
          internalFindBestByrequests httpd cfg s b turn domain failoverdomain h = (h', .worker j) →
            RecordedFor b h' j := by
  intro h
  have hfacts : (internalFindBestByrequests plainHttpd (electionSettings true) electionTables 0 quiet none false
        ⟨twoActive, electionRequest (some (ascii "ie.r9"))⟩).2 = .worker 0 ∧
      (internalFindBestByrequests plainHttpd (electionSettings true) electionTables 0 quiet none false
        ⟨twoActive, electionRequest (some (ascii "ie.r9"))⟩).1.request.notes.contextId = some 1 ∧
      ((internalFindBestByrequests plainHttpd (electionSettings true) electionTables 0 quiet none false
        ⟨twoActive, electionRequest (some (ascii "ie.r9"))⟩).1.world.area 0 0).index = 0 ∧
      (internalFindBestByrequests plainHttpd (electionSettings true) electionTables 0 quiet none false
        ⟨twoActive, electionRequest (some (ascii "ie.r9"))⟩).1.request.notes.proxyContext = some [⟨0, 0⟩, ⟨1, 1⟩] := by
    decide +kernel
  obtain ⟨hfound, hid, hindex, hlist⟩ := hfacts
  obtain ⟨h', hanswer⟩ : ∃ h', internalFindBestByrequests plainHttpd (electionSettings true) electionTables 0 quiet none
      false ⟨twoActive, electionRequest (some (ascii "ie.r9"))⟩ = (h', .worker 0) := ⟨_, Prod.ext rfl hfound⟩
  rw [hanswer] at hid hindex hlist
  obtain ⟨best, hbest, e, he, hnode, hcontext⟩ := (h plainHttpd (electionSettings true) electionTables 0
    ⟨twoActive, electionRequest (some (ascii "ie.r9"))⟩ (electionRequest_distinct _)).2 quiet none false h' 0 hanswer
  rw [hlist, Option.some.injEq] at hbest
  subst hbest
  rw [hindex] at hnode
  rw [hid, Option.some.injEq] at hcontext
  simp only [List.mem_cons, List.not_mem_nil, or_false] at he
  rcases he with rfl | rfl
  · cases hcontext
  · cases hnode

end Example

end ModCluster
