import ModCluster.RoutingSafety
import ModCluster.Counters

/-!
# Sticky sessions

A request with a route goes to the one worker that has it. If there is none and
the balancer forces its sessions, the request fails, or stays in its domain.
-/

open CString Slotmem Slotmem.Table

namespace ModCluster

/-! ## Helpers -/

/-- Every worker has its helper. A server with a `BalancerMember` does not start, and
a worker gets its helper when it is created. -/
def ProxyBalancer.Helped (b : ProxyBalancer) : Prop := ∀ w ∈ b.workers, w.context.isSome = true

def Server.Helped (sv : Server) : Prop := ∀ b ∈ sv.balancers, b.Helped

section Helpers

variable {httpd : Httpd} {ts : Tables} {sv sv' : Server}

theorem checkWorkersOf_helped {ws ws' : List Worker} (h : checkWorkersOf httpd ts ws = some ws') :
    ∀ w ∈ ws', w.context.isSome = true := by
  induction ws generalizing ws' with
  | nil =>
    cases h
    exact fun w hw => by cases hw
  | cons w rest ih =>
    unfold checkWorkersOf at h
    split at h
    swap
    · cases h
    rename_i w' rest' hw hrest
    cases h
    intro x hx
    rcases List.mem_cons.mp hx with rfl | hx
    · unfold checkWorkerArea at hw
      split at hw
      · cases hw
      rename_i helper hhelper
      split at hw
      · split at hw
        · cases hw
        · cases hw
          rfl
      · cases hw
        rw [hhelper]
        rfl
    · exact ih hrest x hx

theorem checkWorkers_helped (h : checkWorkers httpd ts sv = some sv') : sv'.Helped := by
  unfold checkWorkers at h
  rw [Option.map_eq_some_iff] at h
  obtain ⟨bs, hbs, rfl⟩ := h
  unfold Server.Helped
  simp only
  generalize sv.balancers = l at hbs
  induction l generalizing bs with
  | nil =>
    cases hbs
    exact fun b hb => by cases hb
  | cons b rest ih =>
    unfold checkBalancers at hbs
    split at hbs
    swap
    · cases hbs
    rename_i workers rest' hw hrest
    cases hbs
    intro x hx
    rcases List.mem_cons.mp hx with rfl | hx
    · exact checkWorkersOf_helped hw
    · exact ih rest' hrest x hx

theorem refreshWorkers_helped {cfg : Settings} {s : Snapshot} {turn : Turn} {w w' : World}
    (h : refreshWorkers httpd cfg s turn w = some w') : w'.server.Helped := by
  unfold refreshWorkers at h
  rw [Option.map_eq_some_iff] at h
  obtain ⟨sv, hsv, rfl⟩ := h
  exact checkWorkers_helped hsv

end Helpers

/-! ## The worker with the route -/

section Route

variable {httpd : Httpd} {cfg : Settings} {s : Snapshot} {b : Nat} {h : Handling} {route : Str}
  {redirect : Str → Handling → Handling × Found} {standby : Bool}

theorem routePass_skip {js : List Nat} (hskip : ∀ k ∈ js, routeStep httpd cfg s b redirect standby route k h = (h, none)) :
    routePass httpd cfg s b redirect standby route js h = (h, none) := by
  induction js with
  | nil => rfl
  | cons k js ih =>
    rw [routePass, hskip k List.mem_cons_self]
    exact ih fun k hk => hskip k (List.mem_cons_of_mem _ hk)

theorem routePass_hit {js : List Nat} {j : Nat} {q : Handling × Found} (hj : j ∈ js)
    (hhit : routeStep httpd cfg s b redirect standby route j h = answer q)
    (hskip : ∀ k ∈ js, k ≠ j → routeStep httpd cfg s b redirect standby route k h = (h, none)) :
    routePass httpd cfg s b redirect standby route js h = answer q := by
  induction js with
  | nil => cases hj
  | cons k js ih =>
    rw [routePass]
    by_cases hkj : k = j
    · rw [hkj, hhit]
      rfl
    · rw [hskip k List.mem_cons_self hkj]
      refine ih ?_ fun k hk => hskip k (List.mem_cons_of_mem _ hk)
      rcases List.mem_cons.mp hj with rfl | hj
      · exact absurd rfl hkj
      · exact hj

theorem routeStep_other {k : Nat} {worker : Worker} (hworker : h.world.server.worker? b k = some worker)
    (hhelped : worker.context.isSome = true) (hroute : (worker.area h.world.tables).route ≠ route) :
    routeStep httpd cfg s b redirect standby route k h = (h, none) := by
  obtain ⟨helper, hhelper⟩ := Option.isSome_iff_exists.mp hhelped
  unfold routeStep
  rw [hworker]
  simp only [hhelper]
  split
  · rfl
  rw [if_pos (Or.inr hroute)]

variable {balancer : ProxyBalancer} {j : Nat} {worker : Worker} {helper : Helper} {best : List NodeContext}

/-- The one worker that has the route, in a state where it can take the request. -/
structure TakesRoute (cfg : Settings) (s : Snapshot) (b : Nat) (h : Handling) (route : Str) (balancer : ProxyBalancer)
    (j : Nat) (worker : Worker) (helper : Helper) (best : List NodeContext) : Prop where
  inServer : h.world.server.balancers[b]? = some balancer
  inBalancer : balancer.workers[j]? = some worker
  hasRoute : (worker.area h.world.tables).route = route
  only : ∀ k other, balancer.workers[k]? = some other → (other.area h.world.tables).route = route → k = j
  hasHelper : worker.context = some helper
  hasIndex : (worker.area h.world.tables).index = helper.index
  isNode : helper.index ≠ -1
  usable : (worker.area h.world.tables).isUsable = true
  node : (readNodeWorker h.world.tables helper.index (worker.area h.world.tables)).isSome = true
  found : (findNodeContextHost cfg.useAlias s h.world.server.balancers h.request (some balancer)
    h.request.notes.sessionRoute).2 = some best
  serves : (findEntry helper.index best).isSome = true

theorem TakesRoute.lookup (ht : TakesRoute cfg s b h route balancer j worker helper best) (k : Nat) :
    h.world.server.worker? b k = balancer.workers[k]? := by
  rw [Server.worker?, ht.inServer, Option.bind_some]

theorem TakesRoute.check_found (ht : TakesRoute cfg s b h route balancer j worker helper best) :
    ∃ r, checkContext cfg s b helper.index j h = (h.setRequest r, .worker j) := by
  obtain ⟨e, he⟩ := Option.isSome_iff_exists.mp ht.serves
  have hfound := ht.found
  unfold checkContext contextHostOk
  rw [ht.inServer]
  simp only
  generalize findNodeContextHost cfg.useAlias s h.world.server.balancers h.request (some balancer)
    h.request.notes.sessionRoute = q at hfound ⊢
  obtain ⟨r, found⟩ := q
  cases hfound
  simp only [he]
  exact ⟨_, rfl⟩

variable (httpd redirect standby) in
theorem TakesRoute.step (ht : TakesRoute cfg s b h route balancer j worker helper best) (hne : route ≠ []) :
    routeStep httpd cfg s b redirect standby route j h =
      if (worker.area h.world.tables).isStandby = standby then answer (checkContext cfg s b helper.index j h)
      else (h, none) := by
  obtain ⟨i, hi⟩ := Option.isSome_iff_exists.mp ht.node
  have hw : h.world.server.worker? b j = some worker := by rw [ht.lookup, ht.inBalancer]
  unfold routeStep
  rw [hw]
  simp only [ht.hasHelper, ht.hasIndex, ht.usable]
  by_cases hst : (worker.area h.world.tables).isStandby = standby
  · rw [if_neg, if_neg, if_pos trivial, hi, if_pos hst]
    · rw [ht.hasRoute]
      exact fun h => h.elim hne fun h => h rfl
    · rintro (h | h | h)
      · exact h rfl
      · exact ht.isNode h
      · exact h hst
  · rw [if_pos (Or.inr (Or.inr hst)), if_neg hst]

variable (httpd) in
theorem TakesRoute.search_found (ht : TakesRoute cfg s b h route balancer j worker helper best) (hne : route ≠ [])
    (hhelped : balancer.Helped) (fuel : Nat) :
    ∃ r, findRouteWorker httpd cfg s b (fuel + 1) route h = (h.setRequest r, .worker j) := by
  obtain ⟨r, hr⟩ := ht.check_found
  have hjs : h.world.workers b = List.range balancer.workers.length := by rw [World.workers, ht.inServer]
  have hj : j ∈ List.range balancer.workers.length := by
    rw [List.mem_range]
    exact (List.getElem?_eq_some_iff.mp ht.inBalancer).1
  have hskip : ∀ redirect standby, ∀ k ∈ List.range balancer.workers.length, k ≠ j →
      routeStep httpd cfg s b redirect standby route k h = (h, none) := by
    intro redirect standby k hk hkj
    rw [List.mem_range] at hk
    have hother := List.getElem?_eq_getElem hk
    refine routeStep_other (by rw [ht.lookup, hother]) ?_ ?_
    · exact hhelped _ (List.getElem_mem hk)
    · exact fun hroute => hkj (ht.only k _ hother hroute)
  unfold findRouteWorker
  cases hst : (worker.area h.world.tables).isStandby with
  | false =>
    have hstep := ht.step httpd (findRouteWorker httpd cfg s b fuel) false hne
    rw [hst, if_pos rfl, hr] at hstep
    rw [hjs, routePass_hit hj hstep (hskip _ _)]
    exact ⟨r, rfl⟩
  | true =>
    have hstep := ht.step httpd (findRouteWorker httpd cfg s b fuel) true hne
    rw [hst, if_pos rfl, hr] at hstep
    have hfirst : routePass httpd cfg s b (findRouteWorker httpd cfg s b fuel) false route
        (List.range balancer.workers.length) h = (h, none) := by
      refine routePass_skip fun k hk => ?_
      by_cases hkj : k = j
      · have hstep := ht.step httpd (findRouteWorker httpd cfg s b fuel) false hne
        rw [hst, if_neg (by decide)] at hstep
        rw [hkj, hstep]
      · exact hskip _ _ k hk hkj
    rw [hjs, hfirst]
    simp only
    rw [hjs, routePass_hit hj hstep (hskip _ _)]
    exact ⟨r, rfl⟩

theorem findSessionRoute_route {fuel : Nat} (hsticky : balancer.sticky ≠ []) (hpath : balancer.stickyPath ≠ [])
    (hlb : balancer.lbpname ≠ MC_NOT_STICKY) (hroute : h.request.notes.sessionRoute = some route) (hne : route ≠ []) :
    (findSessionRoute httpd cfg s b fuel balancer h).2 = ⟨(findRouteWorker httpd cfg s b fuel route h).2, some route,
        h.request.notes.sessionSticky, h.request.notes.clusterDomain⟩ ∧
      (findSessionRoute httpd cfg s b fuel balancer h).1.world =
        (findRouteWorker httpd cfg s b fuel route h).1.world := by
  obtain ⟨x, rest, rfl⟩ := List.exists_cons_of_ne_nil hne
  unfold findSessionRoute
  rw [if_neg (by rintro (h | h | h); exacts [hsticky h, hpath h, hlb h]), hroute]
  simp only
  refine ⟨trivial, ?_⟩
  split
  · split <;> rfl
  · rfl

end Route

/-! ## The request goes out -/

section Dispatch

variable {w : World} {b b' j k : Nat} {f : WorkerShared → WorkerShared} {h : Handling}

def World.HasHelper (w : World) (b j : Nat) : Prop :=
  ∃ worker, w.server.worker? b j = some worker ∧ worker.context.isSome = true

variable (b' k f) in
theorem World.HasHelper.write (hw : w.HasHelper b j) : (w.write b' k f).HasHelper b j := by
  obtain ⟨worker, hworker, hhelped⟩ := hw
  unfold World.write
  cases hother : w.server.worker? b' k with
  | none => exact ⟨worker, hworker, hhelped⟩
  | some other =>
    unfold World.HasHelper
    simp only
    rw [Server.worker?_setWorker]
    by_cases hsame : b' = b ∧ k = j
    · obtain ⟨rfl, rfl⟩ := hsame
      rw [hworker] at hother
      cases hother
      rw [if_pos ⟨rfl, rfl⟩, hworker, Option.map_some]
      refine ⟨_, rfl, ?_⟩
      unfold Worker.write
      split <;> exact hhelped
    · rw [if_neg hsame]
      exact ⟨worker, hworker, hhelped⟩

theorem dispatch_ok {url : Str} (hw : h.world.HasHelper b j) : (dispatch b j url h).2.1 = .ok j := by
  obtain ⟨worker, hworker, hhelped⟩ := hw.write b j busyOnce
  obtain ⟨helper, hhelper⟩ := Option.isSome_iff_exists.mp hhelped
  unfold dispatch Handling.updateHelper
  simp only [Handling.setTables, Handling.write, hworker, hhelper]

end Dispatch

/-! ## Domains -/

section Domain

variable {httpd : Httpd} {cfg : Settings} {s : Snapshot} {turns : Nat → Turn} {w : World} {b j : Nat}
  {f : WorkerShared → WorkerShared} {d : Str} {h : Handling}

/-- The node of worker `j` is in domain `d`. -/
def World.InDomain (w : World) (b j : Nat) (d : Str) : Prop :=
  ∃ i, getNode w.tables.nodes (w.area b j).index = some i ∧ (w.tables.nodes.peek i).mess.domain = d

theorem World.InDomain.congr {w' : World} (hw : w.InDomain b j d) (hindex : (w'.area b j).index = (w.area b j).index)
    (hsize : w'.tables.nodes.size = w.tables.nodes.size)
    (hmess : ∀ i, (w'.tables.nodes.peek i).mess = (w.tables.nodes.peek i).mess) : w'.InDomain b j d := by
  obtain ⟨i, hi, hd⟩ := hw
  refine ⟨i, ?_, by rw [hmess]; exact hd⟩
  unfold getNode at hi ⊢
  rw [dptr_eq_some] at hi ⊢
  rw [hindex, hsize]
  exact hi

theorem World.InDomain.write {k : Nat} (hw : w.InDomain b j d) (hf : ∀ s, (f s).index = s.index) :
    (w.write b k f).InDomain b j d :=
  hw.congr (area_write_keeps (fun s => s.index) hf) (write_nodes w b k f).1 (write_nodes w b k f).2

theorem findBestWorker_inDomain (hd : d ≠ []) (fuel : Nat)
    (hj : (findBestWorker httpd cfg s b turns fuel (some d) true h).2 = .worker j) :
    (findBestWorker httpd cfg s b turns fuel (some d) true h).1.world.InDomain b j d := by
  have hpasses : electionPasses (some d) true = [(false, false)] := by
    unfold electionPasses
    simp [hd]
  have htry : ∀ k (h : Handling), True →
      True ∧ ∀ j, (internalFindBestByrequests httpd cfg s b (turns k) (some d) true h).2 = .worker j →
        (internalFindBestByrequests httpd cfg s b (turns k) (some d) true h).1.world.InDomain b j d := by
    intro k h _
    refine ⟨trivial, fun j hj => ?_⟩
    unfold internalFindBestByrequests at hj ⊢
    split at hj
    · cases hj
    split at hj
    · cases hj
    obtain ⟨best, -, ⟨p, hp, hacc⟩, hworld⟩ := electWorker_found hj
    rw [hpasses, List.mem_singleton] at hp
    subst hp
    obtain ⟨i, hi, hdomain⟩ := hacc.node
    have hin : World.InDomain _ b j d := ⟨i, hi, by simpa [isnodeDomainOk] using hdomain rfl⟩
    rw [hworld]
    exact hin.write fun _ => rfl
  have hrule := @findBestWorker_rule httpd cfg s b turns (some d) true (fun _ => True)
    (fun h j => h.world.InDomain b j d) htry (fun _ _ _ => trivial) fuel h trivial
  exact hrule.2 j hj

theorem dispatch_inDomain {url : Str} {k : Nat} (hw : h.world.InDomain b j d)
    (hk : (dispatch b j url h).2.1 = .ok k) : k = j ∧ (dispatch b j url h).1.world.InDomain b j d := by
  obtain ⟨rfl, hindex, hsize, hmess⟩ := dispatch_spec hk
  exact ⟨rfl, hw.congr hindex hsize hmess⟩

end Domain

/-! ## The request -/

section Request

variable {httpd : Httpd} {cfg : Settings} {s : Snapshot} {turn : Turn} {turns : Nat → Turn} {b fuel : Nat}
  {h : Handling} {route url : Str} {balancer : ProxyBalancer}

/-- A request with a route, on a balancer that keeps sessions. -/
structure IsSticky (balancer : ProxyBalancer) (route : Str) (r : Request) : Prop where
  sticky : balancer.sticky ≠ []
  stickyPath : balancer.stickyPath ≠ []
  lbpname : balancer.lbpname ≠ MC_NOT_STICKY
  sessionRoute : r.notes.sessionRoute = some route
  route : route ≠ []

theorem IsSticky.session (hst : IsSticky balancer route h.request) :
    (findSessionRoute httpd cfg s b fuel balancer h).2 = ⟨(findRouteWorker httpd cfg s b fuel route h).2, some route,
        h.request.notes.sessionSticky, h.request.notes.clusterDomain⟩ ∧
      (findSessionRoute httpd cfg s b fuel balancer h).1.world =
        (findRouteWorker httpd cfg s b fuel route h).1.world :=
  findSessionRoute_route hst.sticky hst.stickyPath hst.lbpname hst.sessionRoute hst.route

theorem routeRequest_takes {j : Nat} {worker : Worker} {helper : Helper} {best : List NodeContext}
    (hst : IsSticky balancer route h.request) (hhelped : balancer.Helped)
    (ht : TakesRoute cfg s b h route balancer j worker helper best) :
    (routeRequest httpd cfg s turns (fuel + 1) b url h).2.1 = .ok j := by
  obtain ⟨hsession, hworld⟩ := hst.session (s := s) (b := b)
  obtain ⟨r, hr⟩ := ht.search_found httpd hst.route hhelped fuel
  rw [hr] at hsession hworld
  have hhas : h.world.HasHelper b j :=
    ⟨worker, by rw [ht.lookup, ht.inBalancer], by rw [ht.hasHelper]; rfl⟩
  unfold routeRequest chooseWorker
  rw [ht.inServer]
  simp only [hsession]
  refine dispatch_ok ?_
  unfold Handling.write
  simp only
  rw [hworld]
  exact hhas.write b j electedOnce

theorem routeRequest_forced (hst : IsSticky balancer route h.request)
    (hb : h.world.server.balancers[b]? = some balancer) (hforce : balancer.stickyForce = true)
    (hmissing : (findRouteWorker httpd cfg s b fuel route h).2 = .missing)
    (hdomain : h.request.notes.clusterDomain = none) :
    (routeRequest httpd cfg s turns fuel b url h).2.1 = .status HTTP_SERVICE_UNAVAILABLE ∧
      (routeRequest httpd cfg s turns fuel b url h).1.world = (findRouteWorker httpd cfg s b fuel route h).1.world := by
  obtain ⟨hsession, hworld⟩ := hst.session (s := s) (b := b)
  rw [hmissing, hdomain] at hsession
  unfold routeRequest chooseWorker failover
  rw [hb]
  simp only [hsession]
  rw [if_pos ⟨rfl, hforce, trivial⟩]
  exact ⟨rfl, hworld⟩

theorem routeRequest_inDomain {d : Str} (hst : IsSticky balancer route h.request)
    (hb : h.world.server.balancers[b]? = some balancer) (hforce : balancer.stickyForce = true)
    (hmissing : (findRouteWorker httpd cfg s b fuel route h).2 = .missing)
    (hdomain : h.request.notes.clusterDomain = some d) (hd : d ≠ []) {j : Nat}
    (hj : (routeRequest httpd cfg s turns fuel b url h).2.1 = .ok j) :
    (routeRequest httpd cfg s turns fuel b url h).1.world.InDomain b j d := by
  obtain ⟨hsession, -⟩ := hst.session (s := s) (b := b)
  rw [hmissing, hdomain] at hsession
  have hbest := fun k => @findBestWorker_inDomain httpd cfg s turns b k _
    (findSessionRoute httpd cfg s b fuel balancer h).1 hd fuel
  unfold routeRequest chooseWorker failover at hj ⊢
  rw [hb] at hj ⊢
  simp only [hsession, hforce, Option.isSome_some, Bool.and_self, reduceCtorEq, and_false, if_false] at hj ⊢
  generalize findBestWorker httpd cfg s b turns fuel (some d) true (findSessionRoute httpd cfg s b fuel balancer h).1 = q
    at hbest hj ⊢
  obtain ⟨h', found⟩ := q
  cases found with
  | worker k =>
    simp only at hj ⊢
    cases hr : noteElection ((h'.world.server.balancers[b]?).getD balancer) (some route)
        h.request.notes.sessionSticky h'.request with
    | none =>
      rw [hr] at hj
      cases hj
    | some r =>
      rw [hr] at hj
      have hin : (h'.setRequest r).world.InDomain b k d := hbest k rfl
      obtain ⟨rfl, hdone⟩ := dispatch_inDomain hin hj
      exact hdone
  | missing => cases hj
  | crashed => cases hj
  | running => cases hj

theorem resolveBalancer_helped {w : World} {found : Option Nat} (hhelped : h.world.server.Helped)
    (hres : resolveBalancer httpd cfg s turn url h.world = some (w, found)) : w.server.Helped := by
  unfold resolveBalancer at hres
  split at hres
  · cases hres
    exact hhelped
  · rw [Option.map_eq_some_iff] at hres
    obtain ⟨w', hw', heq⟩ := hres
    cases heq
    exact refreshWorkers_helped hw'

theorem resolveBalancer_sameCounts (hinit : ∀ s, (httpd.initializeWorker s).1.elected = s.elected) {w : World}
    {found : Option Nat} (hres : resolveBalancer httpd cfg s turn url h.world = some (w, found)) :
    h.world.SameCounts w := by
  unfold resolveBalancer at hres
  split at hres
  · cases hres
    exact .refl _
  · rw [Option.map_eq_some_iff] at hres
    obtain ⟨w', hw', heq⟩ := hres
    cases heq
    exact refreshWorkers_sameCounts hinit hw'

end Request

/-- A request with a session route on the first try. The worker with the route gets
it. If the search finds none and sessions are forced, nothing is elected without a
domain, and with one the worker is in it. -/
theorem preRequest_sticky (httpd : Httpd) (hinit : ∀ s, (httpd.initializeWorker s).1.elected = s.elected)
    (cfg : Settings) (s : Snapshot) (turn : Turn) (turns : Nat → Turn) (fuel : Nat) (url : Str) (looks : List Look)
    (h : Handling) (hhandled : Handled httpd cfg.useAlias s looks h.request) (hhelped : h.world.server.Helped)
    (w : World) (b : Nat) (hres : resolveBalancer httpd cfg s turn url h.world = some (w, some b))
    (balancer : ProxyBalancer) (hb : w.server.balancers[b]? = some balancer) (route : Str)
    (hst : IsSticky balancer route h.request) :
    (∀ j worker helper best, TakesRoute cfg s b { h with world := w } route balancer j worker helper best →
      (preRequest httpd cfg s turn turns (fuel + 1) none url h).2.1 = some b ∧
      (preRequest httpd cfg s turn turns (fuel + 1) none url h).2.2.1 = .ok j) ∧
    ((findRouteWorker httpd cfg s b fuel route { h with world := w }).2 = .missing → balancer.stickyForce = true →
      (h.request.notes.clusterDomain = none →
        (preRequest httpd cfg s turn turns fuel none url h).2.2.1 = .status HTTP_SERVICE_UNAVAILABLE ∧
        h.world.SameCounts (preRequest httpd cfg s turn turns fuel none url h).1.world ∧
        ∀ b' k, ((preRequest httpd cfg s turn turns fuel none url h).1.world.area b' k).elected =
          (w.area b' k).elected) ∧
      ∀ d, h.request.notes.clusterDomain = some d → ∀ j,
        (preRequest httpd cfg s turn turns fuel none url h).2.2.1 = .ok j →
          (preRequest httpd cfg s turn turns fuel none url h).1.world.InDomain b j d) := by
  have hpre : ∀ n, preRequest httpd cfg s turn turns n none url h =
      ((routeRequest httpd cfg s turns n b url { h with world := w }).1, some b,
        (routeRequest httpd cfg s turns n b url { h with world := w }).2) := by
    intro n
    unfold preRequest
    simp only [hres]
  refine ⟨fun j worker helper best ht => ?_, fun hmissing hforce => ⟨fun hdomain => ?_, fun d hdomain j hj => ?_⟩⟩
  · rw [hpre]
    have hbalancer : balancer.Helped := resolveBalancer_helped hhelped hres balancer (List.mem_of_getElem? hb)
    exact ⟨rfl, routeRequest_takes hst hbalancer ht⟩
  · rw [hpre]
    obtain ⟨hstatus, hworld⟩ := routeRequest_forced (h := { h with world := w }) hst hb
      hforce hmissing hdomain
    have hretries := @findRouteWorker_retries httpd cfg s b fuel route
      { h with world := w }
    rw [← hworld] at hretries
    refine ⟨hstatus, (resolveBalancer_sameCounts hinit hres).trans hretries.sameCounts, fun b' k => ?_⟩
    exact hretries.area_keeps (fun s => s.elected) fun _ => rfl
  · rw [hpre] at hj ⊢
    have hd : d ≠ [] := fun hnil => hhandled.notesOk.domain (by rw [hdomain, hnil])
    exact routeRequest_inDomain (h := { h with world := w }) hst hb hforce hmissing hdomain hd hj

/-! ## A node without a worker -/

section Example

def domainRecord (domain jvmRoute : Str) (id : Int) : Nodeinfo :=
  { nodeRecord with mess := { nodeRecord.mess with domain := domain, jvmRoute := jvmRoute, id := id } }

def nodePair (domain : Str) : Snapshot where
  vhosts := [⟨0, ascii "localhost", 1, 0, 0⟩, ⟨1, ascii "localhost", 1, 1, 0⟩]
  contexts := [⟨0, ascii "/app", 1, 0, .enabled, 0, 0⟩, ⟨1, ascii "/app", 1, 1, .enabled, 0, 0⟩]
  nodes := [⟨0, domainRecord domain (ascii "r0") 0, some 0⟩, ⟨1, domainRecord domain (ascii "r1") 1, some 1⟩]
  nodup := by decide

/-- The process has no worker for node `r1` yet. -/
def oneWorker (domain : Str) : World where
  tables := { emptyTables ⟨1, 2, 2, 2, 1⟩ with
    nodes := ((Table.empty 2).store 0 (domainRecord domain (ascii "r0") 0)).store 1 (domainRecord domain (ascii "r1") 1) }
  server := ⟨[nodeBalancer]⟩

def sessionR1 : Request := { sessionR0 with cookie := some (ascii "JSESSIONID=id.r1") }

def stranded (domain : Str) : Handling :=
  ⟨oneWorker domain, (getRouteBalancer true (nodePair domain) [nodeBalancer] sessionR1).1⟩

theorem nodeServer_helped : Server.Helped ⟨[nodeBalancer]⟩ := by
  unfold Server.Helped ProxyBalancer.Helped
  decide

theorem nodeWorld_facts :
    (nodeWorker.area translated.world.tables).route = ascii "r0" ∧
      (nodeWorker.area translated.world.tables).index = 0 ∧
      (nodeWorker.area translated.world.tables).isUsable = true ∧
      (readNodeWorker translated.world.tables 0 (nodeWorker.area translated.world.tables)).isSome = true ∧
      (findNodeContextHost aliased.useAlias disabledContext translated.world.server.balancers translated.request
        (some nodeBalancer) translated.request.notes.sessionRoute).2 = some [⟨0, 0⟩] ∧
      translated.request.notes.sessionRoute = some (ascii "r0") := by
  decide +kernel

theorem nodeWorld_takesRoute : TakesRoute aliased disabledContext 0 translated (ascii "r0") nodeBalancer 0 nodeWorker
    ⟨0, 0, true⟩ [⟨0, 0⟩] where
  inServer := rfl
  inBalancer := rfl
  hasRoute := nodeWorld_facts.1
  only k _ hk _ := by
    have hlt : k < 1 := (List.getElem?_eq_some_iff.mp hk).1
    omega
  hasHelper := rfl
  hasIndex := nodeWorld_facts.2.1
  isNode := by decide
  usable := nodeWorld_facts.2.2.1
  node := nodeWorld_facts.2.2.2.1
  found := nodeWorld_facts.2.2.2.2.1
  serves := by decide

theorem stranded_facts :
    ((stranded []).request.notes.sessionRoute = some (ascii "r1") ∧
      (findRouteWorker plainHttpd aliased (nodePair []) 0 1 (ascii "r1") (stranded [])).2 = .missing ∧
      (stranded []).request.notes.clusterDomain = none) ∧
    (stranded (ascii "d")).request.notes.sessionRoute = some (ascii "r1") ∧
      (findRouteWorker plainHttpd aliased (nodePair (ascii "d")) 0 1 (ascii "r1") (stranded (ascii "d"))).2 =
        .missing ∧
      (stranded (ascii "d")).request.notes.clusterDomain = some (ascii "d") ∧
      (preRequest plainHttpd aliased (nodePair (ascii "d")) quiet (fun _ => quiet) 1 none
        (ascii "balancer://a/app/index.jsp") (stranded (ascii "d"))).2.2.1 = .ok 0 := by
  decide +kernel

theorem sessions_sticky :
    (preRequest plainHttpd aliased disabledContext quiet (fun _ => quiet) 1 none (ascii "balancer://a/app/index.jsp")
      translated).2.2.1 = .ok 0 ∧
    (preRequest plainHttpd aliased (nodePair []) quiet (fun _ => quiet) 1 none (ascii "balancer://a/app/index.jsp")
      (stranded [])).2.2.1 = .status HTTP_SERVICE_UNAVAILABLE ∧
    (preRequest plainHttpd aliased (nodePair (ascii "d")) quiet (fun _ => quiet) 1 none
      (ascii "balancer://a/app/index.jsp") (stranded (ascii "d"))).1.world.InDomain 0 0 (ascii "d") := by
  have hr0 := preRequest_sticky plainHttpd (fun _ => rfl) aliased disabledContext quiet (fun _ => quiet) 0
    (ascii "balancer://a/app/index.jsp") _ translated ((Handled.arrives sessionR0 rfl).getRouteBalancer [nodeBalancer])
    nodeServer_helped nodeWorld 0 rfl nodeBalancer rfl (ascii "r0")
    ⟨by decide, by decide, by decide, nodeWorld_facts.2.2.2.2.2, by decide⟩
  have hr1 := fun domain hroute => preRequest_sticky plainHttpd (fun _ => rfl) aliased (nodePair domain) quiet
    (fun _ => quiet) 1 (ascii "balancer://a/app/index.jsp") _ (stranded domain)
    ((Handled.arrives sessionR1 rfl).getRouteBalancer [nodeBalancer])
    nodeServer_helped (oneWorker domain) 0 rfl nodeBalancer rfl (ascii "r1")
    ⟨by decide, by decide, by decide, hroute, by decide⟩
  refine ⟨(hr0.1 0 nodeWorker ⟨0, 0, true⟩ [⟨0, 0⟩] nodeWorld_takesRoute).2, ?_, ?_⟩
  · obtain ⟨hroute, hmissing, hdomain⟩ := stranded_facts.1
    exact (((hr1 [] hroute).2 hmissing rfl).1 hdomain).1
  · obtain ⟨hroute, hmissing, hdomain, hserved⟩ := stranded_facts.2
    exact ((hr1 (ascii "d") hroute).2 hmissing rfl).2 (ascii "d") hdomain 0 hserved

end Example

end ModCluster
