import ModCluster.RoutingSafety

/-!
# The search of a route

`find_route_worker` as a walk past the workers: active ones come before those on
standby, and one that is not usable is retried and then redirected.
-/

open CString Slotmem Slotmem.Table

namespace ModCluster

/-! ## Statement -/

/-- Worker `j` has the route, and the pass does not skip it. -/
structure Asked (w : World) (b : Nat) (standby : Bool) (route : Str) (j : Nat) : Prop where
  helper : ∃ worker helper, w.server.worker? b j = some worker ∧ worker.context = some helper ∧
    helper.index = (w.area b j).index
  index : (w.area b j).index ≠ -1
  pass : (w.area b j).isStandby = standby
  hasRoute : (w.area b j).route = route
  named : route ≠ []

/-- The two passes, one after the other. -/
def World.visits (w : World) (b : Nat) : List (Bool × Nat) :=
  (w.workers b).map (Prod.mk false) ++ (w.workers b).map (Prod.mk true)

/-- A retry of worker `j`. -/
def World.retry (httpd : Httpd) (w : World) (b j : Nat) : World := w.write b j (retried httpd)

def arrival (ok : Bool) (j k : Nat) : Option (Nat × Nat) := if ok then some (j, k) else none

/-- The search of a route from the visits that are left on: the state it leaves, the
worker with the route at which it ends and the one that is to take the request. `serves`
says whose nodes serve it. A worker without a helper has no walk past it. -/
inductive RouteWalk (httpd : Httpd) (b : Nat) (serves : Int → Bool) :
    World → Str → List (Bool × Nat) → World → Option (Nat × Nat) → Prop
  | ended (w : World) (route : Str) : RouteWalk httpd b serves w route [] w none
  | skipped {w w' : World} {route : Str} {standby : Bool} {j : Nat} {rest : List (Bool × Nat)}
      {found : Option (Nat × Nat)}
      (hhelper : ∀ worker, w.server.worker? b j = some worker → worker.context ≠ none)
      (hno : ¬ Asked w b standby route j) (hrest : RouteWalk httpd b serves w route rest w' found) :
      RouteWalk httpd b serves w route ((standby, j) :: rest) w' found
  | usable {w : World} {route : Str} {standby : Bool} {j : Nat} {rest : List (Bool × Nat)}
      (hasked : Asked w b standby route j) (husable : (w.area b j).isUsable = true) :
      RouteWalk httpd b serves w route ((standby, j) :: rest) w
        (arrival ((readNodeWorker w.tables (w.area b j).index (w.area b j)).isSome && serves (w.area b j).index) j j)
  | recovered {w : World} {route : Str} {standby : Bool} {j : Nat} {rest : List (Bool × Nat)}
      (hasked : Asked w b standby route j) (hunusable : (w.area b j).isUsable = false)
      (hretry : ((w.retry httpd b j).area b j).isUsable = true) :
      RouteWalk httpd b serves w route ((standby, j) :: rest) (w.retry httpd b j)
        (arrival ((getNode w.tables.nodes (w.area b j).index).isSome && serves (w.area b j).index) j j)
  | unredirected {w w' : World} {route : Str} {standby : Bool} {j : Nat} {rest : List (Bool × Nat)}
      {found : Option (Nat × Nat)} (hasked : Asked w b standby route j)
      (hunusable : (w.area b j).isUsable = false) (hretry : ((w.retry httpd b j).area b j).isUsable = false)
      (hredirect : (w.area b j).redirect = [])
      (hrest : RouteWalk httpd b serves (w.retry httpd b j) route rest w' found) :
      RouteWalk httpd b serves w route ((standby, j) :: rest) w' found
  | passed {w w₁ w' : World} {route : Str} {standby : Bool} {j : Nat} {rest : List (Bool × Nat)}
      {found : Option (Nat × Nat)} (hasked : Asked w b standby route j)
      (hunusable : (w.area b j).isUsable = false) (hretry : ((w.retry httpd b j).area b j).isUsable = false)
      (hredirect : (w.area b j).redirect ≠ [])
      (hwalk : RouteWalk httpd b serves (w.retry httpd b j) (w.area b j).redirect ((w.retry httpd b j).visits b) w₁ none)
      (hrest : RouteWalk httpd b serves w₁ route rest w' found) :
      RouteWalk httpd b serves w route ((standby, j) :: rest) w' found
  | redirected {w w' : World} {route : Str} {standby : Bool} {j i k : Nat} {rest : List (Bool × Nat)}
      (hasked : Asked w b standby route j) (hunusable : (w.area b j).isUsable = false)
      (hretry : ((w.retry httpd b j).area b j).isUsable = false) (hredirect : (w.area b j).redirect ≠ [])
      (hwalk : RouteWalk httpd b serves (w.retry httpd b j) (w.area b j).redirect ((w.retry httpd b j).visits b) w'
        (some (i, k))) :
      RouteWalk httpd b serves w route ((standby, j) :: rest) w'
        (arrival ((getNode w.tables.nodes (w.area b j).index).isSome && serves (w.area b j).index) j k)

/-- The contexts that a search would find now. -/
def foundContexts (cfg : Settings) (s : Snapshot) (b : Nat) (h : Handling) : Option (List NodeContext) :=
  match h.world.server.balancers[b]? with
  | none => none
  | some balancer =>
    (findNodeContextHost cfg.useAlias s h.world.server.balancers h.request (some balancer)
      h.request.notes.sessionRoute).2

/-- The node serves the request. -/
def servesRequest (cfg : Settings) (s : Snapshot) (b : Nat) (h : Handling) (node : Int) : Bool :=
  match foundContexts cfg s b h with
  | none => false
  | some best => (findEntry node best).isSome

/-- The context in the request is the first that its list has for the node. -/
def NotedFor (r : Request) (node : Int) : Prop :=
  ∃ best e, r.notes.proxyContext = some best ∧ findEntry node best = some e ∧ r.notes.contextId = some e.context

/-! ## Retries -/

section Tried

variable {httpd : Httpd} {w w' w'' : World} {b b' j k : Nat} {route : Str}

/-- What the retries of the search leave: workers that were usable are untouched. -/
structure Tried (httpd : Httpd) (w w' : World) : Prop where
  size : w'.tables.nodes.size = w.tables.nodes.size
  mess : ∀ i, (w'.tables.nodes.peek i).mess = (w.tables.nodes.peek i).mess
  workers : ∀ b j, (w'.server.worker? b j).map (fun x => (x.s, x.context)) =
    (w.server.worker? b j).map fun x => (x.s, x.context)
  area : ∀ b j, ∃ n, w'.area b j = (retried httpd)^[n] (w.area b j)
  usable : ∀ b j, (w.area b j).isUsable = true → w'.area b j = w.area b j

theorem Tried.refl (w : World) : Tried httpd w w :=
  ⟨rfl, fun _ => rfl, fun _ _ => rfl, fun _ _ => ⟨0, rfl⟩, fun _ _ _ => rfl⟩

theorem Tried.trans (h : Tried httpd w w') (h' : Tried httpd w' w'') : Tried httpd w w'' := by
  refine ⟨h'.size.trans h.size, fun i => (h'.mess i).trans (h.mess i),
    fun b j => (h'.workers b j).trans (h.workers b j), fun b j => ?_, fun b j hu => ?_⟩
  · obtain ⟨n, hn⟩ := h.area b j
    obtain ⟨n', hn'⟩ := h'.area b j
    exact ⟨n' + n, by rw [hn', hn, Function.iterate_add_apply]⟩
  · have hsame := h.usable b j hu
    exact (h'.usable b j (by rw [hsame]; exact hu)).trans hsame

theorem area_write_shared {f : WorkerShared → WorkerShared} (w : World) (b j b' k : Nat) :
    (w.write b j f).area b' k = w.area b' k ∨
      w.area b' k = w.area b j ∧ (w.write b j f).area b' k = f (w.area b' k) := by
  unfold World.write
  cases hw : w.server.worker? b j with
  | none => exact Or.inl rfl
  | some worker =>
    unfold World.area
    simp only [hw]
    rw [Server.worker?_setWorker]
    by_cases hsame : b = b' ∧ j = k
    · obtain ⟨rfl, rfl⟩ := hsame
      rw [if_pos ⟨rfl, rfl⟩, hw, Option.map_some]
      unfold Worker.write Worker.area
      cases hs : worker.s with
      | slot i =>
        simp only [hs]
        exact (peek_pokeStat w.tables i i).imp_right fun h => ⟨trivial, h⟩
      | priv =>
        simp only [hs]
        exact Or.inr ⟨trivial, trivial⟩
    · rw [if_neg hsame]
      cases w.server.worker? b' k with
      | none => exact Or.inl rfl
      | some other =>
        unfold Worker.write Worker.area
        cases worker.s with
        | slot i =>
          simp only
          cases other.s with
          | slot n =>
            by_cases hin : i = n
            · subst hin
              exact (peek_pokeStat w.tables i i).imp_right fun h => ⟨rfl, h⟩
            · left
              simp only [pokeStat, peek_poke_ne _ hin]
          | priv => exact Or.inl rfl
        | priv => exact Or.inl rfl

theorem write_workers {f : WorkerShared → WorkerShared} (w : World) (b j b' k : Nat) :
    ((w.write b j f).server.worker? b' k).map (fun x => (x.s, x.context)) =
      (w.server.worker? b' k).map fun x => (x.s, x.context) := by
  unfold World.write
  cases hw : w.server.worker? b j with
  | none => rfl
  | some worker =>
    simp only
    rw [Server.worker?_setWorker]
    split
    · rename_i hsame
      obtain ⟨rfl, rfl⟩ := hsame
      rw [hw]
      unfold Worker.write
      simp only [Option.map_some]
      split <;> rfl
    · rfl

theorem Tried.write (h : (w.area b j).isUsable = false) : Tried httpd w (w.write b j (retried httpd)) := by
  obtain ⟨hsize, hmess⟩ := write_nodes w b j (retried httpd)
  refine ⟨hsize, hmess, write_workers w b j, fun b' k => ?_, fun b' k hu => ?_⟩
  · rcases area_write_shared w b j b' k with hsame | ⟨-, hwritten⟩
    · exact ⟨0, hsame⟩
    · exact ⟨1, hwritten⟩
  · rcases area_write_shared w b j b' k with hsame | ⟨hshared, -⟩
    · exact hsame
    · rw [hshared, h] at hu
      cases hu

theorem Tried.keeps (h : Tried httpd w w') (b j : Nat) {α : Type} (g : WorkerShared → α)
    (hg : ∀ s, g (retried httpd s) = g s) : g (w'.area b j) = g (w.area b j) := by
  obtain ⟨n, hn⟩ := h.area b j
  rw [hn]
  clear hn
  induction n with
  | zero => rfl
  | succ n ih => rw [Function.iterate_succ_apply', hg, ih]

theorem Tried.worker (h : Tried httpd w w') {worker' : Worker} (hw : w'.server.worker? b j = some worker') :
    ∃ worker, w.server.worker? b j = some worker ∧ worker.s = worker'.s ∧ worker.context = worker'.context := by
  have hmap := h.workers b j
  rw [hw, Option.map_some, eq_comm, Option.map_eq_some_iff] at hmap
  obtain ⟨worker, hworker, hsame⟩ := hmap
  rw [Prod.mk.injEq] at hsame
  exact ⟨worker, hworker, hsame.1, hsame.2⟩

theorem Tried.worker_after (h : Tried httpd w w') {worker : Worker} (hw : w.server.worker? b j = some worker) :
    ∃ worker', w'.server.worker? b j = some worker' ∧ worker'.s = worker.s ∧ worker'.context = worker.context := by
  have hmap := h.workers b j
  rw [hw, Option.map_some, Option.map_eq_some_iff] at hmap
  obtain ⟨worker', hworker', hsame⟩ := hmap
  rw [Prod.mk.injEq] at hsame
  exact ⟨worker', hworker', hsame.1, hsame.2⟩

theorem Tried.getNode (h : Tried httpd w w') (id : Int) :
    getNode w'.tables.nodes id = getNode w.tables.nodes id := by
  unfold ModCluster.getNode dptr
  rw [h.size]

theorem Tried.readNodeWorker (h : Tried httpd w w') (b k : Nat) :
    readNodeWorker w'.tables (w'.area b k).index (w'.area b k) =
      readNodeWorker w.tables (w.area b k).index (w.area b k) := by
  unfold ModCluster.readNodeWorker
  rw [h.getNode, h.keeps b k (·.index) fun _ => rfl]
  cases ModCluster.getNode w.tables.nodes (w.area b k).index with
  | none => rfl
  | some i =>
    simp only
    rw [h.mess i, h.keeps b k (·.scheme) fun _ => rfl, h.keeps b k (·.hostname) fun _ => rfl,
      h.keeps b k (·.port) fun _ => rfl]

end Tried


/-! ## The contexts that are found -/

def ProxyBalancer.bare (x : ProxyBalancer) : ProxyBalancer := { x with workers := [] }

section Contexts

variable {httpd : Httpd} {cfg : Settings} {s : Snapshot} {b : Nat} {h : Handling} {r : Request}
  {balancer : ProxyBalancer}

/-- The contexts of a request do not depend on the workers. -/
theorem findNodeContextHost_bare (conf : List ProxyBalancer) (route : Option Str) :
    findNodeContextHost cfg.useAlias s conf r (some balancer) route =
      findNodeContextHost cfg.useAlias s (conf.map ProxyBalancer.bare) r (some balancer.bare) route := by
  have hsession : ∀ nodeid, hassessionByname conf s.nodes r nodeid route =
      hassessionByname (conf.map ProxyBalancer.bare) s.nodes r nodeid route := by
    intro nodeid
    unfold hassessionByname
    split
    · rfl
    · cases tableGetNode s.nodes nodeid with
      | none => rfl
      | some node =>
        have hfor : (fun x : ProxyBalancer => x.isFor node.mess.balancer) ∘ ProxyBalancer.bare =
            fun x => x.isFor node.mess.balancer := rfl
        simp only [List.find?_map, hfor]
        cases conf.find? (·.isFor node.mess.balancer) <;> rfl
  have hstatus : statusOk conf s r route = statusOk (conf.map ProxyBalancer.bare) s r route := by
    funext c
    unfold statusOk
    rw [hsession]
  unfold findNodeContextHost searchNodes
  rw [hstatus]
  rfl

theorem write_bare (w : World) (b j : Nat) (f : WorkerShared → WorkerShared) :
    (w.write b j f).server.balancers.map ProxyBalancer.bare = w.server.balancers.map ProxyBalancer.bare := by
  unfold World.write
  split
  · unfold Server.setWorker
    apply List.ext_getElem?
    intro i
    rw [List.getElem?_map, List.getElem?_map, List.getElem?_modify]
    cases w.server.balancers[i]? with
    | none => rfl
    | some balancer => by_cases hi : b = i <;> simp [hi, ProxyBalancer.setWorker, ProxyBalancer.bare]
  · rfl

theorem write_visits (w : World) (b' j : Nat) (f : WorkerShared → WorkerShared) :
    (w.write b' j f).workers b = w.workers b := by
  unfold World.write
  split
  · unfold World.workers Server.setWorker ProxyBalancer.setWorker
    simp only
    rw [List.getElem?_modify]
    cases w.server.balancers[b]? with
    | none => rfl
    | some balancer => by_cases hb : b' = b <;> simp [hb]
  · rfl

theorem foundContexts_write (b' j : Nat) (f : WorkerShared → WorkerShared) :
    foundContexts cfg s b (h.write b' j f) = foundContexts cfg s b h := by
  have hbare := write_bare h.world b' j f
  have hat := congrArg (·[b]?) hbare
  simp only [List.getElem?_map] at hat
  unfold foundContexts Handling.write
  simp only
  cases hb : (h.world.write b' j f).server.balancers[b]? with
  | none =>
    rw [hb] at hat
    cases hb' : h.world.server.balancers[b]? with
    | none => rfl
    | some balancer =>
      rw [hb'] at hat
      cases hat
  | some balancer' =>
    rw [hb] at hat
    cases hb' : h.world.server.balancers[b]? with
    | none =>
      rw [hb'] at hat
      cases hat
    | some balancer =>
      rw [hb', Option.map_some, Option.map_some, Option.some.injEq] at hat
      simp only
      rw [findNodeContextHost_bare (h.world.write b' j f).server.balancers, findNodeContextHost_bare
        h.world.server.balancers, hbare, hat]

theorem findNodeContextHost_again {conf : List ProxyBalancer} {route : Option Str} {r' : Request}
    {found : Option (List NodeContext)} (balancer : Option ProxyBalancer)
    (hfind : findNodeContextHost cfg.useAlias s conf r balancer route = (r', found)) :
    r'.notes.sessionRoute = r.notes.sessionRoute ∧
      (∀ best, found = some best → r'.notes.proxyContext = some best) ∧ (found = none → r' = r) := by
  unfold findNodeContextHost at hfind
  split at hfind
  · rename_i best hnote
    cases hfind
    exact ⟨rfl, fun best' hbest => by rw [hnote, ← hbest], fun hno => by cases hno⟩
  · split at hfind
    · cases hfind
      exact ⟨rfl, fun best hbest => (by cases hbest), fun _ => rfl⟩
    · cases hfind
      exact ⟨rfl, fun best hbest => hbest, fun hno => by cases hno⟩

theorem findNodeContextHost_noted {conf : List ProxyBalancer} {route : Option Str} {best : List NodeContext}
    (balancer : Option ProxyBalancer) (hnote : r.notes.proxyContext = some best) :
    findNodeContextHost cfg.useAlias s conf r balancer route = (r, some best) := by
  unfold findNodeContextHost
  rw [hnote]

theorem foundContexts_eq {r' : Request} {found : Option (List NodeContext)}
    (hb : h.world.server.balancers[b]? = some balancer)
    (hfind : findNodeContextHost cfg.useAlias s h.world.server.balancers h.request (some balancer)
      h.request.notes.sessionRoute = (r', found)) : foundContexts cfg s b h = found := by
  unfold foundContexts
  rw [hb]
  simp only [hfind]

theorem checkContext_spec (index : Int) (j : Nat) (h : Handling) :
    (checkContext cfg s b index j h).2 = (if servesRequest cfg s b h index then .worker j else .missing) ∧
      foundContexts cfg s b (checkContext cfg s b index j h).1 = foundContexts cfg s b h ∧
      (servesRequest cfg s b h index = true → NotedFor (checkContext cfg s b index j h).1.request index) := by
  cases hb : h.world.server.balancers[b]? with
  | none =>
    have hnone : foundContexts cfg s b h = none := by
      unfold foundContexts
      rw [hb]
    unfold checkContext servesRequest
    rw [hb, hnone]
    exact ⟨rfl, rfl, nofun⟩
  | some balancer =>
    obtain ⟨⟨r, found⟩, hfind⟩ : ∃ q, findNodeContextHost cfg.useAlias s h.world.server.balancers h.request
      (some balancer) h.request.notes.sessionRoute = q := ⟨_, rfl⟩
    obtain ⟨-, hnoted, hsame⟩ := findNodeContextHost_again (some balancer) hfind
    have hcontexts := foundContexts_eq hb hfind
    unfold checkContext servesRequest contextHostOk
    simp only [hb, hfind, hcontexts]
    cases found with
    | none =>
      obtain rfl := hsame rfl
      exact ⟨rfl, hcontexts, nofun⟩
    | some best =>
      have hagain : ∀ r' : Request, r'.notes.proxyContext = some best →
          foundContexts cfg s b (h.setRequest r') = some best := fun r' hnote =>
        @foundContexts_eq cfg s b (h.setRequest r') balancer r' (some best) hb
          (findNodeContextHost_noted (some balancer) hnote)
      obtain ⟨entry, hentry⟩ : ∃ entry, findEntry index best = entry := ⟨_, rfl⟩
      simp only [hentry]
      cases entry with
      | none => exact ⟨rfl, hagain _ (hnoted best rfl), nofun⟩
      | some e => exact ⟨rfl, hagain _ (hnoted best rfl), fun _ => ⟨best, e, hnoted best rfl, hentry, rfl⟩⟩

theorem sameSearch_rule (h : Handling) : RouteRule httpd cfg s b
    (fun h' => foundContexts cfg s b h' = foundContexts cfg s b h ∧ h'.world.workers b = h.world.workers b)
    fun _ _ => True := by
  refine ⟨fun h' j ⟨hfound, hworkers⟩ => ?_, fun h' index j ⟨hfound, hworkers⟩ => ?_, fun _ _ _ _ => trivial,
    fun _ _ _ _ => trivial, fun _ _ _ _ _ => trivial⟩
  · exact ⟨(foundContexts_write b j _).trans hfound, (write_visits h'.world b j _).trans hworkers⟩
  · exact ⟨(checkContext_spec index j h').2.1.trans hfound, by rw [checkContext_world]; exact hworkers⟩

end Contexts

/-! ## One visit -/

theorem area_of_worker {w : World} {b j : Nat} {worker : Worker} (h : w.server.worker? b j = some worker) :
    w.area b j = worker.area w.tables := by
  rw [World.area, h]

section Visit

variable {httpd : Httpd} {cfg : Settings} {s : Snapshot} {b : Nat} {redirect : Str → Handling → Handling × Found}
  {h h₁ : Handling} {route : Str} {standby : Bool} {j k : Nat}

/-- The visit ends the search: worker `k` is returned if `ok`, with a context of the node. -/
structure Arrives (q : Handling × Option Found) (w' : World) (ok : Bool) (node : Int) (k : Nat) : Prop where
  answer : q.2 = some (if ok then .worker k else .missing)
  world : q.1.world = w'
  noted : ok = true → NotedFor q.1.request node

theorem servesRequest_congr (hsame : foundContexts cfg s b h₁ = foundContexts cfg s b h) :
    servesRequest cfg s b h₁ = servesRequest cfg s b h := by
  funext node
  unfold servesRequest
  rw [hsame]

theorem checkContext_arrives (index : Int) (k : Nat) :
    Arrives (answer (checkContext cfg s b index k h)) h.world (servesRequest cfg s b h index) index k := by
  obtain ⟨hfound, -, hnoted⟩ := @checkContext_spec cfg s b index k h
  exact ⟨congrArg some hfound, checkContext_world, hnoted⟩

theorem routeStep_skipped (hhelper : ∀ worker, h.world.server.worker? b j = some worker → worker.context ≠ none)
    (hno : ¬ Asked h.world b standby route j) : routeStep httpd cfg s b redirect standby route j h = (h, none) := by
  unfold routeStep
  split
  · rfl
  rename_i worker hworker
  rw [← area_of_worker hworker]
  split
  · rename_i hcontext
    exact absurd hcontext (hhelper worker hworker)
  rename_i helper hcontext
  simp only
  split
  · rfl
  rename_i hindex
  rw [not_or, not_or, not_not, not_not] at hindex
  split
  · rfl
  rename_i hroute
  rw [not_or, not_not] at hroute
  exact absurd ⟨⟨worker, helper, hworker, hcontext, hindex.1.symm⟩, hindex.2.1, hindex.2.2, hroute.2,
    hroute.2 ▸ hroute.1⟩ hno

theorem routeStep_crashed {worker : Worker} (hworker : h.world.server.worker? b j = some worker)
    (hcontext : worker.context = none) :
    routeStep httpd cfg s b redirect standby route j h = (h, some .crashed) := by
  unfold routeStep
  simp only [hworker, hcontext]

theorem routeStep_usable (ha : Asked h.world b standby route j) (hu : (h.world.area b j).isUsable = true) :
    Arrives (routeStep httpd cfg s b redirect standby route j h) h.world
      ((readNodeWorker h.world.tables (h.world.area b j).index (h.world.area b j)).isSome &&
        servesRequest cfg s b h (h.world.area b j).index) (h.world.area b j).index j := by
  obtain ⟨⟨worker, helper, hworker, hcontext, hhelper⟩, hindex, hpass, hroute, hnamed⟩ := ha
  unfold routeStep
  simp only [hworker, hcontext]
  rw [← area_of_worker hworker, if_neg (by simp [hhelper, hindex, hpass]), if_neg (by simp [hroute, hnamed]), if_pos hu]
  cases readNodeWorker h.world.tables (h.world.area b j).index (h.world.area b j) with
  | none => exact ⟨rfl, rfl, nofun⟩
  | some i => exact checkContext_arrives _ j

theorem routeStep_unusable (ha : Asked h.world b standby route j) (hu : (h.world.area b j).isUsable = false) :
    routeStep httpd cfg s b redirect standby route j h =
      routeRetry httpd cfg s b redirect (h.world.area b j).index j h := by
  obtain ⟨⟨worker, helper, hworker, hcontext, hhelper⟩, hindex, hpass, hroute, hnamed⟩ := ha
  unfold routeStep
  simp only [hworker, hcontext]
  rw [← area_of_worker hworker, if_neg (by simp [hhelper, hindex, hpass]), if_neg (by simp [hroute, hnamed]),
    if_neg (by simp [hu])]

theorem routeRetry_recovered (hu : (h.world.area b j).isUsable = false)
    (hretry : ((h.world.retry httpd b j).area b j).isUsable = true) :
    Arrives (routeRetry httpd cfg s b redirect (h.world.area b j).index j h) (h.world.retry httpd b j)
      ((getNode h.world.tables.nodes (h.world.area b j).index).isSome &&
        servesRequest cfg s b h (h.world.area b j).index) (h.world.area b j).index j := by
  have ht : Tried httpd h.world (h.write b j (retried httpd)).world := Tried.write hu
  have hserves := servesRequest_congr (@foundContexts_write cfg s b h b j (retried httpd))
  unfold routeRetry
  simp only
  rw [if_pos (show ((h.write b j (retried httpd)).world.area b j).isUsable = true from hretry), ← ht.getNode, ← hserves]
  cases getNode (h.write b j (retried httpd)).world.tables.nodes (h.world.area b j).index with
  | none => exact ⟨rfl, rfl, nofun⟩
  | some i => exact checkContext_arrives _ j

theorem routeRetry_unredirected (index : Int) (hretry : ((h.world.retry httpd b j).area b j).isUsable = false)
    (hno : ((h.world.retry httpd b j).area b j).redirect = []) :
    routeRetry httpd cfg s b redirect index j h = (h.write b j (retried httpd), none) := by
  have hunusable : ((h.write b j (retried httpd)).world.area b j).isUsable = false := hretry
  have hempty : ((h.write b j (retried httpd)).world.area b j).redirect = [] := hno
  unfold routeRetry
  simp only
  rw [if_neg (by simp [hunusable]), if_pos hempty]

theorem routeRetry_redirect (index : Int) (hretry : ((h.world.retry httpd b j).area b j).isUsable = false)
    (hne : ((h.world.retry httpd b j).area b j).redirect ≠ []) {q : Handling × Found}
    (hq : redirect ((h.world.retry httpd b j).area b j).redirect (h.write b j (retried httpd)) = q) :
    (q.2 = .missing → routeRetry httpd cfg s b redirect index j h = (q.1, none)) ∧
      (∀ k, q.2 = .worker k → routeRetry httpd cfg s b redirect index j h = takeRedirect httpd cfg s b index j k q.1) ∧
      ((∀ k, q.2 ≠ .worker k) → q.2 ≠ .missing → routeRetry httpd cfg s b redirect index j h = (q.1, some q.2)) := by
  have hunusable : ((h.write b j (retried httpd)).world.area b j).isUsable = false := hretry
  have hredirect : ((h.write b j (retried httpd)).world.area b j).redirect ≠ [] := hne
  have hq' : redirect ((h.write b j (retried httpd)).world.area b j).redirect (h.write b j (retried httpd)) = q := hq
  unfold routeRetry
  simp only
  rw [if_neg (by simp [hunusable]), if_neg hredirect, hq']
  obtain ⟨h', found⟩ := q
  cases found with
  | worker k => exact ⟨nofun, fun k' hk => by cases hk; rfl, fun hno => absurd rfl (hno k)⟩
  | missing => exact ⟨fun _ => rfl, nofun, fun _ hno => absurd rfl hno⟩
  | crashed => exact ⟨nofun, nofun, fun _ _ => rfl⟩
  | running => exact ⟨nofun, nofun, fun _ _ => rfl⟩

theorem routeStep_redirect (ha : Asked h.world b standby route j) (hu : (h.world.area b j).isUsable = false)
    (hretry : ((h.world.retry httpd b j).area b j).isUsable = false) (hne : (h.world.area b j).redirect ≠ [])
    {q : Handling × Found} (hq : redirect (h.world.area b j).redirect (h.write b j (retried httpd)) = q) :
    (q.2 = .missing → routeStep httpd cfg s b redirect standby route j h = (q.1, none)) ∧
      (∀ k, q.2 = .worker k → routeStep httpd cfg s b redirect standby route j h =
        takeRedirect httpd cfg s b (h.world.area b j).index j k q.1) ∧
      ((∀ k, q.2 ≠ .worker k) → q.2 ≠ .missing →
        routeStep httpd cfg s b redirect standby route j h = (q.1, some q.2)) := by
  have ht : Tried httpd h.world (h.world.retry httpd b j) := Tried.write hu
  have htext : ((h.world.retry httpd b j).area b j).redirect = (h.world.area b j).redirect :=
    ht.keeps b j (·.redirect) fun _ => rfl
  rw [routeStep_unusable ha hu]
  rw [← htext] at hne hq
  exact routeRetry_redirect (h.world.area b j).index hretry hne hq

theorem takeRedirect_arrives (index : Int) (hu : (h.world.area b k).isUsable = true) :
    Arrives (takeRedirect httpd cfg s b index j k h) h.world
      ((getNode h.world.tables.nodes index).isSome && servesRequest cfg s b h index) index k := by
  unfold takeRedirect
  simp only [if_pos hu]
  cases getNode h.world.tables.nodes index with
  | none => exact ⟨rfl, rfl, nofun⟩
  | some i => exact checkContext_arrives index k

end Visit

/-! ## What a walk leaves -/

section Walk

variable {httpd : Httpd} {b : Nat} {serves : Int → Bool} {w w' : World} {route : Str} {visits : List (Bool × Nat)}
  {found : Option (Nat × Nat)} {j k : Nat}

theorem arrival_eq_some {ok : Bool} {i j k n : Nat} : arrival ok i k = some (j, n) ↔ ok = true ∧ i = j ∧ k = n := by
  cases ok <;> simp [arrival]

theorem RouteWalk.tried (h : RouteWalk httpd b serves w route visits w' found) : Tried httpd w w' := by
  induction h with
  | ended w route => exact Tried.refl w
  | skipped _ _ _ ih => exact ih
  | usable _ _ => exact Tried.refl _
  | recovered _ hunusable _ => exact Tried.write hunusable
  | unredirected _ hunusable _ _ _ ih => exact (Tried.write hunusable).trans ih
  | passed _ hunusable _ _ _ _ ih ih' => exact (Tried.write hunusable).trans (ih.trans ih')
  | redirected _ hunusable _ _ _ ih => exact (Tried.write hunusable).trans ih

theorem RouteWalk.ends_usable (h : RouteWalk httpd b serves w route visits w' found) (hfound : found = some (j, k)) :
    (w'.area b k).isUsable = true := by
  induction h generalizing j with
  | ended _ _ => cases hfound
  | skipped _ _ _ ih => exact ih hfound
  | usable _ husable =>
    obtain ⟨-, -, rfl⟩ := arrival_eq_some.1 hfound
    exact husable
  | recovered _ _ hretry =>
    obtain ⟨-, -, rfl⟩ := arrival_eq_some.1 hfound
    exact hretry
  | unredirected _ _ _ _ _ ih => exact ih hfound
  | passed _ _ _ _ _ _ _ ih => exact ih hfound
  | redirected _ _ _ _ _ ih =>
    obtain ⟨-, -, rfl⟩ := arrival_eq_some.1 hfound
    exact ih rfl

theorem RouteWalk.ends_asked (h : RouteWalk httpd b serves w route visits w' found) (hfound : found = some (j, k)) :
    ∃ w₁ standby r, Tried httpd w w₁ ∧ Asked w₁ b standby r k := by
  induction h generalizing j with
  | ended _ _ => cases hfound
  | skipped _ _ _ ih => exact ih hfound
  | usable hasked _ =>
    obtain ⟨-, -, rfl⟩ := arrival_eq_some.1 hfound
    exact ⟨_, _, _, Tried.refl _, hasked⟩
  | recovered hasked _ _ =>
    obtain ⟨-, -, rfl⟩ := arrival_eq_some.1 hfound
    exact ⟨_, _, _, Tried.refl _, hasked⟩
  | unredirected _ hunusable _ _ _ ih =>
    obtain ⟨w₁, standby, r, ht, hasked⟩ := ih hfound
    exact ⟨w₁, standby, r, (Tried.write hunusable).trans ht, hasked⟩
  | passed _ hunusable _ _ hwalk _ _ ih =>
    obtain ⟨w₁, standby, r, ht, hasked⟩ := ih hfound
    exact ⟨w₁, standby, r, (Tried.write hunusable).trans (hwalk.tried.trans ht), hasked⟩
  | redirected _ hunusable _ _ _ ih =>
    obtain ⟨-, -, rfl⟩ := arrival_eq_some.1 hfound
    obtain ⟨w₁, standby, r, ht, hasked⟩ := ih rfl
    exact ⟨w₁, standby, r, (Tried.write hunusable).trans ht, hasked⟩

theorem RouteWalk.unique (h : RouteWalk httpd b serves w route visits w' found) {w'' : World}
    {found' : Option (Nat × Nat)} (h' : RouteWalk httpd b serves w route visits w'' found') :
    w' = w'' ∧ found = found' := by
  induction h generalizing w'' found' with
  | ended w route =>
    cases h'
    exact ⟨rfl, rfl⟩
  | skipped _ hno _ ih =>
    cases h' with
    | skipped _ _ hrest => exact ih hrest
    | usable ha _ => exact absurd ha hno
    | recovered ha _ _ => exact absurd ha hno
    | unredirected ha _ _ _ _ => exact absurd ha hno
    | passed ha _ _ _ _ _ => exact absurd ha hno
    | redirected ha _ _ _ _ => exact absurd ha hno
  | usable ha hu =>
    cases h' with
    | skipped _ hno _ => exact absurd ha hno
    | usable _ _ => exact ⟨rfl, rfl⟩
    | recovered _ hu' _ => simp [hu] at hu'
    | unredirected _ hu' _ _ _ => simp [hu] at hu'
    | passed _ hu' _ _ _ _ => simp [hu] at hu'
    | redirected _ hu' _ _ _ => simp [hu] at hu'
  | recovered ha hu hretry =>
    cases h' with
    | skipped _ hno _ => exact absurd ha hno
    | usable _ hu' => simp [hu] at hu'
    | recovered _ _ _ => exact ⟨rfl, rfl⟩
    | unredirected _ _ hretry' _ _ => simp [hretry] at hretry'
    | passed _ _ hretry' _ _ _ => simp [hretry] at hretry'
    | redirected _ _ hretry' _ _ => simp [hretry] at hretry'
  | unredirected ha hu hretry hredirect _ ih =>
    cases h' with
    | skipped _ hno _ => exact absurd ha hno
    | usable _ hu' => simp [hu] at hu'
    | recovered _ _ hretry' => simp [hretry] at hretry'
    | unredirected _ _ _ _ hrest => exact ih hrest
    | passed _ _ _ hne _ _ => exact absurd hredirect hne
    | redirected _ _ _ hne _ => exact absurd hredirect hne
  | passed ha hu hretry hne _ _ ih ih' =>
    cases h' with
    | skipped _ hno _ => exact absurd ha hno
    | usable _ hu' => simp [hu] at hu'
    | recovered _ _ hretry' => simp [hretry] at hretry'
    | unredirected _ _ _ hredirect _ => exact absurd hredirect hne
    | passed _ _ _ _ hwalk hrest =>
      obtain ⟨rfl, -⟩ := ih hwalk
      exact ih' hrest
    | redirected _ _ _ _ hwalk => cases (ih hwalk).2
  | redirected ha hu hretry hne _ ih =>
    cases h' with
    | skipped _ hno _ => exact absurd ha hno
    | usable _ hu' => simp [hu] at hu'
    | recovered _ _ hretry' => simp [hretry] at hretry'
    | unredirected _ _ _ hredirect _ => exact absurd hredirect hne
    | passed _ _ _ _ hwalk _ => cases (ih hwalk).2
    | redirected _ _ _ _ hwalk =>
      obtain ⟨rfl, hsame⟩ := ih hwalk
      cases hsame
      exact ⟨rfl, rfl⟩

end Walk

/-! ## The search is a walk -/

section Search

variable (httpd : Httpd) (cfg : Settings) (s : Snapshot) (b : Nat)

/-- Both passes of the search in one. -/
def routeVisits (redirect : Str → Handling → Handling × Found) (route : Str) :
    List (Bool × Nat) → Handling → Handling × Found
  | [], h => (h, .missing)
  | (standby, j) :: rest, h =>
    match routeStep httpd cfg s b redirect standby route j h with
    | (h, some found) => (h, found)
    | (h, none) => routeVisits redirect route rest h

def walkFound : Option (Nat × Nat) → Found
  | some (_, k) => .worker k
  | none => .missing

/-- If the search comes to an end, it has walked there. -/
def Walks (h : Handling) (route : Str) (visits : List (Bool × Nat)) (q : Handling × Found) : Prop :=
  q.2 = .missing ∨ (∃ k, q.2 = .worker k) →
    ∃ found, RouteWalk httpd b (servesRequest cfg s b h) h.world route visits q.1.world found ∧
      q.2 = walkFound found ∧ ∀ j k, found = some (j, k) → NotedFor q.1.request (h.world.area b j).index

variable {httpd cfg s b} {redirect : Str → Handling → Handling × Found} {h h₁ : Handling} {route : Str}
  {standby : Bool} {j k : Nat} {rest : List (Bool × Nat)}

theorem walkFound_arrival (ok : Bool) (j k : Nat) :
    walkFound (arrival ok j k) = if ok then .worker k else .missing := by
  cases ok <;> rfl

theorem routeVisits_answered {found : Found}
    (hstep : (routeStep httpd cfg s b redirect standby route j h).2 = some found) :
    routeVisits httpd cfg s b redirect route ((standby, j) :: rest) h =
      ((routeStep httpd cfg s b redirect standby route j h).1, found) := by
  rw [routeVisits]
  split
  · rename_i h' found' heq
    rw [heq] at hstep ⊢
    cases hstep
    rfl
  · rename_i h' heq
    rw [heq] at hstep
    cases hstep

theorem routeVisits_on (hstep : routeStep httpd cfg s b redirect standby route j h = (h₁, none)) :
    routeVisits httpd cfg s b redirect route ((standby, j) :: rest) h =
      routeVisits httpd cfg s b redirect route rest h₁ := by
  rw [routeVisits, hstep]

theorem routePass_visits (js : List Nat) (h : Handling) :
    (∀ found, (routePass httpd cfg s b redirect standby route js h).2 = some found →
      routeVisits httpd cfg s b redirect route (js.map (Prod.mk standby) ++ rest) h =
        ((routePass httpd cfg s b redirect standby route js h).1, found)) ∧
    ((routePass httpd cfg s b redirect standby route js h).2 = none →
      routeVisits httpd cfg s b redirect route (js.map (Prod.mk standby) ++ rest) h =
        routeVisits httpd cfg s b redirect route rest (routePass httpd cfg s b redirect standby route js h).1) := by
  induction js generalizing h with
  | nil => exact ⟨nofun, fun _ => rfl⟩
  | cons j js ih =>
    rw [List.map_cons, List.cons_append, routePass, routeVisits]
    obtain ⟨⟨h', found⟩, hstep⟩ : ∃ q, routeStep httpd cfg s b redirect standby route j h = q := ⟨_, rfl⟩
    rw [hstep]
    cases found with
    | some found => exact ⟨fun found' hfound => by rw [Option.some.inj hfound], nofun⟩
    | none => exact ih h'

theorem findRouteWorker_visits (fuel : Nat) (route : Str) (h : Handling) :
    findRouteWorker httpd cfg s b (fuel + 1) route h =
      routeVisits httpd cfg s b (findRouteWorker httpd cfg s b fuel) route (h.world.visits b) h := by
  have hsame : (routePass httpd cfg s b (findRouteWorker httpd cfg s b fuel) false route (h.world.workers b)
      h).1.world.workers b = h.world.workers b :=
    (routePass_rule (sameSearch_rule h) (fun _ _ hI => findRouteWorker_rule (sameSearch_rule h) fuel hI) false route
      (h.world.workers b) ⟨rfl, rfl⟩).1.2
  have hfirst := @routePass_visits httpd cfg s b (findRouteWorker httpd cfg s b fuel) route false
    ((h.world.workers b).map (Prod.mk true)) (h.world.workers b) h
  rw [findRouteWorker, World.visits]
  generalize routePass httpd cfg s b (findRouteWorker httpd cfg s b fuel) false route (h.world.workers b) h = q at hsame hfirst
  obtain ⟨h', found⟩ := q
  cases found with
  | some found => exact (hfirst.1 found rfl).symm
  | none =>
    rw [hfirst.2 rfl]
    have hsecond := @routePass_visits httpd cfg s b (findRouteWorker httpd cfg s b fuel) route true [] (h.world.workers b)
      h'
    rw [List.append_nil] at hsecond
    simp only at hsame ⊢
    rw [hsame]
    generalize routePass httpd cfg s b (findRouteWorker httpd cfg s b fuel) true route (h.world.workers b) h' = q at hsecond
    obtain ⟨h'', found⟩ := q
    cases found with
    | some found => exact (hsecond.1 found rfl).symm
    | none => exact (hsecond.2 rfl).symm

/-! ### A search walks -/

theorem Arrives.walks {w' : World} {ok : Bool}
    (ha : Arrives (routeStep httpd cfg s b redirect standby route j h) w' ok (h.world.area b j).index k)
    (hwalk : RouteWalk httpd b (servesRequest cfg s b h) h.world route ((standby, j) :: rest) w' (arrival ok j k)) :
    Walks httpd cfg s b h route ((standby, j) :: rest)
      (routeVisits httpd cfg s b redirect route ((standby, j) :: rest) h) := by
  intro _
  rw [routeVisits_answered ha.answer]
  refine ⟨arrival ok j k, ?_, (walkFound_arrival ok j k).symm, fun i n hfound => ?_⟩
  · rw [ha.world]
    exact hwalk
  · obtain ⟨hok, rfl, -⟩ := arrival_eq_some.1 hfound
    exact ha.noted hok

theorem Walks.on {q : Handling × Found} (ht : Tried httpd h.world h₁.world)
    (hsame : foundContexts cfg s b h₁ = foundContexts cfg s b h) (hrest : Walks httpd cfg s b h₁ route rest q)
    (hvisit : ∀ w' found, RouteWalk httpd b (servesRequest cfg s b h) h₁.world route rest w' found →
      RouteWalk httpd b (servesRequest cfg s b h) h.world route ((standby, j) :: rest) w' found) :
    Walks httpd cfg s b h route ((standby, j) :: rest) q := by
  intro hq
  obtain ⟨found, hwalk, hfound, hnoted⟩ := hrest hq
  rw [servesRequest_congr hsame] at hwalk
  refine ⟨found, hvisit _ _ hwalk, hfound, fun i n hi => ?_⟩
  rw [← ht.keeps b i (·.index) fun _ => rfl]
  exact hnoted i n hi

theorem redirect_walks (hredirect : ∀ route h, Walks httpd cfg s b h route (h.world.visits b) (redirect route h) ∧
      foundContexts cfg s b (redirect route h).1 = foundContexts cfg s b h)
    (hrest : ∀ h, Walks httpd cfg s b h route rest (routeVisits httpd cfg s b redirect route rest h))
    (ha : Asked h.world b standby route j) (hu : (h.world.area b j).isUsable = false)
    (hretry : ((h.world.retry httpd b j).area b j).isUsable = false) (hne : (h.world.area b j).redirect ≠ []) :
    Walks httpd cfg s b h route ((standby, j) :: rest)
      (routeVisits httpd cfg s b redirect route ((standby, j) :: rest) h) := by
  have ht : Tried httpd h.world (h.write b j (retried httpd)).world := Tried.write hu
  have hwrite := @foundContexts_write cfg s b h b j (retried httpd)
  obtain ⟨hwalks, hfound⟩ := hredirect (h.world.area b j).redirect (h.write b j (retried httpd))
  obtain ⟨q, hq⟩ : ∃ q, redirect (h.world.area b j).redirect (h.write b j (retried httpd)) = q := ⟨_, rfl⟩
  obtain ⟨hmissing, hworker, hother⟩ := @routeStep_redirect httpd cfg s b redirect h route standby j ha hu hretry hne q hq
  rw [hq] at hwalks hfound
  have hsame := hfound.trans hwrite
  by_cases hends : q.2 = .missing ∨ ∃ k, q.2 = .worker k
  · obtain ⟨found, hwalk, hq2, -⟩ := hwalks hends
    rw [servesRequest_congr hwrite] at hwalk
    cases found with
    | none =>
      rw [routeVisits_on (hmissing hq2)]
      exact Walks.on (ht.trans hwalk.tried) hsame (hrest q.1) fun w' found hw =>
        .passed ha hu hretry hne hwalk hw
    | some found =>
      obtain ⟨i, k⟩ := found
      have harrives := @takeRedirect_arrives httpd cfg s b q.1 j k (h.world.area b j).index
        (hwalk.ends_usable rfl)
      rw [(ht.trans hwalk.tried).getNode, servesRequest_congr hsame, ← hworker k hq2] at harrives
      exact harrives.walks (.redirected ha hu hretry hne hwalk)
  · rw [not_or, not_exists] at hends
    intro hno
    rw [@routeVisits_answered httpd cfg s b redirect h route standby j rest q.2
      (by rw [hother hends.2 hends.1])] at hno
    exact absurd hno (not_or.2 ⟨hends.1, not_exists.2 hends.2⟩)

theorem routeVisits_walks (hredirect : ∀ route h, Walks httpd cfg s b h route (h.world.visits b) (redirect route h) ∧
      foundContexts cfg s b (redirect route h).1 = foundContexts cfg s b h) (route : Str) (visits : List (Bool × Nat))
    (h : Handling) : Walks httpd cfg s b h route visits (routeVisits httpd cfg s b redirect route visits h) := by
  induction visits generalizing h with
  | nil => exact fun _ => ⟨none, .ended h.world route, rfl, nofun⟩
  | cons visit rest ih =>
    obtain ⟨standby, j⟩ := visit
    by_cases hhelper : ∀ worker, h.world.server.worker? b j = some worker → worker.context ≠ none
    · by_cases ha : Asked h.world b standby route j
      · cases hu : (h.world.area b j).isUsable with
        | true => exact (routeStep_usable ha hu).walks (.usable ha hu)
        | false =>
          have hstep := @routeStep_unusable httpd cfg s b redirect h route standby j ha hu
          have ht : Tried httpd h.world (h.write b j (retried httpd)).world := Tried.write hu
          cases hretry : ((h.world.retry httpd b j).area b j).isUsable with
          | true =>
            have harrives := @routeRetry_recovered httpd cfg s b redirect h j hu hretry
            rw [← hstep] at harrives
            exact harrives.walks (.recovered ha hu hretry)
          | false =>
            by_cases hno : (h.world.area b j).redirect = []
            · have htext : ((h.world.retry httpd b j).area b j).redirect = [] :=
                (ht.keeps b j (·.redirect) fun _ => rfl).trans hno
              rw [routeRetry_unredirected _ hretry htext] at hstep
              rw [routeVisits_on hstep]
              exact Walks.on ht (foundContexts_write b j _) (ih _) fun w' found hw =>
                .unredirected ha hu hretry hno hw
            · exact redirect_walks hredirect ih ha hu hretry hno
      · rw [routeVisits_on (routeStep_skipped hhelper ha)]
        exact Walks.on (Tried.refl _) rfl (ih h) fun w' found hw => .skipped hhelper ha hw
    · simp only [not_forall, not_not] at hhelper
      obtain ⟨worker, hworker, hcontext⟩ := hhelper
      intro hends
      rw [@routeVisits_answered httpd cfg s b redirect h route standby j rest .crashed
        (by rw [routeStep_crashed hworker hcontext])] at hends
      rcases hends with hno | ⟨k, hno⟩ <;> cases hno

theorem findRouteWorker_walks (fuel : Nat) (route : Str) (h : Handling) :
    Walks httpd cfg s b h route (h.world.visits b) (findRouteWorker httpd cfg s b fuel route h) := by
  induction fuel generalizing route h with
  | zero =>
    intro hends
    rcases hends with hno | ⟨k, hno⟩ <;> cases hno
  | succ fuel ih =>
    rw [findRouteWorker_visits]
    exact routeVisits_walks (fun route h => ⟨ih route h,
      (findRouteWorker_rule (sameSearch_rule h) fuel ⟨rfl, rfl⟩).1.1⟩) route _ h

/-! ### A walk is searched -/

theorem redirect_searched {text : Str} {w' : World} {found : Option (Nat × Nat)} {fuel : Nat}
    (hsearch : (routeVisits httpd cfg s b (findRouteWorker httpd cfg s b fuel) text (h.world.visits b) h).2 =
        walkFound found ∧
      (routeVisits httpd cfg s b (findRouteWorker httpd cfg s b fuel) text (h.world.visits b) h).1.world = w') :
    ∃ q, findRouteWorker httpd cfg s b (fuel + 1) text h = q ∧ q.2 = walkFound found ∧ q.1.world = w' ∧
      foundContexts cfg s b q.1 = foundContexts cfg s b h := by
  have hkept : foundContexts cfg s b (findRouteWorker httpd cfg s b (fuel + 1) text h).1 = foundContexts cfg s b h :=
    (findRouteWorker_rule (sameSearch_rule h) (fuel + 1) ⟨rfl, rfl⟩).1.1
  rw [← findRouteWorker_visits] at hsearch
  exact ⟨_, rfl, hsearch.1, hsearch.2, hkept⟩

theorem RouteWalk.searched {serves : Int → Bool} {w w' : World} {visits : List (Bool × Nat)}
    {found : Option (Nat × Nat)} (hwalk : RouteWalk httpd b serves w route visits w' found) :
    ∃ n, ∀ fuel, n ≤ fuel → ∀ h : Handling, h.world = w → servesRequest cfg s b h = serves →
      (routeVisits httpd cfg s b (findRouteWorker httpd cfg s b fuel) route visits h).2 = walkFound found ∧
        (routeVisits httpd cfg s b (findRouteWorker httpd cfg s b fuel) route visits h).1.world = w' := by
  induction hwalk with
  | ended w route => exact ⟨0, fun fuel _ h hw _ => ⟨rfl, hw⟩⟩
  | skipped hhelper hno _ ih =>
    obtain ⟨n, hn⟩ := ih
    refine ⟨n, fun fuel hfuel h hw hs => ?_⟩
    subst hw
    rw [routeVisits_on (routeStep_skipped hhelper hno)]
    exact hn fuel hfuel h rfl hs
  | usable hasked husable =>
    refine ⟨0, fun fuel _ h hw hs => ?_⟩
    subst hw hs
    have harrives := @routeStep_usable httpd cfg s b (findRouteWorker httpd cfg s b fuel) h _ _ _ hasked husable
    rw [routeVisits_answered harrives.answer, walkFound_arrival]
    exact ⟨rfl, harrives.world⟩
  | recovered hasked hunusable hretry =>
    refine ⟨0, fun fuel _ h hw hs => ?_⟩
    subst hw hs
    have harrives := @routeRetry_recovered httpd cfg s b (findRouteWorker httpd cfg s b fuel) h _ hunusable hretry
    rw [← routeStep_unusable hasked hunusable] at harrives
    rw [routeVisits_answered harrives.answer, walkFound_arrival]
    exact ⟨rfl, harrives.world⟩
  | @unredirected w w' route standby j rest found hasked hunusable hretry hredirect _ ih =>
    obtain ⟨n, hn⟩ := ih
    refine ⟨n, fun fuel hfuel h hw hs => ?_⟩
    subst hw hs
    have ht : Tried httpd h.world (h.write b j (retried httpd)).world := Tried.write hunusable
    have hstep := @routeStep_unusable httpd cfg s b (findRouteWorker httpd cfg s b fuel) h _ _ _ hasked hunusable
    rw [routeRetry_unredirected _ hretry ((ht.keeps b j (·.redirect) fun _ => rfl).trans hredirect)] at hstep
    rw [routeVisits_on hstep]
    exact hn fuel hfuel _ rfl (servesRequest_congr (foundContexts_write b j _))
  | @passed w w₁ w' route standby j rest found hasked hunusable hretry hredirect hwalk _ ih ih' =>
    obtain ⟨n, hn⟩ := ih
    obtain ⟨n', hn'⟩ := ih'
    refine ⟨max (n + 1) n', fun fuel hfuel h hw hs => ?_⟩
    obtain ⟨fuel, rfl⟩ : ∃ m, fuel = m + 1 := ⟨fuel - 1, by omega⟩
    subst hw hs
    have hwrite := @foundContexts_write cfg s b h b j (retried httpd)
    obtain ⟨q, hq, hmissing, hworld, hkept⟩ := redirect_searched (h := h.write b j (retried httpd))
      (hn fuel (by omega) (h.write b j (retried httpd)) rfl (servesRequest_congr hwrite))
    have hstep := (@routeStep_redirect httpd cfg s b _ h route standby j hasked hunusable hretry hredirect q hq).1 hmissing
    rw [routeVisits_on hstep]
    exact hn' (fuel + 1) (by omega) q.1 hworld (servesRequest_congr (hkept.trans hwrite))
  | @redirected w w' route standby j i k rest hasked hunusable hretry hredirect hwalk ih =>
    obtain ⟨n, hn⟩ := ih
    refine ⟨n + 1, fun fuel hfuel h hw hs => ?_⟩
    obtain ⟨fuel, rfl⟩ : ∃ m, fuel = m + 1 := ⟨fuel - 1, by omega⟩
    subst hw hs
    have ht : Tried httpd h.world (h.write b j (retried httpd)).world := Tried.write hunusable
    have hwrite := @foundContexts_write cfg s b h b j (retried httpd)
    obtain ⟨q, hq, hfound, hworld, hkept⟩ := redirect_searched (h := h.write b j (retried httpd))
      (hn fuel (by omega) (h.write b j (retried httpd)) rfl (servesRequest_congr hwrite))
    have hstep := (@routeStep_redirect httpd cfg s b _ h route standby j hasked hunusable hretry hredirect q hq).2.1 k hfound
    have htried := hwalk.tried
    have husable := hwalk.ends_usable rfl
    rw [← hworld] at htried husable ⊢
    have harrives := @takeRedirect_arrives httpd cfg s b q.1 j k (h.world.area b j).index husable
    rw [(ht.trans htried).getNode, servesRequest_congr (hkept.trans hwrite), ← hstep] at harrives
    rw [routeVisits_answered harrives.answer, walkFound_arrival]
    exact ⟨rfl, harrives.world⟩

theorem RouteWalk.found {w' : World}
    (hwalk : RouteWalk httpd b (servesRequest cfg s b h) h.world route (h.world.visits b) w' (some (j, k))) :
    ∃ fuel h', findRouteWorker httpd cfg s b fuel route h = (h', .worker k) ∧ h'.world = w' := by
  obtain ⟨n, hn⟩ := @RouteWalk.searched httpd cfg s b _ _ _ _ _ _ hwalk
  obtain ⟨hfound, hworld⟩ := hn n (le_refl n) h rfl rfl
  rw [← findRouteWorker_visits] at hfound hworld
  exact ⟨n + 1, _, Prod.ext rfl hfound, hworld⟩

/-- A worker is returned if and only if a walk ends with it. -/
theorem findRouteWorker_iff_walk (w' : World) :
    (∃ fuel h', findRouteWorker httpd cfg s b fuel route h = (h', .worker k) ∧ h'.world = w') ↔
      ∃ j, RouteWalk httpd b (servesRequest cfg s b h) h.world route (h.world.visits b) w' (some (j, k)) := by
  constructor
  · rintro ⟨fuel, h', hfind, rfl⟩
    obtain ⟨found, hwalk, hfound, -⟩ := findRouteWorker_walks fuel route h (Or.inr ⟨k, by rw [hfind]⟩)
    rw [hfind] at hwalk hfound
    cases found with
    | none => cases hfound
    | some found =>
      obtain ⟨j, n⟩ := found
      cases hfound
      exact ⟨j, hwalk⟩
  · rintro ⟨j, hwalk⟩
    exact hwalk.found

end Search

end ModCluster
