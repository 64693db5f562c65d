import ModCluster.Handled

/-!
# Routing safety

On the first try a request only goes to a worker whose node has a context that
reaches the request and is open to it.
-/

open CString Slotmem Slotmem.Table

namespace ModCluster

/-- The states of the process while the worker is chosen: workers are updated, others
take their turns, and workers are written to. -/
inductive Visited (httpd : Httpd) (cfg : Settings) (s : Snapshot) (turn : Turn) (turns : Nat → Turn) (w₀ : World) :
    World → Prop
  | start : Visited httpd cfg s turn turns w₀ w₀
  | refresh {w w' : World} (t : Turn) (ht : t = turn ∨ ∃ k, t = turns k) (h : Visited httpd cfg s turn turns w₀ w)
      (hw : refreshWorkers httpd cfg s t w = some w') : Visited httpd cfg s turn turns w₀ w'
  | others {w : World} (k : Nat) (h : Visited httpd cfg s turn turns w₀ w) :
      Visited httpd cfg s turn turns w₀ ((turns k).others w)
  | write {w : World} (b j : Nat) (f : WorkerShared → WorkerShared) (h : Visited httpd cfg s turn turns w₀ w) :
      Visited httpd cfg s turn turns w₀ (w.write b j f)

/-- The looks of the translation, and those of the choice itself. -/
def KnownLook (httpd : Httpd) (cfg : Settings) (s : Snapshot) (turn : Turn) (turns : Nat → Turn) (looks : List Look)
    (h : Handling) (l : Look) : Prop :=
  l ∈ looks ∨ ∃ w, Visited httpd cfg s turn turns h.world w ∧ l = ⟨w.server.balancers, h.request⟩

section Safety

variable {httpd : Httpd} {cfg : Settings} {s : Snapshot} {turn : Turn} {turns : Nat → Turn} {looks : List Look}
  {h₀ h : Handling} {b : Nat}

/-- What holds while the worker is chosen. `h₀` is the state it starts in. -/
structure Choosing (httpd : Httpd) (cfg : Settings) (s : Snapshot) (turn : Turn) (turns : Nat → Turn)
    (looks : List Look) (h₀ h : Handling) : Prop where
  visited : Visited httpd cfg s turn turns h₀.world h.world
  same : SameRequest h₀.request h.request
  note : NoteOk cfg.useAlias s (KnownLook httpd cfg s turn turns looks h₀) h.request

/-- The node of worker `j` serves the request. -/
def GoodWorker (httpd : Httpd) (cfg : Settings) (s : Snapshot) (turn : Turn) (turns : Nat → Turn)
    (looks : List Look) (b : Nat) (h₀ h : Handling) (j : Nat) : Prop :=
  NodeServes cfg.useAlias s (KnownLook httpd cfg s turn turns looks h₀) h₀.request (h.world.area b j).index

theorem GoodWorker.of_index {h' : Handling} {j : Nat} (hgood : GoodWorker httpd cfg s turn turns looks b h₀ h j)
    (hindex : (h'.world.area b j).index = (h.world.area b j).index) :
    GoodWorker httpd cfg s turn turns looks b h₀ h' j := by
  unfold GoodWorker
  rw [hindex]
  exact hgood

theorem Choosing.find (hc : Choosing httpd cfg s turn turns looks h₀ h) (balancer : Option ProxyBalancer) :
    let q := findNodeContextHost cfg.useAlias s h.world.server.balancers h.request balancer
      h.request.notes.sessionRoute
    Choosing httpd cfg s turn turns looks h₀ (h.setRequest q.1) ∧
      ∀ best, q.2 = some best → ∀ e ∈ best,
        NodeServes cfg.useAlias s (KnownLook httpd cfg s turn turns looks h₀) h₀.request e.node := by
  intro q
  have hroute : h.request.notes.sessionRoute.getD [] ≠ [] → CarriesRoute ⟨h.world.server.balancers, h₀.request⟩ := by
    intro hne
    rw [hc.same.sessionRoute] at hne
    cases hs : h₀.request.notes.sessionRoute with
    | none =>
      rw [hs] at hne
      exact absurd rfl hne
    | some route =>
      rw [hs] at hne
      exact Or.inl ⟨route, hs, hne⟩
  have hfind := @findNodeContextHost_serves _ _ _ _ _ balancer _ _ hc.same hroute
    (Or.inr ⟨h.world, hc.visited, rfl⟩) hc.note
  refine ⟨⟨hc.visited, hc.same.trans findNodeContextHost_same, hfind.1⟩, fun best hbest e he => ?_⟩
  exact (hfind.2 best hbest e he).congr hc.same.uri.symm hc.same.serverName.symm

theorem findEntry_mem {node : Int} {best : List NodeContext} {e : NodeContext} (h : findEntry node best = some e) :
    e ∈ best ∧ e.node = node := by
  induction best with
  | nil => cases h
  | cons x rest ih =>
    unfold findEntry at h
    split at h
    · cases h
    split at h
    · rename_i hx
      cases h
      exact ⟨List.mem_cons_self, hx⟩
    · obtain ⟨hmem, hnode⟩ := ih h
      exact ⟨List.mem_cons_of_mem _ hmem, hnode⟩

theorem choosing_routeRule : RouteRule httpd cfg s b (Choosing httpd cfg s turn turns looks h₀)
    (GoodWorker httpd cfg s turn turns looks b h₀) := by
  have hcheck : ∀ h index j, Choosing httpd cfg s turn turns looks h₀ h →
      Choosing httpd cfg s turn turns looks h₀ (checkContext cfg s b index j h).1 ∧
        ((checkContext cfg s b index j h).2 = .worker j →
          NodeServes cfg.useAlias s (KnownLook httpd cfg s turn turns looks h₀) h₀.request index) := by
    intro h index j hc
    unfold checkContext
    split
    · exact ⟨hc, fun hj => by cases hj⟩
    rename_i balancer hb
    obtain ⟨hc', hserves⟩ := hc.find (some balancer)
    unfold contextHostOk
    generalize findNodeContextHost cfg.useAlias s h.world.server.balancers h.request (some balancer)
      h.request.notes.sessionRoute = q at hc' hserves
    obtain ⟨r, best⟩ := q
    cases best with
    | none => exact ⟨hc', fun hj => by cases hj⟩
    | some best =>
      cases hentry : findEntry index best with
      | none =>
        simp only [hentry]
        exact ⟨hc', fun hj => by cases hj⟩
      | some e =>
        obtain ⟨hmem, hnode⟩ := findEntry_mem hentry
        simp only [hentry]
        refine ⟨⟨hc'.visited, hc'.same.trans ⟨rfl, rfl, rfl, rfl, rfl, rfl⟩, hc'.note.congr rfl rfl rfl⟩,
          fun _ => ?_⟩
        rw [← hnode]
        exact hserves best rfl e hmem
  refine ⟨fun h j hc => ?_, fun h index j hc => (hcheck h index j hc).1, fun h j hc hj => ?_,
    fun h j k hgood => ?_, fun h index j k hgood => ?_⟩
  · exact ⟨hc.visited.write b j _, hc.same, hc.note⟩
  · unfold GoodWorker
    rw [checkContext_world]
    exact (hcheck h _ j hc).2 hj
  · exact hgood.of_index (retried_index h.world b j b k)
  · exact hgood.of_index (by rw [checkContext_world])

/-! ## Elections -/

theorem Choosing.setNotes (notes : Notes) (hc : Choosing httpd cfg s turn turns looks h₀ h)
    (hcontext : notes.proxyContext = h.request.notes.proxyContext)
    (hroute : notes.sessionRoute = h.request.notes.sessionRoute) :
    Choosing httpd cfg s turn turns looks h₀ (h.setRequest { h.request with notes := notes }) :=
  ⟨hc.visited, hc.same.trans ⟨rfl, rfl, rfl, rfl, rfl, hroute⟩, hc.note.congr hcontext rfl rfl⟩

theorem electedOnce_index (w : World) (b j b' k : Nat) :
    ((w.write b j electedOnce).area b' k).index = (w.area b' k).index :=
  area_write_keeps (w := w) (b := b) (j := j) (k := k) (f := electedOnce) (fun s => s.index) fun _ => rfl

theorem electWorker_safe {domain : Option Str} {failoverdomain : Bool} {balancer : ProxyBalancer}
    (hc : Choosing httpd cfg s turn turns looks h₀ h) :
    Choosing httpd cfg s turn turns looks h₀ (electWorker cfg s b domain failoverdomain balancer h).1 ∧
      ∀ j, (electWorker cfg s b domain failoverdomain balancer h).2 = .worker j →
        GoodWorker httpd cfg s turn turns looks b h₀ (electWorker cfg s b domain failoverdomain balancer h).1 j := by
  obtain ⟨hc', hserves⟩ := hc.find (some balancer)
  constructor
  · unfold electWorker
    split
    · rename_i r heq
      rw [heq] at hc'
      split
      · exact hc'.setNotes _ rfl rfl
      · exact hc'
    rename_i r best heq
    rw [heq] at hc'
    simp only
    split
    · exact hc'
    · exact hc'.setNotes _ rfl rfl
    · rename_i j cd nodecontext _
      cases cd with
      | true =>
        have hn := hc'.setNotes { r.notes with contextId := some nodecontext.context } rfl rfl
        exact ⟨hn.visited.write b j _, hn.same, hn.note⟩
      | false =>
        have hn := hc'.setNotes { r.notes with
          contextId := some nodecontext.context, sessionDomainOk := true } rfl rfl
        exact ⟨hn.visited.write b j _, hn.same, hn.note⟩
  · intro j hj
    obtain ⟨best, hbest, ⟨p, -, hacc⟩, hworld⟩ := electWorker_found hj
    obtain ⟨e, he⟩ := hacc.entry
    obtain ⟨hmem, hnode⟩ := findEntry_mem he
    unfold GoodWorker
    rw [hworld, electedOnce_index, ← hnode]
    exact hserves best hbest e hmem

theorem internalFindBestByrequests_safe {t : Turn} (ht : t = turn ∨ ∃ k, t = turns k) {domain : Option Str}
    {failoverdomain : Bool} (hc : Choosing httpd cfg s turn turns looks h₀ h) :
    Choosing httpd cfg s turn turns looks h₀
        (internalFindBestByrequests httpd cfg s b t domain failoverdomain h).1 ∧
      ∀ j, (internalFindBestByrequests httpd cfg s b t domain failoverdomain h).2 = .worker j →
        GoodWorker httpd cfg s turn turns looks b h₀
          (internalFindBestByrequests httpd cfg s b t domain failoverdomain h).1 j := by
  unfold internalFindBestByrequests
  split
  · exact ⟨hc, fun j hj => by cases hj⟩
  rename_i w hw
  have hcw : Choosing httpd cfg s turn turns looks h₀ { h with world := w } := by
    refine ⟨?_, hc.same, hc.note⟩
    split at hw
    · cases hw
      exact hc.visited
    · exact hc.visited.refresh t ht hw
  split
  · exact ⟨hc, fun j hj => by cases hj⟩
  · exact electWorker_safe hcw

theorem findSessionRoute_safe {fuel : Nat} {balancer : ProxyBalancer} (hc : Choosing httpd cfg s turn turns looks h₀ h) :
    Choosing httpd cfg s turn turns looks h₀ (findSessionRoute httpd cfg s b fuel balancer h).1 ∧
      ∀ j, (findSessionRoute httpd cfg s b fuel balancer h).2.worker = .worker j →
        GoodWorker httpd cfg s turn turns looks b h₀ (findSessionRoute httpd cfg s b fuel balancer h).1 j := by
  unfold findSessionRoute
  split
  · exact ⟨hc, fun j hj => by cases hj⟩
  split
  · exact ⟨hc, fun j hj => by cases hj⟩
  · exact ⟨hc, fun j hj => by cases hj⟩
  rename_i route _ _
  obtain ⟨hc', hgood⟩ := findRouteWorker_rule choosing_routeRule fuel hc
  simp only
  generalize findRouteWorker httpd cfg s b fuel route h = q at hc' hgood
  obtain ⟨h', found⟩ := q
  cases found with
  | worker k =>
    simp only
    split
    · exact ⟨hc', hgood⟩
    · exact ⟨hc'.setNotes _ rfl rfl, hgood⟩
  | missing => exact ⟨hc', fun j hj => by cases hj⟩
  | crashed => exact ⟨hc', fun j hj => by cases hj⟩
  | running => exact ⟨hc', fun j hj => by cases hj⟩

theorem failover_safe {fuel : Nat} {balancer : ProxyBalancer} {session : SessionRoute}
    (hc : Choosing httpd cfg s turn turns looks h₀ h) :
    ∀ j, (failover httpd cfg s turns fuel b balancer session h).2 = .ok j →
      GoodWorker httpd cfg s turn turns looks b h₀ (failover httpd cfg s turns fuel b balancer session h).1 j := by
  obtain ⟨-, hgood⟩ := findBestWorker_rule (b := b)
    (I := Choosing httpd cfg s turn turns looks h₀)
    (fun k h hc => internalFindBestByrequests_safe (Or.inr ⟨k, rfl⟩) hc)
    (fun k h hc => ⟨hc.visited.others k, hc.same, hc.note⟩) fuel hc
  intro j hj
  unfold failover at hj ⊢
  split at hj
  · cases hj
  rename_i hforce
  rw [if_neg hforce]
  simp only at hj ⊢
  generalize findBestWorker httpd cfg s b turns fuel session.domain
    (session.route.isSome && balancer.stickyForce) h = q at hgood hj ⊢
  obtain ⟨h', found⟩ := q
  cases found with
  | worker k =>
    simp only at hj ⊢
    cases hr : noteElection ((h'.world.server.balancers[b]?).getD balancer) session.route session.sticky h'.request with
    | none =>
      rw [hr] at hj
      cases hj
    | some r =>
      rw [hr] at hj
      cases hj
      exact hgood _ rfl
  | missing => cases hj
  | crashed => cases hj
  | running => cases hj

theorem chooseWorker_safe {fuel : Nat} {balancer : ProxyBalancer} (hc : Choosing httpd cfg s turn turns looks h₀ h) :
    ∀ j, (chooseWorker httpd cfg s turns fuel b balancer h).2 = .ok j →
      GoodWorker httpd cfg s turn turns looks b h₀ (chooseWorker httpd cfg s turns fuel b balancer h).1 j := by
  obtain ⟨hc', hgood⟩ := findSessionRoute_safe (b := b) hc
  intro j hj
  unfold chooseWorker at hj ⊢
  simp only at hj ⊢
  split at hj
  · cases hj
  · cases hj
  · rename_i k hk
    cases hj
    exact (hgood _ hk).of_index (electedOnce_index _ b _ b _)
  · exact failover_safe hc' j hj

/-! ## The request goes out -/

theorem routeRequest_safe {fuel : Nat} {url : Str} (hc : Choosing httpd cfg s turn turns looks h₀ h) {j : Nat}
    (hj : (routeRequest httpd cfg s turns fuel b url h).2.1 = .ok j) :
    GoodWorker httpd cfg s turn turns looks b h₀ (routeRequest httpd cfg s turns fuel b url h).1 j := by
  unfold routeRequest at hj ⊢
  split at hj
  · cases hj
  rename_i balancer hb
  have hgood := @chooseWorker_safe _ _ _ _ _ _ _ _ b fuel balancer hc
  split at hj
  · rename_i h' k heq
    rw [heq] at hgood
    obtain ⟨rfl, hindex, -⟩ := dispatch_spec hj
    exact (hgood _ rfl).of_index hindex
  · rename_i h' status hno heq
    simp only at hj
    exact absurd hj (hno j)

end Safety

/-- On the first try, with or without deterministic failover, the worker belongs to
a node that has a context which reaches the request and is enabled, or is disabled
while the request has a session. -/
theorem preRequest_routesSafely (httpd : Httpd) (cfg : Settings) (s : Snapshot) (turn : Turn) (turns : Nat → Turn)
    (fuel : Nat) (url : Str) (looks : List Look) (h : Handling)
    (hhandled : Handled httpd cfg.useAlias s looks h.request) (b j : Nat)
    (hb : (preRequest httpd cfg s turn turns fuel none url h).2.1 = some b)
    (hj : (preRequest httpd cfg s turn turns fuel none url h).2.2.1 = .ok j) :
    (∃ c ∈ s.contexts,
      c.node = ((preRequest httpd cfg s turn turns fuel none url h).1.world.area b j).index ∧
      Reaches cfg.useAlias s h.request c ∧
      (c.status = .enabled ∨ c.status = .disabled ∧
        ∃ l, KnownLook httpd cfg s turn turns looks h l ∧ (CarriesRoute l ∨ CarriesSessionId s l c.node))) ∧
    ∀ node, (∀ c ∈ s.contexts, c.node = node → Reaches cfg.useAlias s h.request c → c.status = .stopped) →
      ((preRequest httpd cfg s turn turns fuel none url h).1.world.area b j).index ≠ node := by
  have hserves : NodeServes cfg.useAlias s (KnownLook httpd cfg s turn turns looks h) h.request
      ((preRequest httpd cfg s turn turns fuel none url h).1.world.area b j).index := by
    unfold preRequest at hb hj ⊢
    simp only at hb hj ⊢
    cases hres : resolveBalancer httpd cfg s turn url h.world with
    | none =>
      rw [hres] at hb
      cases hb
    | some q =>
      obtain ⟨w, found⟩ := q
      rw [hres] at hb hj
      cases found with
      | none => cases hb
      | some b' =>
        cases hb
        have hvisited : Visited httpd cfg s turn turns h.world w := by
          unfold resolveBalancer at hres
          split at hres
          · cases hres
            exact .start
          · rw [Option.map_eq_some_iff] at hres
            obtain ⟨w', hw', heq⟩ := hres
            rw [Prod.mk.injEq] at heq
            obtain ⟨rfl, -⟩ := heq
            exact Visited.start.refresh turn (Or.inl rfl) hw'
        have hc : Choosing httpd cfg s turn turns looks h { h with world := w } :=
          ⟨hvisited, SameRequest.refl _, hhandled.notesOk.note.mono fun l hl => Or.inl hl⟩
        exact routeRequest_safe hc hj
  obtain ⟨c, hc, hnode, hreaches, hopen⟩ := hserves
  refine ⟨⟨c, hc, hnode, hreaches, hopen⟩, fun node hstopped heq => ?_⟩
  have hstatus := hstopped c hc (hnode.trans heq) hreaches
  rcases hopen with henabled | ⟨hdisabled, -⟩
  · rw [hstatus] at henabled
    cases henabled
  · rw [hstatus] at hdisabled
    cases hdisabled

/-! ## A disabled context -/

section Example

def aliased : Settings where
  useAlias := true
  deterministicFailover := true
  cacheShareFor := false
  creatBal := .all
  main := true
  responsecodeWhenNoContext := 404

def nodeArea : WorkerShared :=
  { plainWorker (ascii "ajp://localhost:8009") with
    route := ascii "r0"
    status := PROXY_WORKER_INITIALIZED
    lbfactor := 1 }

def nodeRecord : Nodeinfo where
  mess := { (default : Nodemess) with
    balancer := ascii "a"
    jvmRoute := ascii "r0"
    host := ascii "localhost"
    port := ascii "8009"
    type := ascii "ajp" }
  updatetime := 0
  stat := nodeArea

/-- The only context of the only node is disabled. -/
def disabledContext : Snapshot where
  vhosts := [⟨0, ascii "localhost", 1, 0, 0⟩]
  contexts := [⟨0, ascii "/app", 1, 0, .disabled, 0, 0⟩]
  nodes := [⟨0, nodeRecord, some 0⟩]
  nodup := by decide

def nodeWorker : Worker := ⟨.slot 0, nodeArea, some ⟨0, 0, true⟩⟩

def nodeBalancer : ProxyBalancer where
  name := ascii "balancer://a"
  lbpname := MC_STICKY
  sticky := ascii "JSESSIONID"
  stickyPath := ascii "jsessionid"
  stickyForce := true
  timeout := 0
  maxAttempts := 1
  workers := [nodeWorker]

def nodeWorld : World :=
  ⟨{ emptyTables ⟨1, 1, 1, 1, 1⟩ with nodes := (Table.empty 1).store 0 nodeRecord }, ⟨[nodeBalancer]⟩⟩

/-- A request with a session of the node. -/
def sessionR0 : Request where
  uri := Text.ofStr (ascii "/app/index.jsp")
  unparsedUri := Text.ofStr (ascii "/app/index.jsp")
  filename := none
  cookie := some (ascii "JSESSIONID=id.r0")
  serverName := ascii "localhost"
  notes := Notes.empty

def translated : Handling := ⟨nodeWorld, (getRouteBalancer true disabledContext [nodeBalancer] sessionR0).1⟩

def quiet : Turn := ⟨0, false, fun w => w⟩

theorem disabledContext_served :
    (preRequest plainHttpd aliased disabledContext quiet (fun _ => quiet) 1 none (ascii "balancer://a/app/index.jsp")
      translated).2.2.1 = .ok 0 ∧
    ∃ c ∈ disabledContext.contexts, c.status = .disabled ∧ c.node =
      ((preRequest plainHttpd aliased disabledContext quiet (fun _ => quiet) 1 none
        (ascii "balancer://a/app/index.jsp") translated).1.world.area 0 0).index := by
  have hj : (preRequest plainHttpd aliased disabledContext quiet (fun _ => quiet) 1 none
      (ascii "balancer://a/app/index.jsp") translated).2.2.1 = .ok 0 := by decide +kernel
  obtain ⟨⟨c, hc, hnode, -, hopen⟩, -⟩ := preRequest_routesSafely plainHttpd aliased disabledContext quiet
    (fun _ => quiet) 1 (ascii "balancer://a/app/index.jsp") _ translated
    ((Handled.arrives sessionR0 rfl).getRouteBalancer [nodeBalancer]) 0 0 (by decide +kernel) hj
  refine ⟨hj, c, hc, ?_, hnode⟩
  have hstatus : ∀ c ∈ disabledContext.contexts, c.status = .disabled := by decide
  exact hstatus c hc

end Example

end ModCluster
