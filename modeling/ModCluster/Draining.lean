import ModCluster.ContextCounts
import ModCluster.Handler
import ModCluster.Wildcards
import ModCluster.RoutingSafety

/-!
# Draining a node

CONFIG stores contexts stopped, and the watchdogs only take them away. What opens a
context is a command for its node. So a node that was stopped, or disabled, gets no new
requests until a command opens it, whatever else happens in between.
-/

open CString Slotmem Slotmem.Table

namespace ModCluster

/-! ## Statement -/

/-- What lets in more than the command does. -/
def OpensMore (cmd status : ContextStatus) : Prop :=
  match cmd with
  | .stopped => status = .enabled ∨ status = .disabled
  | .disabled => status = .enabled
  | _ => False

/-- A step in which no command gives the contexts of node `k` one of the statuses. -/
inductive QuietStep (httpd : Httpd) (opens : ContextStatus → Prop) (k : Nat) (ts : Tables) : Tables → Prop
  | config (mconf : Mconf) (now : Int) (px : Option Proxy) (argv : Argv) :
      QuietStep httpd opens k ts (processConfig httpd mconf now ts px argv).tables
  | app (now : Int) (filename : Str) (argv : Argv) (cmd : ContextStatus)
      (hquiet : opens cmd → ∀ args, parseApp httpd (filename == NODE_COMMAND) argv = .ok args →
        ¬ Addressed ts args.jvmRoute k) :
      QuietStep httpd opens k ts (processAppCmd httpd now ts filename argv cmd).tables
  | watchdog (wait now : Int) : QuietStep httpd opens k ts (removeRemovedNode httpd wait now ts)
  | lbWatchdog (wait now : Int) (nodeTable : List Int) :
      QuietStep httpd opens k ts (lbRemoveRemovedNode wait now nodeTable ts)
  | bookkeeping (i : Nat) (a n : Nodeinfo) (hused : ts.nodes.used i = some a) (hkeep : Bookkeeping a n) :
      QuietStep httpd opens k ts { ts with nodes := ts.nodes.poke i n }
  /-- A request is counted in or out. -/
  | counts (id : Option Int) (val : Int) : QuietStep httpd opens k ts (updContextCount ts id val)

/-- The contexts of the node that have one of the statuses have had it before. -/
def Unopened (opens : ContextStatus → Prop) (node : Int) (m m' : Table Contextinfo) : Prop :=
  ∀ i c', m'.used i = some c' → c'.node = node → opens c'.status → ∃ c, m.used i = some c ∧
    c.context = c'.context ∧ c.vhost = c'.vhost ∧ c.node = c'.node ∧ c.status = c'.status

/-! ## The table of contexts -/

section Records

variable {opens : ContextStatus → Prop} {node : Int} {m m' m'' : Table Contextinfo} {now : Int}

theorem Unopened.trans (h : Unopened opens node m m') (h' : Unopened opens node m' m'') :
    Unopened opens node m m'' := by
  intro i c'' hc'' hnode hopen
  obtain ⟨c', hc', hcontext', hvhost', hnode', hstatus'⟩ := h' i c'' hc'' hnode hopen
  obtain ⟨c, hc, hcontext, hvhost, hn, hstatus⟩ :=
    h i c' hc' (hnode'.trans hnode) (by rw [hstatus']; exact hopen)
  exact ⟨c, hc, hcontext.trans hcontext', hvhost.trans hvhost', hn.trans hnode', hstatus.trans hstatus'⟩

theorem Shrunk.unopened (h : Shrunk m m') : Unopened opens node m m' :=
  fun i c' hc' _ _ => ⟨c', h i c' hc', rfl, rfl, rfl, rfl⟩

theorem Unopened.refl : Unopened opens node m m := Shrunk.refl.unopened

theorem unopened_poke {i : Nat} {c : Contextinfo} (h : c.node = node → ¬ opens c.status) :
    Unopened opens node m (m.poke i c) := by
  intro j c' hc' hnode hopen
  rcases used_of_poke hc' with ⟨-, rfl, -⟩ | ⟨-, hold⟩
  · exact absurd hopen (h hnode)
  · exact ⟨c', hold, rfl, rfl, rfl, rfl⟩

theorem unopened_store {i : Nat} {c : Contextinfo} (h : c.node = node → ¬ opens c.status) :
    Unopened opens node m (m.store i c) := by
  intro j c' hc' hnode hopen
  rcases used_of_store hc' with ⟨-, rfl⟩ | ⟨-, hold⟩
  · exact absurd hopen (h hnode)
  · exact ⟨c', hold, rfl, rfl, rfl, rfl⟩

theorem insertUpdateContext_unopened {context : Contextinfo} (hclosed : context.node = node → ¬ opens context.status)
    (h : insertUpdateContext now m context = some m') : Unopened opens node m m' := by
  rcases insertUpdateContext_cases h with ⟨i, a, hfirst, ha, rfl⟩ | ⟨i, -, -, -, rfl⟩
  · obtain ⟨b, hb, hsame, -⟩ := first_eq_some hfirst
    rw [ha, Option.some.injEq] at hb
    subst hb
    have hnode : a.node = context.node := by
      unfold sameContext at hsame
      simp only [Bool.and_eq_true, beq_iff_eq] at hsame
      simp [hsame]
    apply unopened_poke
    rw [← hnode] at hclosed
    exact hclosed
  · exact unopened_store hclosed

theorem countContext_unopened (id : Option Int) (val : Int) : Unopened opens node m (countContext m id val) := by
  unfold countContext
  split
  · intro j c' hc' hnode hopen
    rcases used_of_poke hc' with ⟨rfl, rfl, a, ha⟩ | ⟨-, hold⟩
    · refine ⟨a, ha, ?_⟩
      rw [peek_of_used ha]
      exact ⟨rfl, rfl, rfl, rfl⟩
    · exact ⟨c', hold, rfl, rfl, rfl, rfl⟩
  · exact Unopened.refl

end Records

/-! ## The messages -/

section Messages

variable {httpd : Httpd} {opens : ContextStatus → Prop} {node : Int} {ts ts' : Tables} {now : Int}
  {cmd : ContextStatus} {k : Nat}

theorem addContexts_unopened (hstopped : ¬ opens .stopped) (id vid : Int) (host : Str) (contexts : List Str)
    (m : Table Contextinfo) : Unopened opens node m (addContexts now id vid host contexts m).1 := by
  induction contexts generalizing m with
  | nil => exact Unopened.refl
  | cons context rest ih =>
    unfold addContexts
    split
    · rename_i m' hm
      exact (insertUpdateContext_unopened (fun _ => hstopped) hm).trans (ih m')
    · exact ih m

theorem addAliases_unopened (hstopped : ¬ opens .stopped) (id : Int) (contexts aliases : List Str) (vid : Int)
    (ts : Tables) : Unopened opens node ts.contexts (addAliases now id contexts aliases vid ts).1.contexts := by
  induction aliases generalizing vid ts with
  | nil => exact Unopened.refl
  | cons host rest ih =>
    unfold addAliases
    split
    · exact ih vid ts
    · apply Unopened.trans _ (ih _ _)
      exact addContexts_unopened hstopped _ _ _ _ _

theorem processConfig_unopened (hstopped : ¬ opens .stopped) (mconf : Mconf) (px : Option Proxy) (argv : Argv) :
    Unopened opens node ts.contexts (processConfig httpd mconf now ts px argv).tables.contexts := by
  unfold processConfig
  split
  · exact Unopened.refl
  split
  · exact Unopened.refl
  · exact Unopened.refl
  rename_i args _ _ plan _
  have hcommit := commitConfig_committed now ts px args plan
  generalize commitConfig now ts px args plan = res at hcommit ⊢
  cases hcommit with
  | noBalancer hb => exact Unopened.refl
  | noNode balancers b hb hn => exact Unopened.refl
  | aborted balancers b nodes nodeinfo id hb hn hp => exact Unopened.refl
  | stored balancers b nodes nodeinfo id ts' px' r hb hn hp hr =>
    subst hr
    have hts := pairWorker_contexts hp
    simp only at hts
    rw [← hts]
    exact addAliases_unopened hstopped _ _ _ _ (incVersionNode ts')

theorem nodeCmdContexts_unopened (vhost target : Int) (hclosed : target = node → ¬ opens cmd)
    (m : Table Contextinfo) (ids : List Int) :
    Unopened opens node m (nodeCmdContexts now cmd vhost target m ids) := by
  by_cases hcmd : cmd = .remove
  · subst hcmd
    rw [nodeCmdContexts_remove]
    exact (shrunk_sweep _ _ _).unopened
  induction ids generalizing m with
  | nil => exact Unopened.refl
  | cons id rest ih =>
    unfold nodeCmdContexts
    split
    swap
    · exact ih m
    rename_i i hi
    simp only
    split
    swap
    · exact ih m
    rename_i hkey
    have hset : (setStatus (m.peek i) cmd).node = node → ¬ opens (setStatus (m.peek i) cmd).status := by
      intro hn
      exact hclosed (hkey.2.symm.trans hn)
    apply Unopened.trans _ (ih _)
    have hpoke : Unopened opens node m (m.poke i (setStatus (m.peek i) cmd)) := unopened_poke hset
    cases hm : insertUpdateContext now (m.poke i (setStatus (m.peek i) cmd)) (setStatus (m.peek i) cmd) with
    | none => exact hpoke
    | some m' => exact hpoke.trans (insertUpdateContext_unopened hset hm)

theorem nodeCmdHosts_unopened (target : Int) (hclosed : target = node → ¬ opens cmd) (ids : List Int) (ts : Tables) :
    Unopened opens node ts.contexts (nodeCmdHosts now cmd target ts ids).contexts := by
  induction ids generalizing ts with
  | nil => exact Unopened.refl
  | cons id rest ih =>
    unfold nodeCmdHosts
    split
    swap
    · exact ih ts
    simp only
    split
    · exact ih ts
    · rename_i hnode
      apply Unopened.trans _ (ih _)
      apply nodeCmdContexts_unopened
      intro hn
      exact hclosed ((not_not.1 hnode).symm.trans hn)

theorem appContexts_unopened (target vhost : Int) (hclosed : target = node → ¬ opens cmd) (contexts : List Str)
    (m : Table Contextinfo) : Unopened opens node m (appContexts now cmd target vhost contexts m).1 := by
  by_cases hcmd : cmd = .remove
  · subst hcmd
    exact (appContexts_shrunk _ _ _ _).unopened
  induction contexts generalizing m with
  | nil => exact Unopened.refl
  | cons context rest ih =>
    unfold appContexts
    split
    · rename_i m' hm
      unfold insertUpdateContextHelper at hm
      rw [if_neg hcmd] at hm
      exact (insertUpdateContext_unopened hclosed hm).trans (ih m')
    · exact ih m

theorem appAliases_unopened (target : Int) (hclosed : target = node → ¬ opens cmd) (contexts aliases : List Str)
    (vid : Int) (ts : Tables) :
    Unopened opens node ts.contexts (appAliases now cmd target contexts aliases vid ts).1.contexts := by
  induction aliases generalizing vid ts with
  | nil => exact Unopened.refl
  | cons host rest ih =>
    unfold appAliases
    split
    · apply Unopened.trans _ (ih _ _)
      exact Unopened.refl
    · apply Unopened.trans _ (ih _ _)
      split
      · rw [dropHosts_contexts]
        exact appContexts_unopened _ _ hclosed _ _
      · exact appContexts_unopened _ _ hclosed _ _

theorem processNodeCmd_unopened {i : Nat} (hclosed : (ts.nodes.peek i).mess.id = node → ¬ opens cmd) :
    Unopened opens node ts.contexts (processNodeCmd now cmd ts i).contexts := by
  unfold processNodeCmd
  split
  · exact Unopened.refl
  simp only
  split
  · exact nodeCmdHosts_unopened _ hclosed _ _
  · exact nodeCmdHosts_unopened _ hclosed _ _

theorem processAppCmd_unopened (hok : IdsOk ts) (filename : Str) (argv : Argv)
    (hquiet : opens cmd → ∀ args, parseApp httpd (filename == NODE_COMMAND) argv = .ok args →
      ¬ Addressed ts args.jvmRoute k) :
    Unopened opens k ts.contexts (processAppCmd httpd now ts filename argv cmd).tables.contexts := by
  unfold processAppCmd
  simp only
  split
  · exact Unopened.refl
  · exact Unopened.refl
  rename_i args hparse
  split
  · exact Unopened.refl
  rename_i i hfound
  split
  · exact Unopened.refl
  rename_i hunmarked
  have haddressed : Addressed ts args.jvmRoute i := ⟨hfound, by simpa using hunmarked⟩
  obtain ⟨a, ha, -, hid⟩ := haddressed.node hok.nodes
  have hclosed : (ts.nodes.peek i).mess.id = (k : Int) → ¬ opens cmd := by
    intro hk hopen
    rw [peek_of_used ha, hid] at hk
    obtain rfl : i = k := by omega
    exact hquiet hopen args hparse haddressed
  split
  · exact @processNodeCmd_unopened opens k (incVersionNode ts) now cmd i hclosed
  · exact appAliases_unopened _ hclosed _ _ _ (incVersionNode ts)

end Messages

/-! ## Steps and runs -/

section Runs

variable {httpd : Httpd} {opens : ContextStatus → Prop} {k : Nat} {ts ts' : Tables}

theorem QuietStep.unopened (hstopped : ¬ opens .stopped) (hok : IdsOk ts) (h : QuietStep httpd opens k ts ts') :
    Unopened opens k ts.contexts ts'.contexts := by
  cases h with
  | config mconf now px argv => exact processConfig_unopened hstopped mconf px argv
  | app now filename argv cmd hquiet => exact processAppCmd_unopened hok filename argv hquiet
  | watchdog wait now => exact (removeRemovedLoop_shrunk _ _).unopened
  | lbWatchdog wait now nodeTable => exact (lbRemoveRemovedNode_shrunk _ _).unopened
  | bookkeeping i a n hused hkeep => exact Unopened.refl
  | counts id val =>
    rw [updContextCount_contexts]
    exact countContext_unopened id val

theorem updContextCount_idsOk (hok : IdsOk ts) (id : Option Int) (val : Int) : IdsOk (updContextCount ts id val) := by
  unfold updContextCount
  split
  · rename_i i _
    refine ⟨hok.nodes, hok.stale, hok.hosts, hok.contexts.poke fun a ha => ?_, hok.balancers⟩
    rw [peek_of_used ha]
    rfl
  · exact hok

theorem QuietStep.idsOk (hok : IdsOk ts) (h : QuietStep httpd opens k ts ts') : IdsOk ts' := by
  have hedits (hstep : Step httpd False ts ts') : IdsOk ts' := (hstep.edits hok False.elim).idsOk hok
  cases h with
  | config mconf now px argv => exact hedits (.config mconf now px argv False.elim)
  | app now filename argv cmd hquiet => exact hedits (.app now filename argv cmd False.elim)
  | watchdog wait now => exact hedits (.watchdog wait now)
  | lbWatchdog wait now nodeTable => exact hedits (.lbWatchdog wait now nodeTable)
  | bookkeeping i a n hused hkeep => exact hedits (.bookkeeping i a n hused hkeep)
  | counts id val => exact updContextCount_idsOk hok id val

theorem unopened_run (hstopped : ¬ opens .stopped) (hok : IdsOk ts)
    (hrun : Relation.ReflTransGen (QuietStep httpd opens k) ts ts') :
    IdsOk ts' ∧ Unopened opens k ts.contexts ts'.contexts := by
  induction hrun with
  | refl => exact ⟨hok, Unopened.refl⟩
  | tail _ hstep ih =>
    obtain ⟨hok', hun⟩ := ih
    exact ⟨hstep.idsOk hok', hun.trans (hstep.unopened hstopped hok')⟩

end Runs

/-! ## Requests -/

section Requests

variable {httpd : Httpd} {cfg : Settings} {s : Snapshot} {turn : Turn} {turns : Nat → Turn} {looks : List Look}
  {h : Handling} {url : Str}

theorem resolveBalancer_visited {w : World} {found : Option Nat}
    (hres : resolveBalancer httpd cfg s turn url h.world = some (w, found)) :
    Visited httpd cfg s turn turns h.world w := by
  unfold resolveBalancer at hres
  split at hres
  · cases hres
    exact .start
  · rw [Option.map_eq_some_iff] at hres
    obtain ⟨w', hw', heq⟩ := hres
    rw [Prod.mk.injEq] at heq
    obtain ⟨rfl, -⟩ := heq
    exact Visited.start.refresh turn (Or.inl rfl) hw'

theorem preRequest_serves (fuel : Nat) (hhandled : Handled httpd cfg.useAlias s looks h.request) {b j : Nat}
    (hb : (preRequest httpd cfg s turn turns fuel none url h).2.1 = some b)
    (hj : (preRequest httpd cfg s turn turns fuel none url h).2.2.1 = .ok j) :
    NodeServes cfg.useAlias s (KnownLook httpd cfg s turn turns looks h) h.request
      ((preRequest httpd cfg s turn turns fuel none url h).1.world.area b j).index := by
  unfold preRequest at hb hj ⊢
  simp only at hb hj ⊢
  cases hres : resolveBalancer httpd cfg s turn url h.world with
  | none =>
    rw [hres] at hb
    cases hb
  | some q =>
    obtain ⟨w, found⟩ := q
    rw [hres] at hb hj
    cases found with
    | none => cases hb
    | some b' =>
      cases hb
      have hc : Choosing httpd cfg s turn turns looks h { h with world := w } :=
        ⟨resolveBalancer_visited hres, SameRequest.refl _, hhandled.notesOk.note.mono fun l hl => Or.inl hl⟩
      exact routeRequest_safe hc hj

end Requests

/-- After STOP-APP or DISABLE-APP for all of a node, no request is given to the node as
long as no command opens it. When it was disabled, requests of its sessions still are. -/
theorem drained_unreached (httpd : Httpd) (ts : Tables) (hserved : Served httpd ts) (k : Nat) (now : Int)
    (argv : Argv) (args : AppArgs) (hargs : parseApp httpd true argv = .ok args)
    (hnode : Addressed ts args.jvmRoute k) (cmd : ContextStatus) (hcmd : cmd = .stopped ∨ cmd = .disabled) (ts' : Tables)
    (hrun : Relation.ReflTransGen (QuietStep httpd (OpensMore cmd) k)
      (processAppCmd httpd now ts NODE_COMMAND argv cmd).tables ts')
    (cfg : Settings) (s : Snapshot) (hs : ∀ c ∈ s.contexts, ∃ i, ts'.contexts.used i = some c) (turn : Turn)
    (turns : Nat → Turn) (fuel : Nat) (url : Str) (looks : List Look) (h : Handling)
    (hhandled : Handled httpd cfg.useAlias s looks h.request) (b j : Nat)
    (hb : (preRequest httpd cfg s turn turns fuel none url h).2.1 = some b)
    (hj : (preRequest httpd cfg s turn turns fuel none url h).2.2.1 = .ok j)
    (hindex : ((preRequest httpd cfg s turn turns fuel none url h).1.world.area b j).index = k) :
    cmd = .disabled ∧ ∃ l, KnownLook httpd cfg s turn turns looks h l ∧ (CarriesRoute l ∨ CarriesSessionId s l k) := by
  have hsound := hserved.reachable.sound
  have hok := hsound.ids
  have hlinked : HostsLinked ts k := by
    intro i c hc hn
    rw [← hn]
    exact hsound.hosted i c hc
  have hstep : Step httpd False ts (processAppCmd httpd now ts NODE_COMMAND argv cmd).tables :=
    Step.app now NODE_COMMAND argv cmd False.elim
  have hok' := (hstep.edits hok False.elim).idsOk hok
  have hstopped : ¬ OpensMore cmd .stopped := by
    rcases hcmd with rfl | rfl <;> simp [OpensMore]
  have hgiven : StatusGiven now cmd ts k (processAppCmd httpd now ts NODE_COMMAND argv cmd).tables := by
    obtain ⟨a, ha, hf, hid⟩ := hnode.node hok.nodes
    have hglob : (NODE_COMMAND == NODE_COMMAND) = true := BEq.rfl
    have hne : cmd ≠ .remove := by
      rcases hcmd with rfl | rfl <;> simp
    unfold processAppCmd
    simp only [hglob, hargs, hnode.found, hnode.unmarked, Bool.false_eq_true, if_false, if_true]
    exact (processNodeCmd_effect hok hsound.keyed hserved.sizes hlinked ha hf hid).1 hne
  -- What is more open than the command was so right after it, and nothing was.
  have hnone : ∀ c ∈ s.contexts, c.node = k → ¬ OpensMore cmd c.status := by
    intro c hc hn hopen
    obtain ⟨i, hi⟩ := hs c hc
    obtain ⟨c₁, hc₁, -, -, hn₁, hstatus⟩ := (unopened_run hstopped hok' hrun).2 i c hi hn hopen
    rw [hgiven.contexts i, Option.map_eq_some_iff] at hc₁
    obtain ⟨c₀, -, rfl⟩ := hc₁
    rw [← hstatus] at hopen
    by_cases hk : c₀.node = k
    · rw [if_pos hk] at hopen
      rcases hcmd with rfl | rfl <;> simp [OpensMore, commanded] at hopen
    · rw [if_neg hk] at hn₁
      exact hk (hn₁.trans hn)
  obtain ⟨c, hc, hn, -, hopen⟩ := preRequest_serves fuel hhandled hb hj
  rw [hindex] at hn
  have hclosed := hnone c hc hn
  rcases hopen with henabled | ⟨hdisabled, hsession⟩
  · rcases hcmd with rfl | rfl <;> simp [OpensMore, henabled] at hclosed
  · rcases hcmd with rfl | rfl
    · simp [OpensMore, hdisabled] at hclosed
    · rw [hn] at hsession
      exact ⟨rfl, hsession⟩

/-! ### A session of a disabled node -/

/-- The node after DISABLE-APP and a tick of its watchdog. -/
def disabledNode : Tables :=
  removeRemovedNode plainHttpd 10 0 (processAppCmd plainHttpd 0 oneNode NODE_COMMAND routeOnly .disabled).tables

theorem disabledNode_context : disabledNode.contexts.used 0 = some ⟨0, ascii "/app", 1, 0, .disabled, 0, 0⟩ := by
  decide +kernel

theorem disabledNode_request :
    let q := preRequest plainHttpd aliased disabledContext quiet (fun _ => quiet) 1 none
      (ascii "balancer://a/app/index.jsp") translated
    q.2.1 = some 0 ∧ q.2.2.1 = .ok 0 ∧ (q.1.world.area 0 0).index = 0 := by
  decide +kernel

theorem disabledNode_session :
    ∃ l, KnownLook plainHttpd aliased disabledContext quiet (fun _ => quiet)
      [⟨[nodeBalancer], sessionR0⟩] translated l ∧ (CarriesRoute l ∨ CarriesSessionId disabledContext l 0) := by
  obtain ⟨hparse, hfound, hunmarked⟩ := routeOnly_parse
  obtain ⟨args, hargs, hroute⟩ := exists_of_map_ok hparse
  have hnode : Addressed oneNode args.jvmRoute 0 := by
    rw [of_decide_eq_true hroute]
    exact ⟨hfound, hunmarked⟩
  obtain ⟨hb, hj, hindex⟩ := disabledNode_request
  refine (drained_unreached plainHttpd oneNode oneNode_served 0 0 routeOnly args hargs hnode
    .disabled (Or.inr rfl) disabledNode (Relation.ReflTransGen.single (.watchdog 10 0)) aliased disabledContext
    (fun c hc => ⟨0, ?_⟩) quiet (fun _ => quiet) 1 _ _ translated
    ((Handled.arrives sessionR0 rfl).getRouteBalancer [nodeBalancer]) 0 0 hb hj hindex).2
  rw [disabledNode_context]
  obtain rfl : c = ⟨0, ascii "/app", 1, 0, .disabled, 0, 0⟩ := by simpa [disabledContext] using hc
  rfl

end ModCluster
