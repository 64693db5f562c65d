import ModCluster.Config
import ModCluster.MessageSpec
import ModCluster.Invariants

/-!
# CONFIG as edits

Each part of `process_config` that writes to the tables, as a run of edits.
-/

open CString Slotmem Slotmem.Table

namespace ModCluster

variable {strict : Prop} {ts ts' : Tables} {now : Int}

/-! ## Single records -/

theorem insertUpdateBalancer_edit {b b' : Balancerinfo} {m : Table Balancerinfo}
    (h : insertUpdateBalancer now ts.balancers b = some (m, b')) :
    Edit strict ts { ts with balancers := m } ∧ BalancerUsed { ts with balancers := m } b.balancer := by
  rcases insertUpdateBalancer_cases h with ⟨i, a, hf, ha, rfl, -⟩ | ⟨i, hf, hlt, hfree, rfl, -⟩
  · obtain ⟨a', ha', hname, -⟩ := first_eq_some hf
    rw [ha, Option.some.injEq] at ha'
    subst ha'
    exact ⟨Edit.balancer i a _ ha rfl (sameBalancer_iff.mp hname).symm,
      ⟨i, _, used_poke_self _ ha, rfl⟩⟩
  · exact ⟨Edit.balancerInsert i _ hlt hfree rfl hf, ⟨i, _, used_store_self _ hlt, rfl⟩⟩

/-- The slot an inserted or updated node ends up in. -/
def StoredAt (m : Table Nodeinfo) (route : Str) (id : Int) : Prop :=
  ∃ i n, m.used i = some n ∧ id = i ∧ n.mess.jvmRoute = route

theorem insertUpdateNode_edit {node node' : Nodeinfo} {id id' : Int} {clean : Bool} {m : Table Nodeinfo}
    (hids : IdsOk ts) (hbal : BalancerUsed ts node.mess.balancer) (hname : node.mess.jvmRoute ≠ [])
    (hroute : strict → node.mess.jvmRoute ≠ REMOVED)
    (h : insertUpdateNode now ts.nodes node id clean = some (m, node', id')) :
    Edit strict ts { ts with nodes := m } ∧ StoredAt m node.mess.jvmRoute id' := by
  rcases insertUpdateNode_cases h with ⟨i, a, hf, ha, rfl, -, rfl⟩ | ⟨i, hf, hlt, rfl, -, rfl, -⟩
  · refine ⟨Edit.node i _ ?_ ?_ (Or.inr hbal) (absurd · hname) ?_, ⟨i, _, used_poke_self _ ha, hids.nodes i a ha, rfl⟩⟩
    · rw [peek_of_used ha]
      rfl
    · intro _
      exact Or.inr ⟨a, ha⟩
    · intro hs hr
      exact absurd hr (hroute hs)
  · exact ⟨Edit.nodeStore i _ hlt rfl hbal hname hroute, ⟨i, _, used_store_self _ hlt, rfl, rfl⟩⟩

theorem pokeStat_edit (ts : Tables) (i : Nat) (f : WorkerShared → WorkerShared) :
    Edit strict ts (pokeStat ts i f) :=
  Edit.node i _ rfl Or.inl (Or.inl rfl) id fun _ => Or.inl

theorem insertUpdateHost_edit {x x' : Hostinfo} {m : Table Hostinfo}
    (hnode : ∃ k n, ts.nodes.used k = some n ∧ x.node = k ∧ (strict → n.mess.jvmRoute ≠ REMOVED))
    (h : insertUpdateHost now ts.hosts x = some (m, x')) :
    Edit strict ts { ts with hosts := m } ∧ HostUsed { ts with hosts := m } x.node x.vhost := by
  rcases insertUpdateHost_cases h with ⟨i, a, hf, ha, rfl, -⟩ | ⟨i, hf, hlt, hfree, rfl, -⟩
  · obtain ⟨a', ha', hkey, -⟩ := first_eq_some hf
    rw [ha, Option.some.injEq] at ha'
    subst ha'
    exact ⟨Edit.host i a _ ha rfl hkey, ⟨i, _, used_poke_self _ ha, rfl, rfl⟩⟩
  · exact ⟨Edit.hostInsert i _ hlt hfree rfl hf hnode, ⟨i, _, used_store_self _ hlt, rfl, rfl⟩⟩

theorem insertUpdateContext_edit {c : Contextinfo} {m : Table Contextinfo}
    (hhost : HostUsed ts c.node c.vhost) (h : insertUpdateContext now ts.contexts c = some m) :
    Edit strict ts { ts with contexts := m } := by
  rcases insertUpdateContext_cases h with ⟨i, a, -, ha, rfl⟩ | ⟨i, hf, hlt, hfree, rfl⟩
  · exact Edit.context i a _ ha rfl (by simp [sameContext])
  · exact Edit.contextInsert i _ hlt hfree rfl hf hhost

/-! ## The check phase -/

theorem setJvmRoute_edit {i : Nat} {route : Str} (hname : route ≠ []) (hold : (ts.nodes.peek i).mess.jvmRoute = REMOVED) :
    Edit strict ts { ts with nodes := setJvmRoute ts.nodes i route } :=
  Edit.node i _ rfl Or.inl (Or.inl rfl) (absurd · hname) fun _ _ => Or.inl hold

theorem revive_edit {i : Nat} {route : Str} (hname : route ≠ []) (hold : (ts.nodes.peek i).mess.jvmRoute = REMOVED) :
    Edit strict ts { ts with nodes := revive ts.nodes i route } :=
  Edit.node i _ rfl (fun h => by simp at h) (Or.inl rfl) (absurd · hname) fun _ _ => Or.inl hold

/-- What the check phase leaves behind: nothing when it fails, edits of the nodes
and a plan that still carries the message's node when it does not. -/
def CheckedOk (strict : Prop) (ts : Tables) (m : Nodemess) : Checked → Prop
  | .go plan =>
    Edits strict ts { ts with nodes := plan.nodes } ∧ plan.nodeinfo.mess = m ∧
      (plan.removed ≠ -1 → plan.id = plan.removed ∧ ∃ i, plan.nodes.dptr plan.id = some i)
  | .abort nodes => Edits strict ts { ts with nodes := nodes }
  | .fail _ => True

theorem renameRemoved_edits {route : Str} (hname : route ≠ []) (w : Option Nat) :
    Edits strict ts { ts with nodes := renameRemoved ts.nodes route w } := by
  cases w with
  | none => exact Edits.refl
  | some i =>
    simp only [renameRemoved]
    split
    · rename_i hold
      exact (setJvmRoute_edit hname hold).single
    · exact Edits.refl

theorem size_renameRemoved (m : Table Nodeinfo) (route : Str) (w : Option Nat) :
    (renameRemoved m route w).size = m.size := by
  cases w with
  | none => rfl
  | some i =>
    simp only [renameRemoved]
    split
    · exact size_poke _ _ _
    · rfl

theorem reviveRemoved_edits {route : Str} (hname : route ≠ []) (w : Option Nat) :
    Edits strict ts { ts with nodes := reviveRemoved ts.nodes route w } := by
  cases w with
  | none => exact Edits.refl
  | some i =>
    simp only [reviveRemoved]
    split
    · rename_i hold
      exact (revive_edit hname hold).single
    · exact Edits.refl

theorem checkWorker_ok {px : Option Proxy} {node : Option Nat} {nodeinfo : Nodeinfo}
    {worker : Option WorkerRef} {id : Int} (hname : nodeinfo.mess.jvmRoute ≠ []) (hid : id ≠ -1) :
    CheckedOk strict ts nodeinfo.mess (checkWorker ts px node nodeinfo worker id) := by
  have he := @renameRemoved_edits strict ts _ hname (workerNode ts.nodes node id)
  have hin : (workerNode ts.nodes node id).isSome = true →
      ∃ i, (renameRemoved ts.nodes nodeinfo.mess.jvmRoute (workerNode ts.nodes node id)).dptr id = some i := by
    intro hsome
    obtain ⟨i, hi⟩ := Option.isSome_iff_exists.mp hsome
    have hd : ts.nodes.dptr id = some i := by
      unfold workerNode at hi
      split at hi
      · rw [readNodeById, readNode_id hid] at hi
        exact hi
      · cases hi
    obtain ⟨h₁, h₂⟩ := dptr_eq_some.mp hd
    exact ⟨i, dptr_eq_some.mpr ⟨h₁, by rw [size_renameRemoved]; exact h₂⟩⟩
  unfold checkWorker reuseWorker
  simp only
  split
  · trivial
  split
  · split
    · split
      · exact he
      · refine ⟨he, rfl, ?_⟩
        intro hremoved
        simp only at hremoved ⊢
        split at hremoved
        · rename_i hsome
          exact ⟨(if_pos hsome).symm, hin hsome⟩
        · exact absurd rfl hremoved
    · exact he
  · exact he

theorem checkHostPort_ok {px : Option Proxy} {nodeinfo : Nodeinfo}
    (hname : nodeinfo.mess.jvmRoute ≠ []) :
    CheckedOk strict ts nodeinfo.mess (checkHostPort ts px nodeinfo) :=
  ⟨reviveRemoved_edits hname _, rfl, fun h => absurd rfl h⟩

variable (strict) in
theorem checkConfig_ok (httpd : Httpd) (ts : Tables) (px : Option Proxy) (args : ConfigArgs)
    (hname : (readNode ts.nodes args.node).2.mess.jvmRoute ≠ []) :
    CheckedOk strict ts (readNode ts.nodes args.node).2.mess (checkConfig httpd ts px args) := by
  unfold checkConfig
  simp only
  split
  · trivial
  split
  · trivial
  split
  · exact checkHostPort_ok hname
  split
  · exact ⟨Edits.refl, rfl, fun h => absurd rfl h⟩
  · exact checkWorker_ok hname (by assumption)

theorem readNode_mess (m : Table Nodeinfo) (node : Nodeinfo) (hids : m.IdsMatch (·.mess.id))
    (hid : node.mess.id = -1) :
    ∃ id, (readNode m node).2.mess = { node.mess with id := id } := by
  cases hf : m.first (hasRoute node.mess.jvmRoute) with
  | none => exact ⟨node.mess.id, by rw [readNode_none hid hf]⟩
  | some i => exact ⟨i, by rw [readNode_some hids hid hf]; rfl⟩

/-! ## The commit phase -/

theorem addContexts_edits {id vid : Int} {host : Str} (contexts : List Str)
    (hhost : HostUsed ts id vid) :
    Edits strict ts { ts with contexts := (addContexts now id vid host contexts ts.contexts).1 } := by
  induction contexts generalizing ts with
  | nil => exact Edits.refl
  | cons context rest ih =>
    unfold addContexts
    split
    · rename_i m' hm
      have he : Edit strict ts { ts with contexts := m' } :=
        insertUpdateContext_edit (c := { contextRecord id vid .stopped with
          id := 0, context := truncate CONTEXTSZ context }) hhost hm
      exact he.single.trans (ih hhost)
    · exact ih hhost

theorem addAliases_edits {id : Int} {contexts : List Str} (aliases : List Str) {vid : Int}
    (hnode : ∃ k n, ts.nodes.used k = some n ∧ id = k ∧ (strict → n.mess.jvmRoute ≠ REMOVED)) :
    Edits strict ts (addAliases now id contexts aliases vid ts).1 := by
  induction aliases generalizing ts vid with
  | nil => exact Edits.refl
  | cons host rest ih =>
    unfold addAliases
    split
    · exact ih hnode
    · rename_i hosts x hm
      obtain ⟨he, hused⟩ := insertUpdateHost_edit
        (x := hostRecord id vid (truncate HOSTALIASZ host)) hnode hm
      have hc := @addContexts_edits strict _ now _ _ host contexts hused
      refine (he.single.trans hc).trans (ih hnode)

theorem rollback_edits {removed : Int} {old : Option Balancerinfo} (hremoved : removed = -1) :
    Edits strict ts (rollback now ts removed old) := by
  unfold rollback
  rw [if_pos hremoved]
  cases old with
  | none => exact Edits.refl
  | some old =>
    simp only
    cases hb : insertUpdateBalancer now ts.balancers old with
    | none => exact Edits.refl
    | some r => exact (insertUpdateBalancer_edit hb).1.single

theorem StoredAt.pokeStat {route : Str} {id : Int} (h : StoredAt ts.nodes route id) (i : Nat)
    (f : WorkerShared → WorkerShared) : StoredAt (pokeStat ts i f).nodes route id := by
  obtain ⟨k, n, hn, rfl, hr⟩ := h
  refine ⟨k, _, used_poke_of _ hn, rfl, ?_⟩
  split
  · rename_i hik
    subst hik
    simp only [peek_of_used hn]
    exact hr
  · exact hr

theorem pairWorker_edits {px px' : Option Proxy} {plan : Plan} {nodeinfo : Nodeinfo} {id : Int}
    (h : pairWorker now ts px plan nodeinfo id = some (ts', px')) :
    Edits strict ts ts' ∧ ∀ route, StoredAt ts.nodes route id → StoredAt ts'.nodes route id := by
  unfold pairWorker at h
  split at h
  · cases h
    exact ⟨Edits.refl, fun _ hs => hs⟩
  · repeat' split at h
    all_goals cases h
    exact ⟨(pokeStat_edit _ _ _).single, fun _ hs => hs.pokeStat _ _⟩

theorem commitConfig_edits {px : Option Proxy} {args : ConfigArgs} {plan : Plan} (hids : IdsOk ts)
    (hargs : ArgsOk args) (hroute : strict → args.node.mess.jvmRoute ≠ REMOVED)
    (hplan : Edits strict ts { ts with nodes := plan.nodes })
    (hmess : ∃ id, plan.nodeinfo.mess = { args.node.mess with id := id })
    (hremoved : plan.removed ≠ -1 → plan.id = plan.removed ∧ ∃ i, plan.nodes.dptr plan.id = some i) :
    Edits strict ts (commitConfig now ts px args plan).tables := by
  obtain ⟨mid, hmess⟩ := hmess
  have hname : (readBalancer ts.balancers args.balancer).2.balancer = args.node.mess.balancer := by
    rw [← hargs.name]
    cases hf : ts.balancers.first (sameBalancer args.balancer.balancer) with
    | none => rw [readBalancer_none hargs.balancerId hf]
    | some i => rw [readBalancer_some hids.balancers hargs.balancerId hf]
  refine hplan.trans ?_
  have hids₁ := hplan.idsOk hids
  unfold commitConfig
  simp only
  split
  · exact Edits.refl
  rename_i balancers b hb
  obtain ⟨heb, hused⟩ := @insertUpdateBalancer_edit strict ({ ts with nodes := plan.nodes }) _ _ _ _ hb
  have hids₂ := heb.idsOk hids₁
  have hused₂ : BalancerUsed { ts with nodes := plan.nodes, balancers := balancers }
      plan.nodeinfo.mess.balancer := by
    rw [hmess, ← hname]
    exact hused
  refine heb.single.trans ?_
  split
  · -- The slot of a renamed node can always be taken, so `removed` is not set here.
    rename_i hnone
    refine rollback_edits ?_
    by_contra hrem
    obtain ⟨heq, i, hi⟩ := hremoved hrem
    have hne : plan.id ≠ -1 := by rwa [heq]
    rcases (insertUpdateNode_eq_none.mp hnone).2 with ⟨hid, -⟩ | ⟨-, hd⟩
    · exact hne hid
    · rw [hi] at hd
      cases hd
  rename_i nodes nodeinfo id hn
  obtain ⟨hen, hstored⟩ := insertUpdateNode_edit hids₂ hused₂
    (by rw [hmess]; exact hargs.route) (fun hs => by rw [hmess]; exact hroute hs) hn
  refine hen.single.trans ?_
  split
  · exact Edits.refl
  rename_i ts₄ px₄ hp
  obtain ⟨hep, hkeep⟩ := pairWorker_edits hp
  refine (hep.tail (Edit.version _)).trans (addAliases_edits _ ?_)
  obtain ⟨k, n, hn', hidk, hr⟩ := hkeep _ hstored
  refine ⟨k, n, hn', hidk, fun hs => ?_⟩
  rw [hr, hmess]
  exact hroute hs

/-- CONFIG is a run of edits, and of strict ones when it does not use the reserved
JVMRoute. -/
theorem processConfig_edits (httpd : Httpd) (mconf : Mconf) (now : Int) (px : Option Proxy) (argv : Argv)
    (hids : IdsOk ts)
    (hroute : strict → ∀ args, parseConfig httpd mconf argv = .ok args →
      args.node.mess.jvmRoute ≠ REMOVED) :
    Edits strict ts (processConfig httpd mconf now ts px argv).tables := by
  unfold processConfig
  split
  · exact Edits.refl
  rename_i args hparse
  have hargs := parseConfig_argsOk hparse
  obtain ⟨mid, hmid⟩ := readNode_mess ts.nodes args.node hids.nodes hargs.id
  have hcheck := checkConfig_ok strict httpd ts px args (by rw [hmid]; exact hargs.route)
  split
  · exact Edits.refl
  · rename_i nodes heq
    rw [heq] at hcheck
    exact hcheck
  · rename_i plan heq
    rw [heq] at hcheck
    obtain ⟨he, hmess, hremoved⟩ := hcheck
    exact commitConfig_edits hids hargs (fun hs => hroute hs args hparse) he
      ⟨mid, by rw [hmess, hmid]⟩ hremoved

end ModCluster
